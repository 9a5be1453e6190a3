import BeliefKV.Graph.Reports
import BeliefKV.Graph.Runs

/-! The events whose delta reports all they change. -/
namespace BeliefKV.RuntimeCausalContextGraph
variable {g g' : RuntimeCausalContextGraph} {e : RuntimeEvent} {i : String} {r : InvocationRecord}

/-- The end of the invocation reaches no other context. -/
def EndsWithin (g : RuntimeCausalContextGraph) (r : InvocationRecord) : Prop :=
  ∀ (k : String) (q : InvocationRecord), g.invocations[k]? = some q →
    Awakens g r k ∨ Frees g r k → q.contextId = r.contextId

/-- The invocation freed of a blocking child is in the context of the child or of an awakened one. -/
def FreesWithin (g : RuntimeCausalContextGraph) (r : InvocationRecord) : Prop :=
  ∀ (k : String) (q : InvocationRecord), g.invocations[k]? = some q → Frees g r k →
    q.contextId = r.contextId ∨ ∃ (w : String) (p : InvocationRecord), Awakens g r w ∧
      g.invocations[w]? = some p ∧ p.contextId = q.contextId

/-- What the handler finds of the invocation of its event when its delta reports all it changes. A
cancellation and a terminal result report one context, a return also those of the awakened; three
handlers report the invocation as awakened whatever its state. -/
def CoveredAt (g : RuntimeCausalContextGraph) (e : RuntimeEvent) (r : InvocationRecord) : Prop :=
  match e.kind with
  | .invocationCancel => r.state.terminal = false → EndsWithin g r
  | .return => r.state.terminal = false → FreesWithin g r
  | .llmResult => if e.attributes.terminal then EndsWithin g r else r.state ≠ .ready
  | .toolEnd => r.state ≠ .ready
  | .joinWait => ∀ (j : String) (q : JoinRecord), e.joinId = some j → g.joins[j]? = some q →
      q.satisfied = true → r.state ≠ .ready
  | _ => True

/-- The event is a repetition, or its delta reports all it changes. -/
def Covered (g : RuntimeCausalContextGraph) (e : RuntimeEvent) : Prop :=
  ¬ g.Processed e → ∀ r, g.eventInvocation e = .ok r → g.CoveredAt e r

theorem covered_iff (hp : ¬ g.Processed e) (hr : g.eventInvocation e = .ok r) :
    g.Covered e ↔ g.CoveredAt e r := by
  constructor
  · intro h
    exact h hp r hr
  · intro h _ q hq
    rw [hr] at hq
    cases hq
    exact h

theorem covered_of_kind (hk : e.kind ≠ .invocationCancel ∧ e.kind ≠ .return ∧ e.kind ≠ .llmResult ∧
    e.kind ≠ .toolEnd ∧ e.kind ≠ .joinWait) : g.Covered e := by
  intro _ r _
  unfold CoveredAt
  split <;> simp_all

theorem not_addressed (hk : e.kind ≠ .invocationCreate ∧ e.kind ≠ .call ∧ e.kind ≠ .spawn ∧
    e.kind ≠ .message ∧ e.kind ≠ .handoff) (k : String) : ¬ g.Addressed e k := by
  rintro ⟨-,h⟩
  revert h
  split <;> simp_all

theorem addressed_iff (hp : ¬ g.Processed e) (hk : e.kind = .call ∨ e.kind = .spawn ∨
    e.kind = .message ∨ e.kind = .handoff) {t : String} (ht : e.targetInvocationId = some t)
    (k : String) : g.Addressed e k ↔ k = t := by
  unfold Addressed
  rcases hk with hk | hk | hk | hk <;> simp [hp,hk,ht,eq_comm]

theorem liveInvocation_event (h : g.liveInvocation e = .ok r) :
    g.eventInvocation e = .ok r ∧ r.state.terminal = false := by
  obtain ⟨r',hr,h⟩ := bind_eq_ok.mp h
  obtain ⟨u,hlive,h⟩ := bind_eq_ok.mp h
  cases h
  exact ⟨hr,ensureNotTerminal_eq_ok.mp hlive⟩

theorem touchContext_at {c : String} (h : g.touchContext e c = .ok g') :
    g'.invocations = g.invocations ∧ ∀ a : String, g'.contexts[a]? ≠ g.contexts[a]? → a = c := by
  obtain ⟨x,-,-,rfl⟩ := touchContext_eq_ok h
  refine ⟨rfl,fun a hne => ?_⟩
  dsimp only at hne
  rw [Dict.get_insert] at hne
  split_ifs at hne with hac
  · exact hac.symm
  · exact absurd rfl hne

/-! ## Handlers -/

abbrev ReportsHandled (g : RuntimeCausalContextGraph) (e : RuntimeEvent)
    (x : Except Raised Handled) : Prop :=
  Yields x fun handled => Reports g e handled.graph handled.delta ↔ g.Covered e

abbrev ReportsFiring (g : RuntimeCausalContextGraph) (e : RuntimeEvent)
    (x : Except Raised (Handled × Wakes)) : Prop :=
  Yields x fun fired => Reports g e fired.1.graph fired.1.delta ↔ g.Covered e

section Handlers

theorem onWorkflowStart_reports (hk : e.kind = .workflowStart) :
    ReportsHandled g e (g.onWorkflowStart e) :=
  .bind fun _ _ => .ok (iff_of_true (.nothing rfl rfl rfl rfl (not_addressed (by simp [hk])))
    (covered_of_kind (by simp [hk])))

theorem onWorkflowEnd_reports (hk : e.kind = .workflowEnd) :
    ReportsHandled g e (g.onWorkflowEnd e) := by
  refine .bind fun w _ => .ok (iff_of_true ?_ (covered_of_kind (by simp [hk])))
  set f : InvocationRecord → InvocationRecord := fun r =>
    if r.state.terminal then r else { r with state := .cancelled, updatedTsMs := e.tsMs } with hf
  have hrew (ws : Dict String WorkflowRecord) :
      Rewrites g { g.editInvocations w.invocationIds f with workflows := ws }
        fun k r => if k ∈ w.invocationIds then f r else r := by
    refine ⟨fun k => ?_,fun k r _ => ?_⟩
    · change (g.invocations.updateAll w.invocationIds f)[k]? = _
      rw [Dict.get_updateAll]
      split_ifs <;> simp
    · split_ifs
      · simp only [hf]
        split_ifs <;> rfl
      · rfl
  have hmem {k : String} {r : InvocationRecord} (hr : g.invocations[k]? = some r)
      (hkw : k ∈ w.invocationIds) (hlive : r.state.terminal = false) :
      k ∈ w.invocationIds.filter fun id => g.invocations[id]?.any (·.state.terminal = false) :=
    Finset.mem_filter.mpr ⟨hkw,by simp [hr,hlive]⟩
  refine (hrew _).reports_iff.mpr ⟨fun k r hr hne => ?_,fun c hne => absurd rfl hne,fun k => ?_,
    fun k => ?_⟩
  · split_ifs at hne with hkw
    · by_cases ht : r.state.terminal = true
      · simp [hf,ht] at hne
      · exact Finset.mem_biUnion.mpr ⟨k,hmem hr hkw (by simpa using ht),by simp [hr]⟩
    · exact absurd rfl hne
  · refine iff_of_false (by simp) ?_
    rintro (⟨r,-,hne,heq⟩ | hadd)
    · split_ifs at heq
      · simp only [hf] at heq
        split_ifs at heq
        exact hne heq
      · exact hne heq
    · exact not_addressed (by simp [hk]) k hadd
  · constructor
    · intro hkc
      obtain ⟨hkw,hlive⟩ := Finset.mem_filter.mp hkc
      cases hr : g.invocations[k]? with
      | none => simp [hr] at hlive
      | some r =>
        have hlive' : r.state.terminal = false := by simpa [hr] using hlive
        refine ⟨r,rfl,hlive',?_⟩
        simp only [hkw,if_true,hf,hlive',Bool.false_eq_true,if_false]
        rfl
    · rintro ⟨r,hr,hlive,ht⟩
      split_ifs at ht with hkw
      · exact hmem hr hkw hlive
      · rw [hlive] at ht
        cases ht

theorem onInvocationCreate_reports (hp : ¬ g.Processed e) (hk : e.kind = .invocationCreate) :
    ReportsHandled g e (g.onInvocationCreate e) := by
  refine .bind fun w _ => .bind fun i hi => .bind fun c _ => .bind fun _ hnew => .bind fun pc _ =>
    .bind fun y _ => .ok (iff_of_true ?_ (covered_of_kind (by simp [hk])))
  have hnone := (Dict.notMem_iff_get _ _).mp (ensure_eq_ok.mp hnew)
  have hadd (k : String) : g.Addressed e k ↔ k = i := by
    have hid := (requireId_eq_ok.mp hi).1
    simp [Addressed,hp,hk,hid,eq_comm]
  refine ⟨fun k hne r hr => ?_,fun a hne => ?_,fun k => ?_,fun k => ?_⟩
  · dsimp only at hne hr ⊢
    rw [Dict.get_insert] at hne hr
    split_ifs at hne hr with hik
    · rcases hr with hr | hr
      · rw [← hik,hnone] at hr
        cases hr
      · rw [← Option.some.inj hr]
        exact Finset.mem_singleton_self c
    · exact absurd rfl hne
  · dsimp only at hne ⊢
    rw [Dict.get_insert] at hne
    split_ifs at hne with hac
    · rw [← hac]
      exact Finset.mem_singleton_self c
    · exact absurd rfl hne
  · rw [hadd,Finset.mem_singleton]
    refine ⟨.inr,fun h => h.resolve_left ?_⟩
    rintro ⟨r,r',hr,hr',hne,heq⟩
    dsimp only at hr'
    rw [Dict.get_insert] at hr'
    split_ifs at hr' with hik
    · rw [← hik,hnone] at hr
      cases hr
    · rw [hr] at hr'
      cases hr'
      exact hne heq
  · refine iff_of_false (by simp) ?_
    rintro ⟨r',hr',ht,hold⟩
    dsimp only at hr'
    rw [Dict.get_insert] at hr'
    split_ifs at hr' with hik
    · rw [← Option.some.inj hr'] at ht
      cases ht
    · rw [hold r' hr'] at ht
      cases ht

theorem eventInvocation_record (hg : g.WellFormed) (h : g.eventInvocation e = .ok r) :
    g.invocations[r.invocationId]? = some r := by
  obtain ⟨i,hi⟩ := eventInvocation_get h
  rw [hg.keyed i r hi]
  exact hi

/-- An event that writes the context of its invocation and stamps the invocation. -/
theorem touched_reports (hg : g.WellFormed) (hr : g.liveInvocation e = .ok r)
    (ht : g.touchContext e r.contextId = .ok g') (hk : e.kind = .contextAdvance ∨ e.kind = .contextCompact) :
    Reports g e (g'.stamp e r.invocationId)
      { eventId := e.eventId, changedContexts := {r.contextId} } ↔ g.Covered e := by
  obtain ⟨hev,hlive⟩ := liveInvocation_event hr
  obtain ⟨hinv,hctx⟩ := touchContext_at ht
  have hedit : (g'.stamp e r.invocationId).invocations =
      g.invocations.updateAll {r.invocationId} fun r => { r with updatedTsMs := e.tsMs } := by
    rw [← hinv]
    rfl
  have hcov : g.Covered e := covered_of_kind (by rcases hk with hk | hk <;> simp [hk])
  exact reports_one (A := False) (eventInvocation_record hg hev) hedit rfl hlive hctx rfl rfl (by simp)
    (not_addressed (by rcases hk with hk | hk <;> simp [hk])) (iff_of_true (by simp) hcov)

theorem onContextAdvance_reports (hg : g.WellFormed) (hk : e.kind = .contextAdvance) :
    ReportsHandled g e (g.onContextAdvance e) :=
  .bind fun _ hr => .bind fun _ _ => .bind fun _ ht => .ok (touched_reports hg hr ht (.inl hk))

theorem onContextCompact_reports (hg : g.WellFormed) (hk : e.kind = .contextCompact) :
    ReportsHandled g e (g.onContextCompact e) :=
  .bind fun _ hr => .bind fun _ _ => .bind fun _ _ => .bind fun _ _ => .bind fun _ _ =>
    .bind fun _ ht => .ok (touched_reports hg hr ht (.inr hk))

theorem onStructuredAction_reports (hk : e.kind = .structuredAction) :
    ReportsHandled g e (g.onStructuredAction e) :=
  .bind fun _ _ => .bind fun _ _ => .bind fun _ _ => .ok (iff_of_true
    (.nothing rfl rfl rfl rfl (not_addressed (by simp [hk]))) (covered_of_kind (by simp [hk])))

theorem onCallCensored_reports (hk : e.kind = .callCensored) :
    ReportsHandled g e (g.onCallCensored e) := by
  have hboth : Reports g e g { eventId := e.eventId } ↔ g.Covered e := iff_of_true
    (.nothing rfl rfl rfl rfl (not_addressed (by simp [hk]))) (covered_of_kind (by simp [hk]))
  unfold onCallCensored
  split
  · exact .ok hboth
  · exact .bind fun _ _ => .ok hboth

theorem onJoinCreate_reports (hk : e.kind = .joinCreate) :
    ReportsHandled g e (g.onJoinCreate e) :=
  .bind fun _ _ => .bind fun _ _ => .bind fun _ _ => .bind fun _ _ => .bind fun _ _ =>
    .bind fun _ _ => .ok (iff_of_true (.nothing rfl rfl rfl rfl (not_addressed (by simp [hk])))
      (covered_of_kind (by simp [hk])))

theorem onReactivate_reports (hg : g.WellFormed) (hk : e.kind = .reactivate) :
    ReportsHandled g e (g.onReactivate e) := by
  refine .bind fun r hr => .bind fun _ _ => .ok ?_
  obtain ⟨hev,-⟩ := liveInvocation_event hr
  have hno := not_addressed (g := g) (e := e) (by simp [hk])
  refine reports_one (A := r.state ≠ .ready) (eventInvocation_record hg hev) rfl rfl rfl
    (fun _ hne => absurd rfl hne) rfl rfl (fun k => ?_) hno ?_
  · dsimp only
    split_ifs with hready <;> simp [hready]
  · exact iff_of_true (by simp) (covered_of_kind (by simp [hk]))

theorem onToolStart_reports (hg : g.WellFormed) (hk : e.kind = .toolStart) :
    ReportsHandled g e (g.onToolStart e) := by
  refine .bind fun r hr => .ok ?_
  obtain ⟨hev,-⟩ := liveInvocation_event hr
  have hno := not_addressed (g := g) (e := e) (by simp [hk])
  refine reports_one (A := False) (eventInvocation_record hg hev) rfl rfl rfl
    (fun _ hne => absurd rfl hne) rfl rfl (fun k => ?_) hno ?_
  · simp
  · exact iff_of_true (by simp) (covered_of_kind (by simp [hk]))

theorem onToolEnd_reports (hg : g.WellFormed) (hp : ¬ g.Processed e) (hk : e.kind = .toolEnd) :
    ReportsHandled g e (g.onToolEnd e) := by
  refine .bind fun r hr => .ok ?_
  obtain ⟨hev,-⟩ := liveInvocation_event hr
  have hno := not_addressed (g := g) (e := e) (by simp [hk])
  refine reports_one (A := True) (eventInvocation_record hg hev) rfl rfl rfl
    (fun _ hne => absurd rfl hne) rfl rfl (fun k => ?_) hno ?_
  · simp
  · rw [covered_iff hp hev]
    simp [CoveredAt,hk]

theorem onJoinWait_reports (hg : g.WellFormed) (hp : ¬ g.Processed e) (hk : e.kind = .joinWait) :
    ReportsHandled g e (g.onJoinWait e) := by
  refine .bind fun r hr => .bind fun j hj => .bind fun q hq => .ok ?_
  have hid := (requireId_eq_ok.mp hj).1
  have hget := (join_eq_ok.mp hq).1
  have hno := not_addressed (g := g) (e := e) (by simp [hk])
  refine reports_one (A := q.satisfied = true) (eventInvocation_record hg hr) rfl rfl ?_
    (fun _ hne => absurd rfl hne) rfl rfl (fun k => ?_) hno ?_
  · cases q.satisfied <;> rfl
  · dsimp only
    split_ifs with hsat <;> simp [hsat]
  · have hcov : g.CoveredAt e r ↔ (q.satisfied = true → r.state ≠ .ready) := by
      simp only [CoveredAt,hk,hid,Option.some.injEq]
      constructor
      · intro h
        exact h j q rfl hget
      · rintro h j' q' rfl hq'
        rw [hget] at hq'
        cases hq'
        exact h
    rw [covered_iff hp hr,hcov]
    cases q.satisfied <;> simp

theorem linkChild_reports (hg : g.WellFormed) (hp : ¬ g.Processed e) (mode : ExecutionMode)
    (hk : e.kind = .call ∨ e.kind = .spawn) : ReportsHandled g e (g.linkChild e mode) := by
  refine .bind fun p hpar => .bind fun t ht => .bind fun q hq => .bind fun _ _ => .bind fun _ _ =>
    .bind fun _ _ => .bind fun _ _ => .bind fun _ _ =>
      .ok (iff_of_true ?_ (covered_of_kind (by rcases hk with hk | hk <;> simp [hk])))
  have hadd := addressed_iff hp (hk.imp_right .inl) (requireId_eq_ok.mp ht).1
  set m := e.executionMode.getD mode with hm
  have hrew : Rewrites g ((g.editInvocations {t} (linkedChild e p m)).editInvocations
      {p.invocationId} (linkedParent e t m)) fun k r => if k = p.invocationId then linkedParent e t m
        (if k = t then linkedChild e p m r else r) else if k = t then linkedChild e p m r else r := by
    refine ⟨fun k => ?_,fun k r _ => ?_⟩
    · change ((g.invocations.updateAll {t} _).updateAll {p.invocationId} _)[k]? = _
      simp only [Dict.get_updateAll,Finset.mem_singleton]
      split_ifs <;> simp [Function.comp_def]
    · unfold linkedParent linkedChild
      split_ifs <;> rfl
  refine hrew.reports_two (eventInvocation_record hg hpar) (invocation_eq_ok.mp hq).1
    (fun k r hks hkt => ?_) (fun k r hlive => ?_) (fun k r hkt hready => ?_) rfl rfl rfl rfl hadd
  · rw [if_neg hks,if_neg hkt]
  · unfold linkedParent linkedChild
    split_ifs <;> first | rfl | exact hlive
  · rw [if_neg hkt] at hready
    unfold linkedParent at hready
    split_ifs at hready <;> exact hready

theorem deliverMessage_reports (hg : g.WellFormed) (hp : ¬ g.Processed e) (handoff : Bool)
    (hk : e.kind = .message ∨ e.kind = .handoff) :
    ReportsHandled g e (g.deliverMessage e handoff) := by
  refine .bind fun p hsrc => .bind fun t ht => .bind fun q hq => .bind fun _ _ =>
    .ok (iff_of_true ?_ (covered_of_kind (by rcases hk with hk | hk <;> simp [hk])))
  have hadd := addressed_iff hp (.inr (.inr hk)) (requireId_eq_ok.mp ht).1
  set f : InvocationRecord → InvocationRecord := fun r => { r with
    pendingMessages := r.pendingMessages + 1, state := .ready, updatedTsMs := e.tsMs } with hf
  set edges := g.communicationEdges.insert (p.invocationId,t) (g.messageEdge e p.invocationId t)
  have hs := eventInvocation_record hg hsrc
  have ht := (invocation_eq_ok.mp hq).1
  have hsent : Rewrites g { g.editInvocations {t} f with communicationEdges := edges }
      fun k r => if k = t then f r else r := by
    refine ⟨fun k => ?_,fun k r _ => ?_⟩
    · change (g.invocations.updateAll {t} f)[k]? = _
      simp only [Dict.get_updateAll,Finset.mem_singleton]
      split_ifs <;> simp
    · split_ifs <;> rfl
  have hparked : Rewrites g ({ g.editInvocations {t} f with
      communicationEdges := edges }.setState p.invocationId .waitMessage e.tsMs)
      fun k r => if k = p.invocationId then { (if k = t then f r else r) with
        state := .waitMessage, updatedTsMs := e.tsMs } else if k = t then f r else r := by
    refine ⟨fun k => ?_,fun k r _ => ?_⟩
    · change ((g.invocations.updateAll {t} f).updateAll {p.invocationId} _)[k]? = _
      simp only [Dict.get_updateAll,Finset.mem_singleton]
      split_ifs <;> simp [Function.comp_def]
    · split_ifs <;> rfl
  dsimp only
  split_ifs
  · refine hparked.reports_two hs ht (fun k r hks hkt => ?_) (fun k r hlive => ?_)
      (fun k r hkt hready => ?_) rfl rfl rfl rfl hadd
    · rw [if_neg hks,if_neg hkt]
    · split_ifs <;> first | rfl | exact hlive
    · rw [if_neg hkt] at hready
      split_ifs at hready
      exact hready
  · refine hsent.reports_two hs ht (fun k r _ hkt => ?_) (fun k r hlive => ?_)
      (fun k r hkt hready => ?_) rfl rfl rfl rfl hadd
    · rw [if_neg hkt]
    · split_ifs <;> first | rfl | exact hlive
    · rwa [if_neg hkt] at hready

theorem fireJoin_reports (hk : e.kind = .joinSatisfied ∨ e.kind = .joinTimeout) (satisfies : Bool) :
    ReportsFiring g e (g.fireJoin e satisfies) := by
  refine .bind fun j _ => .bind fun q _ =>
    .ok (iff_of_true ?_ (covered_of_kind (by rcases hk with hk | hk <;> simp [hk])))
  set marked : RuntimeCausalContextGraph :=
    { g with joins := g.joins.insert j { q with satisfied := satisfies || q.satisfied } } with hmarked
  have hno := not_addressed (g := g) (e := e) (by rcases hk with hk | hk <;> simp [hk])
  have hrew : Rewrites g (marked.wakeJoinWaiters q e.tsMs) fun k r =>
      if k ∈ q.waiterInvocationIds then (if r.state = .waitJoin then
        { r with state := .ready, updatedTsMs := e.tsMs } else r) else r := by
    refine ⟨fun k => ?_,fun k r _ => ?_⟩
    · change (g.invocations.updateAll q.waiterInvocationIds _)[k]? = _
      rw [Dict.get_updateAll]
      split_ifs <;> simp
    · split_ifs <;> rfl
  have hwoken (k : String) : k ∈ marked.wakeable q ↔ k ∈ q.waiterInvocationIds ∧
      ∃ r : InvocationRecord, g.invocations[k]? = some r ∧ r.state = .waitJoin := mem_wakeable
  refine hrew.reports_iff.mpr ⟨fun k r hr hne => ?_,fun c hne => absurd rfl hne,fun k => ?_,
    fun k => ?_⟩
  · split_ifs at hne with hkw hwait
    · refine Finset.mem_biUnion.mpr ⟨k,(hwoken k).mpr ⟨hkw,r,hr,hwait⟩,?_⟩
      rw [hrew.get,hr,Option.map_some,if_pos hkw,if_pos hwait]
      simp
    · exact absurd rfl hne
    · exact absurd rfl hne
  · rw [or_iff_left (hno k)]
    refine (hwoken k).trans ?_
    constructor
    · rintro ⟨hkw,r,hr,hwait⟩
      refine ⟨r,hr,by simp [hwait],?_⟩
      rw [if_pos hkw,if_pos hwait]
    · rintro ⟨r,hr,hne,heq⟩
      split_ifs at heq with hkw hwait
      · exact ⟨hkw,r,hr,hwait⟩
      · exact absurd heq hne
      · exact absurd heq hne
  · refine iff_of_false (by simp) ?_
    rintro ⟨r,-,hlive,ht⟩
    split_ifs at ht
    · cases ht
    · rw [hlive] at ht
      cases ht
    · rw [hlive] at ht
      cases ht

theorem onInvocationCancel_reports (hg : g.WellFormed) (hp : ¬ g.Processed e)
    (hk : e.kind = .invocationCancel) : ReportsFiring g e (g.onInvocationCancel e) := by
  have hno := not_addressed (g := g) (e := e) (by simp [hk])
  refine .bind fun r hr => .ite (fun hterm => .ok ?_) fun hlive => .ok ?_
  · exact iff_of_true (.nothing rfl rfl rfl rfl hno)
      ((covered_iff hp hr).mpr (by simp [CoveredAt,hk,hterm]))
  · have hlive' : r.state.terminal = false := by simpa using hlive
    rw [covered_iff hp hr,finish_reports_iff hg (eventInvocation_record hg hr) hlive' rfl hg rfl rfl
      (fun _ hne => absurd rfl hne) (Finset.mem_singleton_self _) rfl rfl hno]
    simp [CoveredAt,hk,hlive',EndsWithin]

theorem onReturn_reports (hg : g.WellFormed) (hp : ¬ g.Processed e) (hk : e.kind = .return) :
    ReportsFiring g e (g.onReturn e) := by
  have hno := not_addressed (g := g) (e := e) (by simp [hk])
  refine .bind fun r hr => .ite (fun hterm => .ok ?_) fun hlive => .ok ?_
  · exact iff_of_true (.nothing rfl rfl rfl rfl hno)
      ((covered_iff hp hr).mpr (by simp [CoveredAt,hk,hterm]))
  · have hlive' : r.state.terminal = false := by simpa using hlive
    have hget := eventInvocation_record hg hr
    rw [covered_iff hp hr,finish_reports_iff hg hget hlive' rfl hg rfl rfl
      (fun _ hne => absurd rfl hne) (Finset.mem_insert_self _ _) rfl rfl hno]
    simp only [CoveredAt,hk,hlive',FreesWithin,Finset.mem_insert,
      finishInvocation_contextsOf hg hget (show InvocationState.done.terminal = true from rfl)]
    constructor
    · intro h _ k q hq hfree
      exact h k q hq (.inr hfree)
    · rintro h k q hq (hwake | hfree)
      · exact .inr ⟨k,q,hwake,hq,rfl⟩
      · exact h trivial k q hq hfree

theorem onLlmResult_reports (hg : g.WellFormed) (hp : ¬ g.Processed e) (hk : e.kind = .llmResult) :
    ReportsFiring g e (g.onLlmResult e) := by
  have hno := not_addressed (g := g) (e := e) (by simp [hk])
  refine .bind fun r hr => .bind fun h ht => .ite (fun hterm => .ok ?_) fun hterm => .ok ?_
  · obtain ⟨hev,hlive⟩ := liveInvocation_event hr
    obtain ⟨hh,hjoins,hinv⟩ := hg.touchContext ht
    rw [covered_iff hp hev,finish_reports_iff hg (eventInvocation_record hg hev) hlive rfl hh hinv hjoins
      (touchContext_at ht).2 (Finset.mem_singleton_self _) rfl rfl hno]
    simp [CoveredAt,hk,hterm,EndsWithin]
  · obtain ⟨hev,-⟩ := liveInvocation_event hr
    obtain ⟨hinv,hctx⟩ := touchContext_at ht
    have hedit : (h.setState r.invocationId .ready e.tsMs).invocations =
        g.invocations.updateAll {r.invocationId} fun q => { q with
          state := .ready, updatedTsMs := e.tsMs } := by
      rw [← hinv]
      rfl
    refine reports_one (A := True) (eventInvocation_record hg hev) hedit rfl rfl hctx rfl rfl
      (fun k => ?_) hno ?_
    · simp
    · rw [covered_iff hp hev]
      simp [CoveredAt,hk,hterm]

theorem onLlmSubmit_reports (hg : g.WellFormed) (hk : e.kind = .llmSubmit) :
    Yields (g.onLlmSubmit e).result fun delta =>
      Reports g e (g.onLlmSubmit e).graph delta ↔ g.Covered e := by
  have hno := not_addressed (g := g) (e := e) (by simp [hk])
  unfold onLlmSubmit
  dsimp only
  split
  · exact fun _ h => by cases h
  · rename_i r touched hopen
    obtain ⟨r',hr,hopen⟩ := bind_eq_ok.mp hopen
    obtain ⟨t,ht,hopen⟩ := bind_eq_ok.mp hopen
    cases hopen
    obtain ⟨hev,-⟩ := liveInvocation_event hr
    obtain ⟨hinv,hctx⟩ := touchContext_at ht
    split
    · exact fun _ h => by cases h
    · rename_i consumed _
      refine .ok (reports_one (A := False) (eventInvocation_record hg hev) (f := fun q => { q with
          state := .runningLlm
          pendingMessages := ((q.pendingMessages : ℤ) - consumed).toNat
          updatedTsMs := e.tsMs
          llmRound := q.llmRound + 1 }) ?_ rfl rfl hctx rfl rfl (fun k => ?_) hno ?_)
      · apply Dict.ext_get
        intro k
        change ((touched.invocations.updateAll {r.invocationId} _).updateAll {r.invocationId} _)[k]? = _
        rw [hinv]
        simp only [Dict.get_updateAll]
        split_ifs <;> simp [Function.comp_def]
      · simp
      · exact iff_of_true (by simp) (covered_of_kind (by simp [hk]))

theorem reports_ofHandled {x : Except Raised Handled} (hx : ReportsHandled g e x) :
    Yields (Outcome.ofHandled g x).result fun delta =>
      Reports g e (Outcome.ofHandled g x).graph delta ↔ g.Covered e := by
  cases x with
  | error => exact fun _ h => by cases h
  | ok handled => exact .ok (hx _ rfl)

theorem reports_ofFiring {x : Except Raised (Handled × Wakes)} (hx : ReportsFiring g e x) :
    Yields (Outcome.ofFiring g x).result fun delta =>
      Reports g e (Outcome.ofFiring g x).graph delta ↔ g.Covered e := by
  cases x with
  | error => exact fun _ h => by cases h
  | ok fired => exact .ok (hx _ rfl)

theorem handle_reports (hg : g.WellFormed) (hp : ¬ g.Processed e) :
    Yields (g.handle e).result fun delta => Reports g e (g.handle e).graph delta ↔ g.Covered e := by
  unfold handle
  split <;> rename_i hk
  · exact reports_ofHandled (onWorkflowStart_reports hk)
  · exact reports_ofHandled (onWorkflowEnd_reports hk)
  · exact reports_ofHandled (onInvocationCreate_reports hp hk)
  · exact reports_ofFiring (onInvocationCancel_reports hg hp hk)
  · exact reports_ofHandled (onContextAdvance_reports hg hk)
  · exact reports_ofHandled (onContextCompact_reports hg hk)
  · exact reports_ofHandled (linkChild_reports hg hp _ (.inl hk))
  · exact reports_ofHandled (linkChild_reports hg hp _ (.inr hk))
  · exact reports_ofFiring (onReturn_reports hg hp hk)
  · exact reports_ofHandled (deliverMessage_reports hg hp _ (.inl hk))
  · exact reports_ofHandled (deliverMessage_reports hg hp _ (.inr hk))
  · exact reports_ofHandled (onReactivate_reports hg hk)
  · exact reports_ofHandled (onJoinCreate_reports hk)
  · exact reports_ofHandled (onJoinWait_reports hg hp hk)
  · exact reports_ofFiring (fireJoin_reports (.inl hk) _)
  · exact reports_ofFiring (fireJoin_reports (.inr hk) _)
  · exact reports_ofHandled (onToolStart_reports hg hk)
  · exact reports_ofHandled (onToolEnd_reports hg hp hk)
  · exact onLlmSubmit_reports hg hk
  · exact reports_ofFiring (onLlmResult_reports hg hp hk)
  · exact reports_ofHandled (onCallCensored_reports hk)
  · exact reports_ofHandled (onStructuredAction_reports hk)

end Handlers

/-! ## Accepted events -/

theorem apply_reports_iff (hg : g.WellFormed) {delta : GraphDelta}
    (h : (g.apply e).result = .ok delta) : Reports g e (g.step e) delta ↔ g.Covered e := by
  by_cases hp : g.Processed e
  · have hstep := step_of_processed hp
    simp only [apply,hp,if_true,Except.ok.injEq] at h
    subst h
    rw [hstep]
    exact iff_of_true (.nothing rfl rfl rfl rfl fun k hk => hk.1 hp) fun hn => absurd hp hn
  · obtain ⟨handled,hok,rfl⟩ := apply_delta hp h
    have ha : g.Accepts e := by
      unfold Accepts
      rw [h]
      rfl
    rw [(step_of_accepted ha hp).2]
    refine Iff.trans ?_ (handle_reports hg hp handled hok)
    constructor
    · rintro ⟨h₁,h₂,h₃,h₄⟩
      exact ⟨h₁,h₂,h₃,h₄⟩
    · rintro ⟨h₁,h₂,h₃,h₄⟩
      exact ⟨h₁,h₂,h₃,h₄⟩

/-- The delta of an accepted event reports all the event changed exactly when the event is covered. -/
theorem delta_reports_iff_covered (strict : Bool) (events : List RuntimeEvent) (e : RuntimeEvent)
    (delta : GraphDelta) (h : (((start strict).run events).apply e).result = .ok delta) :
    Reports ((start strict).run events) e (((start strict).run events).apply e).graph delta ↔
      ((start strict).run events).Covered e :=
  apply_reports_iff (run_wellFormed strict events) h

theorem apply_result {A : Type} {x : A} {f : GraphDelta → A}
    (h : (g.apply e).result.toOption.map f = some x) :
    ∃ delta, (g.apply e).result = .ok delta ∧ f delta = x := by
  obtain ⟨delta,hd,hf⟩ := Option.map_eq_some_iff.mp h
  cases hr : (g.apply e).result with
  | error err => simp [hr,Except.toOption] at hd
  | ok d =>
    rw [hr] at hd
    cases hd
    exact ⟨delta,rfl,hf⟩

/-- The end of a tool call is reported. -/
theorem delta_reports_sample : ∃ delta, (((start true).run (sampleStart ++
    [sampleEvent "tool" .toolStart (some "a") none none])).apply
      (sampleEvent "tool end" .toolEnd (some "a") none none)).result = .ok delta ∧
    Reports ((start true).run (sampleStart ++ [sampleEvent "tool" .toolStart (some "a") none none]))
      (sampleEvent "tool end" .toolEnd (some "a") none none)
      (((start true).run (sampleStart ++ [sampleEvent "tool" .toolStart (some "a") none none])).apply
        (sampleEvent "tool end" .toolEnd (some "a") none none)).graph delta := by
  have hres : (((start true).run (sampleStart ++
      [sampleEvent "tool" .toolStart (some "a") none none])).apply
      (sampleEvent "tool end" .toolEnd (some "a") none none)).result.toOption.map
        GraphDelta.changedContexts = some {"ca"} := by decide
  have hstate : ((start true).run (sampleStart ++
      [sampleEvent "tool" .toolStart (some "a") none none])).invocations["a"]?.map
        InvocationRecord.state = some .waitTool := by decide
  obtain ⟨delta,hd,-⟩ := apply_result hres
  refine ⟨delta,hd,(delta_reports_iff_covered true _ _ delta hd).mpr fun _ r hr => ?_⟩
  obtain ⟨i,hi,-,hget,-⟩ := eventInvocation_eq_ok.mp hr
  cases hi
  rw [hget] at hstate
  have hwait : r.state = .waitTool := Option.some.inj hstate
  change r.state ≠ .ready
  rw [hwait]
  decide

/-- The cancellation of a called invocation wakes its parent and does not report the parent's
context. -/
theorem cancellation_hides_parent : ∃ delta, (((start true).run (sampleStart ++
    [sampleEvent "call" .call (some "a") (some "b") none])).apply
      (sampleEvent "cancel" .invocationCancel (some "b") none none)).result = .ok delta ∧
    ¬ Reports ((start true).run (sampleStart ++ [sampleEvent "call" .call (some "a") (some "b") none]))
      (sampleEvent "cancel" .invocationCancel (some "b") none none)
      (((start true).run (sampleStart ++ [sampleEvent "call" .call (some "a") (some "b") none])).apply
        (sampleEvent "cancel" .invocationCancel (some "b") none none)).graph delta := by
  have hres : (((start true).run (sampleStart ++
      [sampleEvent "call" .call (some "a") (some "b") none])).apply
      (sampleEvent "cancel" .invocationCancel (some "b") none none)).result.toOption.map
        GraphDelta.changedContexts = some {"cb"} := by decide
  have hbefore : ((start true).run (sampleStart ++
      [sampleEvent "call" .call (some "a") (some "b") none])).invocations["a"]?.map
        (fun r => (r.state,r.contextId)) = some (.waitChild,"ca") := by decide
  have hafter : (((start true).run (sampleStart ++
      [sampleEvent "call" .call (some "a") (some "b") none])).apply
      (sampleEvent "cancel" .invocationCancel (some "b") none none)).graph.invocations["a"]?.map
        InvocationRecord.state = some .ready := by decide
  obtain ⟨delta,hd,hc⟩ := apply_result hres
  obtain ⟨r,hr,hst⟩ := Option.map_eq_some_iff.mp hbefore
  obtain ⟨r',hr',hst'⟩ := Option.map_eq_some_iff.mp hafter
  obtain ⟨hwait,hplace⟩ := Prod.mk.inj hst
  refine ⟨delta,hd,fun hrep => ?_⟩
  have hne : links r' ≠ links r := by
    intro heq
    have hsame : r'.state = r.state := congrArg Prod.fst heq
    rw [hst',hwait] at hsame
    cases hsame
  have hmem := hrep.invocations "a" (by rw [hr,hr']; simpa using hne) r (.inl hr)
  rw [hc,hplace] at hmem
  exact absurd hmem (by decide)

end BeliefKV.RuntimeCausalContextGraph
