import BeliefKV.Graph.Deltas

/-! Whether the delta an accepted event returns reports all that the event changed. -/
namespace BeliefKV.RuntimeCausalContextGraph
variable {g g' : RuntimeCausalContextGraph} {e : RuntimeEvent} {i k : String} {r : InvocationRecord}

/-- The state, the pending messages and the links of an invocation. -/
def links (r : InvocationRecord) : InvocationState × ℕ × Option String × Option String ×
    Option String × Finset String × Finset String :=
  (r.state,r.pendingMessages,r.joinId,r.parentInvocationId,r.returnTargetId,r.childInvocationIds,
    r.blockingChildIds)

/-- The invocation is READY now and was not before. -/
def BecameReady (g g' : RuntimeCausalContextGraph) (i : String) : Prop :=
  ∃ r r' : InvocationRecord, g.invocations[i]? = some r ∧ g'.invocations[i]? = some r' ∧
    r.state ≠ .ready ∧ r'.state = .ready

/-- The invocation is terminal now and was not before. -/
def BecameTerminal (g g' : RuntimeCausalContextGraph) (i : String) : Prop :=
  ∃ r' : InvocationRecord, g'.invocations[i]? = some r' ∧ r'.state.terminal = true ∧
    ∀ r : InvocationRecord, g.invocations[i]? = some r → r.state.terminal = false

/-- The invocation that a new event creates, links or messages. -/
def Addressed (g : RuntimeCausalContextGraph) (e : RuntimeEvent) (i : String) : Prop :=
  ¬ g.Processed e ∧ match e.kind with
    | .invocationCreate => e.invocationId = some i
    | .call | .spawn | .message | .handoff => e.targetInvocationId = some i
    | _ => False

/-- The delta names the context of every invocation that differs and every context that does, and
exactly the invocations that became READY (or were created, linked or messaged) or terminal. -/
structure Reports (g : RuntimeCausalContextGraph) (e : RuntimeEvent)
    (g' : RuntimeCausalContextGraph) (delta : GraphDelta) : Prop where
  invocations : ∀ i : String, g'.invocations[i]?.map links ≠ g.invocations[i]?.map links →
    ∀ r : InvocationRecord, g.invocations[i]? = some r ∨ g'.invocations[i]? = some r →
      r.contextId ∈ delta.changedContexts
  contexts : ∀ c : String, g'.contexts[c]? ≠ g.contexts[c]? → c ∈ delta.changedContexts
  awakened : ∀ i, i ∈ delta.awakenedInvocations ↔ BecameReady g g' i ∨ g.Addressed e i
  completed : ∀ i, i ∈ delta.completedInvocations ↔ BecameTerminal g g' i

/-! ## Records that are rewritten in place -/

/-- Every record is rewritten in its own context. -/
structure Rewrites (g g' : RuntimeCausalContextGraph)
    (f : String → InvocationRecord → InvocationRecord) : Prop where
  get : ∀ k : String, g'.invocations[k]? = g.invocations[k]?.map (f k)
  place : ∀ (k : String) (r : InvocationRecord), g.invocations[k]? = some r →
    (f k r).contextId = r.contextId

section Rewrites
variable {f : String → InvocationRecord → InvocationRecord} {delta : GraphDelta}

theorem Rewrites.becameReady (h : Rewrites g g' f) : BecameReady g g' k ↔
    ∃ r, g.invocations[k]? = some r ∧ r.state ≠ .ready ∧ (f k r).state = .ready := by
  constructor
  · rintro ⟨r,r',hr,hr',hne,heq⟩
    rw [h.get,hr,Option.map_some] at hr'
    cases hr'
    exact ⟨r,hr,hne,heq⟩
  · rintro ⟨r,hr,hne,heq⟩
    exact ⟨r,f k r,hr,by rw [h.get,hr,Option.map_some],hne,heq⟩

theorem Rewrites.becameTerminal (h : Rewrites g g' f) : BecameTerminal g g' k ↔
    ∃ r, g.invocations[k]? = some r ∧ r.state.terminal = false ∧ (f k r).state.terminal = true := by
  constructor
  · rintro ⟨r',hr',ht,hold⟩
    rw [h.get] at hr'
    obtain ⟨r,hr,rfl⟩ := Option.map_eq_some_iff.mp hr'
    exact ⟨r,hr,hold r hr,ht⟩
  · rintro ⟨r,hr,hlive,ht⟩
    refine ⟨f k r,by rw [h.get,hr,Option.map_some],ht,fun q hq => ?_⟩
    rw [hr] at hq
    cases hq
    exact hlive

/-- What a delta must say of records that are rewritten in place. -/
theorem Rewrites.reports_iff (h : Rewrites g g' f) : Reports g e g' delta ↔
    (∀ (k : String) (r : InvocationRecord), g.invocations[k]? = some r → links (f k r) ≠ links r →
      r.contextId ∈ delta.changedContexts) ∧
    (∀ c : String, g'.contexts[c]? ≠ g.contexts[c]? → c ∈ delta.changedContexts) ∧
    (∀ k, k ∈ delta.awakenedInvocations ↔ (∃ r, g.invocations[k]? = some r ∧ r.state ≠ .ready ∧
      (f k r).state = .ready) ∨ g.Addressed e k) ∧
    ∀ k, k ∈ delta.completedInvocations ↔ ∃ r, g.invocations[k]? = some r ∧
      r.state.terminal = false ∧ (f k r).state.terminal = true := by
  have hinv : (∀ i : String, g'.invocations[i]?.map links ≠ g.invocations[i]?.map links →
      ∀ r : InvocationRecord, g.invocations[i]? = some r ∨ g'.invocations[i]? = some r →
        r.contextId ∈ delta.changedContexts) ↔
      ∀ (k : String) (r : InvocationRecord), g.invocations[k]? = some r →
        links (f k r) ≠ links r → r.contextId ∈ delta.changedContexts := by
    constructor
    · intro hall k r hr hne
      refine hall k ?_ r (.inl hr)
      rw [h.get,hr]
      exact fun heq => hne (Option.some.inj heq)
    · intro hall k hne r hr
      cases hq : g.invocations[k]? with
      | none => simp [h.get,hq] at hne
      | some q =>
        have hplace := h.place k q hq
        rw [h.get,hq] at hne hr
        have hmem := hall k q hq fun heq => hne (congrArg some heq)
        rcases hr with hr | hr
        · rwa [← Option.some.inj hr]
        · rw [← Option.some.inj hr,hplace]
          exact hmem
  constructor
  · rintro ⟨h₁,h₂,h₃,h₄⟩
    exact ⟨hinv.mp h₁,h₂,fun k => (h₃ k).trans (or_congr_left h.becameReady),
      fun k => (h₄ k).trans h.becameTerminal⟩
  · rintro ⟨h₁,h₂,h₃,h₄⟩
    exact ⟨hinv.mpr h₁,h₂,fun k => (h₃ k).trans (or_congr_left h.becameReady.symm),
      fun k => (h₄ k).trans h.becameTerminal.symm⟩

/-- An event that rewrites nothing has nothing to report. -/
theorem Reports.nothing (hinv : g'.invocations = g.invocations) (hctx : g'.contexts = g.contexts)
    (ha : delta.awakenedInvocations = ∅) (hd : delta.completedInvocations = ∅)
    (hno : ∀ k, ¬ g.Addressed e k) : Reports g e g' delta := by
  have hr : Rewrites g g' fun _ r => r := ⟨fun k => by rw [hinv]; simp,fun _ _ _ => rfl⟩
  refine hr.reports_iff.mpr ⟨fun k r _ hne => absurd rfl hne,fun c hne => ?_,fun k => ?_,fun k => ?_⟩
  · rw [hctx] at hne
    exact absurd rfl hne
  · rw [ha]
    refine iff_of_false (by simp) ?_
    rintro (⟨r,-,hne,heq⟩ | hadd)
    · exact hne heq
    · exact hno k hadd
  · rw [hd]
    refine iff_of_false (by simp) ?_
    rintro ⟨r,-,hlive,ht⟩
    rw [hlive] at ht
    cases ht

/-- An event that rewrites one invocation, leaves it live, and reports its context. -/
theorem reports_one {f : InvocationRecord → InvocationRecord} {A C : Prop}
    (hr : g.invocations[i]? = some r) (hinv : g'.invocations = g.invocations.updateAll {i} f)
    (hplace : (f r).contextId = r.contextId) (hlive : (f r).state.terminal = false)
    (hctx : ∀ c : String, g'.contexts[c]? ≠ g.contexts[c]? → c = r.contextId)
    (hc : delta.changedContexts = {r.contextId}) (hd : delta.completedInvocations = ∅)
    (ha : ∀ k, k ∈ delta.awakenedInvocations ↔ A ∧ k = i) (hno : ∀ k, ¬ g.Addressed e k)
    (hC : (A ↔ r.state ≠ .ready ∧ (f r).state = .ready) ↔ C) : Reports g e g' delta ↔ C := by
  have hrew : Rewrites g g' fun k q => if k = i then f q else q := by
    refine ⟨fun k => ?_,fun k q hq => ?_⟩
    · rw [hinv,Dict.get_updateAll]
      by_cases hk : k = i
      · simp [hk]
      · simp [hk]
    · split_ifs with hk
      · rw [hk,hr] at hq
        cases hq
        exact hplace
      · rfl
  rw [hrew.reports_iff,← hC]
  have h₁ (k : String) (q : InvocationRecord) (hq : g.invocations[k]? = some q)
      (hne : links (if k = i then f q else q) ≠ links q) : q.contextId ∈ delta.changedContexts := by
    split_ifs at hne with hk
    · rw [hk,hr] at hq
      cases hq
      simp [hc]
    · exact absurd rfl hne
  have h₂ (c : String) (hne : g'.contexts[c]? ≠ g.contexts[c]?) : c ∈ delta.changedContexts := by
    rw [hc,hctx c hne]
    exact Finset.mem_singleton_self _
  have h₄ (k : String) : k ∈ delta.completedInvocations ↔ ∃ q, g.invocations[k]? = some q ∧
      q.state.terminal = false ∧ (if k = i then f q else q).state.terminal = true := by
    rw [hd]
    refine iff_of_false (by simp) ?_
    rintro ⟨q,hq,hql,hqt⟩
    split_ifs at hqt with hk
    · rw [hk,hr] at hq
      cases hq
      rw [hlive] at hqt
      cases hqt
    · rw [hql] at hqt
      cases hqt
  refine ⟨fun ⟨_,_,h₃,_⟩ => ?_,fun hA => ⟨h₁,h₂,fun k => ?_,h₄⟩⟩
  · have hi := h₃ i
    rw [ha,or_iff_left (hno i)] at hi
    simpa [hr] using hi
  · rw [ha,or_iff_left (hno k)]
    by_cases hk : k = i
    · simpa [hk,hr] using hA
    · refine iff_of_false (fun h => hk h.2) ?_
      rintro ⟨q,-,hne,heq⟩
      rw [if_neg hk] at heq
      exact hne heq

/-- An event that rewrites its invocation and the one it addresses, and reports both contexts. -/
theorem Rewrites.reports_two (h : Rewrites g g' f) {s t : String} {p q : InvocationRecord}
    (hs : g.invocations[s]? = some p) (ht : g.invocations[t]? = some q)
    (hrest : ∀ (k : String) (r : InvocationRecord), k ≠ s → k ≠ t → f k r = r)
    (hlive : ∀ (k : String) (r : InvocationRecord), r.state.terminal = false →
      (f k r).state.terminal = false)
    (hready : ∀ (k : String) (r : InvocationRecord), k ≠ t → (f k r).state = .ready → r.state = .ready)
    (hctx : g'.contexts = g.contexts) (hc : delta.changedContexts = {p.contextId,q.contextId})
    (ha : delta.awakenedInvocations = {t}) (hd : delta.completedInvocations = ∅)
    (hadd : ∀ k, g.Addressed e k ↔ k = t) : Reports g e g' delta := by
  refine h.reports_iff.mpr ⟨fun k r hr hne => ?_,fun c hne => ?_,fun k => ?_,fun k => ?_⟩
  · rw [hc]
    by_cases hks : k = s
    · rw [hks,hs] at hr
      cases hr
      exact Finset.mem_insert_self _ _
    · by_cases hkt : k = t
      · rw [hkt,ht] at hr
        cases hr
        exact Finset.mem_insert_of_mem (Finset.mem_singleton_self _)
      · exact absurd (congrArg links (hrest k r hks hkt)) hne
  · rw [hctx] at hne
    exact absurd rfl hne
  · rw [ha,hadd,Finset.mem_singleton]
    refine ⟨.inr,fun hk => hk.elim ?_ id⟩
    rintro ⟨r,-,hne,heq⟩
    by_contra hkt
    exact hne (hready k r hkt heq)
  · rw [hd]
    refine iff_of_false (by simp) ?_
    rintro ⟨r,-,hl,ht⟩
    rw [hlive k r hl] at ht
    cases ht

end Rewrites

/-! ## The end of an invocation -/

/-- The invocation that waits for the end of another. -/
def target (r : InvocationRecord) : Option String := orElse r.returnTargetId r.parentInvocationId

/-- The return target waits for no other child. -/
def WakesTarget (g : RuntimeCausalContextGraph) (r : InvocationRecord) (k : String) : Prop :=
  target r = some k ∧ k ≠ r.invocationId ∧ ∃ q : InvocationRecord, g.invocations[k]? = some q ∧
    q.state = .waitChild ∧ q.blockingChildIds.erase r.invocationId = ∅

/-- The invocation waits in a join that fires. -/
def WakesWaiter (g : RuntimeCausalContextGraph) (r : InvocationRecord) (k : String) : Prop :=
  (∃ j, g.FiresFor r.invocationId j k) ∧ k ≠ r.invocationId ∧
    ∃ q : InvocationRecord, g.invocations[k]? = some q ∧ q.state = .waitJoin

/-- The end of one invocation makes another READY. -/
def Awakens (g : RuntimeCausalContextGraph) (r : InvocationRecord) (k : String) : Prop :=
  WakesTarget g r k ∨ WakesWaiter g r k

/-- The return target has the invocation among its blocking children. -/
def Frees (g : RuntimeCausalContextGraph) (r : InvocationRecord) (k : String) : Prop :=
  target r = some k ∧ ∃ q : InvocationRecord, g.invocations[k]? = some q ∧
    r.invocationId ∈ q.blockingChildIds

/-- A return target after one of its children ended. -/
def releasedRecord (childId : String) (tsMs : ℚ) (q : InvocationRecord) : InvocationRecord :=
  if q.state = .waitChild ∧ q.blockingChildIds.erase childId = ∅ then
    { q with blockingChildIds := q.blockingChildIds.erase childId, state := .ready, updatedTsMs := tsMs }
  else { q with blockingChildIds := q.blockingChildIds.erase childId }

section Ending
open Classical
variable {tsMs : ℚ} {ws : Wakes} {st : InvocationState}

theorem releaseParent_get (g : RuntimeCausalContextGraph) (r : InvocationRecord) (tsMs : ℚ)
    (k : String) : (g.releaseParent r tsMs).1.invocations[k]? = g.invocations[k]?.map fun q =>
      if target r = some k then releasedRecord r.invocationId tsMs q else q := by
  unfold releaseParent target
  cases orElse r.returnTargetId r.parentInvocationId with
  | none => simp
  | some t =>
    dsimp only
    cases hp : g.invocations[t]? with
    | none =>
      by_cases hk : t = k
      · rw [← hk,hp]
        rfl
      · simp [hk]
    | some p =>
      have hrel : releasedRecord r.invocationId tsMs p = if p.state = .waitChild ∧
          p.blockingChildIds.erase r.invocationId = ∅ ∧ p.state.terminal = false then
          { p with
            blockingChildIds := p.blockingChildIds.erase r.invocationId
            state := .ready
            updatedTsMs := tsMs }
          else { p with blockingChildIds := p.blockingChildIds.erase r.invocationId } := by
        unfold releasedRecord
        by_cases hw : p.state = .waitChild
        · simp [hw,InvocationState.terminal]
        · simp [hw]
      by_cases hk : t = k
      · subst hk
        dsimp only
        rw [hp,Option.map_some,if_pos rfl,hrel]
        split_ifs
        all_goals
          change (g.invocations.updateAll {t} _)[t]? = _
          rw [Dict.get_updateAll,if_pos (Finset.mem_singleton_self t),hp,Option.map_some]
      · have hk' : k ∉ ({t} : Finset String) := by simpa using Ne.symm hk
        simp only [Option.some.injEq,hk,if_false,Option.map_id']
        split_ifs
        all_goals
          change (g.invocations.updateAll {t} _)[k]? = _
          rw [Dict.get_updateAll,if_neg hk']

theorem releaseParent_frame (g : RuntimeCausalContextGraph) (r : InvocationRecord) (tsMs : ℚ) :
    (g.releaseParent r tsMs).1.joins = g.joins ∧ (g.releaseParent r tsMs).1.joinOrder = g.joinOrder ∧
      (g.releaseParent r tsMs).1.contexts = g.contexts := by
  unfold releaseParent
  split
  · exact ⟨rfl,rfl,rfl⟩
  · split
    · exact ⟨rfl,rfl,rfl⟩
    · dsimp only
      split_ifs <;> exact ⟨rfl,rfl,rfl⟩

/-- The awakened return target. -/
theorem mem_releaseParent (hg : g.WellFormed) : k ∈ (g.releaseParent r tsMs).2 ↔ target r = some k ∧
    ∃ q : InvocationRecord, g.invocations[k]? = some q ∧ q.state = .waitChild ∧
      q.blockingChildIds.erase r.invocationId = ∅ := by
  unfold releaseParent target
  cases orElse r.returnTargetId r.parentInvocationId with
  | none => simp
  | some t =>
    dsimp only
    cases hp : g.invocations[t]? with
    | none =>
      refine iff_of_false (by simp) ?_
      rintro ⟨hk,q,hq,-⟩
      rw [← Option.some.inj hk,hp] at hq
      cases hq
    | some p =>
      have hkey := hg.keyed t p hp
      dsimp only
      split_ifs with hready
      · rw [Finset.mem_singleton,hkey]
        constructor
        · rintro rfl
          exact ⟨rfl,p,hp,hready.1,hready.2.1⟩
        · rintro ⟨hk,-⟩
          exact (Option.some.inj hk).symm
      · refine iff_of_false (by simp) ?_
        rintro ⟨hk,q,hq,hw,he⟩
        rw [← Option.some.inj hk,hp] at hq
        cases hq
        exact hready ⟨hw,he,by rw [hw]; rfl⟩

/-- The invocation waits in a join. -/
def WaitsJoin (g : RuntimeCausalContextGraph) (k : String) : Prop :=
  ∃ q : InvocationRecord, g.invocations[k]? = some q ∧ q.state = .waitJoin

/-- The invocations some fired join woke. -/
def WokenIn (ws : Wakes) (k : String) : Prop := ∃ w ∈ ws, k ∈ w.2

theorem mem_wakeable {q : JoinRecord} : k ∈ g.wakeable q ↔ k ∈ q.waiterInvocationIds ∧ g.WaitsJoin k := by
  unfold wakeable WaitsJoin
  rw [Finset.mem_filter]
  refine and_congr_right fun _ => ?_
  cases g.invocations[k]? <;> simp

theorem completeJoin_woken (g : RuntimeCausalContextGraph) (i j : String) (tsMs : ℚ) (ws : Wakes)
    (k : String) : WokenIn (completeJoin i tsMs (g,ws) j).2 k ↔
      WokenIn ws k ∨ g.FiresFor i j k ∧ g.WaitsJoin k := by
  unfold completeJoin
  cases hj : g.joins[j]? with
  | none =>
    refine (or_iff_left ?_).symm
    rintro ⟨⟨q,hq,-⟩,-⟩
    rw [hj] at hq
    cases hq
  | some q =>
    have hfires : g.FiresFor i j k ↔ q.FiredBy i ∧ k ∈ q.waiterInvocationIds := by
      simp [FiresFor,hj]
    dsimp only
    rw [hfires]
    split_ifs with hi hsat
    · have hf : q.FiredBy i := ⟨hi,hsat⟩
      simp only [WokenIn,List.mem_append,List.mem_singleton,or_and_right,exists_or,exists_eq_left,
        hf,true_and]
      exact or_congr_right mem_wakeable
    · refine (or_iff_left ?_).symm
      rintro ⟨⟨hf,-⟩,-⟩
      exact hsat hf.2
    · refine (or_iff_left ?_).symm
      rintro ⟨⟨hf,-⟩,-⟩
      exact hi hf.1

/-- The loop over the joins wakes exactly the invocations that wait in a join that fires. -/
theorem completeJoins_woken {order : List String} (hnodup : order.Nodup)
    (g : RuntimeCausalContextGraph) (ws : Wakes) (k : String) :
    WokenIn (order.foldl (completeJoin i tsMs) (g,ws)).2 k ↔
      WokenIn ws k ∨ (∃ j ∈ order, g.FiresFor i j k) ∧ g.WaitsJoin k := by
  induction order generalizing g ws with
  | nil => simp
  | cons j order ih =>
    obtain ⟨hj,hnodup⟩ := List.nodup_cons.mp hnodup
    have hround := completeJoin_spec g i j tsMs ws
    have hwoken := completeJoin_woken g i j tsMs ws k
    set mid := completeJoin i tsMs (g,ws) j with hmid
    rw [List.foldl_cons,← hmid,ih hnodup mid.1 mid.2,hwoken]
    have hsame : (∃ j' ∈ order, mid.1.FiresFor i j' k) ↔ ∃ j' ∈ order, g.FiresFor i j' k := by
      refine exists_congr fun j' => and_congr_right fun hj' => ?_
      have hne : j' ≠ j := fun h => hj (h ▸ hj')
      simp only [FiresFor,hround.joins,if_neg hne]
    have hwaits : mid.1.WaitsJoin k ↔ g.WaitsJoin k ∧ ¬ g.FiresFor i j k := by
      unfold WaitsJoin
      rw [hround.invocations]
      by_cases hf : g.FiresFor i j k
      · refine iff_of_false ?_ fun h => h.2 hf
        rintro ⟨q,hq,hw⟩
        obtain ⟨q₀,-,rfl⟩ := Option.map_eq_some_iff.mp hq
        rw [if_pos hf,wokenRecord] at hw
        split_ifs at hw with hst
        · exact hst hw
      · simp [hf]
    rw [hsame,hwaits]
    simp only [List.mem_cons,exists_eq_or_imp]
    tauto

/-- What the end of an invocation does to the record of each. -/
structure EndSpec (g : RuntimeCausalContextGraph) (r : InvocationRecord) (st : InvocationState)
    (k : String) (q q' : InvocationRecord) : Prop where
  contextId : q'.contextId = q.contextId
  kept : (q'.pendingMessages,q'.joinId,q'.parentInvocationId,q'.returnTargetId,q'.childInvocationIds) =
    (q.pendingMessages,q.joinId,q.parentInvocationId,q.returnTargetId,q.childInvocationIds)
  blocking : q'.blockingChildIds =
    if target r = some k then q.blockingChildIds.erase r.invocationId else q.blockingChildIds
  ended : k = r.invocationId → q'.state = st
  woken : Awakens g r k → q'.state = .ready
  same : k ≠ r.invocationId → ¬ Awakens g r k → q'.state = q.state

theorem releasedRecord_keeps (c : String) (tsMs : ℚ) (q : InvocationRecord) :
    (releasedRecord c tsMs q).contextId = q.contextId ∧
      (releasedRecord c tsMs q).blockingChildIds = q.blockingChildIds.erase c ∧
      ((releasedRecord c tsMs q).pendingMessages,(releasedRecord c tsMs q).joinId,
        (releasedRecord c tsMs q).parentInvocationId,(releasedRecord c tsMs q).returnTargetId,
        (releasedRecord c tsMs q).childInvocationIds) =
        (q.pendingMessages,q.joinId,q.parentInvocationId,q.returnTargetId,q.childInvocationIds) ∧
      (releasedRecord c tsMs q).state =
        if q.state = .waitChild ∧ q.blockingChildIds.erase c = ∅ then .ready else q.state := by
  unfold releasedRecord
  split_ifs <;> exact ⟨rfl,rfl,rfl,rfl⟩

theorem wokenRecord_keeps (tsMs : ℚ) (q : InvocationRecord) :
    (wokenRecord tsMs q).contextId = q.contextId ∧
      (wokenRecord tsMs q).blockingChildIds = q.blockingChildIds ∧
      ((wokenRecord tsMs q).pendingMessages,(wokenRecord tsMs q).joinId,
        (wokenRecord tsMs q).parentInvocationId,(wokenRecord tsMs q).returnTargetId,
        (wokenRecord tsMs q).childInvocationIds) =
        (q.pendingMessages,q.joinId,q.parentInvocationId,q.returnTargetId,q.childInvocationIds) ∧
      (wokenRecord tsMs q).state = if q.state = .waitJoin then .ready else q.state := by
  unfold wokenRecord
  split_ifs <;> exact ⟨rfl,rfl,rfl,rfl⟩

/-- The three edits the end of an invocation makes to one record. -/
theorem endSpec_of_edits (hst : st.terminal = true)
    {q q₁ q₂ q₃ : InvocationRecord} (hq : g.invocations[k]? = some q)
    (h₁ : q₁ = if k = r.invocationId then { q with state := st, updatedTsMs := tsMs } else q)
    (h₂ : q₂ = if target r = some k then releasedRecord r.invocationId tsMs q₁ else q₁)
    (h₃ : q₃ = q₂ ∧ (¬ ∃ j, g.FiresFor r.invocationId j k) ∨
      q₃ = wokenRecord tsMs q₂ ∧ ∃ j, g.FiresFor r.invocationId j k) : EndSpec g r st k q q₃ := by
  have hne {s : InvocationState} (hs : s.terminal = false) : st ≠ s := by
    rintro rfl
    rw [hst] at hs
    cases hs
  have hfirst : q₁.contextId = q.contextId ∧ q₁.blockingChildIds = q.blockingChildIds ∧
      (q₁.pendingMessages,q₁.joinId,q₁.parentInvocationId,q₁.returnTargetId,q₁.childInvocationIds) =
        (q.pendingMessages,q.joinId,q.parentInvocationId,q.returnTargetId,q.childInvocationIds) ∧
      q₁.state = if k = r.invocationId then st else q.state := by
    rw [h₁]
    split_ifs <;> exact ⟨rfl,rfl,rfl,rfl⟩
  obtain ⟨hc₁,hb₁,hk₁,hs₁⟩ := hfirst
  have hsecond : q₂.contextId = q.contextId ∧ q₂.blockingChildIds = (if target r = some k then
      q.blockingChildIds.erase r.invocationId else q.blockingChildIds) ∧
      (q₂.pendingMessages,q₂.joinId,q₂.parentInvocationId,q₂.returnTargetId,q₂.childInvocationIds) =
        (q.pendingMessages,q.joinId,q.parentInvocationId,q.returnTargetId,q.childInvocationIds) ∧
      q₂.state = if target r = some k ∧ q₁.state = .waitChild ∧
        q.blockingChildIds.erase r.invocationId = ∅ then .ready else q₁.state := by
    obtain ⟨hc,hb,hk,hs⟩ := releasedRecord_keeps r.invocationId tsMs q₁
    rw [h₂]
    by_cases ht : target r = some k
    · simp only [ht,if_true,true_and]
      exact ⟨hc.trans hc₁,by rw [hb,hb₁],hk.trans hk₁,by rw [hs,hb₁]⟩
    · simp only [ht,if_false,false_and]
      exact ⟨hc₁,hb₁,hk₁,trivial⟩
  obtain ⟨hc₂,hb₂,hk₂,hs₂⟩ := hsecond
  have hstate : q₃.state = if (∃ j, g.FiresFor r.invocationId j k) ∧ q₂.state = .waitJoin then
      .ready else q₂.state := by
    rcases h₃ with ⟨rfl,hno⟩ | ⟨rfl,hyes⟩
    · simp [hno]
    · simp [hyes,(wokenRecord_keeps tsMs q₂).2.2.2]
  have hlast : q₃.contextId = q₂.contextId ∧ q₃.blockingChildIds = q₂.blockingChildIds ∧
      (q₃.pendingMessages,q₃.joinId,q₃.parentInvocationId,q₃.returnTargetId,q₃.childInvocationIds) =
        (q₂.pendingMessages,q₂.joinId,q₂.parentInvocationId,q₂.returnTargetId,q₂.childInvocationIds) := by
    rcases h₃ with ⟨rfl,-⟩ | ⟨rfl,-⟩
    · exact ⟨rfl,rfl,rfl⟩
    · obtain ⟨hc,hb,hk,-⟩ := wokenRecord_keeps tsMs q₂
      exact ⟨hc,hb,hk⟩
  refine ⟨hlast.1.trans hc₂,hlast.2.2.trans hk₂,hlast.2.1.trans hb₂,fun hk => ?_,fun haw => ?_,
    fun hk hno => ?_⟩
  · rw [if_pos hk] at hs₁
    rw [hs₁,if_neg fun h => hne (by rfl) h.2.1] at hs₂
    rw [hstate,hs₂,if_neg fun h => hne (by rfl) h.2]
  · rcases haw with ⟨ht,hk,q',hq',hw,he⟩ | ⟨hf,hk,q',hq',hw⟩
    · rw [hq] at hq'
      cases hq'
      rw [if_neg hk] at hs₁
      rw [hs₁,if_pos ⟨ht,hw,he⟩] at hs₂
      simp [hstate,hs₂]
    · rw [hq] at hq'
      cases hq'
      rw [if_neg hk] at hs₁
      rw [hs₁,if_neg fun h => by rw [hw] at h; exact absurd h.2.1 (by decide)] at hs₂
      rw [hstate,if_pos ⟨hf,hs₂.trans hw⟩]
  · rw [if_neg hk] at hs₁
    rw [hs₁,if_neg fun h => hno (.inl ⟨h.1,hk,q,hq,h.2.1,h.2.2⟩)] at hs₂
    rw [hstate,hs₂,if_neg fun h => hno (.inr ⟨h.1,hk,q,hq,h.2⟩)]

/-- The graph once an invocation has ended and its return target was released. -/
def releasedGraph (g : RuntimeCausalContextGraph) (e : RuntimeEvent) (r : InvocationRecord)
    (st : InvocationState) : RuntimeCausalContextGraph :=
  ((g.setState r.invocationId st e.tsMs).releaseParent r e.tsMs).1

theorem releasedGraph_get (k : String) : (g.releasedGraph e r st).invocations[k]? =
    g.invocations[k]?.map fun q => if target r = some k then releasedRecord r.invocationId e.tsMs
      (if k = r.invocationId then { q with state := st, updatedTsMs := e.tsMs } else q)
      else if k = r.invocationId then { q with state := st, updatedTsMs := e.tsMs } else q := by
  rw [releasedGraph,releaseParent_get]
  change Option.map _ (g.invocations.updateAll {r.invocationId} _)[k]? = _
  rw [Dict.get_updateAll]
  by_cases hk : k = r.invocationId
  · rw [if_pos (Finset.mem_singleton.mpr hk),Option.map_map]
    simp only [hk,if_true]
    rfl
  · rw [if_neg (by simpa using hk)]
    simp only [hk,if_false]

theorem releasedGraph_frame : (g.releasedGraph e r st).joins = g.joins ∧
    (g.releasedGraph e r st).joinOrder = g.joinOrder ∧ (g.releasedGraph e r st).contexts = g.contexts :=
  releaseParent_frame _ r e.tsMs

theorem releasedGraph_fires (hg : g.WellFormed) (i k : String) :
    (∃ j ∈ g.joinOrder, (g.releasedGraph e r st).FiresFor i j k) ↔ ∃ j, g.FiresFor i j k := by
  unfold FiresFor
  rw [releasedGraph_frame.1]
  constructor
  · rintro ⟨j,-,h⟩
    exact ⟨j,h⟩
  · rintro ⟨j,q,hq,h⟩
    exact ⟨j,(hg.order_mem j).mpr ((Dict.mem_iff_get _ _).mpr ⟨q,hq⟩),q,hq,h⟩

/-- Neither the end of an invocation nor the release of its target puts one in WAIT_JOIN. -/
theorem releasedGraph_waits (hst : st.terminal = true) : (g.releasedGraph e r st).WaitsJoin k ↔
    k ≠ r.invocationId ∧ ∃ q : InvocationRecord, g.invocations[k]? = some q ∧ q.state = .waitJoin := by
  have hne : st ≠ .waitJoin := by
    rintro rfl
    cases hst
  have hreleased (q : InvocationRecord) :
      (releasedRecord r.invocationId e.tsMs q).state = .waitJoin ↔ q.state = .waitJoin := by
    rw [(releasedRecord_keeps r.invocationId e.tsMs q).2.2.2]
    split_ifs with hready
    · simp [hready.1]
    · rfl
  unfold WaitsJoin
  rw [releasedGraph_get]
  by_cases hk : k = r.invocationId
  · refine iff_of_false ?_ fun h => h.1 hk
    rintro ⟨q,hq,hw⟩
    obtain ⟨q₀,-,rfl⟩ := Option.map_eq_some_iff.mp hq
    simp only [if_pos hk] at hw
    split_ifs at hw
    · exact hne ((hreleased _).mp hw)
    · exact hne hw
  · simp only [hk,if_false,ne_eq,not_false_eq_true,true_and]
    constructor
    · rintro ⟨q,hq,hw⟩
      obtain ⟨q₀,hq₀,rfl⟩ := Option.map_eq_some_iff.mp hq
      refine ⟨q₀,hq₀,?_⟩
      split_ifs at hw
      · exact (hreleased _).mp hw
      · exact hw
    · rintro ⟨q,hq,hw⟩
      refine ⟨_,by rw [hq,Option.map_some],?_⟩
      split_ifs
      · exact (hreleased _).mpr hw
      · exact hw

theorem finishInvocation_loop (g : RuntimeCausalContextGraph) (e : RuntimeEvent)
    (r : InvocationRecord) (st : InvocationState) :
    (g.finishInvocation e r st).1 = (g.joinOrder.foldl (completeJoin r.invocationId e.tsMs)
        (g.releasedGraph e r st,[])).1 ∧
      (g.finishInvocation e r st).2.2 = (g.joinOrder.foldl (completeJoin r.invocationId e.tsMs)
        (g.releasedGraph e r st,[])).2 := by
  have horder : (g.releasedGraph e r st).joinOrder = g.joinOrder := releasedGraph_frame.2.1
  rw [← horder]
  exact ⟨rfl,rfl⟩

theorem releasedGraph_loop (hg : g.WellFormed) (e : RuntimeEvent) (r : InvocationRecord)
    (st : InvocationState) : LoopSpec (g.releasedGraph e r st) r.invocationId e.tsMs g.joinOrder []
      (g.joinOrder.foldl (completeJoin r.invocationId e.tsMs) (g.releasedGraph e r st,[])) :=
  completeJoins_spec hg.order_nodup _ _

/-- The end of an invocation rewrites every record as specified. -/
theorem finishInvocation_rewrites (hg : g.WellFormed) (hget : g.invocations[i]? = some r)
    (hst : st.terminal = true) : ∃ f, Rewrites g (g.finishInvocation e r st).1 f ∧
      ∀ (k : String) (q : InvocationRecord), g.invocations[k]? = some q → EndSpec g r st k q (f k q) := by
  have hid := hg.keyed i r hget
  have hr : g.invocations[r.invocationId]? = some r := by rw [hid]; exact hget
  have hloop := releasedGraph_loop hg e r st
  set q₂ : String → InvocationRecord → InvocationRecord := fun k q =>
    if target r = some k then releasedRecord r.invocationId e.tsMs
      (if k = r.invocationId then { q with state := st, updatedTsMs := e.tsMs } else q)
    else if k = r.invocationId then { q with state := st, updatedTsMs := e.tsMs } else q with hq₂
  set f : String → InvocationRecord → InvocationRecord := fun k q =>
    if ∃ j, g.FiresFor r.invocationId j k then wokenRecord e.tsMs (q₂ k q) else q₂ k q with hf
  have hspec (k : String) (q : InvocationRecord) (hq : g.invocations[k]? = some q) :
      EndSpec g r st k q (f k q) := by
    refine endSpec_of_edits hst hq rfl (show q₂ k q = _ from rfl) ?_
    by_cases hfire : ∃ j, g.FiresFor r.invocationId j k
    · exact .inr ⟨if_pos hfire,hfire⟩
    · exact .inl ⟨if_neg hfire,hfire⟩
  refine ⟨f,⟨fun k => ?_,fun k q hq => (hspec k q hq).contextId⟩,hspec⟩
  rw [(finishInvocation_loop g e r st).1,hloop.invocations,releasedGraph_get,Option.map_map]
  refine congrArg (fun h => g.invocations[k]?.map h) (funext fun q => ?_)
  simp only [Function.comp_apply,releasedGraph_fires hg,hf,hq₂]

/-- The end of an invocation reports exactly the invocations it makes READY. -/
theorem finishInvocation_awakens (hg : g.WellFormed) (hst : st.terminal = true) :
    k ∈ (g.finishInvocation e r st).2.1 ↔ Awakens g r k := by
  have hne {s : InvocationState} (hs : s.terminal = false) : st ≠ s := by
    rintro rfl
    rw [hst] at hs
    cases hs
  have hset : (g.setState r.invocationId st e.tsMs).WellFormed := hg.edit fun _ => ⟨rfl,rfl,rfl⟩
  have hget (k : String) : (g.setState r.invocationId st e.tsMs).invocations[k]? =
      g.invocations[k]?.map fun q => if k = r.invocationId then { q with
        state := st, updatedTsMs := e.tsMs } else q := by
    change (g.invocations.updateAll {r.invocationId} _)[k]? = _
    rw [Dict.get_updateAll]
    by_cases hk : k = r.invocationId
    · simp [hk]
    · simp [hk]
  have hwoken : WokenIn (g.finishInvocation e r st).2.2 k ↔ WakesWaiter g r k := by
    rw [(finishInvocation_loop g e r st).2,completeJoins_woken hg.order_nodup,releasedGraph_fires hg]
    unfold WakesWaiter
    simp only [WokenIn,List.not_mem_nil,false_and,exists_false,false_or]
    exact and_congr_right fun _ => releasedGraph_waits hst
  have hmem : k ∈ (g.finishInvocation e r st).2.1 ↔
      k ∈ ((g.setState r.invocationId st e.tsMs).releaseParent r e.tsMs).2 ∨
        WokenIn (g.finishInvocation e r st).2.2 k := by
    refine Finset.mem_union.trans (or_congr_right ?_)
    rw [mem_foldl_wakes]
    simp [WokenIn,finishInvocation,completeDependencies]
  rw [hmem,hwoken,mem_releaseParent hset]
  refine or_congr_left (and_congr_right fun _ => ?_)
  rw [hget]
  constructor
  · rintro ⟨q,hq,hw,he⟩
    obtain ⟨q₀,hq₀,rfl⟩ := Option.map_eq_some_iff.mp hq
    by_cases hk : k = r.invocationId
    · rw [if_pos hk] at hw
      exact absurd hw (hne (by rfl))
    · rw [if_neg hk] at hw he
      exact ⟨hk,q₀,hq₀,hw,he⟩
  · rintro ⟨hk,q,hq,hw,he⟩
    exact ⟨q,by simp [hq,hk],hw,he⟩

/-- The contexts of the invocations that the end of one makes READY. -/
theorem finishInvocation_contextsOf (hg : g.WellFormed) (hget : g.invocations[i]? = some r)
    (hst : st.terminal = true) (c : String) :
    c ∈ (g.finishInvocation e r st).1.contextsOf (g.finishInvocation e r st).2.1 ↔
      ∃ (w : String) (p : InvocationRecord), Awakens g r w ∧ g.invocations[w]? = some p ∧
        p.contextId = c := by
  obtain ⟨f,hrew,-⟩ := finishInvocation_rewrites (e := e) hg hget hst
  simp only [contextsOf,Finset.mem_biUnion,finishInvocation_awakens hg hst,Option.mem_toFinset,
    hrew.get,Option.map_map,Option.mem_def]
  constructor
  · rintro ⟨w,hw,hc⟩
    obtain ⟨p,hp,rfl⟩ := Option.map_eq_some_iff.mp hc
    exact ⟨w,p,hw,hp,(hrew.place w p hp).symm⟩
  · rintro ⟨w,p,hw,hp,rfl⟩
    refine ⟨w,hw,?_⟩
    rw [hp,Option.map_some,Function.comp_apply,hrew.place w p hp]

/-- An invocation that is awakened waited. -/
theorem Awakens.record (h : Awakens g r k) : ∃ q : InvocationRecord, g.invocations[k]? = some q ∧
    k ≠ r.invocationId ∧ (q.state = .waitChild ∨ q.state = .waitJoin) := by
  rcases h with ⟨-,hk,q,hq,hw,-⟩ | ⟨-,hk,q,hq,hw⟩
  · exact ⟨q,hq,hk,.inl hw⟩
  · exact ⟨q,hq,hk,.inr hw⟩

/-- The end of an invocation changes another exactly when it wakes it or frees it of a child. -/
theorem EndSpec.links_iff {q q' : InvocationRecord} (h : EndSpec g r st k q q')
    (hq : g.invocations[k]? = some q) (hk : k ≠ r.invocationId) :
    links q' ≠ links q ↔ Awakens g r k ∨ Frees g r k := by
  have hkept := h.kept
  simp only [Prod.mk.injEq] at hkept
  constructor
  · intro hne
    by_contra hno
    rw [not_or] at hno
    refine hne ?_
    have hblock : q'.blockingChildIds = q.blockingChildIds := by
      rw [h.blocking]
      split_ifs with ht
      · exact Finset.erase_eq_of_notMem fun hm => hno.2 ⟨ht,q,hq,hm⟩
      · rfl
    simp only [links,h.same hk hno.1,hblock,hkept]
  · rintro (haw | ⟨ht,p,hp,hm⟩) heq
    · obtain ⟨p,hp,-,hwait⟩ := haw.record
      rw [hq] at hp
      cases hp
      have hst : q'.state = q.state := congrArg Prod.fst heq
      rw [h.woken haw] at hst
      rw [← hst] at hwait
      simp at hwait
    · rw [hq] at hp
      cases hp
      have hblock : q'.blockingChildIds = q.blockingChildIds := by
        simp only [links,Prod.mk.injEq] at heq
        exact heq.2.2.2.2.2.2
      rw [h.blocking,if_pos ht] at hblock
      exact Finset.notMem_erase _ _ (hblock ▸ hm)

theorem finishInvocation_contexts (hg : g.WellFormed) :
    (g.finishInvocation e r st).1.contexts = g.contexts := by
  rw [(finishInvocation_loop g e r st).1,(releasedGraph_loop hg e r st).frame]
  exact releasedGraph_frame.2.2

/-- The end of an invocation is reported when the context of every invocation that it wakes or
frees of a blocking child is. -/
theorem finish_reports_iff {h : RuntimeCausalContextGraph} {delta : GraphDelta} (hg : g.WellFormed)
    (hget : g.invocations[i]? = some r) (hlive : r.state.terminal = false) (hst : st.terminal = true)
    (hh : h.WellFormed) (hinv : h.invocations = g.invocations) (hjoins : h.joins = g.joins)
    (hctx : ∀ c : String, h.contexts[c]? ≠ g.contexts[c]? → c = r.contextId)
    (hown : r.contextId ∈ delta.changedContexts)
    (ha : delta.awakenedInvocations = (h.finishInvocation e r st).2.1)
    (hd : delta.completedInvocations = {r.invocationId}) (hno : ∀ k, ¬ g.Addressed e k) :
    Reports g e (h.finishInvocation e r st).1 delta ↔
      ∀ (k : String) (q : InvocationRecord), g.invocations[k]? = some q →
        Awakens g r k ∨ Frees g r k → q.contextId ∈ delta.changedContexts := by
  have hid := hg.keyed i r hget
  have haw (k : String) : Awakens h r k ↔ Awakens g r k := by
    unfold Awakens WakesTarget WakesWaiter FiresFor
    rw [hinv,hjoins]
  obtain ⟨f,hrew,hspec⟩ := finishInvocation_rewrites (e := e) hh (hinv ▸ hget) hst
  have hrew' : Rewrites g (h.finishInvocation e r st).1 f :=
    ⟨fun k => by rw [hrew.get,hinv],fun k q hq => hrew.place k q (hinv ▸ hq)⟩
  have hend (k : String) (q : InvocationRecord) (hq : g.invocations[k]? = some q) :
      EndSpec h r st k q (f k q) := hspec k q (hinv ▸ hq)
  rw [hrew'.reports_iff]
  have hlinks (k : String) (q : InvocationRecord) (hq : g.invocations[k]? = some q)
      (hk : k ≠ r.invocationId) : links (f k q) ≠ links q ↔ Awakens g r k ∨ Frees g r k := by
    rw [(hend k q hq).links_iff (hinv ▸ hq) hk,haw]
    unfold Frees
    rw [hinv]
  have h₂ (c : String) (hne : (h.finishInvocation e r st).1.contexts[c]? ≠ g.contexts[c]?) :
      c ∈ delta.changedContexts := by
    rw [finishInvocation_contexts hh] at hne
    rw [hctx c hne]
    exact hown
  have h₃ (k : String) : k ∈ delta.awakenedInvocations ↔ (∃ q, g.invocations[k]? = some q ∧
      q.state ≠ .ready ∧ (f k q).state = .ready) ∨ g.Addressed e k := by
    rw [ha,finishInvocation_awakens hh hst,or_iff_left (hno k)]
    constructor
    · intro hk
      obtain ⟨q,hq,-,hwait⟩ := hk.record
      rw [hinv] at hq
      refine ⟨q,hq,fun hready => ?_,(hend k q hq).woken hk⟩
      rw [hready] at hwait
      simp at hwait
    · rintro ⟨q,hq,hne,hready⟩
      by_contra hk
      by_cases hki : k = r.invocationId
      · rw [(hend k q hq).ended hki] at hready
        rw [hready] at hst
        cases hst
      · rw [(hend k q hq).same hki hk] at hready
        exact hne hready
  have h₄ (k : String) : k ∈ delta.completedInvocations ↔ ∃ q, g.invocations[k]? = some q ∧
      q.state.terminal = false ∧ (f k q).state.terminal = true := by
    rw [hd,Finset.mem_singleton]
    constructor
    · rintro rfl
      rw [hid]
      refine ⟨r,hget,hlive,?_⟩
      rw [(hend i r hget).ended hid.symm]
      exact hst
    · rintro ⟨q,hq,hql,hqt⟩
      by_contra hk
      by_cases hak : Awakens h r k
      · rw [(hend k q hq).woken hak] at hqt
        cases hqt
      · rw [(hend k q hq).same hk hak,hql] at hqt
        cases hqt
  constructor
  · rintro ⟨h₁,-⟩ k q hq hchange
    by_cases hk : k = r.invocationId
    · rw [hk,hid,hget] at hq
      cases hq
      exact hown
    · exact h₁ k q hq ((hlinks k q hq hk).mpr hchange)
  · intro hall
    refine ⟨fun k q hq hne => ?_,h₂,h₃,h₄⟩
    by_cases hk : k = r.invocationId
    · rw [hk,hid,hget] at hq
      cases hq
      exact hown
    · exact hall k q hq ((hlinks k q hq hk).mp hne)

end Ending

end BeliefKV.RuntimeCausalContextGraph
