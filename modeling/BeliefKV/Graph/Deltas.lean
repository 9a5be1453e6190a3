import BeliefKV.Graph.Books

/-! What an accepted event returns refers to records of the graph it leaves. -/
namespace BeliefKV.RuntimeCausalContextGraph
variable {g g' : RuntimeCausalContextGraph} {e : RuntimeEvent} {i : String} {r : InvocationRecord}

/-- Every invocation has its context. -/
def Placed (g : RuntimeCausalContextGraph) : Prop :=
  ∀ (i : String) (r : InvocationRecord), g.invocations[i]? = some r → r.contextId ∈ g.contexts

theorem WellFormed.isPlaced (hg : g.WellFormed) : g.Placed := by
  intro i r hr
  obtain ⟨c,hc,-⟩ := hg.placed i r hr
  exact (Dict.mem_iff_get _ _).mpr ⟨c,hc⟩

theorem Placed.edit (hg : g.Placed) {ids : Finset String} {f : InvocationRecord → InvocationRecord}
    (hf : ∀ r, (f r).contextId = r.contextId) : (g.editInvocations ids f).Placed := by
  intro i r hr
  change (g.invocations.updateAll ids f)[i]? = some r at hr
  rw [Dict.get_updateAll] at hr
  split_ifs at hr
  · obtain ⟨q,hq,rfl⟩ := Option.map_eq_some_iff.mp hr
    rw [hf]
    exact hg i q hq
  · exact hg i r hr

theorem Placed.contextsOf (hg : g.Placed) {ids : Finset String} {c : String}
    (hc : c ∈ g.contextsOf ids) : c ∈ g.contexts := by
  obtain ⟨i,-,hc⟩ := Finset.mem_biUnion.mp hc
  obtain ⟨r,hr,rfl⟩ := Option.map_eq_some_iff.mp (Option.mem_toFinset.mp hc)
  exact hg i r hr

/-- The contexts and invocations of a delta exist before or after its event. -/
structure Grounded (g g' : RuntimeCausalContextGraph) (delta : GraphDelta) : Prop where
  contexts : ∀ c ∈ delta.changedContexts, c ∈ g.contexts ∨ c ∈ g'.contexts
  awakened : ∀ i ∈ delta.awakenedInvocations, i ∈ g.invocations ∨ i ∈ g'.invocations

abbrev GroundsHandled (g : RuntimeCausalContextGraph) (x : Except Raised Handled) : Prop :=
  Yields x fun handled => Grounded g handled.graph handled.delta

abbrev GroundsFiring (g : RuntimeCausalContextGraph) (x : Except Raised (Handled × Wakes)) : Prop :=
  Yields x fun fired => Grounded g fired.1.graph fired.1.delta

/-- A delta about one known invocation and its context. -/
theorem Grounded.one (hg : g.Placed) (hr : g.invocations[i]? = some r) {delta : GraphDelta}
    (hc : delta.changedContexts ⊆ {r.contextId}) (ha : delta.awakenedInvocations ⊆ {i}) :
    Grounded g g' delta where
  contexts c hmem := by
    rw [Finset.mem_singleton.mp (hc hmem)]
    exact .inl (hg i r hr)
  awakened k hmem := by
    rw [Finset.mem_singleton.mp (ha hmem)]
    exact .inl ((Dict.mem_iff_get _ _).mpr ⟨r,hr⟩)

theorem Grounded.nothing {delta : GraphDelta} (hc : delta.changedContexts = ∅)
    (ha : delta.awakenedInvocations = ∅) : Grounded g g' delta :=
  ⟨by simp [hc],by simp [ha]⟩

theorem eventInvocation_get (h : g.eventInvocation e = .ok r) : ∃ i : String, g.invocations[i]? = some r := by
  obtain ⟨i,-,-,hr,-⟩ := eventInvocation_eq_ok.mp h
  exact ⟨i,hr⟩

theorem liveInvocation_get (h : g.liveInvocation e = .ok r) : ∃ i : String, g.invocations[i]? = some r := by
  obtain ⟨i,-,hr,-⟩ := liveInvocation_eq_ok h
  exact ⟨i,hr⟩

theorem mem_of_get (h : g.invocations[i]? = some r) : i ∈ g.invocations :=
  (Dict.mem_iff_get _ _).mpr ⟨r,h⟩

theorem mem_foldl_wakes {ws : Wakes} {s : Finset String} {k : String} :
    k ∈ ws.foldl (fun a w => a ∪ w.2) s ↔ k ∈ s ∨ ∃ w ∈ ws, k ∈ w.2 := by
  induction ws generalizing s with
  | nil => simp
  | cons w ws ih =>
    rw [List.foldl_cons,ih,Finset.mem_union,List.exists_mem_cons_iff,or_assoc]

/-- The end of an invocation wakes known invocations only. -/
theorem finishInvocation_awakened (hg : g.WellFormed) (hr : g.invocations[i]? = some r)
    {st : InvocationState} (hst : st.terminal = true) {k : String}
    (hk : k ∈ (g.finishInvocation e r st).2.1) : k ∈ g.invocations := by
  rcases Finset.mem_union.mp hk with hk | hk
  · have hset : (g.setState r.invocationId st e.tsMs).WellFormed := hg.edit fun _ => ⟨rfl,rfl,rfl⟩
    suffices hp : k ∈ (g.setState r.invocationId st e.tsMs).invocations by
      exact (Dict.mem_updateAll _ _ _ _).mp hp
    unfold releaseParent at hk
    split at hk
    · simp at hk
    · rename_i t ht
      split at hk
      · simp at hk
      · rename_i parent hparent
        dsimp only at hk
        split_ifs at hk
        · rw [Finset.mem_singleton.mp hk,hset.keyed t parent hparent]
          exact mem_of_get hparent
        · simp at hk
  · rcases mem_foldl_wakes.mp hk with hk | ⟨⟨j,awakened⟩,hw,hk⟩
    · simp at hk
    · obtain ⟨before,after,-,hall⟩ := (finishInvocation_spec (e := e) hg hr hst).2.2 j awakened hw
      obtain ⟨-,⟨q,hq,-⟩,-⟩ := hall k hk
      exact mem_of_get hq

/-! ## Handlers -/

theorem onWorkflowStart_grounded : GroundsHandled g (g.onWorkflowStart e) :=
  .bind fun _ _ => .ok (.nothing rfl rfl)

theorem onWorkflowEnd_grounded (hg : g.Placed) : GroundsHandled g (g.onWorkflowEnd e) :=
  .bind fun _ _ => .ok ⟨fun _ hc => .inl (hg.contextsOf hc),by simp⟩

theorem onInvocationCreate_grounded : GroundsHandled g (g.onInvocationCreate e) := by
  refine .bind fun _ _ => .bind fun i _ => .bind fun c _ => .bind fun _ _ => .bind fun _ _ =>
    .bind fun _ _ => .ok ⟨fun a ha => ?_,fun k hk => ?_⟩
  · rw [Finset.mem_singleton.mp ha]
    exact .inr (by simp)
  · rw [Finset.mem_singleton.mp hk]
    exact .inr (by simp)

theorem onInvocationCancel_grounded (hg : g.WellFormed) :
    GroundsFiring g (g.onInvocationCancel e) := by
  refine .bind fun r hr => .ite (fun _ => .ok (.nothing rfl rfl)) fun _ => .ok ?_
  obtain ⟨i,hi⟩ := eventInvocation_get hr
  refine ⟨fun c hc => ?_,fun k hk => .inl (finishInvocation_awakened hg hi rfl hk)⟩
  rw [Finset.mem_singleton.mp hc]
  exact .inl (hg.isPlaced i r hi)

theorem onContextAdvance_grounded (hg : g.Placed) : GroundsHandled g (g.onContextAdvance e) := by
  refine .bind fun r hr => .bind fun _ _ => .bind fun _ _ => .ok ?_
  obtain ⟨i,hi⟩ := liveInvocation_get hr
  exact .one hg hi (by simp) (by simp)

theorem onContextCompact_grounded (hg : g.Placed) : GroundsHandled g (g.onContextCompact e) := by
  refine .bind fun r hr => .bind fun _ _ => .bind fun _ _ => .bind fun _ _ => .bind fun _ _ =>
    .bind fun _ _ => .ok ?_
  obtain ⟨i,hi⟩ := liveInvocation_get hr
  exact .one hg hi (by simp) (by simp)

theorem onStructuredAction_grounded : GroundsHandled g (g.onStructuredAction e) :=
  .bind fun _ _ => .bind fun _ _ => .bind fun _ _ => .ok (.nothing rfl rfl)

theorem onCallCensored_grounded : GroundsHandled g (g.onCallCensored e) := by
  unfold onCallCensored
  split
  · exact .ok (.nothing rfl rfl)
  · exact .bind fun _ _ => .ok (.nothing rfl rfl)

theorem linkChild_grounded (hg : g.Placed) (mode : ExecutionMode) :
    GroundsHandled g (g.linkChild e mode) := by
  refine .bind fun p hp => .bind fun k _ => .bind fun q hq => .bind fun _ _ => .bind fun _ _ =>
    .bind fun _ _ => .bind fun _ _ => .bind fun _ _ => .ok ?_
  obtain ⟨i,hi⟩ := eventInvocation_get hp
  have hk := (invocation_eq_ok.mp hq).1
  refine ⟨fun c hc => ?_,fun a ha => ?_⟩
  · rcases Finset.mem_insert.mp hc with rfl | hc
    · exact .inl (hg i p hi)
    · rw [Finset.mem_singleton.mp hc]
      exact .inl (hg k q hk)
  · rw [Finset.mem_singleton.mp ha]
    exact .inl (mem_of_get hk)

theorem onReturn_grounded (hg : g.WellFormed) : GroundsFiring g (g.onReturn e) := by
  refine .bind fun r hr => .ite (fun _ => .ok (.nothing rfl rfl)) fun _ => .ok ?_
  obtain ⟨i,hi⟩ := eventInvocation_get hr
  have hfin := (finishInvocation_spec (e := e) hg hi (show InvocationState.done.terminal = true from rfl)).1
  refine ⟨fun c hc => ?_,fun k hk => .inl (finishInvocation_awakened hg hi rfl hk)⟩
  rcases Finset.mem_insert.mp hc with rfl | hc
  · exact .inl (hg.isPlaced i r hi)
  · exact .inr (hfin.isPlaced.contextsOf hc)

theorem deliverMessage_grounded (hg : g.Placed) (handoff : Bool) :
    GroundsHandled g (g.deliverMessage e handoff) := by
  refine .bind fun p hp => .bind fun k _ => .bind fun q hq => .bind fun _ _ => .ok ?_
  obtain ⟨i,hi⟩ := eventInvocation_get hp
  have hk := (invocation_eq_ok.mp hq).1
  refine ⟨fun c hc => ?_,fun a ha => ?_⟩
  · rcases Finset.mem_insert.mp hc with rfl | hc
    · exact .inl (hg i p hi)
    · rw [Finset.mem_singleton.mp hc]
      exact .inl (hg k q hk)
  · rw [Finset.mem_singleton.mp ha]
    exact .inl (mem_of_get hk)

theorem onReactivate_grounded (hg : g.WellFormed) : GroundsHandled g (g.onReactivate e) := by
  refine .bind fun r hr => .bind fun _ _ => .ok ?_
  obtain ⟨i,hi⟩ := liveInvocation_get hr
  rw [← hg.keyed i r hi] at hi
  refine .one hg.isPlaced hi (by simp) ?_
  dsimp only
  split_ifs <;> simp

theorem onJoinCreate_grounded : GroundsHandled g (g.onJoinCreate e) :=
  .bind fun _ _ => .bind fun _ _ => .bind fun _ _ => .bind fun _ _ => .bind fun _ _ =>
    .bind fun _ _ => .ok (.nothing rfl rfl)

theorem onJoinWait_grounded (hg : g.WellFormed) : GroundsHandled g (g.onJoinWait e) := by
  refine .bind fun r hr => .bind fun _ _ => .bind fun _ _ => .ok ?_
  obtain ⟨i,hi⟩ := eventInvocation_get hr
  rw [← hg.keyed i r hi] at hi
  refine .one hg.isPlaced hi (by simp) ?_
  dsimp only
  split_ifs <;> simp

theorem fireJoin_grounded (hg : g.Placed) (sat : Bool) : GroundsFiring g (g.fireJoin e sat) := by
  refine .bind fun j _ => .bind fun q _ => .ok ⟨fun c hc => .inr ?_,fun k hk => .inl ?_⟩
  · refine Placed.contextsOf (Placed.edit (g := { g with joins := _ }) hg fun r => ?_) hc
    split_ifs <;> rfl
  · obtain ⟨-,hk⟩ := Finset.mem_filter.mp hk
    cases hr : g.invocations[k]? with
    | none =>
      change g.invocations[k]?.any _ = true at hk
      simp [hr] at hk
    | some r => exact mem_of_get hr

theorem onToolStart_grounded (hg : g.Placed) : GroundsHandled g (g.onToolStart e) := by
  refine .bind fun r hr => .ok ?_
  obtain ⟨i,hi⟩ := liveInvocation_get hr
  exact .one hg hi (by simp) (by simp)

theorem onToolEnd_grounded (hg : g.WellFormed) : GroundsHandled g (g.onToolEnd e) := by
  refine .bind fun r hr => .ok ?_
  obtain ⟨i,hi⟩ := liveInvocation_get hr
  rw [← hg.keyed i r hi] at hi
  exact .one hg.isPlaced hi (by simp) (by simp)

theorem onLlmResult_grounded (hg : g.WellFormed) : GroundsFiring g (g.onLlmResult e) := by
  refine .bind fun r hr => .bind fun t ht => ?_
  obtain ⟨i,hi⟩ := liveInvocation_get hr
  have hone (c : String) (hc : c ∈ ({r.contextId} : Finset String)) : c ∈ g.contexts := by
    rw [Finset.mem_singleton.mp hc]
    exact hg.isPlaced i r hi
  obtain ⟨htwf,-,hinv⟩ := hg.touchContext ht
  refine .ite (fun _ => .ok ⟨fun c hc => .inl (hone c hc),fun k hk => .inl ?_⟩) fun _ => .ok ?_
  · rw [← hinv]
    exact finishInvocation_awakened htwf (hinv ▸ hi) rfl hk
  · rw [← hg.keyed i r hi] at hi
    exact .one hg.isPlaced hi (by simp) (by simp)

theorem onLlmSubmit_grounded (hg : g.Placed) :
    Yields (g.onLlmSubmit e).result (Grounded g (g.onLlmSubmit e).graph) := by
  unfold onLlmSubmit
  dsimp only
  split
  · exact fun _ h => by cases h
  · rename_i r touched hopen
    obtain ⟨r',hr,hopen⟩ := bind_eq_ok.mp hopen
    obtain ⟨t,-,hopen⟩ := bind_eq_ok.mp hopen
    cases hopen
    obtain ⟨i,hi⟩ := liveInvocation_get hr
    split
    · exact fun _ h => by cases h
    · exact .ok (.one hg hi (by simp) (by simp))

theorem grounded_ofHandled {x : Except Raised Handled} (hx : GroundsHandled g x) :
    Yields (Outcome.ofHandled g x).result (Grounded g (Outcome.ofHandled g x).graph) := by
  cases x with
  | error => exact fun _ h => by cases h
  | ok handled => exact .ok (hx _ rfl)

theorem grounded_ofFiring {x : Except Raised (Handled × Wakes)} (hx : GroundsFiring g x) :
    Yields (Outcome.ofFiring g x).result (Grounded g (Outcome.ofFiring g x).graph) := by
  cases x with
  | error => exact fun _ h => by cases h
  | ok fired => exact .ok (hx _ rfl)

theorem handle_grounded (hg : g.WellFormed) (e : RuntimeEvent) :
    Yields (g.handle e).result (Grounded g (g.handle e).graph) := by
  have hp := hg.isPlaced
  unfold handle
  split
  · exact grounded_ofHandled onWorkflowStart_grounded
  · exact grounded_ofHandled (onWorkflowEnd_grounded hp)
  · exact grounded_ofHandled onInvocationCreate_grounded
  · exact grounded_ofFiring (onInvocationCancel_grounded hg)
  · exact grounded_ofHandled (onContextAdvance_grounded hp)
  · exact grounded_ofHandled (onContextCompact_grounded hp)
  · exact grounded_ofHandled (linkChild_grounded hp _)
  · exact grounded_ofHandled (linkChild_grounded hp _)
  · exact grounded_ofFiring (onReturn_grounded hg)
  · exact grounded_ofHandled (deliverMessage_grounded hp _)
  · exact grounded_ofHandled (deliverMessage_grounded hp _)
  · exact grounded_ofHandled (onReactivate_grounded hg)
  · exact grounded_ofHandled onJoinCreate_grounded
  · exact grounded_ofHandled (onJoinWait_grounded hg)
  · exact grounded_ofFiring (fireJoin_grounded hp _)
  · exact grounded_ofFiring (fireJoin_grounded hp _)
  · exact grounded_ofHandled (onToolStart_grounded hp)
  · exact grounded_ofHandled (onToolEnd_grounded hg)
  · exact onLlmSubmit_grounded hp
  · exact grounded_ofFiring (onLlmResult_grounded hg)
  · exact grounded_ofHandled onCallCensored_grounded
  · exact grounded_ofHandled onStructuredAction_grounded

/-! ## Accepted events -/

theorem mem_iff_knows : i ∈ g.invocations ↔ ∃ w, g.Knows i w := by
  rw [Dict.mem_iff_get]
  unfold Knows
  cases g.invocations[i]? <;> simp

theorem mem_step (hg : g.WellFormed) (hi : i ∈ g.invocations) (e : RuntimeEvent) :
    i ∈ (g.step e).invocations := by
  obtain ⟨w,hw⟩ := mem_iff_knows.mp hi
  exact mem_iff_knows.mpr ⟨w,hw.step hg e⟩

theorem step_grown (g : RuntimeCausalContextGraph) (e : RuntimeEvent) : Grown g (g.step e) := by
  unfold step
  by_cases hr : g.Reaches e
  · rcases (apply_of_reaches hr).1 with heq | heq
    · rw [heq]
      exact (handle_continues g e).grown
    · rw [heq]
      exact (handle_continues g e).grown.trans (.of_eq rfl)
  · rw [(apply_of_not_reaches hr).1]
    exact .of_eq rfl

theorem run_grown (g : RuntimeCausalContextGraph) (events : List RuntimeEvent) :
    Grown g (g.run events) := by
  induction events generalizing g with
  | nil => exact .of_eq rfl
  | cons e events ih => exact (step_grown g e).trans (ih _)

theorem Grown.mem (h : Grown g g') {c : String} (hc : c ∈ g.contexts) : c ∈ g'.contexts := by
  obtain ⟨x,hx⟩ := (Dict.mem_iff_get _ _).mp hc
  obtain ⟨y,hy,-⟩ := h.stay c x hx
  exact (Dict.mem_iff_get _ _).mpr ⟨y,hy⟩

/-- The handler behind an event that is new and accepted. -/
theorem apply_delta {delta : GraphDelta} (hp : ¬ g.Processed e) (h : (g.apply e).result = .ok delta) :
    ∃ handled, (g.handle e).result = .ok handled ∧
      delta = { handled with graphVersion := (g.handle e).graph.graphVersion + 1 } := by
  unfold apply at h
  rw [if_neg hp] at h
  by_cases ho : g.OutOfOrder e
  · simp [ho] at h
  · rw [if_neg ho] at h
    cases hres : (g.handle e).result with
    | error err => simp [hres] at h
    | ok handled =>
      simp only [hres,Except.ok.injEq] at h
      exact ⟨handled,rfl,h.symm⟩

/-- The delta of an accepted event names contexts and invocations of the graph it leaves. -/
theorem apply_grounded (hg : g.WellFormed) {delta : GraphDelta}
    (h : (g.apply e).result = .ok delta) :
    (∀ c ∈ delta.changedContexts, c ∈ (g.step e).contexts) ∧
      ∀ i ∈ delta.awakenedInvocations, i ∈ (g.step e).invocations := by
  by_cases hp : g.Processed e
  · simp only [apply,hp,if_true,Except.ok.injEq] at h
    subst h
    simp
  · obtain ⟨handled,hok,rfl⟩ := apply_delta hp h
    have ha : g.Accepts e := by
      unfold Accepts
      rw [h]
      rfl
    have hground := handle_grounded hg e handled hok
    have hstep := (step_of_accepted ha hp).2
    constructor
    · intro c hc
      rcases hground.contexts c hc with hc | hc
      · exact (step_grown g e).mem hc
      · rwa [hstep]
    · intro i hi
      rcases hground.awakened i hi with hi | hi
      · exact mem_step hg hi e
      · rwa [hstep]

end BeliefKV.RuntimeCausalContextGraph
