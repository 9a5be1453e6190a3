import BeliefKV.Graph.Runs

/-! What no handler touches: the processed events, the clocks of the workflows and the
version, which only `commit` moves. And what every call keeps: the known contexts and
invocations. -/
namespace BeliefKV.RuntimeCausalContextGraph
open Run
variable {g g' h : RuntimeCausalContextGraph} {e : RuntimeEvent}

/-- Contexts stay in their workflow, and their epochs do not go back. -/
structure Grown (g g' : RuntimeCausalContextGraph) : Prop where
  stay : ∀ (c : String) (x : ContextRecord), g.contexts[c]? = some x → ∃ y : ContextRecord,
    g'.contexts[c]? = some y ∧ y.workflowId = x.workflowId ∧ x.epoch ≤ y.epoch
  fresh : ∀ (c : String) (y : ContextRecord), g'.contexts[c]? = some y →
    c ∈ g.contexts ∨ c ≠ "" ∧ y.workflowId ≠ ""

namespace Grown

theorem of_eq (heq : g'.contexts = g.contexts) : Grown g g' where
  stay c x hx := ⟨x,by rw [heq,hx],rfl,le_rfl⟩
  fresh c y hy := .inl ((Dict.mem_iff_get _ _).mpr ⟨y,by rw [← heq,hy]⟩)

theorem trans (h₁ : Grown g h) (h₂ : Grown h g') : Grown g g' where
  stay c x hx := by
    obtain ⟨y,hy,hyw,hye⟩ := h₁.stay c x hx
    obtain ⟨z,hz,hzw,hze⟩ := h₂.stay c y hy
    exact ⟨z,hz,hzw.trans hyw,hye.trans hze⟩
  fresh c z hz := by
    rcases h₂.fresh c z hz with hc | hnew
    · obtain ⟨y,hy⟩ := (Dict.mem_iff_get _ _).mp hc
      obtain ⟨z',hz',hw,-⟩ := h₂.stay c y hy
      cases hz.symm.trans hz'
      rw [hw]
      exact h₁.fresh c y hy
    · exact .inr hnew

/-- One record is replaced by a later one. -/
theorem of_insert {c : String} {x y : ContextRecord} (heq : g'.contexts = g.contexts.insert c y)
    (hx : g.contexts[c]? = some x) (hw : y.workflowId = x.workflowId) (he : x.epoch ≤ y.epoch) :
    Grown g g' where
  stay a z hz := by
    rw [heq,Dict.get_insert]
    split_ifs with ha
    · subst ha
      cases hx.symm.trans hz
      exact ⟨y,rfl,hw,he⟩
    · exact ⟨z,hz,rfl,le_rfl⟩
  fresh a z hz := by
    rw [heq,Dict.get_insert] at hz
    left
    split_ifs at hz with ha
    · exact (Dict.mem_iff_get _ _).mpr ⟨x,ha ▸ hx⟩
    · exact (Dict.mem_iff_get _ _).mpr ⟨z,hz⟩

end Grown

/-- The same books, and grown contexts. -/
structure Continues (g g' : RuntimeCausalContextGraph) : Prop where
  processed : g'.processedEventIds = g.processedEventIds
  clocks : g'.lastTsByWorkflow = g.lastTsByWorkflow
  version : g'.graphVersion = g.graphVersion
  strict : g'.strictTimestamps = g.strictTimestamps
  grown : Grown g g'

theorem validateContextEpoch_le {x : ContextRecord} {epoch : ℤ} {u : Unit}
    (hv : validateContextEpoch x (some epoch) = .ok u) : x.epoch ≤ epoch := by
  simp only [validateContextEpoch] at hv
  split_ifs at hv with hlt
  exact not_lt.mp hlt

namespace Continues

theorem refl (g : RuntimeCausalContextGraph) : Continues g g := ⟨rfl,rfl,rfl,rfl,.of_eq rfl⟩

theorem trans (h₁ : Continues g h) (h₂ : Continues h g') : Continues g g' :=
  ⟨h₂.processed.trans h₁.processed,h₂.clocks.trans h₁.clocks,h₂.version.trans h₁.version,
    h₂.strict.trans h₁.strict,h₁.grown.trans h₂.grown⟩

theorem touchContext {c : String} (ht : g.touchContext e c = .ok g') : Continues g g' := by
  obtain ⟨x,hx,hv,rfl⟩ := touchContext_eq_ok ht
  refine ⟨rfl,rfl,rfl,rfl,.of_insert rfl hx rfl ?_⟩
  cases he : e.contextEpoch with
  | none => exact le_rfl
  | some epoch => exact validateContextEpoch_le (he ▸ hv)

theorem completeJoin (i j : String) (tsMs : ℚ) (ws : Wakes) :
    Continues g (completeJoin i tsMs (g,ws) j).1 := by
  have hframe := (completeJoin_spec g i j tsMs ws).frame
  rw [hframe]
  exact ⟨rfl,rfl,rfl,rfl,.of_eq rfl⟩

theorem completeJoins (i : String) (tsMs : ℚ) (order : List String) (ws : Wakes) :
    Continues g (order.foldl (RuntimeCausalContextGraph.completeJoin i tsMs) (g,ws)).1 := by
  induction order generalizing g ws with
  | nil => exact refl g
  | cons j order ih => exact (completeJoin i j tsMs ws).trans (ih _)

theorem finishInvocation (r : InvocationRecord) (st : InvocationState) :
    Continues g (g.finishInvocation e r st).1 := by
  obtain ⟨f,-,hrel,-⟩ := releaseParent_spec (g.setState r.invocationId st e.tsMs) r e.tsMs
  have hparent : Continues g ((g.setState r.invocationId st e.tsMs).releaseParent r e.tsMs).1 := by
    rw [hrel]
    exact ⟨rfl,rfl,rfl,rfl,.of_eq rfl⟩
  exact hparent.trans (completeJoins _ _ _ _)

end Continues

/-! ## Handlers -/

abbrev YieldsHandled (g : RuntimeCausalContextGraph) (x : Except Raised Handled) : Prop :=
  Yields x fun handled => Continues g handled.graph

abbrev YieldsFiring (g : RuntimeCausalContextGraph) (x : Except Raised (Handled × Wakes)) :
    Prop := Yields x fun fired => Continues g fired.1.graph

theorem onWorkflowStart_continues : YieldsHandled g (g.onWorkflowStart e) :=
  .bind fun _ _ => .ok ⟨rfl,rfl,rfl,rfl,.of_eq rfl⟩

theorem onWorkflowEnd_continues : YieldsHandled g (g.onWorkflowEnd e) :=
  .bind fun _ _ => .ok ⟨rfl,rfl,rfl,rfl,.of_eq rfl⟩

/-- The context a new invocation enters is new or goes on. -/
theorem grown_enteredContext {c : String} {pc : Option String} {y z : ContextRecord}
    (heq : g'.contexts = g.contexts.insert c z) (hc : isBlank c = false)
    (hy : g.enteredContext e c pc = .ok y)
    (hz : z.workflowId = y.workflowId ∧ z.epoch = y.epoch) : Grown g g' := by
  unfold enteredContext at hy
  cases hx : g.contexts[c]? with
  | none =>
    simp only [hx,Except.ok.injEq] at hy
    subst hy
    refine ⟨fun a x ha => ?_,fun a x ha => ?_⟩
    · rw [heq,Dict.get_insert,if_neg (by rintro rfl; simp [hx] at ha)]
      exact ⟨x,ha,rfl,le_rfl⟩
    · rw [heq,Dict.get_insert] at ha
      split_ifs at ha with hac
      · cases ha
        subst hac
        refine .inr ⟨ne_empty_of_isBlank hc,?_⟩
        rw [hz.1]
        exact ne_empty_of_isBlank e.valid.workflowId
      · exact .inl ((Dict.mem_iff_get _ _).mpr ⟨x,ha⟩)
  | some x =>
    simp only [hx] at hy
    obtain ⟨u,-,hy⟩ := bind_eq_ok.mp hy
    obtain ⟨u',hw,hy⟩ := bind_eq_ok.mp hy
    cases hy
    rw [ensure_eq_ok] at hw
    refine .of_insert heq hx hz.1 ?_
    rw [hz.2]
    exact le_max_left _ _

theorem onInvocationCreate_continues : YieldsHandled g (g.onInvocationCreate e) :=
  .bind fun _ _ => .bind fun _ _ => .bind fun _ hc => .bind fun _ _ => .bind fun _ _ =>
    .bind fun _ hy => .ok ⟨rfl,rfl,rfl,rfl,
      grown_enteredContext rfl (requireId_eq_ok.mp hc).2 hy ⟨rfl,rfl⟩⟩

theorem onInvocationCancel_continues : YieldsFiring g (g.onInvocationCancel e) :=
  .bind fun r _ => .ite (fun _ => .ok (.refl g)) fun _ => .ok (.finishInvocation r _)

theorem onContextAdvance_continues : YieldsHandled g (g.onContextAdvance e) :=
  .bind fun _ _ => .bind fun _ _ => .bind fun _ ht =>
    .ok ((Continues.touchContext ht).trans ⟨rfl,rfl,rfl,rfl,.of_eq rfl⟩)

theorem onContextCompact_continues : YieldsHandled g (g.onContextCompact e) :=
  .bind fun _ _ => .bind fun _ _ => .bind fun _ _ => .bind fun _ _ => .bind fun _ _ =>
    .bind fun _ ht => .ok ((Continues.touchContext ht).trans ⟨rfl,rfl,rfl,rfl,.of_eq rfl⟩)

theorem onStructuredAction_continues : YieldsHandled g (g.onStructuredAction e) :=
  .bind fun _ _ => .bind fun _ _ => .bind fun _ _ => .ok (.refl g)

theorem onCallCensored_continues : YieldsHandled g (g.onCallCensored e) := by
  unfold onCallCensored
  split
  · exact .ok (.refl g)
  · exact .bind fun _ _ => .ok (.refl g)

theorem linkChild_continues (mode : ExecutionMode) : YieldsHandled g (g.linkChild e mode) :=
  .bind fun _ _ => .bind fun _ _ => .bind fun _ _ => .bind fun _ _ => .bind fun _ _ =>
    .bind fun _ _ => .bind fun _ _ => .bind fun _ _ => .ok ⟨rfl,rfl,rfl,rfl,.of_eq rfl⟩

theorem onReturn_continues : YieldsFiring g (g.onReturn e) :=
  .bind fun r _ => .ite (fun _ => .ok (.refl g)) fun _ => .ok (.finishInvocation r _)

theorem deliverMessage_continues (handoff : Bool) : YieldsHandled g (g.deliverMessage e handoff) := by
  refine .bind fun _ _ => .bind fun _ _ => .bind fun _ _ => .bind fun _ _ => .ok ?_
  dsimp only
  split_ifs <;> exact ⟨rfl,rfl,rfl,rfl,.of_eq rfl⟩

theorem onReactivate_continues : YieldsHandled g (g.onReactivate e) :=
  .bind fun _ _ => .bind fun _ _ => .ok ⟨rfl,rfl,rfl,rfl,.of_eq rfl⟩

theorem onJoinCreate_continues : YieldsHandled g (g.onJoinCreate e) :=
  .bind fun _ _ => .bind fun _ _ => .bind fun _ _ => .bind fun _ _ => .bind fun _ _ =>
    .bind fun _ _ => .ok ⟨rfl,rfl,rfl,rfl,.of_eq rfl⟩

theorem onJoinWait_continues : YieldsHandled g (g.onJoinWait e) :=
  .bind fun _ _ => .bind fun _ _ => .bind fun _ _ => .ok ⟨rfl,rfl,rfl,rfl,.of_eq rfl⟩

theorem fireJoin_continues (sat : Bool) : YieldsFiring g (g.fireJoin e sat) :=
  .bind fun _ _ => .bind fun _ _ => .ok ⟨rfl,rfl,rfl,rfl,.of_eq rfl⟩

theorem onToolStart_continues : YieldsHandled g (g.onToolStart e) :=
  .bind fun _ _ => .ok ⟨rfl,rfl,rfl,rfl,.of_eq rfl⟩

theorem onToolEnd_continues : YieldsHandled g (g.onToolEnd e) :=
  .bind fun _ _ => .ok ⟨rfl,rfl,rfl,rfl,.of_eq rfl⟩

theorem onLlmResult_continues : YieldsFiring g (g.onLlmResult e) :=
  .bind fun r _ => .bind fun _ ht =>
    .ite (fun _ => .ok ((Continues.touchContext ht).trans (.finishInvocation r _)))
      fun _ => .ok ((Continues.touchContext ht).trans ⟨rfl,rfl,rfl,rfl,.of_eq rfl⟩)

theorem onLlmSubmit_continues : Continues g (g.onLlmSubmit e).graph := by
  unfold onLlmSubmit
  dsimp only
  split
  · exact .refl g
  · rename_i invocation touched hopen
    obtain ⟨r,-,hopen⟩ := bind_eq_ok.mp hopen
    obtain ⟨t,ht,hopen⟩ := bind_eq_ok.mp hopen
    cases hopen
    split <;> exact (Continues.touchContext ht).trans ⟨rfl,rfl,rfl,rfl,.of_eq rfl⟩

theorem continues_ofHandled {x : Except Raised Handled} (hx : YieldsHandled g x) :
    Continues g (Outcome.ofHandled g x).graph := by
  cases x with
  | error => exact .refl g
  | ok handled => exact hx _ rfl

theorem continues_ofFiring {x : Except Raised (Handled × Wakes)} (hx : YieldsFiring g x) :
    Continues g (Outcome.ofFiring g x).graph := by
  cases x with
  | error => exact .refl g
  | ok fired => exact hx _ rfl

theorem handle_continues (g : RuntimeCausalContextGraph) (e : RuntimeEvent) :
    Continues g (g.handle e).graph := by
  unfold handle
  split
  · exact continues_ofHandled onWorkflowStart_continues
  · exact continues_ofHandled onWorkflowEnd_continues
  · exact continues_ofHandled onInvocationCreate_continues
  · exact continues_ofFiring onInvocationCancel_continues
  · exact continues_ofHandled onContextAdvance_continues
  · exact continues_ofHandled onContextCompact_continues
  · exact continues_ofHandled (linkChild_continues _)
  · exact continues_ofHandled (linkChild_continues _)
  · exact continues_ofFiring onReturn_continues
  · exact continues_ofHandled (deliverMessage_continues _)
  · exact continues_ofHandled (deliverMessage_continues _)
  · exact continues_ofHandled onReactivate_continues
  · exact continues_ofHandled onJoinCreate_continues
  · exact continues_ofHandled onJoinWait_continues
  · exact continues_ofFiring (fireJoin_continues _)
  · exact continues_ofFiring (fireJoin_continues _)
  · exact continues_ofHandled onToolStart_continues
  · exact continues_ofHandled onToolEnd_continues
  · exact onLlmSubmit_continues
  · exact continues_ofFiring onLlmResult_continues
  · exact continues_ofHandled onCallCensored_continues
  · exact continues_ofHandled onStructuredAction_continues

/-! ## Accepted events -/

/-- The call returns. -/
def Accepts (g : RuntimeCausalContextGraph) (e : RuntimeEvent) : Prop :=
  (g.apply e).result.isOk = true

instance (g : RuntimeCausalContextGraph) (e : RuntimeEvent) : Decidable (g.Accepts e) :=
  inferInstanceAs (Decidable (_ = true))

theorem step_of_processed (hp : g.Processed e) : g.step e = g := by
  simp [step,apply,hp]

/-- An event that is new and accepted went through its handler. -/
theorem step_of_accepted (ha : g.Accepts e) (hp : ¬ g.Processed e) :
    ¬ g.OutOfOrder e ∧ g.step e = (g.handle e).graph.commit e := by
  unfold Accepts at ha
  unfold step
  unfold apply at ha ⊢
  rw [if_neg hp] at ha ⊢
  by_cases ho : g.OutOfOrder e
  · simp [ho,Except.isOk,Except.toBool] at ha
  · rw [if_neg ho] at ha ⊢
    refine ⟨ho,?_⟩
    cases hres : (g.handle e).result with
    | error err => simp [hres,Except.isOk,Except.toBool] at ha
    | ok delta => simp [hres]

theorem step_processedEventIds (ha : g.Accepts e) :
    (g.step e).processedEventIds = insert e.eventId g.processedEventIds := by
  by_cases hp : g.Processed e
  · rw [step_of_processed hp,Finset.insert_eq_of_mem hp]
  · rw [(step_of_accepted ha hp).2]
    change insert e.eventId (g.handle e).graph.processedEventIds = _
    rw [(handle_continues g e).processed]

theorem step_strictTimestamps (ha : g.Accepts e) :
    (g.step e).strictTimestamps = g.strictTimestamps := by
  by_cases hp : g.Processed e
  · rw [step_of_processed hp]
  · rw [(step_of_accepted ha hp).2]
    exact (handle_continues g e).strict

theorem step_clock (ha : g.Accepts e) (hp : ¬ g.Processed e) (w : String) :
    (g.step e).lastTsByWorkflow[w]? = if w = e.workflowId then
      some (max e.tsMs (g.lastTsByWorkflow[w]?.getD e.tsMs)) else g.lastTsByWorkflow[w]? := by
  rw [(step_of_accepted ha hp).2]
  change ((g.handle e).graph.lastTsByWorkflow.insert e.workflowId _)[w]? = _
  rw [(handle_continues g e).clocks,Dict.get_insert]
  by_cases hw : w = e.workflowId
  · rw [if_pos hw.symm,if_pos hw,hw]
  · rw [if_neg (Ne.symm hw),if_neg hw]

/-- The clocks of a strict graph do not run ahead of an event it accepts. -/
theorem clock_le (ha : g.Accepts e) (hp : ¬ g.Processed e) (hs : g.strictTimestamps = true) {t : ℚ}
    (ht : g.lastTsByWorkflow[e.workflowId]? = some t) : t ≤ e.tsMs := by
  by_contra hlt
  exact (step_of_accepted ha hp).1 ⟨hs,by simpa [ht] using hlt⟩

/-! ## Known invocations -/

/-- The invocation exists in the workflow. -/
def Knows (g : RuntimeCausalContextGraph) (i w : String) : Prop :=
  g.invocations[i]?.any (·.workflowId = w) = true

instance (g : RuntimeCausalContextGraph) (i w : String) : Decidable (g.Knows i w) :=
  inferInstanceAs (Decidable (_ = true))

theorem knows_iff {i w : String} : g.Knows i w ↔ (g.view.agent i).map Agent.workflow = some w := by
  change (g.invocations[i]?.any _ = true) ↔ ((g.invocations[i]?.map agentOf).map Agent.workflow) = _
  cases g.invocations[i]? <;> simp [agentOf]

theorem Knows.unique {i w w' : String} (hk : g.Knows i w) (hk' : g.Knows i w') : w = w' := by
  rw [knows_iff] at hk hk'
  exact Option.some.inj (hk.symm.trans hk')

theorem Knows.step {i w : String} (hg : g.WellFormed) (hk : g.Knows i w) (e : RuntimeEvent) :
    (g.step e).Knows i w := by
  rcases apply_simulates hg e with hsame | ⟨-,hsim⟩
  · unfold RuntimeCausalContextGraph.step
    rwa [hsame]
  · obtain ⟨m,-,-,hv⟩ := hsim.move
    rw [knows_iff] at hk ⊢
    obtain ⟨a,ha,rfl⟩ := Option.map_eq_some_iff.mp hk
    unfold RuntimeCausalContextGraph.step
    rw [hv,Lifecycle.agent_stays m ha,Option.map_some,Lifecycle.act_workflow]

/-- No invocation has an empty name. -/
def Named (g : RuntimeCausalContextGraph) : Prop := ∀ i a, g.view.agent i = some a → i ≠ ""

theorem Named.step (hn : g.Named) (hg : g.WellFormed) (e : RuntimeEvent) : (g.step e).Named := by
  unfold RuntimeCausalContextGraph.step
  rcases apply_simulates hg e with hsame | ⟨-,hsim⟩
  · rwa [hsame]
  · obtain ⟨m,hm,hfit,hv⟩ := hsim.move
    intro i a ha
    rw [hv] at ha
    rcases Lifecycle.agent_next hm ha with ⟨b,hb,-⟩ | rfl
    · exact hn i b hb
    · rintro rfl
      exact Bool.noConfusion (hfit : isBlank "" = false)

theorem Knows.ne_empty {i w : String} (hk : g.Knows i w) (hn : g.Named) : i ≠ "" := by
  rw [knows_iff] at hk
  obtain ⟨a,ha,-⟩ := Option.map_eq_some_iff.mp hk
  exact hn i a ha

theorem Knows.run {i w : String} (hg : g.WellFormed) (hk : g.Knows i w) (events : List RuntimeEvent) :
    (g.run events).Knows i w := by
  induction events generalizing g with
  | nil => exact hk
  | cons e events ih => exact ih (apply_wellFormed hg e) (hk.step hg e)

end BeliefKV.RuntimeCausalContextGraph
