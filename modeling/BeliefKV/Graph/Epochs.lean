import BeliefKV.Graph.Coverage
import BeliefKV.Graph.Deltas

/-! The contexts an event moves. The handlers of five kinds write to a context, and the deltas
name the contexts they write to. -/
namespace BeliefKV

/-- The kinds of events whose handlers write to a context. -/
def RuntimeEventKind.movesContexts : RuntimeEventKind → Bool
  | .invocationCreate | .contextAdvance | .contextCompact | .llmSubmit | .llmResult => true
  | _ => false

namespace RuntimeCausalContextGraph
open Run
variable {g g' h : RuntimeCausalContextGraph} {e : RuntimeEvent} {delta : GraphDelta}

/-- A context that changes is named, and by an event that may move it. -/
def Names (g : RuntimeCausalContextGraph) (e : RuntimeEvent) (g' : RuntimeCausalContextGraph)
    (delta : GraphDelta) : Prop :=
  ∀ c : String, g'.contexts[c]? ≠ g.contexts[c]? →
    c ∈ delta.changedContexts ∧ e.kind.movesContexts = true

theorem Names.of_eq (heq : g'.contexts = g.contexts) : Names g e g' delta := by
  intro c hne
  rw [heq] at hne
  exact absurd rfl hne

theorem Names.touched {c : String} (ht : g.touchContext e c = .ok h) (heq : g'.contexts = h.contexts)
    (hc : c ∈ delta.changedContexts) (hk : e.kind.movesContexts = true) : Names g e g' delta := by
  intro a hne
  rw [heq] at hne
  rw [(touchContext_at ht).2 a hne]
  exact ⟨hc,hk⟩

theorem completeJoins_contexts (i : String) (tsMs : ℚ) (order : List String) (ws : Wakes) :
    (order.foldl (completeJoin i tsMs) (g,ws)).1.contexts = g.contexts := by
  induction order generalizing g ws with
  | nil => rfl
  | cons j order ih =>
    have hframe := (completeJoin_spec g i j tsMs ws).frame
    have hone : (completeJoin i tsMs (g,ws) j).1.contexts = g.contexts := by rw [hframe]
    exact (ih _).trans hone

theorem finishInvocation_keeps (r : InvocationRecord) (st : InvocationState) :
    (g.finishInvocation e r st).1.contexts = g.contexts := by
  obtain ⟨f,-,hrel,-⟩ := releaseParent_spec (g.setState r.invocationId st e.tsMs) r e.tsMs
  refine (completeJoins_contexts _ _ _ _).trans ?_
  rw [hrel]
  rfl

/-! ## Handlers -/

abbrev NamesHandled (g : RuntimeCausalContextGraph) (e : RuntimeEvent) (x : Except Raised Handled) :
    Prop := Yields x fun handled => Names g e handled.graph handled.delta

abbrev NamesFiring (g : RuntimeCausalContextGraph) (e : RuntimeEvent)
    (x : Except Raised (Handled × Wakes)) : Prop :=
  Yields x fun fired => Names g e fired.1.graph fired.1.delta

theorem onWorkflowStart_names : NamesHandled g e (g.onWorkflowStart e) :=
  .bind fun _ _ => .ok (.of_eq rfl)

theorem onWorkflowEnd_names : NamesHandled g e (g.onWorkflowEnd e) :=
  .bind fun _ _ => .ok (.of_eq rfl)

theorem onInvocationCreate_names (hk : e.kind = .invocationCreate) :
    NamesHandled g e (g.onInvocationCreate e) := by
  refine .bind fun _ _ => .bind fun i _ => .bind fun c _ => .bind fun _ _ => .bind fun _ _ =>
    .bind fun _ _ => .ok fun a hne => ?_
  dsimp only at hne
  rw [Dict.get_insert] at hne
  split_ifs at hne with hac
  · exact ⟨by simp [← hac],by rw [hk]; rfl⟩
  · exact absurd rfl hne

theorem onInvocationCancel_names : NamesFiring g e (g.onInvocationCancel e) :=
  .bind fun r _ => .ite (fun _ => .ok (.of_eq rfl))
    fun _ => .ok (.of_eq (finishInvocation_keeps r _))

theorem onContextAdvance_names (hk : e.kind = .contextAdvance) :
    NamesHandled g e (g.onContextAdvance e) :=
  .bind fun _ _ => .bind fun _ _ => .bind fun _ ht =>
    .ok (.touched ht rfl (by simp) (by rw [hk]; rfl))

theorem onContextCompact_names (hk : e.kind = .contextCompact) :
    NamesHandled g e (g.onContextCompact e) :=
  .bind fun _ _ => .bind fun _ _ => .bind fun _ _ => .bind fun _ _ => .bind fun _ _ =>
    .bind fun _ ht => .ok (.touched ht rfl (by simp) (by rw [hk]; rfl))

theorem onStructuredAction_names : NamesHandled g e (g.onStructuredAction e) :=
  .bind fun _ _ => .bind fun _ _ => .bind fun _ _ => .ok (.of_eq rfl)

theorem onCallCensored_names : NamesHandled g e (g.onCallCensored e) := by
  unfold onCallCensored
  split
  · exact .ok (.of_eq rfl)
  · exact .bind fun _ _ => .ok (.of_eq rfl)

theorem linkChild_names (mode : ExecutionMode) : NamesHandled g e (g.linkChild e mode) :=
  .bind fun _ _ => .bind fun _ _ => .bind fun _ _ => .bind fun _ _ => .bind fun _ _ =>
    .bind fun _ _ => .bind fun _ _ => .bind fun _ _ => .ok (.of_eq rfl)

theorem onReturn_names : NamesFiring g e (g.onReturn e) :=
  .bind fun r _ => .ite (fun _ => .ok (.of_eq rfl))
    fun _ => .ok (.of_eq (finishInvocation_keeps r _))

theorem deliverMessage_names (handoff : Bool) : NamesHandled g e (g.deliverMessage e handoff) := by
  refine .bind fun _ _ => .bind fun _ _ => .bind fun _ _ => .bind fun _ _ => .ok (.of_eq ?_)
  dsimp only
  split_ifs <;> rfl

theorem onReactivate_names : NamesHandled g e (g.onReactivate e) :=
  .bind fun _ _ => .bind fun _ _ => .ok (.of_eq rfl)

theorem onJoinCreate_names : NamesHandled g e (g.onJoinCreate e) :=
  .bind fun _ _ => .bind fun _ _ => .bind fun _ _ => .bind fun _ _ => .bind fun _ _ =>
    .bind fun _ _ => .ok (.of_eq rfl)

theorem onJoinWait_names : NamesHandled g e (g.onJoinWait e) :=
  .bind fun _ _ => .bind fun _ _ => .bind fun _ _ => .ok (.of_eq rfl)

theorem fireJoin_names (sat : Bool) : NamesFiring g e (g.fireJoin e sat) :=
  .bind fun _ _ => .bind fun _ _ => .ok (.of_eq rfl)

theorem onToolStart_names : NamesHandled g e (g.onToolStart e) :=
  .bind fun _ _ => .ok (.of_eq rfl)

theorem onToolEnd_names : NamesHandled g e (g.onToolEnd e) :=
  .bind fun _ _ => .ok (.of_eq rfl)

theorem onLlmResult_names (hk : e.kind = .llmResult) : NamesFiring g e (g.onLlmResult e) := by
  have hmoves : e.kind.movesContexts = true := by rw [hk]; rfl
  refine .bind fun r _ => .bind fun t ht => .ite (fun _ => .ok ?_) fun _ => .ok ?_
  · exact .touched ht (finishInvocation_keeps r _) (by simp) hmoves
  · exact .touched ht rfl (by simp) hmoves

/-- A submission touches its context before it reads the count of consumed messages. -/
theorem onLlmSubmit_names (hk : e.kind = .llmSubmit) :
    Yields (g.onLlmSubmit e).result (Names g e (g.onLlmSubmit e).graph) ∧
      (e.attributes.messagesConsumed.isOk = true → (g.onLlmSubmit e).result.isOk = false →
        (g.onLlmSubmit e).graph.contexts = g.contexts) := by
  unfold onLlmSubmit
  dsimp only
  split
  · exact ⟨nofun,fun _ _ => rfl⟩
  · rename_i invocation touched hopen
    obtain ⟨r,-,hopen⟩ := bind_eq_ok.mp hopen
    obtain ⟨t,ht,hopen⟩ := bind_eq_ok.mp hopen
    cases hopen
    cases hm : e.attributes.messagesConsumed with
    | error err => exact ⟨nofun,nofun⟩
    | ok consumed =>
      refine ⟨.ok (.touched ht rfl (by simp) (by rw [hk]; rfl)),fun _ hres => ?_⟩
      exact absurd hres (by simp [Except.isOk,Except.toBool])

theorem names_ofHandled {x : Except Raised Handled} (hx : NamesHandled g e x) :
    Yields (Outcome.ofHandled g x).result (Names g e (Outcome.ofHandled g x).graph) ∧
      ((Outcome.ofHandled g x).result.isOk = false →
        (Outcome.ofHandled g x).graph.contexts = g.contexts) := by
  cases x with
  | error => exact ⟨nofun,fun _ => rfl⟩
  | ok handled => exact ⟨.ok (hx _ rfl),nofun⟩

theorem names_ofFiring {x : Except Raised (Handled × Wakes)} (hx : NamesFiring g e x) :
    Yields (Outcome.ofFiring g x).result (Names g e (Outcome.ofFiring g x).graph) ∧
      ((Outcome.ofFiring g x).result.isOk = false →
        (Outcome.ofFiring g x).graph.contexts = g.contexts) := by
  cases x with
  | error => exact ⟨nofun,fun _ => rfl⟩
  | ok fired => exact ⟨.ok (hx _ rfl),nofun⟩

/-- What a handler does to the contexts: it names those it moves, and moves none when it raises,
unless it is a submission whose count of consumed messages is no number. -/
theorem handle_names (g : RuntimeCausalContextGraph) (e : RuntimeEvent) :
    Yields (g.handle e).result (Names g e (g.handle e).graph) ∧
      ((e.kind = .llmSubmit → e.attributes.messagesConsumed.isOk = true) →
        (g.handle e).result.isOk = false → (g.handle e).graph.contexts = g.contexts) := by
  have lift {o : Outcome} (ho : Yields o.result (Names g e o.graph) ∧
      (o.result.isOk = false → o.graph.contexts = g.contexts)) :
      Yields o.result (Names g e o.graph) ∧
        ((e.kind = .llmSubmit → e.attributes.messagesConsumed.isOk = true) →
          o.result.isOk = false → o.graph.contexts = g.contexts) := ⟨ho.1,fun _ => ho.2⟩
  unfold handle
  split
  · exact lift (names_ofHandled onWorkflowStart_names)
  · exact lift (names_ofHandled onWorkflowEnd_names)
  · rename_i hk
    exact lift (names_ofHandled (onInvocationCreate_names hk))
  · exact lift (names_ofFiring onInvocationCancel_names)
  · rename_i hk
    exact lift (names_ofHandled (onContextAdvance_names hk))
  · rename_i hk
    exact lift (names_ofHandled (onContextCompact_names hk))
  · exact lift (names_ofHandled (linkChild_names _))
  · exact lift (names_ofHandled (linkChild_names _))
  · exact lift (names_ofFiring onReturn_names)
  · exact lift (names_ofHandled (deliverMessage_names _))
  · exact lift (names_ofHandled (deliverMessage_names _))
  · exact lift (names_ofHandled onReactivate_names)
  · exact lift (names_ofHandled onJoinCreate_names)
  · exact lift (names_ofHandled onJoinWait_names)
  · exact lift (names_ofFiring (fireJoin_names _))
  · exact lift (names_ofFiring (fireJoin_names _))
  · exact lift (names_ofHandled onToolStart_names)
  · exact lift (names_ofHandled onToolEnd_names)
  · rename_i hk
    exact ⟨(onLlmSubmit_names hk).1,fun hm => (onLlmSubmit_names hk).2 (hm hk)⟩
  · rename_i hk
    exact lift (names_ofFiring (onLlmResult_names hk))
  · exact lift (names_ofHandled onCallCensored_names)
  · exact lift (names_ofHandled onStructuredAction_names)

/-! ## Events and batches -/

theorem apply_names (hok : (g.apply e).result = .ok delta) : Names g e (g.step e) delta := by
  by_cases hp : g.Processed e
  · rw [step_of_processed hp]
    exact .of_eq rfl
  · obtain ⟨handled,hres,rfl⟩ := apply_delta hp hok
    have ha : g.Accepts e := by
      unfold Accepts
      rw [hok]
      rfl
    rw [(step_of_accepted ha hp).2]
    exact (handle_names g e).1 handled hres

/-- The delta of a new compaction names the context of its invocation, which is the one that the
event names, if it names one. -/
theorem apply_compact (hk : e.kind = .contextCompact) (hp : ¬ g.Processed e)
    (hok : (g.apply e).result = .ok delta) : ∃ r, g.eventInvocation e = .ok r ∧
      delta.changedContexts = {r.contextId} ∧
      (e.contextId = none ∨ e.contextId = some r.contextId) := by
  obtain ⟨handled,hres,rfl⟩ := apply_delta hp hok
  have hcompact : Yields (g.onContextCompact e) fun handled => ∃ r, g.eventInvocation e = .ok r ∧
      handled.delta.changedContexts = {r.contextId} ∧
      (e.contextId = none ∨ e.contextId = some r.contextId) :=
    .bind fun r hr => .bind fun _ hid => .bind fun _ _ => .bind fun _ _ => .bind fun _ _ =>
      .bind fun _ _ => .ok ⟨r,(liveInvocation_event hr).1,rfl,ensure_eq_ok.mp hid⟩
  have hhandle : g.handle e = .ofHandled g (g.onContextCompact e) := by
    unfold handle
    rw [hk]
  rw [hhandle] at hres
  cases hc : g.onContextCompact e with
  | error err =>
    rw [hc] at hres
    cases hres
  | ok compacted =>
    rw [hc] at hres
    cases hres
    exact hcompact compacted hc

/-- A rejected event moves no context. -/
theorem step_rejected (hm : e.kind = .llmSubmit → e.attributes.messagesConsumed.isOk = true)
    (ha : ¬ g.Accepts e) : (g.step e).contexts = g.contexts := by
  by_cases hr : g.Reaches e
  · have hres : (g.handle e).result.isOk = false := by
      unfold Accepts apply at ha
      rw [if_neg hr.1,if_neg hr.2] at ha
      cases hh : (g.handle e).result with
      | error err => rfl
      | ok handled => simp [hh,Except.isOk,Except.toBool] at ha
    rcases (apply_of_reaches hr).1 with heq | heq
    all_goals
      unfold step
      rw [heq]
      exact (handle_names g e).2 hm hres
  · unfold step
    rw [(apply_of_not_reaches hr).1]

theorem mem_run (hg : g.WellFormed) {i : String} (hi : i ∈ g.invocations)
    (events : List RuntimeEvent) : i ∈ (g.run events).invocations := by
  obtain ⟨w,hw⟩ := mem_iff_knows.mp hi
  exact mem_iff_knows.mpr ⟨w,hw.run hg events⟩

theorem run_keeps_wellFormed (hg : g.WellFormed) (events : List RuntimeEvent) :
    (g.run events).WellFormed := by
  induction events generalizing g with
  | nil => exact hg
  | cons e events ih => exact ih (apply_wellFormed hg e)

/-- A batch that is accepted is the run of its events. -/
theorem applyAll_run {events : List RuntimeEvent} {deltas : List GraphDelta}
    (hok : (g.applyAll events).2 = .ok deltas) : (g.applyAll events).1 = g.run events := by
  induction events generalizing g deltas with
  | nil => rfl
  | cons e events ih =>
    rw [applyAll] at hok ⊢
    cases hres : (g.apply e).result with
    | error err => simp [hres] at hok
    | ok delta =>
      simp only [hres] at hok ⊢
      cases hrest : ((g.apply e).graph.applyAll events).2 with
      | error err => simp [hrest,Except.map] at hok
      | ok rest => exact ih hrest

/-- The contexts and wakes that the deltas of an accepted batch name are known afterwards, and a
context that changes is named by one of them. -/
theorem applyAll_names (hg : g.WellFormed) {events : List RuntimeEvent} {deltas : List GraphDelta}
    (hok : (g.applyAll events).2 = .ok deltas) :
    (∀ c : String, (g.run events).contexts[c]? ≠ g.contexts[c]? →
      ∃ pair ∈ events.zip deltas, c ∈ pair.2.changedContexts ∧ pair.1.kind.movesContexts = true) ∧
    ∀ pair ∈ events.zip deltas, (∀ c ∈ pair.2.changedContexts, c ∈ (g.run events).contexts) ∧
      ∀ i ∈ pair.2.awakenedInvocations, i ∈ (g.run events).invocations := by
  induction events generalizing g deltas with
  | nil => exact ⟨fun c hne => absurd rfl hne,by simp⟩
  | cons e events ih =>
    rw [applyAll] at hok
    cases hres : (g.apply e).result with
    | error err => simp [hres] at hok
    | ok delta =>
      simp only [hres] at hok
      cases hrest : ((g.apply e).graph.applyAll events).2 with
      | error err => simp [hrest,Except.map] at hok
      | ok rest =>
        simp only [hrest,Except.map,Except.ok.injEq] at hok
        subst hok
        have hrun : g.run (e :: events) = (g.step e).run events := rfl
        have hwf : (g.step e).WellFormed := apply_wellFormed hg e
        obtain ⟨hchange,hknown⟩ := ih hwf hrest
        rw [hrun]
        constructor
        · intro c hne
          by_cases hlater : ((g.step e).run events).contexts[c]? = (g.step e).contexts[c]?
          · rw [hlater] at hne
            exact ⟨(e,delta),by simp,apply_names hres c hne⟩
          · obtain ⟨pair,hpair,hc⟩ := hchange c hlater
            exact ⟨pair,by simp [hpair],hc⟩
        · intro pair hpair
          rw [List.zip_cons_cons,List.mem_cons] at hpair
          rcases hpair with rfl | hpair
          · obtain ⟨hc,hi⟩ := apply_grounded hg hres
            refine ⟨fun c hmem => (run_grown _ events).mem (hc c hmem),fun i hmem => ?_⟩
            exact mem_run hwf (hi i hmem) events
          · exact hknown pair hpair

end RuntimeCausalContextGraph
end BeliefKV
