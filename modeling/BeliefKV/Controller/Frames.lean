import BeliefKV.Controller.Conservation
import BeliefKV.PageIndex.Contexts

/-! The calls on a controller that leave the causal graph and the epochs of the page index
alone. -/
namespace BeliefKV.BeliefKVController
open Call PageOwnershipIndex
variable {s t u : BeliefKVController}

/-- The graph is the same, and so is the switch of the predictor. -/
structure SameView (s t : BeliefKVController) : Prop where
  graph : t.graph = s.graph
  predictor : t.predictorEnabled = s.predictorEnabled

theorem SameView.trans (h : SameView s t) (h' : SameView t u) : SameView s u :=
  ⟨h'.graph.trans h.graph,h'.predictor.trans h.predictor⟩

/-- A call that has nothing to do with the pages. -/
structure Aside (s t : BeliefKVController) : Prop extends SameView s t where
  pages : t.pages = s.pages

namespace Aside

theorem refl (s : BeliefKVController) : Aside s s := ⟨⟨rfl,rfl⟩,rfl⟩

theorem trans (h : Aside s t) (h' : Aside t u) : Aside s u :=
  ⟨h.toSameView.trans h'.toSameView,h'.pages.trans h.pages⟩

theorem cancelShadowForContext (s : BeliefKVController) (c : String) :
    Aside s (s.cancelShadowForContext c) := by
  unfold BeliefKVController.cancelShadowForContext
  dsimp only
  split
  · exact ⟨⟨rfl,rfl⟩,rfl⟩
  · split_ifs <;> exact ⟨⟨rfl,rfl⟩,rfl⟩

theorem followWakes (s : BeliefKVController) (is : List String) :
    Aside s (forEach followWake s is).1 := by
  refine forEach_rel (R := Aside) refl trans (fun s i _ => ?_) s
  unfold followWake
  cases s.graph.invocations[i]? with
  | none => exact refl s
  | some r => exact cancelShadowForContext s r.contextId

theorem observeActionFrontierEvent (s : BeliefKVController) (e : RuntimeEvent) :
    Aside s (s.observeActionFrontierEvent e).1 := by
  have hobserve : Aside s (s.observeRuntimeEvent e).1 := by
    unfold observeRuntimeEvent
    split_ifs
    · exact refl s
    · split
      · split_ifs <;> exact ⟨⟨rfl,rfl⟩,rfl⟩
      · exact refl s
      · exact refl s
      · exact refl s
  unfold BeliefKVController.observeActionFrontierEvent
  split <;> simp_all

theorem appendRuntimeEvents (s : BeliefKVController) (events : List RuntimeEvent) :
    Aside s (s.appendRuntimeEvents events) := by
  unfold BeliefKVController.appendRuntimeEvents
  induction events generalizing s with
  | nil => exact refl s
  | cons e events ih =>
    rw [List.foldl_cons]
    refine trans ?_ (ih _)
    exact ⟨⟨rfl,rfl⟩,rfl⟩

end Aside

structure SameLists (s t : BeliefKVController) : Prop extends SameView s t where
  registry : t.pages.registry = s.pages.registry

namespace SameLists

theorem refl (s : BeliefKVController) : SameLists s s := ⟨⟨rfl,rfl⟩,rfl⟩

theorem trans (h : SameLists s t) (h' : SameLists t u) : SameLists s u :=
  ⟨h.toSameView.trans h'.toSameView,h'.registry.trans h.registry⟩

theorem aside (h : Aside s t) : SameLists s t := ⟨h.toSameView,by rw [h.pages]⟩

theorem onPages {call : Except Raised PageOwnershipIndex}
    (hcall : Yields call fun pages => pages.registry = s.pages.registry) :
    SameLists s (s.onPages call).1 := by
  cases call with
  | error e => exact refl s
  | ok pages => exact ⟨⟨rfl,rfl⟩,hcall pages rfl⟩

theorem canonicalContextCommand (s : BeliefKVController) (c : String) :
    SameLists s (s.canonicalContextCommand c).2 := by
  unfold BeliefKVController.canonicalContextCommand
  dsimp only
  split
  · exact refl s
  · split <;> exact ⟨⟨rfl,rfl⟩,rfl⟩

theorem preflightControlCommand (s : BeliefKVController) (command : ControlCommand) (eligible : Bool) :
    SameLists s (s.preflightControlCommand command eligible).2 := by
  unfold BeliefKVController.preflightControlCommand
  dsimp only
  split_ifs
  · exact refl s
  · split
    · exact refl s
    · rename_i contextId _
      have hcanon := canonicalContextCommand s contextId
      split
      · simp_all
      · split_ifs <;> simp_all

theorem enqueueIfNew (s : BeliefKVController) (command : ControlCommand) :
    SameLists s (s.enqueueIfNew command).1 := by
  unfold BeliefKVController.enqueueIfNew
  split_ifs
  · exact refl s
  · cases command.contextId with
    | none =>
      dsimp only
      split <;> exact ⟨⟨rfl,rfl⟩,rfl⟩
    | some contextId =>
      dsimp only
      split <;> exact ⟨⟨rfl,rfl⟩,rfl⟩

theorem enqueueControlCommand (s : BeliefKVController) (command : ControlCommand)
    (preflight : Option EnqueueOutcome) (eligible : Bool) :
    SameLists s (s.enqueueControlCommand command preflight eligible).1 := by
  have hrest (s : BeliefKVController) (outcome : EnqueueOutcome) :
      SameLists s (andThen (s.enqueueIfNew command) fun s queued =>
        if queued then (s,.ok outcome)
        else ((s.preflightControlCommand command eligible).2,
          .ok (s.preflightControlCommand command eligible).1)).1 := by
    refine andThen_rel (R := SameLists) trans (enqueueIfNew s command) fun queued _ => ?_
    cases queued with
    | true => exact refl _
    | false => exact preflightControlCommand _ command eligible
  unfold BeliefKVController.enqueueControlCommand
  cases preflight with
  | some outcome =>
    dsimp only
    split_ifs
    · exact refl s
    · exact refl s
    · exact hrest s outcome
  | none =>
    have hpre := preflightControlCommand s command eligible
    dsimp only
    split_ifs
    · exact hpre
    · exact hpre
    · exact hpre.trans (hrest _ _)

theorem rejectEmpty (s : BeliefKVController) (command : ControlCommand)
    (blockers : List TransferBlocker) : SameLists s (s.rejectEmpty command blockers).1 := by
  unfold BeliefKVController.rejectEmpty
  dsimp only
  refine andThen_rel (R := SameLists) trans ?_ fun _ _ => ⟨⟨rfl,rfl⟩,rfl⟩
  split_ifs <;> exact ⟨⟨rfl,rfl⟩,rfl⟩

theorem dispatchNext (s : BeliefKVController) (eligible : Bool) :
    SameLists s (s.dispatchNext eligible).1 := by
  unfold BeliefKVController.dispatchNext
  by_cases hfree : s.inflight.isEmpty = false
  · rw [if_pos hfree]
    exact refl s
  rw [if_neg hfree]
  dsimp only
  split
  · exact ⟨⟨rfl,rfl⟩,rfl⟩
  · by_cases heligible : eligible = false
    · rw [if_pos heligible]
      exact ⟨⟨rfl,rfl⟩,rfl⟩
    rw [if_neg heligible]
    split
    · exact ⟨⟨rfl,rfl⟩,rfl⟩
    · split_ifs
      · refine trans ?_ (rejectEmpty _ _ _)
        exact ⟨⟨rfl,rfl⟩,rfl⟩
      · exact ⟨⟨rfl,rfl⟩,rfl⟩

theorem beginAction (pages : PageOwnershipIndex) (a : ResolvedPageAction) :
    Yields (beginAction pages a) fun pages' => pages'.registry = pages.registry := by
  intro pages' hok
  unfold BeliefKVController.beginAction at hok
  split at hok
  · exact registry_beginTransfer hok
  · exact registry_beginTransfer hok
  · cases hok
    rfl

theorem markCommandStarted (s : BeliefKVController) (id : String) (handles : List PageHandle) :
    SameLists s (s.markCommandStarted id handles).1 := by
  unfold BeliefKVController.markCommandStarted
  split_ifs
  · refine forEach_rel (R := SameLists) refl trans (fun s h _ => ?_) s
    unfold startHandle
    split
    · exact refl s
    · split_ifs
      · exact refl s
      · split
        · exact refl s
        · rename_i action _
          exact andThen_rel (R := SameLists) trans (onPages (beginAction s.pages action))
            fun _ _ => ⟨⟨rfl,rfl⟩,rfl⟩
  · exact refl s

theorem writePins (pages : PageOwnershipIndex) (h : PageHandle) (contextId : Option String)
    (f : String → Finset String → Finset String) :
    Yields (writePins pages h contextId f) fun pages' => pages'.registry = pages.registry := by
  intro pages' hok
  unfold BeliefKVController.writePins at hok
  split at hok
  · cases hok
    rfl
  · split_ifs at hok
    cases hok
    rfl

theorem settleAction (flight : InFlightCommand) (completed : Finset PageHandle)
    (pages : PageOwnershipIndex) (a : ResolvedPageAction) :
    Yields (settleAction flight completed pages a) fun pages' => pages'.registry = pages.registry := by
  intro pages' hok
  unfold BeliefKVController.settleAction at hok
  dsimp only at hok
  by_cases hdone : a.handle ∉ completed
  · rw [if_pos hdone] at hok
    split_ifs at hok
    · exact registry_abortTransfer hok
    · cases hok
      rfl
  · rw [if_neg hdone] at hok
    split at hok
    · split_ifs at hok
      exact registry_completeTransfer hok
    · split_ifs at hok
      exact registry_completeTransfer hok
    · exact registry_commitCpu hok
    · exact registry_dropPage hok
    · exact registry_dropHostCopy hok
    · exact writePins _ _ _ _ _ hok
    · exact writePins _ _ _ _ _ hok

theorem acknowledgeCommand (s : BeliefKVController) (ack : CommandAck) :
    SameLists s (s.acknowledgeCommand ack).1 := by
  unfold BeliefKVController.acknowledgeCommand
  split
  · exact refl s
  · refine andThen_rel (R := SameLists) trans (refl s) fun completed _ => ?_
    refine andThen_rel (R := SameLists) trans ?_ fun _ _ => ⟨⟨rfl,rfl⟩,rfl⟩
    exact forEach_rel (R := SameLists) refl trans
      (fun s a _ => onPages (settleAction _ completed s.pages a)) s

theorem engine (s : BeliefKVController) {op : Op} (hop : op.Engine) :
    SameLists s { s with pages := s.pages.step op } := by
  refine ⟨⟨rfl,rfl⟩,?_⟩
  have hun : op.Unlisted := by cases op <;> first | exact hop.elim | trivial
  unfold PageOwnershipIndex.step
  cases hok : op.apply s.pages with
  | error e => rfl
  | ok pages => exact hun.registry hok

end SameLists

end BeliefKV.BeliefKVController
