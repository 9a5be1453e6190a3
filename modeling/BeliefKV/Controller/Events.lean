import BeliefKV.Controller.Execution

/-! What runtime events carry on, shown once for all relations between controllers. -/
namespace BeliefKV.BeliefKVController
open Call

/-- The part of a controller that commands go through. -/
structure SameWork (s t : BeliefKVController) : Prop where
  pages : t.pages = s.pages
  guard : t.guard = s.guard
  queue : t.commandQueue = s.commandQueue
  reserved : t.queuedByContext = s.queuedByContext
  inflight : t.inflight = s.inflight
  acks : t.ackHistory = s.ackHistory

/-- The work after an event carries a relation on: what the event does outside the commands' part,
what it does for one changed context and what it does for one awakened invocation. -/
structure Carries (R : BeliefKVController → BeliefKVController → Prop) : Prop where
  refl : ∀ s, R s s
  trans : ∀ {s t u}, R s t → R t u → R s u
  side : ∀ {s t}, SameWork s t → R s t
  context : ∀ s event c, R s (s.followContext event c).1
  wake : ∀ s c, R s (s.cancelShadowForContext c)

namespace Carries
variable {R : BeliefKVController → BeliefKVController → Prop} (hR : Carries R)
  (s : BeliefKVController)
include hR

theorem afterRuntimeEvent (event : RuntimeEvent) (delta : GraphDelta) :
    R s (s.afterRuntimeEvent event delta).1 := by
  unfold BeliefKVController.afterRuntimeEvent
  refine andThen_rel (R := R) hR.trans (hR.refl s) fun _ _ => ?_
  refine andThen_rel (R := R) hR.trans ?_ fun _ _ => ?_
  · exact forEach_rel (R := R) hR.refl hR.trans (fun s c _ => hR.context s event c) _
  · refine forEach_rel (R := R) hR.refl hR.trans (fun s i _ => ?_) _
    unfold followWake
    cases s.graph.invocations[i]? with
    | none => exact hR.refl s
    | some r => exact hR.wake s r.contextId

theorem observeActionFrontierEvent (event : RuntimeEvent) :
    R s (s.observeActionFrontierEvent event).1 := by
  have hobserve : R s (s.observeRuntimeEvent event).1 := by
    unfold observeRuntimeEvent
    split_ifs
    · exact hR.refl s
    · split
      · split_ifs
        · exact hR.refl s
        · exact hR.side ⟨rfl,rfl,rfl,rfl,rfl,rfl⟩
      · exact hR.refl s
      · exact hR.refl s
      · exact hR.refl s
  unfold BeliefKVController.observeActionFrontierEvent
  split <;> simp_all

theorem appendRuntimeEvents (events : List RuntimeEvent) : R s (s.appendRuntimeEvents events) := by
  unfold BeliefKVController.appendRuntimeEvents
  induction events generalizing s with
  | nil => exact hR.refl s
  | cons e events ih =>
    rw [List.foldl_cons]
    refine hR.trans ?_ (ih _)
    exact hR.side ⟨rfl,rfl,rfl,rfl,rfl,rfl⟩

theorem processRuntimeEvent (event : RuntimeEvent) : R s (s.processRuntimeEvent event).1 := by
  unfold BeliefKVController.processRuntimeEvent
  dsimp only
  refine andThen_rel (R := R) hR.trans (hR.side ⟨rfl,rfl,rfl,rfl,rfl,rfl⟩) fun delta _ => ?_
  refine andThen_rel (R := R) hR.trans (hR.side ⟨rfl,rfl,rfl,rfl,rfl,rfl⟩) fun _ _ => ?_
  refine andThen_rel (R := R) hR.trans (hR.afterRuntimeEvent _ event delta) fun _ _ => ?_
  refine andThen_rel (R := R) hR.trans (hR.observeActionFrontierEvent _ event) fun _ _ => ?_
  exact hR.appendRuntimeEvents _ _

theorem processRuntimeEvents (events : List RuntimeEvent) : R s (s.processRuntimeEvents events).1 := by
  unfold BeliefKVController.processRuntimeEvents
  split_ifs
  · exact hR.refl s
  · dsimp only
    refine andThen_rel (R := R) hR.trans (hR.side ⟨rfl,rfl,rfl,rfl,rfl,rfl⟩) fun deltas _ => ?_
    refine andThen_rel (R := R) hR.trans (hR.side ⟨rfl,rfl,rfl,rfl,rfl,rfl⟩) fun _ _ => ?_
    refine andThen_rel (R := R) hR.trans ?_ fun _ _ => hR.appendRuntimeEvents _ _
    refine forEach_rel (R := R) hR.refl hR.trans (fun s pair _ => ?_) _
    exact andThen_rel (R := R) hR.trans (hR.afterRuntimeEvent s _ _)
      fun _ _ => hR.observeActionFrontierEvent _ _

end Carries
end BeliefKV.BeliefKVController
