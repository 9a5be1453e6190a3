import Mathlib.Data.String.Basic
import BeliefKV.Protocol
import BeliefKV.Lib.Components
import BeliefKV.Lib.Kahn

/-! Joint plans, their component validation, and the records of an online epoch with the checks
of their constructors. -/
namespace BeliefKV

inductive AdmissionAction
  | admits
  | defer
  | restoreThenAdmit
  | parked
  | pause
  deriving DecidableEq

inductive ResidencyAction
  | keep
  | prepareHost
  | commitCpu
  | prefetchGpu
  | recompute
  | drop
  deriving DecidableEq

structure ExecutionIntent where
  orderedRequestIds : List String
  unique : orderedRequestIds.Nodup

structure AdmissionIntent where
  requestId : String
  action : AdmissionAction
  requiredBundleIds : List String
  named : requestId ≠ ""
  unique : requiredBundleIds.Nodup

structure ResidencyIntent where
  bundleId : String
  action : ResidencyAction
  named : bundleId ≠ ""

structure TransferDependency where
  beforeRequestId : Option String
  residencyIntentIndex : ℕ
  requireAck : Bool

inductive JointPlannerMode
  | optimized
  | boundedSeed
  | emergency
  | noAction
  deriving DecidableEq

/-- A plan, as far as it is compiled online. -/
structure JointPlan where
  planId : String
  execution : ExecutionIntent
  admissions : List AdmissionIntent
  residency : List ResidencyIntent
  dependencies : List TransferDependency
  plannerMode : JointPlannerMode := .optimized
  named : planId ≠ ""
  admissions_unique : (admissions.map (·.requestId)).Nodup
  residency_unique : (residency.map (·.bundleId)).Nodup
  dependencies_bound : ∀ d ∈ dependencies, d.residencyIntentIndex < residency.length

/-- Why an intent is not valid; no reason, and it is. -/
structure IntentValidation where
  reasons : List String := []

def IntentValidation.valid (v : IntentValidation) : Bool := v.reasons.isEmpty

structure JointPlanComponentValidation where
  globalReasons : List String
  execution : IntentValidation
  admissions : Dict String IntentValidation
  residency : Dict String IntentValidation
  dependencies : List IntentValidation

/-! ## The records of an epoch -/

structure OnlineJointPlanView where
  planId : String
  orderedRequestIds : List String
  immediateRequestIds : List String
  restoreRequirements : List (String × List String)
  deferredRequestIds : List String
  residencyIntentIndices : List ℕ
  deriving DecidableEq

/-- The checks of a view. -/
def OnlineJointPlanView.check (v : OnlineJointPlanView) : Except Raised Unit := do
  ensure (v.planId ≠ "") (.valueError "online JointPlan view requires a plan id")
  ensure v.orderedRequestIds.Nodup (.valueError "online JointPlan ordered requests must be unique")
  ensure v.immediateRequestIds.Nodup (.valueError "online JointPlan immediate requests must be unique")
  ensure v.deferredRequestIds.Nodup (.valueError "online JointPlan deferred requests must be unique")
  ensure v.residencyIntentIndices.Nodup (.valueError "online JointPlan residency intents must be unique")
  ensure (∀ id ∈ v.immediateRequestIds, id ∈ v.orderedRequestIds)
    (.valueError "immediate requests must belong to execution order")
  ensure (v.restoreRequirements.map Prod.fst).Nodup
    (.valueError "restore requirements must have unique requests")
  ensure (∀ id ∈ v.restoreRequirements.map Prod.fst, id ∈ v.orderedRequestIds)
    (.valueError "restore requests must belong to execution order")
  ensure (∀ id ∈ v.restoreRequirements.map Prod.fst, id ∉ v.immediateRequestIds)
    (.valueError "a request cannot be immediate and restore-blocked")
  ensure (∀ entry ∈ v.restoreRequirements, entry.2 ≠ [] ∧ entry.2.Nodup)
    (.valueError "restore requirements need unique bundle ids")

structure ActionSlice where
  sliceId : String
  kind : String
  actionKey : String
  dependencyKeys : List String
  committed : Bool
  reasons : List String
  deriving DecidableEq

def ActionSlice.make (sliceId kind actionKey : String) (dependencyKeys : List String)
    (committed : Bool) (reasons : List String) : Except Raised ActionSlice := do
  ensure (sliceId ≠ "" ∧ kind ≠ "" ∧ actionKey ≠ "")
    (.valueError "JointPlan action slice identity must be non-empty")
  let reasons := Dict.sorted reasons.toFinset
  ensure (¬ (committed = true ∧ reasons ≠ []))
    (.valueError "a committed action slice cannot carry rejection reasons")
  .ok ⟨sliceId,kind,actionKey,Dict.sorted dependencyKeys.toFinset,committed,reasons⟩

inductive ActionGroupAtomicity
  | allOrNothing
  | prefixCommittable
  deriving DecidableEq

structure ActionGroup where
  groupId : String
  atomicity : ActionGroupAtomicity
  actions : List ActionSlice
  dependencyDag : Finset (String × String)
  committed : Bool
  reasons : List String

def ActionGroup.actionIds (g : ActionGroup) : List String := g.actions.map (·.sliceId)

/-- The checks of a group. Its resource certificate, compensation and evidence are the defaults. -/
def ActionGroup.check (g : ActionGroup) : Except Raised Unit := do
  ensure (g.groupId ≠ "" ∧ g.actions ≠ []) (.valueError "action group identity and actions are required")
  ensure g.actionIds.Nodup (.valueError "action group slices must be unique")
  ensure (∀ e ∈ g.dependencyDag, e.1 ≠ "" ∧ e.2 ≠ "" ∧ e.1 ≠ e.2 ∧ e.1 ∈ g.actionIds ∧ e.2 ∈ g.actionIds)
    (.valueError "action group dependency DAG references invalid slices")
  ensure (Kahn.visits g.actionIds.toFinset g.dependencyDag = g.actionIds.toFinset.card)
    (.valueError "action group dependency graph must be acyclic")
  ensure (¬ (g.committed = true ∧ (g.reasons ≠ [] ∨ ∃ a ∈ g.actions, a.committed = false)))
    (.valueError "committed action group must contain only valid actions")
  ensure (g.atomicity = .prefixCommittable → ∀ e ∈ g.dependencyDag,
      (∃ a ∈ g.actions, a.committed = true ∧ a.sliceId = e.2) →
        ∃ a ∈ g.actions, a.committed = true ∧ a.sliceId = e.1)
    (.valueError "committed prefix is not dependency-closed")

structure JointPlanEpoch where
  epochId : String
  sourcePlanId : String
  plannerMode : JointPlannerMode
  view : OnlineJointPlanView
  actionSlices : List ActionSlice
  sourceActionCount : ℕ
  committedActionCount : ℕ
  actionGroups : List ActionGroup

def JointPlanEpoch.check (e : JointPlanEpoch) : Except Raised Unit := do
  ensure (e.epochId ≠ "" ∧ e.sourcePlanId ≠ "") (.valueError "JointPlan epoch identity must be non-empty")
  ensure (e.committedActionCount ≤ e.sourceActionCount)
    (.valueError "committed actions cannot exceed source actions")
  ensure (e.view.planId = e.sourcePlanId) (.valueError "JointPlan epoch and view source differ")
  ensure (e.actionGroups.flatMap ActionGroup.actionIds).Nodup
    (.valueError "an action slice cannot belong to multiple groups")

structure OnlineJointPlanDecision where
  view : Option OnlineJointPlanView
  reason : String
  epoch : Option JointPlanEpoch := none

def OnlineJointPlanDecision.check (d : OnlineJointPlanDecision) : Except Raised Unit := do
  ensure (d.reason ≠ "") (.valueError "online JointPlan decision requires a reason")
  ensure (d.view.isSome → d.reason ∈ ["applicable","partially_applicable","no_action"])
    (.valueError "an online JointPlan view needs a commit reason")
  ensure (d.epoch.all fun e => some e.view = d.view)
    (.valueError "JointPlan decision epoch and view differ")

end BeliefKV
