import Std.Data.String.ToNat
import BeliefKV.Joint.Plan

/-! Compiling the current part of a joint plan into the view of one scheduler epoch. -/
namespace BeliefKV

/-! ## Action groups -/

section Groups
variable (slices : List ActionSlice)

def sliceIds : Finset String := (slices.map (·.sliceId)).toFinset

/-- The slice with an id; a later one replaces an earlier one. -/
def sliceById (id : String) : Option ActionSlice := slices.reverse.find? (·.sliceId = id)

/-- A slice and one that it depends on. -/
def sliceLinks : List (String × String) :=
  slices.flatMap fun item => (item.dependencyKeys.filter (· ∈ sliceIds slices)).map fun dependency =>
    (item.sliceId,dependency)

def sliceAdjacency (id : String) : Finset String :=
  (((sliceLinks slices).filter (·.1 = id)).map Prod.snd ++
    ((sliceLinks slices).filter (·.2 = id)).map Prod.fst).toFinset

def actionGroupOf (component : Finset String) (sequence : ℕ) : ActionGroup :=
  let actions := (component.sort (· ≤ ·)).filterMap (sliceById slices)
  let committed := actions.all (·.committed)
  { groupId := "derived-group-" ++ toString sequence
    atomicity := .allOrNothing
    actions := actions
    dependencyDag := (actions.flatMap fun action =>
      (action.dependencyKeys.filter (· ∈ component)).map fun dependency =>
        (dependency,action.sliceId)).toFinset
    committed := committed
    reasons := if committed then [] else Dict.sorted (actions.flatMap (·.reasons)).toFinset }

/-- Dependency-connected groups. -/
def actionGroupsFromSlices : Except Raised (List ActionGroup) :=
  let n := (sliceIds slices).card
  ((Components.split (sliceAdjacency slices) n n (sliceIds slices)).zipIdx 1).mapM fun entry => do
    let group := actionGroupOf slices entry.1 entry.2
    group.check
    .ok group

end Groups

/-! ## The view -/

namespace JointPlan
variable (plan : JointPlan) (validation : JointPlanComponentValidation) (visible : Finset String)

def admission (id : String) : Option AdmissionIntent := plan.admissions.find? (·.requestId = id)

/-- The dependencies that a request waits for. -/
def dependencyIndices (id : String) : List ℕ :=
  (List.range plan.dependencies.length).filter fun i =>
    plan.dependencies[i]?.any (·.beforeRequestId = some id)

/-- What a dependency says against a request, and the bundle it restores. -/
def judgeDependency (i : ℕ) : List String × Option String :=
  match validation.dependencies[i]? with
  | none => (["dependency_validation_missing"],none)
  | some dependencyValidation =>
    if dependencyValidation.valid = false then
      (dependencyValidation.reasons.map ("dependency:" ++ ·),none)
    else
      match plan.dependencies[i]?.bind fun d => (plan.residency[d.residencyIntentIndex]?).map (d,·) with
      | none => (["residency_intent_missing"],none)
      | some (dependency,residency) =>
        ((if dependency.requireAck then [] else ["restore_ack_dependency_missing"]) ++
          (if residency.action = .prefetchGpu then [] else ["restore_action_not_prefetch"]) ++
          (if validation.residency[residency.bundleId]?.any IntentValidation.valid then []
            else ["residency_validation_failed"]),some residency.bundleId)

def admissionReasons (id : String) : List String :=
  match plan.admission id, validation.admissions[id]? with
  | some admission, some admissionValidation =>
    if admissionValidation.valid = false then admissionValidation.reasons
    else if admission.action = .admits ∨ admission.action = .restoreThenAdmit then []
    else ["admission_not_runnable"]
  | _, _ => ["admission_missing"]

/-- The bundles that the dependencies of a request restore. -/
def dependentBundleIds (id : String) : List String :=
  (plan.dependencyIndices id).filterMap fun i => (plan.judgeDependency validation i).2

/-- A restore needs exactly the dependencies of its bundles, any other admission none. -/
def shapeReasons (id : String) : List String :=
  match plan.admission id with
  | none => []
  | some admission =>
    if admission.action = .restoreThenAdmit then
      (if admission.requiredBundleIds = [] ∨ plan.dependencyIndices id = [] then
        ["restore_dependency_missing"] else []) ++
      if (plan.dependentBundleIds validation id).toFinset ≠ admission.requiredBundleIds.toFinset then
        ["restore_dependency_mismatch"] else []
    else if admission.requiredBundleIds ≠ [] ∨ plan.dependencyIndices id ≠ [] then
      ["unexpected_admit_dependency"]
    else []

def requestReasons (id : String) : List String :=
  (if id ∈ visible then [] else ["request_not_visible"]) ++ plan.admissionReasons validation id ++
    (plan.dependencyIndices id).flatMap (fun i => (plan.judgeDependency validation i).1) ++
    plan.shapeReasons validation id

def requestCommitted (id : String) : Bool := (plan.requestReasons validation visible id).isEmpty

def requestSlice (id : String) : Except Raised ActionSlice :=
  ActionSlice.make ("request:" ++ id) "request" id
    ((plan.dependencyIndices id).map fun i => "dependency:" ++ toString i)
    (plan.requestCommitted validation visible id) (plan.requestReasons validation visible id)

def orderedRequests : List String :=
  plan.execution.orderedRequestIds.filter (plan.requestCommitted validation visible)

/-- The bundles an ordered request has to wait for. -/
def restoreEntry (id : String) : Option (String × List String) :=
  (plan.admission id).bind fun admission =>
    if admission.action = .restoreThenAdmit then
      some (id,admission.requiredBundleIds.mergeSort fun a b => decide (a ≤ b))
    else none

/-- The residency intents that ordered restores wait for. -/
def requiredIndices : Finset ℕ :=
  ((plan.orderedRequests validation visible).filter fun id => (plan.restoreEntry id).isSome).toFinset.biUnion
    fun id => ((plan.dependencyIndices id).filterMap fun i =>
      plan.dependencies[i]?.map (·.residencyIntentIndex)).toFinset

def residencyReasons (residency : ResidencyIntent) : List String :=
  match validation.residency[residency.bundleId]? with
  | none => ["residency_validation_missing"]
  | some v => v.reasons

def residencyCommitted (i : ℕ) (residency : ResidencyIntent) : Bool :=
  (residencyReasons validation residency).isEmpty &&
    (i ∈ plan.requiredIndices validation visible ||
      (plan.orderedRequests validation visible ≠ [] &&
        (residency.action = .commitCpu || residency.action = .drop || residency.action = .recompute)))

def residencySlice (i : ℕ) (residency : ResidencyIntent) : Except Raised ActionSlice :=
  let committed := plan.residencyCommitted validation visible i residency
  let reasons := residencyReasons validation residency
  ActionSlice.make ("residency:" ++ toString i ++ ":" ++ residency.bundleId) "residency" residency.bundleId
    (plan.dependencies.filterMap fun dependency =>
      if dependency.residencyIntentIndex = i then dependency.beforeRequestId.map ("request:" ++ ·)
      else none)
    committed (if committed then [] else if reasons = [] then ["no_committed_consumer"] else reasons)

/-- The residency intents that do something, with their places. -/
def actingResidency : List (ResidencyIntent × ℕ) :=
  plan.residency.zipIdx.filter fun entry => entry.1.action ≠ .keep

def residencyIndices : Finset ℕ :=
  plan.requiredIndices validation visible ∪
    ((plan.actingResidency.filter fun entry =>
      plan.residencyCommitted validation visible entry.2 entry.1).map Prod.snd).toFinset

def onlineView : OnlineJointPlanView :=
  let ordered := plan.orderedRequests validation visible
  { planId := plan.planId
    orderedRequestIds := ordered
    immediateRequestIds := ordered.filter fun id => (plan.restoreEntry id).isNone
    restoreRequirements := ordered.filterMap plan.restoreEntry
    deferredRequestIds := Dict.sorted (visible \ ordered.toFinset)
    residencyIntentIndices := (plan.residencyIndices validation visible).sort (· ≤ ·) }

/-- Reasons against the execution order other than an admission that is dropped. -/
def nonlocalExecutionReasons : List String :=
  validation.execution.reasons.filter fun reason =>
    !(reason.startsWith "admission_invalid:") && !(reason.startsWith "admission_missing:")

end JointPlan

def compileOnlineJointView (plan : JointPlan) (validation : JointPlanComponentValidation)
    (visible : Finset String) (epochSequence : ℕ) : Except Raised OnlineJointPlanDecision :=
  if validation.globalReasons ≠ [] then .ok { view := none, reason := "global_validation_failed" }
  else if JointPlan.nonlocalExecutionReasons validation ≠ [] then
    .ok { view := none, reason := "execution_order_validation_failed" }
  else do
    let requests ← plan.execution.orderedRequestIds.mapM (plan.requestSlice validation visible)
    let residency ← plan.actingResidency.mapM fun entry =>
      plan.residencySlice validation visible entry.2 entry.1
    let slices := requests ++ residency
    let view := plan.onlineView validation visible
    view.check
    let groups ← actionGroupsFromSlices slices
    let committed := slices.countP (·.committed)
    let epoch : JointPlanEpoch :=
      { epochId := plan.planId ++ ":epoch:" ++ toString epochSequence
        sourcePlanId := plan.planId
        plannerMode := plan.plannerMode
        view := view
        actionSlices := slices
        sourceActionCount := slices.length
        committedActionCount := committed
        actionGroups := groups }
    epoch.check
    let reason :=
      if view.orderedRequestIds = [] ∧ view.residencyIntentIndices = [] then "no_action"
      else if view.orderedRequestIds.length < plan.execution.orderedRequestIds.length ∨
        committed < slices.length then "partially_applicable"
      else "applicable"
    let decision : OnlineJointPlanDecision := ⟨some view,reason,some epoch⟩
    decision.check
    .ok decision

end BeliefKV
