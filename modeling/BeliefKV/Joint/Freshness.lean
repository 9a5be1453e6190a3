import BeliefKV.Joint.Planner

/-! Validating the components of a plan against the current state. -/
namespace BeliefKV.JointScheduler

structure JointPlanCurrentState (J : Type) where
  nowMs : ℚ
  runnableFrontier : List RunnableInvocation
  invocationSnapshots : Dict String J
  joinSnapshots : Dict String J
  transitions : Dict String J
  fairnessRevision : ℕ
  fairnessAccounts : Dict String J
  workflowMemoryCharges : Dict String ℚ
  transferEpoch : ℕ
  hbmCapacityBytes : ℕ
  hbmAvailableBytes : ℕ
  hostFreeBytes : ℕ
  bundleSnapshots : Dict String PhysicalBundleSnapshot
  now_nonneg : 0 ≤ nowMs
  frontier_sorted : runnableFrontier.Pairwise fun a b => a.requestId ≤ b.requestId
  capacity_pos : 0 < hbmCapacityBytes

/-- The request with an id; a later one replaces an earlier one. -/
def JointPlanCurrentState.request? {J : Type} (current : JointPlanCurrentState J) (id : String) :
    Option RunnableInvocation :=
  current.runnableFrontier.reverse.find? (·.requestId = id)

/-- The current state of a snapshot. -/
def projected {J : Type} (input : ObservedInput J) : JointPlanCurrentState J where
  nowMs := input.resources.tsMs
  runnableFrontier := input.runnableFrontier
  invocationSnapshots := input.graph.invocations
  joinSnapshots := input.graph.joins
  transitions := input.graph.transitions
  fairnessRevision := input.graph.fairnessRevision
  fairnessAccounts := input.graph.accounts
  workflowMemoryCharges := input.graph.memoryCharges
  transferEpoch := input.graph.transferEpoch
  hbmCapacityBytes := input.resources.hbmCapacityBytes
  hbmAvailableBytes := hbmAvailableBytes input
  hostFreeBytes := input.resources.hostFreeBytes
  bundleSnapshots := collect input.bundles (·.bundleId) id
  now_nonneg := input.resources.ts_nonneg
  frontier_sorted := input.requests_sorted
  capacity_pos := input.resources.capacity_pos

section Fairness
variable {J : Type} (readers : Readers J) (fl : ℚ → ℚ)

def isFactualRunnable (state : String) (pendingMessages : ℕ) (causalClass : String) : Bool :=
  if state = "ready" || state = "created" || 0 < pendingMessages then true
  else if state = "running_llm" then
    causalClass.startsWith "engine_running:" || causalClass.startsWith "engine_waiting:" ||
      causalClass.startsWith "pending_admission:" || causalClass.startsWith "reserved_admission:"
  else state = "unknown"

/-- The workflows within the lag budget, the one to serve first at the front. -/
def currentFairnessOrder (frontier : List RunnableInvocation) (invocations accounts : Dict String J)
    (memoryCharges : Dict String ℚ) (hbmCapacityBytes : ℕ) (lagBudgetMs memoryPenaltyMs : ℚ)
    (maxWorkflowCandidates : ℕ) : List String :=
  let workflowIds := ((frontier.filter fun r =>
    let invocation := invocations.getD r.invocationId readers.blank
    isFactualRunnable (readers.state invocation) (readers.pendingMessages invocation) r.causalClass).map
      (·.workflowId)).toFinset
  let virtualRuntime := fun w => readers.virtualRuntimeMs (accounts.getD w readers.blank)
  let minimum := ((Dict.sorted workflowIds).map virtualRuntime).min?.getD 0
  let within := (Dict.sorted workflowIds).filter fun w => fl (virtualRuntime w - minimum) ≤ lagBudgetMs
  let share := fun w => fl (memoryCharges.getD w 0 / hbmCapacityBytes)
  let key : String → ℚ ×ₗ ℚ ×ₗ String := fun w =>
    toLex (fl (virtualRuntime w + fl (share w * memoryPenaltyMs)),toLex (share w,w))
  (within.mergeSort fun a b => key a ≤ key b).take maxWorkflowCandidates

end Fairness

section Validate
variable {J : Type} (readers : Readers J) (fl : ℚ → ℚ) (plan : PlannedJointPlan) (source : ObservedInput J)
  (current : JointPlanCurrentState J)

/-- What a dictionary has for a key is some value. -/
def expects {V : Type} [DecidableEq V] (d : Dict String V) (key : String) (value : V) : Bool :=
  d[key]? = some value

/-- What speaks against an admission by itself. -/
def requestReasons (requestId : String) : List String :=
  match current.request? requestId with
  | none => ["request_missing"]
  | some request =>
    if (source.request? requestId).isNone || plan.readSet.requestFingerprints[requestId]?.isNone then
      ["request_not_in_readset"]
    else
      let transition := current.transitions.getD request.workflowId readers.blank
      (if expects plan.readSet.requestFingerprints requestId (readers.requestDigest (requestPayload request))
        then [] else ["request_changed"]) ++
      (if expects plan.readSet.contextEpochs request.contextId request.contextEpoch
        then [] else ["context_epoch"]) ++
      (if expects plan.readSet.invocationFingerprints request.invocationId
          (readers.digest (current.invocationSnapshots.getD request.invocationId readers.blank))
        then [] else ["invocation_changed"]) ++
      (if expects plan.readSet.transitionGenerations request.workflowId (readers.generation transition)
        then [] else ["transition_generation"]) ++
      (if readers.isOpen transition then ["transition_open"] else []) ++
      (if readers.degraded transition then ["transition_degraded"] else []) ++
      (plan.readSet.joinFingerprints.toList.filter fun e =>
        let join := source.graph.joins.getD e.1 readers.blank
        request.invocationId ∈ readers.members join ++ readers.waiters join &&
          readers.digest (current.joinSnapshots.getD e.1 readers.blank) ≠ e.2).map
            ("join_changed:" ++ ·.1)

/-- What speaks against a residency intent by itself. -/
def residencyReasons (intent : PlannedResidency) : List String :=
  match current.bundleSnapshots[intent.bundleId]? with
  | none => ["bundle_missing"]
  | some b =>
    if ¬ expects plan.readSet.touchedBundleGenerations intent.bundleId b.generationFingerprint then
      ["bundle_generation"]
    else
      (if intent.action ≠ .keep && !b.actionable then b.blockerCodes.map ("bundle_blocked:" ++ ·) else []) ++
      (if intent.action = .prefetchGpu then
        if b.physicalUniqueBytes ≤ b.gpuBytes then ["prefetch_obsolete"] else []
      else if intent.action = .commitCpu || intent.action = .drop then
        if b.gpuBytes = 0 then ["reclaim_obsolete"] else []
      else []) ++
      (if intent.action ≠ .keep && residencyTargetBytes b intent.action ≠ intent.targetBytes then
        ["bundle_target_changed"] else [])

/-- Copies to the host are accepted while they fit. -/
def hostPass : List PlannedResidency → ℕ → List (PlannedResidency × List String)
  | [], _ => []
  | intent :: rest, hostRemaining =>
    let reasons := residencyReasons plan current intent
    if intent.action = .commitCpu ∧ reasons = [] then
      let needed := current.bundleSnapshots[intent.bundleId]?.elim 0 (·.hostNeeded)
      if hostRemaining < needed then
        (intent,["insufficient_host_headroom"]) :: hostPass rest hostRemaining
      else (intent,[]) :: hostPass rest (hostRemaining - needed)
    else (intent,reasons) :: hostPass rest hostRemaining

def validation (reasons : List String) : IntentValidation := ⟨Dict.sorted reasons.toFinset⟩

def residencyValidation : Dict String IntentValidation :=
  collect (hostPass plan current plan.residency current.hostFreeBytes) (·.1.bundleId) (validation ·.2)

/-- A bundle that is required has a valid intent. -/
def bundleReasons (bundleId : String) : List String :=
  match (residencyValidation plan current)[bundleId]? with
  | none => ["required_bundle_missing:" ++ bundleId]
  | some v => if v.valid then [] else ["required_bundle_invalid:" ++ bundleId]

/-- What speaks against an admission before its bytes are counted. -/
def admissionReasons (admission : PlannedAdmission) : List String :=
  requestReasons readers plan source current admission.requestId ++
    admission.requiredBundleIds.flatMap (bundleReasons plan current)

/-- The bytes that valid intents give up. -/
def reclaimable : ℕ :=
  ((plan.residency.filter fun intent => (intent.action = .commitCpu || intent.action = .drop) &&
    (residencyValidation plan current)[intent.bundleId]?.any IntentValidation.valid).map fun intent =>
      current.bundleSnapshots[intent.bundleId]?.elim 0 (·.marginalReclaimableBytes)).sum

def admission? (id : String) : Option PlannedAdmission := plan.admissions.find? (·.requestId = id)

/-- What an admission that is otherwise valid needs now. -/
def neededBytes? (id : String) : Option ℕ :=
  (admission? plan id).bind fun admission =>
    if admission.Runs ∧ admissionReasons readers plan source current admission = [] then
      (current.request? id).bind fun request => plan.readSet.requestStartupBytes[id]?.map fun startup =>
        admission.reservedBytes + unreservedStartupBytes request - startup
    else none

/-- The requests that no longer fit, one after another. -/
def headroomPass : List String → ℕ → List String
  | [], _ => []
  | id :: rest, available =>
    match neededBytes? readers plan source current id with
    | none => headroomPass rest available
    | some needed =>
      if available < needed then id :: headroomPass rest available
      else headroomPass rest (available - needed)

def admissionOrder : List String :=
  plan.orderedRequestIds ++
    (plan.admissions.map (·.requestId)).filter (· ∉ plan.orderedRequestIds)

def rejectedIds : List String :=
  headroomPass readers plan source current (admissionOrder plan)
    (current.hbmAvailableBytes + reclaimable plan current)

def admissionValidation : Dict String IntentValidation :=
  collect plan.admissions (·.requestId) fun admission =>
    validation (admissionReasons readers plan source current admission ++
      if admission.requestId ∈ rejectedIds readers plan source current then ["insufficient_hbm_headroom"]
      else [])

def executionReasons : List String :=
  (plan.orderedRequestIds.flatMap fun id =>
    match (admissionValidation readers plan source current)[id]? with
    | none => ["admission_missing:" ++ id]
    | some v => if v.valid then [] else ["admission_invalid:" ++ id]) ++
  (match plan.selectedWorkflowId with
    | none => []
    | some workflowId =>
      (if expects plan.readSet.workflowFrontierFingerprints workflowId
          (readers.frontierDigest (requestsOfWorkflow current.runnableFrontier workflowId))
        then [] else ["selected_workflow_frontier_changed"]) ++
      if (currentFairnessOrder readers fl current.runnableFrontier current.invocationSnapshots
          current.fairnessAccounts current.workflowMemoryCharges current.hbmCapacityBytes
          plan.readSet.fairnessLagBudgetMs plan.readSet.fairnessMemoryPenaltyMs
          plan.readSet.fairnessMaxWorkflowCandidates).head? = some workflowId
        then [] else ["fairness_priority_changed"]) ++
  if current.fairnessRevision < plan.readSet.fairnessRevision then ["fairness_revision_regressed"] else []

def dependencyReasons (dependency : TransferDependency) : List String :=
  (match plan.residency[dependency.residencyIntentIndex]? with
    | none => ["residency_index"]
    | some intent =>
      if (residencyValidation plan current)[intent.bundleId]?.any IntentValidation.valid then []
      else ["residency_invalid:" ++ intent.bundleId]) ++
  match dependency.beforeRequestId with
  | none => []
  | some id =>
    match (admissionValidation readers plan source current)[id]? with
    | none => ["admission_missing:" ++ id]
    | some v => if v.valid then [] else ["admission_invalid:" ++ id]

def validateJointPlanComponents : JointPlanComponentValidation where
  globalReasons := Dict.sorted
    ((if plan.readSet.expiresAtMs < current.nowMs then ["plan_expired"] else []) ++
      if current.transferEpoch < plan.readSet.transferEpoch then ["transfer_epoch_regressed"]
      else []).toFinset
  execution := validation (executionReasons readers fl plan source current)
  admissions := admissionValidation readers plan source current
  residency := residencyValidation plan current
  dependencies := plan.dependencies.map fun d => validation (dependencyReasons readers plan source current d)

end Validate
end BeliefKV.JointScheduler
