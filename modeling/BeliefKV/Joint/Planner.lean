import BeliefKV.WhatIf.Choice

/-! The observed joint planner. Records of the runtime graph are values of a type `J` with readers, and
digests are arbitrary functions; the order of the candidates is a parameter. -/
namespace BeliefKV.JointScheduler

/-- The fields of a request that a plan depends on. -/
structure RequestPayload where
  requestId : String
  workflowId : String
  invocationId : String
  contextId : String
  contextEpoch : ℕ
  submittedTsMs : ℚ
  causalClass : String
  programId : Option String

def requestPayload (r : RunnableInvocation) : RequestPayload :=
  ⟨r.requestId,r.workflowId,r.invocationId,r.contextId,r.contextEpoch,r.submittedTsMs,r.causalClass,
    r.programId⟩

/-- What is read from the records of the runtime graph, and their digests. -/
structure Readers (J : Type) where
  blank : J
  state : J → String
  pendingMessages : J → ℕ
  members : J → List String
  waiters : J → List String
  generation : J → ℕ
  isOpen : J → Bool
  degraded : J → Bool
  virtualRuntimeMs : J → ℚ
  digest : J → String
  requestDigest : RequestPayload → String
  frontierDigest : List RequestPayload → String

structure GraphState (J : Type) where
  invocations : Dict String J
  joins : Dict String J
  transitions : Dict String J
  accounts : Dict String J
  memoryCharges : Dict String ℚ
  transitionOpen : Bool
  fairnessRevision : ℕ
  transferEpoch : ℕ

/-- A snapshot with the runtime graph it was taken from. -/
structure ObservedInput (J : Type) extends PolicyInput where
  graph : GraphState J

structure JointPlannerConfig where
  fairnessLagBudgetMs : ℚ := 50
  maxWorkflowCandidates : ℕ := 8
  maxFrontierCandidatesPerWorkflow : ℕ := 4
  maxPackageEvaluations : ℕ := 8
  maxPlanAgeMs : ℚ := 100
  residencyHysteresisMs : ℚ := 100
  emergencyHbmRatio : ℚ := 98 / 100
  memoryPenaltyMs : ℚ := 5
  allowRecompute : Bool := false

def JointPlannerConfig.packer (config : JointPlannerConfig) : WhatIfPackerConfig where
  maxFrontierPerWorkflow := config.maxFrontierCandidatesPerWorkflow
  handoffHysteresisMs := config.residencyHysteresisMs
  emergencyHbmRatio := config.emergencyHbmRatio
  allowRecompute := config.allowRecompute

/-- The startup bytes of a request that are not reserved yet. -/
def unreservedStartupBytes (request : RunnableInvocation) : ℕ :=
  if request.causalClass.startsWith "reserved_admission:" || request.causalClass.startsWith "engine_waiting:" ||
    request.causalClass.startsWith "engine_running:" then 0
  else request.startupBytes

def residencyTargetBytes (b : PhysicalBundleSnapshot) (action : ResidencyAction) : ℕ :=
  if action = .prefetchGpu then b.missingBytes
  else if action = .commitCpu ∨ action = .drop then b.marginalReclaimableBytes
  else b.gpuBytes

/-! ## Plans -/

structure PlannedAdmission extends AdmissionIntent where
  reservedBytes : ℕ

/-- The request may run, at once or after a restore. -/
def PlannedAdmission.Runs (a : PlannedAdmission) : Prop :=
  a.action = .admits ∨ a.action = .restoreThenAdmit

instance (a : PlannedAdmission) : Decidable a.Runs := inferInstanceAs (Decidable (_ ∨ _))

structure PlannedResidency extends ResidencyIntent where
  targetBytes : ℕ

/-- The bytes that all of a plan needs. -/
structure ResourceFeasibilityCertificate where
  requiredHeadroomBytes : ℕ
  requiredHostBytes : ℕ

/-- What a plan has read. -/
structure PlanReadSet where
  requestFingerprints : Dict String String
  requestStartupBytes : Dict String ℕ
  workflowFrontierFingerprints : Dict String String
  contextEpochs : Dict String ℕ
  invocationFingerprints : Dict String String
  joinFingerprints : Dict String String
  transitionGenerations : Dict String ℕ
  touchedBundleGenerations : Dict String String
  touchedBundleActions : Dict String ResidencyAction
  fairnessRevision : ℕ
  fairnessLagBudgetMs : ℚ
  fairnessMemoryPenaltyMs : ℚ
  fairnessMaxWorkflowCandidates : ℕ
  transferEpoch : ℕ
  expiresAtMs : ℚ
  certificate : ResourceFeasibilityCertificate

/-- A plan, with the resources it was made for. -/
structure PlannedJointPlan where
  orderedRequestIds : List String
  selectedWorkflowId : Option String
  admissions : List PlannedAdmission
  residency : List PlannedResidency
  dependencies : List TransferDependency
  expectedHbmPeakBytes : ℤ
  readSet : PlanReadSet

/-- A dictionary from the keys and values of a list; a later entry replaces an earlier one. -/
def collect {A V : Type} (l : List A) (key : A → String) (value : A → V) : Dict String V :=
  l.foldl (fun d a => d.insert (key a) (value a)) ∅

section Plan
variable {J : Type} (readers : Readers J) (fl : ℚ → ℚ) (config : JointPlannerConfig) (input : ObservedInput J)

/-- The requests that the admissions and the order name, by id. -/
def readRequests (orderedRequestIds : List String) (admissions : List PlannedAdmission) :
    List RunnableInvocation :=
  (Dict.sorted ((admissions.map (·.requestId)).toFinset ∪ orderedRequestIds.toFinset)).filterMap
    input.request?

def requestsOfWorkflow (frontier : List RunnableInvocation) (workflowId : String) : List RequestPayload :=
  ((frontier.filter (·.workflowId = workflowId)).mergeSort fun a b => a.requestId ≤ b.requestId).map
    requestPayload

def buildReadSet (orderedRequestIds : List String) (admissions : List PlannedAdmission)
    (residency : List PlannedResidency) : PlanReadSet :=
  let requests := readRequests input orderedRequestIds admissions
  let invocationIds := Dict.sorted (requests.map (·.invocationId)).toFinset
  { requestFingerprints := collect requests (·.requestId) (readers.requestDigest ∘ requestPayload)
    requestStartupBytes := collect requests (·.requestId) unreservedStartupBytes
    workflowFrontierFingerprints := collect input.runnableFrontier (·.workflowId) fun r =>
      readers.frontierDigest (requestsOfWorkflow input.runnableFrontier r.workflowId)
    contextEpochs := collect requests (·.contextId) (·.contextEpoch)
    invocationFingerprints := collect invocationIds id fun i =>
      readers.digest (input.graph.invocations.getD i readers.blank)
    joinFingerprints := collect (input.graph.joins.toList.filter fun e =>
      (readers.members e.2 ++ readers.waiters e.2).any (· ∈ invocationIds)) Prod.fst fun e =>
        readers.digest e.2
    transitionGenerations := collect requests (·.workflowId) fun r =>
      readers.generation (input.graph.transitions.getD r.workflowId readers.blank)
    touchedBundleGenerations := collect (residency.filterMap fun r => input.bundle? r.bundleId) (·.bundleId)
      (·.generationFingerprint)
    touchedBundleActions := collect residency (·.bundleId) (·.action)
    fairnessRevision := input.graph.fairnessRevision
    fairnessLagBudgetMs := config.fairnessLagBudgetMs
    fairnessMemoryPenaltyMs := config.memoryPenaltyMs
    fairnessMaxWorkflowCandidates := config.maxWorkflowCandidates
    transferEpoch := input.graph.transferEpoch
    expiresAtMs := fl (input.resources.tsMs + config.maxPlanAgeMs)
    certificate := {
      requiredHeadroomBytes := ((admissions.filter fun a => a.Runs).map (·.reservedBytes)).sum
      requiredHostBytes := ((residency.filter (·.action = .commitCpu)).map fun r =>
        (input.bundle? r.bundleId).elim 0 (·.hostNeeded)).sum } }

/-- The constructor of a plan refuses a negative peak. -/
def makePlan (orderedRequestIds : List String) (selectedWorkflowId : Option String)
    (admissions : List PlannedAdmission) (residency : List PlannedResidency)
    (dependencies : List TransferDependency) (expectedHbmPeakBytes : ℤ) : Except Raised PlannedJointPlan := do
  ensure (0 ≤ expectedHbmPeakBytes) (.valueError "joint plan counters must be non-negative")
  .ok ⟨orderedRequestIds,selectedWorkflowId,admissions,residency,dependencies,expectedHbmPeakBytes,
    buildReadSet readers fl config input orderedRequestIds admissions residency⟩

/-! ## The seed -/

/-- Admit requests while their startup fits. -/
def admitFitting (cpuResident : String → Bool) : List RunnableInvocation → ℕ → List RunnableInvocation
  | [], _ => []
  | request :: rest, available =>
    if cpuResident request.contextId || available < unreservedStartupBytes request then
      admitFitting cpuResident rest available
    else request :: admitFitting cpuResident rest (available - unreservedStartupBytes request)

/-- One intent for each runnable request: the admitted ones run, the others wait. -/
def plainAdmission (admittedIds : List String) (request : RunnableInvocation) : PlannedAdmission where
  requestId := request.requestId
  action := if request.requestId ∈ admittedIds then .admits else .defer
  requiredBundleIds := []
  named := request.named
  unique := List.nodup_nil
  reservedBytes := if request.requestId ∈ admittedIds then unreservedStartupBytes request else 0

/-- A plan that restores nothing. -/
def plainPlan (admitted : List RunnableInvocation) : Except Raised PlannedJointPlan :=
  makePlan readers fl config input (admitted.map (·.requestId)) (admitted.head?.map (·.workflowId))
    (input.runnableFrontier.map (plainAdmission (admitted.map (·.requestId)))) [] []
    (input.resources.hbmUsedBytes + input.resources.hbmReservedBytes +
      ((admitted.map unreservedStartupBytes).sum : ℕ))

def cpuResidentContext (contextId : String) : Bool :=
  input.bundles.any fun b => b.gpuBytes < b.physicalUniqueBytes && contextId ∈ b.ownerContextIds

def hbmAvailableBytes : ℕ :=
  input.resources.hbmCapacityBytes - input.resources.hbmUsedBytes - input.resources.hbmReservedBytes

def boundedSeed (candidates : List RunnableInvocation) : Except Raised PlannedJointPlan :=
  plainPlan readers fl config input
    (admitFitting (cpuResidentContext input) candidates (hbmAvailableBytes input))

def fallback : Except Raised PlannedJointPlan := plainPlan readers fl config input []

/-! ## The package -/

/-- The bundles of a request that the package brings to the GPU. -/
def restoredBundles (plan : ScenarioPlan) (request : RunnableInvocation) : List PhysicalBundleSnapshot :=
  ((Dict.sorted (input.bundleIdsByContext request.contextId)).filterMap input.bundle?).filter fun b =>
    plan.bundleActions[b.bundleId]? = some .prefetchGpu

theorem nodup_restoredBundles (plan : ScenarioPlan) (request : RunnableInvocation) :
    ((restoredBundles input plan request).map (·.bundleId)).Nodup :=
  (Dict.nodup_sorted _).sublist ((List.filter_sublist.map _).trans (requiredBundles_ids _))

/-- The intent of a request in the package. A bundle is charged to the first request that restores it. -/
def packageAdmission (plan : ScenarioPlan) (charged : Finset String) (request : RunnableInvocation) :
    PlannedAdmission where
  requestId := request.requestId
  action := if request.requestId ∈ plan.executionOrder then
      if restoredBundles input plan request = [] then .admits else .restoreThenAdmit
    else .defer
  requiredBundleIds := if request.requestId ∈ plan.executionOrder then
      (restoredBundles input plan request).map (·.bundleId)
    else []
  named := request.named
  unique := by
    split_ifs
    · exact nodup_restoredBundles input plan request
    · exact List.nodup_nil
  reservedBytes := if request.requestId ∈ plan.executionOrder then
      unreservedStartupBytes request +
        (((restoredBundles input plan request).filter (·.bundleId ∉ charged)).map (·.missingBytes)).sum
    else 0

/-- The intents of the frontier, with what was charged before. -/
def packageAdmissions (plan : ScenarioPlan) : List RunnableInvocation → Finset String → List PlannedAdmission
  | [], _ => []
  | request :: rest, charged =>
    let admission := packageAdmission input plan charged request
    admission :: packageAdmissions plan rest (charged ∪ admission.requiredBundleIds.toFinset)

def packageResidency (plan : ScenarioPlan) : List PlannedResidency :=
  plan.bundleActions.toList.filterMap fun entry => (input.bundle? entry.1).map fun b =>
    { bundleId := b.bundleId, action := entry.2, named := b.named,
      targetBytes := residencyTargetBytes b entry.2 }

def packageDependencies (plan : ScenarioPlan) : List TransferDependency :=
  (input.runnableFrontier.filter (·.requestId ∈ plan.executionOrder)).flatMap fun request =>
    (restoredBundles input plan request).map fun b =>
      ⟨some request.requestId,(packageResidency input plan).findIdx (·.bundleId = b.bundleId),true⟩

def fromScenarioPlan (plan : ScenarioPlan) : Except Raised PlannedJointPlan :=
  makePlan readers fl config input plan.executionOrder
    ((plan.executionOrder.head?.bind input.request?).map (·.workflowId))
    (packageAdmissions input plan input.runnableFrontier ∅) (packageResidency input plan)
    (packageDependencies input plan) plan.projectedHbmPeakBytes

/-! ## The search -/

/-- The candidates, in the order in which they are packed. -/
structure CandidateOrder where
  requests : List RunnableInvocation
  transition : ScenarioTransition
  fairness : FairnessWindow
  unique : (requests.map (·.requestId)).Nodup

/-- When the planner is out of time or superseded, by the number of packages it has tried. -/
structure Interrupts where
  early : Bool
  expired : ℕ → Bool
  cancelled : ℕ → Bool

structure Search where
  low : ℕ
  high : ℕ
  evaluated : ℕ := 0
  probedMaximum : Bool := false
  selected : Option ScenarioPlan := none

variable (order : CandidateOrder) (interrupts : Interrupts)

def packageScenario (length : ℕ) : FrontierScenario where
  scenarioId := "observed-runtime-frontier"
  transition := order.transition
  candidateRequestIds := (order.requests.take length).map (·.requestId)
  consumerContextIds := []
  keepContextIds := []
  projectedGrowthBytes := ∅
  anonymousFreshBytes := 0
  candidates_unique := order.unique.sublist ((List.take_sublist _ _).map _)

def packageAt (length : ℕ) : Except Raised ScenarioPlan :=
  physicalize input.toPolicyInput (packageScenario order length) >>=
    pack fl config.packer (some order.fairness) input.toPolicyInput

def Search.length (s : Search) : ℕ :=
  if s.evaluated = 0 then 1 else if s.probedMaximum = false then s.high else (s.low + s.high) / 2

/-- Try prefixes of the candidates until the longest feasible one is known. -/
def search : ℕ → Search → Except Raised Search
  | 0, s => .ok s
  | fuel + 1, s =>
    if s.high < s.low then .ok s
    else if (s.evaluated ≠ 0 && interrupts.expired s.evaluated) || interrupts.cancelled s.evaluated then .ok s
    else do
      let plan ← packageAt fl config input order s.length
      let next : Search := { s with
        evaluated := s.evaluated + 1
        probedMaximum := s.probedMaximum || s.evaluated ≠ 0 }
      if plan.feasible then
        let found : Search := { next with selected := some plan, low := s.length + 1 }
        if s.length = order.requests.length then .ok found else search fuel found
      else
        let missed : Search := { next with high := s.length - 1 }
        if s.length = 1 then .ok missed else search fuel missed

def transitionOpen : Bool :=
  input.graph.transitionOpen || input.runnableFrontier.any fun r =>
    readers.isOpen (input.graph.transitions.getD r.workflowId readers.blank) ||
      readers.degraded (input.graph.transitions.getD r.workflowId readers.blank)

/-- The plan of the observed planner. -/
def plan : Except Raised PlannedJointPlan :=
  if transitionOpen readers input || order.requests.isEmpty then fallback readers fl config input
  else do
    let seed ← boundedSeed readers fl config input order.requests
    if interrupts.early then .ok seed
    else
      match search fl config input order interrupts config.maxPackageEvaluations
        { low := 1, high := order.requests.length } with
      | .error _ => .ok seed
      | .ok s =>
        match s.selected with
        | none => .ok seed
        | some package => fromScenarioPlan readers fl config input package

end Plan
end BeliefKV.JointScheduler
