import BeliefKV.Joint.Plan

/-! The physical demand of a frontier scenario. Times, rates and ratios are rationals; `fl` stands for
the rounding of floating point, and may be any function. -/
namespace BeliefKV

structure PhysicalBundleSnapshot where
  bundleId : String
  ownerContextIds : List String
  scope : String
  physicalUniqueBytes : ℕ
  gpuBytes : ℕ
  cpuBytes : ℕ
  marginalReclaimableBytes : ℕ
  lockedBytes : ℕ
  residency : String
  generationFingerprint : String
  lastAccessMs : ℚ
  extentIds : List String
  leaseKind : String
  actionable : Bool
  blockerCodes : List String
  named : bundleId ≠ ""
  owners_unique : ownerContextIds.Nodup
  gpu_le : gpuBytes ≤ physicalUniqueBytes
  cpu_le : cpuBytes ≤ physicalUniqueBytes
  marginal_le : marginalReclaimableBytes ≤ gpuBytes
  locked_le : lockedBytes ≤ gpuBytes
  extents_unique : extentIds.Nodup

namespace PhysicalBundleSnapshot
variable (b : PhysicalBundleSnapshot)

/-- The bytes that are not on the GPU. -/
def missingBytes : ℕ := b.physicalUniqueBytes - b.gpuBytes

/-- The bytes that an offload has to copy to the host. -/
def hostNeeded : ℕ := b.gpuBytes - b.cpuBytes

end PhysicalBundleSnapshot

structure RunnableInvocation where
  requestId : String
  workflowId : String
  invocationId : String
  contextId : String
  contextEpoch : ℕ
  submittedTsMs : ℚ
  startupBytes : ℕ
  causalClass : String
  programId : Option String
  named : requestId ≠ ""

structure ResourceSnapshot where
  tsMs : ℚ
  hbmCapacityBytes : ℕ
  hbmUsedBytes : ℕ
  hbmReservedBytes : ℕ
  hostFreeBytes : ℕ
  h2dServiceBytesPerMs : ℚ
  d2hServiceBytesPerMs : ℚ
  transferSetupP50Ms : ℚ
  unhiddenStallPerByte : ℚ
  ts_nonneg : 0 ≤ tsMs
  capacity_pos : 0 < hbmCapacityBytes
  fits : hbmUsedBytes + hbmReservedBytes ≤ hbmCapacityBytes

/-- A snapshot, as far as the packer and the resimulator read it. -/
structure PolicyInput where
  snapshotId : String
  runnableFrontier : List RunnableInvocation
  bundles : List PhysicalBundleSnapshot
  resources : ResourceSnapshot
  requests_unique : (runnableFrontier.map (·.requestId)).Nodup
  requests_sorted : runnableFrontier.Pairwise fun a b => a.requestId ≤ b.requestId
  bundles_unique : (bundles.map (·.bundleId)).Nodup

inductive ScenarioTransition
  | blocking
  | nonblocking
  | handoff
  | multiConsumer
  | cyclicReactivation
  | freshSpawn
  | toolWait
  deriving DecidableEq

structure FrontierScenario where
  scenarioId : String
  transition : ScenarioTransition
  candidateRequestIds : List String
  consumerContextIds : List String
  keepContextIds : List String
  projectedGrowthBytes : Dict String ℕ
  anonymousFreshBytes : ℕ
  candidates_unique : candidateRequestIds.Nodup

structure ScenarioDemand where
  snapshotId : String
  scenarioId : String
  transition : ScenarioTransition
  candidateRequestIds : List String
  requiredGpuBundles : List String
  optionalGpuBundles : List String
  startupBytesByRequest : Dict String ℕ
  projectedHbmPeakBytes : ℕ
  physicalAccountingExact : Bool
  blockerReasons : List String

def ScenarioDemand.speculativeOnly (d : ScenarioDemand) : Bool := d.candidateRequestIds.isEmpty

/-! ## The index of a snapshot -/

namespace PolicyInput
variable (input : PolicyInput)

def request? (id : String) : Option RunnableInvocation :=
  input.runnableFrontier.find? (·.requestId = id)

def bundle? (id : String) : Option PhysicalBundleSnapshot := input.bundles.find? (·.bundleId = id)

def bundleIds : List String := input.bundles.map (·.bundleId)

def bundleIdsByContext (contextId : String) : Finset String :=
  ((input.bundles.filter fun b => contextId ∈ b.ownerContextIds).map (·.bundleId)).toFinset

/-- Bundles that may be taken from the GPU. -/
def potentialVictims : List PhysicalBundleSnapshot :=
  input.bundles.filter fun b =>
    0 < b.gpuBytes && 0 < b.marginalReclaimableBytes && b.lockedBytes = 0 && b.actionable &&
      b.leaseKind ≠ "ready" && b.leaseKind ≠ "running"

/-- An extent belongs to the first bundle that names it. -/
def claimExtent (bundleId : String) (s : Dict String String × List String) (extentId : String) :
    Dict String String × List String :=
  match s.1[extentId]? with
  | none => (s.1.insert extentId bundleId,s.2)
  | some previous =>
    if previous = bundleId then s
    else (s.1,s.2 ++ ["overlapping_extent:" ++ extentId ++ ":" ++ previous ++ ":" ++ bundleId])

def claimExtents (s : Dict String String × List String) (b : PhysicalBundleSnapshot) :
    Dict String String × List String :=
  b.extentIds.foldl (claimExtent b.bundleId)
    (s.1,if b.extentIds = [] then s.2 ++ ["missing_extent_identity:" ++ b.bundleId] else s.2)

def physicalBlockers : List String := (input.bundles.foldl claimExtents (∅,[])).2

/-- Every blocker makes the accounting inexact. -/
def physicalAccountingExact : Bool := input.physicalBlockers.isEmpty

end PolicyInput

/-! ## The demand -/

def unreservedStartupBytes (invocation : RunnableInvocation) : ℕ :=
  if invocation.causalClass.startsWith "reserved_admission:" ||
    invocation.causalClass.startsWith "engine_waiting:" then 0
  else invocation.startupBytes

section Physicalize
variable (input : PolicyInput) (scenario : FrontierScenario)

def scenarioCandidates : List RunnableInvocation := scenario.candidateRequestIds.filterMap input.request?

def requiredContexts : Finset String :=
  ((scenarioCandidates input scenario).map (·.contextId)).toFinset ∪
    scenario.consumerContextIds.toFinset ∪ scenario.keepContextIds.toFinset

/-- The bundles that the scenario needs on the GPU. -/
def requiredIds : Finset String := (requiredContexts input scenario).biUnion input.bundleIdsByContext

def startupByRequest : Dict String ℕ :=
  (scenarioCandidates input scenario).foldl
    (fun startup item => startup.insert item.requestId (unreservedStartupBytes item)) ∅

def scenarioBlockers : List String :=
  input.physicalBlockers ++
    if scenario.transition = .freshSpawn ∧ scenario.anonymousFreshBytes = 0 ∧
      (((scenarioCandidates input scenario).map (·.contextId)).toFinset ∩
        scenario.keepContextIds.toFinset).Nonempty
    then ["fresh_spawn_missing_independent_kv_estimate"] else []

def physicalize : Except Raised ScenarioDemand := do
  let unknown := scenario.candidateRequestIds.filter (· ∉ input.runnableFrontier.map (·.requestId))
  ensure (unknown = [])
    (.valueError ("predicted or unknown requests cannot enter an execution scenario: [" ++
      String.intercalate ", " ((Dict.sorted unknown.toFinset).map fun id => "'" ++ id ++ "'") ++ "]"))
  let required := Dict.sorted (requiredIds input scenario)
  let startup := startupByRequest input scenario
  let h2dBytes := (required.map fun id => (input.bundle? id).elim 0 (·.missingBytes)).sum
  let projectedNewBytes := scenario.projectedGrowthBytes.vals.sum + scenario.anonymousFreshBytes +
    startup.vals.sum
  .ok {
    snapshotId := input.snapshotId
    scenarioId := scenario.scenarioId
    transition := scenario.transition
    candidateRequestIds := (scenarioCandidates input scenario).map (·.requestId)
    requiredGpuBundles := required
    optionalGpuBundles := if requiredIds input scenario = ∅ then input.bundleIds
      else input.bundleIds.filter (· ∉ requiredIds input scenario)
    startupBytesByRequest := startup
    projectedHbmPeakBytes := input.resources.hbmUsedBytes + input.resources.hbmReservedBytes + h2dBytes +
      projectedNewBytes
    physicalAccountingExact := input.physicalAccountingExact
    blockerReasons := Dict.sorted (scenarioBlockers input scenario).toFinset }

end Physicalize

end BeliefKV
