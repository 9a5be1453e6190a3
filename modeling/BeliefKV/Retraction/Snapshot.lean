import Mathlib.Data.Rat.Defs
import Mathlib.Data.List.Nodup
import Mathlib.Data.String.Basic
import BeliefKV.Protocol

/-! What a retraction is planned from: the running requests, the extents they lock and the requests
that wait for their memory. -/
namespace BeliefKV.Retraction

inductive ServiceStatus
  | recent
  | stale
  | warming
  | unknown
  deriving DecidableEq

inductive FrontierClass
  | expand
  | close
  | hold
  | unknown
  deriving DecidableEq

inductive PredictionSupport
  | exact
  | backoff
  | unavailable
  deriving DecidableEq

structure RunningRetractionCandidate where
  requestId : String
  privateKvBytes : ℕ
  serviceStatus : ServiceStatus
  staleForMs : ℚ
  causalRank : ℕ
  unblockDepth : ℕ
  workflowFairRank : ℕ
  priorRetractionCount : ℕ := 0
  policyEligible : Bool := true
  frontierClass : FrontierClass := .unknown
  predictionSupport : PredictionSupport := .unavailable
  serviceToBoundaryTokens : Option ℚ := none
  joinCriticality : ℚ := 0
  named : requestId ≠ ""
  stale_nonneg : 0 ≤ staleForMs
  boundary_nonneg : ∀ tokens, serviceToBoundaryTokens = some tokens → 0 ≤ tokens
  join_nonneg : 0 ≤ joinCriticality
  join_le : joinCriticality ≤ 1

structure RetractionLockedExtent where
  extentId : String
  sizeBytes : ℕ
  blockerRequestIds : List String
  fullyAttributed : Bool
  named : extentId ≠ ""
  size_pos : 0 < sizeBytes
  blockers_sorted : blockerRequestIds.Pairwise (· < ·)

structure RetractionReplacement where
  requestId : String
  estimatedIncrementalBytes : ℕ
  frontierClass : FrontierClass := .unknown
  predictionSupport : PredictionSupport := .unavailable
  joinCriticality : ℚ := 0
  named : requestId ≠ ""
  join_nonneg : 0 ≤ joinCriticality
  join_le : joinCriticality ≤ 1

structure ObservedRetractionSnapshot where
  observedTsMs : ℚ
  pageRevision : ℕ
  topologyRevision : ℕ
  activeKvBudgetBytes : ℕ
  activeKvFootprintBytes : ℕ
  nativeReclaimCapacityBytes : ℕ
  admissionStallMs : ℚ
  runningRequestCount : ℕ
  minimumActiveRequests : ℕ
  candidates : List RunningRetractionCandidate
  lockedExtents : List RetractionLockedExtent
  replacements : List RetractionReplacement
  candidates_unique : (candidates.map (·.requestId)).Nodup
  replacements_unique : (replacements.map (·.requestId)).Nodup

structure ObservedRetractionConfig where
  minimumAdmissionStallMs : ℚ := 100
  minimumReclaimBytes : ℕ := 64 * 1024 * 1024
  maximumRetractionsPerRequest : ℕ := 3
  frontierAwareEnabled : Bool := false
  stall_pos : 0 < minimumAdmissionStallMs
  reclaim_pos : 0 < minimumReclaimBytes
  retractions_pos : 0 < maximumRetractionsPerRequest

structure RunningRetractionPlan where
  requestIds : List String
  replacementRequestIds : List String
  targetReclaimBytes : ℕ
  expectedPrivateReclaimBytes : ℕ
  expectedLockReleaseBytes : ℕ
  expectedReclaimCapacityBytes : ℕ
  nativeReclaimCapacityBefore : ℕ
  engineLockedBytesBefore : ℕ
  pageRevision : ℕ
  topologyRevision : ℕ
  observedTsMs : ℚ
  reason : String

/-- A plan is checked when it is made. -/
def RunningRetractionPlan.checked (p : RunningRetractionPlan) : Except Raised RunningRetractionPlan := do
  ensure (p.requestIds ≠ [] ∧ p.requestIds.Nodup) (.valueError "retraction plan requires unique request ids")
  ensure p.replacementRequestIds.Nodup (.valueError "replacement request ids must be unique")
  ensure (p.targetReclaimBytes ≤ p.expectedReclaimCapacityBytes)
    (.valueError "retraction plan does not cover its reclaim target")
  ensure (p.reason ≠ "") (.valueError "retraction plan reason must be non-empty")
  .ok p

structure ObservedRetractionDecision where
  plan : Option RunningRetractionPlan
  reason : String
  targetReclaimBytes : ℕ := 0
  candidateCount : ℕ := 0
  eligibleCandidateCount : ℕ := 0
  fullyAttributedExtentCount : ℕ := 0
  reclaimCapacityBytes : ℕ := 0

/-- A decision is checked when it is made. -/
def ObservedRetractionDecision.checked (d : ObservedRetractionDecision) :
    Except Raised ObservedRetractionDecision := do
  ensure (d.reason ≠ "") (.valueError "retraction decision reason must be non-empty")
  ensure (d.plan.isSome → d.reason = "plan_created") (.valueError "a retraction plan requires plan_created reason")
  .ok d

end BeliefKV.Retraction
