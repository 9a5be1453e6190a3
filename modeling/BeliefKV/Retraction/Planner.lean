import Mathlib.Data.Prod.Lex
import Mathlib.Data.List.Lex
import Mathlib.Data.List.Sort
import Mathlib.Algebra.BigOperators.Group.Finset.Basic
import BeliefKV.Lib.Dict
import BeliefKV.Lib.Least
import BeliefKV.Lib.Rounds
import BeliefKV.Retraction.Snapshot

/-! The choice of running requests to retract. A quotient is rounded by `fl`, which may be any function,
and the packages are met in any order. -/
namespace BeliefKV.Retraction
open Least Rounds

/-- An order in which the members of a set are met. -/
structure IterationOrder where
  order : List (Finset String) → List (Finset String)
  perm : ∀ packages, (order packages).Perm packages

section Config
variable (config : ObservedRetractionConfig)

def frontierProtected (item : RunningRetractionCandidate) : Bool :=
  config.frontierAwareEnabled && item.predictionSupport = .exact &&
    (item.frontierClass = .expand || (item.frontierClass = .close && 0 < item.joinCriticality))

def frontierVictimTier (item : RunningRetractionCandidate) : ℕ :=
  if item.predictionSupport = .unavailable then 1
  else match item.frontierClass with
    | .hold => 4
    | .close => if item.joinCriticality = 0 then 3 else 0
    | .unknown => 1
    | .expand => 0

def replacementPriority (item : RetractionReplacement) : ℕ :=
  if item.predictionSupport ≠ .exact then 2
  else if item.frontierClass = .expand then 0
  else if item.frontierClass = .close ∧ 0 < item.joinCriticality then 1
  else 2

def orderedReplacements (replacements : List RetractionReplacement) : List RetractionReplacement :=
  if !config.frontierAwareEnabled then replacements
  else
    let key (indexed : RetractionReplacement × ℕ) : ℕ ×ₗ ℕ := toLex (replacementPriority indexed.1,indexed.2)
    (replacements.zipIdx.insertionSort fun a b => key a ≤ key b).map Prod.fst

/-- The requests that may be retracted. -/
def eligible (snapshot : ObservedRetractionSnapshot) : List RunningRetractionCandidate :=
  snapshot.candidates.filter fun item => item.policyEligible && item.serviceStatus = .stale &&
    item.priorRetractionCount < config.maximumRetractionsPerRequest && !frontierProtected config item

def fullyAttributedExtents (snapshot : ObservedRetractionSnapshot) : List RetractionLockedExtent :=
  snapshot.lockedExtents.filter fun item => item.fullyAttributed && item.blockerRequestIds ≠ []

end Config

/-! ## Sets of candidates -/

section Candidates
variable (candidates : List RunningRetractionCandidate)

def idsOf : Finset String := (candidates.map (·.requestId)).toFinset

/-- What a candidate counts; a name that is no candidate counts nothing. -/
def countOf (count : RunningRetractionCandidate → ℕ) (requestId : String) : ℕ :=
  (candidates.find? (·.requestId = requestId)).elim 0 count

/-- The candidates of some names. A name that is no candidate raises. -/
def requireCandidates (requestIds : Finset String) : Except Raised (List RunningRetractionCandidate) := do
  ensure (requestIds ⊆ idsOf candidates) (.keyError "request_id")
  .ok (candidates.filter (·.requestId ∈ requestIds))

/-- The extents that are free once some requests are gone. -/
def releasedExtents (extents : List RetractionLockedExtent) (selected : Finset String) : List RetractionLockedExtent :=
  extents.filter fun e => e.blockerRequestIds.toFinset ⊆ selected

def reclaimCapacity (extents : List RetractionLockedExtent) (selected : Finset String) : Except Raised ℕ := do
  let items ← requireCandidates candidates selected
  .ok ((items.map (·.privateKvBytes)).sum + ((releasedExtents extents selected).map (·.sizeBytes)).sum)

def minOf {A : Type} [LinearOrder A] (values : List A) : Except Raised A :=
  match values with
  | [] => .error (.valueError "min() arg is an empty sequence")
  | a :: rest => .ok (rest.foldl min a)

def maxOf {A : Type} [LinearOrder A] (values : List A) : Except Raised A :=
  match values with
  | [] => .error (.valueError "max() arg is an empty sequence")
  | a :: rest => .ok (rest.foldl max a)

end Candidates

/-! ## The selection -/

/-- A greater key is a better package. Without the frontier the first two entries are equal. -/
abbrev PackageKey :=
  ℕ ×ₗ ℚ ×ₗ ℚ ×ₗ ℕ ×ₗ ℕ ×ₗ ℤ ×ₗ ℕ ×ₗ ℚ ×ₗ ℤ ×ₗ ℤ ×ₗ List String

/-- The requests that a package adds, its key and what is reclaimed with them. -/
structure PackageChoice where
  additions : Finset String
  key : PackageKey
  reclaim : ℕ

structure Selection where
  selected : Finset String := ∅
  currentReclaim : ℕ := 0

section Select
variable (fl : ℚ → ℚ) (config : ObservedRetractionConfig) (candidates : List RunningRetractionCandidate)
  (extents : List RetractionLockedExtent)

def frontierTier (items : List RunningRetractionCandidate) : Except Raised ℕ :=
  if config.frontierAwareEnabled then minOf (items.map frontierVictimTier) else .ok 0

def boundaryDistance (items : List RunningRetractionCandidate) : Except Raised ℚ :=
  if config.frontierAwareEnabled then minOf (items.map fun item => item.serviceToBoundaryTokens.getD 0) else .ok 0

def packageKey (marginal : ℕ) (additions : Finset String) : Except Raised PackageKey := do
  let items ← requireCandidates candidates additions
  let recomputeBytes := (items.map (·.privateKvBytes)).sum
  let causalRank ← minOf (items.map (·.causalRank))
  let unblockDepth ← maxOf (items.map (·.unblockDepth))
  let fairRank ← minOf (items.map (·.workflowFairRank))
  let staleForMs ← minOf (items.map (·.staleForMs))
  let priorRetractions ← maxOf (items.map (·.priorRetractionCount))
  let amplification := fl (marginal / (max 1 recomputeBytes : ℕ))
  let tier ← frontierTier config items
  let distance ← boundaryDistance config items
  .ok (toLex (tier,toLex (distance,toLex (amplification,toLex (marginal,toLex (causalRank,
    toLex (-(unblockDepth : ℤ),toLex (fairRank,toLex (staleForMs,toLex (-(priorRetractions : ℤ),
      toLex (-(additions.card : ℤ),Dict.sorted additions)))))))))))

/-- The packages: each candidate alone, and the blockers of each extent that are all candidates. -/
def packages : List (Finset String) :=
  (candidates.map (fun item => ({item.requestId} : Finset String)) ++
    (extents.map fun e => e.blockerRequestIds.toFinset).filter (· ⊆ idsOf candidates)).dedup

/-- What a package adds to the selection, if it adds something and there is room for it. -/
def weigh (maxVictims : ℕ) (s : Selection) (package : Finset String) : Except Raised (Option PackageChoice) := do
  let additions := package \ s.selected
  if additions = ∅ ∨ maxVictims < (s.selected ∪ additions).card then .ok none
  else
    let reclaim ← reclaimCapacity candidates extents (s.selected ∪ additions)
    if reclaim ≤ s.currentReclaim then .ok none
    else
      let key ← packageKey fl config candidates (reclaim - s.currentReclaim) additions
      .ok (some ⟨additions,key,reclaim⟩)

/-- The package with the greater key comes before the other one. -/
def PackageChoice.before (c d : PackageChoice) : Bool := d.key < c.key

/-- The best package for a selection. -/
def bestPackage (order : IterationOrder) (maxVictims : ℕ) (s : Selection) : Except Raised (Option PackageChoice) :=
  (order.order (packages candidates extents)).foldlM (fun best package => do
    let choice ← weigh fl config candidates extents maxVictims s package
    .ok (choice.elim best fun c => better PackageChoice.before c best)) none

/-- Take the best package, if there is one. -/
def extend (order : IterationOrder) (maxVictims : ℕ) (s : Selection) : Except Raised (Option Selection) := do
  let best ← bestPackage fl config candidates extents order maxVictims s
  .ok (best.map fun c => ⟨s.selected ∪ c.additions,c.reclaim⟩)

/-- Take packages until the target is reached. Each round adds a candidate, so the number of candidates
bounds the rounds. -/
def selectVictims (order : IterationOrder) (maxVictims target : ℕ) : Except Raised (Outcome Selection) :=
  rounds (target ≤ ·.currentReclaim) (extend fl config candidates extents order maxVictims) candidates.length {}

end Select

/-! ## The decision -/

section Decide
variable (fl : ℚ → ℚ) (order : IterationOrder) (config : ObservedRetractionConfig)
  (snapshot : ObservedRetractionSnapshot)

def replacementDeficit : ℕ :=
  ((orderedReplacements config snapshot.replacements).head?.elim 0 (·.estimatedIncrementalBytes)) -
    snapshot.nativeReclaimCapacityBytes

def activeExcess : ℕ := snapshot.activeKvFootprintBytes - snapshot.activeKvBudgetBytes

def reclaimTarget : ℕ :=
  max config.minimumReclaimBytes (max (replacementDeficit config snapshot) (activeExcess snapshot))

/-- The order of the victims in the plan. -/
def victimKey (item : RunningRetractionCandidate) : ℤ ×ₗ ℤ ×ₗ ℤ ×ₗ ℚ ×ₗ String :=
  toLex (if config.frontierAwareEnabled then -(frontierVictimTier item : ℤ) else 0,
    toLex (-(item.causalRank : ℤ),toLex (-(item.workflowFairRank : ℤ),toLex (-item.staleForMs,item.requestId))))

/-- Requests are taken in turn, up to the first that does not fit. -/
def fitting : ℕ → List RetractionReplacement → List RetractionReplacement
  | _, [] => []
  | remaining, r :: rest =>
    if remaining < r.estimatedIncrementalBytes then []
    else r :: fitting (remaining - r.estimatedIncrementalBytes) rest

def refuse (reason : String) : Except Raised ObservedRetractionDecision :=
  ObservedRetractionDecision.checked
    { plan := none, reason := reason, candidateCount := snapshot.candidates.length }

def planFor (s : Selection) : Except Raised RunningRetractionPlan := do
  let items ← requireCandidates (eligible config snapshot) s.selected
  RunningRetractionPlan.checked {
    requestIds := (items.insertionSort fun a b => victimKey config a ≤ victimKey config b).map (·.requestId)
    replacementRequestIds := (fitting (snapshot.nativeReclaimCapacityBytes + s.currentReclaim)
      (orderedReplacements config snapshot.replacements)).map (·.requestId)
    targetReclaimBytes := reclaimTarget config snapshot
    expectedPrivateReclaimBytes := (items.map (·.privateKvBytes)).sum
    expectedLockReleaseBytes :=
      ((releasedExtents (fullyAttributedExtents snapshot) s.selected).map (·.sizeBytes)).sum
    expectedReclaimCapacityBytes := s.currentReclaim
    nativeReclaimCapacityBefore := snapshot.nativeReclaimCapacityBytes
    engineLockedBytesBefore := (snapshot.lockedExtents.map (·.sizeBytes)).sum
    pageRevision := snapshot.pageRevision
    topologyRevision := snapshot.topologyRevision
    observedTsMs := snapshot.observedTsMs
    reason := if config.frontierAwareEnabled then "frontier_aware_lock_closure_reclaim"
      else "observed_lock_closure_reclaim" }

/-- What is decided once the selection has come to an end. -/
def conclude : Outcome Selection → Except Raised ObservedRetractionDecision
  | .reached s => do
    let plan ← planFor config snapshot s
    ObservedRetractionDecision.checked {
      plan := some plan
      reason := "plan_created"
      targetReclaimBytes := reclaimTarget config snapshot
      candidateCount := snapshot.candidates.length
      eligibleCandidateCount := (eligible config snapshot).length
      fullyAttributedExtentCount := (fullyAttributedExtents snapshot).length
      reclaimCapacityBytes := s.currentReclaim }
  | .stuck _ => do
    let optimistic ← reclaimCapacity (eligible config snapshot) (fullyAttributedExtents snapshot)
      (idsOf (eligible config snapshot))
    ObservedRetractionDecision.checked {
      plan := none
      reason := if optimistic < reclaimTarget config snapshot then "insufficient_unlock_capacity"
        else "selection_search_exhausted"
      targetReclaimBytes := reclaimTarget config snapshot
      candidateCount := snapshot.candidates.length
      eligibleCandidateCount := (eligible config snapshot).length
      fullyAttributedExtentCount := (fullyAttributedExtents snapshot).length
      reclaimCapacityBytes := optimistic }
  -- the loop of the source has no bound
  | .unfinished => .error (.runtimeError "the selection goes on")

def decide : Except Raised ObservedRetractionDecision :=
  if snapshot.admissionStallMs < config.minimumAdmissionStallMs then
    refuse snapshot "admission_stall_below_threshold"
  else if snapshot.replacements = [] then refuse snapshot "replacement_absent"
  else if snapshot.runningRequestCount ≤ snapshot.minimumActiveRequests then refuse snapshot "active_floor"
  else if replacementDeficit config snapshot = 0 ∧ activeExcess snapshot = 0 then
    refuse snapshot "pressure_absent"
  else if eligible config snapshot = [] ∨ snapshot.runningRequestCount - snapshot.minimumActiveRequests = 0 then
    ObservedRetractionDecision.checked {
      plan := none
      reason := "no_eligible_stale_candidate"
      targetReclaimBytes := reclaimTarget config snapshot
      candidateCount := snapshot.candidates.length
      eligibleCandidateCount := (eligible config snapshot).length }
  else do
    let outcome ← selectVictims fl config (eligible config snapshot) (fullyAttributedExtents snapshot) order
      (snapshot.runningRequestCount - snapshot.minimumActiveRequests) (reclaimTarget config snapshot)
    conclude config snapshot outcome

end Decide

end BeliefKV.Retraction
