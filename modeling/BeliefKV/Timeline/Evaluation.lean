import BeliefKV.Lib.Dict
import BeliefKV.Lib.Rounding
import BeliefKV.Protocol

/-! The predicted timeline of a candidate plan. Times are rationals that are rounded after each operation. The fitted
service model is a parameter; the cache in front of it returns what it returns. -/
namespace BeliefKV.CandidateTimeline

/-! ## Demand -/

inductive DependencyMode
  | none
  | external
  | joinAll
  | joinAny
  | producer
  deriving DecidableEq

def DependencyMode.value : DependencyMode → String
  | .none => "none"
  | .external => "external"
  | .joinAll => "join_all"
  | .joinAny => "join_any"
  | .producer => "producer"

inductive DemandPhase
  | prefill
  | decode
  | external
  deriving DecidableEq

def DemandPhase.value : DemandPhase → String
  | .prefill => "prefill"
  | .decode => "decode"
  | .external => "external"

/-- What a scenario says of an invocation. The delays are those of its external segments. -/
structure FrontierDemandOutcome where
  invocationId : String
  dependencyMode : DependencyMode
  residualDelaysMs : List ℚ
  dependencyInvocationIds : List String
  joinId : Option String
  named : invocationId ≠ ""
  delays_nonneg : ∀ d ∈ residualDelaysMs, 0 ≤ d
  dependencies_sorted : dependencyInvocationIds.Pairwise (· < ·)
  dependencies_peers : ∀ d ∈ dependencyInvocationIds, d ≠ "" ∧ d ≠ invocationId
  members : dependencyMode = .joinAll ∨ dependencyMode = .joinAny ∨ dependencyMode = .producer →
    dependencyInvocationIds ≠ []
  delayed : dependencyMode = .external → residualDelaysMs ≠ []

structure DemandScenario where
  scenarioId : String
  outcomes : List FrontierDemandOutcome
  assigned : outcomes ≠ []
  outcomes_unique : (outcomes.map (·.invocationId)).Nodup

/-! ## Plan -/

structure PhysicalizedInvocationDemand where
  invocationId : String
  uncachedPrefillTokens : ℕ
  remainingDecodeTokens : ℕ
  named : invocationId ≠ ""

structure ScheduledRequestQuantum where
  invocationId : String
  tokenDelta : ℕ
  sequenceTokensBefore : ℕ
  cacheHitRatio : ℚ := 0
  named : invocationId ≠ ""

structure ScheduledBatchQuantum where
  batchId : String
  phase : DemandPhase
  requests : List ScheduledRequestQuantum
  chunkPosition : String := "unknown"
  prefillDecodeMixed : Bool := false
  pcieContentionState : String := "idle"
  hicacheInflightBytes : ℕ := 0
  earliestStartOffsetMs : ℚ := 0
  readyAfterTransferIds : List String := []
  named : batchId ≠ ""
  composed : requests ≠ []
  requests_unique : (requests.map (·.invocationId)).Nodup
  submitted : phase ≠ .external
  start_nonneg : 0 ≤ earliestStartOffsetMs

structure ScheduledTransfer where
  transferId : String
  startOffsetMs : ℚ
  completionOffsetMs : ℚ
  pcieBusyMs : ℚ
  hbmDeltaBytesOnCompletion : ℤ := 0
  readyAfterInvocationIds : List String := []
  readyAfterDependencyReleaseIds : List String := []
  named : transferId ≠ ""
  start_nonneg : 0 ≤ startOffsetMs
  busy_nonneg : 0 ≤ pcieBusyMs
  start_le : startOffsetMs ≤ completionOffsetMs

namespace ScheduledTransfer
variable (x : ScheduledTransfer)

def durationMs (fl : ℚ → ℚ) : ℚ := fl (x.completionOffsetMs - x.startOffsetMs)

/-- The transfer waits for nothing. -/
def Independent : Prop := x.readyAfterInvocationIds = [] ∧ x.readyAfterDependencyReleaseIds = []

instance : Decidable x.Independent := inferInstanceAs (Decidable (_ ∧ _))

end ScheduledTransfer

/-- A plan with its ledger of the HBM; without one the capacity is zero. -/
structure CandidatePhysicalPlan where
  packageId : String
  physicalSnapshotId : String
  invocationDemands : List PhysicalizedInvocationDemand
  batches : List ScheduledBatchQuantum
  transfers : List ScheduledTransfer
  hbmCapacityBytes : ℕ := 0
  initialHbmUsedBytes : ℕ := 0
  initialHbmReservedBytes : ℕ := 0
  modeledGrowthReservationBytes : ℕ := 0
  kvBytesPerToken : ℕ := 0
  residualHbmTimeByteMs : ℚ := 0
  deterministicFeasible : Bool := true
  livenessPathProven : Bool := true
  demands_unique : (invocationDemands.map (·.invocationId)).Nodup
  batches_unique : (batches.map (·.batchId)).Nodup
  transfers_unique : (transfers.map (·.transferId)).Nodup
  ledger : hbmCapacityBytes = 0 ↔ kvBytesPerToken = 0
  committed_le : hbmCapacityBytes ≠ 0 → initialHbmUsedBytes + initialHbmReservedBytes ≤ hbmCapacityBytes
  growth_le : modeledGrowthReservationBytes ≤ initialHbmReservedBytes
  transfers_known : ∀ b ∈ batches, ∀ id ∈ b.readyAfterTransferIds, id ∈ transfers.map (·.transferId)

namespace CandidatePhysicalPlan
variable (plan : CandidatePhysicalPlan)

def physical? (id : String) : Option PhysicalizedInvocationDemand :=
  plan.invocationDemands.find? (·.invocationId = id)

def transfer? (id : String) : Option ScheduledTransfer := plan.transfers.find? (·.transferId = id)

def batch? (id : String) : Option ScheduledBatchQuantum := plan.batches.find? (·.batchId = id)

end CandidatePhysicalPlan

/-! ## Service -/

structure GPURequestServiceDemand where
  sequenceTokens : ℕ
  tokenDelta : ℕ
  cacheHitRatio : ℚ

structure GPUServiceFeatures where
  phase : String
  requestDemands : List GPURequestServiceDemand
  chunkPosition : String
  prefillDecodeMixed : Bool
  pcieContentionState : String
  hicacheInflightBytes : ℕ

/-- The time of a batch at the quantile of the evaluator. -/
structure GPUServiceEstimate where
  elapsedMs : ℚ
  source : String
  nonneg : 0 ≤ elapsedMs

/-- The estimate for some features; none if there is no support. -/
abbrev GPUServiceModel := GPUServiceFeatures → Option GPUServiceEstimate

/-! ## The timeline under way -/

structure Completion where
  offsetMs : ℚ
  source : String

inductive HbmSource
  | transfer (id : String)
  | batch (id : String)

structure HbmEvent where
  offsetMs : ℚ
  deltaBytes : ℤ
  source : HbmSource

structure TimedServiceQuantum where
  batchId : String
  startOffsetMs : ℚ
  completionOffsetMs : ℚ
  serviceSource : String

/-- The variables of an evaluation. An invocation without an entry is unresolved. -/
structure Timeline where
  completion : Dict String Completion := ∅
  dependencyRelease : Dict String ℚ := ∅
  consumedPrefill : Dict String ℕ := ∅
  consumedDecode : Dict String ℕ := ∅
  nowMs : ℚ := 0
  serviceQuanta : List TimedServiceQuantum := []
  failures : List String := []
  transferCompletion : Dict String ℚ := ∅
  pcieCursorMs : ℚ := 0
  hbmEvents : List HbmEvent := []

namespace Timeline
variable (t : Timeline)

def completionOf (id : String) : Option ℚ := t.completion[id]?.map (·.offsetMs)

def complete (id : String) (offsetMs : ℚ) (source : String) : Timeline :=
  { t with completion := t.completion.insert id ⟨offsetMs,source⟩ }

def release (id : String) (offsetMs : ℚ) : Timeline :=
  { t with dependencyRelease := t.dependencyRelease.insert id offsetMs }

def fail (texts : List String) : Timeline := { t with failures := t.failures ++ texts }

end Timeline

section Evaluate
variable (fl : ℚ → ℚ) (model : GPUServiceModel) (scenario : DemandScenario) (plan : CandidatePhysicalPlan)

/-! ## Dependencies -/

/-- External segments are known from the start. -/
def startOutcome (t : Timeline) (o : FrontierDemandOutcome) : Timeline :=
  if o.residualDelaysMs ≠ [] ∧ o.dependencyMode = .external then
    let t := t.release o.invocationId (roundedSum fl o.residualDelaysMs)
    if (plan.physical? o.invocationId).isNone then
      t.complete o.invocationId (roundedSum fl o.residualDelaysMs) "external_segment"
    else t
  else t

/-- The release of an outcome, from the completions that are known. -/
def resolved (t : Timeline) (o : FrontierDemandOutcome) : Option ℚ :=
  let values := o.dependencyInvocationIds.filterMap t.completionOf
  match o.dependencyMode with
  | .joinAll => if values.length = o.dependencyInvocationIds.length then values.max? else none
  | .joinAny => values.min?
  | .producer => values.min?
  | .none => none
  | .external => none

def resolveOutcome (t : Timeline) (o : FrontierDemandOutcome) : Timeline :=
  if o.invocationId ∈ t.dependencyRelease then t
  else
    match resolved t o with
    | none => t
    | some offset => t.release o.invocationId offset

/-- One pass over the outcomes. A second one changes nothing, as the completions stay as they are. -/
def resolveDependencyReleases (t : Timeline) : Timeline := scenario.outcomes.foldl resolveOutcome t

def modeOf (id : String) : Option DependencyMode :=
  (scenario.outcomes.find? (·.invocationId = id)).map (·.dependencyMode)

/-- An invocation without tokens to process completes with its release. -/
def completeZero (t : Timeline) (d : PhysicalizedInvocationDemand) : Timeline :=
  if d.uncachedPrefillTokens ≠ 0 ∨ d.remainingDecodeTokens ≠ 0 then t
  else if modeOf scenario d.invocationId ≠ some .none ∧ d.invocationId ∉ t.dependencyRelease then t
  else t.complete d.invocationId (max 0 (t.dependencyRelease[d.invocationId]?.getD 0)) "zero_physical_demand"

def completeZeroDemand (t : Timeline) : Timeline := plan.invocationDemands.foldl (completeZero scenario) t

def settleRound (t : Timeline) : Timeline :=
  completeZeroDemand scenario plan (resolveDependencyReleases scenario t)

/-- The rounds until nothing changes. Later rounds change nothing either. -/
def settleDependencyReleases (t : Timeline) : Timeline :=
  (settleRound scenario plan)^[scenario.outcomes.length + 2] t

/-! ## Transfers -/

/-- The times that a transfer waits for, if all of them are known. -/
def Timeline.waits (t : Timeline) (x : ScheduledTransfer) : Option (List ℚ) := do
  let completions ← x.readyAfterInvocationIds.mapM t.completionOf
  let releases ← x.readyAfterDependencyReleaseIds.mapM fun id => t.dependencyRelease[id]?
  some (completions ++ releases)

/-- The transfers have the link one after another. -/
def Timeline.transferStart (t : Timeline) (x : ScheduledTransfer) (waits : List ℚ) : ℚ :=
  waits.foldl max (max t.pcieCursorMs x.startOffsetMs)

def Timeline.transferred (t : Timeline) (x : ScheduledTransfer) (waits : List ℚ) : Timeline :=
  let completionMs := fl (t.transferStart x waits + x.durationMs fl)
  { t with
    transferCompletion := t.transferCompletion.insert x.transferId completionMs
    pcieCursorMs := completionMs
    hbmEvents := if x.hbmDeltaBytesOnCompletion ≠ 0
      then t.hbmEvents ++ [⟨completionMs,x.hbmDeltaBytesOnCompletion,.transfer x.transferId⟩]
      else t.hbmEvents }

/-- The transfer is scheduled, unless it was before or something that it waits for is unknown. It succeeds if
the transfer has a completion then. -/
def scheduleTransfer (t : Timeline) (id : String) : Timeline :=
  if id ∈ t.transferCompletion then t
  else
    match plan.transfer? id with
    | none => t
    | some x =>
      match t.waits x with
      | none => t
      | some waits => t.transferred fl x waits

/-! ## Batches -/

/-- The request waits for no dependency, or its dependency has been released. -/
def Timeline.Released (t : Timeline) (id : String) : Prop :=
  modeOf scenario id = some .none ∨ id ∈ t.dependencyRelease

instance (t : Timeline) (id : String) : Decidable (t.Released scenario id) :=
  inferInstanceAs (Decidable (_ ∨ _))

/-- The releases that the requests of a batch wait for. -/
def releaseOffsets (t : Timeline) (b : ScheduledBatchQuantum) : List ℚ :=
  (b.requests.filter fun r => modeOf scenario r.invocationId ≠ some .none).filterMap fun r =>
    t.dependencyRelease[r.invocationId]?

def batchFeatures (b : ScheduledBatchQuantum) : GPUServiceFeatures where
  phase := b.phase.value
  requestDemands := b.requests.map fun r => ⟨r.sequenceTokensBefore,r.tokenDelta,r.cacheHitRatio⟩
  chunkPosition := b.chunkPosition
  prefillDecodeMixed := b.prefillDecodeMixed
  pcieContentionState := b.pcieContentionState
  hicacheInflightBytes := b.hicacheInflightBytes

def batchGrowthBytes (b : ScheduledBatchQuantum) : ℤ :=
  ((b.requests.map (·.tokenDelta)).sum * plan.kvBytesPerToken : ℕ)

/-- The start of a batch whose requests are released and whose transfers are scheduled. -/
def Timeline.batchStart (t : Timeline) (b : ScheduledBatchQuantum) : ℚ :=
  (releaseOffsets scenario t b ++ b.readyAfterTransferIds.filterMap fun id => t.transferCompletion[id]?).foldl
    max (max t.nowMs b.earliestStartOffsetMs)

def Timeline.executed (t : Timeline) (b : ScheduledBatchQuantum) (estimate : GPUServiceEstimate) : Timeline :=
  let startedMs := t.batchStart scenario b
  let nowMs := fl (startedMs + estimate.elapsedMs)
  { t with
    nowMs := nowMs
    serviceQuanta := t.serviceQuanta ++ [⟨b.batchId,startedMs,nowMs,estimate.source⟩]
    hbmEvents := if plan.kvBytesPerToken ≠ 0
      then t.hbmEvents ++ [⟨nowMs,batchGrowthBytes plan b,.batch b.batchId⟩]
      else t.hbmEvents }

/-- The tokens of a request in an executed batch. -/
def Timeline.consume (t : Timeline) (phase : DemandPhase) (r : ScheduledRequestQuantum) : Timeline :=
  let prefill := t.consumedPrefill.getD r.invocationId 0 + r.tokenDelta
  let decode := t.consumedDecode.getD r.invocationId 0 + r.tokenDelta
  if phase = .prefill then { t with consumedPrefill := t.consumedPrefill.insert r.invocationId prefill }
  else { t with consumedDecode := t.consumedDecode.insert r.invocationId decode }

/-- The demand of an invocation is met. -/
def Timeline.Met (t : Timeline) (d : PhysicalizedInvocationDemand) : Prop :=
  d.uncachedPrefillTokens ≤ t.consumedPrefill.getD d.invocationId 0 ∧
    d.remainingDecodeTokens ≤ t.consumedDecode.getD d.invocationId 0

instance (t : Timeline) (d : PhysicalizedInvocationDemand) : Decidable (t.Met d) :=
  inferInstanceAs (Decidable (_ ∧ _))

def serveRequest (phase : DemandPhase) (t : Timeline) (r : ScheduledRequestQuantum) : Timeline :=
  match plan.physical? r.invocationId with
  | none => t.fail ["missing_physicalized_demand:" ++ r.invocationId]
  | some target =>
    let t := t.consume phase r
    if t.Met target then t.complete r.invocationId t.nowMs "candidate_gpu_schedule" else t

/-- A batch is executed if nothing that it waits for is missing. -/
def executeBatch (t : Timeline) (b : ScheduledBatchQuantum) : Except Raised Timeline :=
  let unreleased := b.requests.filter fun r => ¬ t.Released scenario r.invocationId
  let t := t.fail (unreleased.map fun r =>
    "dependency_not_released_before_batch:" ++ b.batchId ++ ":" ++ r.invocationId)
  let t := b.readyAfterTransferIds.foldl (scheduleTransfer fl plan) t
  let missing := b.readyAfterTransferIds.filter (· ∉ t.transferCompletion)
  if missing ≠ [] then
    .ok (t.fail (missing.map fun id => "missing_transfer_dependency:" ++ b.batchId ++ ":" ++ id))
  else if unreleased ≠ [] then .ok t
  else do
    ensure (b.chunkPosition ≠ "" ∧ b.pcieContentionState ≠ "")
      (.valueError "chunk and contention state must be explicit")
    match model (batchFeatures b) with
    | none => .ok (t.fail ["service_model_unavailable:" ++ b.batchId])
    | some estimate => .ok (b.requests.foldl (serveRequest plan b.phase) (t.executed fl scenario plan b estimate))

def runBatch (t : Timeline) (b : ScheduledBatchQuantum) : Except Raised Timeline := do
  let t := settleDependencyReleases scenario plan t
  ensure (∀ r ∈ b.requests, (modeOf scenario r.invocationId).isSome)
    (.valueError ("batch " ++ b.batchId ++ " references an unknown invocation"))
  executeBatch fl model scenario plan t b

/-! ## The result -/

/-- An invocation that uses no GPU completes with its release. -/
def finishOutcome (t : Timeline) (o : FrontierDemandOutcome) : Timeline :=
  if (plan.physical? o.invocationId).isSome ∨ o.invocationId ∈ t.completion then t
  else
    match t.dependencyRelease[o.invocationId]? with
    | none => t
    | some offset =>
      if o.dependencyMode = .none then t
      else t.complete o.invocationId offset ("dependency:" ++ o.dependencyMode.value)

def completeReleasedNonphysical (t : Timeline) : Timeline :=
  scenario.outcomes.foldl (finishOutcome plan) t

/-- Transfers come before the batches of the same time. -/
def eventKey (e : HbmEvent) : ℚ ×ₗ ℕ :=
  toLex (e.offsetMs,match e.source with
    | .transfer _ => 0
    | .batch _ => 1)

def sortedEvents (events : List HbmEvent) : List HbmEvent :=
  events.mergeSort fun a b => eventKey a ≤ eventKey b

/-- The ledger of the HBM while the events are gone through. -/
structure HbmLedger where
  cumulativeGrowth : ℤ := 0
  transferGrowth : ℤ := 0
  peakBytes : ℤ
  firstPressureOffsetMs : Option ℚ := none
  firstPressureDeficitBytes : ℤ := 0

def HbmLedger.current (l : HbmLedger) : ℤ :=
  (plan.initialHbmUsedBytes + plan.initialHbmReservedBytes : ℕ) + l.transferGrowth +
    max 0 (l.cumulativeGrowth - plan.modeledGrowthReservationBytes)

def HbmLedger.count (l : HbmLedger) (e : HbmEvent) : HbmLedger :=
  match e.source with
  | .batch _ => { l with cumulativeGrowth := l.cumulativeGrowth + e.deltaBytes }
  | .transfer _ => { l with transferGrowth := l.transferGrowth + e.deltaBytes }

def HbmLedger.add (l : HbmLedger) (e : HbmEvent) : HbmLedger :=
  let l := l.count e
  let current := l.current plan
  let l := { l with peakBytes := max l.peakBytes current }
  if plan.hbmCapacityBytes < current ∧ l.firstPressureOffsetMs = none then
    { l with
      firstPressureOffsetMs := some e.offsetMs
      firstPressureDeficitBytes := current - plan.hbmCapacityBytes }
  else l

/-- Without a ledger nothing is counted. -/
def futureHbmPeak (events : List HbmEvent) : HbmLedger :=
  if plan.hbmCapacityBytes = 0 then { peakBytes := 0 }
  else (sortedEvents events).foldl (HbmLedger.add plan)
    { peakBytes := (plan.initialHbmUsedBytes + plan.initialHbmReservedBytes : ℕ) }

def overflowBytes (peak : ℤ) : ℤ :=
  if plan.hbmCapacityBytes = 0 then 0 else max 0 (peak - plan.hbmCapacityBytes)

structure TimedInvocationOutcome where
  invocationId : String
  completionOffsetMs : Option ℚ
  completionSource : String

structure TimedScenario where
  scenarioId : String
  packageId : String
  physicalSnapshotId : String
  invocationOutcomes : List TimedInvocationOutcome
  joinReentryOffsetsMs : Dict String ℚ
  serviceQuanta : List TimedServiceQuantum
  transferCompletionOffsetsMs : Dict String ℚ
  dependencyReleaseOffsetsMs : Dict String ℚ
  residualHbmTimeByteMs : ℚ
  pcieBusyMs : ℚ
  futureHbmPeakBytes : ℤ
  futureHbmOverflowBytes : ℤ
  firstHbmPressureOffsetMs : Option ℚ
  firstHbmPressureDeficitBytes : ℤ
  futureHbmFeasible : Bool
  deterministicFeasible : Bool
  futureFeasible : Bool
  livenessPathProven : Bool
  failureReasons : List String

def unresolvedRequired (t : Timeline) : List String :=
  ((scenario.outcomes.filter fun o => o.invocationId ∉ t.completion ∧
    (o.dependencyMode ≠ .none ∨ (plan.physical? o.invocationId).isSome)).map (·.invocationId)).mergeSort

/-- The releases of the joins. A later outcome with the same join replaces an earlier one. -/
def joinOffsets (t : Timeline) : Dict String ℚ :=
  scenario.outcomes.foldl (fun d o =>
    match o.joinId, t.dependencyRelease[o.invocationId]? with
    | some join, some offset => if join = "" then d else d.insert join offset
    | _, _ => d) ∅

def allFailures (t : Timeline) : List String :=
  let overflow := overflowBytes plan (futureHbmPeak plan t.hbmEvents).peakBytes
  t.failures ++ (unresolvedRequired scenario plan t).map ("unresolved:" ++ ·) ++
    if overflow ≠ 0 then ["future_hbm_overflow:" ++ toString overflow] else []

def report (t : Timeline) : TimedScenario :=
  let peak := futureHbmPeak plan t.hbmEvents
  { scenarioId := scenario.scenarioId
    packageId := plan.packageId
    physicalSnapshotId := plan.physicalSnapshotId
    invocationOutcomes := ((scenario.outcomes.map (·.invocationId)).mergeSort).map fun id =>
      ⟨id,t.completionOf id,(t.completion[id]?.map (·.source)).getD "unresolved"⟩
    joinReentryOffsetsMs := joinOffsets scenario t
    serviceQuanta := t.serviceQuanta
    transferCompletionOffsetsMs := t.transferCompletion
    dependencyReleaseOffsetsMs := t.dependencyRelease
    residualHbmTimeByteMs := plan.residualHbmTimeByteMs
    pcieBusyMs := roundedSum fl (plan.transfers.map (·.pcieBusyMs))
    futureHbmPeakBytes := peak.peakBytes
    futureHbmOverflowBytes := overflowBytes plan peak.peakBytes
    firstHbmPressureOffsetMs := peak.firstPressureOffsetMs
    firstHbmPressureDeficitBytes := peak.firstPressureDeficitBytes
    futureHbmFeasible := overflowBytes plan peak.peakBytes = 0
    deterministicFeasible := plan.deterministicFeasible
    futureFeasible := (allFailures scenario plan t).isEmpty
    livenessPathProven := plan.livenessPathProven
    failureReasons := Dict.sorted (allFailures scenario plan t).toFinset }

def startTimeline : Timeline :=
  (plan.transfers.filter (·.Independent)).foldl (fun t x => scheduleTransfer fl plan t x.transferId)
    (settleDependencyReleases scenario plan (scenario.outcomes.foldl (startOutcome fl plan) {}))

/-- The timeline after the last batch. -/
def finalTimeline : Except Raised Timeline := do
  let unknown := (plan.invocationDemands.map (·.invocationId)).filter fun id =>
    (modeOf scenario id).isNone
  ensure (unknown = [])
    (.valueError ("physical plan references invocations outside demand scenario: [" ++
      String.intercalate ", " ((Dict.sorted unknown.toFinset).map fun id => "'" ++ id ++ "'") ++ "]"))
  let t ← plan.batches.foldlM (runBatch fl model scenario plan) (startTimeline fl scenario plan)
  .ok (completeReleasedNonphysical scenario plan (settleDependencyReleases scenario plan t))

def evaluate : Except Raised TimedScenario := do
  let t ← finalTimeline fl model scenario plan
  .ok (report fl scenario plan t)

end Evaluate
end BeliefKV.CandidateTimeline
