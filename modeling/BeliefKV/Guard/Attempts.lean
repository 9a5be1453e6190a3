import BeliefKV.Controller.Commands
import BeliefKV.Lib.Keyed

/-! The guard against repeated transfers. It keeps a rejected transfer back until the state that rejected it has changed.
The fingerprints of the closures come in with the keys. -/
namespace BeliefKV
namespace RetryGuard

structure TransferAttemptKey where
  contextId : String
  contextEpoch : ℤ
  commandKind : CommandKind
  bundleId : String
  closureFingerprint : String
  deriving DecidableEq

structure AttemptSnapshot where
  key : TransferAttemptKey
  targetBytes : ℕ
  deviceAvailableBytes : ℕ
  hostAvailableBytes : ℕ

structure BlockedTransferAttempt where
  key : TransferAttemptKey
  blockerCodes : List TransferBlockerCode
  requiredBytes : ℕ
  failedDeviceAvailableBytes : ℕ
  failedHostAvailableBytes : ℕ
  failedTsMs : ℚ
  lastCommandId : String
  identicalFailureCount : ℕ := 1
  nextRetryTsMs : Option ℚ := none
  suppressedCount : ℕ := 0
  suppressionReported : Bool := false
  capacitySnapshotPending : Bool := false

inductive GuardEventKind
  | capacityAnchored
  | suppressed (suppressedCount : ℕ)
  | blocked
  | rekeyed (previousClosureFingerprint : String)
  | released (releaseReason : String) (suppressedCount : ℕ)

def GuardEventKind.value : GuardEventKind → String
  | .capacityAnchored => "transfer_retry_capacity_anchored"
  | .suppressed _ => "transfer_retry_suppressed"
  | .blocked => "transfer_attempt_blocked"
  | .rekeyed _ => "transfer_retry_rekeyed"
  | .released _ _ => "transfer_retry_released"

structure TransferGuardEvent where
  kind : GuardEventKind
  tsMs : ℚ
  attempt : BlockedTransferAttempt

theorem defaultBase_pos : (0 : ℚ) < 10 := by norm_num

theorem defaultBase_le : (10 : ℚ) ≤ 1000 := by norm_num

structure GuardConfig where
  enabled : Bool := true
  maxSameSnapshotAttempts : ℕ := 1
  unknownBaseMs : ℚ := 10
  unknownMaxMs : ℚ := 1000
  unknownCircuitBreakerFailures : ℕ := 8
  attempts_pos : 0 < maxSameSnapshotAttempts := by exact Nat.one_pos
  base_pos : 0 < unknownBaseMs := by exact defaultBase_pos
  base_le : unknownBaseMs ≤ unknownMaxMs := by exact defaultBase_le
  breaker_pos : 0 < unknownCircuitBreakerFailures := by decide

/-- The events of the whole run are kept, also those that have been given out. -/
structure TransferAttemptGuard where
  deviceAvailableBytes : ℕ := 0
  hostAvailableBytes : ℕ := 0
  inflight : Dict String AttemptSnapshot := ∅
  blocked : List BlockedTransferAttempt := []
  unknownFailureCounts : TransferAttemptKey → ℕ := fun _ => 0
  generations : TransferAttemptKey → ℕ := fun _ => 0
  events : List TransferGuardEvent := []
  blockedCount : ℕ := 0
  suppressedCount : ℕ := 0
  releasedCount : ℕ := 0

def SameIdentity (left right : TransferAttemptKey) : Prop :=
  left.contextId = right.contextId ∧ left.contextEpoch = right.contextEpoch ∧ left.commandKind = right.commandKind ∧
    left.bundleId = right.bundleId

instance (left right : TransferAttemptKey) : Decidable (SameIdentity left right) :=
  inferInstanceAs (Decidable (_ ∧ _))

def isCapacity : TransferBlockerCode → Bool
  | .deviceCapacity | .hostCapacity => true
  | _ => false

/-- The room that a blocked attempt is measured by, once an allocator has reported it. -/
def BlockedTransferAttempt.anchor (deviceAvailableBytes hostAvailableBytes : ℕ) (attempt : BlockedTransferAttempt) :
    BlockedTransferAttempt :=
  if attempt.capacitySnapshotPending then
    { attempt with
      failedDeviceAvailableBytes := deviceAvailableBytes
      failedHostAvailableBytes := hostAvailableBytes
      capacitySnapshotPending := false }
  else attempt

def BlockedTransferAttempt.suppress (attempt : BlockedTransferAttempt) : BlockedTransferAttempt :=
  { attempt with suppressedCount := attempt.suppressedCount + 1, suppressionReported := true }

namespace TransferAttemptGuard
variable (guard : TransferAttemptGuard)

def lookup (key : TransferAttemptKey) : Option BlockedTransferAttempt :=
  Keyed.lookup BlockedTransferAttempt.key key guard.blocked

def updateResources (deviceAvailableBytes hostAvailableBytes : ℕ) (nowMs : ℚ) : TransferAttemptGuard :=
  { guard with
    deviceAvailableBytes := deviceAvailableBytes
    hostAvailableBytes := hostAvailableBytes
    blocked := guard.blocked.map (BlockedTransferAttempt.anchor deviceAvailableBytes hostAvailableBytes)
    events := guard.events ++ (guard.blocked.filter BlockedTransferAttempt.capacitySnapshotPending).map fun attempt =>
      ⟨.capacityAnchored,nowMs,attempt.anchor deviceAvailableBytes hostAvailableBytes⟩ }

def capacityPredicateSatisfied (code : TransferBlockerCode) (attempt : BlockedTransferAttempt) : Bool :=
  if attempt.capacitySnapshotPending then false
  else
    match code with
    | .deviceCapacity => attempt.failedDeviceAvailableBytes < guard.deviceAvailableBytes &&
        attempt.requiredBytes ≤ guard.deviceAvailableBytes
    | .hostCapacity => attempt.failedHostAvailableBytes < guard.hostAvailableBytes &&
        attempt.requiredBytes ≤ guard.hostAvailableBytes
    | _ => false

/-- Every other blocker is in the fingerprint, so that it lasts as long as the key. -/
def predicateSatisfied (attempt : BlockedTransferAttempt) (nowMs : ℚ) (code : TransferBlockerCode) : Bool :=
  if isCapacity code then guard.capacityPredicateSatisfied code attempt
  else if code = .unknownBackend then
    match attempt.nextRetryTsMs with
    | none => false
    | some retry => retry ≤ nowMs
  else false

def resourcePredicatesSatisfied (attempt : BlockedTransferAttempt) (nowMs : ℚ) : Bool :=
  !attempt.blockerCodes.isEmpty && attempt.blockerCodes.all (guard.predicateSatisfied attempt nowMs)

def release (attempt : BlockedTransferAttempt) (nowMs : ℚ) (reason : String) : TransferAttemptGuard :=
  if guard.lookup attempt.key = none then guard
  else
    { guard with
      blocked := Keyed.pop BlockedTransferAttempt.key attempt.key guard.blocked
      generations := Function.update guard.generations attempt.key (guard.generations attempt.key + 1)
      releasedCount := guard.releasedCount + 1
      events := guard.events ++ [⟨.released reason attempt.suppressedCount,nowMs,attempt⟩] }

/-- An attempt whose closure has changed is let go, unless it still waits for room; then it goes on under the new key. -/
def releaseChanged (current : TransferAttemptKey) (nowMs : ℚ) (attempt : BlockedTransferAttempt) : TransferAttemptGuard :=
  if SameIdentity attempt.key current ∧ attempt.key ≠ current then
    let remaining := attempt.blockerCodes.filter fun code =>
      isCapacity code && !guard.capacityPredicateSatisfied code attempt
    if remaining ≠ [] then
      let moved := { attempt with key := current, blockerCodes := remaining, suppressionReported := false }
      { guard with
        blocked := Keyed.store BlockedTransferAttempt.key moved
          (Keyed.pop BlockedTransferAttempt.key attempt.key guard.blocked)
        events := guard.events ++ [⟨.rekeyed attempt.key.closureFingerprint,nowMs,moved⟩] }
    else guard.release attempt nowMs "physical_fingerprint_changed"
  else guard

def releaseChangedSnapshots (current : TransferAttemptKey) (nowMs : ℚ) : TransferAttemptGuard :=
  let visited := guard.blocked.foldl (fun guard attempt => guard.releaseChanged current nowMs attempt) guard
  { visited with unknownFailureCounts := fun key =>
      if SameIdentity key current ∧ key ≠ current then 0 else visited.unknownFailureCounts key }

variable (config : GuardConfig)

def keyIsEligible (key : TransferAttemptKey) (nowMs : ℚ) : TransferAttemptGuard × Bool :=
  let guard := guard.releaseChangedSnapshots key nowMs
  match guard.lookup key with
  | none => (guard,true)
  | some attempt =>
    if attempt.identicalFailureCount < config.maxSameSnapshotAttempts then (guard,true)
    else if guard.resourcePredicatesSatisfied attempt nowMs then
      (guard.release attempt nowMs "resource_predicate_satisfied",true)
    else
      ({ guard with
        blocked := Keyed.store BlockedTransferAttempt.key attempt.suppress guard.blocked
        suppressedCount := guard.suppressedCount + 1
        events := if attempt.suppressionReported then guard.events
          else guard.events ++ [⟨.suppressed (attempt.suppressedCount + 1),nowMs,attempt.suppress⟩] },false)

def isEligible (key : TransferAttemptKey) (nowMs : ℚ) : TransferAttemptGuard × Bool :=
  if config.enabled = false ∨ TransferAttemptGuard.guarded key.commandKind = false then (guard,true)
  else guard.keyIsEligible config key nowMs

def beginAttempt (commandId : String) (key : TransferAttemptKey) (targetBytes : ℕ) : Except Raised TransferAttemptGuard :=
  if commandId ∈ guard.inflight then .error (.valueError ("duplicate transfer attempt: " ++ commandId))
  else if config.enabled = false ∨ TransferAttemptGuard.guarded key.commandKind = false then .ok guard
  else
    let snapshot : AttemptSnapshot := ⟨key,targetBytes,guard.deviceAvailableBytes,guard.hostAvailableBytes⟩
    .ok { guard with inflight := guard.inflight.insert commandId snapshot }

/-- The codes that came, in the order of their names. -/
def normalized (blockers : List TransferBlocker) : List TransferBlockerCode :=
  if blockers = [] then [.unknownBackend]
  else (blockers.map TransferBlocker.code).dedup.insertionSort fun a b => a.value ≤ b.value

/-- The wait doubles with each failure up to the longest one; the breaker ends it. -/
def retryAt (failureCount : ℕ) (nowMs : ℚ) : Option ℚ :=
  if failureCount < config.unknownCircuitBreakerFailures then
    some (nowMs + min config.unknownMaxMs (config.unknownBaseMs * 2 ^ (failureCount - 1)))
  else none

def blockedAttempt (attempt : AttemptSnapshot) (commandId : String) (blockers : List TransferBlocker)
    (requiredBytes : ℕ) (nowMs : ℚ) : BlockedTransferAttempt :=
  let codes := normalized blockers
  let previous := guard.lookup attempt.key
  let failureCount := if .unknownBackend ∈ codes then guard.unknownFailureCounts attempt.key + 1
    else ((previous.map BlockedTransferAttempt.identicalFailureCount).getD 0) + 1
  { key := attempt.key
    blockerCodes := codes
    requiredBytes := (blockers.map TransferBlocker.requiredBytes).foldl max
      (if 0 < requiredBytes then requiredBytes else attempt.targetBytes)
    failedDeviceAvailableBytes := attempt.deviceAvailableBytes
    failedHostAvailableBytes := attempt.hostAvailableBytes
    failedTsMs := nowMs
    lastCommandId := commandId
    identicalFailureCount := failureCount
    nextRetryTsMs := if .unknownBackend ∈ codes then retryAt config failureCount nowMs else none
    suppressedCount := (previous.map BlockedTransferAttempt.suppressedCount).getD 0
    suppressionReported := (previous.map BlockedTransferAttempt.suppressionReported).getD false
    capacitySnapshotPending := codes.any isCapacity }

def block (blocked : BlockedTransferAttempt) (nowMs : ℚ) : TransferAttemptGuard :=
  { guard with
    unknownFailureCounts := if .unknownBackend ∈ blocked.blockerCodes then
        Function.update guard.unknownFailureCounts blocked.key (guard.unknownFailureCounts blocked.key + 1)
      else guard.unknownFailureCounts
    blocked := Keyed.store BlockedTransferAttempt.key blocked guard.blocked
    generations := Function.update guard.generations blocked.key (guard.generations blocked.key + 1)
    blockedCount := guard.blockedCount + 1
    events := guard.events ++ [⟨.blocked,nowMs,blocked⟩] }

/-- Without blockers the call raises, after the attempt was taken out: it asks for the largest element of one number. -/
def recordFailure (commandId : String) (blockers : List TransferBlocker) (requiredBytes : ℕ) (nowMs : ℚ) :
    TransferAttemptGuard × Except Raised Unit :=
  let ended := { guard with inflight := guard.inflight.erase commandId }
  match guard.inflight[commandId]? with
  | none => (ended,.ok ())
  | some attempt =>
    if config.enabled = false then (ended,.ok ())
    else if blockers = [] then (ended,.error (.typeError "'int' object is not iterable"))
    else (ended.block (guard.blockedAttempt config attempt commandId blockers requiredBytes nowMs) nowMs,.ok ())

/-- Let go of every blocked attempt that `p` picks. -/
def releaseAll (p : TransferAttemptKey → Bool) (nowMs : ℚ) (reason : String) : TransferAttemptGuard :=
  let released := (guard.blocked.filter fun attempt => p attempt.key).foldl
    (fun guard attempt => guard.release attempt nowMs reason) guard
  { released with unknownFailureCounts := fun key => if p key then 0 else released.unknownFailureCounts key }

def recordSuccess (commandId : String) (nowMs : ℚ) : TransferAttemptGuard :=
  match guard.inflight[commandId]? with
  | none => guard
  | some attempt =>
    { guard with inflight := guard.inflight.erase commandId }.releaseAll (fun key => SameIdentity key attempt.key) nowMs
      "transfer_succeeded"

def cancelAttempt (commandId : String) : TransferAttemptGuard :=
  { guard with inflight := guard.inflight.erase commandId }

/-- All keys of a context, or those of its other epochs. -/
def stale (contextId : String) (keepEpoch : Option ℤ) (key : TransferAttemptKey) : Bool :=
  key.contextId = contextId ∧ keepEpoch ≠ some key.contextEpoch

def invalidateContext (contextId : String) (keepEpoch : Option ℤ) (nowMs : ℚ) : TransferAttemptGuard :=
  { guard with inflight := guard.inflight.select fun _ attempt => !stale contextId keepEpoch attempt.key }.releaseAll
    (stale contextId keepEpoch) nowMs "context_epoch_invalidated"

def reset (nowMs : ℚ) : TransferAttemptGuard :=
  { guard with inflight := ∅ }.releaseAll (fun _ => true) nowMs "cache_reset"

def generationFor (key : TransferAttemptKey) : ℕ :=
  if TransferAttemptGuard.guarded key.commandKind = false then 0 else guard.generations key

end TransferAttemptGuard
end RetryGuard
end BeliefKV
