import BeliefKV.PageIndex.Basic
import BeliefKV.Graph.Basic

/-! Control commands, the queue they wait in, and the acknowledgements that end them. -/
namespace BeliefKV

inductive CommandKind
  | admitRequest
  | deferRequest
  | offloadContext
  | dropContext
  | shadowContext
  | prefetchContext
  | dropUnowned
  | dropTerminalPrivate
  | pinContext
  | unpinContext
  | setWorkflowBudget
  deriving DecidableEq, Repr

inductive CommandQueueClass
  | urgent
  | shadow
  deriving DecidableEq, Repr

inductive CommandStatus
  | completed
  | partially
  | rejected
  | stale
  | cancelled
  deriving DecidableEq, Repr

inductive EnqueueStatus
  | enqueued
  | adoptExisting
  | retryGuardBlocked
  | contextConflict
  | staleCertificate
  deriving DecidableEq, Repr

inductive PhysicalPageAction
  | startD2h
  | commitCpu
  | startH2d
  | drop
  | dropHost
  | pin
  | unpin
  deriving DecidableEq, Repr

structure ResolvedPageAction where
  handle : PageHandle
  action : PhysicalPageAction
  sizeBytes : ℕ
  deriving DecidableEq

/-- Why a physical transfer could not proceed. -/
inductive TransferBlockerCode
  | ancestorClosure
  | descendantClosure
  | deviceCapacity
  | hostCapacity
  | engineBusy
  | nodeLocked
  | nodeLoading
  | inflight
  | semanticPin
  | unsealed
  | staleGeneration
  | extentMutated
  | unknownBackend
  deriving DecidableEq, Repr

/-- The enumeration's string value. -/
def TransferBlockerCode.value : TransferBlockerCode → String
  | .ancestorClosure => "ancestor_closure"
  | .descendantClosure => "descendant_closure"
  | .deviceCapacity => "device_capacity"
  | .hostCapacity => "host_capacity"
  | .engineBusy => "engine_busy"
  | .nodeLocked => "node_locked"
  | .nodeLoading => "node_loading"
  | .inflight => "inflight"
  | .semanticPin => "semantic_pin"
  | .unsealed => "unsealed"
  | .staleGeneration => "stale_generation"
  | .extentMutated => "extent_mutated"
  | .unknownBackend => "unknown_backend"

structure TransferBlocker where
  code : TransferBlockerCode
  pageHandle : Option PageHandle := none
  requiredBytes : ℕ := 0
  detail : String := ""
  deriving DecidableEq

/-- What a command resolves to: page actions, or the blockers in their way. -/
structure ResolvedCommand where
  pageActions : List ResolvedPageAction := []
  resolvedBytes : ℕ := 0
  reason : String := ""
  blockers : List TransferBlocker := []
  closureFingerprint : String := ""
  deriving DecidableEq

/-- Versioned physical closure selected before command dispatch. -/
structure PhysicalBundleIntent where
  bundleId : String
  closureHandles : List PageHandle
  pageActions : List ResolvedPageAction
  generationFingerprint : String
  closureBytes : ℕ
  expectedReclaimableBytes : ℕ := 0
  lockedBytes : ℕ := 0
  deriving DecidableEq

/-- A command, with the three entries of its metadata that are read. A missing deadline is the
infinite one. -/
structure ControlCommand where
  commandId : String
  kind : CommandKind
  createdTsMs : ℚ := 0
  contextId : Option String := none
  contextEpoch : Option ℤ := none
  targetBytes : ℕ := 0
  priority : ℚ := 0
  deadlineMs : Option ℚ := none
  queueClass : CommandQueueClass := .urgent
  allowReadyOwners : Bool := false
  protectedContextId : Option String := none
  bypassOwnerContextIds : Finset String := ∅
  physicalBundle : Option PhysicalBundleIntent := none
  targetHandles : List PageHandle := []
  -- The constructor refuses repeated target handles.
  targets_nodup : targetHandles.Nodup := by decide

/-- What two commands share when one can stand for the other. The residency a kind aims at
follows from the kind. -/
structure EquivalenceKey where
  contextId : Option String
  contextEpoch : Option ℤ
  kind : CommandKind
  bundleId : Option String
  generationFingerprint : Option String
  targetHandles : Option (List PageHandle)
  targetBytes : Option ℕ
  deriving DecidableEq

def ControlCommand.equivalenceKey (command : ControlCommand) : EquivalenceKey :=
  { contextId := command.contextId
    contextEpoch := command.contextEpoch
    kind := command.kind
    bundleId := command.physicalBundle.map PhysicalBundleIntent.bundleId
    generationFingerprint := command.physicalBundle.map PhysicalBundleIntent.generationFingerprint
    targetHandles := if command.physicalBundle = none then some command.targetHandles else none
    targetBytes := if command.physicalBundle = none then some command.targetBytes else none }

structure EnqueueOutcome where
  status : EnqueueStatus
  canonicalCommandId : Option String
  attemptKey : EquivalenceKey

structure CommandAck where
  commandId : String
  status : CommandStatus
  actualBytes : ℕ
  pageHandles : List PageHandle := []

/-! ## The queue -/

structure QueueEntry where
  deadlineMs : Option ℚ
  priority : ℚ
  sequence : ℕ
  command : ControlCommand

/-- An earlier deadline, then a higher priority, then an earlier put. -/
def QueueEntry.before (a b : QueueEntry) : Bool :=
  match a.deadlineMs, b.deadlineMs with
  | some x, some y => x < y || (x = y && tie)
  | some _, none => true
  | none, some _ => false
  | none, none => tie
where
  tie : Bool := b.priority < a.priority || (a.priority = b.priority && a.sequence < b.sequence)

structure TransferCommandQueue where
  urgent : List QueueEntry := []
  shadow : List QueueEntry := []
  sequence : ℕ := 0
  activeIds : Finset String := ∅
  cancelledIds : Finset String := ∅

namespace TransferCommandQueue

/-- The first entry in queue order, and the others. -/
def popFirst : List QueueEntry → Option (QueueEntry × List QueueEntry)
  | [] => none
  | entry :: entries =>
    match popFirst entries with
    | none => some (entry,[])
    | some (first,rest) =>
      if entry.before first then some (entry,entries) else some (first,entry :: rest)

def put (queue : TransferCommandQueue) (command : ControlCommand) :
    Except Raised TransferCommandQueue :=
  if command.commandId ∈ queue.activeIds then
    .error (.valueError ("duplicate command id: " ++ command.commandId))
  else
    let entry := ⟨command.deadlineMs,command.priority,queue.sequence,command⟩
    .ok { queue with
      urgent := if command.queueClass = .urgent then queue.urgent ++ [entry] else queue.urgent
      shadow := if command.queueClass = .urgent then queue.shadow else queue.shadow ++ [entry]
      sequence := queue.sequence + 1
      activeIds := insert command.commandId queue.activeIds }

/-- Pop from one class until a command comes up that is not cancelled. -/
def popValid (entries : List QueueEntry) (activeIds cancelledIds : Finset String) :
    ℕ → Option ControlCommand × List QueueEntry × Finset String × Finset String
  | 0 => (none,entries,activeIds,cancelledIds)
  | fuel + 1 =>
    match popFirst entries with
    | none => (none,entries,activeIds,cancelledIds)
    | some (first,rest) =>
      let id := first.command.commandId
      if id ∈ cancelledIds then popValid rest (activeIds.erase id) (cancelledIds.erase id) fuel
      else (some first.command,rest,activeIds.erase id,cancelledIds)

/-- Urgent commands go first; the others only when they are allowed. -/
def pop (queue : TransferCommandQueue) (allowShadow : Bool) :
    Option ControlCommand × TransferCommandQueue :=
  let u := popValid queue.urgent queue.activeIds queue.cancelledIds queue.urgent.length
  let queue := { queue with urgent := u.2.1, activeIds := u.2.2.1, cancelledIds := u.2.2.2 }
  if u.1.isSome ∨ allowShadow = false then (u.1,queue)
  else
    let v := popValid queue.shadow queue.activeIds queue.cancelledIds queue.shadow.length
    (v.1,{ queue with shadow := v.2.1, activeIds := v.2.2.1, cancelledIds := v.2.2.2 })

def cancel (queue : TransferCommandQueue) (commandId : String) : Bool × TransferCommandQueue :=
  if commandId ∉ queue.activeIds then (false,queue)
  else (true,{ queue with
    cancelledIds := insert commandId queue.cancelledIds
    activeIds := queue.activeIds.erase commandId })

/-- An active command that waits. -/
def get (queue : TransferCommandQueue) (commandId : String) : Option ControlCommand :=
  if commandId ∉ queue.activeIds ∨ commandId ∈ queue.cancelledIds then none
  else ((queue.urgent ++ queue.shadow).find? (·.command.commandId = commandId)).map (·.command)

end TransferCommandQueue

/-! ## The retry guard -/

/-- The retry guard, by the attempts in flight (each with its context and epoch) and the
commands whose outcome it recorded. -/
structure TransferAttemptGuard where
  enabled : Bool := true
  inflight : Dict String (String × ℤ) := ∅
  failed : List String := []
  succeeded : List String := []

namespace TransferAttemptGuard

def guarded : CommandKind → Bool
  | .offloadContext | .shadowContext | .prefetchContext | .dropTerminalPrivate => true
  | _ => false

def beginAttempt (guard : TransferAttemptGuard) (command : ControlCommand) :
    Except Raised TransferAttemptGuard :=
  if command.commandId ∈ guard.inflight then
    .error (.valueError ("duplicate transfer attempt: " ++ command.commandId))
  else
    match guard.enabled && guarded command.kind, command.contextId, command.contextEpoch with
    | true, some context, some epoch =>
      .ok { guard with inflight := guard.inflight.insert command.commandId (context,epoch) }
    | _, _, _ => .ok guard

/-- The attempt is over before its failure is recorded, and a failure without blockers is
recorded with a `max` of one number, which raises. -/
def recordFailure (guard : TransferAttemptGuard) (commandId : String)
    (blockers : List TransferBlocker) : TransferAttemptGuard × Except Raised Unit :=
  let ended := { guard with inflight := guard.inflight.erase commandId }
  if guard.enabled = false ∨ commandId ∉ guard.inflight then (ended,.ok ())
  else if blockers = [] then (ended,.error (.typeError "'int' object is not iterable"))
  else ({ ended with failed := guard.failed ++ [commandId] },.ok ())

def recordSuccess (guard : TransferAttemptGuard) (commandId : String) : TransferAttemptGuard :=
  if commandId ∈ guard.inflight then
    { guard with
      inflight := guard.inflight.erase commandId
      succeeded := guard.succeeded ++ [commandId] }
  else guard

def cancelAttempt (guard : TransferAttemptGuard) (commandId : String) : TransferAttemptGuard :=
  { guard with inflight := guard.inflight.erase commandId }

/-- Attempts of other epochs of a context are forgotten. -/
def invalidateContext (guard : TransferAttemptGuard) (contextId : String) (keepEpoch : ℤ) :
    TransferAttemptGuard :=
  { guard with inflight := guard.inflight.select fun _ attempt =>
      attempt.1 ≠ contextId ∨ attempt.2 = keepEpoch }

end TransferAttemptGuard
end BeliefKV
