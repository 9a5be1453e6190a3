import BeliefKV.Controller.Basic
import BeliefKV.PageIndex.Replica

/-! Control commands in the controller: they are enqueued, dispatched one at a time, started
page by page and acknowledged. The verdict of the retry guard on a command is not part of the
model: a call takes it as an argument. -/
namespace BeliefKV
open Call

/-- The engine's own calls on the page index: it neither enters contexts nor moves them, does
not transfer pages, and never asks for a DEAD residency. -/
def PageOwnershipIndex.Op.Engine : PageOwnershipIndex.Op → Prop
  | .registerContext .. | .updateContextEpoch .. | .beginTransfer .. | .completeTransfer ..
  | .abortTransfer .. => False
  | .registerPage _ _ res _ _ _ _ => res ≠ .dead
  | .updateRuntimeState _ res _ _ _ => res ≠ some .dead
  | _ => True

theorem PhysicalResidency.gpuOnly_ne_dead : PhysicalResidency.gpuOnly ≠ .dead := nofun

namespace BeliefKVController
variable (s : BeliefKVController)

/-! ## Enqueueing -/

/-- The command that owns a context. A reservation without one is dropped. -/
def canonicalContextCommand (contextId : String) : Option ControlCommand × BeliefKVController :=
  let flying := (s.inflight.vals.find? (·.command.contextId = some contextId)).map (·.command)
  match s.queuedByContext[contextId]? with
  | none => (flying,s)
  | some queuedId =>
    match s.commandQueue.get queuedId, flying with
    | some queued, _ => (some queued,s)
    | none, some command => (some command,s)
    | none, none => (none,{ s with queuedByContext := s.queuedByContext.erase contextId })

def preflightControlCommand (command : ControlCommand) (eligible : Bool) :
    EnqueueOutcome × BeliefKVController :=
  let key := command.equivalenceKey
  if eligible = false then (⟨.retryGuardBlocked,none,key⟩,s)
  else
    match command.contextId with
    | none => (⟨.enqueued,some command.commandId,key⟩,s)
    | some contextId =>
      match s.canonicalContextCommand contextId with
      | (none,s) => (⟨.enqueued,some command.commandId,key⟩,s)
      | (some existing,s) =>
        if existing.equivalenceKey = key then (⟨.adoptExisting,some existing.commandId,key⟩,s)
        else (⟨.contextConflict,some existing.commandId,key⟩,s)

/-- Reserve the context, then queue the command. -/
def enqueueIfNew (command : ControlCommand) : BeliefKVController × Except Raised Bool :=
  if command.contextId.any (· ∈ s.queuedByContext) then (s,.ok false)
  else
    let reserved := match command.contextId with
      | none => s
      | some contextId => { s with
          queuedByContext := s.queuedByContext.insert contextId command.commandId }
    match reserved.commandQueue.put command with
    | .error e => (reserved,.error e)
    | .ok queue => ({ reserved with commandQueue := queue },.ok true)

def enqueueControlCommand (command : ControlCommand) (preflight : Option EnqueueOutcome)
    (eligible : Bool) : BeliefKVController × Except Raised EnqueueOutcome :=
  let checked := match preflight with
    | some outcome => (outcome,s)
    | none => s.preflightControlCommand command eligible
  let outcome := checked.1
  if outcome.status ≠ .enqueued then (checked.2,.ok outcome)
  else if outcome.attemptKey ≠ command.equivalenceKey then
    (checked.2,.ok ⟨.staleCertificate,none,command.equivalenceKey⟩)
  else
    andThen (checked.2.enqueueIfNew command) fun s queued =>
    if queued then (s,.ok outcome)
    else
      let again := s.preflightControlCommand command eligible
      (again.2,.ok again.1)

/-! ## Dispatch -/

/-- The context of a command is free again. -/
def unreserve (contextId : Option String) : BeliefKVController :=
  { s with queuedByContext := match contextId with
      | none => s.queuedByContext
      | some contextId => s.queuedByContext.erase contextId }

/-- An acknowledgement enters the history. -/
def acknowledged (commandId : String) : BeliefKVController :=
  { s with ackHistory := s.ackHistory ++ [commandId] }

/-- A command that resolved to nothing is rejected on the spot. -/
def rejectEmpty (command : ControlCommand) (blockers : List TransferBlocker) :
    BeliefKVController × Except Raised Unit :=
  let freed := if command.contextEpoch.isSome then s.unreserve command.contextId else s
  let recorded := freed.guard.recordFailure command.commandId blockers
  andThen ({ freed with guard := recorded.1 },recorded.2) fun s _ =>
    (s.acknowledged command.commandId,.ok ())

def dispatchNext (eligible : Bool) : BeliefKVController × Except Raised Unit :=
  if s.inflight.isEmpty = false then (s,.ok ())
  else
    let popped := s.commandQueue.pop s.shadowEnabled
    let s := { s with commandQueue := popped.2 }
    match popped.1 with
    | none => (s,.ok ())
    | some command =>
      if eligible = false then
        ((s.unreserve command.contextId).acknowledged command.commandId,.ok ())
      else
        match s.guard.beginAttempt command with
        | .error e => (s,.error e)
        | .ok guard =>
          let s := { s with guard := guard }
          let resolved := s.arbiter.resolve s.graph s.pages command
          if resolved.pageActions = [] then s.rejectEmpty command resolved.blockers
          else
            let flight := { command := command, pageActions := resolved.pageActions }
            ({ s with inflight := s.inflight.insert command.commandId flight },.ok ())

/-! ## Starting and acknowledging -/

/-- Put an action in the place of an earlier one for its handle. -/
def setAction : List ResolvedPageAction → ResolvedPageAction → List ResolvedPageAction
  | [], action => [action]
  | first :: rest, action =>
    if first.handle = action.handle then action :: rest else first :: setAction rest action

/-- The actions as a dictionary by handle, in its order. -/
def actionTable (actions : List ResolvedPageAction) : List ResolvedPageAction :=
  actions.foldl setAction []

/-- The call a started action makes. -/
def beginAction (pages : PageOwnershipIndex) (action : ResolvedPageAction) :
    Except Raised PageOwnershipIndex :=
  match action.action with
  | .startD2h => pages.beginTransfer action.handle .d2h
  | .startH2d => pages.beginTransfer action.handle .h2d
  | _ => .ok pages

def startHandle (commandId : String) (s : BeliefKVController) (handle : PageHandle) :
    BeliefKVController × Except Raised Unit :=
  match s.inflight[commandId]? with
  | none => (s,.error (.keyError ("unknown in-flight command: " ++ commandId)))
  | some flight =>
    if handle ∈ flight.startedHandles then (s,.ok ())
    else
      match (actionTable flight.pageActions).find? (·.handle = handle) with
      | none => (s,.error (.valueError ("page " ++ handle.render ++ " is not part of command " ++
          commandId)))
      | some action =>
        andThen (s.onPages (beginAction s.pages action)) fun s _ =>
          let started := { flight with startedHandles := insert handle flight.startedHandles }
          ({ s with inflight := s.inflight.insert commandId started },.ok ())

def markCommandStarted (commandId : String) (handles : List PageHandle) :
    BeliefKVController × Except Raised Unit :=
  if commandId ∈ s.inflight then forEach (startHandle commandId) s handles
  else (s,.error (.keyError ("unknown in-flight command: " ++ commandId)))

/-- The completed pages of an acknowledgement, after its own checks. -/
def checkAck (flight : InFlightCommand) (ack : CommandAck) : Except Raised (Finset PageHandle) := do
  let actions := actionTable flight.pageActions
  let unknown := ack.pageHandles.toFinset.filter fun h => ∀ a ∈ actions, a.handle ≠ h
  ensure (unknown = ∅) (.valueError ("ACK contains pages outside command " ++ ack.commandId ++
    ": [" ++ String.intercalate ", " ((Dict.sorted unknown).map PageHandle.render) ++ "]"))
  let completed := if ack.status ∈ [.rejected,.stale,.cancelled] then ∅ else ack.pageHandles.toFinset
  let expected := ((actions.filter (·.handle ∈ completed)).map ResolvedPageAction.sizeBytes).sum
  ensure (ack.actualBytes ≤ expected) (.valueError ("ACK actual_bytes " ++
    toString ack.actualBytes ++ " exceeds selected page bytes " ++ toString expected))
  .ok completed

/-- The pin set of one page, written without a journal entry. -/
def writePins (pages : PageOwnershipIndex) (handle : PageHandle) (contextId : Option String)
    (f : String → Finset String → Finset String) : Except Raised PageOwnershipIndex :=
  match contextId with
  | none => .ok pages
  | some contextId =>
    if handle ∈ pages.pages then .ok (pages.repinPages {handle} (f contextId))
    else .error (.keyError handle.render)

/-- What one page action does to the index when it is acknowledged. -/
def settleAction (flight : InFlightCommand) (completed : Finset PageHandle)
    (pages : PageOwnershipIndex) (action : ResolvedPageAction) :
    Except Raised PageOwnershipIndex :=
  let handle := action.handle
  if handle ∉ completed then
    if handle ∈ flight.startedHandles ∧ action.action ∈ [.startD2h,.startH2d] then
      pages.abortTransfer handle
    else .ok pages
  else
    match action.action with
    | .startD2h =>
      if handle ∉ flight.startedHandles then
        .error (.valueError ("D2H page " ++ handle.render ++ " completed before TRANSFER_START"))
      else pages.completeTransfer handle .d2h (flight.command.kind = .shadowContext)
    | .startH2d =>
      if handle ∉ flight.startedHandles then
        .error (.valueError ("H2D page " ++ handle.render ++ " completed before TRANSFER_START"))
      else pages.completeTransfer handle .h2d
    | .commitCpu => pages.commitCpu handle
    | .drop => pages.dropPage handle
    | .dropHost => pages.dropHostCopy handle
    | .pin => writePins pages handle flight.command.contextId insert
    | .unpin => writePins pages handle flight.command.contextId fun c pins => pins.erase c

/-- What the guard learns from an acknowledgement; a failure has at least one blocker. -/
def settleGuard (guard : TransferAttemptGuard) (ack : CommandAck) : TransferAttemptGuard :=
  match ack.status with
  | .completed => guard.recordSuccess ack.commandId
  | .cancelled => guard.cancelAttempt ack.commandId
  | .rejected | .partially | .stale => (guard.recordFailure ack.commandId [{ code := .unknownBackend }]).1

def acknowledgeCommand (ack : CommandAck) : BeliefKVController × Except Raised Unit :=
  match s.inflight[ack.commandId]? with
  | none => (s,.error (.keyError ("unknown in-flight command: " ++ ack.commandId)))
  | some flight =>
    andThen (s,checkAck flight ack) fun s completed =>
    andThen (forEach (fun s action => s.onPages (settleAction flight completed s.pages action)) s
      (actionTable flight.pageActions)) fun s _ =>
    let s := { s with
      guard := settleGuard s.guard ack
      inflight := s.inflight.erase ack.commandId }
    let s := (s.unreserve flight.command.contextId).acknowledged ack.commandId
    (s,s.pages.assertConsistent)

/-! ## Runs -/

/-- The calls on a controller. -/
inductive Input
  | event (event : RuntimeEvent)
  | events (events : List RuntimeEvent)
  | engine (op : PageOwnershipIndex.Op) (h : op.Engine)
  | release (contextIds : List String)
  | enqueue (command : ControlCommand) (preflight : Option EnqueueOutcome) (eligible : Bool)
  | dispatch (eligible : Bool)
  | markStarted (commandId : String) (handles : List PageHandle)
  | acknowledge (ack : CommandAck)

/-- A new controller. -/
def start (arbiter : RadixArbiter) (predictorEnabled shadowEnabled guardEnabled : Bool) :
    BeliefKVController :=
  { arbiter := arbiter
    predictorEnabled := predictorEnabled
    shadowEnabled := shadowEnabled
    guard := { enabled := guardEnabled } }

def step : BeliefKVController → Input → BeliefKVController
  | s, .event event => (s.processRuntimeEvent event).1
  | s, .events events => (s.processRuntimeEvents events).1
  | s, .engine op _ => { s with pages := s.pages.step op }
  | s, .release contextIds => { s with pages := contextIds.foldl (·.unbindContext ·) s.pages }
  | s, .enqueue command preflight eligible => (s.enqueueControlCommand command preflight eligible).1
  | s, .dispatch eligible => (s.dispatchNext eligible).1
  | s, .markStarted commandId handles => (s.markCommandStarted commandId handles).1
  | s, .acknowledge ack => (s.acknowledgeCommand ack).1

def run (s : BeliefKVController) (ins : List Input) : BeliefKVController := ins.foldl step s

end BeliefKVController
end BeliefKV
