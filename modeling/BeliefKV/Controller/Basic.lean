import BeliefKV.Lib.Call
import BeliefKV.PageIndex.Effect
import BeliefKV.Consumers.Ingestion
import BeliefKV.Arbiter.Basic

/-! The controller: it feeds runtime events to the causal graph, the consumer index and the
page index. -/
namespace BeliefKV
open Call

/-- A dispatched command, with the pages it was resolved to. -/
structure InFlightCommand where
  command : ControlCommand
  pageActions : List ResolvedPageAction
  startedHandles : Finset PageHandle := ∅

structure BeliefKVController where
  arbiter : RadixArbiter
  predictorEnabled : Bool := false
  shadowEnabled : Bool := true
  graph : RuntimeCausalContextGraph := {}
  consumers : ObservedDataConsumerIndex := {}
  pages : PageOwnershipIndex := {}
  -- The action-frontier observer, by the invocations it has a request of.
  begunInvocations : Finset String := ∅
  runtimeEventSequence : ℕ := 0
  runtimeEventJournal : List (ℕ × RuntimeEvent) := []
  guard : TransferAttemptGuard := {}
  commandQueue : TransferCommandQueue := {}
  queuedByContext : Dict String String := ∅
  inflight : Dict String InFlightCommand := ∅
  pendingCancellations : Finset String := ∅
  ackHistory : List String := []

namespace BeliefKVController
variable (s : BeliefKVController)

/-- The length bound of the runtime-event journal. -/
def eventJournalBound : ℕ := 262144

/-- Make a call on the page index. -/
def onPages (call : Except Raised PageOwnershipIndex) : BeliefKVController × Except Raised Unit :=
  match call with
  | .ok pages => ({ s with pages := pages },.ok ())
  | .error e => (s,.error e)

/-! ## Observers of events -/

/-- The predictor's reads of an event, in the order it makes them. -/
def observeEvent (event : RuntimeEvent) : Except Raised Unit :=
  match event.invocationId, event.kind with
  | some _, .llmSubmit => do
    let _ ← event.attributes.promptTokens
    let _ ← event.attributes.cacheHitTokens
    let _ ← event.attributes.expectedOutputTokens
    let _ ← event.attributes.batchSize
    let _ ← event.attributes.contextTokens
    .ok ()
  | some _, .llmResult => do
    let _ ← event.attributes.outputTokens
    let _ ← event.attributes.structuredActionKinds
    .ok ()
  | _, _ => .ok ()

/-- The observer's reads of a result. -/
def readResult (event : RuntimeEvent) : Except Raised Unit := do
  let _ ← event.attributes.outputTokens
  let _ ← event.attributes.actionBoundaryTokenIndex
  .ok ()

/-- The action-frontier observer, without the catch around it. -/
def observeRuntimeEvent (event : RuntimeEvent) : BeliefKVController × Except Raised Unit :=
  if event.attributes.runtimeInternal then (s,.ok ())
  else
    match event.invocationId, event.kind with
    | some id, .llmSubmit =>
      if id = "" then (s,.ok ())
      else ({ s with begunInvocations := insert id s.begunInvocations },.ok ())
    | some id, .llmResult => (s,if id ∈ s.begunInvocations then readResult event else .ok ())
    | some id, .structuredAction =>
      (s,if id ∈ s.begunInvocations then readResult event else .ok ())
    | _, _ => (s,.ok ())

/-- Lookup and value errors are counted and dropped. -/
def observeActionFrontierEvent (event : RuntimeEvent) : BeliefKVController × Except Raised Unit :=
  match s.observeRuntimeEvent event with
  | (s,.error (.keyError _)) => (s,.ok ())
  | (s,.error (.valueError _)) => (s,.ok ())
  | outcome => outcome

/-! ## Runtime events -/

/-- Cancel the command that waits for a context, and its shadow command in flight. -/
def cancelShadowForContext (contextId : String) : BeliefKVController :=
  let shadows := (s.inflight.select fun _ flight =>
    flight.command.contextId = some contextId ∧ flight.command.kind = .shadowContext).keySet
  let s := { s with pendingCancellations := s.pendingCancellations ∪ shadows }
  match s.queuedByContext[contextId]? with
  | none => s
  | some queuedId =>
    let cancelled := s.commandQueue.cancel queuedId
    if cancelled.1 then
      { s with
        commandQueue := cancelled.2
        queuedByContext := s.queuedByContext.erase contextId
        pendingCancellations := insert queuedId s.pendingCancellations }
    else s

/-- A compacted context gives up its pages. -/
def releaseCompacted (event : RuntimeEvent) (contextId : String) : PageOwnershipIndex :=
  if event.kind = .contextCompact ∧ event.contextId = some contextId ∧ s.pages.hasContext contextId
  then s.pages.unbindContext contextId
  else s.pages

/-- Enter a context of the graph into an index, or move it to its epoch. -/
def followEpoch (pages : PageOwnershipIndex) (contextId : String) (context : ContextRecord) :
    Except Raised PageOwnershipIndex :=
  if pages.hasContext contextId = false then
    pages.registerContext contextId context.workflowId context.epoch
  else do
    let epoch ← pages.contextEpochOf contextId
    if epoch ≠ context.epoch then pages.updateContextEpoch contextId context.epoch else .ok pages

def followContext (event : RuntimeEvent) (contextId : String) :
    BeliefKVController × Except Raised Unit :=
  match s.graph.contexts[contextId]? with
  | none => (s,.error (.keyError contextId))
  | some context =>
    let released := s.releaseCompacted event contextId
    andThen ({ s with pages := released }.onPages (followEpoch released contextId context)) fun s _ =>
      ({ s with guard := s.guard.invalidateContext contextId context.epoch },.ok ())

/-- An awakened invocation needs no shadow of its context any more. -/
def followWake (invocationId : String) : BeliefKVController × Except Raised Unit :=
  match s.graph.invocations[invocationId]? with
  | none => (s,.error (.keyError invocationId))
  | some invocation => (s.cancelShadowForContext invocation.contextId,.ok ())

/-- The source iterates over both sets in no particular order; here it is ascending. -/
def afterRuntimeEvent (event : RuntimeEvent) (delta : GraphDelta) :
    BeliefKVController × Except Raised Unit :=
  andThen (s,if s.predictorEnabled then observeEvent event else .ok ()) fun s _ =>
  andThen (forEach (fun s c => s.followContext event c) s (Dict.sorted delta.changedContexts))
    fun s _ => forEach followWake s (Dict.sorted delta.awakenedInvocations)

def appendRuntimeEvents (events : List RuntimeEvent) : BeliefKVController :=
  events.foldl (fun s event =>
    let sequence := s.runtimeEventSequence + 1
    { s with
      runtimeEventSequence := sequence
      runtimeEventJournal := Journal.push eventJournalBound s.runtimeEventJournal (sequence,event) })
    s

def processRuntimeEvent (event : RuntimeEvent) : BeliefKVController × Except Raised GraphDelta :=
  let applied := s.graph.apply event
  andThen ({ s with graph := applied.graph },applied.result) fun s delta =>
  let observed := s.consumers.apply s.graph event
  andThen ({ s with consumers := observed.1 },observed.2) fun s _ =>
  andThen (s.afterRuntimeEvent event delta) fun s _ =>
  andThen (s.observeActionFrontierEvent event) fun s _ =>
  (s.appendRuntimeEvents [event],.ok delta)

/-- The last part of a batch, event by event. -/
def followEvents (s : BeliefKVController) (deltas : List (RuntimeEvent × GraphDelta)) :
    BeliefKVController × Except Raised Unit :=
  forEach (fun s pair => andThen (s.afterRuntimeEvent pair.1 pair.2) fun s _ =>
    s.observeActionFrontierEvent pair.1) s deltas

def processRuntimeEvents (events : List RuntimeEvent) :
    BeliefKVController × Except Raised (List GraphDelta) :=
  if events = [] then (s,.ok [])
  else
    let applied := s.graph.applyBatch events true
    andThen ({ s with graph := applied.1 },applied.2) fun s deltas =>
    let observed := s.consumers.applyBatch s.graph events true
    andThen ({ s with consumers := observed.1 },observed.2) fun s _ =>
    andThen (s.followEvents (events.zip deltas)) fun s _ =>
    (s.appendRuntimeEvents events,.ok deltas)

end BeliefKVController
end BeliefKV
