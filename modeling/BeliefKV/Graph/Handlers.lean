import BeliefKV.Graph.Basic

/-! The handlers of the causal graph, one for each event kind, and the two entry points
that apply one event or a batch. -/
namespace BeliefKV.RuntimeCausalContextGraph

/-- What a handler that does not raise returns. -/
structure Handled where
  graph : RuntimeCausalContextGraph
  delta : GraphDelta

/-- The joins that fired, in order, with the waiters each of them woke. The program does not
keep this record; it only returns the union of the waiters. -/
abbrev Wakes := List (String × Finset String)

/-- A call of `apply`: the graph it leaves, also when it raises, and what it returns. -/
structure Outcome where
  graph : RuntimeCausalContextGraph
  result : Except Raised GraphDelta
  wakes : Wakes := []

/-- The outcome of a handler that raises before it writes and fires no join. -/
def Outcome.ofHandled (g : RuntimeCausalContextGraph) : Except Raised Handled → Outcome
  | .ok handled => ⟨handled.graph,.ok handled.delta,[]⟩
  | .error e => ⟨g,.error e,[]⟩

/-- The outcome of a handler that raises before it writes and can fire joins. -/
def Outcome.ofFiring (g : RuntimeCausalContextGraph) : Except Raised (Handled × Wakes) → Outcome
  | .ok (handled,wakes) => ⟨handled.graph,.ok handled.delta,wakes⟩
  | .error e => ⟨g,.error e,[]⟩

variable (g : RuntimeCausalContextGraph) (event : RuntimeEvent)

/-! ## Updates shared by the handlers -/

def editInvocations (ids : Finset String) (f : InvocationRecord → InvocationRecord) :
    RuntimeCausalContextGraph :=
  { g with invocations := g.invocations.updateAll ids f }

/-- The state and the update time of one invocation. -/
def setState (id : String) (state : InvocationState) (tsMs : ℚ) : RuntimeCausalContextGraph :=
  g.editInvocations {id} fun r => { r with state := state, updatedTsMs := tsMs }

/-- The contexts of a set of invocations. -/
def contextsOf (ids : Finset String) : Finset String :=
  ids.biUnion fun id => (g.invocations[id]?.map InvocationRecord.contextId).toFinset

def touchContext (contextId : String) : Except Raised RuntimeCausalContextGraph := do
  let context ← g.context contextId
  validateContextEpoch context event.contextEpoch
  let moved := { context with
    epoch := event.contextEpoch.getD context.epoch
    updatedTsMs := event.tsMs }
  .ok { g with contexts := g.contexts.insert contextId moved }

/-- The waiters a firing join wakes. -/
def wakeable (join : JoinRecord) : Finset String :=
  join.waiterInvocationIds.filter fun id => g.invocations[id]?.any (·.state = .waitJoin)

def wakeJoinWaiters (join : JoinRecord) (tsMs : ℚ) : RuntimeCausalContextGraph :=
  g.editInvocations join.waiterInvocationIds fun r =>
    if r.state = .waitJoin then { r with state := .ready, updatedTsMs := tsMs } else r

/-- The first half of completing dependencies: the return target stops waiting. -/
def releaseParent (invocation : InvocationRecord) (tsMs : ℚ) :
    RuntimeCausalContextGraph × Finset String :=
  match orElse invocation.returnTargetId invocation.parentInvocationId with
  | none => (g,∅)
  | some targetId =>
    match g.invocations[targetId]? with
    | none => (g,∅)
    | some parent =>
      let blocking := parent.blockingChildIds.erase invocation.invocationId
      if parent.state = .waitChild ∧ blocking = ∅ ∧ parent.state.terminal = false then
        (g.editInvocations {targetId} (fun r => { r with
          blockingChildIds := blocking, state := .ready, updatedTsMs := tsMs }),
          {parent.invocationId})
      else (g.editInvocations {targetId} fun r => { r with blockingChildIds := blocking },∅)

/-- One round of the loop over all joins. -/
def completeJoin (invocationId : String) (tsMs : ℚ)
    (acc : RuntimeCausalContextGraph × Wakes) (joinId : String) :
    RuntimeCausalContextGraph × Wakes :=
  match acc.1.joins[joinId]? with
  | none => acc
  | some join =>
    if invocationId ∉ join.memberInvocationIds then acc
    else
      let join := { join with completedMemberIds := insert invocationId join.completedMemberIds }
      if joinIsSatisfied join then
        let join := { join with satisfied := true }
        let g := { acc.1 with joins := acc.1.joins.insert joinId join }
        (g.wakeJoinWaiters join tsMs,acc.2 ++ [(joinId,g.wakeable join)])
      else ({ acc.1 with joins := acc.1.joins.insert joinId join },acc.2)

/-- The graph, the awakened invocations, and the joins that fired. -/
def completeDependencies (invocation : InvocationRecord) (tsMs : ℚ) :
    RuntimeCausalContextGraph × Finset String × Wakes :=
  let released := g.releaseParent invocation tsMs
  let completed := released.1.joinOrder.foldl (completeJoin invocation.invocationId tsMs)
    (released.1,[])
  (completed.1,released.2 ∪ completed.2.foldl (fun awakened wake => awakened ∪ wake.2) ∅,completed.2)

/-! ## Handlers -/

def onWorkflowStart : Except Raised Handled := do
  ensure (event.workflowId ∉ g.workflows)
    (.causalGraphError ("workflow already exists: " ++ event.workflowId))
  let workflow := { workflowId := event.workflowId, startTsMs := event.tsMs }
  .ok
    { graph := { g with workflows := g.workflows.insert event.workflowId workflow }
      delta := { eventId := event.eventId } }

def onWorkflowEnd : Except Raised Handled := do
  let workflow ← g.workflow event.workflowId
  let completed := workflow.invocationIds.filter fun id =>
    g.invocations[id]?.any (·.state.terminal = false)
  let ended := g.editInvocations workflow.invocationIds fun r =>
    if r.state.terminal then r else { r with state := .cancelled, updatedTsMs := event.tsMs }
  let closed := { workflow with endTsMs := some event.tsMs }
  .ok
    { graph := { ended with workflows := ended.workflows.insert event.workflowId closed }
      delta :=
        { eventId := event.eventId
          completedInvocations := completed
          changedContexts := g.contextsOf completed } }

/-- The parent context of a new invocation. -/
def parentContextOf : Except Raised (Option String) :=
  match event.parentInvocationId with
  | none => .ok event.parentContextId
  | some parentId => do
    let parent ← g.invocation parentId event.workflowId
    .ok (orElse event.parentContextId (some parent.contextId))

/-- The context a new invocation enters: a fresh one, or the known one moved forward. -/
def enteredContext (contextId : String) (parentContextId : Option String) :
    Except Raised ContextRecord :=
  match g.contexts[contextId]? with
  | none => .ok
      { workflowId := event.workflowId
        contextId := contextId
        epoch := event.contextEpoch.getD 0
        createdTsMs := event.tsMs
        updatedTsMs := event.tsMs
        parentContextId := parentContextId
        contextMode := event.contextMode.getD .fresh
        persistent := event.attributes.persistent.getD false }
  | some context => do
    validateContextEpoch context event.contextEpoch
    ensure (context.workflowId = event.workflowId)
      (.causalGraphError ("context " ++ contextId ++ " cannot cross root workflows"))
    .ok { context with
      epoch := max context.epoch (event.contextEpoch.getD 0)
      updatedTsMs := event.tsMs }

def newInvocation (invocationId contextId : String) (parentContextId : Option String)
    (persistent : Bool) : InvocationRecord :=
  { workflowId := event.workflowId
    invocationId := invocationId
    contextId := contextId
    agentDefinitionId := (orElse event.agentDefinitionId none).getD "unknown"
    agentInstanceId := (orElse event.agentInstanceId none).getD invocationId
    state := .ready
    createdTsMs := event.tsMs
    updatedTsMs := event.tsMs
    parentInvocationId := event.parentInvocationId
    parentContextId := parentContextId
    relationType := event.relationType.getD .root
    contextMode := event.contextMode.getD .fresh
    executionMode := event.executionMode.getD .foreground
    returnTargetId := orElse event.returnTargetId event.parentInvocationId
    joinId := event.joinId
    persistent := event.attributes.persistent.getD persistent
    confidence := event.confidence }

def onInvocationCreate : Except Raised Handled := do
  let workflow ← g.workflow event.workflowId
  let invocationId ← requireId event.invocationId "invocation_id"
  let contextId ← requireId event.contextId "context_id"
  ensure (invocationId ∉ g.invocations)
    (.causalGraphError ("invocation already exists: " ++ invocationId))
  let parentContextId ← g.parentContextOf event
  let context ← g.enteredContext event contextId parentContextId
  let invocation := newInvocation event invocationId contextId parentContextId context.persistent
  .ok
    { graph := { g with
        invocations := g.invocations.insert invocationId invocation
        invocationOrder := g.invocationOrder ++ [invocationId]
        workflows := g.workflows.insert event.workflowId
          { workflow with invocationIds := insert invocationId workflow.invocationIds }
        contexts := g.contexts.insert contextId { context with
          invocationIds := insert invocationId context.invocationIds
          persistent := context.persistent || invocation.persistent } }
      delta :=
        { eventId := event.eventId
          awakenedInvocations := {invocationId}
          changedContexts := {contextId} } }

/-- The end of an invocation: its new state, then its dependents. -/
def finishInvocation (invocation : InvocationRecord) (state : InvocationState) :
    RuntimeCausalContextGraph × Finset String × Wakes :=
  (g.setState invocation.invocationId state event.tsMs).completeDependencies invocation event.tsMs

def onInvocationCancel : Except Raised (Handled × Wakes) := do
  let invocation ← g.eventInvocation event
  if invocation.state.terminal then .ok ({ graph := g, delta := { eventId := event.eventId } },[])
  else
    let finished := g.finishInvocation event invocation .cancelled
    let delta : GraphDelta :=
      { eventId := event.eventId
        awakenedInvocations := finished.2.1
        completedInvocations := {invocation.invocationId}
        changedContexts := {invocation.contextId} }
    .ok (⟨finished.1,delta⟩,finished.2.2)

/-- The invocation of the event, which may not be terminal. -/
def liveInvocation : Except Raised InvocationRecord := do
  let invocation ← g.eventInvocation event
  ensureNotTerminal invocation
  .ok invocation

/-- The update time of one invocation. -/
def stamp (id : String) : RuntimeCausalContextGraph :=
  g.editInvocations {id} fun r => { r with updatedTsMs := event.tsMs }

def onContextAdvance : Except Raised Handled := do
  let invocation ← g.liveInvocation event
  ensure (event.contextId = none ∨ event.contextId = some invocation.contextId)
    (.causalGraphError "context advance does not match invocation context")
  let touched ← g.touchContext event invocation.contextId
  .ok
    { graph := touched.stamp event invocation.invocationId
      delta := { eventId := event.eventId, changedContexts := {invocation.contextId} } }

/-- The previous epoch an event may name is the current one. -/
def checkPreviousEpoch (context : ContextRecord) : Except Raised Unit :=
  match event.attributes.previousContextEpoch with
  | none => .ok ()
  | some previous => do
    let epoch ← previous
    ensure (epoch = context.epoch) (.causalGraphError
      ("context compact previous epoch mismatch for " ++ context.contextId ++ ": " ++
        toString epoch ++ " != " ++ toString context.epoch))

def onContextCompact : Except Raised Handled := do
  let invocation ← g.liveInvocation event
  ensure (event.contextId = none ∨ event.contextId = some invocation.contextId)
    (.causalGraphError "context compact does not match invocation context")
  let context ← g.context invocation.contextId
  checkPreviousEpoch event context
  ensure (event.contextEpoch.any (context.epoch < ·))
    (.causalGraphError "context compact must advance the context epoch")
  let touched ← g.touchContext event invocation.contextId
  .ok
    { graph := touched.stamp event invocation.invocationId
      delta := { eventId := event.eventId, changedContexts := {invocation.contextId} } }

def onStructuredAction : Except Raised Handled := do
  let invocation ← g.eventInvocation event
  let context ← g.context invocation.contextId
  validateContextEpoch context event.contextEpoch
  .ok { graph := g, delta := { eventId := event.eventId } }

def onCallCensored : Except Raised Handled :=
  match event.invocationId with
  | none => .ok { graph := g, delta := { eventId := event.eventId } }
  | some _ => do
    let _ ← g.eventInvocation event
    .ok { graph := g, delta := { eventId := event.eventId } }

/-- The child's side of a link. -/
def linkedChild (parent : InvocationRecord) (mode : ExecutionMode) (r : InvocationRecord) :
    InvocationRecord :=
  { r with
    parentInvocationId := some parent.invocationId
    parentContextId := some parent.contextId
    returnTargetId := orElse event.returnTargetId (some parent.invocationId)
    executionMode := mode
    relationType := if event.kind = .call then .call else .spawn
    updatedTsMs := event.tsMs
    state := .ready }

/-- The parent's side of a link. -/
def linkedParent (childId : String) (mode : ExecutionMode) (r : InvocationRecord) :
    InvocationRecord :=
  let r := { r with childInvocationIds := insert childId r.childInvocationIds }
  if mode = .foreground then
    { r with
      blockingChildIds := insert childId r.blockingChildIds
      state := .waitChild
      updatedTsMs := event.tsMs }
  else r

def linkChild (defaultMode : ExecutionMode) : Except Raised Handled := do
  let parent ← g.eventInvocation event
  let childId ← requireId event.targetInvocationId "target_invocation_id"
  let child ← g.invocation childId event.workflowId
  ensure (parent.state.terminal = false ∧ child.state.terminal = false)
    (.causalGraphError "cannot link a terminal invocation")
  ensure (parent.invocationId ≠ child.invocationId)
    (.causalGraphError "CALL/SPAWN would create an invocation cycle")
  let ancestor ← g.isAncestor child.invocationId parent.invocationId
  ensure (ancestor = false) (.causalGraphError "CALL/SPAWN would create an invocation cycle")
  ensure (child.parentInvocationId = none ∨ child.parentInvocationId = some parent.invocationId)
    (.causalGraphError ("invocation " ++ childId ++ " already has another parent"))
  let mode := event.executionMode.getD defaultMode
  let adopted := g.editInvocations {childId} (linkedChild event parent mode)
  .ok
    { graph := adopted.editInvocations {parent.invocationId} (linkedParent event childId mode)
      delta :=
        { eventId := event.eventId
          awakenedInvocations := {childId}
          parkedInvocations := if mode = .foreground then {parent.invocationId} else ∅
          changedContexts := {parent.contextId,child.contextId} } }

def onCall : Except Raised Handled := g.linkChild event .foreground

def onSpawn : Except Raised Handled := g.linkChild event (event.executionMode.getD .background)

def onReturn : Except Raised (Handled × Wakes) := do
  let invocation ← g.eventInvocation event
  if invocation.state.terminal then .ok ({ graph := g, delta := { eventId := event.eventId } },[])
  else
    let finished := g.finishInvocation event invocation .done
    let delta : GraphDelta :=
      { eventId := event.eventId
        awakenedInvocations := finished.2.1
        completedInvocations := {invocation.invocationId}
        changedContexts := insert invocation.contextId (finished.1.contextsOf finished.2.1) }
    .ok (⟨finished.1,delta⟩,finished.2.2)

/-- The edge between two invocations after one more message. -/
def messageEdge (sourceId targetId : String) : CommunicationEdge :=
  match g.communicationEdges[(sourceId,targetId)]? with
  | none => ⟨sourceId,targetId,1,event.tsMs⟩
  | some edge => { edge with count := edge.count + 1, lastTsMs := event.tsMs }

def deliverMessage (handoff : Bool) : Except Raised Handled := do
  let source ← g.eventInvocation event
  let targetId ← requireId event.targetInvocationId "target_invocation_id"
  let target ← g.invocation targetId event.workflowId
  ensure (target.state.terminal = false)
    (.causalGraphError "cannot send a message to a terminal invocation")
  let delivered := { g.editInvocations {targetId} (fun r => { r with
      pendingMessages := r.pendingMessages + 1, state := .ready, updatedTsMs := event.tsMs }) with
    communicationEdges := g.communicationEdges.insert (source.invocationId,targetId)
      (g.messageEdge event source.invocationId targetId) }
  -- The source may be the target, so its state is read again after the delivery.
  let parks := handoff ∧
    delivered.invocations[source.invocationId]?.any (·.state.terminal = false)
  .ok
    { graph := if parks then delivered.setState source.invocationId .waitMessage event.tsMs
        else delivered
      delta :=
        { eventId := event.eventId
          awakenedInvocations := {targetId}
          parkedInvocations := if parks then {source.invocationId} else ∅
          changedContexts := {source.contextId,target.contextId} } }

def onMessage : Except Raised Handled := g.deliverMessage event false

def onHandoff : Except Raised Handled := g.deliverMessage event true

def onReactivate : Except Raised Handled := do
  let invocation ← g.liveInvocation event
  ensure (invocation.state ≠ .runningLlm)
    (.causalGraphError "cannot reactivate an invocation already running")
  .ok
    { graph := g.setState invocation.invocationId .ready event.tsMs
      delta :=
        { eventId := event.eventId
          awakenedInvocations := if invocation.state ≠ .ready then {invocation.invocationId} else ∅
          changedContexts := {invocation.contextId} } }

/-- Every member of a new join exists in its workflow. -/
def checkMembers : List String → Except Raised Unit
  | [] => .ok ()
  | member :: members => do
    let _ ← g.invocation member event.workflowId
    checkMembers members

/-- A new join; members that ended before it count as completed. -/
def newJoin (joinId : String) (mode : JoinMode) : JoinRecord :=
  let members := event.memberInvocationIds.toFinset
  let join : JoinRecord :=
    { workflowId := event.workflowId
      joinId := joinId
      memberInvocationIds := members
      mode := mode
      completedMemberIds := members.filter fun id => g.invocations[id]?.any (·.state.terminal) }
  { join with satisfied := joinIsSatisfied join }

def onJoinCreate : Except Raised Handled := do
  let _ ← g.workflow event.workflowId
  let joinId ← requireId event.joinId "join_id"
  ensure (joinId ∉ g.joins) (.causalGraphError ("join already exists: " ++ joinId))
  ensure (event.memberInvocationIds.toFinset ≠ ∅)
    (.causalGraphError "join must contain at least one member")
  g.checkMembers event event.memberInvocationIds
  let mode ← JoinMode.ofValue event.attributes.mode
  .ok
    { graph := { g with
        joins := g.joins.insert joinId (g.newJoin event joinId mode)
        joinOrder := g.joinOrder ++ [joinId] }
      delta := { eventId := event.eventId } }

def onJoinWait : Except Raised Handled := do
  let invocation ← g.eventInvocation event
  let joinId ← requireId event.joinId "join_id"
  let join ← g.join joinId event.workflowId
  let enrolled := { g with joins := g.joins.insert joinId { join with
    waiterInvocationIds := insert invocation.invocationId join.waiterInvocationIds } }
  let parked := enrolled.editInvocations {invocation.invocationId} fun r => { r with
    joinId := some joinId
    updatedTsMs := event.tsMs
    state := if join.satisfied then .ready else .waitJoin }
  .ok
    { graph := parked
      delta :=
        { eventId := event.eventId
          awakenedInvocations := if join.satisfied then {invocation.invocationId} else ∅
          parkedInvocations := if join.satisfied then ∅ else {invocation.invocationId}
          changedContexts := {invocation.contextId} } }

/-- A join that fires by an event of its own. -/
def fireJoin (satisfies : Bool) : Except Raised (Handled × Wakes) := do
  let joinId ← requireId event.joinId "join_id"
  let join ← g.join joinId event.workflowId
  let fired := { join with satisfied := satisfies || join.satisfied }
  let marked := { g with joins := g.joins.insert joinId fired }
  let awakened := marked.wakeable join
  let woken := marked.wakeJoinWaiters join event.tsMs
  let delta : GraphDelta :=
    { eventId := event.eventId
      awakenedInvocations := awakened
      changedContexts := woken.contextsOf awakened }
  .ok (⟨woken,delta⟩,[(joinId,awakened)])

def onJoinSatisfied : Except Raised (Handled × Wakes) := g.fireJoin event true

def onJoinTimeout : Except Raised (Handled × Wakes) := g.fireJoin event false

def onToolStart : Except Raised Handled := do
  let invocation ← g.liveInvocation event
  .ok
    { graph := g.editInvocations {invocation.invocationId} fun r => { r with
        state := .waitTool
        updatedTsMs := event.tsMs
        activeToolFamily := some event.attributes.toolFamily
        activeToolStartMs := some event.tsMs }
      delta :=
        { eventId := event.eventId
          parkedInvocations := {invocation.invocationId}
          changedContexts := {invocation.contextId} } }

def onToolEnd : Except Raised Handled := do
  let invocation ← g.liveInvocation event
  .ok
    { graph := g.editInvocations {invocation.invocationId} fun r => { r with
        state := .ready
        updatedTsMs := event.tsMs
        activeToolFamily := none
        activeToolStartMs := none }
      delta :=
        { eventId := event.eventId
          awakenedInvocations := {invocation.invocationId}
          changedContexts := {invocation.contextId} } }

/-- The one handler that writes before its last conversion can raise. -/
def onLlmSubmit : Outcome :=
  let opened : Except Raised (InvocationRecord × RuntimeCausalContextGraph) := do
    let invocation ← g.liveInvocation event
    let touched ← g.touchContext event invocation.contextId
    .ok (invocation,touched)
  match opened with
  | .error e => ⟨g,.error e,[]⟩
  | .ok (invocation,touched) =>
    let started := touched.editInvocations {invocation.invocationId} fun r => { r with
      state := .runningLlm }
    match event.attributes.messagesConsumed with
    | .error e => ⟨started,.error e,[]⟩
    | .ok consumed =>
      ⟨started.editInvocations {invocation.invocationId} (fun r => { r with
          pendingMessages := ((r.pendingMessages : ℤ) - consumed).toNat
          updatedTsMs := event.tsMs
          llmRound := r.llmRound + 1 }),
        .ok { eventId := event.eventId, changedContexts := {invocation.contextId} },[]⟩

def onLlmResult : Except Raised (Handled × Wakes) := do
  let invocation ← g.liveInvocation event
  let touched ← g.touchContext event invocation.contextId
  if event.attributes.terminal then
    let finished := touched.finishInvocation event invocation .done
    let delta : GraphDelta :=
      { eventId := event.eventId
        awakenedInvocations := finished.2.1
        completedInvocations := {invocation.invocationId}
        changedContexts := {invocation.contextId} }
    .ok (⟨finished.1,delta⟩,finished.2.2)
  else
    let delta : GraphDelta :=
      { eventId := event.eventId
        awakenedInvocations := {invocation.invocationId}
        changedContexts := {invocation.contextId} }
    .ok (⟨touched.setState invocation.invocationId .ready event.tsMs,delta⟩,[])

/-! ## Entry points -/

def handle : Outcome :=
  match event.kind with
  | .workflowStart => .ofHandled g (g.onWorkflowStart event)
  | .workflowEnd => .ofHandled g (g.onWorkflowEnd event)
  | .invocationCreate => .ofHandled g (g.onInvocationCreate event)
  | .invocationCancel => .ofFiring g (g.onInvocationCancel event)
  | .contextAdvance => .ofHandled g (g.onContextAdvance event)
  | .contextCompact => .ofHandled g (g.onContextCompact event)
  | .call => .ofHandled g (g.onCall event)
  | .spawn => .ofHandled g (g.onSpawn event)
  | .return => .ofFiring g (g.onReturn event)
  | .message => .ofHandled g (g.onMessage event)
  | .handoff => .ofHandled g (g.onHandoff event)
  | .reactivate => .ofHandled g (g.onReactivate event)
  | .joinCreate => .ofHandled g (g.onJoinCreate event)
  | .joinWait => .ofHandled g (g.onJoinWait event)
  | .joinSatisfied => .ofFiring g (g.onJoinSatisfied event)
  | .joinTimeout => .ofFiring g (g.onJoinTimeout event)
  | .toolStart => .ofHandled g (g.onToolStart event)
  | .toolEnd => .ofHandled g (g.onToolEnd event)
  | .llmSubmit => g.onLlmSubmit event
  | .llmResult => .ofFiring g (g.onLlmResult event)
  | .callCensored => .ofHandled g (g.onCallCensored event)
  | .structuredAction => .ofHandled g (g.onStructuredAction event)

/-- The event was applied before. -/
def Processed : Prop := event.eventId ∈ g.processedEventIds

/-- The event is older than its workflow's last one. -/
def OutOfOrder : Prop :=
  g.strictTimestamps ∧ g.lastTsByWorkflow[event.workflowId]?.any (event.tsMs < ·)

instance : Decidable (g.Processed event) := inferInstanceAs (Decidable (_ ∈ _))

instance : Decidable (g.OutOfOrder event) := inferInstanceAs (Decidable (_ ∧ _))

/-- The bookkeeping after a handler returned. -/
def commit : RuntimeCausalContextGraph :=
  { g with
    processedEventIds := insert event.eventId g.processedEventIds
    lastTsByWorkflow := g.lastTsByWorkflow.insert event.workflowId
      (max event.tsMs (g.lastTsByWorkflow[event.workflowId]?.getD event.tsMs))
    graphVersion := g.graphVersion + 1 }

def apply : Outcome :=
  if g.Processed event then
    ⟨g,.ok { eventId := event.eventId, graphVersion := g.graphVersion },[]⟩
  else if g.OutOfOrder event then
    ⟨g,.error (.causalGraphError ("out-of-order event " ++ event.eventId ++ ": " ++
      toString event.tsMs ++ " < " ++
      toString (g.lastTsByWorkflow[event.workflowId]?.getD event.tsMs))),[]⟩
  else
    let outcome := g.handle event
    match outcome.result with
    | .error e => ⟨outcome.graph,.error e,[]⟩
    | .ok delta =>
      ⟨outcome.graph.commit event,.ok { delta with graphVersion := outcome.graph.graphVersion + 1 },
        outcome.wakes⟩

/-- Apply one after another and stop at the first event that raises. -/
def applyAll : RuntimeCausalContextGraph → List RuntimeEvent →
    RuntimeCausalContextGraph × Except Raised (List GraphDelta)
  | g, [] => (g,.ok [])
  | g, event :: events =>
    let outcome := g.apply event
    match outcome.result with
    | .error e => (outcome.graph,.error e)
    | .ok delta =>
      let rest := applyAll outcome.graph events
      (rest.1,rest.2.map (delta :: ·))

/-- A batch; the atomic one restores the graph when an event raises. -/
def applyBatch (events : List RuntimeEvent) (atomic : Bool) :
    RuntimeCausalContextGraph × Except Raised (List GraphDelta) :=
  match g.applyAll events with
  | (g',.ok deltas) => (g',.ok deltas)
  | (g',.error e) => (if atomic then g else g',.error e)

end BeliefKV.RuntimeCausalContextGraph
