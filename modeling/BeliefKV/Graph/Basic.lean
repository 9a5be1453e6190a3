import BeliefKV.Events

/-! Records of the runtime causal context graph, and the lookups its handlers start with. -/
namespace BeliefKV

inductive InvocationState
  | created
  | ready
  | runningLlm
  | waitTool
  | waitChild
  | waitJoin
  | waitMessage
  | returning
  | done
  | cancelled
  deriving DecidableEq, Repr

namespace InvocationState

def terminal : InvocationState → Bool
  | done | cancelled => true
  | _ => false

end InvocationState

inductive JoinMode
  | all
  | any
  deriving DecidableEq, Repr

/-- The mode with the given value. -/
def JoinMode.ofValue (value : String) : Except Raised JoinMode :=
  if value = "all" then .ok .all
  else if value = "any" then .ok .any
  else .error (.valueError (value ++ " is not a valid JoinMode"))

structure WorkflowRecord where
  workflowId : String
  startTsMs : ℚ
  endTsMs : Option ℚ := none
  invocationIds : Finset String := ∅

structure InvocationRecord where
  workflowId : String
  invocationId : String
  contextId : String
  agentDefinitionId : String
  agentInstanceId : String
  state : InvocationState
  createdTsMs : ℚ
  updatedTsMs : ℚ
  parentInvocationId : Option String := none
  parentContextId : Option String := none
  relationType : RelationType := .root
  contextMode : ContextMode := .fresh
  executionMode : ExecutionMode := .foreground
  returnTargetId : Option String := none
  joinId : Option String := none
  persistent : Bool := false
  pendingMessages : ℕ := 0
  childInvocationIds : Finset String := ∅
  blockingChildIds : Finset String := ∅
  confidence : EventConfidence := .declaredRuntime
  activeToolFamily : Option String := none
  activeToolStartMs : Option ℚ := none
  llmRound : ℕ := 0

structure ContextRecord where
  workflowId : String
  contextId : String
  epoch : ℤ
  createdTsMs : ℚ
  updatedTsMs : ℚ
  parentContextId : Option String := none
  contextMode : ContextMode := .fresh
  invocationIds : Finset String := ∅
  persistent : Bool := false

structure JoinRecord where
  workflowId : String
  joinId : String
  memberInvocationIds : Finset String
  mode : JoinMode := .all
  waiterInvocationIds : Finset String := ∅
  completedMemberIds : Finset String := ∅
  satisfied : Bool := false
  deriving DecidableEq

structure CommunicationEdge where
  sourceInvocationId : String
  targetInvocationId : String
  count : ℕ
  lastTsMs : ℚ

structure GraphDelta where
  eventId : String
  awakenedInvocations : Finset String := ∅
  parkedInvocations : Finset String := ∅
  completedInvocations : Finset String := ∅
  changedContexts : Finset String := ∅
  graphVersion : ℕ := 0

/-- The graph. A dictionary of the source iterates in insertion order; it can be observed for the
invocations and the joins, so theirs is kept in `invocationOrder` and `joinOrder`. -/
structure RuntimeCausalContextGraph where
  workflows : Dict String WorkflowRecord := ∅
  invocations : Dict String InvocationRecord := ∅
  invocationOrder : List String := []
  contexts : Dict String ContextRecord := ∅
  joins : Dict String JoinRecord := ∅
  joinOrder : List String := []
  communicationEdges : Dict (String × String) CommunicationEdge := ∅
  processedEventIds : Finset String := ∅
  lastTsByWorkflow : Dict String ℚ := ∅
  graphVersion : ℕ := 0
  strictTimestamps : Bool := true

namespace RuntimeCausalContextGraph
variable (g : RuntimeCausalContextGraph)

def workflow (workflowId : String) : Except Raised WorkflowRecord :=
  match g.workflows[workflowId]? with
  | none => .error (.causalGraphError ("unknown workflow: " ++ workflowId))
  | some record => .ok record

def invocation (invocationId workflowId : String) : Except Raised InvocationRecord :=
  match g.invocations[invocationId]? with
  | none => .error (.causalGraphError ("unknown invocation: " ++ invocationId))
  | some record =>
    if record.workflowId ≠ workflowId then
      .error (.causalGraphError ("invocation " ++ invocationId ++ " belongs to " ++
        record.workflowId ++ ", not " ++ workflowId))
    else .ok record

def eventInvocation (event : RuntimeEvent) : Except Raised InvocationRecord := do
  let invocationId ← requireId event.invocationId "invocation_id"
  g.invocation invocationId event.workflowId

def join (joinId workflowId : String) : Except Raised JoinRecord :=
  match g.joins[joinId]? with
  | none => .error (.causalGraphError ("unknown join: " ++ joinId))
  | some record =>
    if record.workflowId ≠ workflowId then
      .error (.causalGraphError ("join " ++ joinId ++ " belongs to another workflow"))
    else .ok record

def ensureNotTerminal (invocation : InvocationRecord) : Except Raised Unit :=
  if invocation.state.terminal then
    .error (.causalGraphError ("invocation " ++ invocation.invocationId ++ " is terminal"))
  else .ok ()

def validateContextEpoch (context : ContextRecord) (eventEpoch : Option ℤ) : Except Raised Unit :=
  match eventEpoch with
  | none => .ok ()
  | some epoch =>
    if epoch < context.epoch then
      .error (.causalGraphError ("stale context epoch for " ++ context.contextId ++ ": " ++
        toString epoch ++ " < " ++ toString context.epoch))
    else .ok ()

/-- The record of a context that is known to exist. -/
def context (contextId : String) : Except Raised ContextRecord :=
  match g.contexts[contextId]? with
  | none => .error (.keyError contextId)
  | some record => .ok record

/-- The walk over parents. A walk longer than the number of invocations has met one twice. -/
def isAncestorFrom (ancestorId : String) :
    ℕ → Option InvocationRecord → Finset String → Except Raised Bool
  | _, none, _ => .ok false
  | 0, some _, _ => .error (.causalGraphError "existing invocation graph contains a cycle")
  | fuel + 1, some current, seen =>
    match current.parentInvocationId with
    | none => .ok false
    | some parentId =>
      if parentId = ancestorId then .ok true
      else if parentId ∈ seen then
        .error (.causalGraphError "existing invocation graph contains a cycle")
      else isAncestorFrom ancestorId fuel g.invocations[parentId]? (insert parentId seen)

def isAncestor (ancestorId invocationId : String) : Except Raised Bool :=
  g.isAncestorFrom ancestorId (g.invocations.size + 1) g.invocations[invocationId]? ∅

def joinIsSatisfied (join : JoinRecord) : Bool :=
  match join.mode with
  | .any => join.completedMemberIds ≠ ∅
  | .all => join.memberInvocationIds ⊆ join.completedMemberIds

/-! ## Lookups that succeed -/

section Lookups
variable {g}

theorem invocation_eq_ok {i w : String} {r : InvocationRecord} :
    g.invocation i w = .ok r ↔ g.invocations[i]? = some r ∧ r.workflowId = w := by
  unfold invocation
  cases g.invocations[i]? with
  | none => simp
  | some record => by_cases h : record.workflowId = w <;> simp [h] <;> grind

theorem eventInvocation_eq_ok {e : RuntimeEvent} {r : InvocationRecord} :
    g.eventInvocation e = .ok r ↔ ∃ i, e.invocationId = some i ∧ isBlank i = false ∧
      g.invocations[i]? = some r ∧ r.workflowId = e.workflowId := by
  unfold eventInvocation
  simp only [bind_eq_ok,requireId_eq_ok,invocation_eq_ok,and_assoc]

theorem join_eq_ok {j w : String} {r : JoinRecord} :
    g.join j w = .ok r ↔ g.joins[j]? = some r ∧ r.workflowId = w := by
  unfold join
  cases g.joins[j]? with
  | none => simp
  | some record => by_cases h : record.workflowId = w <;> simp [h] <;> grind

theorem ensureNotTerminal_eq_ok {r : InvocationRecord} {u : Unit} :
    ensureNotTerminal r = .ok u ↔ r.state.terminal = false := by
  unfold ensureNotTerminal
  cases r.state.terminal <;> simp

theorem workflow_eq_ok {w : String} {r : WorkflowRecord} :
    g.workflow w = .ok r ↔ g.workflows[w]? = some r := by
  unfold workflow
  cases g.workflows[w]? <;> simp

theorem context_eq_ok {c : String} {r : ContextRecord} :
    g.context c = .ok r ↔ g.contexts[c]? = some r := by
  unfold context
  cases g.contexts[c]? <;> simp

end Lookups

end RuntimeCausalContextGraph
end BeliefKV
