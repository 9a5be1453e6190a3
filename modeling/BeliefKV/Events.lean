import BeliefKV.Protocol

/-! Framework-neutral runtime events, with the checks made when one is constructed. -/
namespace BeliefKV

inductive RuntimeEventKind
  | workflowStart
  | workflowEnd
  | invocationCreate
  | invocationCancel
  | contextAdvance
  | contextCompact
  | call
  | spawn
  | return
  | message
  | handoff
  | reactivate
  | joinCreate
  | joinWait
  | joinSatisfied
  | joinTimeout
  | toolStart
  | toolEnd
  | llmSubmit
  | llmResult
  | callCensored
  | structuredAction
  deriving DecidableEq, Repr

inductive RelationType
  | root
  | call
  | spawn
  | message
  | handoff
  deriving DecidableEq, Repr

inductive ContextMode
  | fresh
  | fork
  | resume
  deriving DecidableEq, Repr

inductive ExecutionMode
  | foreground
  | background
  deriving DecidableEq, Repr

inductive EventConfidence
  | declaredRuntime
  | observedExact
  | inferred
  deriving DecidableEq, Repr

/-! ## Identifiers -/

/-- The characters that stripping removes. -/
def isSpace (c : Char) : Bool :=
  let n := c.toNat
  (9 ≤ n && n ≤ 13) || (28 ≤ n && n ≤ 32) || n == 0x85 || n == 0xa0 || n == 0x1680 ||
    (0x2000 ≤ n && n ≤ 0x200a) || n == 0x2028 || n == 0x2029 || n == 0x202f || n == 0x205f ||
    n == 0x3000

/-- Nothing is left of the identifier after stripping. -/
def isBlank (s : String) : Bool := s.toList.all isSpace

theorem ne_empty_of_isBlank {s : String} (h : isBlank s = false) : s ≠ "" := by
  rintro rfl
  exact Bool.noConfusion h

def requireId (value : Option String) (fieldName : String) : Except Raised String :=
  match value with
  | none => .error (.valueError (fieldName ++ " must be a non-empty string"))
  | some s => if isBlank s then .error (.valueError (fieldName ++ " must be a non-empty string"))
    else .ok s

theorem requireId_eq_ok {value : Option String} {fieldName s : String} :
    requireId value fieldName = .ok s ↔ value = some s ∧ isBlank s = false := by
  unfold requireId
  cases value with
  | none => simp
  | some t =>
    by_cases h : isBlank t = true
    · simp only [h,if_true,reduceCtorEq,Option.some.injEq,false_iff,not_and]
      rintro rfl
      simp [h]
    · simp only [h,Bool.false_eq_true,if_false,Except.ok.injEq,Option.some.injEq]
      constructor
      · rintro rfl
        exact ⟨rfl,by simpa using h⟩
      · exact fun h => h.1

/-- The `or` of two optional strings: the first one unless it is missing or empty. -/
def orElse (x y : Option String) : Option String :=
  match x with
  | none => y
  | some s => if s = "" then y else some s

/-! ## Events -/

/-- The free-form attributes, by what their readers get from them. A read that can raise, the
conversion of a number or the iteration of a list, is kept as its outcome; an attribute that
is missing raises nothing. -/
structure Attributes where
  persistent : Option Bool := none
  previousContextEpoch : Option (Except Raised ℤ) := none
  mode : String := "all"
  toolFamily : String := "unknown"
  messagesConsumed : Except Raised ℤ := .ok 0
  terminal : Bool := false
  consumerInvocationIds : List String := []
  consumerRelation : String := "broadcast"
  runtimeInternal : Bool := false
  promptTokens : Except Raised ℤ := .ok 0
  cacheHitTokens : Except Raised ℤ := .ok 0
  expectedOutputTokens : Except Raised ℤ := .ok 0
  batchSize : Except Raised ℤ := .ok 1
  contextTokens : Except Raised ℤ := .ok 0
  outputTokens : Except Raised ℤ := .ok 0
  structuredActionKinds : Except Raised (List String) := .ok []
  actionBoundaryTokenIndex : Except Raised ℤ := .ok 0

/-- The fields of an event before it is checked. -/
structure RawEvent where
  eventId : String
  tsMs : ℚ
  kind : RuntimeEventKind
  workflowId : String
  invocationId : Option String := none
  targetInvocationId : Option String := none
  contextId : Option String := none
  parentInvocationId : Option String := none
  parentContextId : Option String := none
  agentDefinitionId : Option String := none
  agentInstanceId : Option String := none
  relationType : Option RelationType := none
  contextMode : Option ContextMode := none
  executionMode : Option ExecutionMode := none
  returnTargetId : Option String := none
  joinId : Option String := none
  memberInvocationIds : List String := []
  contextEpoch : Option ℤ := none
  confidence : EventConfidence := .declaredRuntime
  attributes : Attributes := {}

/-- The checks of the constructor. -/
structure RawEvent.Valid (e : RawEvent) : Prop where
  eventId : isBlank e.eventId = false
  workflowId : isBlank e.workflowId = false
  tsMs : 0 ≤ e.tsMs
  contextEpoch : ∀ n ∈ e.contextEpoch, 0 ≤ n
  members : e.memberInvocationIds.Nodup

instance (e : RawEvent) : Decidable e.Valid :=
  decidable_of_iff (isBlank e.eventId = false ∧ isBlank e.workflowId = false ∧ 0 ≤ e.tsMs ∧
    (∀ n ∈ e.contextEpoch, 0 ≤ n) ∧ e.memberInvocationIds.Nodup)
    ⟨fun ⟨h₁,h₂,h₃,h₄,h₅⟩ => ⟨h₁,h₂,h₃,h₄,h₅⟩,fun ⟨h₁,h₂,h₃,h₄,h₅⟩ => ⟨h₁,h₂,h₃,h₄,h₅⟩⟩

/-- An event that passed the checks of its constructor. -/
structure RuntimeEvent extends RawEvent where
  valid : toRawEvent.Valid

/-- Construct an event, or raise. -/
def RuntimeEvent.make (e : RawEvent) : Except Raised RuntimeEvent :=
  if h₁ : isBlank e.eventId then .error (.valueError "event_id must be a non-empty string")
  else if h₂ : isBlank e.workflowId then
    .error (.valueError "workflow_id must be a non-empty string")
  else if h₃ : e.tsMs < 0 then .error (.valueError "ts_ms must be non-negative")
  else if h₄ : ∃ n ∈ e.contextEpoch, n < 0 then
    .error (.valueError "context_epoch must be non-negative")
  else if h₅ : ¬ e.memberInvocationIds.Nodup then
    .error (.valueError "member_invocation_ids must not contain duplicates")
  else .ok ⟨e,by simpa using h₁,by simpa using h₂,not_lt.mp h₃,
    fun n hn => not_lt.mp fun h => h₄ ⟨n,hn,h⟩,not_not.mp h₅⟩

end BeliefKV
