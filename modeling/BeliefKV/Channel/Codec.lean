import BeliefKV.Channel.Basic
import BeliefKV.Events

/-! How runtime events are written into a message and read from it. -/
namespace BeliefKV

def RuntimeEventKind.value : RuntimeEventKind → String
  | .workflowStart => "workflow_start"
  | .workflowEnd => "workflow_end"
  | .invocationCreate => "invocation_create"
  | .invocationCancel => "invocation_cancel"
  | .contextAdvance => "context_advance"
  | .contextCompact => "context_compact"
  | .call => "call"
  | .spawn => "spawn"
  | .return => "return"
  | .message => "message"
  | .handoff => "handoff"
  | .reactivate => "reactivate"
  | .joinCreate => "join_create"
  | .joinWait => "join_wait"
  | .joinSatisfied => "join_satisfied"
  | .joinTimeout => "join_timeout"
  | .toolStart => "tool_start"
  | .toolEnd => "tool_end"
  | .llmSubmit => "llm_submit"
  | .llmResult => "llm_result"
  | .callCensored => "call_censored"
  | .structuredAction => "structured_action"

def RuntimeEventKind.all : List RuntimeEventKind :=
  [.workflowStart,.workflowEnd,.invocationCreate,.invocationCancel,.contextAdvance,.contextCompact,
    .call,.spawn,.return,.message,.handoff,.reactivate,.joinCreate,.joinWait,.joinSatisfied,
    .joinTimeout,.toolStart,.toolEnd,.llmSubmit,.llmResult,.callCensored,.structuredAction]

def RelationType.value : RelationType → String
  | .root => "root"
  | .call => "call"
  | .spawn => "spawn"
  | .message => "message"
  | .handoff => "handoff"

def RelationType.all : List RelationType := [.root,.call,.spawn,.message,.handoff]

def ContextMode.value : ContextMode → String
  | .fresh => "fresh"
  | .fork => "fork"
  | .resume => "resume"

def ContextMode.all : List ContextMode := [.fresh,.fork,.resume]

def ExecutionMode.value : ExecutionMode → String
  | .foreground => "foreground"
  | .background => "background"

def ExecutionMode.all : List ExecutionMode := [.foreground,.background]

def EventConfidence.value : EventConfidence → String
  | .declaredRuntime => "declared_runtime"
  | .observedExact => "observed_exact"
  | .inferred => "inferred"

def EventConfidence.all : List EventConfidence := [.declaredRuntime,.observedExact,.inferred]

/-- The member of an enumeration with a value. -/
def enumOf {α : Type} (all : List α) (value : α → String) (enumName text : String) : Except Raised α :=
  match all.find? (value · = text) with
  | none => .error (.valueError ("'" ++ text ++ "' is not a valid " ++ enumName))
  | some a => .ok a

def optionalEnum {α : Type} (all : List α) (value : α → String) (enumName : String) :
    Option String → Except Raised (Option α)
  | none => .ok none
  | some text => (enumOf all value enumName text).map some

theorem optionalEnum_value {α : Type} {all : List α} {value : α → String} {enumName : String}
    (h : ∀ a, enumOf all value enumName (value a) = .ok a) (o : Option α) :
    optionalEnum all value enumName (o.map value) = .ok o := by
  cases o with
  | none => rfl
  | some a =>
    rw [Option.map_some,optionalEnum,h]
    rfl

theorem RuntimeEventKind.enumOf_value (k : RuntimeEventKind) :
    enumOf all value "RuntimeEventKind" k.value = .ok k := by cases k <;> rfl

theorem RelationType.enumOf_value (r : RelationType) :
    enumOf all value "RelationType" r.value = .ok r := by cases r <;> rfl

theorem ContextMode.enumOf_value (m : ContextMode) :
    enumOf all value "ContextMode" m.value = .ok m := by cases m <;> rfl

theorem ExecutionMode.enumOf_value (m : ExecutionMode) :
    enumOf all value "ExecutionMode" m.value = .ok m := by cases m <;> rfl

theorem EventConfidence.enumOf_value (c : EventConfidence) :
    enumOf all value "EventConfidence" c.value = .ok c := by cases c <;> rfl

/-- A constructor accepts what it has checked. -/
theorem RuntimeEvent.make_of_valid (e : RuntimeEvent) : RuntimeEvent.make e.toRawEvent = .ok e := by
  obtain ⟨h₁,h₂,h₃,h₄,h₅⟩ := e.valid
  unfold RuntimeEvent.make
  rw [dif_neg (by simp [h₁]),dif_neg (by simp [h₂]),dif_neg (not_lt.mpr h₃),
    dif_neg (by rintro ⟨n,hn,hlt⟩; exact absurd (h₄ n hn) (not_le.mpr hlt)),dif_neg (not_not.mpr h₅)]

namespace Channel
variable {V : Type}

/-- The dictionary of an event. A key that is missing or holds `None` is `none`; `others` are the
keys that the reader does not know, and `V` the values of free-form attributes. -/
structure EventDict (V : Type) where
  eventId : Option String
  tsMs : Option ℚ
  kind : Option String
  workflowId : Option String
  invocationId : Option String := none
  targetInvocationId : Option String := none
  contextId : Option String := none
  targetContextId : Option String := none
  parentInvocationId : Option String := none
  parentContextId : Option String := none
  agentDefinitionId : Option String := none
  agentInstanceId : Option String := none
  relationType : Option String := none
  contextMode : Option String := none
  executionMode : Option String := none
  returnTargetId : Option String := none
  joinId : Option String := none
  memberInvocationIds : List String := []
  contextEpoch : Option ℤ := none
  confidence : Option String := none
  attributes : Dict String V := ∅
  others : Dict String V := ∅

/-- An event with its attributes as they are sent; `read` is what the readers get from them. -/
structure SentEvent (V : Type) (read : Dict String V → Attributes) where
  event : RuntimeEvent
  targetContextId : Option String := none
  values : Dict String V
  attributes_eq : event.attributes = read values

def required {α : Type} (value : Option α) (key : String) : Except Raised α :=
  match value with
  | none => .error (.keyError key)
  | some a => .ok a

variable {read : Dict String V → Attributes}

def SentEvent.toDict (e : SentEvent V read) : EventDict V :=
  { eventId := some e.event.eventId
    tsMs := some e.event.tsMs
    kind := some e.event.kind.value
    workflowId := some e.event.workflowId
    invocationId := e.event.invocationId
    targetInvocationId := e.event.targetInvocationId
    contextId := e.event.contextId
    targetContextId := e.targetContextId
    parentInvocationId := e.event.parentInvocationId
    parentContextId := e.event.parentContextId
    agentDefinitionId := e.event.agentDefinitionId
    agentInstanceId := e.event.agentInstanceId
    relationType := e.event.relationType.map RelationType.value
    contextMode := e.event.contextMode.map ContextMode.value
    executionMode := e.event.executionMode.map ExecutionMode.value
    returnTargetId := e.event.returnTargetId
    joinId := e.event.joinId
    memberInvocationIds := e.event.memberInvocationIds
    contextEpoch := e.event.contextEpoch
    confidence := some e.event.confidence.value
    attributes := e.values }

/-- The fields before the constructor checks them, without the attributes. -/
def EventDict.fields (raw : EventDict V) : Except Raised RawEvent := do
  let eventId ← required raw.eventId "event_id"
  let tsMs ← required raw.tsMs "ts_ms"
  let kind ← enumOf RuntimeEventKind.all RuntimeEventKind.value "RuntimeEventKind"
    (← required raw.kind "kind")
  let workflowId ← required raw.workflowId "workflow_id"
  let relationType ← optionalEnum RelationType.all RelationType.value "RelationType" raw.relationType
  let contextMode ← optionalEnum ContextMode.all ContextMode.value "ContextMode" raw.contextMode
  let executionMode ←
    optionalEnum ExecutionMode.all ExecutionMode.value "ExecutionMode" raw.executionMode
  let confidence ← enumOf EventConfidence.all EventConfidence.value "EventConfidence"
    (raw.confidence.getD EventConfidence.declaredRuntime.value)
  return {
    eventId, tsMs, kind, workflowId, relationType, contextMode, executionMode, confidence
    invocationId := raw.invocationId
    targetInvocationId := raw.targetInvocationId
    contextId := raw.contextId
    parentInvocationId := raw.parentInvocationId
    parentContextId := raw.parentContextId
    agentDefinitionId := raw.agentDefinitionId
    agentInstanceId := raw.agentInstanceId
    returnTargetId := raw.returnTargetId
    joinId := raw.joinId
    memberInvocationIds := raw.memberInvocationIds
    contextEpoch := raw.contextEpoch }

theorem make_eq {e : RawEvent} {event : RuntimeEvent} (h : RuntimeEvent.make e = .ok event) :
    event.toRawEvent = e := by
  unfold RuntimeEvent.make at h
  split_ifs at h
  cases h
  rfl

def construct (fields : RawEvent) (targetContextId : Option String) (values : Dict String V)
    (h : fields.attributes = read values) : Except Raised (SentEvent V read) :=
  match hmake : RuntimeEvent.make fields with
  | .error e => .error e
  | .ok event => .ok ⟨event,targetContextId,values,(congrArg RawEvent.attributes (make_eq hmake)).trans h⟩

/-- Keys that are not known count as attributes. -/
def SentEvent.fromDict (raw : EventDict V) : Except Raised (SentEvent V read) := do
  let fields ← raw.fields
  construct { fields with attributes := read (raw.attributes.overlay raw.others) } raw.targetContextId
    (raw.attributes.overlay raw.others) rfl

theorem construct_of_event (e : SentEvent V read) {fields : RawEvent} {values : Dict String V}
    (h : fields.attributes = read values) (hfields : fields = e.event.toRawEvent) (hvalues : values = e.values) :
    construct fields e.targetContextId values h = .ok e := by
  subst hfields hvalues
  unfold construct
  split
  · next _ hmake =>
    rw [RuntimeEvent.make_of_valid] at hmake
    cases hmake
  · next _ hmake =>
    rw [RuntimeEvent.make_of_valid] at hmake
    cases hmake
    rfl

/-- Without its attributes, an event is written and read as it is. -/
theorem fields_toDict (e : SentEvent V read) :
    e.toDict.fields = .ok { e.event.toRawEvent with attributes := {} } := by
  have hkind := RuntimeEventKind.enumOf_value e.event.kind
  have hconfidence := EventConfidence.enumOf_value e.event.confidence
  have hrelation := optionalEnum_value RelationType.enumOf_value e.event.relationType
  have hcontext := optionalEnum_value ContextMode.enumOf_value e.event.contextMode
  have hexecution := optionalEnum_value ExecutionMode.enumOf_value e.event.executionMode
  simp only [EventDict.fields,SentEvent.toDict,required,Option.getD_some,bind,Except.bind,hkind,
    hconfidence,hrelation,hcontext,hexecution]
  rfl

theorem fromDict_toDict (e : SentEvent V read) : SentEvent.fromDict e.toDict = .ok e := by
  have hvalues : e.toDict.attributes.overlay e.toDict.others = e.values := by
    apply Dict.ext_get
    intro k
    rw [Dict.get_overlay]
    rfl
  have hfields : { e.event.toRawEvent with
      attributes := read (e.toDict.attributes.overlay e.toDict.others) } = e.event.toRawEvent := by
    rw [hvalues,← e.attributes_eq]
  rw [SentEvent.fromDict,fields_toDict]
  exact construct_of_event e rfl hfields hvalues

/-- The codec of runtime events. -/
def runtimeEventCodec (V : Type) (read : Dict String V → Attributes) :
    Codec (SentEvent V read) (EventDict V) where
  toDict := SentEvent.toDict
  fromDict := SentEvent.fromDict
  round_trip := fromDict_toDict

end Channel
end BeliefKV
