import BeliefKV.Graph.Family
import BeliefKV.Channel.Codec
import BeliefKV.Policy.Residency
import BeliefKV.Lib.Load

/-! Snapshots of the causal graph and the planning graph that is rebuilt from one. -/
namespace BeliefKV

def InvocationState.all : List InvocationState :=
  [.created,.ready,.runningLlm,.waitTool,.waitChild,.waitJoin,.waitMessage,.returning,.done,.cancelled]

theorem InvocationState.enumOf_value (s : InvocationState) :
    enumOf all value "InvocationState" s.value = .ok s := by cases s <;> rfl

def JoinMode.value : JoinMode → String
  | .all => "all"
  | .any => "any"

theorem JoinMode.ofValue_value (m : JoinMode) : JoinMode.ofValue m.value = .ok m := by
  cases m <;> rfl

/-- The names under which a snapshot holds its parts. -/
inductive SnapshotKey
  | rccg | graphVersion | workflows | invocations | contexts | joins | communicationEdges
  | startTsMs | endTsMs | invocationIds | workflowId | contextId | agentDefinitionId
  | agentInstanceId | state | createdTsMs | updatedTsMs | parentInvocationId | parentContextId
  | relationType | contextMode | executionMode | returnTargetId | children | blockingChildren
  | pendingMessages | joinId | persistent | confidence | activeToolFamily | activeToolStartMs
  | llmRound | epoch | members | completed | waiters | mode | satisfied | sourceInvocationId
  | targetInvocationId | count | lastTsMs
  deriving DecidableEq

def SnapshotKey.text : SnapshotKey → String
  | .rccg => "rccg"
  | .graphVersion => "graph_version"
  | .workflows => "workflows"
  | .invocations => "invocations"
  | .contexts => "contexts"
  | .joins => "joins"
  | .communicationEdges => "communication_edges"
  | .startTsMs => "start_ts_ms"
  | .endTsMs => "end_ts_ms"
  | .invocationIds => "invocation_ids"
  | .workflowId => "workflow_id"
  | .contextId => "context_id"
  | .agentDefinitionId => "agent_definition_id"
  | .agentInstanceId => "agent_instance_id"
  | .state => "state"
  | .createdTsMs => "created_ts_ms"
  | .updatedTsMs => "updated_ts_ms"
  | .parentInvocationId => "parent_invocation_id"
  | .parentContextId => "parent_context_id"
  | .relationType => "relation_type"
  | .contextMode => "context_mode"
  | .executionMode => "execution_mode"
  | .returnTargetId => "return_target_id"
  | .children => "children"
  | .blockingChildren => "blocking_children"
  | .pendingMessages => "pending_messages"
  | .joinId => "join_id"
  | .persistent => "persistent"
  | .confidence => "confidence"
  | .activeToolFamily => "active_tool_family"
  | .activeToolStartMs => "active_tool_start_ms"
  | .llmRound => "llm_round"
  | .epoch => "epoch"
  | .members => "members"
  | .completed => "completed"
  | .waiters => "waiters"
  | .mode => "mode"
  | .satisfied => "satisfied"
  | .sourceInvocationId => "source_invocation_id"
  | .targetInvocationId => "target_invocation_id"
  | .count => "count"
  | .lastTsMs => "last_ts_ms"

/-- The values a snapshot is made of: a dictionary is a `record` of named parts or a `mapping` of
ids. -/
inductive SnapshotValue
  | null
  | bool (b : Bool)
  | num (q : ℚ)
  | str (s : String)
  | list (items : List SnapshotValue)
  | mapping (entries : List (String × SnapshotValue))
  | record (fields : List (SnapshotKey × SnapshotValue))

abbrev SnapshotFields := List (SnapshotKey × SnapshotValue)

namespace SnapshotValue

/-! ## Writing -/

def optional (s : Option String) : SnapshotValue := s.elim .null .str

def optionalNum (q : Option ℚ) : SnapshotValue := q.elim .null .num

/-- A set is written as the sorted list of its members. -/
def ids (s : Finset String) : SnapshotValue := .list ((Dict.sorted s).map .str)

/-! ## Reading -/

/-- `dict.get`. -/
def get (key : SnapshotKey) : SnapshotFields → Option SnapshotValue
  | [] => none
  | field :: fields => if field.1 = key then some field.2 else get key fields

@[simp] theorem get_nil (key : SnapshotKey) : get key [] = none := rfl

@[simp] theorem get_cons (key k : SnapshotKey) (v : SnapshotValue) (fields : SnapshotFields) :
    get key ((k,v) :: fields) = if k = key then some v else get key fields := rfl

/-- `dict[key]`. -/
def item (key : SnapshotKey) (fields : SnapshotFields) : Except Raised SnapshotValue :=
  match get key fields with
  | none => .error (.keyError key.text)
  | some v => .ok v

variable (repr : SnapshotValue → String)

/-- `str(value)`; `repr` is what it makes of a value that is no text. -/
def text : SnapshotValue → String
  | .str s => s
  | v => repr v

/-- The text of an entry that may be missing or `None`. -/
def optionalText : Option SnapshotValue → Option String
  | none | some .null => none
  | some v => some (text repr v)

/-- `float(value)`. A snapshot has no texts where numbers are read, so texts are not parsed. -/
def float : SnapshotValue → Except Raised ℚ
  | .num q => .ok q
  | .bool b => .ok (if b then 1 else 0)
  | _ => .error (.typeError "float() argument must be a string or a real number")

def optionalFloat : Option SnapshotValue → Except Raised (Option ℚ)
  | none | some .null => .ok none
  | some v => (float v).map some

/-- `int(value)`, which drops the fraction. -/
def int : SnapshotValue → Except Raised ℤ
  | .num q => .ok (q.num.tdiv q.den)
  | .bool b => .ok (if b then 1 else 0)
  | _ => .error (.typeError "int() argument must be a string, a bytes-like object or a real number")

/-- `bool(value)`. -/
def truthy : SnapshotValue → Bool
  | .null => false
  | .bool b => b
  | .num q => q ≠ 0
  | .str s => s ≠ ""
  | .list items => !items.isEmpty
  | .mapping entries => !entries.isEmpty
  | .record fields => !fields.isEmpty

/-- The set of the texts of an iterable entry. -/
def texts : SnapshotValue → Except Raised (Finset String)
  | .list items => .ok (items.map (text repr)).toFinset
  | .mapping entries => .ok (entries.map Prod.fst).toFinset
  | .record fields => .ok (fields.map fun field => field.1.text).toFinset
  | .str s => .ok (s.toList.map String.singleton).toFinset
  | _ => .error (.typeError "object is not iterable")

@[simp] theorem text_str (s : String) : text repr (.str s) = s := rfl

@[simp] theorem float_num (q : ℚ) : float (.num q) = .ok q := rfl

@[simp] theorem int_num (n : ℤ) : int (.num n) = .ok n := by simp [int]

@[simp] theorem int_natCast (n : ℕ) : int (.num n) = .ok (n : ℤ) := by simp [int]

@[simp] theorem truthy_bool (b : Bool) : truthy (.bool b) = b := rfl

@[simp] theorem texts_ids (s : Finset String) : texts repr (ids s) = .ok s := by
  have heq : ((Dict.sorted s).map SnapshotValue.str).map (text repr) = Dict.sorted s := by
    rw [List.map_map]
    exact List.map_id _
  have hset : (Dict.sorted s).toFinset = s := by
    ext k
    simp
  rw [ids,texts,heq,hset]

@[simp] theorem optionalText_optional (s : Option String) :
    optionalText repr (some (optional s)) = s := by
  cases s <;> rfl

@[simp] theorem optionalFloat_optionalNum (q : Option ℚ) :
    optionalFloat (some (optionalNum q)) = .ok q := by
  cases q <;> rfl

end SnapshotValue

theorem ok_bind {α β : Type} (a : α) (f : α → Except Raised β) : ((.ok a : Except Raised α) >>= f) = f a :=
  rfl

/-! ## Records -/

section Records
open SnapshotValue
variable (repr : SnapshotValue → String)

def workflowSnapshot (value : WorkflowRecord) : SnapshotValue := .record
  [(.startTsMs,.num value.startTsMs),(.endTsMs,optionalNum value.endTsMs),
    (.invocationIds,ids value.invocationIds)]

def readWorkflow (entry : String × SnapshotValue) : Except Raised (String × WorkflowRecord) :=
  match entry.2 with
  | .record value => do
    let startTsMs ← item .startTsMs value
    let startTsMs ← float startTsMs
    let endTsMs ← optionalFloat (get .endTsMs value)
    let invocationIds ← texts repr ((get .invocationIds value).getD (.list []))
    .ok (entry.1,{ workflowId := entry.1
                   startTsMs := startTsMs
                   endTsMs := endTsMs
                   invocationIds := invocationIds })
  | _ => .error (.valueError "invalid workflow snapshot")

theorem readWorkflow_snapshot {w : String} {x : WorkflowRecord} (h : x.workflowId = w) :
    readWorkflow repr (w,workflowSnapshot x) = .ok (w,x) := by
  subst h
  simp [readWorkflow,workflowSnapshot,item,ok_bind]

def invocationSnapshot (value : InvocationRecord) : SnapshotValue := .record
  [(.workflowId,.str value.workflowId),
    (.contextId,.str value.contextId),
    (.agentDefinitionId,.str value.agentDefinitionId),
    (.agentInstanceId,.str value.agentInstanceId),
    (.state,.str value.state.value),
    (.createdTsMs,.num value.createdTsMs),
    (.updatedTsMs,.num value.updatedTsMs),
    (.parentInvocationId,optional value.parentInvocationId),
    (.parentContextId,optional value.parentContextId),
    (.relationType,.str value.relationType.value),
    (.contextMode,.str value.contextMode.value),
    (.executionMode,.str value.executionMode.value),
    (.returnTargetId,optional value.returnTargetId),
    (.children,ids value.childInvocationIds),
    (.blockingChildren,ids value.blockingChildIds),
    (.pendingMessages,.num value.pendingMessages),
    (.joinId,optional value.joinId),
    (.persistent,.bool value.persistent),
    (.confidence,.str value.confidence.value),
    (.activeToolFamily,optional value.activeToolFamily),
    (.activeToolStartMs,optionalNum value.activeToolStartMs),
    (.llmRound,.num value.llmRound)]

/-- Counts are not negative, in a snapshot and in the records. -/
def readInvocation (entry : String × SnapshotValue) : Except Raised (String × InvocationRecord) :=
  match entry.2 with
  | .record value => do
    let workflowId ← item .workflowId value
    let contextId ← item .contextId value
    let agentDefinitionId ← item .agentDefinitionId value
    let agentInstanceId ← item .agentInstanceId value
    let state ← item .state value
    let state ← enumOf InvocationState.all InvocationState.value "InvocationState" (text repr state)
    let createdTsMs ← item .createdTsMs value
    let createdTsMs ← float createdTsMs
    let updatedTsMs ← item .updatedTsMs value
    let updatedTsMs ← float updatedTsMs
    let relationType ← enumOf RelationType.all RelationType.value "RelationType"
      (text repr ((get .relationType value).getD (.str "root")))
    let contextMode ← enumOf ContextMode.all ContextMode.value "ContextMode"
      (text repr ((get .contextMode value).getD (.str "fresh")))
    let executionMode ← enumOf ExecutionMode.all ExecutionMode.value "ExecutionMode"
      (text repr ((get .executionMode value).getD (.str "foreground")))
    let pendingMessages ← int ((get .pendingMessages value).getD (.num 0))
    let childInvocationIds ← texts repr ((get .children value).getD (.list []))
    let blockingChildIds ← texts repr ((get .blockingChildren value).getD (.list []))
    let confidence ← enumOf EventConfidence.all EventConfidence.value "EventConfidence"
      (text repr ((get .confidence value).getD (.str "declared_runtime")))
    let activeToolStartMs ← optionalFloat (get .activeToolStartMs value)
    let llmRound ← int ((get .llmRound value).getD (.num 0))
    .ok (entry.1,{ workflowId := text repr workflowId
                   invocationId := entry.1
                   contextId := text repr contextId
                   agentDefinitionId := text repr agentDefinitionId
                   agentInstanceId := text repr agentInstanceId
                   state := state
                   createdTsMs := createdTsMs
                   updatedTsMs := updatedTsMs
                   parentInvocationId := optionalText repr (get .parentInvocationId value)
                   parentContextId := optionalText repr (get .parentContextId value)
                   relationType := relationType
                   contextMode := contextMode
                   executionMode := executionMode
                   returnTargetId := optionalText repr (get .returnTargetId value)
                   joinId := optionalText repr (get .joinId value)
                   persistent := ((get .persistent value).map truthy).getD false
                   pendingMessages := pendingMessages.toNat
                   childInvocationIds := childInvocationIds
                   blockingChildIds := blockingChildIds
                   confidence := confidence
                   activeToolFamily := optionalText repr (get .activeToolFamily value)
                   activeToolStartMs := activeToolStartMs
                   llmRound := llmRound.toNat })
  | _ => .error (.valueError "invalid invocation snapshot")

theorem readInvocation_snapshot {i : String} {r : InvocationRecord} (h : r.invocationId = i) :
    readInvocation repr (i,invocationSnapshot r) = .ok (i,r) := by
  subst h
  simp [readInvocation,invocationSnapshot,item,InvocationState.enumOf_value,RelationType.enumOf_value,ContextMode.enumOf_value,
    ExecutionMode.enumOf_value,EventConfidence.enumOf_value,ok_bind]

def contextSnapshot (value : ContextRecord) : SnapshotValue := .record
  [(.workflowId,.str value.workflowId),
    (.epoch,.num value.epoch),
    (.createdTsMs,.num value.createdTsMs),
    (.updatedTsMs,.num value.updatedTsMs),
    (.parentContextId,optional value.parentContextId),
    (.contextMode,.str value.contextMode.value),
    (.invocationIds,ids value.invocationIds),
    (.persistent,.bool value.persistent)]

def readContext (entry : String × SnapshotValue) : Except Raised (String × ContextRecord) :=
  match entry.2 with
  | .record value => do
    let workflowId ← item .workflowId value
    let epoch ← item .epoch value
    let epoch ← int epoch
    let createdTsMs ← item .createdTsMs value
    let createdTsMs ← float createdTsMs
    let updatedTsMs ← item .updatedTsMs value
    let updatedTsMs ← float updatedTsMs
    let contextMode ← enumOf ContextMode.all ContextMode.value "ContextMode"
      (text repr ((get .contextMode value).getD (.str "fresh")))
    let invocationIds ← texts repr ((get .invocationIds value).getD (.list []))
    .ok (entry.1,{ workflowId := text repr workflowId
                   contextId := entry.1
                   epoch := epoch
                   createdTsMs := createdTsMs
                   updatedTsMs := updatedTsMs
                   parentContextId := optionalText repr (get .parentContextId value)
                   contextMode := contextMode
                   invocationIds := invocationIds
                   persistent := ((get .persistent value).map truthy).getD false })
  | _ => .error (.valueError "invalid context snapshot")

theorem readContext_snapshot {c : String} {x : ContextRecord} (h : x.contextId = c) :
    readContext repr (c,contextSnapshot x) = .ok (c,x) := by
  subst h
  simp [readContext,contextSnapshot,item,ContextMode.enumOf_value,ok_bind]

def joinSnapshot (value : JoinRecord) : SnapshotValue := .record
  [(.members,ids value.memberInvocationIds),
    (.completed,ids value.completedMemberIds),
    (.waiters,ids value.waiterInvocationIds),
    (.mode,.str value.mode.value),
    (.satisfied,.bool value.satisfied)]

/-- The workflows of those of some invocations that are known. -/
def workflowsOf (invocations : Dict String InvocationRecord) (ids : Finset String) : Finset String :=
  ids.biUnion fun id => (invocations[id]?.map InvocationRecord.workflowId).toFinset

/-- The workflow of a join is not stored: it is the only one of its members and waiters. -/
def readJoin (invocations : Dict String InvocationRecord) (entry : String × SnapshotValue) :
    Except Raised (String × JoinRecord) :=
  match entry.2 with
  | .record value => do
    let members ← texts repr ((get .members value).getD (.list []))
    let waiters ← texts repr ((get .waiters value).getD (.list []))
    match Dict.sorted (workflowsOf invocations members ∪ workflowsOf invocations waiters) with
    | [workflowId] =>
      let mode ← JoinMode.ofValue (text repr ((get .mode value).getD (.str "all")))
      let completed ← texts repr ((get .completed value).getD (.list []))
      .ok (entry.1,{ workflowId := workflowId
                     joinId := entry.1
                     memberInvocationIds := members
                     mode := mode
                     waiterInvocationIds := waiters
                     completedMemberIds := completed
                     satisfied := ((get .satisfied value).map truthy).getD false })
    | _ => .error (.valueError "join snapshot must resolve to one workflow")
  | _ => .error (.valueError "invalid join snapshot")

theorem sorted_singleton (w : String) : Dict.sorted {w} = [w] := by
  have hlength : (Dict.sorted ({w} : Finset String)).length = 1 := by rw [Dict.length_sorted]; rfl
  obtain ⟨a,ha⟩ := List.length_eq_one_iff.mp hlength
  have hmem : a ∈ Dict.sorted ({w} : Finset String) := by simp [ha]
  rw [Dict.mem_sorted,Finset.mem_singleton] at hmem
  rw [ha,hmem]

theorem readJoin_snapshot {invocations : Dict String InvocationRecord} {j : String} {q : JoinRecord}
    (h : q.joinId = j) (hworkflow : workflowsOf invocations q.memberInvocationIds ∪
      workflowsOf invocations q.waiterInvocationIds = {q.workflowId}) :
    readJoin repr invocations (j,joinSnapshot q) = .ok (j,q) := by
  subst h
  simp [readJoin,joinSnapshot,ok_bind,hworkflow,sorted_singleton,JoinMode.ofValue_value]

def edgeSnapshot (value : CommunicationEdge) : SnapshotValue := .record
  [(.sourceInvocationId,.str value.sourceInvocationId),
    (.targetInvocationId,.str value.targetInvocationId),
    (.count,.num value.count),
    (.lastTsMs,.num value.lastTsMs)]

def readEdge : SnapshotValue → Except Raised ((String × String) × CommunicationEdge)
  | .record value => do
    let source ← item .sourceInvocationId value
    let target ← item .targetInvocationId value
    let count ← item .count value
    let count ← int count
    let lastTsMs ← item .lastTsMs value
    let lastTsMs ← float lastTsMs
    .ok ((text repr source,text repr target),{ sourceInvocationId := text repr source
                                               targetInvocationId := text repr target
                                               count := count.toNat
                                               lastTsMs := lastTsMs })
  | _ => .error (.valueError "invalid communication edge snapshot")

theorem readEdge_snapshot {k : String × String} {x : CommunicationEdge}
    (h : (x.sourceInvocationId,x.targetInvocationId) = k) :
    readEdge repr (edgeSnapshot x) = .ok (k,x) := by
  subst h
  simp [readEdge,edgeSnapshot,item,ok_bind]

end Records

/-! ## Graphs -/

namespace RuntimeCausalContextGraph
open SnapshotValue

section Codec
variable (g : RuntimeCausalContextGraph) (repr : SnapshotValue → String)

/-- A deterministic snapshot: dictionaries are sorted by their keys. -/
def snapshot : SnapshotFields :=
  [(.graphVersion,.num g.graphVersion),
    (.workflows,.mapping (g.workflows.toList.map fun e => (e.1,workflowSnapshot e.2))),
    (.invocations,.mapping (g.invocations.toList.map fun e => (e.1,invocationSnapshot e.2))),
    (.contexts,.mapping (g.contexts.toList.map fun e => (e.1,contextSnapshot e.2))),
    (.joins,.mapping (g.joins.toList.map fun e => (e.1,joinSnapshot e.2))),
    (.communicationEdges,.list (g.communicationEdges.toList.map fun e => edgeSnapshot e.2))]

/-- The part of a larger snapshot that holds the graph. -/
def graphPart (raw : SnapshotFields) : SnapshotFields :=
  match get .rccg raw with
  | some (.record nested) => nested
  | _ => raw

/-- The entries of a part, which is empty when it is missing. -/
def entriesOf (key : SnapshotKey) (raw : SnapshotFields) :
    Except Raised (List (String × SnapshotValue)) :=
  match (get key raw).getD (.mapping []) with
  | .mapping entries => .ok entries
  | _ => .error (.valueError "invalid RCCG snapshot shape")

def edgesOf (raw : SnapshotFields) : Except Raised (List SnapshotValue) :=
  match (get .communicationEdges raw).getD (.list []) with
  | .list edges => .ok edges
  | _ => .error (.valueError "invalid RCCG snapshot shape")

/-- Rebuild a planning graph. Its dictionaries iterate in the order of the snapshot. -/
def fromSnapshot (raw : SnapshotFields) : Except Raised RuntimeCausalContextGraph := do
  let raw := graphPart raw
  let workflows ← entriesOf .workflows raw
  let invocations ← entriesOf .invocations raw
  let contexts ← entriesOf .contexts raw
  let joins ← entriesOf .joins raw
  let edges ← edgesOf raw
  let workflowRecords ← Dict.load (readWorkflow repr) workflows ∅
  let invocationRecords ← Dict.load (readInvocation repr) invocations ∅
  let contextRecords ← Dict.load (readContext repr) contexts ∅
  let joinRecords ← Dict.load (readJoin repr invocationRecords) joins ∅
  let communicationEdges ← Dict.load (readEdge repr) edges ∅
  let graphVersion ← int ((get .graphVersion raw).getD (.num 0))
  .ok
    { workflows := workflowRecords
      invocations := invocationRecords
      invocationOrder := invocations.map Prod.fst
      contexts := contextRecords
      joins := joinRecords
      joinOrder := joins.map Prod.fst
      communicationEdges := communicationEdges
      graphVersion := graphVersion.toNat
      strictTimestamps := false }

def readyInvocations (workflowId : Option String) : List InvocationRecord :=
  g.invocationOrder.filterMap fun id => g.invocations[id]?.filter fun r =>
    r.state = .ready ∧ (workflowId = none ∨ workflowId = some r.workflowId)

end Codec

/-! ## What a snapshot relies on -/

variable {g g' : RuntimeCausalContextGraph} {e : RuntimeEvent} {i k : String}
  {r : InvocationRecord}

/-- A join has members, and they and its waiters are known in its workflow. -/
structure Seated (g : RuntimeCausalContextGraph) (q : JoinRecord) : Prop where
  members : q.memberInvocationIds ≠ ∅
  known : ∀ k, k ∈ q.memberInvocationIds ∨ k ∈ q.waiterInvocationIds → g.KnownIn q.workflowId k

/-- Records are stored under their ids, joins resolve to their workflow, and the insertion order
lists exactly the invocations. -/
structure Tidy (g : RuntimeCausalContextGraph) : Prop where
  workflows : ∀ (w : String) (x : WorkflowRecord), g.workflows[w]? = some x → x.workflowId = w
  invocations : ∀ (i : String) (r : InvocationRecord), g.invocations[i]? = some r → r.invocationId = i
  contexts : ∀ (c : String) (x : ContextRecord), g.contexts[c]? = some x → x.contextId = c
  joins : ∀ (j : String) (q : JoinRecord), g.joins[j]? = some q → q.joinId = j ∧ g.Seated q
  edges : ∀ (k : String × String) (x : CommunicationEdge), g.communicationEdges[k]? = some x →
    (x.sourceInvocationId,x.targetInvocationId) = k
  order_mem : ∀ k : String, k ∈ g.invocationOrder ↔ k ∈ g.invocations
  order_nodup : g.invocationOrder.Nodup

theorem start_tidy (strict : Bool) : (start strict).Tidy := by
  constructor <;> simp [start]

/-- Known invocations stay known in their workflow. -/
theorem Write.known (hw : Write g g') {w : String} (hk : g.KnownIn w k) : g'.KnownIn w k := by
  obtain ⟨q,hq,hqw⟩ := hk
  cases hw with
  | edit ids f hf =>
    simp only [KnownIn,editInvocations,Dict.get_updateAll,hq]
    split_ifs with hmem
    · exact ⟨f q,rfl,(hf k hmem q hq).workflowId.trans hqw⟩
    · exact ⟨q,rfl,hqw⟩
  | enter r x y hr =>
    refine ⟨q,?_,hqw⟩
    simp only [RuntimeCausalContextGraph.enter,Dict.get_insert]
    rw [if_neg,hq]
    rintro rfl
    exact hr.fresh (mem_of_get hq)
  | link e p c mode hl =>
    obtain ⟨f,hf,hlinked⟩ := get_linked (e := e) mode hl k
    exact ⟨f q,by rw [hf,hq]; rfl,(hlinked q).workflowId.trans hqw⟩
  | _ => exact ⟨q,hq,hqw⟩

theorem Seated.write {q : JoinRecord} (hq : g.Seated q) (hw : Write g g') : g'.Seated q :=
  ⟨hq.members,fun k hk => hw.known (hq.known k hk)⟩

theorem linkedParent_id (c : String) (mode : ExecutionMode) :
    (linkedParent e c mode r).invocationId = r.invocationId := by
  unfold linkedParent
  dsimp only
  split_ifs <;> rfl

/-- Updates in place keep the ids. -/
theorem Tidy.of_ids (hg : g.Tidy) (hw : Write g g') {f : String → InvocationRecord → InvocationRecord}
    (hinv : ∀ k : String, g'.invocations[k]? = g.invocations[k]?.map (f k))
    (hf : ∀ k r, g.invocations[k]? = some r → (f k r).invocationId = r.invocationId)
    (hwf : g'.workflows = g.workflows) (hctx : g'.contexts = g.contexts)
    (hjoins : g'.joins = g.joins) (hedges : g'.communicationEdges = g.communicationEdges)
    (horder : g'.invocationOrder = g.invocationOrder) : g'.Tidy where
  workflows := hwf ▸ hg.workflows
  invocations i r' hr' := by
    rw [hinv] at hr'
    obtain ⟨r,hr,rfl⟩ := Option.map_eq_some_iff.mp hr'
    rw [hf i r hr,hg.invocations i r hr]
  contexts := hctx ▸ hg.contexts
  joins j q hq := by
    rw [hjoins] at hq
    exact (hg.joins j q hq).imp_right fun hseat => hseat.write hw
  edges := hedges ▸ hg.edges
  order_mem k := by
    rw [horder,hg.order_mem,Dict.mem_iff_get,Dict.mem_iff_get,hinv]
    cases g.invocations[k]? <;> simp
  order_nodup := horder ▸ hg.order_nodup

/-- A keyed dictionary stays keyed when a keyed record is put in. -/
theorem keyed_insert {K V : Type} [Ord K] [Std.TransOrd K] [Std.LawfulEqOrd K] [DecidableEq K]
    {d : Dict K V} {P : K → V → Prop} (hd : ∀ (k : K) (v : V), d[k]? = some v → P k v) {k : K} {v : V}
    (hv : P k v) (a : K) (b : V) (hb : (d.insert k v)[a]? = some b) : P a b := by
  rw [Dict.get_insert] at hb
  split_ifs at hb with ha
  · subst ha
    cases hb
    exact hv
  · exact hd a b hb

theorem messageEdge_ids (hg : g.Tidy) (s t : String) :
    ((g.messageEdge e s t).sourceInvocationId,(g.messageEdge e s t).targetInvocationId) = (s,t) := by
  unfold messageEdge
  cases hx : g.communicationEdges[(s,t)]? with
  | none => rfl
  | some x => exact hg.edges (s,t) x hx

theorem Tidy.write (hg : g.Tidy) (hw : Write g g') : g'.Tidy := by
  have hseat (q : JoinRecord) (h : g.Seated q) : g'.Seated q := h.write hw
  have hjoins (j : String) (q : JoinRecord) (hq : g.joins[j]? = some q) :
      q.joinId = j ∧ g'.Seated q := (hg.joins j q hq).imp_right (hseat q)
  cases hw' : hw with
  | edit ids f hf =>
    refine hg.of_ids hw (f := fun k r => if k ∈ ids then f r else r) (fun k => ?_) (fun k r hr => ?_)
      rfl rfl rfl rfl rfl
    · simp only [editInvocations,Dict.get_updateAll]
      split_ifs <;> simp
    · split_ifs with hk
      · exact (hf k hk r hr).invocationId
      · rfl
  | touch c x y hx hy =>
    refine ⟨hg.workflows,hg.invocations,keyed_insert hg.contexts ?_,hjoins,hg.edges,hg.order_mem,
      hg.order_nodup⟩
    exact hy.contextId.trans (hg.contexts c x hx)
  | start x hnew =>
    exact ⟨keyed_insert hg.workflows rfl,hg.invocations,hg.contexts,hjoins,hg.edges,hg.order_mem,
      hg.order_nodup⟩
  | close w x y hx hid hsame =>
    exact ⟨keyed_insert hg.workflows (hid.trans (hg.workflows w x hx)),hg.invocations,hg.contexts,
      hjoins,hg.edges,hg.order_mem,hg.order_nodup⟩
  | enter r x y hr =>
    refine ⟨keyed_insert hg.workflows (hg.workflows _ x hr.workflow),keyed_insert hg.invocations rfl,
      keyed_insert hg.contexts ?_,hjoins,hg.edges,fun k => ?_,?_⟩
    · cases hc : g.contexts[r.contextId]? with
      | none => exact hr.opened hc
      | some c => exact (hr.context c hc).contextId.trans (hg.contexts _ c hc)
    · simp only [RuntimeCausalContextGraph.enter,List.mem_append,List.mem_singleton,
        Dict.mem_insert_iff,hg.order_mem]
      exact or_comm
    · refine List.nodup_append.mpr ⟨hg.order_nodup,List.nodup_singleton _,?_⟩
      rintro a ha b hb rfl
      rw [List.mem_singleton] at hb
      exact hr.fresh (hb ▸ (hg.order_mem a).mp ha)
  | link e p c mode hl =>
    refine hg.of_ids hw (f := fun k r => if k = p.invocationId then
      linkedParent e c.invocationId mode r else if k = c.invocationId then linkedChild e p mode r
      else r) (fun k => ?_) (fun k r hr => ?_) rfl rfl rfl rfl rfl
    · simp only [editInvocations,Dict.get_updateAll,Finset.mem_singleton]
      by_cases hkp : k = p.invocationId
      · simp [hkp,hl.ne]
      · by_cases hkc : k = c.invocationId
        · simp [hkc,Ne.symm hl.ne]
        · simp [hkp,hkc]
    · split_ifs
      · exact linkedParent_id _ _
      · rfl
      · rfl
  | message e s t =>
    exact ⟨hg.workflows,hg.invocations,hg.contexts,hjoins,keyed_insert hg.edges (messageEdge_ids hg s t),
      hg.order_mem,hg.order_nodup⟩
  | plan q hq =>
    refine ⟨hg.workflows,hg.invocations,hg.contexts,keyed_insert hjoins ⟨rfl,hseat q ⟨hq.members,?_⟩⟩,
      hg.edges,hg.order_mem,hg.order_nodup⟩
    rintro k (hk | hk)
    · exact hq.known k hk
    · simp [hq.waiters] at hk
  | rejoin j q q' hq hkept =>
    obtain ⟨hid,hold⟩ := hg.joins j q hq
    refine ⟨hg.workflows,hg.invocations,hg.contexts,keyed_insert hjoins ⟨hkept.joinId.trans hid,
      hseat q' ⟨hkept.members ▸ hold.members,?_⟩⟩,hg.edges,hg.order_mem,hg.order_nodup⟩
    rw [hkept.workflowId,hkept.members]
    rintro k (hk | hk)
    · exact hold.known k (.inl hk)
    · rcases hkept.waiters k hk with hk | hk
      · exact hold.known k (.inr hk)
      · exact hk
  | commit e => exact ⟨hg.workflows,hg.invocations,hg.contexts,hjoins,hg.edges,hg.order_mem,hg.order_nodup⟩

theorem run_tidy (strict : Bool) (events : List RuntimeEvent) : ((start strict).run events).Tidy :=
  run_of_writes (fun _ _ hg hw => hg.write hw) strict (start_tidy strict) events

/-! ## The round trip -/

/-- The graph that a snapshot of `g` is rebuilt to. -/
def rebuilt (g : RuntimeCausalContextGraph) : RuntimeCausalContextGraph :=
  { workflows := g.workflows
    invocations := g.invocations
    invocationOrder := g.invocations.keys
    contexts := g.contexts
    joins := g.joins
    joinOrder := g.joins.keys
    communicationEdges := g.communicationEdges
    graphVersion := g.graphVersion
    strictTimestamps := false }

/-- The members and waiters of a join resolve to its workflow. -/
theorem Seated.workflowsOf {q : JoinRecord} (hq : g.Seated q) :
    workflowsOf g.invocations q.memberInvocationIds ∪
      workflowsOf g.invocations q.waiterInvocationIds = {q.workflowId} := by
  have hone (k : String) (hk : k ∈ q.memberInvocationIds ∨ k ∈ q.waiterInvocationIds) :
      (g.invocations[k]?.map InvocationRecord.workflowId).toFinset = {q.workflowId} := by
    obtain ⟨z,hz,hw⟩ := hq.known k hk
    simp [hz,hw]
  ext w
  simp only [BeliefKV.workflowsOf,Finset.mem_union,Finset.mem_biUnion,Finset.mem_singleton]
  constructor
  · rintro (⟨k,hk,hw⟩ | ⟨k,hk,hw⟩)
    · rw [hone k (.inl hk)] at hw
      exact Finset.mem_singleton.mp hw
    · rw [hone k (.inr hk)] at hw
      exact Finset.mem_singleton.mp hw
  · rintro rfl
    obtain ⟨k,hk⟩ := Finset.nonempty_iff_ne_empty.mpr hq.members
    exact .inl ⟨k,hk,by rw [hone k (.inl hk)]; exact Finset.mem_singleton_self _⟩

/-- A tidy graph is rebuilt from its snapshot. -/
theorem Tidy.fromSnapshot (hg : g.Tidy) (repr : SnapshotValue → String) :
    RuntimeCausalContextGraph.fromSnapshot repr g.snapshot = .ok g.rebuilt := by
  have hw := Dict.load_toList g.workflows (fun e => (e.1,workflowSnapshot e.2))
    fun k x hx => readWorkflow_snapshot repr (hg.workflows k x hx)
  have hi := Dict.load_toList g.invocations (fun e => (e.1,invocationSnapshot e.2))
    fun k x hx => readInvocation_snapshot repr (hg.invocations k x hx)
  have hc := Dict.load_toList g.contexts (fun e => (e.1,contextSnapshot e.2))
    fun k x hx => readContext_snapshot repr (hg.contexts k x hx)
  have hj := Dict.load_toList g.joins (fun e => (e.1,joinSnapshot e.2))
    fun k x hx => readJoin_snapshot repr (hg.joins k x hx).1 (hg.joins k x hx).2.workflowsOf
  have he := Dict.load_toList g.communicationEdges (fun e => edgeSnapshot e.2)
    fun k x hx => readEdge_snapshot repr (hg.edges k x hx)
  simp [RuntimeCausalContextGraph.fromSnapshot,graphPart,entriesOf,edgesOf,snapshot,rebuilt,ok_bind,
    hw,hi,hc,hj,he]
  exact ⟨Std.ExtTreeMap.map_fst_toList_eq_keys,Std.ExtTreeMap.map_fst_toList_eq_keys⟩

theorem rebuilt_ancestorsFrom (fuel : ℕ) (r : InvocationRecord) (seen : Finset String) :
    g.rebuilt.ancestorsFrom fuel r seen = g.ancestorsFrom fuel r seen := by
  induction fuel generalizing r seen with
  | zero => rfl
  | succ fuel ih =>
    simp only [ancestorsFrom,ih]
    rfl

/-- Both orders list the invocations. -/
theorem Tidy.readyInvocations (hg : g.Tidy) (w : Option String) :
    (g.rebuilt.readyInvocations w).Perm (g.readyInvocations w) := by
  have hkeys : g.rebuilt.invocationOrder.Perm g.invocationOrder := by
    refine (List.perm_ext_iff_of_nodup Std.ExtTreeMap.nodup_keys hg.order_nodup).mpr fun k => ?_
    rw [hg.order_mem]
    exact Std.ExtTreeMap.mem_keys
  exact hkeys.filterMap _

/-- The walks down meet the same invocations, whatever the orders of the sets are. -/
theorem Family.activeDescendants_perm (hg : g.Family) (hwf : g.WellFormed) (order order' : SetOrder)
    (hr : g.invocations[i]? = some r) : ∃ rs rs', g.activeDescendants order i = .ok rs ∧
      g.activeDescendants order' i = .ok rs' ∧ rs'.Perm rs := by
  obtain ⟨rs,hrs,hnodup,hmem⟩ := activeDescendants_spec hg order hr
  obtain ⟨rs',hrs',hnodup',hmem'⟩ := activeDescendants_spec hg order' hr
  refine ⟨rs,rs',hrs,hrs',(List.perm_ext_iff_of_nodup (hnodup' hwf) (hnodup hwf)).mpr fun q => ?_⟩
  rw [hmem,hmem']

/-- What the planners read from a rebuilt graph is what they would read from the graph itself; only
the order of the two lists that come from an unordered or an insertion-ordered walk may differ. -/
structure ReadsAlike (g g' : RuntimeCausalContextGraph) : Prop where
  snapshot : g'.snapshot = g.snapshot
  lease : ∀ c, g'.lease c = g.lease c
  context : ∀ c nowMs, g'.assessContext c nowMs = g.assessContext c nowMs
  page : ∀ page nowMs, g'.assessPage page nowMs = g.assessPage page nowMs
  ancestors : ∀ i, g'.ancestors i = g.ancestors i
  activeDescendants : ∀ (order order' : SetOrder) (i : String) (r : InvocationRecord),
    g.invocations[i]? = some r → ∃ rs rs', g.activeDescendants order i = .ok rs ∧
      g'.activeDescendants order' i = .ok rs' ∧ rs'.Perm rs
  readyInvocations : ∀ w, (g'.readyInvocations w).Perm (g.readyInvocations w)

/-- The snapshot of every reachable graph is read back, and what is rebuilt reads alike. -/
theorem snapshot_round_trip (repr : SnapshotValue → String) (strict : Bool)
    (events : List RuntimeEvent) : ∃ g',
      fromSnapshot repr ((start strict).run events).snapshot = .ok g' ∧
        ReadsAlike ((start strict).run events) g' := by
  have htidy := run_tidy strict events
  have hfamily := run_family strict events
  refine ⟨_,htidy.fromSnapshot repr,⟨rfl,fun _ => rfl,fun _ _ => rfl,fun _ _ => rfl,fun i => ?_,?_,?_⟩⟩
  · simp only [ancestors,rebuilt_ancestorsFrom]
    rfl
  · intro order order' i r hr
    exact hfamily.activeDescendants_perm (run_wellFormed strict events) order order' hr
  · exact htidy.readyInvocations

/-- Two invocations, the second of which comes first in the order of ids. -/
def lateFirst : List RuntimeEvent := sampleStart.take 1 ++ (sampleStart.drop 2).reverse

/-- The rebuilt graph lists the ready invocations by their ids, not in the order they came. -/
theorem rebuilt_reorders_ready : ∃ g',
    fromSnapshot (fun _ => "") ((start true).run lateFirst).snapshot = .ok g' ∧
      (((start true).run lateFirst).readyInvocations none).map (·.invocationId) = ["c","b"] ∧
        (g'.readyInvocations none).map (·.invocationId) = ["b","c"] ∧
          g'.readyInvocations none ≠ ((start true).run lateFirst).readyInvocations none := by
  have hbefore : (((start true).run lateFirst).readyInvocations none).map (·.invocationId) =
      ["c","b"] := by
    decide +kernel
  have hafter : (((start true).run lateFirst).rebuilt.readyInvocations none).map (·.invocationId) =
      ["b","c"] := by
    decide +kernel
  refine ⟨_,(run_tidy true lateFirst).fromSnapshot _,hbefore,hafter,fun heq => ?_⟩
  rw [heq,hbefore] at hafter
  simp at hafter

end RuntimeCausalContextGraph
end BeliefKV
