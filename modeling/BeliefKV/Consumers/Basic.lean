import BeliefKV.Graph.Handlers

/-! The index of observed data consumers, which derives its edges from the events and from
the causal graph as it is when the index looks. -/
namespace BeliefKV

/-- Relations in the order of their values. -/
inductive ConsumerRelation
  | broadcast
  | handoff
  | message
  | return
  | workspace
  deriving DecidableEq, Repr

namespace ConsumerRelation

def rank : ConsumerRelation → ℕ
  | .broadcast => 0
  | .handoff => 1
  | .message => 2
  | .return => 3
  | .workspace => 4

instance : Ord ConsumerRelation := ⟨compareOn rank⟩

instance : Std.TransOrd ConsumerRelation := inferInstanceAs (Std.TransCmp (compareOn rank))

instance : Std.LawfulEqOrd ConsumerRelation where
  eq_of_compare {a b} h := by
    revert h
    cases a <;> cases b <;> decide

/-- The relation with the given value; an unknown value means a broadcast. -/
def ofValue (value : String) : ConsumerRelation :=
  if value = "return" then .return
  else if value = "message" then .message
  else if value = "workspace" then .workspace
  else if value = "handoff" then .handoff
  else .broadcast

end ConsumerRelation

/-- Producer, consumer and relation. -/
abbrev ConsumerKey := String × String × ConsumerRelation

instance : Std.TransOrd ConsumerKey := inferInstance

structure ConsumerEdge where
  producerInvocationId : String
  consumerInvocationId : String
  relation : ConsumerRelation
  confidence : ℚ
  lastObservedTsMs : ℚ
  workflowId : String
  observationCount : ℕ := 1

structure ConsumerIndexDelta where
  eventId : String
  changedEdges : List ConsumerEdge := []
  reactivatedInvocationIds : Finset String := ∅
  indexVersion : ℕ := 0

structure ObservedDataConsumerIndex where
  edges : Dict ConsumerKey ConsumerEdge := ∅
  processedEventIds : Finset String := ∅
  deltaByEventId : Dict String ConsumerIndexDelta := ∅
  version : ℕ := 0

def confidenceOf : EventConfidence → ℚ
  | .observedExact => 1
  | .declaredRuntime => 9 / 10
  | .inferred => 1 / 2

namespace ObservedDataConsumerIndex
variable (graph : RuntimeCausalContextGraph) (index : ObservedDataConsumerIndex)

/-- The consumer the kind of the event names. -/
def namedConsumer (event : RuntimeEvent) : Option (String × ConsumerRelation) :=
  match event.kind with
  | .message => event.targetInvocationId.map fun target => (target,.message)
  | .handoff => event.targetInvocationId.map fun target => (target,.handoff)
  | .return =>
    let target := orElse event.returnTargetId
      (event.invocationId.bind fun id => graph.invocations[id]?.bind (·.returnTargetId))
    if target = event.invocationId then none else target.map fun target => (target,.return)
  | _ => none

/-- The consumers the attributes name, as far as the graph knows them. -/
def explicitConsumers (event : RuntimeEvent) : List (String × ConsumerRelation) :=
  let relation := ConsumerRelation.ofValue event.attributes.consumerRelation
  (event.attributes.consumerInvocationIds.filter fun consumer =>
    some consumer ≠ event.invocationId ∧ consumer ∈ graph.invocations).map fun consumer =>
      (consumer,relation)

/-- The observations of an event, each once and sorted. -/
def observations (event : RuntimeEvent) : List ConsumerKey :=
  match event.invocationId with
  | none => []
  | some producer =>
    let named := (namedConsumer graph event).toList ++ explicitConsumers graph event
    (named.foldl (fun (keys : Dict ConsumerKey Unit) consumer =>
      keys.insert (producer,consumer) ()) ∅).keys

/-- The edge of one more observation, and the checks it has to pass. -/
def observedEdge (event : RuntimeEvent) (key : ConsumerKey) : Except Raised ConsumerEdge := do
  let known := graph.invocations[key.1]?.isSome ∧ graph.invocations[key.2.1]?.isSome
  ensure known (.valueError "consumer edge refers to an unknown invocation")
  ensure (graph.invocations[key.1]?.all (·.workflowId = event.workflowId) ∧
    graph.invocations[key.2.1]?.all (·.workflowId = event.workflowId))
    (.valueError "consumer edge cannot cross root workflows")
  match index.edges[key]? with
  | none =>
    ensure (key.1 ≠ "" ∧ key.2.1 ≠ "")
      (.valueError "consumer edge invocation IDs must be non-empty")
    ensure (key.1 ≠ key.2.1) (.valueError "a producer cannot consume its own output")
    .ok
      { producerInvocationId := key.1
        consumerInvocationId := key.2.1
        relation := key.2.2
        confidence := confidenceOf event.confidence
        lastObservedTsMs := event.tsMs
        workflowId := event.workflowId }
  | some previous =>
    ensure (previous.lastObservedTsMs ≤ event.tsMs)
      (.valueError "consumer observations must be timestamp-monotonic")
    .ok { previous with
      confidence := max previous.confidence (confidenceOf event.confidence)
      lastObservedTsMs := event.tsMs
      observationCount := previous.observationCount + 1 }

/-- Record the observations one after another; the first that raises leaves the others in. -/
def observeAll (event : RuntimeEvent) : ObservedDataConsumerIndex → List ConsumerKey →
    ObservedDataConsumerIndex × Except Raised (List ConsumerEdge)
  | index, [] => (index,.ok [])
  | index, key :: keys =>
    match observedEdge graph index event key with
    | .error e => (index,.error e)
    | .ok edge =>
      let rest := observeAll event { index with edges := index.edges.insert key edge } keys
      (rest.1,rest.2.map (edge :: ·))

def reactivated (event : RuntimeEvent) : Finset String :=
  if event.kind = .reactivate then event.invocationId.toFinset else ∅

/-- The bookkeeping after all observations were recorded. -/
def commit (event : RuntimeEvent) (changed : List ConsumerEdge) : ObservedDataConsumerIndex :=
  let version := if changed ≠ [] ∨ reactivated event ≠ ∅ then index.version + 1 else index.version
  { index with
    processedEventIds := insert event.eventId index.processedEventIds
    version := version
    deltaByEventId := index.deltaByEventId.insert event.eventId
      ⟨event.eventId,changed,reactivated event,version⟩ }

/-- The index after the call, also when it raises, and what the call returns. -/
def apply (event : RuntimeEvent) :
    ObservedDataConsumerIndex × Except Raised ConsumerIndexDelta :=
  if event.eventId ∈ index.processedEventIds then
    (index,.ok { eventId := event.eventId, indexVersion := index.version })
  else
    match observeAll graph event index (observations graph event) with
    | (index',.error e) => (index',.error e)
    | (index',.ok changed) =>
      let committed := index'.commit event changed
      (committed,.ok ⟨event.eventId,changed,reactivated event,committed.version⟩)

def applyAll : ObservedDataConsumerIndex → List RuntimeEvent →
    ObservedDataConsumerIndex × Except Raised (List ConsumerIndexDelta)
  | index, [] => (index,.ok [])
  | index, event :: events =>
    match index.apply graph event with
    | (index',.error e) => (index',.error e)
    | (index',.ok delta) =>
      let rest := applyAll index' events
      (rest.1,rest.2.map (delta :: ·))

/-- A batch; the atomic one restores the index when an event raises. -/
def applyBatch (events : List RuntimeEvent) (atomic : Bool) :
    ObservedDataConsumerIndex × Except Raised (List ConsumerIndexDelta) :=
  match index.applyAll graph events with
  | (index',.ok deltas) => (index',.ok deltas)
  | (index',.error e) => (if atomic then index else index',.error e)

end ObservedDataConsumerIndex
end BeliefKV
