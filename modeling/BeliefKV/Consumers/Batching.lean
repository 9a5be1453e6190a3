import BeliefKV.Consumers.Ingestion

/-! Does it matter how a stream of events is cut into batches? The index reads the graph at
the end of the batch, so it does exactly for the events that name other consumers there. -/
namespace BeliefKV
open RuntimeCausalContextGraph ObservedDataConsumerIndex Run

namespace ObservedDataConsumerIndex
variable {graph : RuntimeCausalContextGraph} {index index' : ObservedDataConsumerIndex}
  {event : RuntimeEvent} {events : List RuntimeEvent}

/-- How often an edge was observed. -/
def tally (index : ObservedDataConsumerIndex) (key : ConsumerKey) : ℕ :=
  (index.edges[key]?.map ConsumerEdge.observationCount).getD 0

theorem absorb_tally (keys : List ConsumerKey) (key : ConsumerKey) :
    (index.absorb event keys).tally key = index.tally key + if key ∈ keys then 1 else 0 := by
  change ((index.record event keys).edges[key]?.map ConsumerEdge.observationCount).getD 0 = _
  rw [record_edges]
  by_cases hk : key ∈ keys
  · simp only [if_pos hk,tally,nextEdge]
    cases index.edges[key]? with
    | none => rfl
    | some previous => rfl
  · simp only [if_neg hk]
    rfl

theorem apply_tally (hok : (index.apply graph event).2.isOk = true) (key : ConsumerKey) :
    (index.apply graph event).1.tally key = index.tally key +
      if event.eventId ∉ index.processedEventIds ∧ key ∈ observations graph event then 1 else 0 := by
  by_cases hold : event.eventId ∈ index.processedEventIds
  · simp [(apply_of_processed hold).1,hold]
  · rw [(apply_of_passes hold (passes_of_apply hold hok)).1,absorb_tally]
    simp [hold]

theorem applyAll_processedEventIds (hok : (index.applyAll graph events).2.isOk = true) :
    (index.applyAll graph events).1.processedEventIds =
      index.processedEventIds ∪ (events.map (·.eventId)).toFinset := by
  induction events generalizing index with
  | nil => simp [applyAll]
  | cons event events ih =>
    obtain ⟨hhead,htail⟩ := applyAll_cons_isOk.mp hok
    rw [applyAll_cons_index hhead,ih htail,apply_processedEventIds hhead]
    ext id
    simp only [Finset.mem_union,Finset.mem_insert,List.map_cons,List.toFinset_cons]
    tauto

/-- Under one graph, the same events add the same tallies to any two indexes that have
processed the same events. -/
theorem applyAll_tally (hok : (index.applyAll graph events).2.isOk = true)
    (hok' : (index'.applyAll graph events).2.isOk = true)
    (hprocessed : index.processedEventIds = index'.processedEventIds) (key : ConsumerKey) :
    (index.applyAll graph events).1.tally key + index'.tally key =
      (index'.applyAll graph events).1.tally key + index.tally key := by
  induction events generalizing index index' with
  | nil => exact Nat.add_comm _ _
  | cons event events ih =>
    obtain ⟨hhead,htail⟩ := applyAll_cons_isOk.mp hok
    obtain ⟨hhead',htail'⟩ := applyAll_cons_isOk.mp hok'
    rw [applyAll_cons_index hhead,applyAll_cons_index hhead']
    have hrest := ih htail htail' (by
      rw [apply_processedEventIds hhead,apply_processedEventIds hhead',hprocessed])
    rw [apply_tally hhead,apply_tally hhead',hprocessed] at hrest
    omega

/-- So equal edges in the end come from equal tallies in the beginning. -/
theorem tally_eq_of_edges_eq {graph' : RuntimeCausalContextGraph} {rest : List RuntimeEvent}
    (hprocessed : index.processedEventIds = index'.processedEventIds)
    (hok : (index.applyAll graph events).2.isOk = true)
    (hok' : (index'.applyAll graph events).2.isOk = true)
    (hrest : ((index.applyAll graph events).1.applyAll graph' rest).2.isOk = true)
    (hrest' : ((index'.applyAll graph events).1.applyAll graph' rest).2.isOk = true)
    (hedges : ((index.applyAll graph events).1.applyAll graph' rest).1.edges =
      ((index'.applyAll graph events).1.applyAll graph' rest).1.edges) (key : ConsumerKey) :
    index.tally key = index'.tally key := by
  have hfirst := applyAll_tally hok hok' hprocessed key
  have hsecond := applyAll_tally hrest hrest' (by
    rw [applyAll_processedEventIds hok,applyAll_processedEventIds hok',hprocessed]) key
  have hend : ((index.applyAll graph events).1.applyAll graph' rest).1.tally key =
      ((index'.applyAll graph events).1.applyAll graph' rest).1.tally key := by
    unfold tally
    rw [hedges]
  omega

/-- Observations with the same members are the same list. -/
theorem observations_ext {g g' : RuntimeCausalContextGraph} {e : RuntimeEvent}
    (h : ∀ key, key ∈ observations g e ↔ key ∈ observations g' e) :
    observations g e = observations g' e := by
  unfold observations at h ⊢
  split at h
  · rfl
  · exact congrArg Std.ExtTreeMap.keys (Dict.ext_keys h)

end ObservedDataConsumerIndex

namespace Ingestion
variable {s t : Ingestion} {e : RuntimeEvent} {events batch : List RuntimeEvent}

/-- However the events are cut into batches, all of them are taken, with one result. -/
def CutInvariant (s : Ingestion) (events : List RuntimeEvent) : Prop :=
  ∀ cuts cuts' : List (List RuntimeEvent), cuts.flatten = events → cuts'.flatten = events →
    ∃ t t', s.feed cuts = (t,.ok ()) ∧ s.feed cuts' = (t',.ok ()) ∧ t.graph = t'.graph ∧
      t.consumers.edges = t'.consumers.edges ∧ t.consumers.version = t'.consumers.version

/-! ## Events that name their consumers for good -/

/-- Every new event names the same consumers when it is applied and at the end of any later
prefix, and each of them is another invocation of its workflow. -/
def Foreseen (g : RuntimeCausalContextGraph) : List RuntimeEvent → Prop
  | [] => True
  | e :: events =>
    (¬ g.Processed e → (∀ key ∈ observations (g.step e) e, Linkable (g.step e) e key) ∧
      ∀ later ∈ events.inits,
        observations ((g.step e).run later) e = observations (g.step e) e) ∧
    Foreseen (g.step e) events

instance Foreseen.decidable : ∀ (g : RuntimeCausalContextGraph) (events : List RuntimeEvent),
    Decidable (Foreseen g events)
  | _, [] => isTrue trivial
  | g, e :: events =>
    have := Foreseen.decidable (g.step e) events
    inferInstanceAs (Decidable ((¬ g.Processed e → _ ∧ _) ∧ Foreseen (g.step e) events))

/-- Under a later graph the index does with a new event what it does at once. -/
theorem Aligned.passes (hs : s.Aligned) (ha : s.graph.Accepts e) (hp : ¬ s.graph.Processed e)
    (later : List RuntimeEvent)
    (hlink : ∀ key ∈ observations (s.graph.step e) e, Linkable (s.graph.step e) e key) :
    Passes ((s.graph.step e).run later) s.consumers e (observations (s.graph.step e) e) := by
  have hwf := apply_wellFormed hs.wellFormed e
  refine (hs.bounded.run hs.wellFormed (e :: later)).passes
    (run_named hs.wellFormed hs.named (e :: later)).2 hs.strict ha hp fun key hkey => ?_
  obtain ⟨hprod,hcons,hne⟩ := hlink key hkey
  exact ⟨hprod.run hwf later,hcons.run hwf later,hne⟩

/-- One event alone. -/
def take (s : Ingestion) (e : RuntimeEvent) : Ingestion :=
  ⟨s.graph.step e,(s.consumers.apply (s.graph.step e) e).1⟩

theorem ingest_one (ha : s.graph.Accepts e)
    (hok : (s.consumers.apply (s.graph.step e) e).2.isOk = true) :
    s.ingest [e] = (s.take e,.ok ()) := by
  rw [ingest_eq_ok]
  change _ ∧ (s.consumers.applyAll (s.graph.step e) [e]).2.isOk = true ∧
    _ = (⟨s.graph.step e,(s.consumers.applyAll (s.graph.step e) [e]).1⟩ : Ingestion)
  rw [ObservedDataConsumerIndex.applyAll_cons_isOk,applyAll_cons_index hok]
  exact ⟨⟨ha,trivial⟩,⟨hok,rfl⟩,rfl⟩

theorem Aligned.apply_later (hs : s.Aligned) (ha : s.graph.Accepts e) (hf : Foreseen s.graph (e :: events))
    {later : List RuntimeEvent} (hlater : later <+: events) :
    (s.consumers.apply ((s.graph.step e).run later) e).1 = (s.take e).consumers ∧
      (s.consumers.apply ((s.graph.step e).run later) e).2.isOk = true := by
  unfold take
  by_cases hp : s.graph.Processed e
  · have hold : e.eventId ∈ s.consumers.processedEventIds := by rwa [hs.processed]
    rw [(apply_of_processed hold).1,(apply_of_processed hold).1]
    exact ⟨rfl,(apply_of_processed hold).2⟩
  · have hnew : e.eventId ∉ s.consumers.processedEventIds := by rwa [hs.processed]
    obtain ⟨hlink,hstable⟩ := hf.1 hp
    have hsame := hstable later ((List.mem_inits _ _).mpr hlater)
    have hpass := hs.passes ha hp later hlink
    rw [← hsame] at hpass
    have hat := apply_of_passes hnew hpass
    have hnow := apply_of_passes hnew (hs.passes ha hp [] hlink)
    refine ⟨?_,hat.2⟩
    rw [hat.1,hsame]
    exact hnow.1.symm

theorem Aligned.take (hs : s.Aligned) (ha : s.graph.Accepts e) (hf : Foreseen s.graph (e :: events)) :
    (s.take e).Aligned :=
  hs.ingest (ingest_one ha (hs.apply_later ha hf (List.nil_prefix)).2)

theorem takeAll_graph (s : Ingestion) (events : List RuntimeEvent) :
    (events.foldl Ingestion.take s).graph = s.graph.run events := by
  induction events generalizing s with
  | nil => rfl
  | cons e events ih => exact ih _

/-- A batch of events that name their consumers for good is taken as if one at a time. -/
theorem Aligned.takeAll {rest : List RuntimeEvent} {graph : RuntimeCausalContextGraph}
    (hs : s.Aligned) (ha : AllSteps step Accepts s.graph batch)
    (hf : Foreseen s.graph (batch ++ rest)) (hgraph : graph = s.graph.run batch) :
    (s.consumers.applyAll graph batch).2.isOk = true ∧
      (s.consumers.applyAll graph batch).1 = (batch.foldl Ingestion.take s).consumers ∧
      (batch.foldl Ingestion.take s).Aligned ∧ Foreseen (s.graph.run batch) rest := by
  induction batch generalizing s with
  | nil => exact ⟨rfl,rfl,hs,hf⟩
  | cons e batch ih =>
    have hnow := hs.apply_later ha.1 hf (List.prefix_append batch rest)
    have hgraph' : graph = (s.graph.step e).run batch := hgraph
    rw [← hgraph'] at hnow
    have hrest := ih (hs.take ha.1 hf) ha.2 hf.2 hgraph
    rw [ObservedDataConsumerIndex.applyAll_cons_isOk,applyAll_cons_index hnow.2,hnow.1]
    exact ⟨⟨hnow.2,hrest.1⟩,hrest.2⟩

theorem Aligned.ingest_of_foreseen {rest : List RuntimeEvent} (hs : s.Aligned)
    (ha : AllSteps step Accepts s.graph batch) (hf : Foreseen s.graph (batch ++ rest)) :
    s.ingest batch = (batch.foldl Ingestion.take s,.ok ()) := by
  obtain ⟨hok,hindex,-⟩ := hs.takeAll ha hf rfl
  rw [ingest_eq_ok]
  refine ⟨ha,hok,?_⟩
  rw [hindex,← takeAll_graph]

theorem Aligned.feed_of_foreseen {batches : List (List RuntimeEvent)} (hs : s.Aligned)
    (ha : AllSteps step Accepts s.graph batches.flatten) (hf : Foreseen s.graph batches.flatten) :
    s.feed batches = (batches.flatten.foldl Ingestion.take s,.ok ()) := by
  induction batches generalizing s with
  | nil => rfl
  | cons batch batches ih =>
    rw [List.flatten_cons] at ha hf
    obtain ⟨hbatch,hrest⟩ := AllSteps.append.mp ha
    obtain ⟨-,-,haligned,hforeseen⟩ := hs.takeAll hbatch hf rfl
    have hgraph := takeAll_graph s batch
    rw [feed_cons_eq_ok]
    refine ⟨_,hs.ingest_of_foreseen hbatch hf,?_⟩
    rw [List.flatten_cons,List.foldl_append]
    refine ih haligned ?_ ?_
    · rw [hgraph]
      exact hrest
    · rw [hgraph]
      exact hforeseen

/-! ## Events that do not -/

theorem CutInvariant.tail (h : s.CutInvariant (e :: events)) (ht : s.ingest [e] = (s.take e,.ok ())) :
    (s.take e).CutInvariant events := by
  intro cuts cuts' hcuts hcuts'
  obtain ⟨t,t',hfeed,hfeed',hsame⟩ := h ([e] :: cuts) ([e] :: cuts') (by simp [hcuts])
    (by simp [hcuts'])
  obtain ⟨u,hu,hfeed⟩ := feed_cons_eq_ok.mp hfeed
  obtain ⟨u',hu',hfeed'⟩ := feed_cons_eq_ok.mp hfeed'
  rw [ht] at hu hu'
  cases hu
  cases hu'
  exact ⟨t,t',hfeed,hfeed',hsame⟩

theorem CutInvariant.head (h : s.CutInvariant (e :: events)) :
    s.graph.Accepts e ∧ (s.consumers.apply (s.graph.step e) e).2.isOk = true := by
  obtain ⟨t,-,hfeed,-⟩ := h [[e],events] [[e],events] (by simp) (by simp)
  obtain ⟨u,hu,-⟩ := feed_cons_eq_ok.mp hfeed
  obtain ⟨ha,hok,-⟩ := ingest_eq_ok.mp hu
  exact ⟨ha.1,(ObservedDataConsumerIndex.applyAll_cons_isOk.mp hok).1⟩

/-- Otherwise a cut after a later prefix would count different edges. -/
theorem CutInvariant.observations_stable {later : List RuntimeEvent} (h : s.CutInvariant (e :: events))
    (hnew : e.eventId ∉ s.consumers.processedEventIds) (hlater : later <+: events) :
    observations ((s.graph.step e).run later) e = observations (s.graph.step e) e := by
  obtain ⟨rest,rfl⟩ := hlater
  obtain ⟨t,t',hfeed,hfeed',-,hedges,-⟩ := h [e :: later,rest] [[e],later,rest] (by simp) (by simp)
  -- The two cuts differ in the graph under which the first event is observed.
  obtain ⟨u,hu,hfeed⟩ := feed_cons_eq_ok.mp hfeed
  obtain ⟨v,hv,hfeed⟩ := feed_cons_eq_ok.mp hfeed
  cases hfeed
  obtain ⟨x,hx,hfeed'⟩ := feed_cons_eq_ok.mp hfeed'
  obtain ⟨y,hy,hfeed'⟩ := feed_cons_eq_ok.mp hfeed'
  obtain ⟨z,hz,hfeed'⟩ := feed_cons_eq_ok.mp hfeed'
  cases hfeed'
  obtain ⟨-,hbatch,rfl⟩ := ingest_eq_ok.mp hu
  obtain ⟨-,hrest,rfl⟩ := ingest_eq_ok.mp hv
  obtain ⟨-,hone,rfl⟩ := ingest_eq_ok.mp hx
  obtain ⟨-,hlater',rfl⟩ := ingest_eq_ok.mp hy
  obtain ⟨-,hrest',rfl⟩ := ingest_eq_ok.mp hz
  obtain ⟨hhead,hlater⟩ := ObservedDataConsumerIndex.applyAll_cons_isOk.mp hbatch
  obtain ⟨hhead',-⟩ := ObservedDataConsumerIndex.applyAll_cons_isOk.mp hone
  simp only [applyAll_cons_index hhead] at hrest hedges
  simp only [applyAll_cons_index hhead'] at hlater' hrest' hedges
  refine observations_ext fun key => ?_
  have htally := tally_eq_of_edges_eq
    ((apply_processedEventIds hhead).trans (apply_processedEventIds hhead').symm) hlater hlater'
    hrest hrest' hedges key
  have hleft := apply_tally hhead key
  have hright := apply_tally hhead' key
  simp only [hnew,not_false_eq_true,true_and] at hleft hright
  change _ = _ + (if key ∈ observations ((s.graph.step e).run later) e then 1 else 0) at hleft
  change _ = _ + (if key ∈ observations (s.graph.step e) e then 1 else 0) at hright
  rw [hleft] at htally
  have hcount := htally.trans hright
  split_ifs at hcount with h₁ h₂ h₂ <;> simp_all

theorem foreseen_of_cutInvariant (hs : s.Aligned) (h : s.CutInvariant events) :
    Foreseen s.graph events := by
  induction events generalizing s with
  | nil => trivial
  | cons e events ih =>
    obtain ⟨ha,hok⟩ := h.head
    have hone := ingest_one ha hok
    refine ⟨fun hp => ?_,ih (hs.ingest hone) (h.tail hone)⟩
    have hnew : e.eventId ∉ s.consumers.processedEventIds := by rwa [hs.processed]
    exact ⟨(hs.bounded.run hs.wellFormed [e]).linkable (passes_of_apply hnew hok),
      fun later hlater => h.observations_stable hnew ((List.mem_inits _ _).mp hlater)⟩

/-- In every state between two batches, and for every list of events the graph accepts one at
a time, the cut does not matter exactly when the events name their consumers for good. -/
theorem cut_invariant_iff (before : List (List RuntimeEvent)) (s : Ingestion)
    (hreached : ({} : Ingestion).feed before = (s,.ok ())) (events : List RuntimeEvent)
    (haccepted : AllSteps step Accepts s.graph events) :
    s.CutInvariant events ↔ Foreseen s.graph events := by
  have hs := start_aligned.feed hreached
  refine ⟨foreseen_of_cutInvariant hs,fun hf cuts cuts' hcuts hcuts' => ?_⟩
  have hfeed {batches : List (List RuntimeEvent)} (hb : batches.flatten = events) :
      s.feed batches = (events.foldl Ingestion.take s,.ok ()) := by
    subst hb
    exact hs.feed_of_foreseen haccepted hf
  exact ⟨_,_,hfeed hcuts,hfeed hcuts',rfl,rfl,rfl⟩

/-- A result of an invocation that names its consumers. -/
def namingEvent (id i : String) (consumers : List String) (h : isBlank id = false := by decide) :
    RuntimeEvent :=
  { eventId := id
    tsMs := 1
    kind := .llmResult
    workflowId := "w"
    invocationId := some i
    attributes := { consumerInvocationIds := consumers }
    valid := ⟨h,(by decide : isBlank "w" = false),(by decide : (0 : ℚ) ≤ 1),by simp,by simp⟩ }

/-- Results and messages to invocations that exist. -/
def timelyConsumers : List RuntimeEvent :=
  sampleStart ++ [namingEvent "result" "a" ["b","c","d"],
    sampleEvent "message" .message (some "b") (some "c") none]

theorem cut_invariant_sample :
    Foreseen ({} : Ingestion).graph timelyConsumers ∧ ({} : Ingestion).CutInvariant timelyConsumers :=
  ⟨by decide,(cut_invariant_iff [] {} rfl timelyConsumers (by decide)).mpr (by decide)⟩

/-- A result that names an invocation created after it. -/
def lateConsumer : List RuntimeEvent :=
  sampleStart ++ [namingEvent "result" "a" ["d"],
    sampleEvent "create d" .invocationCreate (some "d") none (some "cd")]

/-- One at a time the index sees no consumer, in one batch it counts an edge. -/
theorem late_consumer_depends_on_cut :
    AllSteps step Accepts ({} : Ingestion).graph lateConsumer ∧
      (({} : Ingestion).feed (lateConsumer.map ([·]))).1.consumers.version = 0 ∧
      (({} : Ingestion).feed [lateConsumer]).1.consumers.version = 1 ∧
      ¬ ({} : Ingestion).CutInvariant lateConsumer := by
  have hone : (({} : Ingestion).feed (lateConsumer.map ([·]))).1.consumers.version = 0 := by decide
  have hall : (({} : Ingestion).feed [lateConsumer]).1.consumers.version = 1 := by decide
  refine ⟨by decide,hone,hall,fun h => ?_⟩
  obtain ⟨t,t',ht,ht',-,-,hversion⟩ := h (lateConsumer.map ([·])) [lateConsumer] rfl rfl
  rw [ht] at hone
  rw [ht'] at hall
  exact absurd (hone.symm.trans (hversion.trans hall)) (by decide)

end Ingestion
end BeliefKV
