import BeliefKV.Consumers.Basic
import BeliefKV.Graph.Books

/-! Ingestion of events: the causal graph takes a batch, then the consumer index does. What
the index does with one event is said here without its checks, so that two graphs under
which the checks pass can be compared. -/
namespace BeliefKV
open RuntimeCausalContextGraph Run

namespace ObservedDataConsumerIndex
variable {graph graph' : RuntimeCausalContextGraph} {index index' : ObservedDataConsumerIndex}
  {event : RuntimeEvent} {key : ConsumerKey} {keys : List ConsumerKey}

/-- Both ends exist in the workflow of the event, and they differ. -/
def Linkable (graph : RuntimeCausalContextGraph) (event : RuntimeEvent) (key : ConsumerKey) :
    Prop :=
  graph.Knows key.1 event.workflowId ∧ graph.Knows key.2.1 event.workflowId ∧ key.1 ≠ key.2.1

instance : Decidable (Linkable graph event key) := inferInstanceAs (Decidable (_ ∧ _))

/-- An edge of the index that one more observation can extend. -/
def Extendable (index : ObservedDataConsumerIndex) (event : RuntimeEvent) (key : ConsumerKey) :
    Prop :=
  match index.edges[key]? with
  | none => key.1 ≠ "" ∧ key.2.1 ≠ "" ∧ key.1 ≠ key.2.1
  | some previous => previous.lastObservedTsMs ≤ event.tsMs

/-- The edge after one more observation. -/
def nextEdge (index : ObservedDataConsumerIndex) (event : RuntimeEvent) (key : ConsumerKey) :
    ConsumerEdge :=
  match index.edges[key]? with
  | none =>
    { producerInvocationId := key.1
      consumerInvocationId := key.2.1
      relation := key.2.2
      confidence := confidenceOf event.confidence
      lastObservedTsMs := event.tsMs
      workflowId := event.workflowId }
  | some previous => { previous with
      confidence := max previous.confidence (confidenceOf event.confidence)
      lastObservedTsMs := event.tsMs
      observationCount := previous.observationCount + 1 }

theorem observedEdge_eq_ok {edge : ConsumerEdge} :
    observedEdge graph index event key = .ok edge ↔
      (graph.Knows key.1 event.workflowId ∧ graph.Knows key.2.1 event.workflowId) ∧
        index.Extendable event key ∧ index.nextEdge event key = edge := by
  have hknows (i : String) : graph.Knows i event.workflowId ↔
      graph.invocations[i]?.isSome ∧ graph.invocations[i]?.all (·.workflowId = event.workflowId) := by
    unfold Knows
    cases graph.invocations[i]? <;> simp
  unfold observedEdge Extendable nextEdge
  simp only [bind_eq_ok,ensure_eq_ok,hknows]
  cases index.edges[key]? with
  | none => 
    simp only [bind_eq_ok,ensure_eq_ok]
    grind
  | some previous =>
    simp only [bind_eq_ok,ensure_eq_ok]
    grind

/-- The index with some edges observed once more. -/
def record (index : ObservedDataConsumerIndex) (event : RuntimeEvent) (keys : List ConsumerKey) :
    ObservedDataConsumerIndex :=
  { index with edges := index.edges.insertAll keys (index.nextEdge event) }

theorem record_edges (index : ObservedDataConsumerIndex) (event : RuntimeEvent)
    (keys : List ConsumerKey) (key : ConsumerKey) : (index.record event keys).edges[key]? =
      if key ∈ keys then some (index.nextEdge event key) else index.edges[key]? := by
  change (index.edges.insertAll keys _)[key]? = _
  rw [Dict.get_insertAll]
  congr

/-- Observations of other keys do not matter to a key. -/
theorem nextEdge_insert {k : ConsumerKey} {edge : ConsumerEdge} (hne : key ≠ k) :
    nextEdge { index with edges := index.edges.insert k edge } event key =
      index.nextEdge event key := by
  simp [nextEdge,Dict.get_insert,Ne.symm hne]

theorem extendable_insert {k : ConsumerKey} {edge : ConsumerEdge} (hne : key ≠ k) :
    Extendable { index with edges := index.edges.insert k edge } event key ↔
      index.Extendable event key := by
  simp [Extendable,Dict.get_insert,Ne.symm hne]

/-- The first observation can be recorded before the others. -/
theorem record_cons (hkey : key ∉ keys) : index.record event (key :: keys) =
    record { index with edges := index.edges.insert key (index.nextEdge event key) } event keys := by
  unfold record
  congr 1
  apply Dict.ext_get
  intro k
  rw [Dict.get_insertAll,Dict.get_insertAll,Dict.get_insert]
  by_cases hk : k = key
  · subst hk
    simp [hkey]
  · rw [nextEdge_insert hk]
    simp [hk,Ne.symm hk]

/-- All checks pass for all keys. -/
def Passes (graph : RuntimeCausalContextGraph) (index : ObservedDataConsumerIndex)
    (event : RuntimeEvent) (keys : List ConsumerKey) : Prop :=
  ∀ key ∈ keys, (graph.Knows key.1 event.workflowId ∧ graph.Knows key.2.1 event.workflowId) ∧
    index.Extendable event key

theorem Passes.insert {k : ConsumerKey} {edge : ConsumerEdge} (hk : k ∉ keys) :
    Passes graph { index with edges := index.edges.insert k edge } event keys ↔
      Passes graph index event keys := by
  refine forall₂_congr fun key hkey => ?_
  rw [extendable_insert (by rintro rfl; exact hk hkey)]

theorem observeAll_of_passes (hn : keys.Nodup) (hpass : Passes graph index event keys) :
    observeAll graph event index keys =
      (index.record event keys,.ok (keys.map (index.nextEdge event))) := by
  induction keys generalizing index with
  | nil => rfl
  | cons key keys ih =>
    obtain ⟨hkey,hn⟩ := List.nodup_cons.mp hn
    obtain ⟨hknown,hext⟩ := hpass key (by simp)
    have hedge := observedEdge_eq_ok.mpr ⟨hknown,hext,rfl⟩
    have hrest := @ih { index with
      edges := index.edges.insert key (index.nextEdge event key) } hn
      ((Passes.insert hkey).mpr fun k hk => hpass k (by simp [hk]))
    have hmap : keys.map (nextEdge { index with
        edges := index.edges.insert key (index.nextEdge event key) } event) =
        keys.map (index.nextEdge event) :=
      List.map_congr_left fun k hk => nextEdge_insert (by rintro rfl; exact hkey hk)
    simp only [observeAll,hedge,hrest,hmap,record_cons hkey]
    rfl

theorem passes_of_observeAll {changed : List ConsumerEdge} (hn : keys.Nodup)
    (hok : (observeAll graph event index keys).2 = .ok changed) : Passes graph index event keys := by
  induction keys generalizing index changed with
  | nil => simp [Passes]
  | cons key keys ih =>
    obtain ⟨hkey,hn⟩ := List.nodup_cons.mp hn
    unfold observeAll at hok
    cases hedge : observedEdge graph index event key with
    | error err => simp [hedge] at hok
    | ok edge =>
      obtain ⟨hknown,hext,-⟩ := observedEdge_eq_ok.mp hedge
      simp only [hedge] at hok
      cases hrest : (observeAll graph event { index with
          edges := index.edges.insert key edge } keys).2 with
      | error err => simp [hrest,Except.map] at hok
      | ok rest =>
        intro k hk
        rcases List.mem_cons.mp hk with rfl | hk
        · exact ⟨hknown,hext⟩
        · exact (Passes.insert hkey).mp (ih hn hrest) k hk

/-! ## One event -/

theorem observations_nodup (graph : RuntimeCausalContextGraph) (event : RuntimeEvent) :
    (observations graph event).Nodup := by
  unfold observations
  split
  · exact List.nodup_nil
  · exact Std.ExtTreeMap.nodup_keys

/-- The index after an event that names the given edges. -/
def absorb (index : ObservedDataConsumerIndex) (event : RuntimeEvent) (keys : List ConsumerKey) :
    ObservedDataConsumerIndex :=
  (index.record event keys).commit event (keys.map (index.nextEdge event))

theorem apply_of_passes (hnew : event.eventId ∉ index.processedEventIds)
    (hpass : Passes graph index event (observations graph event)) :
    (index.apply graph event).1 = index.absorb event (observations graph event) ∧
      (index.apply graph event).2.isOk = true := by
  unfold apply
  rw [if_neg hnew,observeAll_of_passes (observations_nodup graph event) hpass]
  exact ⟨rfl,rfl⟩

theorem passes_of_apply (hnew : event.eventId ∉ index.processedEventIds)
    (hok : (index.apply graph event).2.isOk = true) :
    Passes graph index event (observations graph event) := by
  unfold apply at hok
  rw [if_neg hnew] at hok
  cases hobs : observeAll graph event index (observations graph event) with
  | mk index' result =>
    cases result with
    | error err => simp [hobs,Except.isOk,Except.toBool] at hok
    | ok changed =>
      exact passes_of_observeAll (observations_nodup graph event)
        (show (observeAll graph event index (observations graph event)).2 = .ok changed by rw [hobs])

theorem apply_of_processed (hold : event.eventId ∈ index.processedEventIds) :
    (index.apply graph event).1 = index ∧ (index.apply graph event).2.isOk = true := by
  simp [apply,hold,Except.isOk,Except.toBool]

end ObservedDataConsumerIndex
/-- The causal graph and the consumer index that reads it. -/
structure Ingestion where
  graph : RuntimeCausalContextGraph := {}
  consumers : ObservedDataConsumerIndex := {}

namespace Ingestion

/-- One batch: the graph takes it, then the index does. -/
def ingest (s : Ingestion) (batch : List RuntimeEvent) : Ingestion × Except Raised Unit :=
  match s.graph.applyBatch batch true with
  | (graph,.error e) => ({ s with graph := graph },.error e)
  | (graph,.ok _) =>
    match s.consumers.applyBatch graph batch true with
    | (consumers,.error e) => (⟨graph,consumers⟩,.error e)
    | (consumers,.ok _) => (⟨graph,consumers⟩,.ok ())

/-- One batch after another, up to the first that raises. -/
def feed : Ingestion → List (List RuntimeEvent) → Ingestion × Except Raised Unit
  | s, [] => (s,.ok ())
  | s, batch :: batches =>
    match s.ingest batch with
    | (s',.error e) => (s',.error e)
    | (s',.ok _) => feed s' batches

end Ingestion

/-! ## Batches -/

namespace RuntimeCausalContextGraph
variable {g : RuntimeCausalContextGraph} {e : RuntimeEvent}

theorem applyAll_cons_isOk {events : List RuntimeEvent} :
    (g.applyAll (e :: events)).2.isOk = true ↔
      g.Accepts e ∧ ((g.step e).applyAll events).2.isOk = true := by
  unfold Accepts step
  rw [applyAll]
  dsimp only
  cases hres : (g.apply e).result with
  | error err => simp [Except.isOk,Except.toBool]
  | ok delta =>
    cases hrest : ((g.apply e).graph.applyAll events).2 <;>
      simp [Except.isOk,Except.toBool,Except.map]

/-- A batch is accepted when its events are accepted one at a time. -/
theorem applyAll_isOk_iff {events : List RuntimeEvent} :
    (g.applyAll events).2.isOk = true ↔ AllSteps step Accepts g events := by
  induction events generalizing g with
  | nil => simp [applyAll,AllSteps,Except.isOk,Except.toBool]
  | cons e events ih => rw [applyAll_cons_isOk,ih,AllSteps]

theorem applyAll_graph {events : List RuntimeEvent} (h : AllSteps step Accepts g events) :
    (g.applyAll events).1 = g.run events := by
  induction events generalizing g with
  | nil => rfl
  | cons e events ih =>
    have hhead : (g.apply e).result.isOk = true := h.1
    have hrest : ((g.apply e).graph.applyAll events).1 = _ := ih h.2
    cases hres : (g.apply e).result with
    | error err => simp [hres,Except.isOk,Except.toBool] at hhead
    | ok delta =>
      simp only [applyAll,hres,hrest]
      rfl

end RuntimeCausalContextGraph

namespace ObservedDataConsumerIndex
variable {graph : RuntimeCausalContextGraph} {index index' : ObservedDataConsumerIndex}
  {event : RuntimeEvent} {events : List RuntimeEvent}

theorem applyAll_cons_isOk :
    (index.applyAll graph (event :: events)).2.isOk = true ↔
      (index.apply graph event).2.isOk = true ∧
        ((index.apply graph event).1.applyAll graph events).2.isOk = true := by
  rw [applyAll]
  cases h : index.apply graph event with
  | mk index' result =>
    cases result with
    | error err => simp [Except.isOk,Except.toBool]
    | ok delta =>
      cases hrest : (index'.applyAll graph events).2 <;>
        simp [hrest,Except.isOk,Except.toBool,Except.map]

theorem applyAll_cons_index (hok : (index.apply graph event).2.isOk = true) :
    (index.applyAll graph (event :: events)).1 =
      ((index.apply graph event).1.applyAll graph events).1 := by
  rw [applyAll]
  cases h : index.apply graph event with
  | mk index' result =>
    cases result with
    | error err => simp [h,Except.isOk,Except.toBool] at hok
    | ok delta => rfl

theorem apply_processedEventIds (hok : (index.apply graph event).2.isOk = true) :
    (index.apply graph event).1.processedEventIds =
      insert event.eventId index.processedEventIds := by
  by_cases hold : event.eventId ∈ index.processedEventIds
  · rw [(apply_of_processed hold).1,Finset.insert_eq_of_mem hold]
  · rw [(apply_of_passes hold (passes_of_apply hold hok)).1]
    rfl

end ObservedDataConsumerIndex

/-! ## The index behind its graph -/

namespace ObservedDataConsumerIndex
variable {graph : RuntimeCausalContextGraph} {index : ObservedDataConsumerIndex}
  {event : RuntimeEvent}

/-- The time is not ahead of the workflow's clock. -/
def Past (graph : RuntimeCausalContextGraph) (w : String) (tsMs : ℚ) : Prop :=
  ∃ t, graph.lastTsByWorkflow[w]? = some t ∧ tsMs ≤ t

/-- Every edge has two ends, its producer in its workflow, and a time that is not ahead of the
clocks. Within a batch the clocks are those of the event at hand, the graph is the last one. -/
def Bounded (graph clock : RuntimeCausalContextGraph) (index : ObservedDataConsumerIndex) : Prop :=
  ∀ (key : ConsumerKey) (edge : ConsumerEdge), index.edges[key]? = some edge →
    key.1 ≠ key.2.1 ∧ graph.Knows key.1 edge.workflowId ∧
      Past clock edge.workflowId edge.lastObservedTsMs

theorem Past.step {g : RuntimeCausalContextGraph} {w : String} {t : ℚ} (h : Past g w t)
    (ha : g.Accepts event) : Past (g.step event) w t := by
  obtain ⟨u,hu,ht⟩ := h
  by_cases hp : g.Processed event
  · rw [step_of_processed hp]
    exact ⟨u,hu,ht⟩
  · by_cases hw : w = event.workflowId
    · refine ⟨_,by rw [step_clock ha hp,if_pos hw],?_⟩
      rw [hu]
      exact ht.trans (le_max_right _ _)
    · exact ⟨u,by rw [step_clock ha hp,if_neg hw,hu],ht⟩

theorem past_step_self {g : RuntimeCausalContextGraph} (ha : g.Accepts event)
    (hp : ¬ g.Processed event) : Past (g.step event) event.workflowId event.tsMs :=
  ⟨_,by rw [step_clock ha hp,if_pos rfl],le_max_left _ _⟩

/-- The checks pass for linkable keys. -/
theorem Bounded.passes {clock : RuntimeCausalContextGraph} {keys : List ConsumerKey}
    (h : Bounded graph clock index) (hn : graph.Named) (hs : clock.strictTimestamps = true)
    (ha : clock.Accepts event) (hp : ¬ clock.Processed event)
    (hlink : ∀ key ∈ keys, Linkable graph event key) : Passes graph index event keys := by
  intro key hkey
  obtain ⟨hprod,hcons,hne⟩ := hlink key hkey
  refine ⟨⟨hprod,hcons⟩,?_⟩
  unfold Extendable
  cases hprev : index.edges[key]? with
  | none => exact ⟨hprod.ne_empty hn,hcons.ne_empty hn,hne⟩
  | some previous =>
    obtain ⟨-,hknows,u,hu,hle⟩ := h key previous hprev
    rw [hknows.unique hprod] at hu
    exact hle.trans (clock_le ha hp hs hu)

/-- And the keys of checks that passed are linkable. -/
theorem Bounded.linkable {clock : RuntimeCausalContextGraph} {keys : List ConsumerKey}
    (h : Bounded graph clock index) (hpass : Passes graph index event keys) :
    ∀ key ∈ keys, Linkable graph event key := by
  intro key hkey
  obtain ⟨⟨hprod,hcons⟩,hext⟩ := hpass key hkey
  refine ⟨hprod,hcons,?_⟩
  unfold Extendable at hext
  cases hprev : index.edges[key]? with
  | none =>
    rw [hprev] at hext
    exact hext.2.2
  | some previous => exact (h key previous hprev).1

theorem Bounded.step {clock : RuntimeCausalContextGraph} (h : Bounded graph clock index)
    (ha : clock.Accepts event) : Bounded graph (clock.step event) index := by
  intro key edge hedge
  obtain ⟨hne,hknows,hpast⟩ := h key edge hedge
  exact ⟨hne,hknows,hpast.step ha⟩

theorem Bounded.apply {clock : RuntimeCausalContextGraph} (h : Bounded graph clock index)
    (ha : clock.Accepts event) (hp : index.processedEventIds = clock.processedEventIds)
    (hok : (index.apply graph event).2.isOk = true) :
    Bounded graph (clock.step event) (index.apply graph event).1 := by
  by_cases hold : event.eventId ∈ index.processedEventIds
  · rw [(apply_of_processed hold).1]
    exact h.step ha
  · have hpass := passes_of_apply hold hok
    have hpast := past_step_self ha (fun hc : event.eventId ∈ _ => hold (hp ▸ hc))
    rw [(apply_of_passes hold hpass).1]
    intro key edge hedge
    change (index.record event _).edges[key]? = some edge at hedge
    rw [record_edges] at hedge
    split_ifs at hedge with hk
    · obtain ⟨⟨hknows,-⟩,-⟩ := hpass key hk
      have hne := (h.linkable hpass key hk).2.2
      cases hedge
      unfold nextEdge
      cases hprev : index.edges[key]? with
      | none => exact ⟨hne,hknows,hpast⟩
      | some previous =>
        obtain ⟨-,hprod,-⟩ := h key previous hprev
        refine ⟨hne,hprod,?_⟩
        simp only [hprod.unique hknows]
        exact hpast
    · obtain ⟨hne,hknows,hold⟩ := h key edge hedge
      exact ⟨hne,hknows,hold.step ha⟩

theorem Bounded.run {g clock : RuntimeCausalContextGraph} (h : Bounded g clock index)
    (hg : g.WellFormed) (events : List RuntimeEvent) : Bounded (g.run events) clock index := by
  intro key edge hedge
  obtain ⟨hne,hknows,hpast⟩ := h key edge hedge
  exact ⟨hne,hknows.run hg events,hpast⟩

end ObservedDataConsumerIndex

namespace Ingestion
open ObservedDataConsumerIndex
variable {s t : Ingestion} {e : RuntimeEvent} {events batch : List RuntimeEvent}

/-- The state between two batches. -/
structure Aligned (s : Ingestion) : Prop where
  wellFormed : s.graph.WellFormed
  named : s.graph.Named
  strict : s.graph.strictTimestamps = true
  processed : s.consumers.processedEventIds = s.graph.processedEventIds
  bounded : Bounded s.graph s.graph s.consumers

theorem start_aligned : ({} : Ingestion).Aligned where
  wellFormed := empty_wellFormed true
  named i a ha := by simp [view] at ha
  strict := rfl
  processed := rfl
  bounded key edge hedge := by simp at hedge

/-- Within a batch the index follows the graph, which has already reached the end. -/
theorem batch_bounded {graph g : RuntimeCausalContextGraph} {index : ObservedDataConsumerIndex}
    (ha : AllSteps step Accepts g batch) (hp : index.processedEventIds = g.processedEventIds)
    (hb : Bounded graph g index) (hok : (index.applyAll graph batch).2.isOk = true) :
    Bounded graph (g.run batch) (index.applyAll graph batch).1 ∧
      (index.applyAll graph batch).1.processedEventIds = (g.run batch).processedEventIds := by
  induction batch generalizing g index with
  | nil => exact ⟨hb,hp⟩
  | cons e batch ih =>
    obtain ⟨hhead,htail⟩ := applyAll_cons_isOk.mp hok
    rw [applyAll_cons_index hhead]
    refine ih ha.2 ?_ (hb.apply ha.1 hp hhead) htail
    rw [apply_processedEventIds hhead,step_processedEventIds ha.1,hp]

/-- A batch is taken when the graph accepts its events and the index, under the graph at the
end of the batch, does too. -/
theorem ingest_eq_ok : s.ingest batch = (t,.ok ()) ↔ AllSteps step Accepts s.graph batch ∧
    (s.consumers.applyAll (s.graph.run batch) batch).2.isOk = true ∧
      t = ⟨s.graph.run batch,(s.consumers.applyAll (s.graph.run batch) batch).1⟩ := by
  unfold ingest RuntimeCausalContextGraph.applyBatch ObservedDataConsumerIndex.applyBatch
  rw [← applyAll_isOk_iff]
  cases hg : s.graph.applyAll batch with
  | mk graph result =>
    cases result with
    | error err => simp [Except.isOk,Except.toBool]
    | ok deltas =>
      have hrun : s.graph.run batch = graph := by
        rw [← applyAll_graph (applyAll_isOk_iff.mp (by rw [hg]; rfl)),hg]
      rw [hrun]
      cases hc : s.consumers.applyAll graph batch with
      | mk consumers result =>
        cases result <;> simp [hc,Except.isOk,Except.toBool,eq_comm]

theorem feed_cons_eq_ok {batches : List (List RuntimeEvent)} :
    s.feed (batch :: batches) = (t,.ok ()) ↔
      ∃ s', s.ingest batch = (s',.ok ()) ∧ s'.feed batches = (t,.ok ()) := by
  rw [feed]
  cases h : s.ingest batch with
  | mk s' result => cases result <;> simp

theorem run_named {g : RuntimeCausalContextGraph} (hg : g.WellFormed) (hn : g.Named)
    (events : List RuntimeEvent) : (g.run events).WellFormed ∧ (g.run events).Named := by
  induction events generalizing g with
  | nil => exact ⟨hg,hn⟩
  | cons e events ih => exact ih (apply_wellFormed hg e) (hn.step hg e)

theorem run_strict {g : RuntimeCausalContextGraph} {events : List RuntimeEvent}
    (ha : AllSteps step Accepts g events) : (g.run events).strictTimestamps = g.strictTimestamps := by
  induction events generalizing g with
  | nil => rfl
  | cons e events ih => exact (ih ha.2).trans (step_strictTimestamps ha.1)

theorem Aligned.ingest (hs : s.Aligned) (h : s.ingest batch = (t,.ok ())) : t.Aligned := by
  obtain ⟨ha,hok,rfl⟩ := ingest_eq_ok.mp h
  obtain ⟨hwf,hnamed⟩ := run_named hs.wellFormed hs.named batch
  obtain ⟨hbounded,hprocessed⟩ := batch_bounded ha hs.processed
    (hs.bounded.run hs.wellFormed batch) hok
  exact ⟨hwf,hnamed,(run_strict ha).trans hs.strict,hprocessed,hbounded⟩

theorem Aligned.feed {batches : List (List RuntimeEvent)} (hs : s.Aligned)
    (h : s.feed batches = (t,.ok ())) : t.Aligned := by
  induction batches generalizing s with
  | nil =>
    cases h
    exact hs
  | cons batch batches ih =>
    obtain ⟨s',hhead,htail⟩ := feed_cons_eq_ok.mp h
    exact ih (hs.ingest hhead) htail

end Ingestion
end BeliefKV
