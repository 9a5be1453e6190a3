import BeliefKV.Channel.Codec

/-! A batch that a client sends reaches the handler once, whatever happens to the datagrams. -/
namespace BeliefKV.Channel
variable {κ Event Item : Type} {cfg : Config Event Item} {s : System κ Event Item}

/-! ## What the clients sent -/

/-- The batch of a call in progress. -/
def Phase.batch : Phase Event → Option (String × List Event)
  | .idle => none
  | .sending messageId events _ _ | .listening messageId events _ _ => some (messageId,events)

/-- A call that ended is about a batch that was sent, and its outcome about an acknowledgement. -/
structure Report.Backed (emitted : List (String × List Event)) (replies : List (κ × Ack))
    (r : Report Event) : Prop where
  unsent : r.messageId = none → r.outcome = .returned → r.events = []
  sent : ∀ id ∈ r.messageId, (id,r.events) ∈ emitted
  returned : ∀ id ∈ r.messageId, r.outcome = .returned → ∃ reply ∈ replies,
    reply.2.messageId = id ∧ reply.2.accepted = true
  rejected : ∀ id ∈ r.messageId, ∀ e, r.outcome = .rejected e → ∃ reply ∈ replies,
    reply.2.messageId = id ∧ reply.2.accepted = false

/-- Everything under way belongs to a batch that was sent under an id of its own. -/
structure System.Wired (cfg : Config Event Item) (s : System κ Event Item) : Prop where
  distinct : (s.emitted.map Prod.fst).Nodup
  known : ∀ p ∈ s.emitted, p.1 ≠ "unknown"
  fits : ∀ p ∈ s.emitted, p.2 ≠ [] ∧ p.2.length ≤ maxEventsPerMessage
  requests : ∀ r ∈ s.requests, ∃ p ∈ s.emitted, r.2 = requestOf cfg.codec p.1 p.2
  phase : ∀ c, ∀ p ∈ (s.phase c).batch, p ∈ s.emitted
  reports : ∀ r ∈ s.reports, r.Backed s.emitted s.replies

theorem Report.Backed.mono {emitted emitted' : List (String × List Event)} {replies replies' : List (κ × Ack)}
    {r : Report Event} (h : r.Backed emitted replies) (he : ∀ p ∈ emitted, p ∈ emitted')
    (hr : ∀ p ∈ replies, p ∈ replies') : r.Backed emitted' replies' where
  unsent := h.unsent
  sent id hid := he _ (h.sent id hid)
  returned id hid ho := by
    obtain ⟨reply,hmem,hack⟩ := h.returned id hid ho
    exact ⟨reply,hr reply hmem,hack⟩
  rejected id hid e ho := by
    obtain ⟨reply,hmem,hack⟩ := h.rejected id hid e ho
    exact ⟨reply,hr reply hmem,hack⟩

/-- An outcome that promises nothing. -/
theorem Report.backed_of_failed {emitted : List (String × List Event)} {replies : List (κ × Ack)}
    {r : Report Event} (hsent : ∀ id ∈ r.messageId, (id,r.events) ∈ emitted)
    (hreturned : r.outcome ≠ .returned) (hrejected : ∀ e, r.outcome ≠ .rejected e) :
    r.Backed emitted replies :=
  ⟨fun _ h => absurd h hreturned,hsent,fun _ _ h => absurd h hreturned,
    fun _ _ e h => absurd h (hrejected e)⟩

/-- Running out of attempts is reported as a failure. -/
theorem nextAttempt_spec {emitted : List (String × List Event)} {id : String} {events : List Event}
    (hmem : (id,events) ∈ emitted) (replies : List (κ × Ack)) (left : ℕ) (failed : Bool) :
    (∀ p ∈ (nextAttempt id events left failed).1.batch, p ∈ emitted) ∧
      ∀ r ∈ (nextAttempt id events left failed).2, r.Backed emitted replies := by
  unfold nextAttempt
  by_cases hleft : left = 0
  · rw [if_pos hleft]
    refine ⟨by simp [Phase.batch],fun r hr => ?_⟩
    rw [Option.mem_some_iff] at hr
    subst hr
    refine Report.backed_of_failed (fun id' hid => ?_) ?_ fun e => ?_
    · rw [Option.mem_some_iff] at hid
      exact hid ▸ hmem
    · cases failed <;> simp
    · cases failed <;> simp
  · rw [if_neg hleft]
    refine ⟨fun p hp => ?_,by simp⟩
    rw [Phase.batch,Option.mem_some_iff] at hp
    exact hp ▸ hmem

namespace System

theorem Wired.report (h : s.Wired cfg) {r : Report Event} (hr : r.Backed s.emitted s.replies) :
    (s.report r).Wired cfg := by
  refine ⟨h.distinct,h.known,h.fits,h.requests,h.phase,fun r' hr' => ?_⟩
  rcases List.mem_cons.mp hr' with rfl | hr'
  · exact hr
  · exact h.reports r' hr'

/-- A batch is added under a new id. -/
theorem Wired.add (h : s.Wired cfg) {id : String} {events : List Event} (hid : id ≠ "unknown")
    (hnew : id ∉ s.emitted.map Prod.fst) (hne : events ≠ []) (hlen : events.length ≤ maxEventsPerMessage) :
    Wired cfg { s with emitted := (id,events) :: s.emitted } where
  distinct := List.nodup_cons.mpr ⟨hnew,h.distinct⟩
  known p hp := by
    rcases List.mem_cons.mp hp with rfl | hp
    · exact hid
    · exact h.known p hp
  fits p hp := by
    rcases List.mem_cons.mp hp with rfl | hp
    · exact ⟨hne,hlen⟩
    · exact h.fits p hp
  requests r hr := by
    obtain ⟨p,hp,heq⟩ := h.requests r hr
    exact ⟨p,List.mem_cons_of_mem _ hp,heq⟩
  phase c p hp := List.mem_cons_of_mem _ (h.phase c p hp)
  reports r hr := (h.reports r hr).mono (fun _ => List.mem_cons_of_mem _) fun _ hp => hp

theorem Wired.serve (h : s.Wired cfg) (request : ℕ) (answer : Except Raised Unit) :
    (s.serve cfg request answer).Wired cfg := by
  unfold System.serve
  cases s.requests[request]? with
  | none => exact h
  | some r =>
    refine ⟨h.distinct,h.known,h.fits,h.requests,h.phase,fun r hr => ?_⟩
    exact (h.reports r hr).mono (fun _ hp => hp) fun _ => List.mem_cons_of_mem _

section
variable [DecidableEq κ]

/-- The ids are distinct, and none of them is the one of messages without an id. -/
def Fresh (s : System κ Event Item) : Input κ Event → Prop
  | .emit _ messageId _ => messageId ≠ "unknown" ∧ messageId ∉ s.emitted.map Prod.fst
  | _ => True

theorem Wired.enter (h : s.Wired cfg) (client : κ) {next : Phase Event × Option (Report Event)}
    (hphase : ∀ p ∈ next.1.batch, p ∈ s.emitted) (hreport : ∀ r ∈ next.2, r.Backed s.emitted s.replies) :
    (s.enter client next).Wired cfg := by
  refine ⟨h.distinct,h.known,h.fits,h.requests,fun c p hp => ?_,fun r hr => ?_⟩
  · by_cases hc : c = client
    · subst hc
      simp only [System.enter,Function.update_self] at hp
      exact hphase p hp
    · simp only [System.enter,Function.update_of_ne hc] at hp
      exact h.phase c p hp
  · rcases List.mem_append.mp hr with hr | hr
    · exact hreport r (Option.mem_toList.mp hr)
    · exact h.reports r hr

theorem Wired.emit (h : s.Wired cfg) (client : κ) {id : String} (events : List Event)
    (hid : id ≠ "unknown") (hnew : id ∉ s.emitted.map Prod.fst) :
    (s.emit cfg client id events).Wired cfg := by
  unfold System.emit
  split_ifs with hempty hmany hlong
  · exact h.report ⟨fun _ _ => hempty,by simp,by simp,by simp⟩
  · exact h.report (Report.backed_of_failed (by simp) (by simp) (by simp))
  · exact h.report (Report.backed_of_failed (by simp) (by simp) (by simp))
  · cases hphase : s.phase client with
    | idle =>
      have hadd := h.add hid hnew hempty (not_lt.mp hmany)
      obtain ⟨hp,hr⟩ := nextAttempt_spec (List.mem_cons_self (a := (id,events)) (l := s.emitted))
        s.replies cfg.retries false
      exact hadd.enter client hp hr
    | sending => exact h
    | listening => exact h

theorem Wired.send (h : s.Wired cfg) (client : κ) (delivered : Bool) :
    (s.send cfg client delivered).Wired cfg := by
  unfold System.send
  cases hphase : s.phase client with
  | idle => exact h
  | listening => exact h
  | sending id events left failed =>
    have hmem : (id,events) ∈ s.emitted := h.phase client _ (by rw [hphase]; rfl)
    dsimp only
    split_ifs
    · have henter : (s.enter client (.listening id events (left - 1) failed,none)).Wired cfg := by
        refine h.enter client (fun p hp => ?_) (by simp)
        rw [Phase.batch,Option.mem_some_iff] at hp
        exact hp ▸ hmem
      refine ⟨h.distinct,h.known,h.fits,fun r hr => ?_,henter.phase,henter.reports⟩
      rcases List.mem_cons.mp hr with rfl | hr
      · exact ⟨(id,events),hmem,rfl⟩
      · exact h.requests r hr
    · obtain ⟨hp,hr⟩ := nextAttempt_spec hmem s.replies (left - 1) true
      exact h.enter client hp hr

theorem Wired.receive (h : s.Wired cfg) (client : κ) (reply : ℕ) : (s.receive client reply).Wired cfg := by
  unfold System.receive
  cases hphase : s.phase client with
  | idle => exact h
  | sending => exact h
  | listening id events left failed =>
    have hmem : (id,events) ∈ s.emitted := h.phase client _ (by rw [hphase]; rfl)
    cases hreply : s.replies[reply]? with
    | none => exact h
    | some r =>
      dsimp only
      split_ifs with hmine
      · have hr : r ∈ s.replies := List.mem_of_getElem? hreply
        refine h.enter client (by simp [Phase.batch]) fun report hreport => ?_
        rw [Option.mem_some_iff] at hreport
        subst hreport
        refine ⟨by simp,fun id' hid => ?_,fun id' hid ho => ?_,fun id' hid e ho => ?_⟩
        · rw [Option.mem_some_iff] at hid
          exact hid ▸ hmem
        · rw [Option.mem_some_iff] at hid
          refine ⟨r,hr,hid ▸ hmine.2,?_⟩
          by_contra hacc
          rw [Bool.not_eq_true] at hacc
          simp [Ack.outcome,hacc] at ho
        · rw [Option.mem_some_iff] at hid
          refine ⟨r,hr,hid ▸ hmine.2,?_⟩
          by_contra hacc
          dsimp only [Ack.outcome] at ho
          rw [if_neg hacc] at ho
          split_ifs at ho
      · exact h

theorem Wired.timeout (h : s.Wired cfg) (client : κ) : (s.timeout client).Wired cfg := by
  unfold System.timeout
  cases hphase : s.phase client with
  | idle => exact h
  | sending => exact h
  | listening id events left failed =>
    have hmem : (id,events) ∈ s.emitted := h.phase client _ (by rw [hphase]; rfl)
    obtain ⟨hp,hr⟩ := nextAttempt_spec hmem s.replies left failed
    exact h.enter client hp hr

theorem Wired.fail (h : s.Wired cfg) (client : κ) : (s.fail client).Wired cfg := by
  unfold System.fail
  cases hphase : s.phase client with
  | idle => exact h
  | sending => exact h
  | listening id events left failed =>
    have hmem : (id,events) ∈ s.emitted := h.phase client _ (by rw [hphase]; rfl)
    refine h.enter client (by simp [Phase.batch]) fun r hr => ?_
    rw [Option.mem_some_iff] at hr
    subst hr
    refine Report.backed_of_failed (fun id' hid => ?_) (by simp) (by simp)
    rw [Option.mem_some_iff] at hid
    exact hid ▸ hmem

theorem Wired.step (h : s.Wired cfg) (input : Input κ Event) (hf : s.Fresh input) :
    (s.step cfg input).Wired cfg := by
  cases input with
  | emit client id events => exact h.emit client events hf.1 hf.2
  | send client delivered => exact h.send client delivered
  | serve request answer => exact h.serve request answer
  | receive client reply => exact h.receive client reply
  | timeout client => exact h.timeout client
  | fail client => exact h.fail client

end

end System

/-! ## What the server answers -/

theorem readEvents_requestOf (codec : Codec Event Item) {events : List Event} (hne : events ≠ [])
    (hlen : events.length ≤ maxEventsPerMessage) :
    readEvents codec (some (events.map codec.toDict)) = .ok events := by
  have hread : (events.map codec.toDict).mapM codec.fromDict = .ok events := by
    clear hne hlen
    induction events with
    | nil => rfl
    | cons e events ih =>
      rw [List.map_cons,List.mapM_cons,ih,codec.round_trip]
      rfl
  rw [readEvents,if_neg (by simpa using hne),if_neg (by simpa using hlen),hread]

/-- An answer that is kept in the cache. -/
theorem settle_spec (server : RuntimeEventDatagramServer) (delivery : RuntimeEventDelivery)
    (called : Option (List Event)) (hid : delivery.messageId ≠ "unknown") :
    server.settle delivery called =
      { server := { server with
          acks := Recency.remember server.ackCacheSize server.acks delivery.messageId delivery.ack }
        delivery := delivery
        ack := delivery.ack
        called := called } := by
  rw [RuntimeEventDatagramServer.settle,if_neg hid]

/-- A message of a client is answered from the cache, or it is answered anew: without an id it is
rejected, and otherwise the handler is called with the batch. -/
theorem handle_requestOf {server : RuntimeEventDatagramServer} {codec : Codec Event Item} {id : String}
    {events : List Event} {answer : Except Raised Unit} {r : Handled Event} (hid : id ≠ "unknown")
    (hne : events ≠ []) (hlen : events.length ≤ maxEventsPerMessage)
    (hr : server.handle codec (requestOf codec id events) answer = r) :
    r.server.ackCacheSize = server.ackCacheSize ∧ r.delivery.messageId = id ∧
      ((id ≠ "" ∧ Recency.lookup server.acks id = some r.ack ∧
          r.server.acks = Recency.refresh server.acks id r.ack ∧ r.called = none) ∨
        (r.ack.messageId = id ∧ r.server.acks = Recency.remember server.ackCacheSize server.acks id r.ack ∧
          ((id = "" ∧ r.ack.accepted = false ∧ r.called = none) ∨
            (id ≠ "" ∧ Recency.lookup server.acks id = none ∧ r.called = some events ∧
              (r.ack.accepted = true → answer = .ok ()) ∧
              (r.ack.accepted = false → ∃ e, answer = .error e))))) := by
  have hread : (requestOf codec id events).read = .ok (id,some (events.map codec.toDict)) := rfl
  rw [RuntimeEventDatagramServer.handle,hread] at hr
  by_cases hblank : id = ""
  · simp only [hblank,if_true,RuntimeEventDatagramServer.reject] at hr
    rw [settle_spec _ _ _ (by simp)] at hr
    subst hr hblank
    exact ⟨rfl,rfl,.inr ⟨rfl,rfl,.inl ⟨rfl,rfl,rfl⟩⟩⟩
  · simp only [hblank,if_false] at hr
    cases hlookup : Recency.lookup server.acks id with
    | some cached =>
      simp only [hlookup] at hr
      subst hr
      exact ⟨rfl,rfl,.inl ⟨hblank,rfl,rfl,rfl⟩⟩
    | none =>
      simp only [hlookup,RuntimeEventDatagramServer.process,readEvents_requestOf codec hne hlen] at hr
      cases answer with
      | ok u =>
        dsimp only at hr
        rw [settle_spec _ _ _ hid] at hr
        subst hr
        refine ⟨rfl,rfl,.inr ⟨rfl,rfl,.inr ⟨hblank,rfl,rfl,fun _ => rfl,?_⟩⟩⟩
        intro h
        cases h
      | error e =>
        dsimp only [RuntimeEventDatagramServer.reject] at hr
        rw [settle_spec _ _ _ hid] at hr
        subst hr
        refine ⟨rfl,rfl,.inr ⟨rfl,rfl,.inr ⟨hblank,rfl,rfl,?_,fun _ => ⟨e,rfl⟩⟩⟩⟩
        intro h
        cases h

/-! ## One message -/

/-- The calls of the handler for a message. -/
def System.callsOf (s : System κ Event Item) (m : String) : List (HandlerCall Event) :=
  s.calls.filter (·.messageId = m)

/-- The ids that were handled after the last delivery of a message. -/
def since (m : String) (handled : List String) : List String := handled.takeWhile (· ≠ m)

/-- An acknowledgement says what became of its message. -/
def System.Agrees (s : System κ Event Item) (m : String) (ack : Ack) : Prop :=
  (ack.accepted = true → ∃ events, (m,events) ∈ s.emitted ∧ s.callsOf m = [⟨m,events,.ok ()⟩]) ∧
    (ack.accepted = false → ∀ call ∈ s.callsOf m, call.answer ≠ .ok ())

/-- A message was handled at most once, and every acknowledgement of it agrees with that. -/
structure System.Served (m : String) (s : System κ Event Item) : Prop where
  unique : Recency.Unique s.server.acks
  named : ∀ e ∈ s.server.acks, e.2.messageId = e.1
  cache_agrees : ∀ ack, (m,ack) ∈ s.server.acks → s.Agrees m ack
  reply_agrees : ∀ r ∈ s.replies, r.2.messageId = m → s.Agrees m r.2
  once : (s.callsOf m).length ≤ 1
  blank : m = "" → s.callsOf m = []
  first : m ∉ s.handled → s.callsOf m = [] ∧ (∀ ack, (m,ack) ∉ s.server.acks) ∧
    ∀ r ∈ s.replies, r.2.messageId ≠ m
  cached : m ∈ s.handled → m ≠ "" → ∃ ack,
    Recency.Holds s.server.ackCacheSize s.server.acks (since m s.handled) m ack

/-- Fewer other ids than the cache holds were handled since a message was delivered the last time. -/
def System.Recent (m : String) (s : System κ Event Item) : Input κ Event → Prop
  | .serve request _ => ∀ r ∈ s.requests[request]?, ∀ items, r.2.read = .ok (m,items) →
    m ∈ s.handled → (since m s.handled).toFinset.card < s.server.ackCacheSize
  | _ => True

namespace System
variable {m : String}

theorem Agrees.congr {s' : System κ Event Item} {ack : Ack} (h : s.Agrees m ack)
    (hcalls : s'.callsOf m = s.callsOf m) (he : ∀ p ∈ s.emitted, p ∈ s'.emitted) : s'.Agrees m ack := by
  unfold Agrees
  rw [hcalls]
  refine ⟨fun hacc => ?_,h.2⟩
  obtain ⟨events,hmem,hc⟩ := h.1 hacc
  exact ⟨events,he _ hmem,hc⟩

/-- Only the server's part matters, and the batches that were sent before. -/
theorem Served.congr {s' : System κ Event Item} (h : s.Served m) (hserver : s'.server = s.server)
    (hreplies : s'.replies = s.replies) (hhandled : s'.handled = s.handled) (hcalls : s'.calls = s.calls)
    (he : ∀ p ∈ s.emitted, p ∈ s'.emitted) : s'.Served m := by
  have hof : s'.callsOf m = s.callsOf m := by rw [callsOf,hcalls]; rfl
  constructor
  · exact hserver ▸ h.unique
  · exact hserver ▸ h.named
  · exact fun ack hmem => (h.cache_agrees ack (hserver ▸ hmem)).congr hof he
  · exact fun r hr hid => (h.reply_agrees r (hreplies ▸ hr) hid).congr hof he
  · exact hof ▸ h.once
  · exact hof ▸ h.blank
  · rw [hof,hserver,hhandled,hreplies]
    exact h.first
  · rw [hserver,hhandled]
    exact h.cached

/-- What a delivery of `id` does to the cache: its answer comes to the front. -/
structure Front (size : ℕ) (acks : List (String × Ack)) (id : String) (ack : Ack)
    (acks' : List (String × Ack)) : Prop where
  unique : Recency.Unique acks'
  mem : ∀ e ∈ acks', e = (id,ack) ∨ e ∈ acks
  named : ack.messageId = id
  self : Recency.Holds size acks' [] id ack
  other : ∀ {since : List String} {k : String} {v : Ack}, Recency.Holds size acks since k v → id ≠ k →
    Recency.Holds size acks' (id :: since) k v

theorem front_refresh {size : ℕ} {acks : List (String × Ack)} {id : String} {ack : Ack}
    (hu : Recency.Unique acks) (hn : ∀ e ∈ acks, e.2.messageId = e.1)
    (hl : Recency.lookup acks id = some ack) : Front size acks id ack (Recency.refresh acks id ack) where
  unique := hu.refresh
  mem _ he := Recency.mem_refresh he
  named := hn (id,ack) (Recency.mem_of_lookup hl)
  self := Recency.holds_refresh size acks id ack
  other h hne := h.refresh hne

theorem front_remember {size : ℕ} {acks : List (String × Ack)} {id : String} {ack : Ack}
    (hu : Recency.Unique acks) (hn : ack.messageId = id) :
    Front size acks id ack (Recency.remember size acks id ack) where
  unique := hu.remember
  mem _ he := Recency.mem_refresh (List.mem_of_mem_take he)
  named := hn
  self := Recency.holds_remember size acks id ack
  other h hne := h.remember hu hne

section Serve
variable {s' : System κ Event Item} {id : String} {ack : Ack} {client : κ}

/-- A delivery of another message. -/
theorem Served.other (h : s.Served m) (hne : id ≠ m)
    (hfront : Front s.server.ackCacheSize s.server.acks id ack s'.server.acks)
    (hsize : s'.server.ackCacheSize = s.server.ackCacheSize) (hreplies : s'.replies = (client,ack) :: s.replies)
    (hhandled : s'.handled = id :: s.handled) (hcalls : s'.callsOf m = s.callsOf m)
    (hemitted : s'.emitted = s.emitted) : s'.Served m := by
  have hemit : ∀ p ∈ s.emitted, p ∈ s'.emitted := fun p hp => hemitted ▸ hp
  have hmem : m ∈ s'.handled ↔ m ∈ s.handled := by
    rw [hhandled,List.mem_cons]
    simp [Ne.symm hne]
  have hold {a : Ack} (ha : (m,a) ∈ s'.server.acks) : (m,a) ∈ s.server.acks := by
    rcases hfront.mem _ ha with heq | ha
    · exact absurd (congrArg Prod.fst heq).symm hne
    · exact ha
  have hreply {r : κ × Ack} (hr : r ∈ s'.replies) (hid : r.2.messageId = m) : r ∈ s.replies := by
    rw [hreplies] at hr
    rcases List.mem_cons.mp hr with rfl | hr
    · exact absurd (hfront.named.symm.trans hid) hne
    · exact hr
  constructor
  · exact hfront.unique
  · intro e he
    rcases hfront.mem e he with rfl | he
    · exact hfront.named
    · exact h.named e he
  · exact fun a ha => (h.cache_agrees a (hold ha)).congr hcalls hemit
  · exact fun r hr hid => (h.reply_agrees r (hreply hr hid) hid).congr hcalls hemit
  · exact hcalls ▸ h.once
  · exact hcalls ▸ h.blank
  · intro hnot
    obtain ⟨hc,ha,hr⟩ := h.first (fun hin => hnot (hmem.mpr hin))
    exact ⟨hcalls.trans hc,fun a hin => ha a (hold hin),fun r hin hid => hr r (hreply hin hid) hid⟩
  · intro hin hm
    obtain ⟨a,ha⟩ := h.cached (hmem.mp hin) hm
    have hsince : since m s'.handled = id :: since m s.handled := by
      rw [hhandled,since,List.takeWhile_cons_of_pos (by simpa using hne)]
      rfl
    rw [hsize,hsince]
    exact ⟨a,hfront.other ha hne⟩

/-- A delivery of the message itself. -/
theorem Served.self (h : s.Served m)
    (hfront : Front s.server.ackCacheSize s.server.acks m ack s'.server.acks)
    (hsize : s'.server.ackCacheSize = s.server.ackCacheSize) (hreplies : s'.replies = (client,ack) :: s.replies)
    (hhandled : s'.handled = m :: s.handled) (hagrees : s'.Agrees m ack)
    (hcalls : s'.callsOf m = s.callsOf m ∨ m ∉ s.handled) (honce : (s'.callsOf m).length ≤ 1)
    (hblank : m = "" → s'.callsOf m = []) (hemitted : s'.emitted = s.emitted) : s'.Served m := by
  have hemit : ∀ p ∈ s.emitted, p ∈ s'.emitted := fun p hp => hemitted ▸ hp
  have hmem : m ∈ s'.handled := hhandled ▸ List.mem_cons_self
  constructor
  · exact hfront.unique
  · intro e he
    rcases hfront.mem e he with rfl | he
    · exact hfront.named
    · exact h.named e he
  · intro a ha
    rcases hfront.mem _ ha with heq | ha
    · have hsame : a = ack := congrArg Prod.snd heq
      exact hsame ▸ hagrees
    · rcases hcalls with hcalls | hnew
      · exact (h.cache_agrees a ha).congr hcalls hemit
      · exact absurd ha ((h.first hnew).2.1 a)
  · intro r hr hid
    rw [hreplies] at hr
    rcases List.mem_cons.mp hr with rfl | hr
    · exact hagrees
    · rcases hcalls with hcalls | hnew
      · exact (h.reply_agrees r hr hid).congr hcalls hemit
      · exact absurd hid ((h.first hnew).2.2 r hr)
  · exact honce
  · exact hblank
  · exact fun hnot => absurd hmem hnot
  · intro _ _
    have hsince : since m s'.handled = [] := by
      rw [hhandled,since,List.takeWhile_cons_of_neg (by simp)]
    rw [hsize,hsince]
    exact ⟨ack,hfront.self⟩

end Serve

/-- The system after a delivery. -/
def afterDelivery (s : System κ Event Item) (res : Handled Event) (client : κ)
    (answer : Except Raised Unit) : System κ Event Item :=
  { s with
    server := res.server
    replies := (client,res.ack) :: s.replies
    handled := res.delivery.messageId :: s.handled
    calls := (res.called.map fun events => ⟨res.delivery.messageId,events,answer⟩).toList ++ s.calls }

theorem callsOf_serve_none (s : System κ Event Item) (res : Handled Event) (client : κ)
    (answer : Except Raised Unit) (h : res.called = none) :
    (s.afterDelivery res client answer).callsOf m = s.callsOf m := by
  rw [callsOf,afterDelivery,h]
  rfl

theorem callsOf_serve_some (s : System κ Event Item) {res : Handled Event} {id : String}
    {events : List Event} (client : κ) (answer : Except Raised Unit) (hid : res.delivery.messageId = id)
    (h : res.called = some events) :
    (s.afterDelivery res client answer).callsOf id = ⟨id,events,answer⟩ :: s.callsOf id := by
  simp [callsOf,afterDelivery,h,hid]

theorem callsOf_serve_other (s : System κ Event Item) {res : Handled Event} {id : String}
    {events : List Event} (client : κ) (answer : Except Raised Unit) (hid : res.delivery.messageId = id)
    (hne : id ≠ m) (h : res.called = some events) :
    (s.afterDelivery res client answer).callsOf m = s.callsOf m := by
  simp [callsOf,afterDelivery,h,hid,hne]

theorem serve_eq {request : ℕ} {client : κ} {payload : Payload Item}
    (h : s.requests[request]? = some (client,payload)) (answer : Except Raised Unit) :
    s.serve cfg request answer =
      s.afterDelivery (s.server.handle cfg.codec payload answer) client answer := by
  simp only [System.serve,h]
  rfl

theorem Served.serve (hw : s.Wired cfg) (h : s.Served m) (request : ℕ) (answer : Except Raised Unit)
    (hrecent : s.Recent m (.serve request answer)) : (s.serve cfg request answer).Served m := by
  cases hreq : s.requests[request]? with
  | none =>
    simp only [System.serve,hreq]
    exact h
  | some r =>
    obtain ⟨client,payload⟩ := r
    rw [serve_eq hreq]
    obtain ⟨⟨id,events⟩,hp,hpayload⟩ := hw.requests _ (List.mem_of_getElem? hreq)
    have hid : id ≠ "unknown" := hw.known _ hp
    dsimp only at hpayload ⊢
    subst hpayload
    generalize hres : s.server.handle cfg.codec (requestOf cfg.codec id events) answer = res
    obtain ⟨hsize,hname,hcases⟩ := handle_requestOf hid (hw.fits _ hp).1 (hw.fits _ hp).2 hres
    have hfront : Front s.server.ackCacheSize s.server.acks id res.ack res.server.acks := by
      rcases hcases with ⟨-,hl,hacks,-⟩ | ⟨hack,hacks,-⟩
      · rw [hacks]
        exact front_refresh h.unique h.named hl
      · rw [hacks]
        exact front_remember h.unique hack
    by_cases heq : id = m
    · subst heq
      rcases hcases with ⟨-,hl,-,hcalled⟩ | ⟨-,-,⟨hblank,hacc,hcalled⟩ | ⟨hne,hl,hcalled,hyes,hno⟩⟩
      · have hsame := callsOf_serve_none (m := id) s res client answer hcalled
        refine h.self hfront hsize rfl (congrArg (· :: _) hname) ?_ (.inl hsame) (hsame ▸ h.once)
          (hsame ▸ h.blank) rfl
        exact (h.cache_agrees res.ack (Recency.mem_of_lookup hl)).congr hsame fun _ hp => hp
      · have hsame := callsOf_serve_none (m := id) s res client answer hcalled
        have hnil := hsame.trans (h.blank hblank)
        refine h.self hfront hsize rfl (congrArg (· :: _) hname) ⟨fun hacc' => ?_,fun _ call hc => ?_⟩
          (.inl hsame) (hsame ▸ h.once) (hsame ▸ h.blank) rfl
        · rw [hacc] at hacc'
          cases hacc'
        · rw [hnil] at hc
          cases hc
      · -- The message is not cached, so it was not handled before.
        have hnew : id ∉ s.handled := by
          intro hin
          obtain ⟨a,ha⟩ := h.cached hin hne
          have hcard := hrecent _ hreq _ rfl hin
          rw [ha.lookup hcard] at hl
          cases hl
        have hcalls := callsOf_serve_some s client answer hname hcalled
        rw [(h.first hnew).1] at hcalls
        refine h.self hfront hsize rfl (congrArg (· :: _) hname) ⟨fun hacc => ?_,fun hacc call hc => ?_⟩
          (.inr hnew) (by rw [hcalls]; simp) (fun hblank => absurd hblank hne) rfl
        · refine ⟨events,hp,?_⟩
          rw [hcalls,hyes hacc]
        · rw [hcalls,List.mem_singleton] at hc
          obtain ⟨e,he⟩ := hno hacc
          rw [hc,he]
          simp
    · refine h.other heq hfront hsize rfl (congrArg (· :: _) hname) ?_ rfl
      cases hcalled : res.called with
      | none => exact callsOf_serve_none s res client answer hcalled
      | some events' => exact callsOf_serve_other s client answer hname heq hcalled

theorem Served.step [DecidableEq κ] (hw : s.Wired cfg) (h : s.Served m) (input : Input κ Event)
    (hrecent : s.Recent m input) : (s.step cfg input).Served m := by
  cases input with
  | emit client id events =>
    change (s.emit cfg client id events).Served m
    unfold System.emit
    dsimp only
    split_ifs
    · exact h.congr rfl rfl rfl rfl fun _ hp => hp
    · exact h.congr rfl rfl rfl rfl fun _ hp => hp
    · exact h.congr rfl rfl rfl rfl fun _ hp => hp
    · cases hphase : s.phase client with
      | idle => exact h.congr rfl rfl rfl rfl fun _ => List.mem_cons_of_mem _
      | sending => exact h
      | listening => exact h
  | send client delivered =>
    change (s.send cfg client delivered).Served m
    unfold System.send
    cases hphase : s.phase client with
    | idle => exact h
    | listening => exact h
    | sending id events left failed =>
      cases delivered with
      | true => exact h.congr rfl rfl rfl rfl fun _ hp => hp
      | false => exact h.congr rfl rfl rfl rfl fun _ hp => hp
  | serve request answer => exact h.serve hw request answer hrecent
  | receive client reply =>
    change (s.receive client reply).Served m
    unfold System.receive
    cases hphase : s.phase client with
    | idle => exact h
    | sending => exact h
    | listening id events left failed =>
      cases hreply : s.replies[reply]? with
      | none => exact h
      | some r =>
        dsimp only
        split_ifs
        · exact h.congr rfl rfl rfl rfl fun _ hp => hp
        · exact h
  | timeout client =>
    change (s.timeout client).Served m
    unfold System.timeout
    cases hphase : s.phase client with
    | idle => exact h
    | sending => exact h
    | listening => exact h.congr rfl rfl rfl rfl fun _ hp => hp
  | fail client =>
    change (s.fail client).Served m
    unfold System.fail
    cases hphase : s.phase client with
    | idle => exact h
    | sending => exact h
    | listening => exact h.congr rfl rfl rfl rfl fun _ hp => hp

/-! ## Every interleaving -/

/-- Nothing was sent, and the cache is empty. -/
def start (ackCacheSize : ℕ) (positive : 0 < ackCacheSize) : System κ Event Item :=
  { server := { ackCacheSize := ackCacheSize, positive := positive } }

def run [DecidableEq κ] (cfg : Config Event Item) (ackCacheSize : ℕ) (positive : 0 < ackCacheSize)
    (inputs : List (Input κ Event)) : System κ Event Item :=
  inputs.foldl (step cfg) (start ackCacheSize positive)

theorem wired_start (cfg : Config Event Item) (ackCacheSize : ℕ) (positive : 0 < ackCacheSize) :
    (start ackCacheSize positive : System κ Event Item).Wired cfg where
  distinct := List.nodup_nil
  known _ hp := by cases hp
  fits _ hp := by cases hp
  requests _ hr := by cases hr
  phase _ _ hp := by cases hp
  reports _ hr := by cases hr

theorem served_start (m : String) (ackCacheSize : ℕ) (positive : 0 < ackCacheSize) :
    (start ackCacheSize positive : System κ Event Item).Served m where
  unique := List.nodup_nil
  named _ he := by cases he
  cache_agrees _ ha := by cases ha
  reply_agrees _ hr := by cases hr
  once := Nat.zero_le 1
  blank _ := rfl
  first _ := ⟨rfl,(fun _ ha => by cases ha),(fun _ hr => by cases hr)⟩
  cached hm := by cases hm

/-- The handler is called at most once for a message, as long as fewer other ids than the cache holds
come between two deliveries of it. A call of the client for the message that returns means that the
handler accepted the batch, and one that raises a rejection that it did not. A call that returns
without having sent anything had nothing to send. -/
theorem delivered_exactly_once [DecidableEq κ] (cfg : Config Event Item) (ackCacheSize : ℕ)
    (positive : 0 < ackCacheSize) (inputs : List (Input κ Event)) (m : String)
    (hfresh : Run.AllSteps (step cfg) Fresh (start ackCacheSize positive) inputs)
    (hrecent : Run.AllSteps (step cfg) (Recent m) (start ackCacheSize positive) inputs) :
    ((run cfg ackCacheSize positive inputs).callsOf m).length ≤ 1 ∧
      (∀ r ∈ (run cfg ackCacheSize positive inputs).reports, r.messageId = some m →
        r.outcome = .returned →
          (run cfg ackCacheSize positive inputs).callsOf m = [⟨m,r.events,.ok ()⟩]) ∧
      (∀ r ∈ (run cfg ackCacheSize positive inputs).reports, r.messageId = some m →
        ∀ e, r.outcome = .rejected e →
          ∀ call ∈ (run cfg ackCacheSize positive inputs).callsOf m, call.answer ≠ .ok ()) ∧
      ∀ r ∈ (run cfg ackCacheSize positive inputs).reports, r.messageId = none →
        r.outcome = .returned → r.events = [] := by
  have hinv := Run.AllSteps.invariant
    (I := fun s : System κ Event Item => s.Wired cfg ∧ s.Served m)
    (fun s input h hin => ⟨h.1.step input hin.1,h.2.step h.1 input hin.2⟩)
    ⟨wired_start cfg ackCacheSize positive,served_start m ackCacheSize positive⟩
    (hfresh.and hrecent)
  change (run cfg ackCacheSize positive inputs).Wired cfg ∧
    (run cfg ackCacheSize positive inputs).Served m at hinv
  obtain ⟨hw,hs⟩ := hinv
  refine ⟨hs.once,fun r hr hid ho => ?_,fun r hr hid e ho => ?_,fun r hr hid ho => ?_⟩
  · obtain ⟨reply,hreply,hname,hacc⟩ := (hw.reports r hr).returned m hid ho
    obtain ⟨events,hmem,hcalls⟩ := (hs.reply_agrees reply hreply hname).1 hacc
    -- The batch of the call and the one of the report have one id.
    have hsame : (m,events) = (m,r.events) :=
      List.inj_on_of_nodup_map hw.distinct hmem ((hw.reports r hr).sent m hid) rfl
    rw [hcalls,(Prod.mk.inj hsame).2]
  · obtain ⟨reply,hreply,hname,hacc⟩ := (hw.reports r hr).rejected m hid e ho
    exact (hs.reply_agrees reply hreply hname).2 hacc
  · exact (hw.reports r hr).unsent hid ho

/-- A workflow starts. -/
def sampleFields : RawEvent := { eventId := "e", tsMs := 0, kind := .workflowStart, workflowId := "w" }

theorem sampleFields_valid : sampleFields.Valid := by decide

def sampleEvent : SentEvent Unit fun _ => {} :=
  { event := ⟨sampleFields,sampleFields_valid⟩, values := ∅, attributes_eq := rfl }

def sampleConfig : Config (SentEvent Unit fun _ => {}) (EventDict Unit) :=
  { codec := runtimeEventCodec Unit fun _ => {}, encodedLength := fun _ => 0, retries := 3 }

/-- A batch is sent twice; both datagrams arrive, and the second acknowledgement is read. -/
def sampleInputs : List (Input Unit (SentEvent Unit fun _ => {})) :=
  [.emit () "m" [sampleEvent],.send () true,.timeout (),.send () true,.serve 0 (.ok ()),
    .serve 1 (.ok ()),.receive () 0]

theorem delivered_exactly_once_sample :
    (run sampleConfig 1 Nat.one_pos sampleInputs).callsOf "m" = [⟨"m",[sampleEvent],.ok ()⟩] := by
  have hfresh : Run.AllSteps (step sampleConfig) Fresh (start 1 Nat.one_pos) sampleInputs :=
    ⟨⟨by decide,by simp [start]⟩,trivial,trivial,trivial,trivial,trivial,trivial,trivial⟩
  have hrecent : Run.AllSteps (step sampleConfig) (Recent "m") (start 1 Nat.one_pos) sampleInputs := by
    refine ⟨trivial,trivial,trivial,trivial,?_,?_,trivial,trivial⟩
    · intro r _ items _ hm
      cases hm
    · intro r _ items _ _
      decide
  have h := (delivered_exactly_once sampleConfig 1 Nat.one_pos sampleInputs "m" hfresh hrecent).2.1
  exact h ⟨some "m",[sampleEvent],.returned⟩ (by left) rfl rfl

/-- Nothing is sent for a batch without events, and the call returns. -/
theorem empty_batch_returns :
    (run sampleConfig 1 Nat.one_pos [.emit () "m" []]).reports = [⟨none,[],.returned⟩] ∧
      (run sampleConfig 1 Nat.one_pos [.emit () "m" []]).calls = [] :=
  ⟨rfl,rfl⟩

end System
end BeliefKV.Channel
