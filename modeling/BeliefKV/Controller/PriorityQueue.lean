import BeliefKV.Lib.Ranked
import BeliefKV.Lib.Run
import BeliefKV.Controller.Queue

/-! The command queue as a priority queue of live commands. -/
namespace BeliefKV

namespace QueueEntry
variable {a b : QueueEntry}

/-- The deadline, an infinite one included. -/
def due (entry : QueueEntry) : WithTop ℚ :=
  match entry.deadlineMs with
  | none => ⊤
  | some deadline => deadline

/-- The key entries of one class are sorted by. -/
def rank (entry : QueueEntry) : WithTop ℚ ×ₗ ℚ ×ₗ ℕ :=
  toLex (entry.due,toLex (-entry.priority,entry.sequence))

theorem before_iff : a.before b = true ↔ a.rank < b.rank := by
  have htie : before.tie a b = true ↔ toLex (-a.priority,a.sequence) < toLex (-b.priority,b.sequence) := by
    unfold before.tie
    rw [Prod.Lex.toLex_lt_toLex]
    simp
  unfold before rank due
  rw [Prod.Lex.toLex_lt_toLex]
  cases a.deadlineMs <;> cases b.deadlineMs <;> simp [htie]

theorem sequence_of_rank (h : a.rank = b.rank) : a.sequence = b.sequence := by
  have := congrArg (fun r => (ofLex (ofLex r).2).2) h
  exact this

end QueueEntry

/-- A priority queue: in each class the live commands in the order they are popped. -/
structure PriorityQueue where
  urgent : List QueueEntry := []
  shadow : List QueueEntry := []
  sequence : ℕ := 0

namespace PriorityQueue
variable (q : PriorityQueue)

/-- The commands in the order they are popped. -/
def pending : List ControlCommand := (q.urgent ++ q.shadow).map QueueEntry.command

def holds (id : String) : Bool := q.pending.any (·.commandId = id)

def insertEntry (entry : QueueEntry) (entries : List QueueEntry) : List QueueEntry :=
  entries.orderedInsert (fun a b => a.rank ≤ b.rank) entry

def put (command : ControlCommand) : Except Raised PriorityQueue :=
  if q.holds command.commandId then .error (.valueError ("duplicate command id: " ++ command.commandId))
  else
    let entry : QueueEntry := ⟨command.deadlineMs,command.priority,q.sequence,command⟩
    .ok
      { urgent := if command.queueClass = .urgent then insertEntry entry q.urgent else q.urgent
        shadow := if command.queueClass = .urgent then q.shadow else insertEntry entry q.shadow
        sequence := q.sequence + 1 }

def cancel (id : String) : Bool × PriorityQueue :=
  (q.holds id,{ q with
    urgent := q.urgent.filter (·.id ≠ id)
    shadow := q.shadow.filter (·.id ≠ id) })

def get (id : String) : Option ControlCommand := q.pending.find? (·.commandId = id)

def pop (allowShadow : Bool) : Option ControlCommand × PriorityQueue :=
  match q.urgent, q.shadow with
  | first :: rest, _ => (some first.command,{ q with urgent := rest })
  | [], first :: rest =>
    if allowShadow then (some first.command,{ q with shadow := rest }) else (none,q)
  | [], [] => (none,q)

end PriorityQueue

namespace TransferCommandQueue
variable (q : TransferCommandQueue)

/-- The entries that are not cancelled. -/
def live (cancelledIds : Finset String) (entries : List QueueEntry) : List QueueEntry :=
  entries.filter (·.id ∉ cancelledIds)

def urgentCount : ℕ := (live q.cancelledIds q.urgent).length

def shadowCount : ℕ := (live q.cancelledIds q.shadow).length

def len : ℕ := q.urgentCount + q.shadowCount

/-- The class comes first in the sort key. -/
def pendingCommands : List ControlCommand :=
  (Ranked.sort QueueEntry.rank (live q.cancelledIds q.urgent) ++
    Ranked.sort QueueEntry.rank (live q.cancelledIds q.shadow)).map QueueEntry.command

/-- The priority queue of the live commands. -/
def priorityQueue : PriorityQueue :=
  { urgent := Ranked.sort QueueEntry.rank (live q.cancelledIds q.urgent)
    shadow := Ranked.sort QueueEntry.rank (live q.cancelledIds q.shadow)
    sequence := q.sequence }

end TransferCommandQueue

/-! ## Calls -/

inductive QueueCall
  | put (command : ControlCommand)
  | cancel (id : String)
  | get (id : String)
  | pop (allowShadow : Bool)
  | pendingCommands
  | urgentCount
  | shadowCount
  | len

/-- What a call returns; a call of `put` that raises leaves the queue as it is. -/
inductive QueueAnswer
  | done
  | raised (e : Raised)
  | flag (b : Bool)
  | command (c : Option ControlCommand)
  | commands (cs : List ControlCommand)
  | count (n : ℕ)

def TransferCommandQueue.call (q : TransferCommandQueue) : QueueCall → TransferCommandQueue × QueueAnswer
  | .put command =>
    match q.put command with
    | .ok q' => (q',.done)
    | .error e => (q,.raised e)
  | .cancel id => ((q.cancel id).2,.flag (q.cancel id).1)
  | .get id => (q,.command (q.get id))
  | .pop allowShadow => ((q.pop allowShadow).2,.command (q.pop allowShadow).1)
  | .pendingCommands => (q,.commands q.pendingCommands)
  | .urgentCount => (q,.count q.urgentCount)
  | .shadowCount => (q,.count q.shadowCount)
  | .len => (q,.count q.len)

def PriorityQueue.call (q : PriorityQueue) : QueueCall → PriorityQueue × QueueAnswer
  | .put command =>
    match q.put command with
    | .ok q' => (q',.done)
    | .error e => (q,.raised e)
  | .cancel id => ((q.cancel id).2,.flag (q.cancel id).1)
  | .get id => (q,.command (q.get id))
  | .pop allowShadow => ((q.pop allowShadow).2,.command (q.pop allowShadow).1)
  | .pendingCommands => (q,.commands q.pending)
  | .urgentCount => (q,.count q.urgent.length)
  | .shadowCount => (q,.count q.shadow.length)
  | .len => (q,.count q.pending.length)

/-- The answers to a sequence of calls. -/
def answers {σ : Type} (call : σ → QueueCall → σ × QueueAnswer) : σ → List QueueCall → List QueueAnswer
  | _, [] => []
  | q, c :: cs => (call q c).2 :: answers call (call q c).1 cs

/-! ## One call -/

namespace TransferCommandQueue
variable {q : TransferCommandQueue} {command : ControlCommand} {id : String}

/-- The entries are tidy and come from different puts. -/
structure Kept (q : TransferCommandQueue) : Prop where
  ok : q.Ok
  fresh : ∀ e ∈ q.entries, e.sequence < q.sequence
  apart : (q.entries.map QueueEntry.sequence).Nodup

/-- No cancelled entry of the id waits to come up. -/
def Reusable (q : TransferCommandQueue) : QueueCall → Prop
  | .put command => command.commandId ∉ q.cancelledIds
  | _ => True

instance (q : TransferCommandQueue) : ∀ c : QueueCall, Decidable (q.Reusable c)
  | .put command => inferInstanceAs (Decidable (command.commandId ∉ q.cancelledIds))
  | .cancel _ | .get _ | .pop _ | .pendingCommands | .urgentCount | .shadowCount | .len =>
    isTrue trivial

theorem distinct_of_apart {entries : List QueueEntry}
    (h : (entries.map QueueEntry.sequence).Nodup) : Ranked.Distinct QueueEntry.rank entries := by
  refine (List.nodup_map_iff_inj_on (List.Nodup.of_map _ h)).mpr fun a ha b hb hab => ?_
  exact List.inj_on_of_nodup_map h ha hb (QueueEntry.sequence_of_rank hab)

theorem Kept.urgent_distinct (h : q.Kept) : Ranked.Distinct QueueEntry.rank q.urgent :=
  (distinct_of_apart h.apart).sublist (List.sublist_append_left _ _)

theorem Kept.shadow_distinct (h : q.Kept) : Ranked.Distinct QueueEntry.rank q.shadow :=
  (distinct_of_apart h.apart).sublist (List.sublist_append_right _ _)

theorem mem_pending {c : ControlCommand} : c ∈ q.priorityQueue.pending ↔
    ∃ e ∈ q.entries, e.id ∉ q.cancelledIds ∧ e.command = c := by
  simp only [PriorityQueue.pending,priorityQueue,entries,live,List.mem_map,List.mem_append,
    (Ranked.sort_perm _ _).mem_iff,List.mem_filter,decide_eq_true_eq]
  refine exists_congr fun e => ?_
  tauto

/-- A pending command is one that waits. -/
theorem Kept.mem_pending_iff (h : q.Kept) {c : ControlCommand} :
    c ∈ q.priorityQueue.pending ↔ q.Queued c := by
  rw [mem_pending]
  constructor
  · rintro ⟨e,he,hlive,rfl⟩
    have hid := (h.ok.mem e.id).mp (List.mem_map_of_mem he)
    exact ⟨hid.resolve_right hlive,e,he,rfl⟩
  · rintro ⟨hid,e,he,rfl⟩
    exact ⟨e,he,h.ok.apart _ hid,rfl⟩

theorem Kept.holds_iff (h : q.Kept) : q.priorityQueue.holds id = true ↔ id ∈ q.activeIds := by
  unfold PriorityQueue.holds
  rw [List.any_eq_true]
  constructor
  · rintro ⟨c,hc,hid⟩
    rw [decide_eq_true_eq] at hid
    rw [← hid]
    exact (h.mem_pending_iff.mp hc).1
  · intro hid
    obtain ⟨c,hc,rfl⟩ := h.ok.waits_of_active hid
    exact ⟨c,h.mem_pending_iff.mpr hc,by simp⟩

theorem sort_live_concat {entries : List QueueEntry} {entry : QueueEntry} {cancelled : Finset String}
    (hn : ((entries ++ [entry]).map QueueEntry.sequence).Nodup) (hlive : entry.id ∉ cancelled) :
    Ranked.sort QueueEntry.rank (live cancelled (entries ++ [entry])) =
      PriorityQueue.insertEntry entry (Ranked.sort QueueEntry.rank (live cancelled entries)) := by
  have happ : live cancelled (entries ++ [entry]) = live cancelled entries ++ [entry] := by
    simp [live,hlive]
  have hd : Ranked.Distinct QueueEntry.rank (live cancelled entries ++ [entry]) := by
    rw [← happ]
    exact (distinct_of_apart hn).sublist List.filter_sublist
  rw [happ,Ranked.sort_concat hd,PriorityQueue.insertEntry]

theorem Kept.put_answer (h : q.Kept) (hc : command.commandId ∉ q.cancelledIds) :
    (q.call (.put command)).1.priorityQueue = (q.priorityQueue.call (.put command)).1 ∧
      (q.call (.put command)).2 = (q.priorityQueue.call (.put command)).2 ∧
      (q.call (.put command)).1.Kept := by
  by_cases ha : command.commandId ∈ q.activeIds
  · have hput : q.put command = .error (.valueError ("duplicate command id: " ++ command.commandId)) := by
      rw [put,if_pos ha]
    have hput' : q.priorityQueue.put command =
        .error (.valueError ("duplicate command id: " ++ command.commandId)) := by
      rw [PriorityQueue.put,if_pos (h.holds_iff.mpr ha)]
    rw [call,PriorityQueue.call,hput,hput']
    exact ⟨rfl,rfl,h⟩
  · obtain ⟨q',hput,hok,-⟩ := put_ok h.ok ha hc
    have hholds : ¬q.priorityQueue.holds command.commandId = true := fun hh => ha (h.holds_iff.mp hh)
    have hseq : q'.sequence = q.sequence + 1 := by
      rw [put,if_neg ha] at hput
      exact (congrArg sequence (Except.ok.inj hput)).symm
    have hperm : q'.entries.Perm
        (⟨command.deadlineMs,command.priority,q.sequence,command⟩ :: q.entries) := by
      rw [put,if_neg ha] at hput
      rw [← Except.ok.inj hput]
      exact put_perm q command _
    have hkept : q'.Kept := by
      refine ⟨hok,fun e he => ?_,?_⟩
      · rw [hseq]
        rcases List.mem_cons.mp (hperm.mem_iff.mp he) with rfl | he
        · exact Nat.lt_succ_self _
        · exact Nat.lt_succ_of_lt (h.fresh e he)
      · rw [(hperm.map QueueEntry.sequence).nodup_iff,List.map_cons,List.nodup_cons]
        refine ⟨fun hmem => ?_,h.apart⟩
        obtain ⟨e,he,heq⟩ := List.mem_map.mp hmem
        exact absurd heq (h.fresh e he).ne
    have hput' : q.priorityQueue.put command = .ok q'.priorityQueue := by
      have happ := hkept.apart
      rw [put,if_neg ha] at hput
      rw [PriorityQueue.put,if_neg hholds]
      rw [← Except.ok.inj hput] at happ ⊢
      unfold priorityQueue
      by_cases hurgent : command.queueClass = .urgent
      · simp only [hurgent,if_true,entries,List.map_append] at happ ⊢
        rw [← List.map_append] at happ
        rw [sort_live_concat (List.nodup_append.mp happ).1 hc]
      · simp only [hurgent,if_false,entries,List.map_append] at happ ⊢
        rw [← List.map_append] at happ
        rw [sort_live_concat (List.nodup_append.mp happ).2.1 hc]
    rw [call,PriorityQueue.call,hput,hput']
    exact ⟨rfl,rfl,hkept⟩

theorem live_insert (cancelled : Finset String) (id : String) (entries : List QueueEntry) :
    live (insert id cancelled) entries = (live cancelled entries).filter (·.id ≠ id) := by
  rw [live,live,List.filter_filter]
  refine List.filter_congr fun e _ => ?_
  simp [Finset.mem_insert]

theorem Kept.cancel_answer (h : q.Kept) (id : String) :
    (q.cancel id).2.priorityQueue = (q.priorityQueue.cancel id).2 ∧
      (q.cancel id).1 = (q.priorityQueue.cancel id).1 ∧ (q.cancel id).2.Kept := by
  have hlive {entries : List QueueEntry} (hd : Ranked.Distinct QueueEntry.rank entries) :
      Ranked.sort QueueEntry.rank (live (insert id q.cancelledIds) entries) =
        (Ranked.sort QueueEntry.rank (live q.cancelledIds entries)).filter (·.id ≠ id) := by
    rw [live_insert]
    exact Ranked.sort_filter (hd.sublist List.filter_sublist) _
  by_cases ha : id ∈ q.activeIds
  · have hspec := cancel_spec h.ok ha
    have heq : q.cancel id = (true,{ q with
        cancelledIds := insert id q.cancelledIds
        activeIds := q.activeIds.erase id }) := by simp [cancel,ha]
    have hok := hspec.2.1
    rw [heq] at hok ⊢
    refine ⟨?_,(h.holds_iff.mpr ha).symm,hok,h.fresh,h.apart⟩
    simp only [priorityQueue,PriorityQueue.cancel,hlive h.urgent_distinct,hlive h.shadow_distinct]
  · have heq : q.cancel id = (false,q) := by simp [cancel,ha]
    have hholds : q.priorityQueue.holds id = false :=
      Bool.eq_false_iff.mpr fun hh => ha (h.holds_iff.mp hh)
    -- No live entry has the id, so there is nothing to remove.
    have hsame {entries : List QueueEntry} (hs : ∀ e ∈ entries, e ∈ q.entries) :
        (Ranked.sort QueueEntry.rank (live q.cancelledIds entries)).filter (·.id ≠ id) =
          Ranked.sort QueueEntry.rank (live q.cancelledIds entries) := by
      refine List.filter_eq_self.mpr fun e he => ?_
      have hmem := List.mem_filter.mp ((Ranked.sort_perm _ _).mem_iff.mp he)
      have hcases := (h.ok.mem e.id).mp (List.mem_map_of_mem (hs e hmem.1))
      have hactive := hcases.resolve_right (by simpa using hmem.2)
      have hne : e.id ≠ id := fun heq => ha (heq ▸ hactive)
      simpa using hne
    rw [heq]
    refine ⟨?_,hholds.symm,h⟩
    simp only [priorityQueue,PriorityQueue.cancel]
    rw [hsame fun e he => List.mem_append_left _ he,hsame fun e he => List.mem_append_right _ he]

theorem Kept.get_answer (h : q.Kept) (id : String) : q.get id = q.priorityQueue.get id := by
  obtain ⟨hsome,hactive,hnone⟩ := get_spec h.ok id
  by_cases ha : id ∈ q.activeIds
  · obtain ⟨c,hc⟩ := Option.isSome_iff_exists.mp (hactive ha)
    obtain ⟨hw,hid⟩ := hsome c hc
    cases hget : q.priorityQueue.get id with
    | none =>
      have hno := List.find?_eq_none.mp hget c (h.mem_pending_iff.mpr hw)
      exact absurd hid (by simpa using hno)
    | some c' =>
      have hid' : c'.commandId = id := by simpa using List.find?_some hget
      have hw' := h.mem_pending_iff.mp (List.mem_of_find?_eq_some hget)
      rw [hc,h.ok.waits_unique hw hw' (hid.trans hid'.symm)]
  · rw [hnone ha]
    refine (List.find?_eq_none.mpr fun c hc => ?_).symm
    have hne : c.commandId ≠ id := fun heq => ha (heq ▸ (h.mem_pending_iff.mp hc).1)
    simpa using hne

/-! ### Popping -/

theorem popFirst_first {l rest : List QueueEntry} {first : QueueEntry}
    (h : popFirst l = some (first,rest)) : ∀ e ∈ rest, first.rank ≤ e.rank := by
  induction l generalizing first rest with
  | nil => simp [popFirst] at h
  | cons e l ih =>
    rw [popFirst] at h
    cases hp : popFirst l with
    | none =>
      simp only [hp,Option.some.injEq,Prod.mk.injEq] at h
      simp [← h.2]
    | some r =>
      obtain ⟨f,rs⟩ := r
      simp only [hp] at h
      split_ifs at h with hb
      · obtain ⟨rfl,rfl⟩ := Prod.mk.inj (Option.some.inj h)
        have hlt := QueueEntry.before_iff.mp hb
        intro e' he'
        rcases List.mem_cons.mp ((popFirst_perm hp).mem_iff.mpr he') with rfl | he'
        · exact hlt.le
        · exact hlt.le.trans (ih hp e' he')
      · obtain ⟨rfl,rfl⟩ := Prod.mk.inj (Option.some.inj h)
        intro e' he'
        rcases List.mem_cons.mp he' with rfl | he'
        · exact not_lt.mp fun hlt => hb (QueueEntry.before_iff.mpr hlt)
        · exact ih hp e' he'

theorem live_erase {entries : List QueueEntry} {cancelled : Finset String} {id : String}
    (h : id ∉ entries.map QueueEntry.id) : live (cancelled.erase id) entries = live cancelled entries := by
  refine List.filter_congr fun e he => ?_
  have hne : e.id ≠ id := fun heq => h (heq ▸ List.mem_map_of_mem he)
  simp [hne]

/-- Popping one class takes its first live entry, if it has one. -/
structure Front (entries others : List QueueEntry) (cancelled : Finset String)
    (popped : Option ControlCommand) (entries' : List QueueEntry) (cancelled' : Finset String) :
    Prop where
  sub : entries'.Subperm entries
  others_eq : live cancelled' others = live cancelled others
  none : popped = none → live cancelled entries = [] ∧ entries' = []
  some : ∀ command, popped = some command → ∃ e : QueueEntry, e.command = command ∧
    Ranked.sort QueueEntry.rank (live cancelled entries) =
      e :: Ranked.sort QueueEntry.rank (live cancelled' entries')

theorem popValid_front {entries : List QueueEntry} {active cancelled : Finset String} {fuel : ℕ}
    (others : List QueueEntry)
    (hf : entries.length ≤ fuel) (h : Tidy (entries ++ others) active cancelled)
    (hd : Ranked.Distinct QueueEntry.rank entries) :
    Front entries others cancelled (popValid entries active cancelled fuel).1
      (popValid entries active cancelled fuel).2.1 (popValid entries active cancelled fuel).2.2.2 := by
  induction fuel generalizing entries active cancelled with
  | zero =>
    rw [List.eq_nil_of_length_eq_zero (Nat.le_zero.mp hf)]
    exact ⟨.refl _,rfl,fun _ => ⟨rfl,rfl⟩,by simp [popValid]⟩
  | succ fuel ih =>
    rw [popValid]
    cases hp : popFirst entries with
    | none =>
      rw [popFirst_eq_none hp]
      exact ⟨.refl _,rfl,fun _ => ⟨rfl,rfl⟩,by simp⟩
    | some r =>
      obtain ⟨first,rest⟩ := r
      have hperm := popFirst_perm hp
      have htidy : Tidy (first :: (rest ++ others)) active cancelled :=
        h.perm (hperm.append_right others).symm
      have hnew := (List.nodup_cons.mp htidy.nodup).1
      rw [List.map_append,List.mem_append,not_or] at hnew
      have hdrest : Ranked.Distinct QueueEntry.rank rest :=
        (hd.perm hperm.symm).sublist (List.sublist_cons_self _ _)
      have hlen : rest.length ≤ fuel := by
        have := hperm.length_eq
        rw [List.length_cons] at this
        omega
      have hlive : (live cancelled (first :: rest)).Perm (live cancelled entries) := hperm.filter _
      dsimp only
      by_cases hc : first.command.commandId ∈ cancelled
      · rw [if_pos hc]
        have hspec := ih hlen htidy.tail hdrest
        have heq : live (cancelled.erase first.id) rest = live cancelled rest := live_erase hnew.1
        have hcons : live cancelled (first :: rest) = live cancelled rest :=
          List.filter_cons_of_neg (by simp [show first.id ∈ cancelled from hc])
        rw [hcons] at hlive
        refine ⟨hspec.sub.trans ((List.sublist_cons_self _ _).subperm.trans hperm.subperm),
          hspec.others_eq.trans (live_erase hnew.2),fun hn => ?_,fun c hsome => ?_⟩
        · obtain ⟨hl,hr⟩ := hspec.none hn
          change live (cancelled.erase first.id) rest = [] at hl
          rw [heq] at hl
          exact ⟨List.perm_nil.mp (hl ▸ hlive.symm),hr⟩
        · obtain ⟨e,he,hs⟩ := hspec.some c hsome
          change Ranked.sort _ (live (cancelled.erase first.id) rest) = _ at hs
          rw [heq] at hs
          exact ⟨e,he,(Ranked.sort_congr (hdrest.sublist List.filter_sublist) hlive).symm.trans hs⟩
      · rw [if_neg hc]
        have hcons : live cancelled (first :: rest) = first :: live cancelled rest :=
          List.filter_cons_of_pos (by simp [show first.id ∉ cancelled from hc])
        rw [hcons] at hlive
        refine ⟨(List.sublist_cons_self _ _).subperm.trans hperm.subperm,rfl,by simp,fun c hsome => ?_⟩
        refine ⟨first,Option.some.inj hsome,?_⟩
        refine Ranked.sort_first (hd.sublist List.filter_sublist) hlive fun e he => ?_
        exact popFirst_first hp e (List.mem_of_mem_filter he)

theorem Kept.of_popped {q' : TransferCommandQueue} (h : q.Kept) (hok : q'.Ok)
    (hs : q'.entries.Subperm q.entries) (hseq : q'.sequence = q.sequence) : q'.Kept := by
  refine ⟨hok,fun e he => ?_,?_⟩
  · rw [hseq]
    exact h.fresh e (hs.subset he)
  · obtain ⟨l,hp,hsub⟩ := hs
    exact ((hp.map _).nodup_iff).mp (List.Nodup.sublist (hsub.map _) h.apart)

theorem PriorityQueue.pop_of_urgent {p : PriorityQueue} {e : QueueEntry} {rest : List QueueEntry}
    (h : p.urgent = e :: rest) (allowShadow : Bool) :
    p.pop allowShadow = (some e.command,{ p with urgent := rest }) := by
  simp only [PriorityQueue.pop,h]

theorem Kept.pop_answer (h : q.Kept) (allowShadow : Bool) :
    (q.pop allowShadow).2.priorityQueue = (q.priorityQueue.pop allowShadow).2 ∧
      (q.pop allowShadow).1 = (q.priorityQueue.pop allowShadow).1 ∧ (q.pop allowShadow).2.Kept := by
  have hok := (pop_spec h.ok allowShadow).tidy
  have htidy := (popValid_spec q.urgent.length h.ok).tidy
  have hu := popValid_front q.shadow le_rfl h.ok h.urgent_distinct
  unfold pop at hok ⊢
  dsimp only at hok ⊢
  generalize popValid q.urgent q.activeIds q.cancelledIds q.urgent.length = u at *
  obtain ⟨popped,urgent,active,cancelled⟩ := u
  dsimp only at *
  cases popped with
  | some c =>
    obtain ⟨e,rfl,hs⟩ := hu.some c rfl
    rw [if_pos (by simp)] at hok ⊢
    rw [show q.priorityQueue.pop allowShadow = _ from PriorityQueue.pop_of_urgent hs allowShadow]
    refine ⟨?_,rfl,h.of_popped hok (hu.sub.append (.refl _)) rfl⟩
    simp only [priorityQueue,hu.others_eq]
  | none =>
    obtain ⟨hnone,rfl⟩ := hu.none rfl
    have hurgent : q.priorityQueue.urgent = [] := by
      simp [priorityQueue,hnone,Ranked.sort]
    cases allowShadow with
    | false =>
      rw [if_pos (by simp)] at hok ⊢
      have hpop : q.priorityQueue.pop false = (none,q.priorityQueue) := by
        cases hshadow : q.priorityQueue.shadow with
        | nil => simp only [PriorityQueue.pop,hurgent,hshadow]
        | cons e rest => simp [PriorityQueue.pop,hurgent,hshadow]
      rw [hpop]
      refine ⟨?_,rfl,h.of_popped hok (hu.sub.append (.refl _)) rfl⟩
      simp only [priorityQueue,hu.others_eq,hnone]
      rfl
    | true =>
      rw [if_neg (by simp)] at hok ⊢
      have hv := popValid_front [] le_rfl (htidy.perm List.perm_append_comm) h.shadow_distinct
      generalize popValid q.shadow active cancelled q.shadow.length = v at *
      obtain ⟨popped,shadow,active',cancelled'⟩ := v
      dsimp only at *
      have hkept := h.of_popped hok (hu.sub.append hv.sub) rfl
      cases popped with
      | none =>
        obtain ⟨hlive,rfl⟩ := hv.none rfl
        rw [hu.others_eq] at hlive
        have hshadow : q.priorityQueue.shadow = [] := by simp [priorityQueue,hlive,Ranked.sort]
        have hpop : q.priorityQueue.pop true = (none,q.priorityQueue) := by
          simp only [PriorityQueue.pop,hurgent,hshadow]
        rw [hpop]
        refine ⟨?_,rfl,hkept⟩
        simp only [priorityQueue,hnone,hlive]
        rfl
      | some c =>
        obtain ⟨e,rfl,hs⟩ := hv.some c rfl
        rw [hu.others_eq] at hs
        have hpop : q.priorityQueue.pop true = (some e.command,{ q.priorityQueue with
            shadow := Ranked.sort QueueEntry.rank (live cancelled' shadow) }) := by
          have hshadow : q.priorityQueue.shadow = _ := hs
          simp [PriorityQueue.pop,hurgent,hshadow]
        rw [hpop]
        refine ⟨?_,rfl,hkept⟩
        simp only [priorityQueue,hnone]
        rfl

/-- A call on the queue is the call on its live commands. -/
theorem Kept.call (h : q.Kept) (c : QueueCall) (hc : q.Reusable c) :
    (q.call c).1.priorityQueue = (q.priorityQueue.call c).1 ∧
      (q.call c).2 = (q.priorityQueue.call c).2 ∧ (q.call c).1.Kept := by
  cases c with
  | put command => exact h.put_answer hc
  | cancel id =>
    obtain ⟨hq,hr,hk⟩ := h.cancel_answer id
    exact ⟨hq,congrArg QueueAnswer.flag hr,hk⟩
  | get id => exact ⟨rfl,congrArg QueueAnswer.command (h.get_answer id),h⟩
  | pop allowShadow =>
    obtain ⟨hq,hr,hk⟩ := h.pop_answer allowShadow
    exact ⟨hq,congrArg QueueAnswer.command hr,hk⟩
  | pendingCommands => exact ⟨rfl,rfl,h⟩
  | urgentCount => exact ⟨rfl,congrArg QueueAnswer.count (Ranked.sort_perm _ _).length_eq.symm,h⟩
  | shadowCount => exact ⟨rfl,congrArg QueueAnswer.count (Ranked.sort_perm _ _).length_eq.symm,h⟩
  | len =>
    refine ⟨rfl,congrArg QueueAnswer.count ?_,h⟩
    simp [len,urgentCount,shadowCount,PriorityQueue.pending,priorityQueue,
      (Ranked.sort_perm _ _).length_eq]

/-- As long as no command is put under an id whose cancelled entry waits to come up, every call on
the queue answers what the priority queue of the live commands answers. -/
theorem answers_as_priorityQueue (calls : List QueueCall)
    (h : Run.AllSteps (fun q c => (call q c).1) Reusable {} calls) :
    answers call {} calls = answers PriorityQueue.call {} calls := by
  have hall (q : TransferCommandQueue) (calls : List QueueCall) (hq : q.Kept)
      (h : Run.AllSteps (fun q c => (call q c).1) Reusable q calls) :
      answers call q calls = answers PriorityQueue.call q.priorityQueue calls := by
    induction calls generalizing q with
    | nil => rfl
    | cons c calls ih =>
      obtain ⟨hstep,hanswer,hk⟩ := hq.call c h.1
      rw [answers,answers,hanswer,ih _ hk h.2,hstep]
  refine hall {} calls ⟨⟨by simp [entries],by simp [entries],by simp⟩,by simp [entries],?_⟩ h
  simp [entries]

def queuedCommand (id : String) (queueClass : CommandQueueClass) (deadlineMs : ℚ) : ControlCommand :=
  { commandId := id, kind := .offloadContext, queueClass := queueClass, deadlineMs := some deadlineMs
    targets_nodup := List.nodup_nil }

/-- The cancelled entry of an id comes up before the id is used again. -/
def liveCalls : List QueueCall :=
  [.put (queuedCommand "x" .urgent 2),.put (queuedCommand "y" .urgent 3),.put (queuedCommand "z" .shadow 1),
    .cancel "x",.len,.pop false,.put (queuedCommand "x" .urgent 1),.pendingCommands,.pop true,.pop false,.pop true]

theorem answers_as_priorityQueue_sample :
    answers call {} liveCalls = answers PriorityQueue.call {} liveCalls ∧
      answers PriorityQueue.call {} liveCalls = [.done,.done,.done,.flag true,.count 2,
        .command (some (queuedCommand "y" .urgent 3)),.done,
        .commands [queuedCommand "x" .urgent 1,queuedCommand "z" .shadow 1],
        .command (some (queuedCommand "x" .urgent 1)),.command none,.command (some (queuedCommand "z" .shadow 1))] :=
  ⟨answers_as_priorityQueue liveCalls (by decide +kernel),rfl⟩

/-- An id is used again while its cancelled entry waits under a later deadline. -/
def reusedId : List QueueCall :=
  [.put (queuedCommand "x" .urgent 2),.cancel "x",.put (queuedCommand "x" .urgent 1),.len,.pop true]

/-- The live entry is dropped in place of the cancelled one, which is popped. -/
theorem cancelled_command_popped :
    answers call {} reusedId =
        [.done,.flag true,.done,.count 0,.command (some (queuedCommand "x" .urgent 2))] ∧
      answers PriorityQueue.call {} reusedId =
        [.done,.flag true,.done,.count 1,.command (some (queuedCommand "x" .urgent 1))] ∧
      answers call {} reusedId ≠ answers PriorityQueue.call {} reusedId := by
  have hcode : answers call {} reusedId =
      [.done,.flag true,.done,.count 0,.command (some (queuedCommand "x" .urgent 2))] := rfl
  have hqueue : answers PriorityQueue.call {} reusedId =
      [.done,.flag true,.done,.count 1,.command (some (queuedCommand "x" .urgent 1))] := rfl
  refine ⟨hcode,hqueue,?_⟩
  rw [hcode,hqueue]
  simp

end TransferCommandQueue
end BeliefKV
