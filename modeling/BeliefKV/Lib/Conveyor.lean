import Mathlib.Data.List.ReduceOption
import Mathlib.Order.Basic

/-! A queue from which one consumer takes items, one after another, and writes them down. -/
namespace BeliefKV

/-- The consumer stops when it takes the end mark, or when it fails. -/
structure Conveyor (α : Type) where
  queue : List (Option α) := []
  inHand : Option α := none
  written : List α := []
  running : Bool := true
  failed : Bool := false

/-- How far the call that closes a conveyor has come. -/
inductive Closing
  | idle
  | marking
  | joining
  | closed
  deriving DecidableEq, Repr

namespace Conveyor
variable {α : Type} {c c' : Conveyor α} {ahead : List α}

def put (c : Conveyor α) (item : Option α) : Conveyor α := { c with queue := c.queue ++ [item] }

/-- What the consumer does next as long as all goes well. -/
inductive Works : Conveyor α → Conveyor α → Prop
  | take (c : Conveyor α) (a : α) (rest : List (Option α)) (hrunning : c.running = true) (hfree : c.inHand = none)
      (hqueue : c.queue = some a :: rest) : Works c { c with queue := rest, inHand := some a }
  | write (c : Conveyor α) (a : α) (hrunning : c.running = true) (hhand : c.inHand = some a) :
      Works c { c with inHand := none, written := c.written ++ [a] }
  | stop (c : Conveyor α) (rest : List (Option α)) (hrunning : c.running = true) (hfree : c.inHand = none)
      (hqueue : c.queue = none :: rest) : Works c { c with queue := rest, running := false }

/-- The consumer may also fail, at any time. -/
inductive Consumes : Conveyor α → Conveyor α → Prop
  | work {c c' : Conveyor α} (h : Works c c') : Consumes c c'
  | fail (c : Conveyor α) (hrunning : c.running = true) : Consumes c { c with running := false, failed := true }

/-- The items in the order in which they were put. -/
def items (c : Conveyor α) : List α := c.written ++ (c.inHand.toList ++ c.queue.reduceOption)

theorem put_items (c : Conveyor α) (a : α) : (c.put (some a)).items = c.items ++ [a] := by
  simp [items,put,List.reduceOption_append]

theorem put_mark_items (c : Conveyor α) : (c.put none).items = c.items := by
  simp [items,put,List.reduceOption_append]

/-- The consumer changes neither the items nor their order. -/
theorem Works.items (h : Works c c') : c'.items = c.items := by
  cases h with
  | take a rest hrunning hfree hqueue => simp [Conveyor.items,hfree,hqueue]
  | write a hrunning hhand => simp [Conveyor.items,hhand]
  | stop rest hrunning hfree hqueue => simp [Conveyor.items,hqueue]

theorem Consumes.items (h : Consumes c c') : c'.items = c.items := by
  cases h with
  | work h => exact h.items
  | fail hrunning => rfl

theorem Works.running (h : Works c c') : c.running = true := by
  cases h with
  | take a rest hrunning hfree hqueue => exact hrunning
  | write a hrunning hhand => exact hrunning
  | stop rest hrunning hfree hqueue => exact hrunning

theorem Consumes.running (h : Consumes c c') : c.running = true := by
  cases h with
  | work h => exact h.running
  | fail hrunning => exact hrunning

theorem Works.failed (h : Works c c') : c'.failed = c.failed := by
  cases h with
  | take a rest hrunning hfree hqueue => rfl
  | write a hrunning hhand => rfl
  | stop rest hrunning hfree hqueue => rfl

/-- A consumer that has failed stays so. -/
theorem Consumes.failed_of (h : Consumes c c') (hfine : c'.failed = false) : c.failed = false := by
  cases h with
  | work h => exact h.failed ▸ hfine
  | fail hrunning => exact absurd hfine (by simp)

theorem Works.length_le (h : Works c c') : c'.queue.length ≤ c.queue.length := by
  cases h with
  | take a rest hrunning hfree hqueue => simp [hqueue]
  | write a hrunning hhand => simp
  | stop rest hrunning hfree hqueue => simp [hqueue]

theorem Consumes.length_le (h : Consumes c c') : c'.queue.length ≤ c.queue.length := by
  cases h with
  | work h => exact h.length_le
  | fail hrunning => exact Nat.le_refl _

/-- A running consumer can go on while there is something for it to do. -/
theorem exists_works (hrunning : c.running = true) (hwork : c.inHand ≠ none ∨ c.queue ≠ []) :
    ∃ c', Works c c' := by
  cases hhand : c.inHand with
  | some a => exact ⟨_,.write c a hrunning hhand⟩
  | none =>
    cases hqueue : c.queue with
    | nil => exact absurd (hwork.resolve_left (not_not.mpr hhand)) (not_not.mpr hqueue)
    | cons item rest =>
      cases item with
      | none => exact ⟨_,.stop c rest hrunning hhand hqueue⟩
      | some a => exact ⟨_,.take c a rest hrunning hhand hqueue⟩

/-- What the consumer has still to do: to take and to write each item of the queue. -/
def load (c : Conveyor α) : ℕ := 2 * c.queue.length + c.inHand.toList.length

theorem Works.load_lt (h : Works c c') : c'.load < c.load := by
  cases h with
  | take a rest hrunning hfree hqueue =>
    simp only [load,hfree,hqueue,List.length_cons,Option.toList_some,Option.toList_none,List.length_nil]
    omega
  | write a hrunning hhand => simp [load,hhand]
  | stop rest hrunning hfree hqueue =>
    simp only [load,hqueue,List.length_cons]
    omega

theorem put_load (c : Conveyor α) (item : Option α) : (c.put item).load = c.load + 2 := by
  simp only [load,put,List.length_append,List.length_singleton]
  omega

/-! ## The end mark -/

/-- These items come before the first end mark; once the consumer has stopped, it has written them and no others. -/
def Ends (ahead : List α) (c : Conveyor α) : Prop :=
  (c.running = true ∧ ∃ waiting rest, c.queue = waiting.map some ++ none :: rest ∧
      ahead = c.written ++ (c.inHand.toList ++ waiting)) ∨
    (c.running = false ∧ c.failed = false ∧ c.written = ahead) ∨
    (c.running = false ∧ c.failed = true ∧ c.written <+: ahead)

theorem reduceOption_map_some (waiting : List α) : (waiting.map some).reduceOption = waiting := by
  induction waiting with
  | nil => rfl
  | cons a waiting ih => simp [ih]

/-- Without an end mark the consumer goes on. -/
theorem Works.unmarked {waiting : List α} (h : Works c c') (hqueue : c.queue = waiting.map some) :
    (∃ waiting' : List α, c'.queue = waiting'.map some) ∧ c'.running = true := by
  cases h with
  | take a rest hrunning hfree hqueue' =>
    cases waiting with
    | nil => exact absurd (hqueue'.symm.trans hqueue) (by simp)
    | cons b waiting => exact ⟨⟨waiting,(List.cons.inj (hqueue'.symm.trans hqueue)).2⟩,hrunning⟩
  | write a hrunning hhand => exact ⟨⟨waiting,hqueue⟩,hrunning⟩
  | stop rest hrunning hfree hqueue' =>
    cases waiting with
    | nil => exact absurd (hqueue'.symm.trans hqueue) (by simp)
    | cons b waiting => exact absurd (hqueue'.symm.trans hqueue) (by simp)

/-- While there is no end mark, the consumer stops only if it fails. -/
theorem Consumes.unmarked {waiting : List α} (h : Consumes c c') (hqueue : c.queue = waiting.map some) :
    (∃ waiting' : List α, c'.queue = waiting'.map some) ∧ (c'.running = false → c'.failed = true) := by
  cases h with
  | work h =>
    obtain ⟨hwaiting,hrunning⟩ := h.unmarked hqueue
    exact ⟨hwaiting,fun hstopped => absurd (hrunning.symm.trans hstopped) (by simp)⟩
  | fail hrunning => exact ⟨⟨waiting,hqueue⟩,fun _ => rfl⟩

/-- The mark is put behind all the items. -/
theorem ends_mark {waiting : List α} (hqueue : c.queue = waiting.map some)
    (hfails : c.running = false → c.failed = true) : Ends c.items (c.put none) := by
  cases hrunning : c.running with
  | false => exact .inr (.inr ⟨hrunning,hfails hrunning,List.prefix_append _ _⟩)
  | true =>
    refine .inl ⟨hrunning,waiting,[],?_,?_⟩
    · rw [put,hqueue]
    · rw [items,hqueue,reduceOption_map_some]
      rfl

theorem Ends.put (h : Ends ahead c) (item : Option α) : Ends ahead (c.put item) := by
  obtain ⟨hrunning,waiting,rest,hqueue,hahead⟩ | h := h
  · refine .inl ⟨hrunning,waiting,rest ++ [item],?_,hahead⟩
    rw [Conveyor.put,hqueue,List.append_assoc,List.cons_append]
  · exact .inr h

theorem Ends.consumes (h : Ends ahead c) (hstep : Consumes c c') : Ends ahead c' := by
  obtain ⟨hrunning,waiting,rest,hqueue,hahead⟩ | hstopped := h
  · cases hstep with
    | work hstep =>
      cases hstep with
      | take a rest' _ hfree hqueue' =>
        cases waiting with
        | nil => exact absurd (hqueue'.symm.trans hqueue) (by simp)
        | cons b waiting =>
          obtain ⟨hab,hrest⟩ := List.cons.inj (hqueue'.symm.trans hqueue)
          obtain rfl := Option.some.inj hab
          refine .inl ⟨hrunning,waiting,rest,hrest,?_⟩
          rw [hahead,hfree]
          rfl
      | write a _ hhand =>
        refine .inl ⟨hrunning,waiting,rest,hqueue,?_⟩
        rw [hahead,hhand,List.append_assoc]
        rfl
      | stop rest' _ hfree hqueue' =>
        cases waiting with
        | cons b waiting => exact absurd (hqueue'.symm.trans hqueue) (by simp)
        | nil =>
          have hfailed : c.failed = false ∨ c.failed = true := by cases c.failed <;> simp
          rw [hfree,List.append_nil] at hahead
          obtain hfailed | hfailed := hfailed
          · exact .inr (.inl ⟨rfl,hfailed,by rw [hahead]; simp⟩)
          · exact .inr (.inr ⟨rfl,hfailed,by rw [hahead]; simp⟩)
    | fail _ =>
      refine .inr (.inr ⟨rfl,rfl,?_⟩)
      rw [hahead]
      exact List.prefix_append _ _
  · have hstopped : c.running = false := hstopped.elim And.left And.left
    exact absurd (hstep.running.symm.trans hstopped) (by simp)

/-! ## How a conveyor is closed -/

/-- Until its end mark is put a conveyor has none, so that its consumer stops only if it fails. Afterwards the mark is ahead
of the consumer, or the consumer has stopped. -/
structure Closable (closing : Closing) (c : Conveyor α) : Prop where
  unmarked : closing = .idle ∨ closing = .marking →
    (∃ waiting : List α, c.queue = waiting.map some) ∧ (c.running = false → c.failed = true)
  ends : closing = .joining → ∃ ahead, Ends ahead c

variable {closing : Closing}

theorem closable_start : Closable .idle ({} : Conveyor α) where
  unmarked _ := ⟨⟨[],rfl⟩,fun h => absurd h (by simp)⟩
  ends h := absurd h (by simp)

theorem closable_closed : Closable .closed c where
  unmarked h := absurd h (by simp)
  ends h := absurd h (by simp)

theorem Closable.put (h : Closable closing c) (a : α) : Closable closing (c.put (some a)) where
  unmarked hopen := by
    obtain ⟨⟨waiting,hqueue⟩,hfails⟩ := h.unmarked hopen
    refine ⟨⟨waiting ++ [a],?_⟩,hfails⟩
    simp [Conveyor.put,hqueue]
  ends hjoining := by
    obtain ⟨ahead,hends⟩ := h.ends hjoining
    exact ⟨ahead,hends.put _⟩

theorem Closable.consumes (h : Closable closing c) (hstep : Consumes c c') : Closable closing c' where
  unmarked hopen := by
    obtain ⟨⟨waiting,hqueue⟩,-⟩ := h.unmarked hopen
    exact hstep.unmarked hqueue
  ends hjoining := by
    obtain ⟨ahead,hends⟩ := h.ends hjoining
    exact ⟨ahead,hends.consumes hstep⟩

theorem Closable.marking (h : Closable .idle c) : Closable .marking c :=
  ⟨fun _ => h.unmarked (.inl rfl),fun hjoining => absurd hjoining (by simp)⟩

theorem Closable.ends_items (h : Closable .marking c) : Ends c.items (c.put none) := by
  obtain ⟨⟨waiting,hqueue⟩,hfails⟩ := h.unmarked (.inr rfl)
  exact ends_mark hqueue hfails

theorem Closable.mark (h : Closable .marking c) : Closable .joining (c.put none) :=
  ⟨fun hopen => absurd hopen (by simp),fun _ => ⟨c.items,h.ends_items⟩⟩

/-- A consumer that has stopped before the mark has failed. -/
theorem Closable.pass (h : Closable .marking c) (hstopped : c.running = false) : Closable .joining c := by
  have hfailed := (h.unmarked (.inr rfl)).2 hstopped
  exact ⟨fun hopen => absurd hopen (by simp),fun _ => ⟨c.items,.inr (.inr ⟨hstopped,hfailed,List.prefix_append _ _⟩)⟩⟩

end Conveyor
end BeliefKV
