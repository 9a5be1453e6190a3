import Mathlib.Data.List.DropRight
import Mathlib.Data.Finset.Basic
import Mathlib.Algebra.Order.Group.Nat
import Mathlib.Tactic

/-! Bounded revision journals. Every entry carries the interval of revisions it covers;
appending beyond the bound forgets the oldest entries. A reader that remembers a revision
takes the younger suffix and can tell whether that suffix still reaches back to it. -/
namespace BeliefKV.Journal
variable {α : Type*}

/-- Append to a double-ended queue of bounded length. -/
def push (bound : ℕ) (j : List α) (x : α) : List α := (j ++ [x]).rtake bound

def pushAll (bound : ℕ) (j xs : List α) : List α := xs.foldl (push bound) j

theorem length_rtake_le (n : ℕ) (xs : List α) : (xs.rtake n).length ≤ n := by
  simp only [List.rtake,List.length_drop]
  omega

theorem rtake_of_length_le {n : ℕ} {xs : List α} (h : xs.length ≤ n) : xs.rtake n = xs := by
  simp [List.rtake,Nat.sub_eq_zero_of_le h]

theorem rtake_append (n : ℕ) (xs ys : List α) :
    (xs ++ ys).rtake n = xs.rtake (n - ys.length) ++ ys.rtake n := by
  simp only [List.rtake,List.length_append,List.drop_append]
  by_cases h : ys.length ≤ n
  · congr 2 <;> omega
  · rw [List.drop_of_length_le (l := xs) (by omega),List.drop_of_length_le (l := xs) (by omega)]
    congr 2
    omega

/-- Forgetting before appending forgets nothing more. -/
theorem rtake_rtake_append (n : ℕ) (xs ys : List α) :
    (xs.rtake n ++ ys).rtake n = (xs ++ ys).rtake n := by
  simp only [List.rtake,List.length_append,List.length_drop,List.drop_append,List.drop_drop]
  congr 2
  · omega
  · omega

theorem pushAll_eq (bound : ℕ) (j xs : List α) (h : j.length ≤ bound) :
    pushAll bound j xs = (j ++ xs).rtake bound := by
  induction xs generalizing j with
  | nil => simp [pushAll,rtake_of_length_le h]
  | cons x xs ih =>
    change pushAll bound (push bound j x) xs = _
    rw [push,ih _ (length_rtake_le _ _),rtake_rtake_append,List.append_assoc]
    rfl

theorem pushAll_concat (bound : ℕ) (j xs : List α) (x : α) :
    pushAll bound j (xs ++ [x]) = push bound (pushAll bound j xs) x := by
  simp [pushAll,List.foldl_append]

/-- The entries younger than a revision, found by scanning backwards from the newest one. -/
def since (rev : α → ℕ) (r : ℕ) (j : List α) : List α := j.rtakeWhile fun x => decide (r < rev x)

theorem since_append (rev : α → ℕ) (r : ℕ) (old new : List α)
    (ho : ∀ x ∈ old, rev x ≤ r) (hn : ∀ x ∈ new, r < rev x) :
    since rev r (old ++ new) = new := by
  unfold since
  induction new using List.reverseRecOn with
  | nil =>
    rw [List.append_nil,List.rtakeWhile_eq_nil_iff]
    intro hl
    simpa using ho _ (List.getLast_mem hl)
  | append_singleton xs x ih =>
    rw [← List.append_assoc,List.rtakeWhile_concat_pos]
    · rw [ih (fun y hy => hn y (by simp [hy]))]
    · simpa using hn x (by simp)

/-- Consecutive entries: the first one starts at `a`, each starts where its predecessor
ended and moves forward, and the last one ends at `b`. -/
inductive Chain (start rev : α → ℕ) : ℕ → List α → ℕ → Prop
  | nil (a : ℕ) : Chain start rev a [] a
  | cons {a b : ℕ} {x : α} {xs : List α} (hs : start x = a) (hr : a < rev x)
      (tail : Chain start rev (rev x) xs b) : Chain start rev a (x :: xs) b

namespace Chain
variable {start rev : α → ℕ} {a b c : ℕ} {xs ys : List α}

theorem append (h : Chain start rev a xs b) (h' : Chain start rev b ys c) :
    Chain start rev a (xs ++ ys) c := by
  induction h with
  | nil => exact h'
  | cons hs hr _ ih => exact .cons hs hr (ih h')

theorem le (h : Chain start rev a xs b) : a ≤ b := by
  induction h with
  | nil a => exact le_refl a
  | cons _ hr _ ih => exact hr.le.trans ih

theorem mem_rev (h : Chain start rev a xs b) {x : α} (hx : x ∈ xs) : a < rev x ∧ rev x ≤ b := by
  induction h with
  | nil => simp at hx
  | cons hs hr tail ih =>
    rcases List.mem_cons.mp hx with rfl | hx
    · exact ⟨hr,tail.le⟩
    · have := ih hx
      omega

theorem eq_nil_of_eq (h : Chain start rev a xs a) : xs = [] := by
  cases h with
  | nil => rfl
  | cons hs hr tail =>
    have := tail.le
    omega

theorem length_le (h : Chain start rev a xs b) : a + xs.length ≤ b := by
  induction h with
  | nil a => exact le_refl a
  | cons _ hr _ ih =>
    rw [List.length_cons]
    omega

/-- Forgetting at least one old entry moves the start of the chain forward. -/
theorem drop (h : Chain start rev a xs b) (n : ℕ) (hn : n ≤ xs.length) :
    ∃ a', Chain start rev a' (xs.drop n) b ∧ a + n ≤ a' := by
  induction n generalizing a xs with
  | zero => exact ⟨a,h,le_rfl⟩
  | succ n ih =>
    cases h with
    | nil => simp at hn
    | @cons _ _ x xs hs hr tail =>
      obtain ⟨a',ha,hle⟩ := ih tail (by simpa using hn)
      exact ⟨a',ha,by omega⟩

end Chain

/-- The reader's gap scan: advance the covered revision entry by entry and stop with `none`
at the first entry that starts beyond it. -/
def cover (start rev : α → ℕ) : ℕ → List α → Option ℕ
  | covered, [] => some covered
  | covered, x :: xs =>
    if covered < start x then none else cover start rev (max covered (rev x)) xs

theorem Chain.cover {start rev : α → ℕ} {a b : ℕ} {xs : List α} (h : Chain start rev a xs b) :
    Journal.cover start rev a xs = some b := by
  induction h with
  | nil => rfl
  | cons hs hr _ ih =>
    rw [Journal.cover,if_neg (by omega),max_eq_right hr.le]
    exact ih

/-- A reader inside the first entry is covered by it. -/
theorem Chain.cover_of_le {start rev : α → ℕ} {a b r : ℕ} {xs : List α} (h : Chain start rev a xs b)
    (har : a ≤ r) (hyoung : ∀ x ∈ xs, r < rev x) (hne : xs ≠ []) :
    Journal.cover start rev r xs = some b := by
  cases h with
  | nil => contradiction
  | @cons _ _ x xs hs hr tail =>
    have hx := hyoung x (by simp)
    rw [Journal.cover,if_neg (by omega),max_eq_right hx.le]
    exact tail.cover

/-- Forgetting an entry that the reader has not seen leaves a gap. -/
theorem Chain.cover_drop {start rev : α → ℕ} {a b r : ℕ} {xs : List α} (h : Chain start rev a xs b)
    (hyoung : ∀ x ∈ xs, r < rev x) {n : ℕ} (hpos : 0 < n) (hn : n < xs.length) :
    Journal.cover start rev r (xs.drop n) = none := by
  cases h with
  | nil => simp at hn
  | @cons _ _ x xs hs hr tail =>
    obtain ⟨k,rfl⟩ := Nat.exists_eq_succ_of_ne_zero hpos.ne'
    simp only [List.length_cons,Nat.succ_eq_add_one,Nat.add_lt_add_iff_right] at hn
    obtain ⟨a',htail,hle⟩ := tail.drop k hn.le
    have hx := hyoung x (by simp)
    cases hrest : xs.drop k with
    | nil =>
      have hlen := congrArg List.length hrest
      simp only [List.length_drop,List.length_nil] at hlen
      omega
    | cons y ys =>
      rw [hrest] at htail
      rw [List.drop_succ_cons,hrest]
      cases htail with
      | cons hstart _ _ => rw [Journal.cover,if_pos (by omega)]

theorem Chain.cover_gap {start rev : α → ℕ} {a b r : ℕ} {xs : List α}
    (h : Chain start rev a xs b) (hr : r < a) (hne : xs ≠ []) :
    Journal.cover start rev r xs = none := by
  cases h with
  | nil => contradiction
  | cons hs _ _ => rw [Journal.cover,if_pos (by omega)]

/-- The union of one field over a list of entries. -/
def collect {β : Type*} [DecidableEq β] (f : α → Finset β) (xs : List α) : Finset β :=
  xs.foldr (fun x acc => f x ∪ acc) ∅

@[simp] theorem mem_collect {β : Type*} [DecidableEq β] (f : α → Finset β) (xs : List α) (b : β) :
    b ∈ collect f xs ↔ ∃ x ∈ xs, b ∈ f x := by
  induction xs with
  | nil => simp [collect]
  | cons x xs ih =>
    change b ∈ f x ∪ collect f xs ↔ _
    simp [ih]

end BeliefKV.Journal
