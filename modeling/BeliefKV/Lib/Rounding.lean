import Mathlib.Algebra.Order.Field.Rat
import Mathlib.Algebra.BigOperators.Group.List.Basic
import Mathlib.Order.Monotone.Basic
import Mathlib.Tactic.Linarith
import Mathlib.Tactic.NormNum

/-! Rounding to the numbers of a floating-point format, as a function on the rationals. -/
namespace BeliefKV

/-- A rounding keeps the order, the numbers of the format, and the whole numbers that the format holds. -/
structure Rounding (fl : ℚ → ℚ) : Prop where
  mono : Monotone fl
  idem : ∀ x, fl (fl x) = fl x
  whole : ∀ n : ℕ, n ≤ 2 ^ 53 → fl n = n

theorem rounding_id : Rounding id := ⟨monotone_id,fun _ => rfl,fun _ _ => rfl⟩

namespace Rounding
variable {fl : ℚ → ℚ} (h : Rounding fl)
include h

theorem zero : fl 0 = 0 := by simpa using h.whole 0 (by norm_num)

theorem one : fl 1 = 1 := by simpa using h.whole 1 (by norm_num)

theorem nonneg {x : ℚ} (hx : 0 ≤ x) : 0 ≤ fl x := by
  have hle := h.mono hx
  rwa [h.zero] at hle

/-- A number of the format is at most its rounded sum with what is not negative. -/
theorem le_add {a b : ℚ} (ha : fl a = a) (hb : 0 ≤ b) : a ≤ fl (a + b) := by
  have hle := h.mono (le_add_of_nonneg_right hb : a ≤ a + b)
  rwa [ha] at hle

end Rounding

/-! ## The later of two times -/

section Latest
variable {fl : ℚ → ℚ}

theorem fl_max {a b : ℚ} (ha : fl a = a) (hb : fl b = b) : fl (max a b) = max a b := by
  rcases max_choice a b with hmax | hmax
  · rw [hmax,ha]
  · rw [hmax,hb]

theorem fl_foldl_max {l : List ℚ} (hl : ∀ x ∈ l, fl x = x) : ∀ {a : ℚ}, fl a = a →
    fl (l.foldl max a) = l.foldl max a := by
  induction l with
  | nil => exact fun ha => ha
  | cons x l ih =>
    intro a ha
    exact ih (fun y hy => hl y (List.mem_cons_of_mem x hy)) (fl_max ha (hl x List.mem_cons_self))

end Latest

/-! ## Sums -/

/-- The sum from the left, with a rounding after each addition. -/
def roundedSum (fl : ℚ → ℚ) (l : List ℚ) : ℚ := l.foldl (fun total x => fl (total + x)) 0

theorem fl_roundedSum {fl : ℚ → ℚ} (h : Rounding fl) (l : List ℚ) : fl (roundedSum fl l) = roundedSum fl l := by
  have hfold : ∀ {a : ℚ}, fl a = a → fl (l.foldl (fun total x => fl (total + x)) a) =
      l.foldl (fun total x => fl (total + x)) a := by
    induction l with
    | nil => exact fun ha => ha
    | cons x l ih => exact fun _ => ih (h.idem _)
  exact hfold h.zero

/-! ## Whole numbers that are added to a sum -/

/-- Each number is converted and added, with a rounding after either. -/
def accumulate (fl : ℚ → ℚ) (l : List ℕ) (s : ℚ) : ℚ := l.foldl (fun s n => fl (s + fl n)) s

section Accumulate
variable {fl : ℚ → ℚ} (h : Rounding fl)
include h

theorem le_accumulate {b : ℚ} (hb : fl b = b) (l : List ℕ) : ∀ {s : ℚ}, b ≤ s → b ≤ accumulate fl l s := by
  induction l with
  | nil => exact fun hs => hs
  | cons n l ih =>
    intro s hs
    refine ih ?_
    have hn : 0 ≤ fl n := h.nonneg (Nat.cast_nonneg n)
    calc b = fl b := hb.symm
      _ ≤ fl (s + fl n) := h.mono (by linarith)

/-- Where something is added, the sum is at least one. -/
theorem one_le_accumulate {l : List ℕ} {n : ℕ} (hn : n ∈ l) (hpos : 0 < n) : ∀ {s : ℚ}, 0 ≤ s →
    1 ≤ accumulate fl l s := by
  induction l with
  | nil => exact absurd hn List.not_mem_nil
  | cons m l ih =>
    intro s hs
    have hm : 0 ≤ fl m := h.nonneg (Nat.cast_nonneg m)
    rcases List.mem_cons.mp hn with rfl | hn
    · refine le_accumulate h h.one l ?_
      have hone : 1 ≤ fl n := by
        have hle := h.mono (Nat.one_le_cast.mpr hpos : (1 : ℚ) ≤ n)
        rwa [h.one] at hle
      calc (1 : ℚ) = fl 1 := h.one.symm
        _ ≤ fl (s + fl n) := h.mono (by linarith)
    · exact ih hn (h.nonneg (by linarith))

theorem accumulate_zero {l : List ℕ} (hl : ∀ n ∈ l, n = 0) : accumulate fl l 0 = 0 := by
  induction l with
  | nil => rfl
  | cons n l ih =>
    have hstep : fl ((0 : ℚ) + fl n) = 0 := by
      rw [hl n List.mem_cons_self,Nat.cast_zero,h.zero,add_zero,h.zero]
    change accumulate fl l (fl (0 + fl n)) = 0
    rw [hstep]
    exact ih fun m hm => hl m (List.mem_cons_of_mem n hm)

/-- Sums that the format holds are exact. -/
theorem accumulate_exact (l : List ℕ) : ∀ {k : ℕ}, k + l.sum ≤ 2 ^ 53 → accumulate fl l k = (k + l.sum : ℕ) := by
  induction l with
  | nil => exact fun _ => by simp [accumulate]
  | cons n l ih =>
    intro k hk
    rw [List.sum_cons] at hk
    have hstep : fl ((k : ℚ) + fl n) = ((k + n : ℕ) : ℚ) := by
      rw [h.whole n (by omega),← Nat.cast_add]
      exact h.whole (k + n) (by omega)
    change accumulate fl l (fl (k + fl n)) = _
    rw [hstep,ih (by omega),List.sum_cons,Nat.add_assoc]

end Accumulate
end BeliefKV
