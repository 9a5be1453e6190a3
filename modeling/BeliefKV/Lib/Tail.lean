import Mathlib.Data.List.Sort
import Mathlib.Order.Bounds.Basic
import Mathlib.Tactic

/-! Means of the worst part of some weighted values. -/
namespace BeliefKV.Tail
variable {α : Type} [Field α] [LinearOrder α] {values values' : List (α × α)} {tolerance mass total v p : α}

/-- From every value a part of its mass may be taken; what is taken has a mass and a total. -/
inductive Taken : List (α × α) → α → α → Prop
  | nil : Taken [] 0 0
  | cons {v p part mass total : α} {values : List (α × α)} (h : Taken values mass total) (hpart : 0 ≤ part)
      (hle : part ≤ p) : Taken ((v,p) :: values) (part + mass) (v * part + total)

/-- The mean of the worst values of some mass; of the last one only a part may count. -/
def TailMean (values : List (α × α)) (mass mean : α) : Prop :=
  IsGreatest {mean | ∃ total, Taken values mass total ∧ mean = total / mass} mean

theorem Taken.perm (hperm : values.Perm values') : ∀ {mass total : α}, Taken values mass total →
    Taken values' mass total := by
  induction hperm with
  | nil => exact fun h => h
  | cons x _ ih =>
    intro mass total h
    cases h with
    | cons h hpart hle => exact (ih h).cons hpart hle
  | swap x y values =>
    intro mass total h
    cases h with
    | cons h hpart hle =>
      cases h with
      | cons h hpart' hle' =>
        rw [add_left_comm,add_left_comm (_ * _)]
        exact (h.cons hpart hle).cons hpart' hle'
  | trans _ _ ih ih' => exact fun h => ih' (ih h)

/-- Everything may be taken. -/
theorem Taken.all (hnonneg : ∀ e ∈ values, 0 ≤ e.2) :
    Taken values (values.map Prod.snd).sum (values.map fun e => e.1 * e.2).sum := by
  induction values with
  | nil => exact .nil
  | cons e values ih =>
    obtain ⟨he,hrest⟩ := List.forall_mem_cons.mp hnonneg
    exact (ih hrest).cons he le_rfl

/-- Nothing need be taken. -/
theorem Taken.none (hnonneg : ∀ e ∈ values, 0 ≤ e.2) : Taken values 0 0 := by
  induction values with
  | nil => exact .nil
  | cons e values ih =>
    obtain ⟨he,hrest⟩ := List.forall_mem_cons.mp hnonneg
    have hnone := (ih hrest).cons (v := e.1) le_rfl he
    rw [add_zero,mul_zero,add_zero] at hnone
    exact hnone

theorem TailMean.perm {mean : α} (hperm : values.Perm values') (h : TailMean values mass mean) :
    TailMean values' mass mean := by
  obtain ⟨⟨total,htaken,hmean⟩,hgreatest⟩ := h
  refine ⟨⟨total,htaken.perm hperm,hmean⟩,?_⟩
  rintro other ⟨total,htaken,rfl⟩
  exact hgreatest ⟨total,htaken.perm hperm.symm,rfl⟩

variable [IsStrictOrderedRing α]

/-- What is taken of values up to a bound is up to that bound in the mean. -/
theorem Taken.total_le (h : Taken values mass total) {bound : α} (hbound : ∀ e ∈ values, 0 < e.2 → e.1 ≤ bound) :
    total ≤ bound * mass := by
  induction h with
  | nil => rw [mul_zero]
  | @cons v p part mass total values h hpart hle ih =>
    obtain ⟨hv,hrest⟩ := List.forall_mem_cons.mp hbound
    have hlater := ih hrest
    have hfirst : v * part ≤ bound * part := by
      obtain hzero | hpos := hpart.eq_or_lt
      · rw [← hzero,mul_zero,mul_zero]
      · exact mul_le_mul_of_nonneg_right (hv (hpos.trans_le hle)) hpart
    rw [mul_add]
    exact add_le_add hfirst hlater

/-! ## Consuming the worst values first -/

section Consume
variable (tolerance : α)

/-- Consume values until hardly any mass remains; the result is the total and the remaining mass. -/
def consume : List (α × α) → α → α → α × α
  | [], tailSum, remaining => (tailSum,remaining)
  | (value,probability) :: rest, tailSum, remaining =>
    if probability ≤ 0 then consume rest tailSum remaining
    else if remaining - min remaining probability ≤ tolerance then
      (tailSum + value * min remaining probability,remaining - min remaining probability)
    else consume rest (tailSum + value * min remaining probability) (remaining - min remaining probability)

end Consume

/-- Some mass was consumed, with some total; no value that was consumed is below `least`, and whatever is taken is
no better than this. -/
structure Consumed (tolerance : α) (values : List (α × α)) (remaining : α) (result : α × α) (tailSum least : α) :
    Prop where
  rest_nonneg : 0 ≤ result.2
  rest_le : result.2 ≤ tolerance
  mem : ∃ e ∈ values, e.1 = least
  taken : Taken values (remaining - result.2) (result.1 - tailSum)
  least_le : least * (remaining - result.2) ≤ result.1 - tailSum
  optimal : ∀ mass total, Taken values mass total →
    total - least * mass ≤ result.1 - tailSum - least * (remaining - result.2)

/-- The worst values are consumed first if they come first. -/
theorem consume_spec (htolerance : 0 ≤ tolerance) (values : List (α × α))
    (hsorted : values.Pairwise fun a b => b.1 ≤ a.1) (hnonneg : ∀ e ∈ values, 0 ≤ e.2) :
    ∀ tailSum remaining : α, tolerance < remaining → remaining ≤ (values.map Prod.snd).sum →
      ∃ least, Consumed tolerance values remaining (consume tolerance values tailSum remaining) tailSum least := by
  induction values with
  | nil =>
    intro tailSum remaining hmore henough
    exact absurd (htolerance.trans_lt hmore) (not_lt.mpr henough)
  | cons e values ih =>
    obtain ⟨v,p⟩ := e
    intro tailSum remaining hmore henough
    obtain ⟨hfirst,hrest⟩ := List.pairwise_cons.mp hsorted
    obtain ⟨hp,hmasses⟩ := List.forall_mem_cons.mp hnonneg
    rw [List.map_cons,List.sum_cons] at henough
    dsimp only at hp henough hfirst
    rw [consume]
    by_cases hzero : p ≤ 0
    · have hp0 : p = 0 := le_antisymm hzero hp
      rw [hp0,zero_add] at henough
      obtain ⟨least,h⟩ := ih hrest hmasses tailSum remaining hmore henough
      obtain ⟨e,he,hleast⟩ := h.mem
      have htaken := h.taken.cons (v := v) le_rfl hp
      rw [zero_add,mul_zero,zero_add] at htaken
      rw [if_pos hzero]
      refine ⟨least,h.rest_nonneg,h.rest_le,⟨e,List.mem_cons_of_mem _ he,hleast⟩,htaken,h.least_le,?_⟩
      intro mass total htaken
      cases htaken with
      | @cons _ _ part mass total _ htaken hpart hle =>
        have hpart0 : part = 0 := le_antisymm (hle.trans hzero) hpart
        rw [hpart0,zero_add,mul_zero,zero_add]
        exact h.optimal _ _ htaken
    rw [if_neg hzero]
    by_cases hlast : remaining - min remaining p ≤ tolerance
    · have htaken := (Taken.none hmasses).cons (v := v) (le_min (htolerance.trans hmore.le) hp)
        (min_le_right remaining p)
      rw [add_zero,add_zero] at htaken
      rw [if_pos hlast]
      refine ⟨v,sub_nonneg.mpr (min_le_left _ _),hlast,⟨(v,p),List.mem_cons_self,rfl⟩,?_,?_,?_⟩
      · dsimp only
        rw [sub_sub_cancel,add_sub_cancel_left]
        exact htaken
      · dsimp only
        rw [sub_sub_cancel,add_sub_cancel_left]
      · intro mass total hother
        have hle := hother.total_le (List.forall_mem_cons.mpr ⟨fun _ => le_rfl,fun e he _ => hfirst e he⟩)
        dsimp only
        rw [sub_sub_cancel,add_sub_cancel_left,sub_self]
        linarith
    · have hmin : min remaining p = p := by
        refine min_eq_right (le_of_lt ?_)
        by_contra hge
        rw [min_eq_left (not_lt.mp hge),sub_self] at hlast
        exact hlast htolerance
      rw [if_neg hlast]
      rw [hmin] at hlast ⊢
      obtain ⟨least,h⟩ := ih hrest hmasses (tailSum + v * p) (remaining - p) (not_le.mp hlast) (by linarith)
      obtain ⟨e,he,hleast⟩ := h.mem
      have hlv : least ≤ v := hleast ▸ hfirst e he
      have hlp := mul_le_mul_of_nonneg_right hlv hp
      have hconsumed := h.least_le
      have htaken := h.taken.cons (v := v) hp le_rfl
      refine ⟨least,h.rest_nonneg,h.rest_le,⟨e,List.mem_cons_of_mem _ he,hleast⟩,?_,by linarith,?_⟩
      · convert htaken using 1 <;> ring
      · intro mass total hother
        cases hother with
        | @cons _ _ part mass total _ hother hpart hle =>
          have hlater := h.optimal _ _ hother
          have hone := mul_le_mul_of_nonneg_left hle (sub_nonneg.mpr hlv)
          linarith

/-- The mean of what was consumed is no less than that of anything of no less mass. -/
theorem Consumed.mean {remaining tailSum least : α} {result : α × α}
    (h : Consumed tolerance values remaining result tailSum least) (htaken : Taken values mass total)
    (hpos : 0 < remaining - result.2) (hmass : remaining - result.2 ≤ mass) :
    total / mass ≤ (result.1 - tailSum) / (remaining - result.2) := by
  have hoptimal := h.optimal mass total htaken
  have hmore := mul_le_mul_of_nonneg_right h.least_le (sub_nonneg.mpr hmass)
  rw [div_le_div_iff₀ (hpos.trans_le hmass) hpos]
  calc total * (remaining - result.2)
      ≤ (least * mass + (result.1 - tailSum - least * (remaining - result.2))) * (remaining - result.2) := by
        refine mul_le_mul_of_nonneg_right ?_ hpos.le
        linarith
    _ ≤ (result.1 - tailSum) * mass := by linarith

/-- There is a mean of the worst values of any mass that there is. -/
theorem exists_tailMean (hsorted : values.Pairwise fun a b => b.1 ≤ a.1) (hnonneg : ∀ e ∈ values, 0 ≤ e.2)
    (hpos : 0 < mass) (henough : mass ≤ (values.map Prod.snd).sum) : ∃ mean, TailMean values mass mean := by
  obtain ⟨least,h⟩ := consume_spec le_rfl values hsorted hnonneg 0 mass hpos henough
  have hrest : (consume 0 values 0 mass).2 = 0 := le_antisymm h.rest_le h.rest_nonneg
  have htaken := h.taken
  rw [hrest,sub_zero,sub_zero] at htaken
  refine ⟨(consume 0 values 0 mass).1 / mass,⟨_,htaken,rfl⟩,?_⟩
  rintro mean ⟨total,hother,rfl⟩
  have hmean := h.mean hother (by rwa [hrest,sub_zero]) (by rw [hrest,sub_zero])
  rw [hrest,sub_zero,sub_zero] at hmean
  exact hmean

end BeliefKV.Tail
