import Mathlib.Data.List.Sort
import Mathlib.Order.Lex
import Mathlib.Data.Prod.Lex
import Mathlib.Tactic

/-! Lists sorted by a rank that tells their elements apart. -/
namespace BeliefKV.Ranked
variable {α κ : Type*} [LinearOrder κ] {rank : α → κ} {l l' rest : List α} {x : α}

/-- The elements of a list in the order of their ranks. -/
def sort (rank : α → κ) (l : List α) : List α := l.insertionSort fun a b => rank a ≤ rank b

/-- No two elements have one rank. -/
def Distinct (rank : α → κ) (l : List α) : Prop := (l.map rank).Nodup

theorem sort_perm (rank : α → κ) (l : List α) : (sort rank l).Perm l := List.perm_insertionSort _ l

theorem sort_sorted (rank : α → κ) (l : List α) :
    (sort rank l).Pairwise fun a b => rank a ≤ rank b := by
  have : Std.Total fun a b => rank a ≤ rank b := ⟨fun a b => le_total _ _⟩
  have : IsTrans α fun a b => rank a ≤ rank b := ⟨fun _ _ _ h h' => h.trans h'⟩
  exact List.pairwise_insertionSort _ l

omit [LinearOrder κ] in
theorem Distinct.perm (h : Distinct rank l) (hp : l.Perm l') : Distinct rank l' :=
  (hp.map rank).nodup_iff.mp h

omit [LinearOrder κ] in
theorem Distinct.sublist (h : Distinct rank l) (hs : l'.Sublist l) : Distinct rank l' :=
  List.Nodup.sublist (hs.map rank) h

/-- There is one way to sort a list. -/
theorem sort_unique (hd : Distinct rank l) (hp : l'.Perm l)
    (hs : l'.Pairwise fun a b => rank a ≤ rank b) : sort rank l = l' := by
  refine List.Perm.eq_of_pairwise (fun a b ha hb hab hba => ?_) (sort_sorted rank l) hs
    ((sort_perm rank l).trans hp.symm)
  exact List.inj_on_of_nodup_map hd ((sort_perm rank l).mem_iff.mp ha) (hp.mem_iff.mp hb)
    (le_antisymm hab hba)

theorem sort_congr (hd : Distinct rank l) (hp : l.Perm l') : sort rank l = sort rank l' :=
  sort_unique hd ((sort_perm rank l').trans hp.symm) (sort_sorted rank l')

theorem sort_filter (hd : Distinct rank l) (p : α → Bool) :
    sort rank (l.filter p) = (sort rank l).filter p :=
  sort_unique (hd.sublist List.filter_sublist) ((sort_perm rank l).filter p)
    ((sort_sorted rank l).filter p)

/-- The first element comes first. -/
theorem sort_first (hd : Distinct rank l) (hp : (x :: rest).Perm l)
    (hx : ∀ y ∈ rest, rank x ≤ rank y) : sort rank l = x :: sort rank rest := by
  refine sort_unique hd (((sort_perm rank rest).cons x).trans hp) ?_
  refine List.pairwise_cons.mpr ⟨fun y hy => ?_,sort_sorted rank rest⟩
  exact hx y ((sort_perm rank rest).mem_iff.mp hy)

theorem sort_concat (hd : Distinct rank (l ++ [x])) :
    sort rank (l ++ [x]) = (sort rank l).orderedInsert (fun a b => rank a ≤ rank b) x := by
  have hcons : Distinct rank (x :: l) := hd.perm (List.perm_append_singleton x l)
  exact (sort_congr hcons (List.perm_append_singleton x l).symm).symm

end BeliefKV.Ranked
