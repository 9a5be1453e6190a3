import Mathlib.Data.List.Infix
import Mathlib.Data.List.Nodup
import Mathlib.Data.Finset.Lattice.Lemmas

/-! The prefixes that a walk along a list passes, one element after the other. -/
namespace BeliefKV.Prefixes
variable {α : Type} {stem p q path : List α}

/-- What a walk passes when it goes on from a stem. -/
def along (stem : List α) : List α → List (List α)
  | [] => []
  | x :: path => (stem ++ [x]) :: along (stem ++ [x]) path

theorem along_append (stem p q : List α) : along stem (p ++ q) = along stem p ++ along (stem ++ p) q := by
  induction p generalizing stem with
  | nil =>
    rw [List.append_nil]
    rfl
  | cons x p ih =>
    rw [List.cons_append,along,along,ih,List.cons_append,List.append_assoc]
    rfl

theorem length_along : ∀ {stem : List α} (path : List α), (along stem path).length = path.length := by
  intro stem path
  induction path generalizing stem with
  | nil => rfl
  | cons x path ih => rw [along,List.length_cons,List.length_cons,ih]

theorem mem_along : q ∈ along stem path ↔ ∃ p, p ≠ [] ∧ p <+: path ∧ q = stem ++ p := by
  induction path generalizing stem with
  | nil =>
    constructor
    · exact fun h => absurd h List.not_mem_nil
    · rintro ⟨p,hne,hp,-⟩
      exact absurd (List.prefix_nil.mp hp) hne
  | cons x path ih =>
    rw [along,List.mem_cons,ih]
    constructor
    · rintro (rfl | ⟨p,-,hp,rfl⟩)
      · exact ⟨[x],List.cons_ne_nil x [],List.prefix_append [x] path,rfl⟩
      · refine ⟨x :: p,List.cons_ne_nil x p,List.cons_prefix_cons.mpr ⟨rfl,hp⟩,?_⟩
        rw [List.append_assoc]
        rfl
    · rintro ⟨p,hne,hp,rfl⟩
      obtain ⟨y,p,rfl⟩ := List.exists_cons_of_ne_nil hne
      obtain ⟨rfl,hrest⟩ := List.cons_prefix_cons.mp hp
      by_cases hnil : p = []
      · subst hnil
        exact .inl rfl
      · refine .inr ⟨p,hnil,hrest,?_⟩
        rw [List.append_assoc]
        rfl

theorem mem_along_nil : q ∈ along [] path ↔ q ≠ [] ∧ q <+: path := by
  rw [mem_along]
  exact ⟨fun ⟨p,hne,hp,hq⟩ => hq ▸ ⟨hne,hp⟩,fun ⟨hne,hp⟩ => ⟨q,hne,hp,rfl⟩⟩

theorem lt_length_of_mem (h : q ∈ along stem path) : stem.length < q.length := by
  obtain ⟨p,hne,-,rfl⟩ := mem_along.mp h
  have hpos := List.length_pos_iff.mpr hne
  rw [List.length_append]
  omega

theorem ne_nil_of_mem (h : q ∈ along stem path) : q ≠ [] := by
  rintro rfl
  exact Nat.not_lt_zero _ (lt_length_of_mem h)

theorem nodup_along : ∀ {stem : List α} (path : List α), (along stem path).Nodup := by
  intro stem path
  induction path generalizing stem with
  | nil => exact List.nodup_nil
  | cons x path ih =>
    refine List.nodup_cons.mpr ⟨fun hmem => ?_,ih⟩
    exact lt_irrefl _ (lt_length_of_mem hmem)

section Union
variable [DecidableEq α]

/-- The prefixes of all the paths of a list. -/
def union (paths : List (List α)) : Finset (List α) := (paths.flatMap (along [])).toFinset

theorem union_nil : union ([] : List (List α)) = ∅ := rfl

theorem union_cons (path : List α) (paths : List (List α)) :
    union (path :: paths) = (along [] path).toFinset ∪ union paths := by
  unfold union
  rw [List.flatMap_cons,List.toFinset_append]

theorem union_perm {paths paths' : List (List α)} (h : paths.Perm paths') : union paths = union paths' :=
  List.toFinset_eq_of_perm _ _ (h.flatMap_right _)

end Union

end BeliefKV.Prefixes
