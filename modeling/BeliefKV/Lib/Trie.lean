import Mathlib.Data.Finset.Card
import Mathlib.Data.List.Infix
import Mathlib.Tactic.Cases
import BeliefKV.Lib.Keyed
import BeliefKV.Lib.Prefixes

/-! A trie: paths that go together as far as they agree. Its paths are the prefixes of all that were put into it. -/
namespace BeliefKV

inductive Trie (α : Type)
  | node (children : List (α × Trie α))

namespace Trie
variable {α : Type} [DecidableEq α]

def empty : Trie α := .node []

def children : Trie α → List (α × Trie α)
  | .node children => children

def get? (t : Trie α) (x : α) : Option (Trie α) := (Keyed.lookup Prod.fst x t.children).map Prod.snd

def set (t : Trie α) (x : α) (child : Trie α) : Trie α := .node (Keyed.store Prod.fst (x,child) t.children)

@[simp] theorem get?_empty (x : α) : (empty : Trie α).get? x = none := rfl

theorem get?_set (t : Trie α) (x : α) (child : Trie α) (y : α) :
    (t.set x child).get? y = if y = x then some child else t.get? y := by
  have hstore : Keyed.lookup Prod.fst y (Keyed.store Prod.fst (x,child) t.children) =
      if y = x then some (x,child) else Keyed.lookup Prod.fst y t.children := Keyed.lookup_store
  unfold set get?
  rw [children,hstore]
  split_ifs <;> rfl

/-- How far a path goes in a trie. -/
def depth : Trie α → List α → ℕ
  | _, [] => 0
  | t, x :: path =>
    match t.get? x with
    | none => 0
    | some child => child.depth path + 1

/-- A trie with a path. -/
def grow : Trie α → List α → Trie α
  | t, [] => t
  | t, x :: path => t.set x (((t.get? x).getD empty).grow path)

/-- A path of a trie. -/
def Has (t : Trie α) (path : List α) : Prop := t.depth path = path.length

@[simp] theorem has_nil (t : Trie α) : t.Has [] := rfl

theorem has_cons {t : Trie α} {x : α} {path : List α} :
    t.Has (x :: path) ↔ ∃ child, t.get? x = some child ∧ child.Has path := by
  unfold Has
  rw [depth]
  cases t.get? x <;> simp

theorem has_empty {path : List α} : (empty : Trie α).Has path ↔ path = [] := by
  cases path <;> simp [has_cons]

theorem depth_empty (path : List α) : (empty : Trie α).depth path = 0 := by
  cases path <;> simp [depth]

theorem depth_le (t : Trie α) (path : List α) : t.depth path ≤ path.length := by
  induction path generalizing t with
  | nil => exact Nat.le_refl 0
  | cons x path ih =>
    rw [depth]
    cases t.get? x with
    | none => exact Nat.zero_le _
    | some child => exact Nat.succ_le_succ (ih child)

/-- The depth is the length of the longest prefix that the trie has. -/
theorem has_take_iff {t : Trie α} {path : List α} {n : ℕ} (hn : n ≤ path.length) :
    t.Has (path.take n) ↔ n ≤ t.depth path := by
  induction path generalizing t n with
  | nil =>
    obtain rfl : n = 0 := by simpa using hn
    simp
  | cons x path ih =>
    cases n with
    | zero => simp
    | succ n =>
      rw [List.take_succ_cons,has_cons,depth]
      cases t.get? x with
      | none => simp
      | some child =>
        have hchild := ih (t := child) (Nat.le_of_succ_le_succ hn)
        simpa using hchild

theorem has_grow {t : Trie α} {path q : List α} : (t.grow path).Has q ↔ t.Has q ∨ q <+: path := by
  induction path generalizing t q with
  | nil =>
    simp only [grow,List.prefix_nil]
    exact ⟨.inl,fun h => h.elim id fun h => h ▸ has_nil t⟩
  | cons x path ih =>
    cases q with
    | nil => simp
    | cons y q =>
      rw [grow,has_cons,has_cons,get?_set,List.cons_prefix_cons]
      by_cases hy : y = x
      · subst hy
        simp only [if_pos,Option.some.injEq,exists_eq_left',true_and,ih]
        cases t.get? y with
        | none =>
          simp only [Option.getD_none,has_empty,reduceCtorEq,false_and,exists_false,false_or]
          exact ⟨fun h => h.elim (fun h => h ▸ List.nil_prefix) id,.inr⟩
        | some child => simp
      · simp [hy]

theorem depth_congr {t t' : Trie α} (h : ∀ q, t.Has q ↔ t'.Has q) (path : List α) : t.depth path = t'.depth path := by
  apply le_antisymm
  · exact (has_take_iff (t.depth_le path)).mp ((h _).mp ((has_take_iff (t.depth_le path)).mpr le_rfl))
  · exact (has_take_iff (t'.depth_le path)).mp ((h _).mpr ((has_take_iff (t'.depth_le path)).mpr le_rfl))

theorem depth_prefix_eq {t : Trie α} {p path : List α} (hp : p <+: path) : t.depth p = min (t.depth path) p.length := by
  have hle {n : ℕ} (hn : n ≤ p.length) : n ≤ t.depth p ↔ n ≤ t.depth path := by
    rw [← has_take_iff hn,← has_take_iff (hn.trans hp.length_le)]
    obtain ⟨rest,rfl⟩ := hp
    rw [List.take_append_of_le_length hn]
  apply le_antisymm
  · exact le_min ((hle (t.depth_le p)).mp le_rfl) (t.depth_le p)
  · exact (hle (min_le_right _ _)).mpr (min_le_left _ _)

theorem depth_grow_prefix_eq {t : Trie α} {p path : List α} (hp : p <+: path) :
    (t.grow p).depth path = max (t.depth path) p.length := by
  have hle {n : ℕ} (hn : n ≤ path.length) : n ≤ (t.grow p).depth path ↔ n ≤ t.depth path ∨ n ≤ p.length := by
    rw [← has_take_iff hn,has_grow,has_take_iff hn]
    apply or_congr_right
    constructor
    · intro h
      have := h.length_le
      rwa [List.length_take_of_le hn] at this
    · intro h
      exact List.prefix_of_prefix_length_le (List.take_prefix n path) hp (by rwa [List.length_take_of_le hn])
  apply le_antisymm
  · rw [le_max_iff]
    exact (hle (depth_le _ path)).mp le_rfl
  · apply max_le
    · exact (hle (t.depth_le path)).mpr (.inl le_rfl)
    · exact (hle hp.length_le).mpr (.inr le_rfl)

/-! ## The paths of a trie as a set -/

/-- The trie has exactly the paths of a set, and the root. -/
def Holds (t : Trie α) (paths : Finset (List α)) : Prop := ∀ q, q ≠ [] → (t.Has q ↔ q ∈ paths)

theorem holds_empty : (empty : Trie α).Holds ∅ := by
  intro q hq
  simp [has_empty,hq]

theorem Holds.grow {t : Trie α} {paths : Finset (List α)} (h : t.Holds paths) (path : List α) :
    (t.grow path).Holds (paths ∪ (Prefixes.along [] path).toFinset) := by
  intro q hq
  rw [has_grow,h q hq,Finset.mem_union,List.mem_toFinset,Prefixes.mem_along_nil]
  simp [hq]

theorem Holds.mem_iff {t : Trie α} {paths : Finset (List α)} {path q : List α} (h : t.Holds paths) (hne : q ≠ [])
    (hq : q <+: path) : q ∈ paths ↔ q.length ≤ t.depth path := by
  rw [← h q hne,← has_take_iff hq.length_le,← List.prefix_iff_eq_take.mp hq]

/-- Of the prefixes of a path those beyond its depth are new. -/
theorem Holds.card_new {t : Trie α} {paths : Finset (List α)} (h : t.Holds paths) (path : List α) :
    ((Prefixes.along [] path).toFinset \ paths).card = path.length - t.depth path := by
  have hlength : (path.take (t.depth path)).length = t.depth path := List.length_take_of_le (t.depth_le path)
  have hnew : (Prefixes.along [] path).toFinset \ paths =
      (Prefixes.along (path.take (t.depth path)) (path.drop (t.depth path))).toFinset := by
    ext q
    rw [Finset.mem_sdiff,List.mem_toFinset,List.mem_toFinset,Prefixes.mem_along_nil,Prefixes.mem_along]
    constructor
    · rintro ⟨⟨hne,hq⟩,hnew⟩
      rw [h.mem_iff hne hq,not_le] at hnew
      have hstem : path.take (t.depth path) <+: q :=
        List.prefix_of_prefix_length_le (List.take_prefix _ _) hq (by omega)
      obtain ⟨rest,rfl⟩ := hstem
      rw [List.length_append,hlength] at hnew
      refine ⟨rest,List.length_pos_iff.mp (by omega),?_,rfl⟩
      apply (List.prefix_append_right_inj (path.take (t.depth path))).mp
      rwa [List.take_append_drop]
    · rintro ⟨rest,hne,hrest,rfl⟩
      have hpath : path.take (t.depth path) ++ rest <+: path := by
        have := (List.prefix_append_right_inj (path.take (t.depth path))).mpr hrest
        rwa [List.take_append_drop] at this
      have hpos := List.length_pos_iff.mpr hne
      have happend : path.take (t.depth path) ++ rest ≠ [] := by simp [hne]
      refine ⟨⟨happend,hpath⟩,?_⟩
      rw [h.mem_iff happend hpath,List.length_append,hlength]
      omega
  rw [hnew,List.toFinset_card_of_nodup (Prefixes.nodup_along _),Prefixes.length_along,List.length_drop]

theorem Holds.card_grow {t : Trie α} {paths : Finset (List α)} (h : t.Holds paths) (path : List α) :
    (paths ∪ (Prefixes.along [] path).toFinset).card = paths.card + (path.length - t.depth path) := by
  rw [← h.card_new path,Finset.union_comm,← Finset.card_sdiff_add_card,Nat.add_comm]

end Trie
end BeliefKV
