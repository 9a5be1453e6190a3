import Mathlib.Logic.Relation
import Mathlib.Data.Finset.Sort
import Mathlib.Tactic

/-! Connected components of a finite graph, by a walk from the least node that is left. -/
namespace BeliefKV.Components
open Relation
variable {α : Type} [LinearOrder α]

/-- The members of a set, the least first. -/
abbrev ascending (s : Finset α) : List α := s.sort (· ≤ ·)

/-- Pop a node and push its neighbours that are not in the component yet. -/
def grow (adj : α → Finset α) : ℕ → List α → Finset α → Finset α
  | 0, _, component => component
  | _ + 1, [], component => component
  | fuel + 1, a :: stack, component =>
    grow adj fuel (ascending (adj a \ component) ++ stack) (component ∪ adj a)

/-- The component of a node; every node of `n` is pushed at most once. -/
def component (adj : α → Finset α) (n : ℕ) (root : α) : Finset α := grow adj n [root] {root}

/-- Split off the component of the least node, again and again. -/
def split (adj : α → Finset α) (n : ℕ) : ℕ → Finset α → List (Finset α)
  | 0, _ => []
  | fuel + 1, remaining =>
    match ascending remaining with
    | [] => []
    | root :: _ => component adj n root :: split adj n fuel (remaining \ component adj n root)

variable {adj : α → Finset α} {nodes : Finset α}

/-- One node leads to another. -/
def Reaches (adj : α → Finset α) : α → α → Prop := ReflTransGen fun a b => b ∈ adj a

omit [LinearOrder α] in
theorem Reaches.symm (hsymm : ∀ a b, b ∈ adj a → a ∈ adj b) {a b : α} (h : Reaches adj a b) :
    Reaches adj b a := by
  induction h with
  | refl => exact .refl
  | tail _ hedge ih => exact ReflTransGen.head (hsymm _ _ hedge) ih

/-- With a step for every node on the stack or outside the component, the walk closes it. -/
theorem grow_spec (hadj : ∀ a ∈ nodes, adj a ⊆ nodes) (fuel : ℕ) (stack : List α) (c : Finset α)
    (hstack : ∀ a ∈ stack, a ∈ c) (hc : c ⊆ nodes) (hclosed : ∀ a ∈ c, a ∈ stack ∨ adj a ⊆ c)
    (hfuel : stack.length + (nodes \ c).card ≤ fuel) :
    c ⊆ grow adj fuel stack c ∧ (∀ a ∈ grow adj fuel stack c, adj a ⊆ grow adj fuel stack c) ∧
      ∀ b ∈ grow adj fuel stack c, ∃ a ∈ c, Reaches adj a b := by
  induction fuel generalizing stack c with
  | zero =>
    have hnil : stack = [] := List.length_eq_zero_iff.mp (by omega)
    subst hnil
    exact ⟨subset_rfl,fun a ha => (hclosed a ha).resolve_left (by simp),fun b hb => ⟨b,hb,.refl⟩⟩
  | succ fuel ih =>
    cases stack with
    | nil =>
      exact ⟨subset_rfl,fun a ha => (hclosed a ha).resolve_left (by simp),fun b hb => ⟨b,hb,.refl⟩⟩
    | cons a stack =>
      have ha : a ∈ c := hstack a (by simp)
      have hsub : adj a ⊆ nodes := hadj a (hc ha)
      have hcard : (nodes \ (c ∪ adj a)).card + (adj a \ c).card = (nodes \ c).card := by
        have hsplit : nodes \ c = (nodes \ (c ∪ adj a)) ∪ (adj a \ c) := by
          ext x
          simp only [Finset.mem_sdiff,Finset.mem_union]
          have := @hsub x
          tauto
        rw [hsplit,Finset.card_union_of_disjoint]
        rw [Finset.disjoint_left]
        intro x hx hx'
        simp only [Finset.mem_sdiff,Finset.mem_union] at hx hx'
        tauto
      have hstack' : ∀ x ∈ ascending (adj a \ c) ++ stack, x ∈ c ∪ adj a := by
        intro x hx
        rcases List.mem_append.mp hx with hx | hx
        · rw [Finset.mem_sort] at hx
          exact Finset.mem_union_right _ (Finset.mem_sdiff.mp hx).1
        · exact Finset.mem_union_left _ (hstack x (List.mem_cons_of_mem a hx))
      have hclosed' : ∀ x ∈ c ∪ adj a, x ∈ ascending (adj a \ c) ++ stack ∨ adj x ⊆ c ∪ adj a := by
        intro x hx
        by_cases hxc : x ∈ c
        · rcases hclosed x hxc with hmem | hsub'
          · rcases List.mem_cons.mp hmem with rfl | hmem
            · exact .inr Finset.subset_union_right
            · exact .inl (List.mem_append_right _ hmem)
          · exact .inr (hsub'.trans Finset.subset_union_left)
        · refine .inl (List.mem_append_left _ ?_)
          rw [Finset.mem_sort,Finset.mem_sdiff]
          exact ⟨(Finset.mem_union.mp hx).resolve_left hxc,hxc⟩
      have hfuel' : (ascending (adj a \ c) ++ stack).length + (nodes \ (c ∪ adj a)).card ≤ fuel := by
        rw [List.length_append,Finset.length_sort]
        rw [List.length_cons] at hfuel
        omega
      obtain ⟨hle,hclose,hreach⟩ := ih _ (c ∪ adj a) hstack' (Finset.union_subset hc hsub) hclosed' hfuel'
      refine ⟨Finset.subset_union_left.trans hle,hclose,fun b hb => ?_⟩
      obtain ⟨x,hx,hpath⟩ := hreach b hb
      rcases Finset.mem_union.mp hx with hx | hx
      · exact ⟨x,hx,hpath⟩
      · exact ⟨a,ha,ReflTransGen.head hx hpath⟩

/-- The component of a node is what it reaches. -/
theorem mem_component (hadj : ∀ a ∈ nodes, adj a ⊆ nodes) {n : ℕ} (hn : nodes.card ≤ n) {root : α}
    (hroot : root ∈ nodes) (b : α) : b ∈ component adj n root ↔ Reaches adj root b := by
  obtain ⟨hstart,hclose,hreach⟩ := grow_spec hadj n [root] {root} (by simp) (by simpa using hroot)
    (by simp) (by
      have hcard := Finset.card_sdiff_add_card_eq_card (Finset.singleton_subset_iff.mpr hroot)
      rw [Finset.card_singleton] at hcard
      simp only [List.length_singleton]
      omega)
  constructor
  · intro hb
    obtain ⟨a,ha,hpath⟩ := hreach b hb
    rw [Finset.mem_singleton] at ha
    exact ha ▸ hpath
  · intro hpath
    induction hpath with
    | refl => exact hstart (Finset.mem_singleton_self root)
    | tail _ hedge ih => exact hclose _ ih hedge

/-- The classes are disjoint, they are the components of their nodes, and together they are the
nodes. -/
structure Splits (adj : α → Finset α) (nodes : Finset α) (classes : List (Finset α)) : Prop where
  disjoint : classes.Pairwise Disjoint
  cover : ∀ a, a ∈ nodes ↔ ∃ c ∈ classes, a ∈ c
  connected : ∀ c ∈ classes, ∀ a ∈ c, ∀ b, b ∈ c ↔ Reaches adj a b
  nonempty : ∀ c ∈ classes, c.Nonempty

theorem split_splits (hsymm : ∀ a b, b ∈ adj a → a ∈ adj b) {n fuel : ℕ} {remaining : Finset α}
    (hadj : ∀ a ∈ remaining, adj a ⊆ remaining) (hn : remaining.card ≤ n)
    (hfuel : remaining.card ≤ fuel) : Splits adj remaining (split adj n fuel remaining) := by
  induction fuel generalizing remaining with
  | zero =>
    have hnone : remaining = ∅ := Finset.card_eq_zero.mp (by omega)
    subst hnone
    exact ⟨by simp [split],by simp [split],by simp [split],by simp [split]⟩
  | succ fuel ih =>
    cases hsort : ascending remaining with
    | nil =>
      have hnone : remaining = ∅ := by
        have hlen : (ascending remaining).length = remaining.card := Finset.length_sort _
        rw [← Finset.card_eq_zero,← hlen,hsort]
        rfl
      simp only [split,hsort]
      exact ⟨by simp,by simp [hnone],by simp,by simp⟩
    | cons root rest =>
      have hroot : root ∈ remaining := by
        have hmem : root ∈ ascending remaining ↔ root ∈ remaining := Finset.mem_sort _
        rw [← hmem,hsort]
        simp
      simp only [split,hsort]
      set c := component adj n root with hc
      have hmem (b : α) : b ∈ c ↔ Reaches adj root b := mem_component hadj hn hroot b
      have hsub : c ⊆ remaining := by
        intro b hb
        rw [hmem] at hb
        induction hb with
        | refl => exact hroot
        | tail _ hedge ih' => exact hadj _ ih' hedge
      have hin : root ∈ c := (hmem root).mpr .refl
      have hless : (remaining \ c).card + c.card = remaining.card :=
        Finset.card_sdiff_add_card_eq_card hsub
      have hpos : 0 < c.card := Finset.card_pos.mpr ⟨root,hin⟩
      -- A neighbour of a node outside the component is outside too.
      have hadj' : ∀ a ∈ remaining \ c, adj a ⊆ remaining \ c := by
        intro a ha b hb
        have ha' := Finset.mem_sdiff.mp ha
        refine Finset.mem_sdiff.mpr ⟨hadj a ha'.1 hb,fun hbc => ha'.2 ?_⟩
        rw [hmem] at hbc ⊢
        exact hbc.tail (hsymm a b hb)
      have hrest := ih hadj' (by omega) (by omega)
      refine ⟨List.pairwise_cons.mpr ⟨fun d hd => ?_,hrest.disjoint⟩,fun a => ?_,?_,?_⟩
      · rw [Finset.disjoint_left]
        intro x hx hxd
        exact (Finset.mem_sdiff.mp ((hrest.cover x).mpr ⟨d,hd,hxd⟩)).2 hx
      · have hcover := hrest.cover a
        rw [Finset.mem_sdiff] at hcover
        simp only [List.mem_cons,exists_eq_or_imp]
        rw [← hcover]
        constructor
        · intro ha
          by_cases hac : a ∈ c
          · exact .inl hac
          · exact .inr ⟨ha,hac⟩
        · rintro (ha | ha)
          · exact hsub ha
          · exact ha.1
      · intro d hd a ha b
        rcases List.mem_cons.mp hd with rfl | hd
        · rw [hmem] at ha ⊢
          exact ⟨fun hb => (ha.symm hsymm).trans hb,fun hb => ha.trans hb⟩
        · exact hrest.connected d hd a ha b
      · intro d hd
        rcases List.mem_cons.mp hd with rfl | hd
        · exact ⟨root,hin⟩
        · exact hrest.nonempty d hd

end BeliefKV.Components
