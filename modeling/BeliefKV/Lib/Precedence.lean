import Mathlib.Data.Finset.Sort
import Mathlib.Data.List.Lex
import Mathlib.Order.WellFoundedSet
import Mathlib.Tactic
import BeliefKV.Lib.Forest

/-! Orders of some nodes in which each node comes after those that it requires. -/
namespace BeliefKV.Precedence
open Relation
variable {α : Type} {nodes : Finset α} {required : α → Finset α} {order order' : List α} {a b : α}

/-- A node that may come next. -/
structure Ready (nodes : Finset α) (required : α → Finset α) (order : List α) (a : α) : Prop where
  mem : a ∈ nodes
  new : a ∉ order
  free : ∀ b ∈ required a, b ∈ order

/-- Each node was ready when it came. -/
def Feasible (nodes : Finset α) (required : α → Finset α) (order : List α) : Prop :=
  ∀ before a after, order = before ++ a :: after → Ready nodes required before a

/-- All nodes come, once each and after those that they require. -/
structure Topological (nodes : Finset α) (required : α → Finset α) (order : List α) : Prop where
  nodup : order.Nodup
  mem_iff : ∀ a, a ∈ order ↔ a ∈ nodes
  respected : ∀ before a after, order = before ++ a :: after → ∀ b ∈ required a, b ∈ before

/-- The one node must come before the other. -/
def Precedes (nodes : Finset α) (required : α → Finset α) (b a : α) : Prop := a ∈ nodes ∧ b ∈ required a

/-! ## Feasible orders -/

theorem feasible_nil : Feasible nodes required [] :=
  fun before _ after h => absurd h.symm (List.append_ne_nil_of_right_ne_nil before (List.cons_ne_nil _ after))

/-- A node of an order with one more node at its end is that node, or is in the order before. -/
theorem concat_eq_iff {before after : List α} : order ++ [a] = before ++ b :: after ↔
    (before = order ∧ b = a ∧ after = []) ∨ ∃ after', after = after' ++ [a] ∧ order = before ++ b :: after' := by
  constructor
  · intro h
    obtain rfl | ⟨after,c,rfl⟩ := List.eq_nil_or_concat' after
    · obtain ⟨horder,hb⟩ := List.append_inj' h rfl
      exact .inl ⟨horder.symm,(List.cons.inj hb).1.symm,rfl⟩
    · have h' : order ++ [a] = (before ++ b :: after) ++ [c] := by rw [h,List.append_assoc,List.cons_append]
      obtain ⟨horder,hc⟩ := List.append_inj' h' rfl
      exact .inr ⟨after,by rw [(List.cons.inj hc).1],horder⟩
  · rintro (⟨rfl,rfl,rfl⟩ | ⟨after,rfl,rfl⟩)
    · rfl
    · rw [List.append_assoc,List.cons_append]

theorem feasible_concat_iff :
    Feasible nodes required (order ++ [a]) ↔ Feasible nodes required order ∧ Ready nodes required order a := by
  constructor
  · intro h
    refine ⟨fun before b after horder => ?_,h order a [] rfl⟩
    exact h before b (after ++ [a]) (concat_eq_iff.mpr (.inr ⟨after,rfl,horder⟩))
  · rintro ⟨horder,ha⟩ before b after h
    obtain ⟨rfl,rfl,-⟩ | ⟨after,-,horder'⟩ := concat_eq_iff.mp h
    · exact ha
    · exact horder before b after horder'

theorem Feasible.left (h : Feasible nodes required (order ++ order')) : Feasible nodes required order := by
  intro before a after horder
  refine h before a (after ++ order') ?_
  rw [horder,List.append_assoc,List.cons_append]

theorem Feasible.spec (h : Feasible nodes required order) : order.Nodup ∧ ∀ a ∈ order, a ∈ nodes := by
  induction order using List.reverseRecOn with
  | nil => exact ⟨List.nodup_nil,fun a ha => absurd ha List.not_mem_nil⟩
  | append_singleton order a ih =>
    obtain ⟨horder,ha⟩ := feasible_concat_iff.mp h
    obtain ⟨hnodup,hmem⟩ := ih horder
    refine ⟨List.nodup_append.mpr ⟨hnodup,List.nodup_singleton a,?_⟩,fun b hb => ?_⟩
    · intro b hb c hc hbc
      rw [List.mem_singleton] at hc
      exact ha.new (hc ▸ hbc ▸ hb)
    · obtain hb | hb := List.mem_append.mp hb
      · exact hmem b hb
      · rw [List.mem_singleton.mp hb]
        exact ha.mem

/-- What a node requires came before it. -/
theorem Feasible.closed (h : Feasible nodes required order) (ha : a ∈ order) (hb : b ∈ required a) : b ∈ order := by
  obtain ⟨before,after,horder⟩ := List.append_of_mem ha
  rw [horder]
  exact List.mem_append_left _ ((h before a after horder).free b hb)

section Counted
variable [DecidableEq α]

theorem Feasible.length_le (h : Feasible nodes required order) : order.length ≤ nodes.card := by
  rw [← List.toFinset_card_of_nodup h.spec.1]
  exact Finset.card_le_card fun a ha => h.spec.2 a (List.mem_toFinset.mp ha)

theorem Feasible.exists_new (h : Feasible nodes required order) (hless : order.length ≠ nodes.card) :
    ∃ a ∈ nodes, a ∉ order := by
  by_contra! hall
  have hcard := Finset.card_le_card fun a ha => List.mem_toFinset.mpr (hall a ha)
  rw [List.toFinset_card_of_nodup h.spec.1] at hcard
  exact hless (h.length_le.antisymm hcard)

/-- A feasible order is a topological one once it is as long as there are nodes. -/
theorem topological_iff :
    Topological nodes required order ↔ Feasible nodes required order ∧ order.length = nodes.card := by
  constructor
  · intro h
    refine ⟨fun before a after horder => ?_,?_⟩
    · have hnodup := h.nodup
      rw [horder] at hnodup
      refine ⟨?_,fun ha => ?_,h.respected before a after horder⟩
      · rw [← h.mem_iff,horder]
        exact List.mem_append_right before List.mem_cons_self
      · exact List.disjoint_of_nodup_append hnodup ha List.mem_cons_self
    · rw [← List.toFinset_card_of_nodup h.nodup]
      congr 1
      ext a
      rw [List.mem_toFinset,h.mem_iff]
  · rintro ⟨h,hlength⟩
    obtain ⟨hnodup,hmem⟩ := h.spec
    refine ⟨hnodup,fun a => ⟨hmem a,fun ha => ?_⟩,fun before a after horder => (h before a after horder).free⟩
    have hall : order.toFinset = nodes := by
      refine Finset.eq_of_subset_of_card_le (fun b hb => hmem b (List.mem_toFinset.mp hb)) ?_
      rw [List.toFinset_card_of_nodup hnodup,hlength]
    rw [← hall] at ha
    exact List.mem_toFinset.mp ha

/-! ## Cycles -/

theorem Topological.before (h : Topological nodes required order) (hprecedes : Precedes nodes required b a) :
    order.idxOf b < order.idxOf a := by
  obtain ⟨before,after,horder⟩ := List.append_of_mem ((h.mem_iff a).mpr hprecedes.1)
  have hb := h.respected before a after horder b hprecedes.2
  have hnodup := h.nodup
  rw [horder] at hnodup
  have ha : a ∉ before := fun ha => List.disjoint_of_nodup_append hnodup ha List.mem_cons_self
  rw [horder,List.idxOf_append_of_mem hb,List.idxOf_append_of_notMem ha,List.idxOf_cons_self,Nat.add_zero]
  exact List.idxOf_lt_length_iff.mpr hb

/-- Where there is a topological order there are no cycles. -/
theorem Topological.acyclic (h : Topological nodes required order) : Forest.Acyclic (Precedes nodes required) := by
  intro a hcycle
  have hless : ∀ {b c}, TransGen (Precedes nodes required) b c → order.idxOf b < order.idxOf c := by
    intro b c hpath
    induction hpath with
    | single hstep => exact h.before hstep
    | tail _ hstep ih => exact ih.trans (h.before hstep)
  exact lt_irrefl _ (hless hcycle)

/-- Without cycles some node is ready until all have come. -/
theorem exists_ready (hacyclic : Forest.Acyclic (Precedes nodes required))
    (hknown : ∀ a ∈ nodes, ∀ b ∈ required a, b ∈ nodes) (ha : a ∈ nodes) (hnew : a ∉ order) :
    ∃ b, Ready nodes required order b := by
  have hstrict : IsStrictOrder α (TransGen (Precedes nodes required)) :=
    { irrefl := hacyclic, trans := fun _ _ _ => TransGen.trans }
  have hfounded := Finset.wellFoundedOn (r := TransGen (Precedes nodes required)) (nodes \ order.toFinset)
  obtain ⟨⟨b,hb⟩,-,hfirst⟩ := hfounded.has_min Set.univ
    ⟨⟨a,by simp [ha,hnew]⟩,Set.mem_univ _⟩
  simp only [Finset.coe_sdiff,Set.mem_sdiff,Finset.mem_coe,List.mem_toFinset] at hb
  refine ⟨b,hb.1,hb.2,fun c hc => ?_⟩
  by_contra hwaits
  refine hfirst ⟨c,?_⟩ (Set.mem_univ _) (.single ⟨hb.1,hc⟩)
  simp only [Finset.coe_sdiff,Set.mem_sdiff,Finset.mem_coe,List.mem_toFinset]
  exact ⟨hknown b hb.1 c hc,hwaits⟩

/-! ## Counts of what is still required -/

/-- What changes when a node comes: its successors wait for one node less, and those that wait for none are
available. -/
def release (successors : List α) (indegree : α → ℤ) (available : Finset α) : (α → ℤ) × Finset α :=
  successors.foldl (fun released successor =>
    let degree := released.1 successor - 1
    (Function.update released.1 successor degree,if degree = 0 then insert successor released.2 else released.2))
    (indegree,available)

theorem release_spec {successors : List α} (hnodup : successors.Nodup) :
    ∀ (indegree : α → ℤ) (available : Finset α) (b : α),
    ((release successors indegree available).1 b = if b ∈ successors then indegree b - 1 else indegree b) ∧
      (b ∈ (release successors indegree available).2 ↔ b ∈ available ∨ b ∈ successors ∧ indegree b = 1) := by
  induction successors with
  | nil => exact fun _ _ b => ⟨by simp [release],by simp [release]⟩
  | cons c successors ih =>
    intro indegree available b
    obtain ⟨hc,hrest⟩ := List.nodup_cons.mp hnodup
    obtain ⟨hdegree,havailable⟩ := ih hrest (Function.update indegree c (indegree c - 1))
      (if indegree c - 1 = 0 then insert c available else available) b
    refine ⟨hdegree.trans ?_,havailable.trans ?_⟩
    · by_cases hbc : b = c
      · simp [hbc,hc]
      · simp [hbc]
    · by_cases hbc : b = c
      · subst hbc
        split_ifs with hzero
        · simp [show indegree b = 1 by omega]
        · simp [hc,show indegree b ≠ 1 by omega]
      · split_ifs <;> simp [hbc]

/-- The counts and the available nodes after an order. -/
structure Frontier (nodes : Finset α) (required : α → Finset α) (order : List α) (indegree : α → ℤ)
    (available : Finset α) : Prop where
  degree : ∀ a ∈ nodes, indegree a = ((required a).filter (· ∉ order)).card
  available : ∀ a, a ∈ available ↔ Ready nodes required order a

theorem Frontier.start : Frontier nodes required [] (fun a => (required a).card)
    (nodes.filter fun a => ((required a).card : ℤ) = 0) := by
  refine ⟨fun a _ => by simp,fun a => ?_⟩
  rw [Finset.mem_filter,Nat.cast_eq_zero,Finset.card_eq_zero,Finset.eq_empty_iff_forall_notMem]
  exact ⟨fun h => ⟨h.1,List.not_mem_nil,fun b hb => absurd hb (h.2 b)⟩,
    fun h => ⟨h.mem,fun b hb => List.not_mem_nil (h.free b hb)⟩⟩

theorem Frontier.release {indegree : α → ℤ} {available : Finset α}
    (h : Frontier nodes required order indegree available) (horder : Feasible nodes required order)
    (ha : Ready nodes required order a) {successors : List α} (hnodup : successors.Nodup)
    (hsuccessors : ∀ b, b ∈ successors ↔ b ∈ nodes ∧ a ∈ required b) :
    Frontier nodes required (order ++ [a]) (release successors indegree (available.erase a)).1
      (Precedence.release successors indegree (available.erase a)).2 := by
  have hfilter (b : α) : (required b).filter (· ∉ order ++ [a]) = ((required b).filter (· ∉ order)).erase a := by
    ext c
    simp only [Finset.mem_filter,Finset.mem_erase,List.mem_append,List.mem_singleton]
    tauto
  have hone (b : α) (hb : b ∈ successors) : a ∈ (required b).filter (· ∉ order) :=
    Finset.mem_filter.mpr ⟨((hsuccessors b).mp hb).2,ha.new⟩
  have hdegree (b : α) (hb : b ∈ nodes) : (Precedence.release successors indegree (available.erase a)).1 b =
      ((required b).filter (· ∉ order ++ [a])).card := by
    rw [(release_spec hnodup _ _ b).1,hfilter,h.degree b hb]
    by_cases hmem : b ∈ successors
    · have hpos := Finset.card_pos.mpr ⟨a,hone b hmem⟩
      rw [if_pos hmem,Finset.card_erase_of_mem (hone b hmem)]
      omega
    · rw [if_neg hmem,Finset.erase_eq_of_notMem]
      exact fun h => hmem ((hsuccessors b).mpr ⟨hb,(Finset.mem_filter.mp h).1⟩)
  refine ⟨hdegree,fun b => (release_spec hnodup _ _ b).2.trans ?_⟩
  rw [Finset.mem_erase,h.available]
  constructor
  · rintro (⟨hne,hb⟩ | ⟨hb,hlast⟩)
    · refine ⟨hb.mem,?_,fun c hc => List.mem_append_left [a] (hb.free c hc)⟩
      simp [hb.new,hne]
    · have hmem := (hsuccessors b).mp hb
      rw [h.degree b hmem.1] at hlast
      obtain ⟨c,hc⟩ := Finset.card_eq_one.mp (by exact_mod_cast hlast : ((required b).filter (· ∉ order)).card = 1)
      have hac : a = c := Finset.mem_singleton.mp (hc ▸ hone b hb)
      refine ⟨hmem.1,?_,fun d hd => ?_⟩
      · rw [List.mem_append,List.mem_singleton,not_or]
        refine ⟨fun hold => ?_,fun hba => ?_⟩
        · exact ha.new (horder.closed hold hmem.2)
        · rw [hba] at hmem
          exact ha.new (ha.free a hmem.2)
      · by_cases hd' : d ∈ order
        · exact List.mem_append_left [a] hd'
        · have hdc : d ∈ (required b).filter (· ∉ order) := Finset.mem_filter.mpr ⟨hd,hd'⟩
          rw [hc,Finset.mem_singleton] at hdc
          rw [hdc,← hac]
          exact List.mem_append_right order List.mem_cons_self
  · intro hb
    have hne : b ≠ a := fun h => hb.new (h ▸ List.mem_append_right order List.mem_cons_self)
    have hnew : b ∉ order := fun h => hb.new (List.mem_append_left [a] h)
    by_cases hmem : b ∈ successors
    · refine .inr ⟨hmem,?_⟩
      have hempty : (required b).filter (· ∉ order ++ [a]) = ∅ :=
        Finset.filter_eq_empty_iff.mpr fun c hc hout => hout (hb.free c hc)
      rw [h.degree b hb.mem]
      rw [hfilter,Finset.erase_eq_empty_iff] at hempty
      obtain hempty | hempty := hempty
      · exact absurd (hempty ▸ hone b hmem) (Finset.notMem_empty a)
      · rw [hempty,Finset.card_singleton]
        rfl
    · refine .inl ⟨hne,hb.mem,hnew,fun c hc => ?_⟩
      obtain hc' | hc' := List.mem_append.mp (hb.free c hc)
      · exact hc'
      · rw [List.mem_singleton.mp hc'] at hc
        exact absurd ((hsuccessors b).mpr ⟨hb.mem,hc⟩) hmem

end Counted

/-! ## All topological orders -/

/-- The orders that continue an order by as many nodes as are left. -/
def completions (ready : List α → List α) : ℕ → List α → List (List α)
  | 0, order => [order]
  | left + 1, order => (ready order).flatMap fun a => completions ready left (order ++ [a])

variable {ready : List α → List α}

theorem mem_completions (hready : ∀ order a, a ∈ ready order ↔ Ready nodes required order a) (left : ℕ) :
    ∀ {order : List α}, Feasible nodes required order → ∀ full, full ∈ completions ready left order ↔
      Feasible nodes required full ∧ order <+: full ∧ full.length = order.length + left := by
  induction left with
  | zero =>
    intro order horder full
    rw [completions,List.mem_singleton]
    constructor
    · rintro rfl
      exact ⟨horder,List.prefix_refl full,rfl⟩
    · rintro ⟨-,hsame,hlength⟩
      exact (hsame.eq_of_length hlength.symm).symm
  | succ left ih =>
    intro order horder full
    rw [completions,List.mem_flatMap]
    constructor
    · rintro ⟨a,ha,hfull⟩
      obtain ⟨hfeasible,hlonger,hlength⟩ :=
        (ih (feasible_concat_iff.mpr ⟨horder,(hready order a).mp ha⟩) full).mp hfull
      refine ⟨hfeasible,(List.prefix_append order [a]).trans hlonger,?_⟩
      rw [hlength,List.length_append,List.length_singleton]
      omega
    · rintro ⟨hfeasible,⟨rest,rfl⟩,hlength⟩
      cases rest with
      | nil =>
        rw [List.append_nil] at hlength
        omega
      | cons a rest =>
        have ha := hfeasible order a rest rfl
        refine ⟨a,(hready order a).mpr ha,(ih (feasible_concat_iff.mpr ⟨horder,ha⟩) _).mpr ⟨hfeasible,?_,?_⟩⟩
        · exact ⟨rest,by rw [List.append_assoc,List.singleton_append]⟩
        · rw [hlength,List.length_append,List.length_singleton]
          omega

theorem prefix_of_mem_completions {full : List α} (left : ℕ) : ∀ {order : List α},
    full ∈ completions ready left order → order <+: full := by
  induction left with
  | zero =>
    intro order hfull
    rw [completions,List.mem_singleton] at hfull
    rw [hfull]
  | succ left ih =>
    intro order hfull
    rw [completions,List.mem_flatMap] at hfull
    obtain ⟨a,-,hfull⟩ := hfull
    exact (List.prefix_append order [a]).trans (ih hfull)

/-- They are listed in lexicographic order. -/
theorem sorted_completions [LT α] (hsorted : ∀ order, (ready order).Pairwise (· < ·)) (left : ℕ) :
    ∀ order : List α, (completions ready left order).Pairwise (List.Lex (· < ·)) := by
  induction left with
  | zero => exact fun order => List.pairwise_singleton _ order
  | succ left ih =>
    intro order
    have hbranch (a : α) : ∀ full ∈ completions ready left (order ++ [a]), ∃ rest, full = order ++ a :: rest := by
      intro full hfull
      obtain ⟨rest,hrest⟩ := prefix_of_mem_completions left hfull
      exact ⟨rest,by rw [← hrest,List.append_assoc,List.singleton_append]⟩
    rw [completions,List.pairwise_flatMap]
    refine ⟨fun a _ => ih (order ++ [a]),(hsorted order).imp fun {a b} hab full hfull full' hfull' => ?_⟩
    obtain ⟨rest,rfl⟩ := hbranch a full hfull
    obtain ⟨rest',rfl⟩ := hbranch b full' hfull'
    exact List.Lex.append_left _ (.rel hab) order

/-- Without cycles there is one wherever there is a feasible order. -/
theorem completions_ne_nil [DecidableEq α] (hready : ∀ order a, a ∈ ready order ↔ Ready nodes required order a)
    (hacyclic : Forest.Acyclic (Precedes nodes required)) (hknown : ∀ a ∈ nodes, ∀ b ∈ required a, b ∈ nodes)
    (left : ℕ) : ∀ {order : List α}, Feasible nodes required order → order.length + left = nodes.card →
      completions ready left order ≠ [] := by
  induction left with
  | zero => exact fun _ _ => List.cons_ne_nil _ []
  | succ left ih =>
    intro order horder hlength hnil
    obtain ⟨a,ha,hnew⟩ := horder.exists_new (by omega)
    obtain ⟨b,hb⟩ := exists_ready hacyclic hknown ha hnew
    refine ih (feasible_concat_iff.mpr ⟨horder,hb⟩) ?_ ?_
    · rw [List.length_append,List.length_singleton]
      omega
    · exact List.flatMap_eq_nil_iff.mp hnil b ((hready order b).mpr hb)

theorem exists_topological [DecidableEq α] (hacyclic : Forest.Acyclic (Precedes nodes required))
    (hknown : ∀ a ∈ nodes, ∀ b ∈ required a, b ∈ nodes) : ∃ order, Topological nodes required order := by
  classical
  let ready (order : List α) : List α := (nodes.filter fun a => Ready nodes required order a).toList
  have hready (order : List α) (a : α) : a ∈ ready order ↔ Ready nodes required order a := by
    rw [Finset.mem_toList,Finset.mem_filter]
    exact ⟨And.right,fun h => ⟨h.mem,h⟩⟩
  have hsome := completions_ne_nil hready hacyclic hknown nodes.card feasible_nil (Nat.zero_add _)
  obtain ⟨order,horder⟩ := List.exists_mem_of_ne_nil _ hsome
  obtain ⟨hfeasible,-,hlength⟩ := (mem_completions hready nodes.card feasible_nil order).mp horder
  rw [List.length_nil,Nat.zero_add] at hlength
  exact ⟨order,topological_iff.mpr ⟨hfeasible,hlength⟩⟩

end BeliefKV.Precedence
