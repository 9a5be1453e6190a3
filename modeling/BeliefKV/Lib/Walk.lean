import Mathlib.Logic.Relation
import Mathlib.Algebra.BigOperators.Group.Finset.Basic
import Mathlib.Algebra.Order.BigOperators.Group.Finset
import Mathlib.Tactic

/-! Depth-first walks with a stack and a record of the nodes visited so far. -/
namespace BeliefKV.Walk
open Relation
variable {α : Type} [DecidableEq α]

/-- What a walk met: the nodes it visited in order, the nodes it met again, and the nodes that
have no successors to push. -/
structure Trace (α : Type) where
  visited : List α := []
  again : List α := []
  missed : List α := []

/-- Pop a node; skip it when it was visited or has no successors, else visit it and push them. -/
def explore (next : α → Option (List α)) : ℕ → List α → Trace α → Trace α
  | 0, _, t => t
  | _ + 1, [], t => t
  | fuel + 1, a :: stack, t =>
    if a ∈ t.visited then explore next fuel stack { t with again := t.again ++ [a] }
    else
      match next a with
      | none => explore next fuel stack { t with missed := t.missed ++ [a] }
      | some as => explore next fuel (as ++ stack) { t with visited := t.visited ++ [a] }

/-- A node and one it pushes. -/
def Edge (next : α → Option (List α)) (a b : α) : Prop := ∃ as, next a = some as ∧ b ∈ as

section Sound
variable {next : α → Option (List α)}

/-- A walk only visits what the stack reaches. -/
theorem explore_sound {fuel : ℕ} {stack : List α} {t : Trace α} {a : α}
    (h : a ∈ (explore next fuel stack t).visited) :
    a ∈ t.visited ∨ (next a).isSome ∧ ∃ r ∈ stack, ReflTransGen (Edge next) r a := by
  induction fuel generalizing stack t with
  | zero => exact .inl h
  | succ fuel ih =>
    cases stack with
    | nil => exact .inl h
    | cons b stack =>
      unfold explore at h
      split_ifs at h with hb
      · rcases ih h with ht | ⟨ha,r,hr,hpath⟩
        · exact .inl ht
        · exact .inr ⟨ha,r,by simp [hr],hpath⟩
      · cases hn : next b with
        | none =>
          simp only [hn] at h
          rcases ih h with ht | ⟨ha,r,hr,hpath⟩
          · exact .inl ht
          · exact .inr ⟨ha,r,by simp [hr],hpath⟩
        | some as =>
          simp only [hn] at h
          rcases ih h with ht | ⟨ha,r,hr,hpath⟩
          · rcases List.mem_append.mp ht with ht | ht
            · exact .inl ht
            · rw [List.mem_singleton] at ht
              subst ht
              exact .inr ⟨by simp [hn],a,by simp,.refl⟩
          · rcases List.mem_append.mp hr with hr | hr
            · exact .inr ⟨ha,b,by simp,.head ⟨as,hn,hr⟩ hpath⟩
            · exact .inr ⟨ha,r,by simp [hr],hpath⟩

theorem visited_subset {fuel : ℕ} {stack : List α} {t : Trace α} {a : α} (h : a ∈ t.visited) :
    a ∈ (explore next fuel stack t).visited := by
  induction fuel generalizing stack t with
  | zero => exact h
  | succ fuel ih =>
    cases stack with
    | nil => exact h
    | cons b stack =>
      unfold explore
      split_ifs
      · exact ih h
      · cases next b with
        | none => exact ih h
        | some as => exact ih (List.mem_append_left _ h)

theorem visited_nodup {fuel : ℕ} {stack : List α} {t : Trace α} (h : t.visited.Nodup) :
    (explore next fuel stack t).visited.Nodup := by
  induction fuel generalizing stack t with
  | zero => exact h
  | succ fuel ih =>
    cases stack with
    | nil => exact h
    | cons b stack =>
      unfold explore
      split_ifs with hb
      · exact ih h
      · cases next b with
        | none => exact ih h
        | some as => exact ih (List.nodup_append.mpr ⟨h,List.nodup_singleton b,by
            rintro x hx y hy rfl
            exact hb (List.mem_singleton.mp hy ▸ hx)⟩)

/-- Where every node that is pushed has successors, none is missed. -/
theorem explore_missed_eq_nil (hnext : ∀ a b, Edge next a b → (next b).isSome) {fuel : ℕ}
    {stack : List α} {t : Trace α} (ht : t.missed = []) (hstack : ∀ a ∈ stack, (next a).isSome) :
    (explore next fuel stack t).missed = [] := by
  induction fuel generalizing stack t with
  | zero => exact ht
  | succ fuel ih =>
    cases stack with
    | nil => exact ht
    | cons b stack =>
      have hrest : ∀ a ∈ stack, (next a).isSome := fun a ha => hstack a (List.mem_cons_of_mem b ha)
      unfold explore
      split_ifs
      · exact ih ht hrest
      · cases hb : next b with
        | none => simp [hb] at hstack
        | some as =>
          refine ih ht fun a ha => ?_
          rcases List.mem_append.mp ha with ha | ha
          · exact hnext b a ⟨as,hb,ha⟩
          · exact hrest a ha

/-- In a forest nothing comes up twice: every node was pushed by its parent, which is visited
once and is not the node above the roots. -/
theorem explore_again_eq_nil (parent : α → Option α) (r : α) (P : α → Prop) (hr : ¬ P r)
    (hP : ∀ a b, P a → Edge next a b → P b) (hparent : ∀ a b, Edge next a b → parent b = some a)
    (hn : ∀ a as, next a = some as → as.Nodup) {fuel : ℕ} {stack : List α} {t : Trace α}
    (ht : t.again = []) (hnodup : (t.visited ++ stack).Nodup)
    (hkin : ∀ b ∈ t.visited ++ stack,
      P b ∧ (parent b = some r ∨ ∃ a ∈ t.visited, parent b = some a)) :
    (explore next fuel stack t).again = [] := by
  induction fuel generalizing stack t with
  | zero => exact ht
  | succ fuel ih =>
    cases stack with
    | nil => exact ht
    | cons b stack =>
      have hb : b ∉ t.visited := by
        intro hv
        exact (List.nodup_append.mp hnodup).2.2 b hv b (by simp) rfl
      unfold explore
      rw [if_neg hb]
      cases hnext : next b with
      | none =>
        refine ih ht (hnodup.sublist ((List.sublist_cons_self b stack).append_left _)) fun c hc => ?_
        exact hkin c (by simp at hc ⊢; tauto)
      | some as =>
        have hedge (c : α) (hc : c ∈ as) : Edge next b c := ⟨as,hnext,hc⟩
        have hnew (c : α) (hc : c ∈ as) : c ∉ t.visited ++ b :: stack := by
          intro hmem
          have hpb := hparent b c (hedge c hc)
          rcases (hkin c hmem).2 with hroot | ⟨a,ha,hpa⟩
          · rw [hpb] at hroot
            exact hr (Option.some.inj hroot ▸ (hkin b (by simp)).1)
          · rw [hpb] at hpa
            exact hb (Option.some.inj hpa ▸ ha)
        refine ih ht ?_ fun c hc => ?_
        · have hperm : (t.visited ++ [b] ++ (as ++ stack)).Perm (as ++ (t.visited ++ b :: stack)) := by
            simp only [List.append_assoc,List.singleton_append]
            exact (List.perm_middle.symm.append_left t.visited).trans
              (List.perm_append_comm_assoc as t.visited (b :: stack)).symm
          rw [hperm.nodup_iff,List.nodup_append]
          refine ⟨hn b as hnext,hnodup,?_⟩
          rintro c hc d hd rfl
          exact hnew c hc hd
        · have hcases : c ∈ as ∨ c ∈ t.visited ++ b :: stack := by
            simp at hc ⊢
            tauto
          rcases hcases with hc | hc
          · exact ⟨hP b c (hkin b (by simp)).1 (hedge c hc),
              .inr ⟨b,by simp,hparent b c (hedge c hc)⟩⟩
          · obtain ⟨hp,hroot | ⟨a,ha,hpa⟩⟩ := hkin c hc
            · exact ⟨hp,.inl hroot⟩
            · exact ⟨hp,.inr ⟨a,by simp [ha],hpa⟩⟩

end Sound

/-! ## Enough steps -/

section Complete
variable (next : α → Option (List α))

/-- The number of nodes one visit pushes. -/
def width (a : α) : ℕ := ((next a).map List.length).getD 0

/-- The pushes still to come from a domain. -/
def weight (domain : Finset α) (visited : List α) : ℕ :=
  ∑ a ∈ domain.filter (· ∉ visited), width next a

variable {next} {domain : Finset α}

theorem weight_visit (hdom : ∀ a, width next a ≠ 0 → a ∈ domain) {visited : List α} {a : α}
    (ha : a ∉ visited) : weight next domain (visited ++ [a]) + width next a = weight next domain visited := by
  unfold weight
  by_cases hmem : a ∈ domain
  · have hsplit : domain.filter (· ∉ visited) = insert a (domain.filter (· ∉ visited ++ [a])) := by
      ext b
      by_cases hb : b = a
      · subst hb
        simp [hmem,ha]
      · simp [hb]
    rw [hsplit,Finset.sum_insert (by simp),add_comm]
  · have hzero : width next a = 0 := by
      by_contra h
      exact hmem (hdom a h)
    have hsame : domain.filter (· ∉ visited ++ [a]) = domain.filter (· ∉ visited) := by
      ext b
      by_cases hb : b = a
      · subst hb
        simp [hmem]
      · simp [hb]
    rw [hzero,hsame,add_zero]

/-- What was visited only leads to what was visited or waits on the stack. -/
def Frontier (next : α → Option (List α)) (visited stack : List α) : Prop :=
  ∀ a ∈ visited, ∀ b, Edge next a b → (next b).isSome → b ∈ visited ∨ b ∈ stack

/-- With a step for every push the walk ends with nothing left to visit. -/
theorem explore_complete (hdom : ∀ a, width next a ≠ 0 → a ∈ domain) (fuel : ℕ)
    (stack : List α) (t : Trace α) (hfuel : weight next domain t.visited + stack.length ≤ fuel)
    (hfront : Frontier next t.visited stack) :
    (∀ a ∈ stack, (next a).isSome → a ∈ (explore next fuel stack t).visited) ∧
      Frontier next (explore next fuel stack t).visited [] := by
  induction fuel generalizing stack t with
  | zero =>
    have hnil : stack = [] := List.length_eq_zero_iff.mp (by omega)
    subst hnil
    exact ⟨by simp,hfront⟩
  | succ fuel ih =>
    cases stack with
    | nil => exact ⟨by simp,hfront⟩
    | cons b stack =>
      rw [List.length_cons] at hfuel
      unfold explore
      split_ifs with hb
      · have hf : Frontier next t.visited stack := by
          intro a ha c hac hc
          rcases hfront a ha c hac hc with h | h
          · exact .inl h
          · rcases List.mem_cons.mp h with rfl | h
            · exact .inl hb
            · exact .inr h
        obtain ⟨hstack,hdone⟩ := ih stack { t with again := t.again ++ [b] } (by simp; omega) hf
        refine ⟨fun a ha hn => ?_,hdone⟩
        rcases List.mem_cons.mp ha with rfl | ha
        · exact visited_subset hb
        · exact hstack a ha hn
      · cases hn : next b with
        | none =>
          have hf : Frontier next t.visited stack := by
            intro a ha c hac hc
            rcases hfront a ha c hac hc with h | h
            · exact .inl h
            · rcases List.mem_cons.mp h with rfl | h
              · simp [hn] at hc
              · exact .inr h
          obtain ⟨hstack,hdone⟩ := ih stack { t with missed := t.missed ++ [b] } (by simp; omega) hf
          refine ⟨fun a ha hna => ?_,hdone⟩
          rcases List.mem_cons.mp ha with rfl | ha
          · simp [hn] at hna
          · exact hstack a ha hna
        | some as =>
          have hw : width next b = as.length := by simp [width,hn]
          have hvisit := weight_visit hdom hb
          have hf : Frontier next (t.visited ++ [b]) (as ++ stack) := by
            intro a ha c hac hc
            rcases List.mem_append.mp ha with ha | ha
            · rcases hfront a ha c hac hc with h | h
              · exact .inl (List.mem_append_left _ h)
              · rcases List.mem_cons.mp h with rfl | h
                · exact .inl (by simp)
                · exact .inr (List.mem_append_right _ h)
            · rw [List.mem_singleton] at ha
              subst ha
              obtain ⟨as',has',hc'⟩ := hac
              rw [hn] at has'
              obtain rfl := Option.some.inj has'
              exact .inr (List.mem_append_left _ hc')
          obtain ⟨hstack,hdone⟩ := ih (as ++ stack) { t with visited := t.visited ++ [b] }
            (by simp only [List.length_append]; omega) hf
          refine ⟨fun a ha hna => ?_,hdone⟩
          rcases List.mem_cons.mp ha with rfl | ha
          · exact visited_subset (by simp)
          · exact hstack a (List.mem_append_right _ ha) hna

omit [DecidableEq α] in
/-- A closed set of visited nodes has everything its members reach. -/
theorem Frontier.reaches {visited : List α} (hf : Frontier next visited []) {a b : α}
    (ha : a ∈ visited)
    (h : ReflTransGen (fun x y => Edge next x y ∧ (next y).isSome) a b) : b ∈ visited := by
  induction h with
  | refl => exact ha
  | tail _ hstep ih =>
    rcases hf _ ih _ hstep.1 hstep.2 with h | h
    · exact h
    · simp at h

end Complete
end BeliefKV.Walk
