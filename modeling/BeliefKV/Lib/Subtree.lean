import Mathlib.Logic.Relation
import Mathlib.Data.Finset.Card
import Mathlib.Tactic

/-! Depth-first walks over a forest. They keep no record of the nodes visited: in a forest
nothing comes up twice. -/
namespace BeliefKV.Subtree
open Relation
variable {α β ε : Type}

/-- Pop a node, visit it and push its successors. -/
def gather (next : α → List α) : ℕ → List α → List α
  | 0, _ => []
  | _ + 1, [] => []
  | fuel + 1, a :: stack => a :: gather next fuel (next a ++ stack)

/-- The same walk with a visit that can raise. -/
def walk (next : α → List α) (visit : β → α → Except ε β) : ℕ → List α → β → Except ε β
  | 0, _, acc => .ok acc
  | _ + 1, [], acc => .ok acc
  | fuel + 1, a :: stack, acc =>
    match visit acc a with
    | .error e => .error e
    | .ok acc => walk next visit fuel (next a ++ stack) acc

/-- A walk returns when every visit does. -/
theorem walk_eq_ok {next : α → List α} {visit : β → α → Except ε β} {step : β → α → β} {P : α → Prop}
    {I : List α → β → Prop} (hvisit : ∀ done acc a, P a → I done acc → a ∉ done →
      visit acc a = .ok (step acc a) ∧ I (done ++ [a]) (step acc a))
    {fuel : ℕ} {stack done : List α} {acc : β} (hI : I done acc)
    (hP : ∀ a ∈ gather next fuel stack, P a) (hnodup : (done ++ gather next fuel stack).Nodup) :
    ∃ acc', walk next visit fuel stack acc = .ok acc' ∧ I (done ++ gather next fuel stack) acc' := by
  induction fuel generalizing stack done acc with
  | zero => exact ⟨acc,rfl,by simpa [gather] using hI⟩
  | succ fuel ih =>
    cases stack with
    | nil => exact ⟨acc,rfl,by simpa [gather] using hI⟩
    | cons a stack =>
      rw [gather] at hP hnodup ⊢
      have hfresh : a ∉ done := by
        intro hmem
        exact (List.nodup_append.mp hnodup).2.2 a hmem a (by simp) rfl
      obtain ⟨hok,hstep⟩ := hvisit done acc a (hP a (by simp)) hI hfresh
      have hrest (b : α) (hb : b ∈ gather next fuel (next a ++ stack)) : P b :=
        hP b (List.mem_cons_of_mem a hb)
      obtain ⟨acc',hwalk,hacc⟩ := ih hstep hrest (by simpa using hnodup)
      refine ⟨acc',?_,by simpa using hacc⟩
      rw [walk,hok]
      exact hwalk

/-- What a node pushes is in the domain, once, and has the node for its parent; nodes get deeper
on the way. -/
structure IsForest (next : α → List α) (domain : Finset α) (parent : α → Option α)
    (depth : α → ℕ) : Prop where
  closed : ∀ a ∈ domain, ∀ b ∈ next a, b ∈ domain
  parent : ∀ a ∈ domain, ∀ b ∈ next a, parent b = some a
  depth : ∀ a ∈ domain, ∀ b ∈ next a, depth a < depth b
  nodup : ∀ a ∈ domain, (next a).Nodup

section Forest
variable [DecidableEq α] {next : α → List α} {domain : Finset α} {parent : α → Option α}
  {depth : α → ℕ}

/-- A walk visits nodes of the domain once, all that wait and all that they push. -/
theorem gather_spec (hf : IsForest next domain parent depth) (r : α) {fuel : ℕ} {stack : List α}
    (seen : Finset α) (hsub : ∀ a ∈ stack, a ∈ domain) (hnodup : stack.Nodup)
    (hnew : ∀ a ∈ stack, a ∉ seen)
    (hkin : ∀ b, b ∈ seen ∨ b ∈ stack → depth r ≤ depth b ∧ (b = r ∨ ∃ a ∈ seen, parent b = some a))
    (hfuel : (domain \ seen).card ≤ fuel) :
    (gather next fuel stack).Nodup ∧ (∀ a ∈ gather next fuel stack, a ∈ domain ∧ a ∉ seen) ∧
      (∀ a ∈ stack, a ∈ gather next fuel stack) ∧
      ∀ a ∈ gather next fuel stack, ∀ b ∈ next a, b ∈ gather next fuel stack := by
  induction fuel generalizing stack seen with
  | zero =>
    have hempty : domain \ seen = ∅ := Finset.card_eq_zero.mp (by omega)
    have hnil : stack = [] := by
      refine List.eq_nil_iff_forall_not_mem.mpr fun a ha => ?_
      have hmem : a ∈ domain \ seen := Finset.mem_sdiff.mpr ⟨hsub a ha,hnew a ha⟩
      rw [hempty] at hmem
      exact Finset.notMem_empty a hmem
    subst hnil
    simp [gather]
  | succ fuel ih =>
    cases stack with
    | nil => simp [gather]
    | cons a stack =>
      have ha : a ∈ domain := hsub a (by simp)
      have hseen : a ∉ seen := hnew a (by simp)
      -- a node that is pushed was not met before: its parent has only now been visited
      have hfresh (c : α) (hc : c ∈ next a) : c ∉ seen ∧ c ∉ a :: stack := by
        have hnot : ¬ (c ∈ seen ∨ c ∈ a :: stack) := by
          intro hmet
          obtain ⟨hdepth,rfl | ⟨a',ha',hpar⟩⟩ := hkin c hmet
          · have hup := (hkin a (.inr (by simp))).1
            have hdown := hf.depth a ha c hc
            omega
          · rw [hf.parent a ha c hc] at hpar
            exact hseen (Option.some.inj hpar ▸ ha')
        exact ⟨fun h => hnot (.inl h),fun h => hnot (.inr h)⟩
      have hcard : (domain \ insert a seen).card ≤ fuel := by
        have hsplit : domain \ insert a seen = (domain \ seen).erase a := by
          ext b
          simp only [Finset.mem_sdiff,Finset.mem_insert,Finset.mem_erase]
          tauto
        have hmem : a ∈ domain \ seen := Finset.mem_sdiff.mpr ⟨ha,hseen⟩
        rw [hsplit,Finset.card_erase_of_mem hmem]
        omega
      obtain ⟨hstack,htail⟩ := List.nodup_cons.mp hnodup
      have hnodup' : (next a ++ stack).Nodup := by
        refine List.nodup_append.mpr ⟨hf.nodup a ha,htail,?_⟩
        rintro c hc d hd rfl
        exact (hfresh c hc).2 (by simp [hd])
      have hnew' (c : α) (hc : c ∈ next a ++ stack) : c ∉ insert a seen := by
        rw [Finset.mem_insert,not_or]
        rcases List.mem_append.mp hc with hc | hc
        · exact ⟨fun h => (hfresh c hc).2 (by simp [h]),(hfresh c hc).1⟩
        · exact ⟨fun h => hstack (h ▸ hc),hnew c (by simp [hc])⟩
      have hkin' (b : α) (hb : b ∈ insert a seen ∨ b ∈ next a ++ stack) :
          depth r ≤ depth b ∧ (b = r ∨ ∃ c ∈ insert a seen, parent b = some c) := by
        by_cases hpush : b ∈ next a
        · have hup := (hkin a (.inr (by simp))).1
          have hdown := hf.depth a ha b hpush
          exact ⟨by omega,.inr ⟨a,by simp,hf.parent a ha b hpush⟩⟩
        · have hold : b ∈ seen ∨ b ∈ a :: stack := by
            simp only [Finset.mem_insert,List.mem_append,List.mem_cons] at hb ⊢
            tauto
          obtain ⟨hdepth,heq | ⟨c,hc,hpar⟩⟩ := hkin b hold
          · exact ⟨hdepth,.inl heq⟩
          · exact ⟨hdepth,.inr ⟨c,by simp [hc],hpar⟩⟩
      have hsub' (c : α) (hc : c ∈ next a ++ stack) : c ∈ domain := by
        rcases List.mem_append.mp hc with hc | hc
        · exact hf.closed a ha c hc
        · exact hsub c (by simp [hc])
      obtain ⟨hnd,hdom,hall,hclosed⟩ := ih (insert a seen) hsub' hnodup' hnew' hkin' hcard
      rw [gather]
      refine ⟨List.nodup_cons.mpr ⟨fun hmem => (hdom a hmem).2 (by simp),hnd⟩,?_,?_,?_⟩
      · intro b hb
        rcases List.mem_cons.mp hb with rfl | hb
        · exact ⟨ha,hseen⟩
        · exact ⟨(hdom b hb).1,fun h => (hdom b hb).2 (by simp [h])⟩
      · intro b hb
        rcases List.mem_cons.mp hb with rfl | hb
        · simp
        · exact List.mem_cons_of_mem a (hall b (by simp [hb]))
      · intro b hb c hc
        rcases List.mem_cons.mp hb with rfl | hb
        · exact List.mem_cons_of_mem b (hall c (by simp [hc]))
        · exact List.mem_cons_of_mem a (hclosed b hb c hc)

omit [DecidableEq α] in
/-- What a walk visits was waiting or was pushed by what it visits. -/
theorem gather_origin {fuel : ℕ} {stack : List α} {b : α} (hb : b ∈ gather next fuel stack) :
    b ∈ stack ∨ ∃ a ∈ gather next fuel stack, b ∈ next a := by
  induction fuel generalizing stack with
  | zero => simp [gather] at hb
  | succ fuel ih =>
    cases stack with
    | nil => simp [gather] at hb
    | cons a stack =>
      rw [gather] at hb ⊢
      rcases List.mem_cons.mp hb with rfl | hb
      · exact .inl (by simp)
      · rcases ih hb with hwait | ⟨c,hc,hpush⟩
        · rcases List.mem_append.mp hwait with hpush | hwait
          · exact .inr ⟨a,by simp,hpush⟩
          · exact .inl (by simp [hwait])
        · exact .inr ⟨c,by simp [hc],hpush⟩

/-- The walk from one node. -/
theorem gather_root (hf : IsForest next domain parent depth) {r : α} (hr : r ∈ domain) {fuel : ℕ}
    (hfuel : domain.card ≤ fuel) :
    (gather next fuel [r]).Nodup ∧ (∀ a ∈ gather next fuel [r], a ∈ domain) ∧
      r ∈ gather next fuel [r] ∧
      ∀ a ∈ gather next fuel [r], ∀ b ∈ next a, b ∈ gather next fuel [r] := by
  have hcard : (domain \ ∅).card ≤ fuel := by simpa using hfuel
  obtain ⟨hnodup,hdom,hall,hclosed⟩ := gather_spec hf r ∅ (by simpa using hr)
    (List.nodup_singleton r) (by simp) (by simp) hcard
  exact ⟨hnodup,fun a ha => (hdom a ha).1,hall r (by simp),hclosed⟩

end Forest
end BeliefKV.Subtree
