import Mathlib.Data.Finset.Card
import Mathlib.Tactic

/-! Sets that are counted from the larger ones on: what lies in a set that was counted is passed over. -/
namespace BeliefKV.Cover
variable {B K A : Type} (covers : K → K → Prop) [DecidableRel covers] (key : B → K) (weight : B → ℕ)

/-- The keys that were taken, and what they weigh together. -/
def take (acc : List K × ℕ) (b : B) : List K × ℕ :=
  if ∃ root ∈ acc.1, covers root (key b) then acc else (acc.1 ++ [key b],acc.2 + weight b)

variable {covers key weight}

/-- What was taken so far has all of the sets that were seen. -/
structure Taken (key : B → K) (S : B → Finset A) (seen : List B) (acc : List K × ℕ) : Prop where
  known : ∀ root ∈ acc.1, ∃ e ∈ seen, key e = root
  above : ∀ c ∈ seen, ∃ e ∈ seen, key e ∈ acc.1 ∧ S c ⊆ S e
  total : ∃ U : Finset A, (∀ i, i ∈ U ↔ ∃ c ∈ seen, i ∈ S c) ∧ acc.2 = U.card

variable [DecidableEq A] {S : B → Finset A} {seen : List B} {acc : List K × ℕ} {b : B}

theorem Taken.take (h : Taken key S seen acc) (hweight : weight b = (S b).card)
    (hsub : ∀ c ∈ seen, covers (key c) (key b) → S b ⊆ S c)
    (hapart : ∀ c ∈ seen, covers (key c) (key b) ∨ Disjoint (S c) (S b)) :
    Taken key S (seen ++ [b]) (take covers key weight acc b) := by
  obtain ⟨U,hU,hcard⟩ := h.total
  have hseen (i : A) : (∃ c ∈ seen ++ [b], i ∈ S c) ↔ (∃ c ∈ seen, i ∈ S c) ∨ i ∈ S b := by
    simp only [List.mem_append,List.mem_singleton,or_and_right,exists_or,exists_eq_left]
  unfold Cover.take
  by_cases hcovered : ∃ root ∈ acc.1, covers root (key b)
  · rw [if_pos hcovered]
    obtain ⟨root,hroot,hcovers⟩ := hcovered
    obtain ⟨e,he,rfl⟩ := h.known root hroot
    have hle := hsub e he hcovers
    refine ⟨fun root hroot => ?_,fun c hc => ?_,U,fun i => ?_,hcard⟩
    · obtain ⟨e,he,hkey⟩ := h.known root hroot
      exact ⟨e,List.mem_append_left [b] he,hkey⟩
    · obtain hc | hc := List.mem_append.mp hc
      · obtain ⟨e,he,hkey,hin⟩ := h.above c hc
        exact ⟨e,List.mem_append_left [b] he,hkey,hin⟩
      · rw [List.mem_singleton.mp hc]
        exact ⟨e,List.mem_append_left [b] he,hroot,hle⟩
    · rw [hseen,hU]
      exact ⟨.inl,fun hi => hi.elim id fun hi => ⟨e,he,hle hi⟩⟩
  · rw [if_neg hcovered]
    -- a set that was seen lies in one that was taken, which this one does not meet
    have hfresh : Disjoint U (S b) := by
      apply Finset.disjoint_left.mpr
      intro i hi hb
      obtain ⟨c,hc,hic⟩ := (hU i).mp hi
      obtain ⟨e,he,hkey,hin⟩ := h.above c hc
      obtain hcovers | hdisjoint := hapart e he
      · exact hcovered ⟨key e,hkey,hcovers⟩
      · exact Finset.disjoint_left.mp hdisjoint (hin hic) hb
    refine ⟨fun root hroot => ?_,fun c hc => ?_,U ∪ S b,fun i => ?_,?_⟩
    · obtain hroot | hroot := List.mem_append.mp hroot
      · obtain ⟨e,he,hkey⟩ := h.known root hroot
        exact ⟨e,List.mem_append_left [b] he,hkey⟩
      · exact ⟨b,by simp,(List.mem_singleton.mp hroot).symm⟩
    · obtain hc | hc := List.mem_append.mp hc
      · obtain ⟨e,he,hkey,hin⟩ := h.above c hc
        exact ⟨e,List.mem_append_left [b] he,List.mem_append_left _ hkey,hin⟩
      · rw [List.mem_singleton.mp hc]
        exact ⟨b,by simp,by simp,subset_rfl⟩
    · rw [hseen,Finset.mem_union,hU]
    · rw [Finset.card_union_of_disjoint hfresh,hcard,hweight]

/-- When the larger sets come first, what is taken weighs as much as all of the sets together. -/
theorem foldl_take : ∀ {sets : List B}, (∀ b ∈ sets, weight b = (S b).card) →
    (∀ b ∈ sets, ∀ c ∈ sets, covers (key c) (key b) → S b ⊆ S c) →
    sets.Pairwise (fun c b => covers (key c) (key b) ∨ Disjoint (S c) (S b)) →
      Taken key S sets (sets.foldl (take covers key weight) ([],0)) := by
  intro sets
  induction sets using List.reverseRecOn with
  | nil => exact fun _ _ _ => ⟨by simp,by simp,∅,by simp,rfl⟩
  | append_singleton sets b ih =>
    intro hweight hsub hapart
    obtain ⟨hbefore,-,hlast⟩ := List.pairwise_append.mp hapart
    have hstart := ih (fun c hc => hweight c (List.mem_append_left [b] hc))
      (fun c hc d hd => hsub c (List.mem_append_left [b] hc) d (List.mem_append_left [b] hd)) hbefore
    rw [List.foldl_concat]
    apply hstart.take
    · exact hweight b (by simp)
    · exact fun c hc => hsub b (by simp) c (List.mem_append_left [b] hc)
    · exact fun c hc => hlast c hc b (by simp)

omit [DecidableEq A] in
theorem Taken.eq_card (h : Taken key S seen acc) {U : Finset A} (hU : ∀ i, i ∈ U ↔ ∃ c ∈ seen, i ∈ S c) :
    acc.2 = U.card := by
  obtain ⟨V,hV,hcard⟩ := h.total
  have hsame : V = U := by
    ext i
    rw [hV,hU]
  rw [hcard,hsame]

end BeliefKV.Cover
