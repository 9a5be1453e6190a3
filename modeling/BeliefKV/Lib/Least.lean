import Mathlib.Order.Defs.LinearOrder
import Mathlib.Order.Lattice

/-! Searches that keep the element with the least key of those they have met. -/
namespace BeliefKV.Least
variable {C K : Type*} [Preorder K] {key : C → K} {S T : C → Prop} {best middle found : Option C}

/-- What was found is no worse than what was there and than the elements of a set, and is one of them. -/
structure Searched (key : C → K) (S : C → Prop) (best found : Option C) : Prop where
  kept : ∀ b, best = some b → ∃ c, found = some c ∧ key c ≤ key b
  least : ∀ d, S d → ∃ c, found = some c ∧ key c ≤ key d
  origin : ∀ c, found = some c → best = some c ∨ S c

namespace Searched

/-- Nothing is met. -/
theorem refl (key : C → K) (best : Option C) : Searched key (fun _ => False) best best :=
  ⟨fun b hb => ⟨b,hb,le_rfl⟩,nofun,fun _ hc => .inl hc⟩

/-- One search after another. -/
theorem trans (h : Searched key S best middle) (h' : Searched key T middle found) :
    Searched key (fun c => S c ∨ T c) best found := by
  refine ⟨fun b hb => ?_,fun d hd => ?_,fun c hc => ?_⟩
  · obtain ⟨c,hc,hle⟩ := h.kept b hb
    obtain ⟨f,hf,hle'⟩ := h'.kept c hc
    exact ⟨f,hf,hle'.trans hle⟩
  · obtain hd | hd := hd
    · obtain ⟨c,hc,hle⟩ := h.least d hd
      obtain ⟨f,hf,hle'⟩ := h'.kept c hc
      exact ⟨f,hf,hle'.trans hle⟩
    · exact h'.least d hd
  · obtain hc | hc := h'.origin c hc
    · exact (h.origin c hc).imp_right .inl
    · exact .inr (.inr hc)

/-- A search of the elements that count is a search of all. -/
theorem widen (h : Searched key S best found) (hsub : ∀ c, S c → T c) (hcount : ∀ d, T d → ∃ c, S c ∧ key c ≤ key d) :
    Searched key T best found := by
  refine ⟨h.kept,fun d hd => ?_,fun c hc => (h.origin c hc).imp_right (hsub c)⟩
  obtain ⟨c,hc,hle⟩ := hcount d hd
  obtain ⟨f,hf,hle'⟩ := h.least c hc
  exact ⟨f,hf,hle'.trans hle⟩

theorem congr (h : Searched key S best found) (hsame : ∀ c, S c ↔ T c) : Searched key T best found :=
  h.widen (fun c => (hsame c).mp) fun d hd => ⟨d,(hsame d).mpr hd,le_rfl⟩

/-- A search from nothing finds nothing iff there is nothing. -/
theorem eq_none_iff (h : Searched key S none found) : found = none ↔ ∀ c, ¬ S c := by
  constructor
  · rintro rfl c hc
    obtain ⟨d,hd,-⟩ := h.least c hc
    cases hd
  · intro hempty
    cases hfound : found with
    | none => rfl
    | some c =>
      obtain hc | hc := h.origin c hfound
      · cases hc
      · exact absurd hc (hempty c)

/-- What a search from nothing finds is least. -/
theorem spec {c : C} (h : Searched key S none (some c)) : S c ∧ ∀ d, S d → key c ≤ key d := by
  refine ⟨(h.origin c rfl).resolve_left nofun,fun d hd => ?_⟩
  obtain ⟨f,hf,hle⟩ := h.least d hd
  cases hf
  exact hle

end Searched

/-! ## A scan -/

section Scan
variable {A : Type*}

/-- Keep the lesser element, the one that was there if neither is less. -/
def better (less : C → C → Bool) (c : C) : Option C → Option C
  | none => some c
  | some b => if less c b then some c else some b

/-- The least of the elements that the members of a list stand for. -/
def scan (less : C → C → Bool) (stands : A → Option C) (members : List A) (best : Option C) : Option C :=
  members.foldl (fun best a => (stands a).elim best fun c => better less c best) best

/-- The least member of a list, the first of those with one key. -/
def leastOf (less : C → C → Bool) (members : List C) : Option C := scan less some members none

end Scan

section Linear
variable {A K : Type*} [LinearOrder K] {key : C → K} {less : C → C → Bool}
  (hless : ∀ c d, less c d = true ↔ key c < key d)
include hless

theorem better_searched (c : C) (best : Option C) : Searched key (· = c) best (better less c best) := by
  cases best with
  | none =>
    refine ⟨nofun,fun d hd => ⟨c,rfl,hd ▸ le_rfl⟩,fun d hd => .inr ?_⟩
    cases hd
    rfl
  | some b =>
    unfold better
    by_cases hlt : less c b = true
    · simp only [if_pos hlt]
      refine ⟨fun d hd => ⟨c,rfl,?_⟩,fun d hd => ⟨c,rfl,hd ▸ le_rfl⟩,fun d hd => .inr ?_⟩
      · cases hd
        exact ((hless c _).mp hlt).le
      · cases hd
        rfl
    · simp only [if_neg hlt]
      refine ⟨fun d hd => ⟨d,hd,le_rfl⟩,fun d hd => ⟨b,rfl,?_⟩,fun d hd => .inl hd⟩
      exact hd ▸ not_lt.mp fun h => hlt ((hless c b).mpr h)

theorem scan_searched (stands : A → Option C) (members : List A) (best : Option C) :
    Searched key (fun c => ∃ a ∈ members, stands a = some c) best (scan less stands members best) := by
  induction members generalizing best with
  | nil => exact (Searched.refl key best).congr fun c => by simp
  | cons a members ih =>
    have hfirst : Searched key (fun c => stands a = some c) best
        ((stands a).elim best fun c => better less c best) := by
      cases hc : stands a with
      | none => exact (Searched.refl key best).congr fun c => by simp
      | some c => exact (better_searched hless c best).congr fun d => by simp [eq_comm]
    refine (hfirst.trans (ih _)).congr fun c => ?_
    simp only [List.mem_cons,exists_eq_or_imp]

theorem leastOf_searched (members : List C) : Searched key (· ∈ members) none (leastOf less members) := by
  refine (scan_searched hless some members none).congr fun c => ⟨?_,fun hc => ⟨c,hc,rfl⟩⟩
  rintro ⟨a,ha,hac⟩
  cases hac
  exact ha

theorem leastOf_eq_none (members : List C) : leastOf less members = none ↔ members = [] := by
  rw [(leastOf_searched hless members).eq_none_iff]
  exact List.eq_nil_iff_forall_not_mem.symm

theorem leastOf_spec {members : List C} {c : C} (h : leastOf less members = some c) :
    c ∈ members ∧ ∀ d ∈ members, key c ≤ key d := by
  have hsearch := leastOf_searched hless members
  rw [h] at hsearch
  exact hsearch.spec

omit hless in
/-- Two searches for one set find the same when different elements have different keys. -/
theorem Searched.unique {S : C → Prop} {found found' : Option C} (h : Searched key S none found)
    (h' : Searched key S none found') (hinj : ∀ c d, S c → S d → key c = key d → c = d) : found = found' := by
  cases hfound : found with
  | none =>
    rw [hfound] at h
    exact (h'.eq_none_iff.mpr (h.eq_none_iff.mp rfl)).symm
  | some c =>
    rw [hfound] at h
    obtain ⟨hc,hleast⟩ := h.spec
    obtain ⟨d,hd,hle⟩ := h'.least c hc
    rw [hd] at h'
    obtain ⟨hd',hleast'⟩ := h'.spec
    rw [hd,hinj c d hc hd' (le_antisymm (hleast d hd') hle)]

end Linear
end BeliefKV.Least
