import Mathlib.Data.List.Basic

/-! Logbooks whose entries tell what was there before and after them. -/
namespace BeliefKV.Logbook
variable {E α : Type} (before after : E → α)

/-- Each entry starts from where the one before it ended. -/
def Chained : α → List E → α → Prop
  | a, [], b => a = b
  | a, e :: entries, b => before e = a ∧ Chained (after e) entries b

variable {before after} {a b c : α} {entries more : List E}

theorem chained_append : Chained before after a (entries ++ more) c ↔
    ∃ b, Chained before after a entries b ∧ Chained before after b more c := by
  induction entries generalizing a with
  | nil => exact ⟨fun h => ⟨a,rfl,h⟩,fun ⟨_,rfl,h⟩ => h⟩
  | cons e entries ih =>
    constructor
    · rintro ⟨he,h⟩
      obtain ⟨b,hb,hc⟩ := ih.mp h
      exact ⟨b,⟨he,hb⟩,hc⟩
    · rintro ⟨b,⟨he,hb⟩,hc⟩
      exact ⟨he,ih.mpr ⟨b,hb,hc⟩⟩

/-- An entry is written for a change. -/
theorem Chained.concat {e : E} (h : Chained before after a entries (before e)) :
    Chained before after a (entries ++ [e]) (after e) :=
  chained_append.mpr ⟨before e,h,rfl,rfl⟩

/-- What holds at the start and after each entry holds at the end. -/
theorem Chained.ends {P : α → Prop} (h : Chained before after a entries b) (ha : P a)
    (hafter : ∀ e ∈ entries, P (after e)) : P b := by
  induction entries generalizing a with
  | nil => exact (h : a = b) ▸ ha
  | cons e entries ih =>
    exact ih h.2 (hafter e List.mem_cons_self) fun f hf => hafter f (List.mem_cons_of_mem e hf)

end BeliefKV.Logbook
