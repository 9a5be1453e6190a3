import Mathlib.Logic.Basic
import Mathlib.Data.Nat.Basic

/-! Loops that go on until there is enough or no further round is possible. -/
namespace BeliefKV.Rounds
variable {σ ε : Type*} {enough : σ → Bool} {next : σ → Except ε (Option σ)}

/-- How a loop ends; a loop that is cut off is unfinished. -/
inductive Outcome (σ : Type*)
  | reached (s : σ)
  | stuck (s : σ)
  | unfinished

/-- Make rounds until there is enough, or until there is no next round. -/
def rounds (enough : σ → Bool) (next : σ → Except ε (Option σ)) : ℕ → σ → Except ε (Outcome σ)
  | fuel, s =>
    if enough s then .ok (.reached s)
    else match next s with
      | .error e => .error e
      | .ok none => .ok (.stuck s)
      | .ok (some t) =>
        match fuel with
        | 0 => .ok .unfinished
        | fuel + 1 => rounds enough next fuel t

/-- The loop has ended as it should, in a state with a property. -/
inductive Ended (enough : σ → Bool) (next : σ → Except ε (Option σ)) (I : σ → Prop) : Outcome σ → Prop
  | reached {s : σ} : I s → enough s = true → Ended enough next I (.reached s)
  | stuck {s : σ} : I s → enough s = false → next s = .ok none → Ended enough next I (.stuck s)

/-- A loop whose rounds raise nothing, keep an invariant and use up a measure ends. -/
theorem rounds_ended {I : σ → Prop} (measure : σ → ℕ)
    (hround : ∀ s, I s → enough s = false → ∃ t, next s = .ok t ∧ ∀ u, t = some u → I u ∧ measure u < measure s)
    {fuel : ℕ} : ∀ {s : σ}, I s → measure s ≤ fuel →
      ∃ o, rounds enough next fuel s = .ok o ∧ Ended enough next I o := by
  induction fuel with
  | zero =>
    intro s hs hfuel
    rw [rounds]
    cases hdone : enough s with
    | true => exact ⟨_,rfl,.reached hs hdone⟩
    | false =>
      obtain ⟨t,ht,hnext⟩ := hround s hs hdone
      cases t with
      | none =>
        simp only [ht]
        exact ⟨_,rfl,.stuck hs hdone ht⟩
      | some u => exact absurd (hnext u rfl).2 (by omega)
  | succ fuel ih =>
    intro s hs hfuel
    rw [rounds]
    cases hdone : enough s with
    | true => exact ⟨_,rfl,.reached hs hdone⟩
    | false =>
      obtain ⟨t,ht,hnext⟩ := hround s hs hdone
      cases t with
      | none =>
        simp only [ht]
        exact ⟨_,rfl,.stuck hs hdone ht⟩
      | some u =>
        simp only [ht]
        obtain ⟨hu,hless⟩ := hnext u rfl
        exact ih hu (by omega)

/-- Loops with the same rounds are the same. -/
theorem rounds_congr {I : σ → Prop} {next' : σ → Except ε (Option σ)}
    (hsame : ∀ s, I s → next' s = next s) (hkeep : ∀ s t, I s → next s = .ok (some t) → I t) {fuel : ℕ} :
    ∀ {s : σ}, I s → rounds enough next' fuel s = rounds enough next fuel s := by
  induction fuel with
  | zero =>
    intro s hs
    rw [rounds,rounds,hsame s hs]
  | succ fuel ih =>
    intro s hs
    rw [rounds,rounds,hsame s hs]
    cases hnext : next s with
    | error e => rfl
    | ok t =>
      cases t with
      | none => rfl
      | some u => simp only [ih (hkeep s u hs hnext)]

end BeliefKV.Rounds
