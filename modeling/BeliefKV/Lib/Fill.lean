import Mathlib.Algebra.BigOperators.Group.List.Basic
import Mathlib.Tactic

/-! Taking members of a list until their weights reach a goal. -/
namespace BeliefKV
variable {A : Type*} (goal : ℕ) (weight : A → ℕ)

/-- Take members until the goal is reached, from what has been reached already. -/
def fill : List A → ℕ → List A
  | [], _ => []
  | a :: rest, reached => if goal ≤ reached then [] else a :: fill rest (reached + weight a)

namespace Fill
variable {goal weight}

variable (goal weight) in
/-- What is taken comes first. It reaches the goal, or nothing is left. -/
theorem split (l : List A) : ∀ reached : ℕ, ∃ rest, l = fill goal weight l reached ++ rest ∧
    (rest = [] ∨ goal ≤ reached + ((fill goal weight l reached).map weight).sum) := by
  induction l with
  | nil => exact fun _ => ⟨[],rfl,.inl rfl⟩
  | cons a l ih =>
    intro reached
    rw [fill]
    by_cases hdone : goal ≤ reached
    · rw [if_pos hdone]
      exact ⟨a :: l,rfl,.inr (by simpa using hdone)⟩
    · rw [if_neg hdone]
      obtain ⟨rest,heq,hrest⟩ := ih (reached + weight a)
      refine ⟨rest,by rw [List.cons_append,← heq],hrest.imp_right fun hle => ?_⟩
      rwa [List.map_cons,List.sum_cons,← Nat.add_assoc]

/-- No shorter beginning reaches the goal. -/
theorem length_le (l : List A) : ∀ {reached : ℕ} {pre post : List A}, l = pre ++ post →
    goal ≤ reached + (pre.map weight).sum → (fill goal weight l reached).length ≤ pre.length := by
  induction l with
  | nil =>
    intro reached pre post _ _
    simp [fill]
  | cons a l ih =>
    intro reached pre post heq hgoal
    rw [fill]
    by_cases hdone : goal ≤ reached
    · rw [if_pos hdone]
      exact Nat.zero_le _
    · rw [if_neg hdone]
      cases pre with
      | nil => exact absurd (by simpa using hgoal) hdone
      | cons b pre =>
        obtain ⟨rfl,hl⟩ := List.cons.inj heq
        rw [List.map_cons,List.sum_cons,← Nat.add_assoc] at hgoal
        rw [List.length_cons,List.length_cons]
        exact Nat.succ_le_succ (ih hl hgoal)

end Fill
end BeliefKV
