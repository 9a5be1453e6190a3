import Mathlib.Logic.Relation
import Mathlib.Data.List.Basic

/-! Runs of a deterministic system under a list of inputs, and the invariant rule for runs
whose inputs all meet a condition on the state they find. -/
namespace BeliefKV.Run
variable {σ α : Type*} {step : σ → α → σ}

/-- Every input of a run meets a condition on the state it finds. -/
def AllSteps (step : σ → α → σ) (P : σ → α → Prop) : σ → List α → Prop
  | _, [] => True
  | s, a :: as => P s a ∧ AllSteps step P (step s a) as

instance AllSteps.decidable {P : σ → α → Prop} [∀ s a, Decidable (P s a)] :
    ∀ (s : σ) (as : List α), Decidable (AllSteps step P s as)
  | _, [] => isTrue trivial
  | s, a :: as =>
    have := AllSteps.decidable (P := P) (step s a) as
    inferInstanceAs (Decidable (P s a ∧ AllSteps step P (step s a) as))

theorem AllSteps.append {P : σ → α → Prop} {s : σ} {as bs : List α} :
    AllSteps step P s (as ++ bs) ↔ AllSteps step P s as ∧ AllSteps step P (as.foldl step s) bs := by
  induction as generalizing s with
  | nil => simp [AllSteps]
  | cons a as ih => simp [AllSteps,ih,and_assoc]

/-- What one step preserves under a condition, a run preserves whose steps all meet it. -/
theorem AllSteps.invariant {P : σ → α → Prop} {I : σ → Prop}
    (hstep : ∀ s a, I s → P s a → I (step s a)) {s : σ} {as : List α} (hs : I s)
    (hall : AllSteps step P s as) : I (as.foldl step s) := by
  induction as generalizing s with
  | nil => exact hs
  | cons a as ih => exact ih (hstep s a hs hall.1) hall.2

/-- What a condition and an invariant imply of one step, they imply of every step of a run. -/
theorem AllSteps.imp {P Q : σ → α → Prop} {I : σ → Prop}
    (hstep : ∀ s a, I s → P s a → I (step s a)) (himp : ∀ s a, I s → P s a → Q s a) {s : σ}
    {as : List α} (hs : I s) (hall : AllSteps step P s as) : AllSteps step Q s as := by
  induction as generalizing s with
  | nil => trivial
  | cons a as ih => exact ⟨himp s a hs hall.1,ih (hstep s a hs hall.1) hall.2⟩

/-- A condition that holds wherever the run is cut holds of all steps. -/
theorem AllSteps.of_split {P : σ → α → Prop} {s : σ} {as : List α}
    (h : ∀ before a after, as = before ++ a :: after → P (before.foldl step s) a) :
    AllSteps step P s as := by
  induction as generalizing s with
  | nil => trivial
  | cons a as ih =>
    refine ⟨h [] a as rfl,ih fun before b after heq => ?_⟩
    exact h (a :: before) b after (by rw [heq,List.cons_append])

theorem AllSteps.of_forall {P : σ → α → Prop} {as : List α} (h : ∀ a ∈ as, ∀ s, P s a) (s : σ) :
    AllSteps step P s as := by
  induction as generalizing s with
  | nil => trivial
  | cons a as ih =>
    exact ⟨h a (by simp) s,ih (fun b hb => h b (by simp [hb])) _⟩

theorem AllSteps.and {P Q : σ → α → Prop} {s : σ} {as : List α} (hp : AllSteps step P s as)
    (hq : AllSteps step Q s as) : AllSteps step (fun t a => P t a ∧ Q t a) s as := by
  induction as generalizing s with
  | nil => trivial
  | cons a as ih => exact ⟨⟨hp.1,hq.1⟩,ih hp.2 hq.2⟩

end BeliefKV.Run
