import Mathlib.Logic.Relation
import Mathlib.Order.WellFounded
import Mathlib.Data.Fintype.Card
import Mathlib.Order.RelClasses
import Mathlib.Tactic

/-! Acyclicity of parent pointers under edge replacement. -/
namespace BeliefKV.Forest
open Relation
variable {α : Type*} {r r' : α → α → Prop}

/-- No node reaches itself through one or more edges. -/
def Acyclic (r : α → α → Prop) : Prop := ∀ a, ¬ TransGen r a a

theorem Acyclic.mono (h : Acyclic r) (hsub : ∀ a b, r' a b → r a b) : Acyclic r' :=
  fun a hc => h a (TransGen.mono hsub a a hc)

/-- A path over old edges and the new edge `x → p` is old, or reaches `x` and leaves `p`
over old edges. -/
theorem path_of_added {x p : α} (hsub : ∀ a b, r' a b → r a b ∨ (a = x ∧ b = p)) {a b : α}
    (h : ReflTransGen r' a b) : ReflTransGen r a b ∨ (ReflTransGen r a x ∧ ReflTransGen r p b) := by
  induction h using ReflTransGen.trans_induction_on with
  | refl a => exact .inl .refl
  | single hab =>
    rcases hsub _ _ hab with hr | ⟨rfl,rfl⟩
    · exact .inl (.single hr)
    · exact .inr ⟨.refl,.refl⟩
  | trans _ _ ih₁ ih₂ =>
    rcases ih₁ with h₁ | ⟨hx,hp⟩
    · exact ih₂.imp h₁.trans (fun h₂ => ⟨h₁.trans h₂.1,h₂.2⟩)
    · exact .inr ⟨hx,ih₂.elim hp.trans And.right⟩

/-- Adding the edge `x → p` keeps the pointers acyclic when `p` does not already reach `x`. -/
theorem Acyclic.add (h : Acyclic r) {x p : α} (hsub : ∀ a b, r' a b → r a b ∨ (a = x ∧ b = p))
    (hp : ¬ ReflTransGen r p x) : Acyclic r' := by
  intro a hc
  obtain ⟨b,hab,hba⟩ := TransGen.head'_iff.mp hc
  rcases path_of_added hsub hba with hr | ⟨hbx,hpa⟩
  · rcases hsub a b hab with hn | ⟨rfl,rfl⟩
    · exact h a (TransGen.head' hn hr)
    · exact hp hr
  · rcases hsub a b hab with hn | ⟨rfl,rfl⟩
    · exact hp (hpa.trans (ReflTransGen.head hn hbx))
    · exact hp hpa

/-- A node that nothing points to is not reached from anywhere else. -/
theorem eq_of_reflTransGen_of_noIncoming {x a : α} (hx : ∀ b, ¬ r b x) (h : ReflTransGen r a x) :
    a = x := by
  cases h with
  | refl => rfl
  | tail _ hb => exact absurd hb (hx _)

/-! ## Sets closed under ancestors -/

/-- Everything above a member is a member. -/
def UpClosed (r : α → α → Prop) (G : α → Prop) : Prop := ∀ a b, G a → TransGen r a b → G b

/-- A node whose ancestors are all members can join. -/
theorem UpClosed.join {G : α → Prop} (h : UpClosed r G) {x : α} (hx : ∀ b, TransGen r x b → G b) :
    UpClosed r fun a => G a ∨ a = x := by
  rintro a b (ha | rfl) hab
  · exact .inl (h a b ha hab)
  · exact .inl (hx b hab)

/-- A node without descendants among the members can leave. -/
theorem UpClosed.leave {G : α → Prop} (h : UpClosed r G) {x : α}
    (hx : ∀ a, G a → ¬ TransGen r a x) : UpClosed r fun a => G a ∧ a ≠ x := by
  rintro a b ⟨ha,-⟩ hab
  refine ⟨h a b ha hab,?_⟩
  rintro rfl
  exact hx a ha hab

end BeliefKV.Forest
