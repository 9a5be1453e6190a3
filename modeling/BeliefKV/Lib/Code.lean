import Mathlib.Data.List.Basic
import Mathlib.Data.Int.Order.Basic
import Mathlib.Logic.Function.Basic

/-! Self-delimiting codes: serialisations that can be read back from the front of any list of
bits, so that they can be put after one another. -/
namespace BeliefKV

structure Code (α : Type*) where
  enc : α → List Bool
  -- A code word is not the beginning of another one.
  unique : ∀ x y r r', enc x ++ r = enc y ++ r' → x = y ∧ r = r'

namespace Code
variable {α β : Type*}

theorem injective (c : Code α) : Function.Injective c.enc := by
  intro x y h
  exact (c.unique x y [] [] (by rw [h])).1

/-- A number, as so many ones and a zero. -/
def nat : Code ℕ where
  enc n := List.replicate n true ++ [false]
  unique x y r r' h := by
    induction x generalizing y with
    | zero => cases y <;> simp_all [List.replicate_succ]
    | succ x ih =>
      cases y with
      | zero => simp [List.replicate_succ] at h
      | succ y =>
        obtain ⟨hxy,hr⟩ := ih y (by simpa [List.replicate_succ] using h)
        exact ⟨by rw [hxy],hr⟩

/-- A value, by the code of what determines it. -/
def along (c : Code β) (f : α → β) (hf : Function.Injective f) : Code α where
  enc x := c.enc (f x)
  unique x y r r' h := by
    obtain ⟨hxy,hr⟩ := c.unique _ _ _ _ h
    exact ⟨hf hxy,hr⟩

def pair (c : Code α) (d : Code β) : Code (α × β) where
  enc x := c.enc x.1 ++ d.enc x.2
  unique x y r r' h := by
    rw [List.append_assoc,List.append_assoc] at h
    obtain ⟨h₁,hrest⟩ := c.unique _ _ _ _ h
    obtain ⟨h₂,hr⟩ := d.unique _ _ _ _ hrest
    exact ⟨Prod.ext h₁ h₂,hr⟩

def list (c : Code α) : Code (List α) where
  enc xs := xs.flatMap (fun x => true :: c.enc x) ++ [false]
  unique xs ys r r' h := by
    induction xs generalizing ys with
    | nil => cases ys <;> simp_all
    | cons x xs ih =>
      cases ys with
      | nil => simp at h
      | cons y ys =>
        simp only [List.flatMap_cons,List.cons_append,List.append_assoc,List.cons.injEq,
          true_and] at h
        obtain ⟨hxy,hrest⟩ := c.unique _ _ _ _ h
        obtain ⟨hs,hr⟩ := ih ys (by simpa using hrest)
        exact ⟨by rw [hxy,hs],hr⟩

def option (c : Code α) : Code (Option α) :=
  c.list.along Option.toList fun x y h => by cases x <;> cases y <;> simp_all

def bool : Code Bool :=
  nat.along Bool.toNat fun x y h => by cases x <;> cases y <;> simp_all

def int : Code ℤ :=
  (nat.pair nat).along (fun z => (z.toNat,(-z).toNat)) fun x y h => by
    obtain ⟨h₁,h₂⟩ := Prod.mk.inj h
    omega

def string : Code String :=
  nat.list.along (fun t => t.toList.map Char.toNat) fun x y h => by
    have hchars : x.toList = y.toList :=
      List.map_injective_iff.mpr (fun a b hab => Char.ext (UInt32.toNat.inj hab)) h
    exact String.toList_inj.mp hchars

/-- A code word as a text. -/
def text (bits : List Bool) : String := String.ofList (bits.map fun b => if b then '1' else '0')

theorem text_injective : Function.Injective text := by
  intro x y h
  refine List.map_injective_iff.mpr ?_ (String.ofList_injective h)
  intro a b hab
  cases a <;> cases b <;> simp_all

end Code
end BeliefKV
