import BeliefKV.Lib.Dict
import Mathlib.Data.Rat.Defs
import Mathlib.Algebra.Order.Ring.Rat
import Mathlib.Tactic

/-! Values shared by the control plane and the engine adapter: page handles, physical
residency, transfer directions and the exceptions the Python code raises. -/
namespace BeliefKV

/-- Exceptions by class, with their text. -/
inductive Raised
  | valueError (text : String)
  | keyError (text : String)
  | typeError (text : String)
  | overflowError (text : String)
  | assertionError (text : String)
  | runtimeError (text : String)
  | pageIndexError (text : String)
  | causalGraphError (text : String)
  | policySnapshotError (text : String)
  deriving DecidableEq, Repr

/-- A sequence of fallible calls succeeds when each of them does. -/
theorem bind_eq_ok {α β : Type} {x : Except Raised α} {f : α → Except Raised β} {b : β} :
    (x >>= f) = .ok b ↔ ∃ a, x = .ok a ∧ f a = .ok b := by
  cases x with
  | error e => simp [bind,Except.bind]
  | ok a => simp [bind,Except.bind]

/-- What a call returns, if it returns, has a property. -/
def Yields {α : Type} (x : Except Raised α) (P : α → Prop) : Prop := ∀ a, x = .ok a → P a

namespace Yields
variable {α β : Type} {P : α → Prop} {Q : β → Prop}

theorem ok {a : α} (h : P a) : Yields (.ok a) P := by
  rintro _ ⟨⟩
  exact h

theorem bind {x : Except Raised α} {f : α → Except Raised β}
    (h : ∀ a, x = .ok a → Yields (f a) Q) : Yields (x >>= f) Q := by
  intro b hb
  obtain ⟨a,ha,hb⟩ := bind_eq_ok.mp hb
  exact h a ha b hb

theorem ite {c : Prop} [Decidable c] {x y : Except Raised α} (hx : c → Yields x P)
    (hy : ¬ c → Yields y P) : Yields (if c then x else y) P := by
  split_ifs with hc
  · exact hx hc
  · exact hy hc

end Yields

/-- Raise unless a condition holds. -/
def ensure (p : Prop) [Decidable p] (e : Raised) : Except Raised Unit :=
  if p then .ok () else .error e

@[simp] theorem ensure_eq_ok {p : Prop} [Decidable p] {e : Raised} {u : Unit} :
    ensure p e = .ok u ↔ p := by
  unfold ensure
  split_ifs with h <;> simp [h]

theorem forM_ok_iff {A : Type} {check : A → Except Raised Unit} {items : List A} :
    items.forM check = .ok () ↔ ∀ a ∈ items, check a = .ok () := by
  induction items with
  | nil => exact iff_of_true rfl fun a ha => absurd ha List.not_mem_nil
  | cons a items ih =>
    change (check a >>= fun _ => items.forM check) = .ok () ↔ _
    rw [List.forall_mem_cons]
    constructor
    · intro h
      obtain ⟨_,ha,hrest⟩ := bind_eq_ok.mp h
      exact ⟨ha,ih.mp hrest⟩
    · rintro ⟨ha,hrest⟩
      exact bind_eq_ok.mpr ⟨(),ha,ih.mpr hrest⟩

theorem mapM_eq_ok {α β : Type} {f : α → Except Raised β} {g : α → β} {l : List α}
    (h : ∀ a ∈ l, f a = .ok (g a)) : l.mapM f = .ok (l.map g) := by
  induction l with
  | nil => rfl
  | cons a l ih =>
    rw [List.mapM_cons,h a (by simp),ih fun b hb => h b (List.mem_cons_of_mem a hb)]
    rfl

/-- In a list with unique keys a key finds its member. -/
theorem find?_eq_some_iff {A : Type} {l : List A} {key : A → String} (h : (l.map key).Nodup) {k : String} {a : A} :
    l.find? (key · = k) = some a ↔ a ∈ l ∧ key a = k := by
  constructor
  · intro hfind
    exact ⟨List.mem_of_find?_eq_some hfind,by simpa using List.find?_some hfind⟩
  · rintro ⟨ha,rfl⟩
    cases hfind : l.find? (key · = key a) with
    | none =>
      have hnone := List.find?_eq_none.mp hfind a ha
      simp at hnone
    | some b =>
      have hb := List.mem_of_find?_eq_some hfind
      have hkey : key b = key a := by simpa using List.find?_some hfind
      rw [List.inj_on_of_nodup_map h hb ha hkey]

/-- One allocation of a physical page. Both numbers are checked to be non-negative. -/
structure PageHandle where
  pageId : ℕ
  allocationGeneration : ℕ
  deriving DecidableEq, Repr

namespace PageHandle

/-- Handles are ordered by page id, then by generation. -/
instance : Ord PageHandle := ⟨compareLex (compareOn pageId) (compareOn allocationGeneration)⟩

instance : Std.TransOrd PageHandle :=
  inferInstanceAs (Std.TransCmp (compareLex (compareOn pageId) (compareOn allocationGeneration)))

instance : Std.LawfulEqOrd PageHandle where
  eq_of_compare {a b} h := by
    obtain ⟨i,g⟩ := a
    obtain ⟨j,k⟩ := b
    change compareLex (compareOn pageId) (compareOn allocationGeneration) _ _ = _ at h
    simp only [compareLex,compareOn,Ordering.then_eq_eq,Std.LawfulEqOrd.compare_eq_iff_eq] at h
    rw [h.1,h.2]

/-- The dataclass rendering used inside error texts. -/
def render (h : PageHandle) : String :=
  "PageHandle(page_id=" ++ toString h.pageId ++ ", allocation_generation=" ++
    toString h.allocationGeneration ++ ")"

end PageHandle

inductive PhysicalResidency
  | gpuOnly
  | mirroring
  | dualClean
  | cpuOnly
  | prefetching
  | dead
  deriving DecidableEq, Repr

/-- The enumeration's string value. -/
def PhysicalResidency.value : PhysicalResidency → String
  | .gpuOnly => "gpu_only"
  | .mirroring => "mirroring"
  | .dualClean => "dual_clean"
  | .cpuOnly => "cpu_only"
  | .prefetching => "prefetching"
  | .dead => "dead"

inductive TransferDirection
  | d2h
  | h2d
  deriving DecidableEq, Repr

end BeliefKV
