import Mathlib.Order.MinMax
import Mathlib.Order.Bounds.Basic

/-! A level whose peak is recorded now and then. -/
namespace BeliefKV
variable {α : Type*} [LinearOrder α]

/-- A change of the level, with the peak that was recorded before it. -/
structure LevelChange (α : Type*) where
  recorded : α
  before : α
  after : α

structure Gauge (α : Type*) where
  level : α
  peak : α
  moves : List (LevelChange α) := []

namespace Gauge
variable (g : Gauge α)

def move (level : α) : Gauge α where
  level := level
  peak := g.peak
  moves := g.moves ++ [⟨g.peak,g.level,level⟩]

/-- Record the level if it is higher than the peak. -/
def record : Gauge α := { g with peak := max g.peak g.level }

/-- The levels since the start. -/
def levels (start : α) : Set α := {a | a = start ∨ ∃ m ∈ g.moves, a = m.after}

/-- Every change downwards starts at a level that the recorded peak covers. -/
def Covered : Prop := ∀ m ∈ g.moves, m.after < m.before → m.before ≤ m.recorded

instance : Decidable g.Covered :=
  inferInstanceAs (Decidable (∀ m ∈ g.moves, m.after < m.before → m.before ≤ m.recorded))

/-- The peak and the level are levels, and one of them is the highest. -/
structure Tracks (start : α) : Prop where
  level_mem : g.level ∈ g.levels start
  peak_mem : g.peak ∈ g.levels start
  bound : g.Covered → ∀ a ∈ g.levels start, a ≤ max g.peak g.level

variable {g} {start : α}

omit [LinearOrder α] in
theorem levels_move (level : α) : (g.move level).levels start = insert level (g.levels start) := by
  ext a
  simp only [levels,move,List.mem_append,List.mem_singleton,Set.mem_ofPred_eq,Set.mem_insert_iff]
  constructor
  · rintro (rfl | ⟨m,hm | rfl,rfl⟩)
    · exact .inr (.inl rfl)
    · exact .inr (.inr ⟨m,hm,rfl⟩)
    · exact .inl rfl
  · rintro (rfl | rfl | ⟨m,hm,rfl⟩)
    · exact .inr ⟨_,.inr rfl,rfl⟩
    · exact .inl rfl
    · exact .inr ⟨m,.inl hm,rfl⟩

theorem Tracks.init (a : α) : (⟨a,a,[]⟩ : Gauge α).Tracks a where
  level_mem := .inl rfl
  peak_mem := .inl rfl
  bound _ := by
    rintro b (rfl | ⟨m,hm,-⟩)
    · exact le_max_left _ _
    · exact absurd hm List.not_mem_nil

theorem Tracks.move (h : g.Tracks start) (level : α) : (g.move level).Tracks start where
  level_mem := by
    rw [levels_move]
    exact Set.mem_insert _ _
  peak_mem := by
    rw [levels_move]
    exact Set.mem_insert_of_mem _ h.peak_mem
  bound hcovered := by
    have hbefore : g.Covered := fun m hm => hcovered m (List.mem_append_left _ hm)
    rw [levels_move]
    rintro a (rfl | ha)
    · exact le_max_right _ _
    · have hle := h.bound hbefore a ha
      rcases lt_or_ge level g.level with hdown | hup
      · -- A change downwards starts at or below the recorded peak.
        have hpeak : g.level ≤ g.peak :=
          hcovered _ (List.mem_append_right _ (List.mem_singleton.mpr rfl)) hdown
        rw [max_eq_left hpeak] at hle
        exact hle.trans (le_max_left _ _)
      · exact hle.trans (max_le_max_left g.peak hup)

theorem Tracks.record (h : g.Tracks start) : g.record.Tracks start where
  level_mem := h.level_mem
  peak_mem := by
    rcases max_choice g.peak g.level with hmax | hmax
    · exact (congrArg (· ∈ g.levels start) hmax).mpr h.peak_mem
    · exact (congrArg (· ∈ g.levels start) hmax).mpr h.level_mem
  bound hcovered a ha := (h.bound hcovered a ha).trans (le_max_left _ _)

/-- Right after it was recorded, the peak is the highest level. -/
theorem Tracks.isGreatest (h : g.Tracks start) (hlevel : g.level ≤ g.peak) (hcovered : g.Covered) :
    IsGreatest (g.levels start) g.peak := by
  refine ⟨h.peak_mem,fun a ha => ?_⟩
  have hle := h.bound hcovered a ha
  rwa [max_eq_left hlevel] at hle

end Gauge
end BeliefKV
