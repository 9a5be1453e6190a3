import BeliefKV.Lib.Forest
import BeliefKV.PageIndex.Replica

/-! The representation invariant of the index and its relation to the self-check. -/
namespace BeliefKV.PageOwnershipIndex
open Forest

/-- `latest` maps each page id to the greatest generation among the handles in `P`. -/
structure LatestOf (P : PageHandle → Prop) (latest : Dict ℕ ℕ) : Prop where
  some : ∀ i g, latest[i]? = some g → P ⟨i,g⟩ ∧ ∀ k, P ⟨i,k⟩ → k ≤ g
  none : ∀ i, latest[i]? = none → ∀ k, ¬ P ⟨i,k⟩

theorem LatestOf.eq {P : PageHandle → Prop} {a b : Dict ℕ ℕ} (ha : LatestOf P a)
    (hb : LatestOf P b) : a = b := by
  apply Dict.ext_get
  intro i
  cases hx : a[i]? with
  | none =>
    cases hy : b[i]? with
    | none => rfl
    | some g => exact absurd (hb.some i g hy).1 (ha.none i hx g)
  | some g =>
    cases hy : b[i]? with
    | none => exact absurd (ha.some i g hx).1 (hb.none i hy g)
    | some k =>
      have h₁ := (ha.some i g hx).2 k (hb.some i k hy).1
      have h₂ := (hb.some i k hy).2 g (ha.some i g hx).1
      rw [le_antisymm h₁ h₂]

theorem LatestOf.observe {P : PageHandle → Prop} {latest : Dict ℕ ℕ} (hl : LatestOf P latest)
    (h : PageHandle) : LatestOf (fun k => P k ∨ k = h) (observeGeneration latest h) := by
  obtain ⟨i,g⟩ := h
  constructor
  · intro j m hj
    simp only [observeGeneration,Dict.get_insert] at hj
    cases hc : latest[i]? with
    | none => have := hl.none i hc; have := hl.some j m; grind
    | some x => have := hl.some i x hc; have := hl.some j m; grind
  · intro j hj
    simp only [observeGeneration,Dict.get_insert] at hj
    have := hl.none j
    grind

theorem LatestOf.congr {P Q : PageHandle → Prop} {latest : Dict ℕ ℕ} (hl : LatestOf P latest)
    (h : ∀ k, P k ↔ Q k) : LatestOf Q latest := by
  rwa [show Q = P from funext fun k => propext (h k).symm]

theorem LatestOf.foldl_observe {P : PageHandle → Prop} {latest : Dict ℕ ℕ} (hl : LatestOf P latest)
    (hs : List PageHandle) :
    LatestOf (fun k => P k ∨ k ∈ hs) (hs.foldl observeGeneration latest) := by
  induction hs generalizing P latest with
  | nil => exact hl.congr (by simp)
  | cons h hs ih =>
    apply (ih (hl.observe h)).congr
    intro k
    simp only [List.mem_cons]
    tauto

/-- The parent pointer of a registered page. -/
def ParentEdge (s : PageOwnershipIndex) (a b : PageHandle) : Prop :=
  ∃ p : PhysicalPageRecord, s.pages[a]? = some p ∧ p.parent = some b

/-- What every run keeps, whatever residencies and epochs its calls carry. -/
structure Base (s : PageOwnershipIndex) : Prop where
  handle_eq : ∀ (h : PageHandle) (p : PhysicalPageRecord), s.pages[h]? = some p → p.handle = h
  latest : LatestOf (fun h => h ∈ s.pages) s.latestGeneration
  owner_known : ∀ (h : PageHandle) (p : PhysicalPageRecord) (c : String), s.pages[h]? = some p →
    c ∈ p.ownerContexts → c ∈ s.contextEpoch
  pagesOf_known : ∀ c, ∀ h ∈ s.pagesOf c, c ∈ s.contextEpoch ∧ h ∈ s.pages
  workflow_known : ∀ c : String, c ∈ s.contextEpoch ↔ c ∈ s.contextWorkflow

/-- The Radix edges are two-sided and join live pages, and live pages are the youngest
allocations of their ids. -/
structure Linked (s : PageOwnershipIndex) : Prop where
  dead_leaf : ∀ (h : PageHandle) (p : PhysicalPageRecord), s.pages[h]? = some p →
    p.residency = .dead → p.children = ∅
  parent_live : ∀ (h : PageHandle) (p : PhysicalPageRecord) (q : PageHandle),
    s.pages[h]? = some p → p.residency ≠ .dead → p.parent = some q →
    ∃ r : PhysicalPageRecord, s.pages[q]? = some r ∧ r.residency ≠ .dead ∧ h ∈ r.children
  child_live : ∀ (h : PageHandle) (p : PhysicalPageRecord) (c : PageHandle),
    s.pages[h]? = some p → c ∈ p.children →
    ∃ r : PhysicalPageRecord, s.pages[c]? = some r ∧ r.residency ≠ .dead ∧ r.parent = some h
  parent_known : ∀ a b, s.ParentEdge a b → b ∈ s.pages
  acyclic : Acyclic s.ParentEdge
  live_latest : ∀ (h : PageHandle) (p : PhysicalPageRecord), s.pages[h]? = some p →
    p.residency ≠ .dead → s.latestGeneration[h.pageId]? = some h.allocationGeneration

/-- The two ownership maps are mutual inverses, dead pages have no owners, pins belong to
owners and reference counts are non-negative. -/
structure Owned (s : PageOwnershipIndex) : Prop where
  owner_iff : ∀ (c : String) (h : PageHandle) (p : PhysicalPageRecord), s.pages[h]? = some p →
    (h ∈ s.pagesOf c ↔ c ∈ p.ownerContexts)
  dead_unowned : ∀ (h : PageHandle) (p : PhysicalPageRecord), s.pages[h]? = some p →
    p.residency = .dead → ∀ c : String, c ∉ p.ownerContexts
  refs_nonneg : ∀ (h : PageHandle) (p : PhysicalPageRecord), s.pages[h]? = some p →
    0 ≤ p.engineLockRef ∧ 0 ≤ p.activeReaderCount
  pin_owner : ∀ (h : PageHandle) (p : PhysicalPageRecord) (c : String), s.pages[h]? = some p →
    c ∈ p.semanticPinContexts → c ∈ p.ownerContexts

/-- Representation invariant of the index. -/
structure Inv (s : PageOwnershipIndex) : Prop extends Base s, Linked s, Owned s

/-- Every owner entry carries the current epoch of its context. -/
def EpochsCurrent (s : PageOwnershipIndex) : Prop :=
  ∀ (h : PageHandle) (p : PhysicalPageRecord) (c : String) (e : ℤ), s.pages[h]? = some p →
    p.ownerContexts[c]? = some e → s.contextEpoch[c]? = some e

/-- Two indexes hold the same page and context records. -/
structure SameRecords (s t : PageOwnershipIndex) : Prop where
  pages : t.pages = s.pages
  latestGeneration : t.latestGeneration = s.latestGeneration
  pagesOf : ∀ c, t.pagesOf c = s.pagesOf c
  contextEpoch : t.contextEpoch = s.contextEpoch
  contextWorkflow : t.contextWorkflow = s.contextWorkflow

namespace SameRecords
variable {s t u : PageOwnershipIndex}

theorem refl (s : PageOwnershipIndex) : SameRecords s s := ⟨rfl,rfl,fun _ => rfl,rfl,rfl⟩

theorem symm (h : SameRecords s t) : SameRecords t s :=
  ⟨h.pages.symm,h.latestGeneration.symm,fun c => (h.pagesOf c).symm,h.contextEpoch.symm,
    h.contextWorkflow.symm⟩

theorem trans (h : SameRecords s t) (h' : SameRecords t u) : SameRecords s u :=
  ⟨h'.pages.trans h.pages,h'.latestGeneration.trans h.latestGeneration,
    fun c => (h'.pagesOf c).trans (h.pagesOf c),h'.contextEpoch.trans h.contextEpoch,
    h'.contextWorkflow.trans h.contextWorkflow⟩

theorem parentEdge (h : SameRecords s t) : t.ParentEdge = s.ParentEdge := by
  unfold ParentEdge
  rw [h.pages]

-- The invariants read the records, never the revisions, the caches or the journal.

theorem base (h : SameRecords s t) (hs : s.Base) : t.Base := by
  obtain ⟨h₁,h₂,h₃,h₄,h₅⟩ := hs
  constructor <;>
    simp only [h.pages,h.latestGeneration,h.pagesOf,h.contextEpoch,h.contextWorkflow] <;> assumption

theorem inv (h : SameRecords s t) (hs : s.Inv) : t.Inv := by
  obtain ⟨hb,⟨h₁,h₂,h₃,h₄,h₅,h₆⟩,⟨h₇,h₈,h₉,h₁₀⟩⟩ := hs
  refine ⟨h.base hb,⟨?_,?_,?_,?_,?_,?_⟩,⟨?_,?_,?_,?_⟩⟩ <;>
    simp only [h.pages,h.latestGeneration,h.pagesOf,h.parentEdge] <;> assumption

theorem epochsCurrent (h : SameRecords s t) (hs : s.EpochsCurrent) : t.EpochsCurrent := by
  unfold EpochsCurrent
  rw [h.pages,h.contextEpoch]
  exact hs

end SameRecords

theorem sameRecords_touch (s : PageOwnershipIndex) (t : Bool) (hs : Finset PageHandle)
    (cs : Finset String) (ks : Finset Component) : SameRecords s (s.touch t hs cs ks) :=
  ⟨rfl,rfl,fun _ => rfl,rfl,rfl⟩

theorem empty_inv : empty.Inv := by
  have hp (h : PageHandle) : empty.pages[h]? = none := rfl
  have hedge : ∀ a b, ¬ empty.ParentEdge a b := by
    rintro a b ⟨p,hp',-⟩
    simp [hp] at hp'
  refine ⟨⟨?_,?_,?_,?_,?_⟩,⟨?_,?_,?_,?_,?_,?_⟩,⟨?_,?_,?_,?_⟩⟩ <;> try simp [pagesOf,empty]
  · constructor <;> simp
  · exact fun a b h => absurd h (hedge a b)
  · intro a hc
    obtain ⟨b,hb,-⟩ := Relation.TransGen.head'_iff.mp hc
    exact hedge a b hb

theorem empty_epochsCurrent : empty.EpochsCurrent := by
  intro h p c e hp
  simp [empty] at hp

/-! ## The self-checks -/

section Checks
variable {s : PageOwnershipIndex}

theorem contextErrors_eq_nil (hs : s.Inv) (he : s.EpochsCurrent) (c : String) (missing : Raised) :
    s.contextErrors c missing = [] := by
  unfold contextErrors
  rw [handleErrors_eq_nil]
  intro h hh
  obtain ⟨p,hp⟩ := (Dict.mem_iff_get _ _).mp (hs.pagesOf_known c h hh).2
  obtain ⟨e,ho⟩ := (Dict.mem_iff_get _ _).mp ((hs.owner_iff c h p hp).mp hh)
  exact ⟨p,hp,by simp [ho,he h p c e hp ho]⟩

theorem pageErrors_eq_nil (hs : s.Inv) {h : PageHandle} {p : PhysicalPageRecord}
    (hp : s.pages[h]? = some p) : s.pageErrors p = [] := by
  have hh := hs.handle_eq h p hp
  have howner : (p.ownerContexts.keys.filterMap fun c =>
      if p.handle ∉ s.pagesOf c then
        some (Raised.assertionError "page owner lacks reverse context mapping")
      else none) = [] := by
    rw [List.filterMap_eq_nil_iff]
    intro c hc
    have hc' : h ∈ s.pagesOf c := (hs.owner_iff c h p hp).mpr (by simpa using hc)
    simp [hh,hc']
  have hrefs := hs.refs_nonneg h p hp
  have hrefs' : ¬ (p.engineLockRef < 0 ∨ p.activeReaderCount < 0) := by omega
  unfold pageErrors
  rw [howner,if_neg hrefs',List.nil_append,List.nil_append]
  by_cases hd : p.residency = .dead
  · simp [hd,hs.dead_leaf h p hp hd]
  · rw [if_neg hd,List.append_eq_nil_iff,handleErrors_eq_nil]
    constructor
    · cases hq : p.parent with
      | none => rfl
      | some q =>
        obtain ⟨r,hr,hlive,hmem⟩ := hs.parent_live h p q hp hd hq
        simp [hr,hlive,hh,hmem]
    · intro c hc
      obtain ⟨r,hr,hlive,hpar⟩ := hs.child_live h p c hp hc
      exact ⟨r,hr,by simp [hlive,hpar,hh]⟩

/-- The invariant and current owner epochs are what the full self-check looks for. -/
theorem assertConsistent_eq_ok (hs : s.Inv) (he : s.EpochsCurrent) :
    s.assertConsistent = .ok () := by
  unfold assertConsistent
  rw [raiseFirst_eq_ok,List.append_eq_nil_iff,List.flatMap_eq_nil_iff,List.flatMap_eq_nil_iff]
  constructor
  · intro c _
    exact contextErrors_eq_nil hs he c _
  · intro p hp
    obtain ⟨h,hh⟩ := (Dict.mem_vals s.pages p).mp hp
    exact pageErrors_eq_nil hs hh

end Checks
end BeliefKV.PageOwnershipIndex
