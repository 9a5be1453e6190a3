import BeliefKV.PageIndex.Delta

/-! Safe-point publications of the joint shadow, and their coalescing into one publication
before a worker applies them. -/
namespace BeliefKV
open PageOwnershipIndex

/-- One publication. `rest` stands for the fields that are only passed on: the observation,
the frontiers, the accounts, the control state, the stamp, the trigger and the times. -/
structure JointShadowDelta (E T R : Type) where
  eventFromSequence : ℕ
  eventToSequence : ℕ
  runtimeEvents : List E
  pageDelta : PageIndexReplicaDelta
  transferTelemetry : List T
  rest : R
  sequence_le : eventFromSequence ≤ eventToSequence

namespace JointShadow
variable {E T R : Type}

/-- The variables of the coalescing loop. -/
structure Coalescing (E T : Type) where
  eventCursor : ℕ
  pageCursor : ℕ
  events : List E := []
  telemetry : List T := []
  pages : Dict PageHandle PhysicalPageReplica := ∅
  pageStates : Dict PageHandle PhysicalPageStateReplica := ∅
  contexts : Dict String ContextPageReplica := ∅
  changedHandles : Finset PageHandle := ∅
  changedContextIds : Finset String := ∅
  components : Finset Component := ∅
  fullRebuild : Bool := false

/-- The body of the loop after its two gap checks. -/
def absorb (acc : Coalescing E T) (delta : JointShadowDelta E T R) : Coalescing E T :=
  let page := delta.pageDelta
  let acc := { acc with
    eventCursor := delta.eventToSequence
    pageCursor := page.toRevision
    events := acc.events ++ delta.runtimeEvents
    telemetry := acc.telemetry ++ delta.transferTelemetry
    components := acc.components ∪ page.components }
  if page.fullRebuildRequired then
    { acc with
      fullRebuild := true
      pages := page.pages
      pageStates := page.pageStates
      contexts := page.contexts
      changedHandles := page.changedHandles
      changedContextIds := page.changedContextIds }
  else
    { acc with
      pages := acc.pages.overlay page.pages
      pageStates := (acc.pageStates.eraseAll page.pages.keySet).overlay page.pageStates
      contexts := (acc.contexts.eraseAll page.changedContextIds).overlay page.contexts
      changedHandles := acc.changedHandles ∪ page.changedHandles
      changedContextIds := acc.changedContextIds ∪ page.changedContextIds }

def coalesceStep (acc : Coalescing E T) (delta : JointShadowDelta E T R) :
    Except Raised (Coalescing E T) :=
  if delta.eventFromSequence ≠ acc.eventCursor then
    .error (.runtimeError "cannot coalesce shadow deltas with an RCCG gap")
  else if delta.pageDelta.fromRevision ≠ acc.pageCursor then
    .error (.runtimeError "cannot coalesce shadow deltas with a page gap")
  else .ok (absorb acc delta)

/-- The page delta assembled after the loop. -/
def Coalescing.pageDelta (acc : Coalescing E T) (fromRevision toRevision topologyRevision : ℕ) :
    PageIndexReplicaDelta :=
  { fromRevision := fromRevision
    toRevision := toRevision
    topologyRevision := topologyRevision
    pages := acc.pages
    pageStates := acc.pageStates
    contexts := acc.contexts
    changedHandles := acc.changedHandles
    changedContextIds := acc.changedContextIds
    components := acc.components
    fullRebuildRequired := acc.fullRebuild }

/-- The loop's variables before its first round. -/
def Coalescing.start (first : JointShadowDelta E T R) : Coalescing E T :=
  { eventCursor := first.eventFromSequence, pageCursor := first.pageDelta.fromRevision }

def coalesceJointShadowDeltas : List (JointShadowDelta E T R) →
    Except Raised (JointShadowDelta E T R)
  | [] => .error (.valueError "at least one shadow delta is required")
  | [delta] => .ok delta
  | first :: second :: deltas => do
    let acc ← (first :: second :: deltas).foldlM coalesceStep (.start first)
    let last := (second :: deltas).getLast (List.cons_ne_nil _ _)
    if h : first.eventFromSequence ≤ last.eventToSequence then
      .ok
        { eventFromSequence := first.eventFromSequence
          eventToSequence := last.eventToSequence
          runtimeEvents := acc.events
          pageDelta := acc.pageDelta first.pageDelta.fromRevision last.pageDelta.toRevision
            last.pageDelta.topologyRevision
          transferTelemetry := acc.telemetry
          rest := last.rest
          sequence_le := h }
    else .error (.valueError "shadow event sequence cannot move backwards")

/-! ## Gaps -/

/-- `b` starts where `a` ends, in both sequences. -/
def Follows (a b : JointShadowDelta E T R) : Prop :=
  b.eventFromSequence = a.eventToSequence ∧ b.pageDelta.fromRevision = a.pageDelta.toRevision

/-- The list starts at the cursors and has no gap. -/
def Contiguous (eventCursor pageCursor : ℕ) : List (JointShadowDelta E T R) → Prop
  | [] => True
  | d :: ds => d.eventFromSequence = eventCursor ∧ d.pageDelta.fromRevision = pageCursor ∧
      Contiguous d.eventToSequence d.pageDelta.toRevision ds

theorem contiguous_iff (d : JointShadowDelta E T R) (ds : List (JointShadowDelta E T R)) :
    Contiguous d.eventToSequence d.pageDelta.toRevision ds ↔ (d :: ds).IsChain Follows := by
  induction ds generalizing d with
  | nil => simp [Contiguous]
  | cons e ds ih =>
    rw [List.isChain_cons_cons,← ih e]
    simp only [Contiguous,Follows,and_assoc]

@[simp] theorem absorb_eventCursor (acc : Coalescing E T) (d : JointShadowDelta E T R) :
    (absorb acc d).eventCursor = d.eventToSequence := by
  unfold absorb
  dsimp only
  split_ifs <;> rfl

@[simp] theorem absorb_pageCursor (acc : Coalescing E T) (d : JointShadowDelta E T R) :
    (absorb acc d).pageCursor = d.pageDelta.toRevision := by
  unfold absorb
  dsimp only
  split_ifs <;> rfl

@[simp] theorem absorb_events (acc : Coalescing E T) (d : JointShadowDelta E T R) :
    (absorb acc d).events = acc.events ++ d.runtimeEvents := by
  unfold absorb
  dsimp only
  split_ifs <;> rfl

@[simp] theorem absorb_telemetry (acc : Coalescing E T) (d : JointShadowDelta E T R) :
    (absorb acc d).telemetry = acc.telemetry ++ d.transferTelemetry := by
  unfold absorb
  dsimp only
  split_ifs <;> rfl

/-- The loop runs to its end exactly on lists without a gap. -/
theorem foldlM_coalesceStep (acc : Coalescing E T) (ds : List (JointShadowDelta E T R)) :
    (Contiguous acc.eventCursor acc.pageCursor ds ∧
      ds.foldlM coalesceStep acc = .ok (ds.foldl absorb acc)) ∨
    (¬ Contiguous acc.eventCursor acc.pageCursor ds ∧ ∃ e, ds.foldlM coalesceStep acc = .error e) := by
  induction ds generalizing acc with
  | nil => exact .inl ⟨trivial,rfl⟩
  | cons d ds ih =>
    simp only [List.foldlM_cons,coalesceStep]
    split_ifs with h₁ h₂
    · exact .inr ⟨fun h => h₁ h.1,_,rfl⟩
    · exact .inr ⟨fun h => h₂ h.2.1,_,rfl⟩
    · rw [not_not] at h₁ h₂
      have hstep := ih (absorb acc d)
      rw [absorb_eventCursor,absorb_pageCursor] at hstep
      rcases hstep with ⟨hc,hok⟩ | ⟨hc,e,he⟩
      · exact .inl ⟨⟨h₁,h₂,hc⟩,hok⟩
      · exact .inr ⟨fun h => hc h.2.2,e,he⟩

theorem Contiguous.sequence_le {ec pc : ℕ} {ds : List (JointShadowDelta E T R)}
    (h : Contiguous ec pc ds) (hne : ds ≠ []) : ec ≤ (ds.getLast hne).eventToSequence := by
  induction ds generalizing ec pc with
  | nil => contradiction
  | cons d ds ih =>
    cases ds with
    | nil => exact h.1 ▸ d.sequence_le
    | cons e ds =>
      rw [List.getLast_cons (List.cons_ne_nil _ _)]
      exact (h.1 ▸ d.sequence_le).trans (ih h.2.2 (List.cons_ne_nil _ _))

theorem foldl_absorb_events (acc : Coalescing E T) (ds : List (JointShadowDelta E T R)) :
    (ds.foldl absorb acc).events = acc.events ++ ds.flatMap JointShadowDelta.runtimeEvents ∧
      (ds.foldl absorb acc).telemetry =
        acc.telemetry ++ ds.flatMap JointShadowDelta.transferTelemetry := by
  induction ds generalizing acc with
  | nil => simp
  | cons d ds ih => simp [ih]

/-- Coalescing one publication assembles the publication itself. -/
theorem absorb_start_pageDelta (d : JointShadowDelta E T R) :
    (absorb (.start d) d).pageDelta d.pageDelta.fromRevision d.pageDelta.toRevision
      d.pageDelta.topologyRevision = d.pageDelta := by
  have hover {K V : Type} [Ord K] [Std.TransOrd K] [Std.LawfulEqOrd K] (e : Dict K V) :
      Dict.overlay ∅ e = e := by
    apply Dict.ext_get
    intro k
    rw [Dict.get_overlay]
    cases e[k]? <;> rfl
  have herase {K V : Type} [Ord K] [Std.TransOrd K] [Std.LawfulEqOrd K] [DecidableEq K]
      (keys : Finset K) : Dict.eraseAll (∅ : Dict K V) keys = ∅ := by
    apply Dict.ext_get
    intro k
    rw [Dict.get_eraseAll]
    split_ifs <;> rfl
  obtain ⟨_,_,_,⟨_,_,_,_,_,_,_,_,_,full⟩,_,_,_⟩ := d
  cases full <;> simp [absorb,Coalescing.pageDelta,Coalescing.start,hover,herase]

/-- The result of coalescing a list without a gap. -/
theorem coalesce_ok (first : JointShadowDelta E T R) (ds : List (JointShadowDelta E T R))
    (hchain : (first :: ds).IsChain Follows) : ∃ D,
    coalesceJointShadowDeltas (first :: ds) = .ok D ∧
      D.runtimeEvents = (first :: ds).flatMap JointShadowDelta.runtimeEvents ∧
      D.transferTelemetry = (first :: ds).flatMap JointShadowDelta.transferTelemetry ∧
      D.pageDelta = ((first :: ds).foldl absorb (.start first)).pageDelta
        first.pageDelta.fromRevision
        ((first :: ds).getLast (List.cons_ne_nil _ _)).pageDelta.toRevision
        ((first :: ds).getLast (List.cons_ne_nil _ _)).pageDelta.topologyRevision := by
  cases ds with
  | nil => exact ⟨first,rfl,by simp,by simp,(absorb_start_pageDelta first).symm⟩
  | cons second ds =>
    have hcont : Contiguous first.eventFromSequence first.pageDelta.fromRevision
        (first :: second :: ds) := ⟨rfl,rfl,(contiguous_iff _ _).mpr hchain⟩
    have hok := ((foldlM_coalesceStep (.start first) (first :: second :: ds)).resolve_right
      fun h => h.1 hcont).2
    have hle := hcont.sequence_le (List.cons_ne_nil _ _)
    rw [List.getLast_cons (List.cons_ne_nil _ _)] at hle
    obtain ⟨hev,htel⟩ := foldl_absorb_events (.start first) (first :: second :: ds)
    refine ⟨_,bind_eq_ok.mpr ⟨_,hok,dif_pos hle⟩,hev,htel,rfl⟩

/-- The function raises exactly on a gap. -/
theorem coalesce_error_iff (ds : List (JointShadowDelta E T R)) (hne : ds ≠ []) :
    (∃ e, coalesceJointShadowDeltas ds = .error e) ↔ ¬ ds.IsChain Follows := by
  match ds, hne with
  | [d], _ => simp [coalesceJointShadowDeltas]
  | first :: second :: ds, _ =>
    constructor
    · rintro ⟨e,he⟩ hchain
      obtain ⟨D,hD,-⟩ := coalesce_ok first (second :: ds) hchain
      rw [he] at hD
      cases hD
    · intro hgap
      have hcont : ¬ Contiguous first.eventFromSequence first.pageDelta.fromRevision
          (first :: second :: ds) := fun h => hgap ((contiguous_iff _ _).mp h.2.2)
      obtain ⟨-,e,he⟩ := (foldlM_coalesceStep (.start first) (first :: second :: ds)).resolve_left
        fun h => hcont h.1
      exact ⟨e,by rw [coalesceJointShadowDeltas,he]; rfl⟩

end JointShadow
end BeliefKV
