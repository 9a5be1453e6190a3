import BeliefKV.JointShadow.Coalesce
import BeliefKV.Lib.Call
import BeliefKV.PageIndex.Agreement

/-! Coalescing the consecutive publications of one source: a mirror that applies the coalesced
publication ends where one ends that applies them one after another, if none of these raises. -/
namespace BeliefKV.JointShadow
open PageOwnershipIndex Evolves Relation
variable {E T R : Type}

/-! ## Composing page deltas -/

section Compose
variable {m m₁ s s' : PageOwnershipIndex} {acc : Coalescing E T} {d : JointShadowDelta E T R}
  {ms : List PageIndexMutation}

/-- The mirror stands at the revision of the source and knows its pages. -/
structure MirrorAt (s m : PageOwnershipIndex) : Prop where
  revision : m.revision = s.revision
  pages : ∀ h ∈ s.pages, h ∈ m.pages
  latest : LatestOf (fun h => h ∈ m.pages) m.latestGeneration

/-- A mirror with the records and the revision of a consistent source stands at it. -/
theorem MirrorAt.of_sameRecords (hb : s.Base) (h : SameRecords s m) (hr : m.revision = s.revision) :
    MirrorAt s m :=
  ⟨hr,fun _ hh => h.pages ▸ hh,(h.base hb).latest⟩

/-- The loop's variables describe the way of the mirror `m` to the state `m₁`. -/
structure Matches (m : PageOwnershipIndex) (acc : Coalescing E T) (s m₁ : PageOwnershipIndex) :
    Prop where
  records : ∀ a b c, SameRecords m₁ (m.installDelta (acc.pageDelta a b c))
  patches : ∀ h ∈ acc.pageStates, h ∈ (if acc.fullRebuild then m.clear else m).pages ∨ h ∈ acc.pages
  contexts : ∀ c ∈ acc.contexts, c ∈ s.contextEpoch
  changed : ∀ c ∈ acc.changedContextIds, c ∈ s.contextEpoch
  mirror : MirrorAt s m₁

theorem deltaBase_pageDelta (m : PageOwnershipIndex) (acc : Coalescing E T) (a b c : ℕ) :
    m.deltaBase (acc.pageDelta a b c) = if acc.fullRebuild then m.clear else m := rfl

/-- Equal records stay equal under equal deltas; the generations follow from the handles. -/
theorem sameRecords_of_lookups {t u : PageOwnershipIndex}
    (ht : LatestOf (fun h => h ∈ t.pages) t.latestGeneration)
    (hu : LatestOf (fun h => h ∈ u.pages) u.latestGeneration)
    (hpages : ∀ h : PageHandle, u.pages[h]? = t.pages[h]?) (hpagesOf : ∀ c, u.pagesOf c = t.pagesOf c)
    (hepoch : ∀ c : String, u.contextEpoch[c]? = t.contextEpoch[c]?)
    (hworkflow : ∀ c : String, u.contextWorkflow[c]? = t.contextWorkflow[c]?) : SameRecords t u := by
  have hp : u.pages = t.pages := Dict.ext_get hpages
  rw [hp] at hu
  exact ⟨hp,hu.eq ht,hpagesOf,Dict.ext_get hepoch,Dict.ext_get hworkflow⟩

theorem patchState_patchState (p : PhysicalPageRecord) (r r' : PhysicalPageStateReplica) :
    patchState (patchState p r) r' = patchState p r' := rfl

/-- A rebuild in the middle discards what precedes it. -/
theorem absorb_full (hfull : d.pageDelta.fullRebuildRequired = true) (a b c : ℕ)
    (hm : LatestOf (fun h => h ∈ m.pages) m.latestGeneration)
    (hm₁ : LatestOf (fun h => h ∈ m₁.pages) m₁.latestGeneration) :
    SameRecords (m₁.installDelta d.pageDelta)
      (m.installDelta ((absorb acc d).pageDelta a b c)) := by
  have hbase : m₁.deltaBase d.pageDelta = m₁.clear := if_pos hfull
  have habs : (absorb acc d).fullRebuild = true ∧ (absorb acc d).pages = d.pageDelta.pages ∧
      (absorb acc d).pageStates = d.pageDelta.pageStates ∧
      (absorb acc d).contexts = d.pageDelta.contexts := by
    simp [absorb,hfull]
  obtain ⟨h₁,h₂,h₃,h₄⟩ := habs
  have hbase' : m.deltaBase ((absorb acc d).pageDelta a b c) = m.clear := by
    rw [deltaBase_pageDelta,h₁]
    rfl
  refine sameRecords_of_lookups (latestOf_installDelta _ _ (deltaBase_latestOf _ _ hm₁))
    (latestOf_installDelta _ _ (deltaBase_latestOf _ _ hm)) (fun h => ?_) (fun x => ?_) (fun x => ?_)
    (fun x => ?_)
  · rw [get_installDelta,get_installDelta,hbase,hbase']
    simp only [Coalescing.pageDelta,h₂,h₃]
    rfl
  · rw [pagesOf_installDelta,pagesOf_installDelta,hbase,hbase']
    simp only [Coalescing.pageDelta,h₄]
    rfl
  · rw [contextEpoch_installDelta,contextEpoch_installDelta,hbase,hbase']
    simp only [Coalescing.pageDelta,h₄]
    rfl
  · rw [contextWorkflow_installDelta,contextWorkflow_installDelta,hbase,hbase']
    simp only [Coalescing.pageDelta,h₄]
    rfl

theorem get_contexts_absorb (hdiff : d.pageDelta.fullRebuildRequired = false)
    (hctx : ∀ c ∈ d.pageDelta.changedContextIds, c ∈ acc.contexts → c ∈ d.pageDelta.contexts)
    (c : String) : (absorb acc d).contexts[c]? = d.pageDelta.contexts[c]?.or acc.contexts[c]? := by
  simp only [absorb,hdiff,Bool.false_eq_true,if_false]
  rw [Dict.get_overlay,Dict.get_eraseAll]
  split_ifs with hc
  · cases hd : d.pageDelta.contexts[c]? with
    | some x => rfl
    | none =>
      have hnone : acc.contexts[c]? = none := by
        rw [← Dict.notMem_iff_get] at hd ⊢
        exact fun hx => hd (hctx c hc hx)
      rw [hnone]
  · rfl

/-- A diff after other deltas: whole records win over what came before, patches are applied
to the last whole record, and context records replace each other. -/
theorem absorb_diff (hdiff : d.pageDelta.fullRebuildRequired = false) (a b c : ℕ)
    (hctx : ∀ c ∈ d.pageDelta.changedContextIds, c ∈ acc.contexts → c ∈ d.pageDelta.contexts)
    (hm : LatestOf (fun h => h ∈ m.pages) m.latestGeneration)
    (hm₁ : LatestOf (fun h => h ∈ m₁.pages) m₁.latestGeneration)
    (hrec : SameRecords m₁ (m.installDelta (acc.pageDelta a b c))) :
    SameRecords (m₁.installDelta d.pageDelta)
      (m.installDelta ((absorb acc d).pageDelta a b c)) := by
  have hbase : m₁.deltaBase d.pageDelta = m₁ := if_neg (by simp [hdiff])
  have hfull : (absorb acc d).fullRebuild = acc.fullRebuild := by simp [absorb,hdiff]
  have hbase' : m.deltaBase ((absorb acc d).pageDelta a b c) = m.deltaBase (acc.pageDelta a b c) := by
    rw [deltaBase_pageDelta,deltaBase_pageDelta,hfull]
  have hpages (h : PageHandle) : (absorb acc d).pages[h]? =
      d.pageDelta.pages[h]?.or acc.pages[h]? := by
    simp only [absorb,hdiff,Bool.false_eq_true,if_false]
    exact Dict.get_overlay _ _ _
  have hstates (h : PageHandle) : (absorb acc d).pageStates[h]? = d.pageDelta.pageStates[h]?.or
      (if d.pageDelta.pages[h]?.isSome then none else acc.pageStates[h]?) := by
    simp only [absorb,hdiff,Bool.false_eq_true,if_false]
    rw [Dict.get_overlay,Dict.get_eraseAll]
    simp only [Dict.mem_keySet,Std.ExtTreeMap.isSome_getElem?_iff_mem]
  refine sameRecords_of_lookups (latestOf_installDelta _ _ (deltaBase_latestOf _ _ hm₁))
    (latestOf_installDelta _ _ (deltaBase_latestOf _ _ hm)) (fun h => ?_) (fun x => ?_) (fun x => ?_)
    (fun x => ?_)
  · rw [get_installDelta,get_installDelta,hbase,hbase',← hrec.pages,get_installDelta]
    simp only [Coalescing.pageDelta,hpages,hstates]
    cases d.pageDelta.pages[h]? with
    | some p => cases d.pageDelta.pageStates[h]? <;> simp
    | none =>
      cases acc.pages[h]? <;> cases (m.deltaBase _).pages[h]? <;>
        cases d.pageDelta.pageStates[h]? <;> cases acc.pageStates[h]? <;>
        simp [patchState_patchState]
  · rw [pagesOf_installDelta,pagesOf_installDelta,hbase,hbase',← hrec.pagesOf,pagesOf_installDelta]
    simp only [Coalescing.pageDelta,get_contexts_absorb hdiff hctx]
    cases d.pageDelta.contexts[x]? <;> simp
  · rw [contextEpoch_installDelta,contextEpoch_installDelta,hbase,hbase',← hrec.contextEpoch,
      contextEpoch_installDelta]
    simp only [Coalescing.pageDelta,get_contexts_absorb hdiff hctx]
    cases d.pageDelta.contexts[x]? <;> simp
  · rw [contextWorkflow_installDelta,contextWorkflow_installDelta,hbase,hbase',
      ← hrec.contextWorkflow,contextWorkflow_installDelta]
    simp only [Coalescing.pageDelta,get_contexts_absorb hdiff hctx]
    cases d.pageDelta.contexts[x]? <;> simp

/-- Before the first round the loop describes the mirror itself. -/
theorem matches_start (hm : MirrorAt s m) (ec pc : ℕ) :
    Matches m ({ eventCursor := ec, pageCursor := pc } : Coalescing E T) s m := by
  refine ⟨fun a b c => ?_,fun h hh => ?_,fun c hc => ?_,fun c hc => ?_,hm⟩
  · refine sameRecords_of_lookups hm.latest (latestOf_installDelta _ _ (deltaBase_latestOf _ _ hm.latest))
      (fun h => ?_) (fun x => ?_) (fun x => ?_) (fun x => ?_)
    · rw [get_installDelta]
      change (none.or m.pages[h]?).map (fun p => p) = _
      simp
    · exact pagesOf_installDelta m _ x
    · exact (contextEpoch_installDelta m _ x).trans (Option.none_or)
    · exact (contextWorkflow_installDelta m _ x).trans (Option.none_or)
  · simp at hh
  · simp at hc
  · simp at hc

theorem FullDelta.mirrorAt {r : ℕ} {δ : PageIndexReplicaDelta} (hδ : FullDelta s' r δ)
    (hm : MirrorAt s m) : MirrorAt s' (m.installDelta δ) := by
  refine ⟨hδ.toRevision,fun h hh => ?_,latestOf_installDelta _ _ (deltaBase_latestOf _ _ hm.latest)⟩
  rw [mem_installDelta,hδ.pages]
  exact .inr hh

theorem DiffDelta.mirrorAt {r : ℕ} {δ : PageIndexReplicaDelta} (hδ : DiffDelta s' r ms δ)
    (hev : Evolves Silent s ms s') (hm : MirrorAt s m) : MirrorAt s' (m.installDelta δ) := by
  refine ⟨hδ.toRevision,fun h hh => ?_,latestOf_installDelta _ _ (deltaBase_latestOf _ _ hm.latest)⟩
  rw [mem_installDelta,show m.deltaBase δ = m from if_neg (by simp [hδ.full])]
  by_cases hold : h ∈ s.pages
  · exact .inl (hm.pages h hold)
  · right
    rw [Dict.mem_iff_get] at hh ⊢
    rwa [hδ.pages,if_pos (hev.pages_new (fun _ _ => id) ((Dict.mem_iff_get _ _).mpr hh) hold)]

/-- Every patch of a diff names a page the mirror already has. -/
theorem DiffDelta.patches {r : ℕ} {δ : PageIndexReplicaDelta} (hδ : DiffDelta s' r ms δ)
    (hev : Evolves Silent s ms s') (hm : MirrorAt s m) : ∀ h ∈ δ.pageStates, h ∈ m.pages := by
  intro h hh
  obtain ⟨q,hq⟩ := (Dict.mem_iff_get _ _).mp hh
  rw [hδ.pageStates] at hq
  split_ifs at hq with hcond
  obtain ⟨p,hp,-⟩ := Option.map_eq_some_iff.mp hq
  apply hm.pages
  by_contra hold
  exact hcond.2 (hev.pages_new (fun _ _ => id) ((Dict.mem_iff_get _ _).mpr ⟨p,hp⟩) hold)

/-- A round of the loop against a rebuild of the mirror. -/
theorem Matches.rebuild (h : Matches m acc s m₁) (hm : LatestOf (fun h => h ∈ m.pages) m.latestGeneration)
    (hfull : FullDelta s' s.revision d.pageDelta) :
    Matches m (JointShadow.absorb acc d) s' (m₁.installDelta d.pageDelta) := by
  have hcond := hfull.full
  refine ⟨fun a b c => absorb_full hcond a b c hm h.mirror.latest,?_,?_,?_,FullDelta.mirrorAt hfull h.mirror⟩
  · simp [JointShadow.absorb,hcond,hfull.pageStates]
  · intro c hc
    simp only [JointShadow.absorb,hcond,if_true] at hc
    rw [Dict.mem_iff_get,hfull.contexts] at hc
    obtain ⟨x,hx⟩ := hc
    obtain ⟨e,he,-⟩ := Option.map_eq_some_iff.mp hx
    exact (Dict.mem_iff_get _ _).mpr ⟨e,he⟩
  · intro c hc
    simp only [JointShadow.absorb,hcond,if_true] at hc
    rwa [hfull.changedContextIds,Dict.mem_keySet] at hc

/-- The patches after a diff are those before it without a new whole record, and those of the diff. -/
theorem Matches.patches_diff (h : Matches m acc s m₁) (hdiff : DiffDelta s' s.revision ms d.pageDelta)
    (hev : Evolves Silent s ms s') : ∀ h ∈ (JointShadow.absorb acc d).pageStates,
      h ∈ (if (JointShadow.absorb acc d).fullRebuild then m.clear else m).pages ∨ h ∈ (JointShadow.absorb acc d).pages := by
  intro a ha
  have hcond := hdiff.full
  have hmem : a ∈ (if acc.fullRebuild then m.clear else m).pages ∨ a ∈ acc.pages ∨ a ∈ d.pageDelta.pages := by
    simp only [JointShadow.absorb,hcond,Bool.false_eq_true,if_false] at ha
    rcases (Dict.mem_overlay _ _ _).mp ha with ha | ha
    · have hold : a ∈ acc.pageStates := by
        rw [Dict.mem_iff_get] at ha ⊢
        rw [Dict.get_eraseAll] at ha
        split_ifs at ha
        · simp at ha
        · exact ha
      exact (h.patches a hold).imp_right .inl
    · have hm₁ := DiffDelta.patches hdiff hev h.mirror a ha
      rw [← (h.records 0 0 0).pages,mem_installDelta] at hm₁
      exact hm₁.imp_right .inl
  have hpages : (JointShadow.absorb acc d).pages = acc.pages.overlay d.pageDelta.pages := by
    simp [JointShadow.absorb,hcond]
  have hfull : (JointShadow.absorb acc d).fullRebuild = acc.fullRebuild := by
    simp [JointShadow.absorb,hcond]
  rw [hpages,hfull,Dict.mem_overlay]
  exact hmem

/-- A round of the loop against the application of a diff. -/
theorem Matches.diff (h : Matches m acc s m₁) (hm : LatestOf (fun h => h ∈ m.pages) m.latestGeneration)
    (hev : Evolves Silent s ms s') (hdiff : DiffDelta s' s.revision ms d.pageDelta) :
    Matches m (JointShadow.absorb acc d) s' (m₁.installDelta d.pageDelta) := by
  have hcond := hdiff.full
  have hgrow := hev.contexts_grow fun _ _ => id
  have hshipped : ∀ c, c ∈ d.pageDelta.contexts ↔ c ∈ contextualIds ms ∧ c ∈ s'.contextEpoch := by
    intro c
    rw [Dict.mem_iff_get,hdiff.contexts,Dict.mem_iff_get]
    split_ifs with hc
    · cases s'.contextEpoch[c]? <;> simp [hc]
    · simp [hc]
  have hctx : ∀ c ∈ d.pageDelta.changedContextIds, c ∈ acc.contexts → c ∈ d.pageDelta.contexts := by
    intro c hc hx
    rw [hdiff.changedContextIds] at hc
    exact (hshipped c).mpr ⟨hc,hgrow c (h.contexts c hx)⟩
  refine ⟨fun a b c => absorb_diff hcond a b c hctx hm h.mirror.latest (h.records a b c),h.patches_diff hdiff hev,?_,?_,
    DiffDelta.mirrorAt hdiff hev h.mirror⟩
  · intro c hc
    rw [Dict.mem_iff_get,get_contexts_absorb hcond hctx] at hc
    by_cases hd : c ∈ d.pageDelta.contexts
    · exact ((hshipped c).mp hd).2
    · rw [(Dict.notMem_iff_get _ _).mp hd,Option.none_or,← Dict.mem_iff_get] at hc
      exact hgrow c (h.contexts c hc)
  · intro c hc
    simp only [JointShadow.absorb,hcond,Bool.false_eq_true,if_false] at hc
    rcases Finset.mem_union.mp hc with hc | hc
    · exact hgrow c (h.changed c hc)
    · rw [hdiff.changedContextIds] at hc
      exact hev.contexts_known (fun _ _ => id) c hc

/-- One round of the loop against one application of a delta. -/
theorem Matches.absorb (h : Matches m acc s m₁) (hm : LatestOf (fun h => h ∈ m.pages) m.latestGeneration)
    (hev : Evolves Silent s ms s')
    (hcut : FullDelta s' s.revision d.pageDelta ∨ DiffDelta s' s.revision ms d.pageDelta) :
    Matches m (JointShadow.absorb acc d) s' (m₁.installDelta d.pageDelta) := by
  rcases hcut with hfull | hdiff
  · exact h.rebuild hm hfull
  · exact h.diff hm hev hdiff

end Compose

/-! ## The source of the publications -/

/-- The part of the controller a publication is cut from. -/
structure Source (E : Type) where
  pageIndex : PageOwnershipIndex := .empty
  runtimeEventSequence : ℕ := 0
  runtimeEventJournal : List (ℕ × E) := []

/-- The length bound of the event journal. -/
def runtimeEventBound : ℕ := 262144

structure RuntimeEventChangeSet (E : Type) where
  fromSequence : ℕ
  toSequence : ℕ
  events : List E
  fullRebuildRequired : Bool := false

namespace Source

def appendRuntimeEvents (src : Source E) (events : List E) : Source E :=
  events.foldl (fun src e => { src with
    runtimeEventSequence := src.runtimeEventSequence + 1
    runtimeEventJournal := Journal.push runtimeEventBound src.runtimeEventJournal
      (src.runtimeEventSequence + 1,e) }) src

def runtimeEventsSince (src : Source E) (sequence : ℕ) : Except Raised (RuntimeEventChangeSet E) :=
  if src.runtimeEventSequence < sequence then
    .error (.valueError "runtime event sequence is outside the valid range")
  else if sequence = src.runtimeEventSequence then .ok ⟨sequence,sequence,[],false⟩
  else
    let records := Journal.since Prod.fst sequence src.runtimeEventJournal
    .ok
      { fromSequence := sequence
        toSequence := src.runtimeEventSequence
        events := records.map Prod.snd
        fullRebuildRequired := records.head?.map Prod.fst ≠ some (sequence + 1) }

/-- What happens to the source between two cuts. -/
inductive Act (E : Type)
  | call (op : Op)
  | append (events : List E)

def act (src : Source E) : Act E → Source E
  | .call op => { src with pageIndex := src.pageIndex.step op }
  | .append events => src.appendRuntimeEvents events

/-- A call asks for no DEAD residency and does not register a known context that owns pages under a later epoch. -/
def Keeps (src : Source E) : Act E → Prop
  | .call op => op.NoDead ∧ op.KeepsEpochs src.pageIndex
  | .append _ => True

instance (src : Source E) : DecidablePred src.Keeps
  | .call op => inferInstanceAs (Decidable (op.NoDead ∧ op.KeepsEpochs src.pageIndex))
  | .append _ => isTrue trivial

/-- Cut one publication after the given revision and sequence number. -/
def capture (src : Source E) (pageRevision eventSequence : ℕ) (telemetry : List T) (rest : R) :
    Except Raised (JointShadowDelta E T R) := do
  let events ← src.runtimeEventsSince eventSequence
  let pageDelta ← src.pageIndex.replicaDeltaSince pageRevision
  if h : events.fromSequence ≤ events.toSequence then
    .ok
      { eventFromSequence := events.fromSequence
        eventToSequence := events.toSequence
        runtimeEvents := events.events
        pageDelta := pageDelta
        transferTelemetry := telemetry
        rest := rest
        sequence_le := h }
  else .error (.valueError "shadow event sequence cannot move backwards")

/-- What precedes one cut, and the telemetry and other fields it publishes. -/
structure Segment (E T R : Type) where
  acts : List (Act E)
  telemetry : List T
  rest : R

/-- Consecutive cuts: each one starts where its predecessor ended. -/
def publish (src : Source E) (pageRevision eventSequence : ℕ) : List (Segment E T R) →
    Except Raised (List (JointShadowDelta E T R))
  | [] => .ok []
  | seg :: segs => do
    let src := seg.acts.foldl act src
    let delta ← src.capture pageRevision eventSequence seg.telemetry seg.rest
    let deltas ← src.publish delta.pageDelta.toRevision delta.eventToSequence segs
    .ok (delta :: deltas)

/-- The source after all segments. -/
def finish (src : Source E) (segs : List (Segment E T R)) : Source E :=
  segs.foldl (fun src seg => seg.acts.foldl act src) src

/-- The records are weakly consistent and the journal is within its bound. -/
def Ok (src : Source E) : Prop := src.pageIndex.Base ∧ src.pageIndex.JournalOk

theorem appendRuntimeEvents_spec (src : Source E) (events : List E) :
    (src.appendRuntimeEvents events).pageIndex = src.pageIndex ∧
      src.runtimeEventSequence ≤ (src.appendRuntimeEvents events).runtimeEventSequence := by
  unfold appendRuntimeEvents
  induction events generalizing src with
  | nil => exact ⟨rfl,le_rfl⟩
  | cons e events ih =>
    obtain ⟨h₁,h₂⟩ := ih { src with
      runtimeEventSequence := src.runtimeEventSequence + 1
      runtimeEventJournal := Journal.push runtimeEventBound src.runtimeEventJournal
        (src.runtimeEventSequence + 1,e) }
    exact ⟨h₁,(Nat.le_succ _).trans h₂⟩

/-- Between two cuts the index evolves along its journal and the event sequence only grows. -/
theorem acts_evolve {src : Source E} (hok : src.Ok) (acts : List (Act E)) :
    (∃ ms, Evolves Silent src.pageIndex ms (acts.foldl act src).pageIndex) ∧
      (acts.foldl act src).Ok ∧
      src.runtimeEventSequence ≤ (acts.foldl act src).runtimeEventSequence := by
  induction acts generalizing src with
  | nil => exact ⟨⟨[],.refl⟩,hok,le_rfl⟩
  | cons a acts ih =>
    cases a with
    | call op =>
      obtain ⟨⟨ms,hev⟩,hb⟩ := step_evolves hok.1 op
      have hok' : (src.act (.call op)).Ok := ⟨hb,hev.journalOk (fun _ _ => id) hok.2⟩
      obtain ⟨⟨ms',hev'⟩,hok'',hle⟩ := ih hok'
      exact ⟨⟨ms ++ ms',hev.trans hev'⟩,hok'',hle⟩
    | append events =>
      obtain ⟨hidx,hseq⟩ := appendRuntimeEvents_spec src events
      have hok' : (src.act (.append events)).Ok := by
        change (src.appendRuntimeEvents events).Ok
        unfold Ok
        rwa [hidx]
      obtain ⟨⟨ms',hev'⟩,hok'',hle⟩ := ih hok'
      refine ⟨⟨ms',?_⟩,hok'',hseq.trans hle⟩
      rw [← hidx]
      exact hev'

/-- Calls that keep the epochs keep the source consistent, and publish all that they change. -/
theorem acts_still {src : Source E} (hs : src.pageIndex.Sound) {acts : List (Act E)}
    (hkeeps : Run.AllSteps act Keeps src acts) :
    (∃ ms, Evolves Still src.pageIndex ms (acts.foldl act src).pageIndex) ∧ (acts.foldl act src).pageIndex.Sound := by
  induction acts generalizing src with
  | nil => exact ⟨⟨[],.refl⟩,hs⟩
  | cons a acts ih =>
    obtain ⟨ha,hkeeps⟩ := hkeeps
    cases a with
    | call op =>
      obtain ⟨⟨ms,hev⟩,hs'⟩ := Evolves.step .refl hs ha.1 ha.2
      have hnext : (src.act (.call op)).pageIndex.Sound := hs'
      obtain ⟨⟨ms',hev'⟩,hs''⟩ := ih hnext hkeeps
      exact ⟨⟨ms ++ ms',hev.trans hev'⟩,hs''⟩
    | append events =>
      have hidx : (src.act (.append events)).pageIndex = src.pageIndex := (appendRuntimeEvents_spec src events).1
      have hnext : (src.act (.append events)).pageIndex.Sound := by
        rw [hidx]
        exact hs
      obtain ⟨⟨ms,hev⟩,hs'⟩ := ih hnext hkeeps
      exact ⟨⟨ms,hidx ▸ hev⟩,hs'⟩

theorem runtimeEventsSince_ok {src : Source E} {sequence : ℕ}
    (h : sequence ≤ src.runtimeEventSequence) : ∃ cs, src.runtimeEventsSince sequence = .ok cs ∧
      cs.fromSequence = sequence ∧ cs.toSequence = src.runtimeEventSequence := by
  unfold runtimeEventsSince
  rw [if_neg (not_lt.mpr h)]
  split_ifs with heq
  · exact ⟨_,rfl,rfl,heq⟩
  · exact ⟨_,rfl,rfl,rfl⟩

end Source

/-- Apply the page parts one after another, up to the first that raises. -/
def applyAll (m : PageOwnershipIndex) (v : Bool) (ds : List (JointShadowDelta E T R)) :
    PageOwnershipIndex × Except Raised Unit :=
  Call.forEach (fun m d => m.applyReplicaDelta d.pageDelta v) m ds

/-- Where a mirror ends that none of the parts stops. -/
def installAll (m : PageOwnershipIndex) (ds : List (JointShadowDelta E T R)) : PageOwnershipIndex :=
  ds.foldl (fun m d => m.installDelta d.pageDelta) m

namespace Source

/-- One cut: what is published, and how the records came there. -/
theorem capture_cut {src next : Source E} {still : PageOwnershipIndex → PageOwnershipIndex → Prop}
    {ms : List PageIndexMutation} (hok : src.Ok) (hev : Evolves still src.pageIndex ms next.pageIndex)
    (hstill : ∀ t u, still t u → Silent t u) (hseq : src.runtimeEventSequence ≤ next.runtimeEventSequence)
    (telemetry : List T) (rest : R) :
    ∃ d : JointShadowDelta E T R,
      next.capture src.pageIndex.revision src.runtimeEventSequence telemetry rest = .ok d ∧
      d.eventFromSequence = src.runtimeEventSequence ∧ d.eventToSequence = next.runtimeEventSequence ∧
      src.pageIndex.revision ≤ next.pageIndex.revision ∧
      CutAt next.pageIndex src.pageIndex.revision d.pageDelta ∧
      (FullDelta next.pageIndex src.pageIndex.revision d.pageDelta ∨
        DiffDelta next.pageIndex src.pageIndex.revision ms d.pageDelta) := by
  obtain ⟨cs,hcs,hfrom,hto⟩ := runtimeEventsSince_ok hseq
  have hrem := hev.remembers hstill hok.2
  obtain ⟨δ,hδ,hcut⟩ := hrem.replicaDelta
  have hle : cs.fromSequence ≤ cs.toSequence := by rw [hfrom,hto]; exact hseq
  have hcutAt : CutAt next.pageIndex src.pageIndex.revision δ := by
    rcases hcut with hfull | hdiff
    · exact hfull.toCutAt
    · exact hdiff.toCutAt
  exact ⟨⟨cs.fromSequence,cs.toSequence,cs.events,δ,telemetry,rest,hle⟩,
    bind_eq_ok.mpr ⟨cs,hcs,bind_eq_ok.mpr ⟨δ,hδ,dif_pos hle⟩⟩,hfrom,hto,hrem.chain.le,hcutAt,hcut⟩

/-- The later cuts start where this one ended. -/
theorem publish_cons {src : Source E} {seg : Segment E T R} {segs : List (Segment E T R)}
    {d : JointShadowDelta E T R} {ds : List (JointShadowDelta E T R)} {r n : ℕ}
    (hcap : (seg.acts.foldl act src).capture r n seg.telemetry seg.rest = .ok d)
    (hrev : d.pageDelta.toRevision = (seg.acts.foldl act src).pageIndex.revision)
    (hseq : d.eventToSequence = (seg.acts.foldl act src).runtimeEventSequence)
    (hpub : (seg.acts.foldl act src).publish (seg.acts.foldl act src).pageIndex.revision
      (seg.acts.foldl act src).runtimeEventSequence segs = .ok ds) :
    src.publish r n (seg :: segs) = .ok (d :: ds) := by
  rw [← hrev,← hseq] at hpub
  exact bind_eq_ok.mpr ⟨d,hcap,bind_eq_ok.mpr ⟨ds,hpub,rfl⟩⟩

end Source

/-- Consecutive cuts of a source, against the loop and against a mirror that applies them. -/
theorem publish_matches {src : Source E} (hok : src.Ok) {m m₁ : PageOwnershipIndex}
    {acc : Coalescing E T} (hm : LatestOf (fun h => h ∈ m.pages) m.latestGeneration)
    (hacc : Matches m acc src.pageIndex m₁) (segs : List (Source.Segment E T R)) :
    ∃ ds, src.publish src.pageIndex.revision src.runtimeEventSequence segs = .ok ds ∧
      ds.length = segs.length ∧ Contiguous src.runtimeEventSequence src.pageIndex.revision ds ∧
      Matches m (ds.foldl absorb acc) (src.finish segs).pageIndex (installAll m₁ ds) ∧
      src.pageIndex.revision ≤ (src.finish segs).pageIndex.revision ∧
      (∀ v, (applyAll m₁ v ds).2 = .ok () → (applyAll m₁ v ds).1 = installAll m₁ ds) ∧
      ∀ hne : ds ≠ [],
        (ds.getLast hne).pageDelta.toRevision = (src.finish segs).pageIndex.revision ∧
        (ds.getLast hne).pageDelta.topologyRevision = (installAll m₁ ds).topologyRevision ∧
        (ds.getLast hne).pageDelta.topologyRevision = (src.finish segs).pageIndex.topologyRevision := by
  induction segs generalizing src m₁ acc with
  | nil => exact ⟨[],rfl,rfl,trivial,hacc,le_rfl,fun _ _ => rfl,fun hne => absurd rfl hne⟩
  | cons seg segs ih =>
    obtain ⟨⟨ms,hev⟩,hok',hseq⟩ := Source.acts_evolve hok seg.acts
    obtain ⟨d,hcap,hfrom,hto,hle,hcutAt,hcut⟩ :=
      Source.capture_cut hok hev (fun _ _ => id) hseq seg.telemetry seg.rest
    have hnext : Matches m (absorb acc d) (seg.acts.foldl Source.act src).pageIndex
        (m₁.installDelta d.pageDelta) := hacc.absorb hm hev hcut
    have hpatches : ∀ h ∈ d.pageDelta.pageStates, h ∈ (m₁.deltaBase d.pageDelta).pages ∨ h ∈ d.pageDelta.pages := by
      intro h hh
      rcases hcut with hfull | hdiff
      · simp [hfull.pageStates] at hh
      · rw [show m₁.deltaBase d.pageDelta = m₁ from if_neg (by simp [hdiff.full])]
        exact .inl (DiffDelta.patches hdiff hev hacc.mirror h hh)
    have happly (v : Bool) : (m₁.applyReplicaDelta d.pageDelta v).1 = m₁.installDelta d.pageDelta := by
      rw [applyReplicaDelta_eq (by rw [hcutAt.fromRevision,hacc.mirror.revision])
        (by rw [hcutAt.toRevision,hacc.mirror.revision]; exact hle) hpatches]
    obtain ⟨ds,hpub,hlen,hcont,hmat,hmono,happlied,hlast⟩ := ih hok' hnext
    refine ⟨d :: ds,Source.publish_cons hcap hcutAt.toRevision hto hpub,by simp [hlen],?_,hmat,hle.trans hmono,
      fun v hok => ?_,fun hne => ?_⟩
    · refine ⟨hfrom,hcutAt.fromRevision,?_⟩
      rw [hcutAt.toRevision,hto]
      exact hcont
    · -- the first part applies, and the others start from where it ends
      obtain ⟨_,hfirst,hrest⟩ := Call.andThen_eq_ok.mp (Prod.ext rfl hok :
        Call.andThen (m₁.applyReplicaDelta d.pageDelta v) (fun m _ => applyAll m v ds) =
          ((applyAll m₁ v (d :: ds)).1,.ok ()))
      rw [happly v] at hrest
      have hstate := happlied v (congrArg Prod.snd hrest)
      rw [hrest] at hstate
      exact hstate
    · cases ds with
      | nil =>
        obtain rfl : segs = [] := List.length_eq_zero_iff.mp hlen.symm
        exact ⟨hcutAt.toRevision,rfl,hcutAt.topologyRevision⟩
      | cons e ds =>
        rw [List.getLast_cons (List.cons_ne_nil _ _)]
        exact hlast (List.cons_ne_nil _ _)

/-- Where every call keeps the epochs, a copy of the source applies all parts and stays a copy. -/
theorem publish_applies {src : Source E} (hs : src.pageIndex.Sound) {m : PageOwnershipIndex}
    (hrec : SameRecords src.pageIndex m) (hrev : m.revision = src.pageIndex.revision)
    {segs : List (Source.Segment E T R)}
    (hkeeps : Run.AllSteps Source.act Source.Keeps src (segs.flatMap Source.Segment.acts)) (v : Bool)
    {ds : List (JointShadowDelta E T R)}
    (hpub : src.publish src.pageIndex.revision src.runtimeEventSequence segs = .ok ds) :
    applyAll m v ds = (installAll m ds,.ok ()) ∧ SameRecords (src.finish segs).pageIndex (installAll m ds) ∧
      (src.finish segs).pageIndex.Sound := by
  induction segs generalizing src m ds with
  | nil =>
    cases hpub
    exact ⟨rfl,hrec,hs⟩
  | cons seg segs ih =>
    rw [List.flatMap_cons,Run.AllSteps.append] at hkeeps
    obtain ⟨⟨ms,hev⟩,hs'⟩ := Source.acts_still hs hkeeps.1
    obtain ⟨-,-,hseq⟩ := Source.acts_evolve ⟨hs.inv.toBase,hs.journal⟩ seg.acts
    obtain ⟨d,hcap,-,hto,hle,hcutAt,hcut⟩ :=
      Source.capture_cut ⟨hs.inv.toBase,hs.journal⟩ hev (fun _ _ h => h.1) hseq seg.telemetry seg.rest
    obtain ⟨d',hcap',hlater⟩ := bind_eq_ok.mp hpub
    obtain rfl : d = d' := Except.ok.inj (hcap.symm.trans hcap')
    obtain ⟨rest,hrest,hds⟩ := bind_eq_ok.mp hlater
    cases hds
    have hstep : m.applyReplicaDelta d.pageDelta v = (m.installDelta d.pageDelta,.ok ()) ∧
        SameRecords (seg.acts.foldl Source.act src).pageIndex (m.installDelta d.pageDelta) := by
      rw [← hrev] at hle hcut
      rcases hcut with hfull | hdiff
      · exact hfull.applies hs'.inv hs'.epochs hle (hrec.base hs.inv.toBase).latest v
      · exact hdiff.applies hs'.inv hs'.epochs hle hev hs.inv.toBase hrec v
    obtain ⟨happ,hsame⟩ := hstep
    rw [hcutAt.toRevision,hto] at hrest
    obtain ⟨hrest,hcopy,hsound⟩ := ih hs' hsame hcutAt.toRevision hkeeps.2 hrest
    refine ⟨?_,hcopy,hsound⟩
    change Call.andThen (m.applyReplicaDelta d.pageDelta v) (fun m _ => applyAll m v rest) = _
    rw [happ,Call.andThen_ok]
    exact hrest

/-- Same records and same revisions. -/
structure SameState (a b : PageOwnershipIndex) : Prop extends SameRecords a b where
  revision : b.revision = a.revision
  topologyRevision : b.topologyRevision = a.topologyRevision

theorem empty_ok : (({} : Source E)).Ok := ⟨empty_inv.toBase,empty_journalOk⟩

/-- The coalesced publication of some cuts stands at the end of the last one, fits a mirror of the source before the
first one, and takes it where the parts take it that do not raise. -/
structure Coalesces (src : Source E) (segs : List (Source.Segment E T R)) (m : PageOwnershipIndex)
    (ds : List (JointShadowDelta E T R)) (D : JointShadowDelta E T R) : Prop where
  events : D.runtimeEvents = ds.flatMap JointShadowDelta.runtimeEvents
  telemetry : D.transferTelemetry = ds.flatMap JointShadowDelta.transferTelemetry
  cut : CutAt (src.finish segs).pageIndex m.revision D.pageDelta
  behind : m.revision ≤ (src.finish segs).pageIndex.revision
  patches : ∀ h ∈ D.pageDelta.pageStates, h ∈ (m.deltaBase D.pageDelta).pages ∨ h ∈ D.pageDelta.pages
  changed : ∀ c ∈ D.pageDelta.changedContextIds, c ∈ (src.finish segs).pageIndex.contextEpoch
  records : SameRecords (installAll m ds) (m.installDelta D.pageDelta)
  revision : D.pageDelta.toRevision = (installAll m ds).revision
  topologyRevision : D.pageDelta.topologyRevision = (installAll m ds).topologyRevision
  parts : ∀ v, (applyAll m v ds).2 = .ok () → (applyAll m v ds).1 = installAll m ds

theorem publish_coalesces {src : Source E} (hok : src.Ok) {m : PageOwnershipIndex} (hm : MirrorAt src.pageIndex m)
    (seg : Source.Segment E T R) (segs : List (Source.Segment E T R)) : ∃ ds D,
    src.publish src.pageIndex.revision src.runtimeEventSequence (seg :: segs) = .ok ds ∧
      coalesceJointShadowDeltas ds = .ok D ∧ Coalesces src (seg :: segs) m ds D := by
  obtain ⟨ds,hpub,hlen,hcont,hmat,hmono,happlied,hlast⟩ := publish_matches hok hm.latest
    (matches_start hm src.runtimeEventSequence src.pageIndex.revision) (seg :: segs)
  cases ds with
  | nil => simp at hlen
  | cons first ds =>
    obtain ⟨hec,hpc,hcont⟩ := hcont
    have hstart : (Coalescing.start first : Coalescing E T) =
        { eventCursor := src.runtimeEventSequence, pageCursor := src.pageIndex.revision } := by
      simp [Coalescing.start,hec,hpc]
    obtain ⟨D,hD,hevents,htelemetry,hpage⟩ := coalesce_ok first ds ((contiguous_iff _ _).mp hcont)
    obtain ⟨hto,htop,htop'⟩ := hlast (List.cons_ne_nil _ _)
    rw [hstart,hto,hpc] at hpage
    refine ⟨_,D,hpub,hD,⟨hevents,htelemetry,?_,hm.revision.trans_le hmono,?_,?_,?_,?_,?_,happlied⟩⟩
    · rw [hpage]
      exact ⟨hm.revision.symm,rfl,htop'⟩
    · rw [hpage]
      exact hmat.patches
    · rw [hpage]
      exact hmat.changed
    · rw [hpage]
      exact hmat.records _ _ _
    · rw [hpage]
      exact hmat.mirror.revision.symm
    · rw [hpage]
      exact htop

section Coalesced
variable {src : Source E} {segs : List (Source.Segment E T R)} {m : PageOwnershipIndex}
  {ds : List (JointShadowDelta E T R)} {D : JointShadowDelta E T R}

theorem Coalesces.same (h : Coalesces src segs m ds D) {v : Bool} (hparts : (applyAll m v ds).2 = .ok ()) (v' : Bool) :
    SameState (applyAll m v ds).1 (m.applyReplicaDelta D.pageDelta v').1 := by
  rw [h.parts v hparts,applyReplicaDelta_eq h.cut.fromRevision (by rw [h.cut.toRevision]; exact h.behind) h.patches]
  exact ⟨h.records,h.revision,h.topologyRevision⟩

/-- Where the parts end in a sound copy of the source, so does the whole. -/
theorem Coalesces.applies (h : Coalesces src segs m ds D) (hsound : (src.finish segs).pageIndex.Sound)
    (hcopy : SameRecords (src.finish segs).pageIndex (installAll m ds)) (v' : Bool) :
    (m.applyReplicaDelta D.pageDelta v').2 = .ok () ∧
      SameState (src.finish segs).pageIndex (m.applyReplicaDelta D.pageDelta v').1 := by
  have hsame := hcopy.trans h.records
  have hwhole := h.cut.applies hsound.inv hsound.epochs h.behind hsame h.changed h.patches v'
  refine ⟨congrArg Prod.snd hwhole,?_⟩
  rw [hwhole]
  exact ⟨hsame,h.cut.toRevision,h.cut.topologyRevision⟩

end Coalesced

/-- What the coalesced publication carries, and where it takes a mirror that the parts take to some state. -/
structure Lossless (m : PageOwnershipIndex) (v v' : Bool) (ds : List (JointShadowDelta E T R))
    (D : JointShadowDelta E T R) : Prop where
  events : D.runtimeEvents = ds.flatMap JointShadowDelta.runtimeEvents
  telemetry : D.transferTelemetry = ds.flatMap JointShadowDelta.transferTelemetry
  same : (applyAll m v ds).2 = .ok () → SameState (applyAll m v ds).1 (m.applyReplicaDelta D.pageDelta v').1

/-- Consecutive cuts of one source coalesce into one publication that carries the same events and telemetry and takes a
mirror to the same records and revisions, if no part of them raises. In runs in which every call keeps the epochs no part
of them does, and neither does the coalesced publication. Coalescing itself raises exactly on a gap. -/
theorem coalesce_lossless :
    (∀ (history : List (Source.Act E)) (seg : Source.Segment E T R)
      (segs : List (Source.Segment E T R)) (m : PageOwnershipIndex) (v v' : Bool),
      MirrorAt (history.foldl Source.act {}).pageIndex m →
      ∃ ds D, (history.foldl Source.act {}).publish (history.foldl Source.act {}).pageIndex.revision
          (history.foldl Source.act {}).runtimeEventSequence (seg :: segs) = .ok ds ∧
        coalesceJointShadowDeltas ds = .ok D ∧ Lossless m v v' ds D ∧
        (Run.AllSteps Source.act Source.Keeps {} (history ++ (seg :: segs).flatMap Source.Segment.acts) →
          SameRecords (history.foldl Source.act {}).pageIndex m →
          (applyAll m v ds).2 = .ok () ∧ (m.applyReplicaDelta D.pageDelta v').2 = .ok () ∧
            SameState ((history.foldl Source.act {}).finish (seg :: segs)).pageIndex
              (m.applyReplicaDelta D.pageDelta v').1)) ∧
    ∀ ds : List (JointShadowDelta E T R), ds ≠ [] →
      ((∃ e, coalesceJointShadowDeltas ds = .error e) ↔ ¬ ds.IsChain Follows) := by
  refine ⟨fun history seg segs m v v' hm => ?_,coalesce_error_iff⟩
  obtain ⟨-,hok,-⟩ := Source.acts_evolve (E := E) empty_ok history
  obtain ⟨ds,D,hpub,hD,hcoalesces⟩ := publish_coalesces hok hm seg segs
  refine ⟨ds,D,hpub,hD,⟨hcoalesces.events,hcoalesces.telemetry,fun hparts => hcoalesces.same hparts v'⟩,
    fun hkeeps hcopy => ?_⟩
  rw [Run.AllSteps.append] at hkeeps
  obtain ⟨-,hsound⟩ := Source.acts_still empty_sound hkeeps.1
  obtain ⟨hparts,hcopied,hsound'⟩ := publish_applies hsound hcopy hm.revision hkeeps.2 v hpub
  obtain ⟨hwhole,hsame⟩ := hcoalesces.applies hsound' hcopied v'
  exact ⟨congrArg Prod.snd hparts,hwhole,hsame⟩

/-! ## A context that is registered again -/

/-- A page is registered before the first cut; before the second it is bound and locked. -/
def sampleSegments : List (Source.Segment ℕ ℕ Unit) :=
  [⟨[.append [3],.call (.registerContext "c" "w" 0),
    .call (.registerPage ⟨0,0⟩ 1 .gpuOnly 0 none true 0)],[7],()⟩,
   ⟨[.call (.bindPages "c" 0 [⟨0,0⟩] false),.append [4,5],.call (.setEngineLock ⟨0,0⟩ 1)],[8],()⟩]

theorem coalesce_lossless_sample : ∃ ds D, ({} : Source ℕ).publish 0 0 sampleSegments = .ok ds ∧
    coalesceJointShadowDeltas ds = .ok D ∧ (applyAll .empty true ds).2 = .ok () ∧
    SameState (applyAll .empty true ds).1 (PageOwnershipIndex.empty.applyReplicaDelta D.pageDelta false).1 := by
  have hkeeps : Run.AllSteps Source.act Source.Keeps ({} : Source ℕ)
      ([] ++ sampleSegments.flatMap Source.Segment.acts) := by decide
  obtain ⟨ds,D,hpub,hD,hlossless,hreturns⟩ := coalesce_lossless.1 ([] : List (Source.Act ℕ)) _ _ .empty true
    false (MirrorAt.of_sameRecords empty_ok.1 (SameRecords.refl _) rfl)
  obtain ⟨hparts,-,-⟩ := hreturns hkeeps (SameRecords.refl _)
  exact ⟨ds,D,hpub,hD,hparts,hlossless.same hparts⟩

/-- A context owns a page. It is registered again under a later epoch before the first cut, and loses the page before the
second. -/
def againHistory : List (Source.Act ℕ) :=
  [.call (.registerContext "c" "w" 0),.call (.registerPage ⟨0,0⟩ 1 .gpuOnly 0 none true 0),
    .call (.bindPages "c" 0 [⟨0,0⟩] false)]

def againSegments : List (Source.Segment ℕ ℕ Unit) :=
  [⟨[.call (.registerContext "c" "w" 1)],[],()⟩,⟨[.call (.unbindContext "c")],[],()⟩]

/-- The source before the first cut. -/
def againSource : Source ℕ := againHistory.foldl Source.act {}

/-- A mirror that has applied the first delta of the source. -/
def againMirror : Except Raised PageOwnershipIndex := do
  let δ ← againSource.pageIndex.replicaDeltaSince 0
  .ok (PageOwnershipIndex.empty.applyReplicaDelta δ true).1

/-- What the parts return and what the coalesced publication returns, and whether the mirror has the same revision
afterwards. -/
def againOutcome : Except Raised (Except Raised Unit × Except Raised Unit × Bool) := do
  let m ← againMirror
  let ds ← againSource.publish againSource.pageIndex.revision againSource.runtimeEventSequence againSegments
  let D ← coalesceJointShadowDeltas ds
  .ok ((applyAll m true ds).2,(m.applyReplicaDelta D.pageDelta true).2,
    (applyAll m true ds).1.revision = (m.applyReplicaDelta D.pageDelta true).1.revision)

/-- The first part raises, the coalesced publication does not. -/
theorem again_parts_raise : ∃ m ds D, againMirror = .ok m ∧
    againSource.publish againSource.pageIndex.revision againSource.runtimeEventSequence againSegments = .ok ds ∧
    coalesceJointShadowDeltas ds = .ok D ∧
    (applyAll m true ds).2 = .error (.assertionError "page owner epoch differs from context epoch") ∧
    (m.applyReplicaDelta D.pageDelta true).2 = .ok () ∧
    (applyAll m true ds).1.revision ≠ (m.applyReplicaDelta D.pageDelta true).1.revision := by
  have hrun : againOutcome =
      .ok (.error (.assertionError "page owner epoch differs from context epoch"),.ok (),false) := by decide +kernel
  obtain ⟨m,hm,hrun⟩ := bind_eq_ok.mp hrun
  obtain ⟨ds,hds,hrun⟩ := bind_eq_ok.mp hrun
  obtain ⟨D,hD,hrun⟩ := bind_eq_ok.mp hrun
  obtain ⟨hparts,hwhole,hrev⟩ : _ ∧ _ ∧ _ := by simpa only [Except.ok.injEq,Prod.mk.injEq] using hrun
  exact ⟨m,ds,D,hm,hds,hD,hparts,hwhole,of_decide_eq_false hrev⟩

end BeliefKV.JointShadow
