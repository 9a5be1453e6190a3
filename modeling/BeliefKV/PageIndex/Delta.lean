import BeliefKV.PageIndex.Publication

/-! The deltas a source cuts from its journal, and what a mirror holds after one of them. -/
namespace BeliefKV.PageOwnershipIndex
open Evolves

-- The bound is a large numeral that no proof needs to unfold.
attribute [local irreducible] journalBound

/-- The journal is within its bound and holds no entry from the future. -/
structure JournalOk (s : PageOwnershipIndex) : Prop where
  length_le : s.mutationJournal.length ≤ journalBound
  revision_le : ∀ m ∈ s.mutationJournal, m.revision ≤ s.revision

theorem empty_journalOk : empty.JournalOk := ⟨Nat.zero_le _,by simp [empty]⟩

/-- The entries `ms` followed revision `r`, and the journal kept as many of them as fit. -/
structure Remembers (s : PageOwnershipIndex) (r : ℕ) (ms : List PageIndexMutation) : Prop where
  journal : ∃ old : List PageIndexMutation, (∀ m ∈ old, m.revision ≤ r) ∧
    s.mutationJournal = (old ++ ms).rtake journalBound
  chain : Journal.Chain PageIndexMutation.fromRevision PageIndexMutation.revision r ms s.revision

section
variable {s s' : PageOwnershipIndex} {still : PageOwnershipIndex → PageOwnershipIndex → Prop}
  {ms : List PageIndexMutation} {r : ℕ}

theorem Evolves.journal_eq (hev : Evolves still s ms s') (hstill : ∀ t u, still t u → Silent t u)
    (hj : s.JournalOk) : s'.mutationJournal = (s.mutationJournal ++ ms).rtake journalBound := by
  rw [hev.journal hstill,Journal.pushAll_eq _ _ _ hj.length_le]

theorem Evolves.remembers (hev : Evolves still s ms s') (hstill : ∀ t u, still t u → Silent t u)
    (hj : s.JournalOk) : Remembers s' s.revision ms :=
  ⟨⟨s.mutationJournal,hj.revision_le,hev.journal_eq hstill hj⟩,hev.chain hstill⟩

theorem Evolves.journalOk (hev : Evolves still s ms s') (hstill : ∀ t u, still t u → Silent t u)
    (hj : s.JournalOk) : s'.JournalOk := by
  have hchain := hev.chain hstill
  constructor
  · rw [hev.journal_eq hstill hj]
    exact Journal.length_rtake_le _ _
  · intro m hm
    rw [hev.journal_eq hstill hj] at hm
    rcases List.mem_append.mp (List.mem_of_mem_drop hm) with hm | hm
    · exact (hj.revision_le m hm).trans hchain.le
    · exact (hchain.mem_rev hm).2

section Reader
variable {a : ℕ} {old : List PageIndexMutation}
  (hj : s.mutationJournal = (old ++ ms).rtake journalBound) (hold : ∀ m ∈ old, m.revision ≤ r)
  (hyoung : ∀ m ∈ ms, r < m.revision)
include hj hold hyoung

theorem mutationsSince_eq : s.mutationsSince r = ms.rtake journalBound := by
  unfold mutationsSince
  rw [hj,Journal.rtake_append]
  apply Journal.since_append
  · exact fun m hm => hold m (List.mem_of_mem_drop hm)
  · exact fun m hm => hyoung m (List.mem_of_mem_drop hm)

/-- The change set of a reader: the entries that fit, and a rebuild when some did not. -/
theorem changesSince_eq
    (hchain : Journal.Chain PageIndexMutation.fromRevision PageIndexMutation.revision a ms s.revision)
    (har : a ≤ r) (hr : r ≤ s.revision) : ∃ cs : ChangeSet,
    s.changesSince r = .ok cs ∧
      cs.handles = Journal.collect PageIndexMutation.handles (ms.rtake journalBound) ∧
      cs.contextIds = Journal.collect PageIndexMutation.contextIds (ms.rtake journalBound) ∧
      cs.components = Journal.collect PageIndexMutation.components (ms.rtake journalBound) ∧
      (cs.fullRebuildRequired = true ↔ journalBound < ms.length) := by
  simp only [PageOwnershipIndex.changesSince,mutationsSince_eq hj hold hyoung,if_neg (not_lt.mpr hr)]
  by_cases heq : r = s.revision
  · have hms : ms = [] := by
      by_contra hne
      obtain ⟨m,hm⟩ := List.exists_mem_of_ne_nil ms hne
      have h₁ := hyoung m hm
      have h₂ := (hchain.mem_rev hm).2
      omega
    rw [if_pos heq]
    refine ⟨_,rfl,?_⟩
    simp [hms,Journal.collect,List.rtake]
  · rw [if_neg heq]
    have hne : ms ≠ [] := by
      rintro rfl
      cases hchain
      omega
    refine ⟨_,rfl,rfl,rfl,rfl,?_⟩
    by_cases hfit : ms.length ≤ journalBound
    · simp [Journal.rtake_of_length_le hfit,hchain.cover_of_le har hyoung hne,hne,hfit]
    · -- A forgotten entry leaves a gap at the start of the scan.
      have hlt := not_le.mp hfit
      have hpos := journalBound_pos
      have hgap : Journal.cover PageIndexMutation.fromRevision PageIndexMutation.revision r
          (ms.rtake journalBound) = none :=
        hchain.cover_drop hyoung (by omega : 0 < ms.length - journalBound) (by omega)
      simp [hgap,hlt]

end Reader

theorem Remembers.young (h : Remembers s r ms) : ∀ m ∈ ms, r < m.revision :=
  fun _ hm => (h.chain.mem_rev hm).1

theorem Remembers.mutationsSince (h : Remembers s r ms) :
    s.mutationsSince r = ms.rtake journalBound := by
  obtain ⟨old,hold,hj⟩ := h.journal
  exact mutationsSince_eq hj hold h.young

theorem Remembers.changesSince (h : Remembers s r ms) : ∃ cs : ChangeSet,
    s.changesSince r = .ok cs ∧
      cs.handles = Journal.collect PageIndexMutation.handles (ms.rtake journalBound) ∧
      cs.contextIds = Journal.collect PageIndexMutation.contextIds (ms.rtake journalBound) ∧
      cs.components = Journal.collect PageIndexMutation.components (ms.rtake journalBound) ∧
      (cs.fullRebuildRequired = true ↔ journalBound < ms.length) := by
  obtain ⟨old,hold,hj⟩ := h.journal
  exact changesSince_eq hj hold h.young h.chain le_rfl h.chain.le

/-! ## Cutting a delta -/

/-- The delta covers the revisions from `r` to the present of `s`. -/
structure CutAt (s : PageOwnershipIndex) (r : ℕ) (δ : PageIndexReplicaDelta) : Prop where
  fromRevision : δ.fromRevision = r
  toRevision : δ.toRevision = s.revision
  topologyRevision : δ.topologyRevision = s.topologyRevision

/-- The delta ships all records. -/
structure FullDelta (s : PageOwnershipIndex) (r : ℕ) (δ : PageIndexReplicaDelta) : Prop
    extends CutAt s r δ where
  full : δ.fullRebuildRequired = true
  pages : δ.pages = s.pages
  pageStates : δ.pageStates = ∅
  contexts : ∀ c : String, δ.contexts[c]? = s.contextEpoch[c]?.map (s.contextReplica c)
  changedHandles : δ.changedHandles = s.pages.keySet
  changedContextIds : δ.changedContextIds = s.contextEpoch.keySet

/-- The delta ships the records the entries `ms` list. -/
structure DiffDelta (s : PageOwnershipIndex) (r : ℕ) (ms : List PageIndexMutation)
    (δ : PageIndexReplicaDelta) : Prop extends CutAt s r δ where
  full : δ.fullRebuildRequired = false
  pages : ∀ h : PageHandle, δ.pages[h]? = if h ∈ structuralHandles ms then s.pages[h]? else none
  pageStates : ∀ h : PageHandle, δ.pageStates[h]? =
    if h ∈ Journal.collect PageIndexMutation.handles ms ∧ h ∉ structuralHandles ms then
      s.pages[h]?.map pageStateReplica else none
  contexts : ∀ c : String, δ.contexts[c]? =
    if c ∈ contextualIds ms then s.contextEpoch[c]?.map (s.contextReplica c) else none
  changedHandles : δ.changedHandles = Journal.collect PageIndexMutation.handles ms
  changedContextIds : δ.changedContextIds = contextualIds ms
  components : δ.components = Journal.collect PageIndexMutation.components ms

theorem get_select_mem {K V : Type} [Ord K] [Std.TransOrd K] [Std.LawfulEqOrd K] [DecidableEq K]
    (d : Dict K V) (keys : Finset K) (k : K) :
    (d.select fun a _ => a ∈ keys)[k]? = if k ∈ keys then d[k]? else none := by
  rw [Dict.get_select]
  split_ifs with h <;> cases d[k]? <;> simp [h]

/-- A reader that has to start over gets all records. -/
theorem FullDelta.of_changes {cs : ChangeSet} (hcs : s.changesSince r = .ok cs)
    (hr : (r = 0 || cs.fullRebuildRequired) = true) :
    ∃ δ, s.replicaDeltaSince r = .ok δ ∧ FullDelta s r δ := by
  refine ⟨_,bind_eq_ok.mpr ⟨cs,hcs,rfl⟩,⟨rfl,rfl,rfl⟩,hr,?_,?_,?_,?_,?_⟩ <;> simp only [hr,if_true]
  · apply Dict.ext_get
    intro k
    rw [get_select_mem,ite_eq_left_iff]
    exact fun hk => ((Dict.notMem_iff_get _ _).mp (by simpa using hk)).symm
  · apply Dict.ext_get
    intro k
    rw [Std.ExtTreeMap.getElem?_map,get_select_mem,if_neg (by simp)]
    rfl
  · intro c
    rw [Std.ExtTreeMap.getElem?_map,get_select_mem]
    split_ifs with hc
    · rfl
    · rw [(Dict.notMem_iff_get _ _).mp (by simpa using hc)]

theorem Remembers.replicaDelta (h : Remembers s r ms) : ∃ δ, s.replicaDeltaSince r = .ok δ ∧
    (FullDelta s r δ ∨ DiffDelta s r ms δ) := by
  obtain ⟨cs,hcs,hhandles,-,hcomponents,hfull⟩ := h.changesSince
  by_cases hr : (r = 0 || cs.fullRebuildRequired) = true
  · obtain ⟨δ,hδ,hcut⟩ := FullDelta.of_changes hcs hr
    exact ⟨δ,hδ,.inl hcut⟩
  · refine ⟨_,bind_eq_ok.mpr ⟨cs,hcs,rfl⟩,.inr ?_⟩
    have hfit : ms.rtake journalBound = ms := by
      apply Journal.rtake_of_length_le
      by_contra hlt
      simp [hfull.mpr (not_le.mp hlt)] at hr
    have hms : s.mutationsSince r = ms := h.mutationsSince.trans hfit
    rw [hfit] at hhandles hcomponents
    refine ⟨⟨rfl,rfl,rfl⟩,by simpa using hr,?_,?_,?_,?_,?_,?_⟩ <;>
      simp only [hr,hms,hhandles,hcomponents,Bool.false_eq_true,if_false]
    · exact fun k => get_select_mem _ _ _
    · intro k
      rw [Std.ExtTreeMap.getElem?_map,get_select_mem]
      simp only [Finset.mem_sdiff]
      exact apply_ite (Option.map _) _ _ _
    · intro c
      rw [Std.ExtTreeMap.getElem?_map,get_select_mem]
      exact apply_ite (Option.map _) _ _ _
    · rfl

end

/-! ## Installing a delta -/

section Install
variable (m : PageOwnershipIndex) (δ : PageIndexReplicaDelta)

theorem get_installDelta (h : PageHandle) : (m.installDelta δ).pages[h]? =
    (δ.pages[h]?.or (m.deltaBase δ).pages[h]?).map
      fun p => (δ.pageStates[h]?.map (patchState p)).getD p := by
  change (((m.deltaBase δ).pages.overlay δ.pages).map fun h p =>
    (δ.pageStates[h]?.map (patchState p)).getD p)[h]? = _
  rw [Std.ExtTreeMap.getElem?_map,Dict.get_overlay]

theorem mem_installDelta (h : PageHandle) : h ∈ (m.installDelta δ).pages ↔
    h ∈ (m.deltaBase δ).pages ∨ h ∈ δ.pages := by
  simp only [Dict.mem_iff_get,get_installDelta]
  cases δ.pages[h]? <;> cases (m.deltaBase δ).pages[h]? <;> simp

theorem contextEpoch_installDelta (c : String) : (m.installDelta δ).contextEpoch[c]? =
    (δ.contexts[c]?.map ContextPageReplica.epoch).or (m.deltaBase δ).contextEpoch[c]? := by
  refine (Dict.get_overlay _ _ _).trans ?_
  rw [Std.ExtTreeMap.getElem?_map]
  rfl

theorem contextWorkflow_installDelta (c : String) : (m.installDelta δ).contextWorkflow[c]? =
    (δ.contexts[c]?.map ContextPageReplica.workflowId).or (m.deltaBase δ).contextWorkflow[c]? := by
  refine (Dict.get_overlay _ _ _).trans ?_
  rw [Std.ExtTreeMap.getElem?_map]
  rfl

theorem pagesOf_installDelta (c : String) : (m.installDelta δ).pagesOf c =
    (δ.contexts[c]?.map ContextPageReplica.handles).getD ((m.deltaBase δ).pagesOf c) := by
  refine (congrArg (Option.getD · ∅) (Dict.get_overlay _ _ _)).trans ?_
  rw [Std.ExtTreeMap.getElem?_map]
  cases δ.contexts[c]? <;> rfl

theorem latestOf_installDelta (hl : LatestOf (fun h => h ∈ (m.deltaBase δ).pages)
    (m.deltaBase δ).latestGeneration) :
    LatestOf (fun h => h ∈ (m.installDelta δ).pages) (m.installDelta δ).latestGeneration := by
  refine (hl.foldl_observe δ.pages.keys).congr fun h => ?_
  rw [mem_installDelta,Std.ExtTreeMap.mem_keys]

theorem deltaBase_latestOf (hl : LatestOf (fun h => h ∈ m.pages) m.latestGeneration) :
    LatestOf (fun h => h ∈ (m.deltaBase δ).pages) (m.deltaBase δ).latestGeneration := by
  unfold deltaBase
  split_ifs
  · constructor <;> simp [clear]
  · exact hl

/-- A delta that starts where the mirror stands and patches only known pages is installed
as a whole; what the call returns is the verdict of the self-check. -/
theorem applyReplicaDelta_eq {m : PageOwnershipIndex} {δ : PageIndexReplicaDelta}
    (hfrom : δ.fromRevision = m.revision) (hto : m.revision ≤ δ.toRevision)
    (hknown : ∀ h ∈ δ.pageStates, h ∈ (m.deltaBase δ).pages ∨ h ∈ δ.pages) (v : Bool) :
    m.applyReplicaDelta δ v = (m.installDelta δ,
      if v || δ.fullRebuildRequired then (m.installDelta δ).assertConsistent
      else (m.installDelta δ).assertDeltaConsistent δ) := by
  have hfind : (δ.pageStates.keys.find? fun h =>
      !((m.deltaBase δ).installPages δ.pages).pages.contains h) = none := by
    rw [List.find?_eq_none]
    intro h hh
    have hmem := (Dict.mem_overlay _ _ _).mpr (hknown h (by simpa using hh))
    simpa [installPages] using hmem
  unfold applyReplicaDelta
  rw [if_neg (not_not.mpr hfrom),if_neg (by omega)]
  simp only [hfind]

end Install

/-! ## Agreement after one delta -/

section Agreement
variable {s₀ s m : PageOwnershipIndex} {δ : PageIndexReplicaDelta} {ms : List PageIndexMutation}
  {r : ℕ} {still : PageOwnershipIndex → PageOwnershipIndex → Prop}

/-- Generations are determined by the handles. -/
theorem installDelta_latestGeneration (hs : s.Base) (hm : LatestOf (fun h => h ∈ m.pages)
    m.latestGeneration) (hpages : (m.installDelta δ).pages = s.pages) :
    (m.installDelta δ).latestGeneration = s.latestGeneration := by
  have hl := latestOf_installDelta m δ (deltaBase_latestOf m δ hm)
  rw [hpages] at hl
  exact hl.eq hs.latest

theorem contextReplica_workflowId (hs : s.Base) {c : String} {e : ℤ}
    (hc : s.contextEpoch[c]? = some e) :
    some (s.contextReplica c e).workflowId = s.contextWorkflow[c]? := by
  obtain ⟨w,hw⟩ := (Dict.mem_iff_get _ _).mp
    ((hs.workflow_known c).mp ((Dict.mem_iff_get _ _).mpr ⟨e,hc⟩))
  simp [contextReplica,hw]

theorem workflow_none (hs : s.Base) {c : String} (hc : s.contextEpoch[c]? = none) :
    s.contextWorkflow[c]? = none := by
  rw [← Dict.notMem_iff_get,← hs.workflow_known,Dict.notMem_iff_get]
  exact hc

theorem pagesOf_none (hs : s.Base) {c : String} (hc : s.contextEpoch[c]? = none) :
    s.pagesOf c = ∅ := by
  rw [Finset.eq_empty_iff_forall_notMem]
  intro h hh
  exact (Dict.notMem_iff_get _ _).mpr hc (hs.pagesOf_known c h hh).1

/-- A rebuild makes the mirror a copy of the source, whatever it held before. -/
theorem FullDelta.sameRecords (hδ : FullDelta s r δ) (hs : s.Base)
    (hm : LatestOf (fun h => h ∈ m.pages) m.latestGeneration) :
    SameRecords s (m.installDelta δ) := by
  have hbase : m.deltaBase δ = m.clear := if_pos hδ.full
  have hpages : (m.installDelta δ).pages = s.pages := by
    apply Dict.ext_get
    intro h
    rw [get_installDelta,hδ.pages,hδ.pageStates,hbase]
    cases s.pages[h]? <;> rfl
  refine ⟨hpages,installDelta_latestGeneration hs hm hpages,fun c => ?_,?_,?_⟩
  · rw [pagesOf_installDelta,hδ.contexts,hbase]
    cases hc : s.contextEpoch[c]? with
    | none => exact (pagesOf_none hs hc).symm
    | some e => rfl
  · apply Dict.ext_get
    intro c
    rw [contextEpoch_installDelta,hδ.contexts,hbase]
    cases hc : s.contextEpoch[c]? <;> rfl
  · apply Dict.ext_get
    intro c
    rw [contextWorkflow_installDelta,hδ.contexts,hbase]
    cases hc : s.contextEpoch[c]? with
    | none => exact (workflow_none hs hc).symm
    | some e => exact contextReplica_workflowId hs hc

/-- A diff brings a mirror that agreed with the source at the start of its entries to the
source's present. -/
theorem DiffDelta.sameRecords (hδ : DiffDelta s r ms δ) (hs : s.Base) (hev : Evolves still s₀ ms s)
    (hstill : ∀ t u, still t u → Silent t u ∧ SameRecords t u) (h₀ : s₀.Base)
    (hm : SameRecords s₀ m) : SameRecords s (m.installDelta δ) := by
  have hsame (t u : PageOwnershipIndex) (h : still t u) := (hstill t u h).2
  have hsilent (t u : PageOwnershipIndex) (h : still t u) := (hstill t u h).1
  have hbase : m.deltaBase δ = m := if_neg (by simp [hδ.full])
  have hpages : (m.installDelta δ).pages = s.pages := by
    apply Dict.ext_get
    intro h
    rw [get_installDelta,hδ.pages,hδ.pageStates,hbase,hm.pages]
    by_cases hstr : h ∈ structuralHandles ms
    · -- shipped as a whole record, or absent on both sides
      simp only [not_true,and_false,if_false,hstr]
      cases hp : s.pages[h]? with
      | some p => rfl
      | none =>
        have hn : s₀.pages[h]? = none := by
          rw [← Dict.notMem_iff_get] at hp ⊢
          exact fun hx => hp (hev.pages_grow hsilent h hx)
        simp [hn]
    · rw [if_neg hstr,Option.none_or]
      by_cases hin : h ∈ Journal.collect PageIndexMutation.handles ms
      · -- shipped as a patch of the record the mirror already has
        rw [if_pos ⟨hin,hstr⟩]
        cases hp : s.pages[h]? with
        | none =>
          have hn : s₀.pages[h]? = none := by
            rw [← Dict.notMem_iff_get] at hp ⊢
            exact fun hx => hp (hev.pages_grow hsilent h hx)
          simp [hn]
        | some p =>
          have hmem : h ∈ s₀.pages := by
            by_contra hn
            exact hstr (hev.pages_new hsilent ((Dict.mem_iff_get _ _).mpr ⟨p,hp⟩) hn)
          obtain ⟨p₀,hp₀⟩ := (Dict.mem_iff_get _ _).mp hmem
          rw [hp₀]
          exact congrArg some (hev.pages_static hsame hstr hp₀ hp).symm
      · -- not shipped
        rw [if_neg fun hx => hin hx.1,hev.pages_frame hsame (a := h)]
        · cases s₀.pages[h]? <;> rfl
        · exact fun m' hm' hx => hin ((Journal.mem_collect _ _ _).mpr ⟨m',hm',hx⟩)
  have hlatest : LatestOf (fun h => h ∈ m.pages) m.latestGeneration := (hm.base h₀).latest
  refine ⟨hpages,installDelta_latestGeneration hs hlatest hpages,fun c => ?_,?_,?_⟩
  · rw [pagesOf_installDelta,hδ.contexts,hbase,hm.pagesOf]
    by_cases hc : c ∈ contextualIds ms
    · obtain ⟨e,he⟩ := (Dict.mem_iff_get _ _).mp (hev.contexts_known hsilent c hc)
      rw [if_pos hc,he]
      rfl
    · rw [if_neg hc]
      exact (hev.contexts_frame hsame hc).1.symm
  · apply Dict.ext_get
    intro c
    rw [contextEpoch_installDelta,hδ.contexts,hbase,hm.contextEpoch]
    by_cases hc : c ∈ contextualIds ms
    · obtain ⟨e,he⟩ := (Dict.mem_iff_get _ _).mp (hev.contexts_known hsilent c hc)
      rw [if_pos hc,he]
      rfl
    · rw [if_neg hc]
      exact (hev.contexts_frame hsame hc).2.1.symm
  · apply Dict.ext_get
    intro c
    rw [contextWorkflow_installDelta,hδ.contexts,hbase,hm.contextWorkflow]
    by_cases hc : c ∈ contextualIds ms
    · obtain ⟨e,he⟩ := (Dict.mem_iff_get _ _).mp (hev.contexts_known hsilent c hc)
      rw [if_pos hc,he]
      exact contextReplica_workflowId hs he
    · rw [if_neg hc]
      exact (hev.contexts_frame hsame hc).2.2.symm

end Agreement
end BeliefKV.PageOwnershipIndex
