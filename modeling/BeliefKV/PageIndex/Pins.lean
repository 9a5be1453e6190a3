import BeliefKV.PageIndex.Preservation

/-! Pin sets that are written past the index's own calls. They can hold contexts that do not own
the page; all else in the index stays as if they had not been written. -/
namespace BeliefKV.PageOwnershipIndex
open Relation

/-- A record without its pins. -/
def noPins (p : PhysicalPageRecord) : PhysicalPageRecord := { p with semanticPinContexts := ∅ }

/-- Two record tables that differ in pins only. -/
def AgreeButPins (d e : Dict PageHandle PhysicalPageRecord) : Prop :=
  ∀ h : PageHandle, e[h]?.map noPins = d[h]?.map noPins

/-- Two indexes that differ in pins, revisions, caches and the journal only. -/
structure SameButPins (s t : PageOwnershipIndex) : Prop where
  record : AgreeButPins s.pages t.pages
  latestGeneration : t.latestGeneration = s.latestGeneration
  pagesOf : ∀ c, t.pagesOf c = s.pagesOf c
  contextEpoch : t.contextEpoch = s.contextEpoch
  contextWorkflow : t.contextWorkflow = s.contextWorkflow

section Agreement
variable {d e : Dict PageHandle PhysicalPageRecord} {h : PageHandle} {p q : PhysicalPageRecord}

theorem repinned_of_noPins (hpq : noPins q = noPins p) :
    q = { p with semanticPinContexts := q.semanticPinContexts } :=
  congrArg (fun r : PhysicalPageRecord =>
    { r with semanticPinContexts := q.semanticPinContexts }) hpq

theorem AgreeButPins.symm (ha : AgreeButPins d e) : AgreeButPins e d := fun h => (ha h).symm

/-- The other table has the record under other pins. -/
theorem AgreeButPins.get (ha : AgreeButPins d e) (hp : d[h]? = some p) :
    ∃ pins, e[h]? = some { p with semanticPinContexts := pins } := by
  have hh := ha h
  rw [hp] at hh
  obtain ⟨q,hq,hpq⟩ := Option.map_eq_some_iff.mp hh
  exact ⟨q.semanticPinContexts,by rw [hq,← repinned_of_noPins hpq]⟩

theorem AgreeButPins.mem_iff (ha : AgreeButPins d e) : h ∈ e ↔ h ∈ d := by
  simp only [Dict.mem_iff_get]
  constructor
  · rintro ⟨p,hp⟩
    obtain ⟨pins,hq⟩ := ha.symm.get hp
    exact ⟨_,hq⟩
  · rintro ⟨p,hp⟩
    obtain ⟨pins,hq⟩ := ha.get hp
    exact ⟨_,hq⟩

theorem AgreeButPins.insert (ha : AgreeButPins d e) (h : PageHandle) (hpq : noPins q = noPins p) :
    AgreeButPins (d.insert h p) (e.insert h q) := by
  intro a
  simp only [Dict.get_insert]
  split_ifs
  · simp [hpq]
  · exact ha a

/-- Updates that do not look at pins keep the agreement. -/
theorem AgreeButPins.updateAll (ha : AgreeButPins d e) (hs : Finset PageHandle)
    {f g : PhysicalPageRecord → PhysicalPageRecord}
    (hfg : ∀ p pins, noPins (g { p with semanticPinContexts := pins }) = noPins (f p)) :
    AgreeButPins (d.updateAll hs f) (e.updateAll hs g) := by
  intro a
  simp only [Dict.get_updateAll]
  split_ifs
  · cases hp : d[a]? with
    | none =>
      have hh := ha a
      rw [hp,Option.map_none,Option.map_eq_none_iff] at hh
      rw [hh]
      rfl
    | some p =>
      obtain ⟨pins,hq⟩ := ha.get hp
      rw [hq]
      simp [hfg]
  · exact ha a

end Agreement

namespace SameButPins
variable {s s' t : PageOwnershipIndex} {h : PageHandle} {p : PhysicalPageRecord} {d k : Prop}

theorem refl (s : PageOwnershipIndex) : SameButPins s s :=
  ⟨fun _ => rfl,rfl,fun _ => rfl,rfl,rfl⟩

theorem symm (ha : SameButPins s t) : SameButPins t s :=
  ⟨ha.record.symm,ha.latestGeneration.symm,fun c => (ha.pagesOf c).symm,ha.contextEpoch.symm,
    ha.contextWorkflow.symm⟩

theorem of_sameRecords (ha : SameButPins s t) {t' : PageOwnershipIndex} (hs : SameRecords s s')
    (ht : SameRecords t t') : SameButPins s' t' :=
  ⟨by rw [hs.pages,ht.pages]; exact ha.record,
    ht.latestGeneration.trans (ha.latestGeneration.trans hs.latestGeneration.symm),
    fun c => (ht.pagesOf c).trans ((ha.pagesOf c).trans (hs.pagesOf c).symm),
    ht.contextEpoch.trans (ha.contextEpoch.trans hs.contextEpoch.symm),
    ht.contextWorkflow.trans (ha.contextWorkflow.trans hs.contextWorkflow.symm)⟩

theorem touched (ha : SameButPins s t) (b b' : Bool) (hs hs' : Finset PageHandle)
    (cs cs' : Finset String) (ks ks' : Finset Component) :
    SameButPins (s.touch b hs cs ks) (t.touch b' hs' cs' ks') :=
  ha.of_sameRecords (sameRecords_touch ..) (sameRecords_touch ..)

theorem updatePages (ha : SameButPins s t) (hs : Finset PageHandle)
    {f g : PhysicalPageRecord → PhysicalPageRecord}
    (hfg : ∀ p pins, noPins (g { p with semanticPinContexts := pins }) = noPins (f p)) :
    SameButPins (s.updatePages hs f) (t.updatePages hs g) :=
  ⟨ha.record.updateAll hs hfg,ha.latestGeneration,ha.pagesOf,ha.contextEpoch,ha.contextWorkflow⟩

/-- A pin write on one side only. -/
theorem repin (ha : SameButPins s t) (hs : Finset PageHandle) (f : Finset String → Finset String) :
    SameButPins (s.repinPages hs f) t := by
  refine ⟨fun a => ?_,ha.latestGeneration,ha.pagesOf,ha.contextEpoch,ha.contextWorkflow⟩
  rw [ha.record a,repinPages,get_updatePages]
  split_ifs
  · rw [Option.map_map]
    rfl
  · rfl

theorem requirePage (ha : SameButPins s t) (hp : s.requirePage h = .ok p) :
    ∃ pins, t.requirePage h = .ok { p with semanticPinContexts := pins } := by
  obtain ⟨hpage,hlive,hgen⟩ := requirePage_eq_ok.mp hp
  obtain ⟨pins,hq⟩ := ha.record.get hpage
  exact ⟨pins,requirePage_eq_ok.mpr ⟨hq,hlive,by rw [ha.latestGeneration]; exact hgen⟩⟩

theorem requirePage_exists (ha : SameButPins s t) (hp : ∃ r, s.requirePage h = .ok r) :
    ∃ r, t.requirePage h = .ok r := by
  obtain ⟨r,hr⟩ := hp
  obtain ⟨pins,hq⟩ := ha.requirePage hr
  exact ⟨_,hq⟩

theorem parentEdge (ha : SameButPins s t) {a b : PageHandle} (hab : t.ParentEdge a b) :
    s.ParentEdge a b := by
  obtain ⟨p,hp,hpar⟩ := hab
  obtain ⟨pins,hq⟩ := ha.symm.record.get hp
  exact ⟨_,hq,hpar⟩

theorem claimPages (ha : SameButPins s t) (c : String) (e : ℤ) (hs : Finset PageHandle) :
    SameButPins (s.claimPages c e hs) (t.claimPages c e hs) := by
  refine ⟨ha.record.updateAll hs fun _ _ => rfl,ha.latestGeneration,fun a => ?_,ha.contextEpoch,
    ha.contextWorkflow⟩
  rw [pagesOf_claimPages,pagesOf_claimPages,ha.pagesOf,ha.pagesOf]

theorem disownPages (ha : SameButPins s t) (c : String) :
    SameButPins (s.disownPages c) (t.disownPages c) := by
  refine ⟨?_,ha.latestGeneration,fun a => ?_,ha.contextEpoch,ha.contextWorkflow⟩
  · change AgreeButPins (s.pages.updateAll (s.pagesOf c) _) (t.pages.updateAll (t.pagesOf c) _)
    rw [ha.pagesOf]
    exact ha.record.updateAll _ fun _ _ => rfl
  · rw [pagesOf_disownPages,pagesOf_disownPages,ha.pagesOf]

theorem advanceEpoch (ha : SameButPins s t) (c : String) (e : ℤ) :
    SameButPins (s.advanceEpoch c e) (t.advanceEpoch c e) := by
  refine ⟨?_,ha.latestGeneration,ha.pagesOf,?_,ha.contextWorkflow⟩
  · change AgreeButPins (s.pages.updateAll (s.pagesOf c) _) (t.pages.updateAll (t.pagesOf c) _)
    rw [ha.pagesOf]
    exact ha.record.updateAll _ fun _ _ => rfl
  · change t.contextEpoch.insert c e = s.contextEpoch.insert c e
    rw [ha.contextEpoch]

theorem enrollContext (ha : SameButPins s t) (c w : String) (e : ℤ) :
    SameButPins (s.enrollContext c w e) (t.enrollContext c w e) := by
  refine ⟨ha.record,ha.latestGeneration,fun a => ?_,?_,?_⟩
  · rw [pagesOf_enrollContext,pagesOf_enrollContext,ha.pagesOf]
  · change t.contextEpoch.insert c e = s.contextEpoch.insert c e
    rw [ha.contextEpoch]
  · change t.contextWorkflow.insert c w = s.contextWorkflow.insert c w
    rw [ha.contextWorkflow]

theorem attachPage (ha : SameButPins s t) (p : PhysicalPageRecord) :
    SameButPins (s.attachPage p) (t.attachPage p) := by
  refine ⟨(ha.record.insert p.handle rfl).updateAll _ fun _ _ => rfl,?_,ha.pagesOf,ha.contextEpoch,
    ha.contextWorkflow⟩
  change t.latestGeneration.insert _ _ = s.latestGeneration.insert _ _
  rw [ha.latestGeneration]

theorem relinkPage (ha : SameButPins s t) (h : PageHandle) (old new : Option PageHandle) :
    SameButPins (s.relinkPage h old new) (t.relinkPage h old new) :=
  ((ha.updatePages _ fun _ _ => rfl).updatePages _ fun _ _ => rfl).updatePages _ fun _ _ => rfl

theorem retirePage (ha : SameButPins s t) (h : PageHandle) (p : PhysicalPageRecord)
    (pins : Finset String) (b : Bool) :
    SameButPins (s.retirePage h p b) (t.retirePage h { p with semanticPinContexts := pins } b) := by
  refine ⟨?_,ha.latestGeneration,fun a => ?_,ha.contextEpoch,ha.contextWorkflow⟩
  · refine AgreeButPins.updateAll ?_ _ fun _ _ => rfl
    refine AgreeButPins.updateAll ?_ _ fun q pins => ?_
    · exact (ha.record.updateAll _ fun _ _ => rfl).updateAll _ fun _ _ => rfl
    · change noPins (if b = true ∧ (!q.live) = true then _ else _) = _
      split_ifs <;> rfl
  · rw [pagesOf_retirePage,pagesOf_retirePage,ha.pagesOf]

/-- What an effect does to one index it does to the other, up to pins. -/
theorem effect (ha : SameButPins s t) (heff : Effect d k s s') :
    ∃ t', Effect d k t t' ∧ SameButPins s' t' := by
  cases heff with
  | quiet e he =>
    exact ⟨_,.quiet e fun c => (he c).trans (ha.pagesOf c).symm,
      ha.record,ha.latestGeneration,fun _ => rfl,ha.contextEpoch,ha.contextWorkflow⟩
  | refresh => exact ⟨t,Effect.refl t,ha.of_sameRecords (sameRecords_refreshPhysical s) (.refl t)⟩
  | @patch h p hp q b cs ks hq hdead =>
    obtain ⟨pins,hr⟩ := ha.requirePage hp
    refine ⟨_,.patch hr { q with semanticPinContexts := pins } b cs ks ?_ hdead,
      ha.record.insert h rfl,ha.latestGeneration,ha.pagesOf,ha.contextEpoch,ha.contextWorkflow⟩
    exact ⟨hq.handle,hq.sizeBytes,hq.isSealed,hq.parent,hq.children,hq.ownerContexts,rfl,
      hq.refs_nonneg,hq.radixDepth,hq.core.imp_left (congrArg fun r : PhysicalPageRecord =>
        { r with semanticPinContexts := pins }),hq.not_owner,hq.not_context⟩
  | repin c f hf => exact ⟨t,Effect.refl t,(ha.repin _ f).of_sameRecords (sameRecords_touch ..) (.refl t)⟩
  | retire hp b =>
    obtain ⟨pins,hr⟩ := ha.requirePage hp
    exact ⟨_,.retire hr b,ha.retirePage _ _ pins b⟩
  | register p hnew hgen hparent hbare hrefs hdead =>
    refine ⟨_,.register p (fun hm => hnew (ha.record.mem_iff.mp hm)) (fun g hg => ?_)
      (fun q hq => ha.requirePage_exists (hparent q hq)) hbare hrefs hdead,
      (ha.attachPage p).touched ..⟩
    rw [ha.latestGeneration] at hg
    refine ⟨(hgen g hg).1,fun r hr => ?_⟩
    obtain ⟨pins,hr'⟩ := ha.symm.record.get hr
    exact (hgen g hg).2 { r with semanticPinContexts := pins } hr'
  | relink hp parent hparent =>
    obtain ⟨pins,hr⟩ := ha.requirePage hp
    refine ⟨_,.relink hr parent fun q hq => ?_,(ha.relinkPage _ _ _).touched ..⟩
    exact ⟨ha.requirePage_exists (hparent q hq).1,fun hpath =>
      (hparent q hq).2 (hpath.lift id fun _ _ => ha.parentEdge)⟩
  | bind c e hs he hlive handles hsub =>
    exact ⟨_,.bind c e hs (by rw [ha.contextEpoch]; exact he)
      (fun h hh => ha.requirePage_exists (hlive h hh)) handles hsub,(ha.claimPages c e hs).touched ..⟩
  | rebind c e hs he hsub =>
    exact ⟨_,.rebind c e hs (by rw [ha.contextEpoch]; exact he) (by rw [ha.pagesOf]; exact hsub),
      ha.claimPages c e hs⟩
  | unbind c hne ks howner hpins =>
    exact ⟨_,.unbind c (by rw [ha.pagesOf]; exact hne) (insert .semanticPin ks)
      (Finset.mem_insert_of_mem howner) (.inl (Finset.mem_insert_self _ _)),
      (ha.disownPages c).touched ..⟩
  | advance c e cur hcur hle =>
    exact ⟨_,.advance c e cur (by rw [ha.contextEpoch]; exact hcur) hle,(ha.advanceEpoch c e).touched ..⟩
  | readvance c e he =>
    exact ⟨_,.readvance c e (by rw [ha.contextEpoch]; exact he),ha.advanceEpoch c e⟩
  | enroll c w e hmono hw hk =>
    exact ⟨_,.enroll c w e (by rw [ha.contextEpoch]; exact hmono)
      (by rw [ha.contextWorkflow]; exact hw) (fun h => by rw [ha.pagesOf]; exact hk h),
      (ha.enrollContext c w e).touched ..⟩

end SameButPins

/-! ## Coherent indexes -/

/-- The self-check of a page does not look at pins. -/
theorem SameButPins.pageErrors_eq_nil {s t : PageOwnershipIndex} (ha : SameButPins s t)
    {p : PhysicalPageRecord} {pins : Finset String}
    (herr : t.pageErrors { p with semanticPinContexts := pins } = []) : s.pageErrors p = [] := by
  unfold pageErrors at herr ⊢
  simp only [ha.pagesOf] at herr
  rw [List.append_eq_nil_iff] at herr ⊢
  refine ⟨herr.1,?_⟩
  replace herr := herr.2
  by_cases hd : p.residency = .dead
  · rw [if_pos hd] at herr ⊢
    exact herr
  · rw [if_neg hd,List.append_eq_nil_iff,handleErrors_eq_nil] at herr ⊢
    refine ⟨?_,fun h hh => ?_⟩
    · replace herr := herr.1
      cases hpar : p.parent with
      | none => rfl
      | some q =>
        simp only [hpar] at herr ⊢
        cases hr : s.pages[q]? with
        | none =>
          have hq := ha.record q
          rw [hr,Option.map_none,Option.map_eq_none_iff] at hq
          simp [hq] at herr
        | some r =>
          obtain ⟨pins',hq⟩ := ha.record.get hr
          simp only [hq] at herr
          exact herr
    · obtain ⟨r,hr,hnone⟩ := herr.2 h hh
      obtain ⟨pins',hq⟩ := ha.symm.record.get hr
      exact ⟨_,hq,hnone⟩

/-- Up to its pins the index is one that meets the invariants. -/
def Coherent (s : PageOwnershipIndex) : Prop := ∃ t, SameButPins s t ∧ t.Inv ∧ t.EpochsCurrent

section Coherent
variable {s s' t : PageOwnershipIndex} {h : PageHandle} {p : PhysicalPageRecord}

theorem empty_coherent : empty.Coherent := ⟨empty,.refl empty,empty_inv,empty_epochsCurrent⟩

theorem Coherent.repin (hs : s.Coherent) (handles : Finset PageHandle)
    (f : Finset String → Finset String) : (s.repinPages handles f).Coherent := by
  obtain ⟨t,ha,hinv⟩ := hs
  exact ⟨t,ha.repin handles f,hinv⟩

theorem Coherent.base (hs : s.Coherent) : s.Base := by
  obtain ⟨t,ha,⟨⟨hh,hl,ho,hp,hw⟩,-,-⟩,-⟩ := hs
  refine ⟨fun h p hp => ?_,?_,fun h p c hp hc => ?_,fun c h hc => ?_,fun c => ?_⟩
  · obtain ⟨pins,hq⟩ := ha.record.get hp
    exact hh h { p with semanticPinContexts := pins } hq
  · rw [← ha.latestGeneration]
    exact hl.congr fun h => ha.record.mem_iff
  · obtain ⟨pins,hq⟩ := ha.record.get hp
    rw [← ha.contextEpoch]
    exact ho h { p with semanticPinContexts := pins } c hq hc
  · rw [← ha.pagesOf] at hc
    rw [← ha.contextEpoch,← ha.record.mem_iff]
    exact hp c h hc
  · rw [← ha.contextEpoch,← ha.contextWorkflow]
    exact hw c

/-- The calls of the index keep it sound. -/
theorem Coherent.apply (hs : s.Coherent) {op : Op} (hd : op.NoDead) (hk : op.KeepsEpochs s)
    (hok : op.apply s = .ok s') : s'.Coherent := by
  have heff := Op.effects hs.base op hok
  clear hok
  induction heff with
  | refl => exact hs
  | tail _ heff ih =>
    obtain ⟨t,ha,hinv,hep⟩ := ih
    obtain ⟨t',heff',ha'⟩ := ha.effect heff
    exact ⟨t',ha',heff'.inv hinv hd,heff'.epochsCurrent hinv hep hk⟩

/-- The self-check does not look at pins. -/
theorem Coherent.assertConsistent (hs : s.Coherent) : s.assertConsistent = .ok () := by
  obtain ⟨t,ha,hinv,hep⟩ := hs
  have hok := assertConsistent_eq_ok hinv hep
  unfold PageOwnershipIndex.assertConsistent at hok ⊢
  rw [raiseFirst_eq_ok,List.append_eq_nil_iff,List.flatMap_eq_nil_iff,List.flatMap_eq_nil_iff]
  constructor
  · intro c _
    have herr := contextErrors_eq_nil hinv hep c (.keyError "missing page")
    unfold contextErrors at herr ⊢
    rw [handleErrors_eq_nil] at herr ⊢
    intro h hh
    rw [← ha.pagesOf] at hh
    obtain ⟨p,hp,hnone⟩ := herr h hh
    obtain ⟨pins,hq⟩ := ha.symm.record.get hp
    rw [ha.contextEpoch] at hnone
    exact ⟨_,hq,hnone⟩
  · intro p hp
    obtain ⟨h,hh⟩ := (Dict.mem_vals s.pages p).mp hp
    obtain ⟨pins,hq⟩ := ha.record.get hh
    exact ha.pageErrors_eq_nil (PageOwnershipIndex.pageErrors_eq_nil hinv hq)

end Coherent
end BeliefKV.PageOwnershipIndex
