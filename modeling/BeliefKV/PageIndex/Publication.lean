import BeliefKV.PageIndex.Preservation

/-! What a journal entry promises about the records, entry by entry and for a whole stretch
of the journal. -/
namespace BeliefKV.PageOwnershipIndex
open Relation

/-- `q` is `p` with its patchable state replaced. -/
def PatchOf (p q : PhysicalPageRecord) : Prop := q = patchState p (pageStateReplica q)

theorem PatchOf.refl (p : PhysicalPageRecord) : PatchOf p p := rfl

theorem PatchOf.trans {p q r : PhysicalPageRecord} (h : PatchOf p q) (h' : PatchOf q r) :
    PatchOf p r := by
  unfold PatchOf at *
  rw [h',h]
  rfl

/-- The promise of one journal entry. A source entry covers one revision; the entry of a mirror
covers all revisions of the delta it applied. -/
structure Emits (s : PageOwnershipIndex) (m : PageIndexMutation) (s' : PageOwnershipIndex) :
    Prop where
  fromRevision : m.fromRevision = s.revision
  revision_lt : s.revision < m.revision
  revision_eq : s'.revision = m.revision
  journal : s'.mutationJournal = Journal.push journalBound s.mutationJournal m
  pages_frame : ∀ h ∉ m.handles, s'.pages[h]? = s.pages[h]?
  pages_grow : ∀ h ∈ s.pages, h ∈ s'.pages
  pages_new : ∀ h ∈ s'.pages, h ∉ s.pages → m.components ∩ Component.structural ≠ ∅
  pages_static : m.components ∩ Component.structural = ∅ →
    ∀ (h : PageHandle) (p q : PhysicalPageRecord), s.pages[h]? = some p → s'.pages[h]? = some q →
      PatchOf p q
  pages_core : m.components ∩ Component.physical = ∅ →
    ∀ h : PageHandle, s'.pages[h]?.map core = s.pages[h]?.map core
  contexts_frame : ∀ c, c ∉ m.contextIds ∨ m.components ∩ Component.contextual = ∅ →
    s'.pagesOf c = s.pagesOf c ∧ s'.contextEpoch[c]? = s.contextEpoch[c]? ∧
      s'.contextWorkflow[c]? = s.contextWorkflow[c]?
  contexts_grow : ∀ c ∈ s.contextEpoch, c ∈ s'.contextEpoch
  contexts_known : m.components ∩ Component.contextual ≠ ∅ → ∀ c ∈ m.contextIds, c ∈ s'.contextEpoch
  cache : SameCache s s'
  physicalStateRevision : s.physicalStateRevision < s'.physicalStateRevision ∨
    m.components ∩ Component.physical = ∅ ∧ s'.physicalStateRevision = s.physicalStateRevision

/-- The step publishes nothing. It can only fill caches and rewrite owner epochs. -/
structure Silent (s s' : PageOwnershipIndex) : Prop where
  revision : s'.revision = s.revision
  topologyRevision : s'.topologyRevision = s.topologyRevision
  journal : s'.mutationJournal = s.mutationJournal
  mem_iff : ∀ h, h ∈ s'.pages ↔ h ∈ s.pages
  contextEpoch : s'.contextEpoch = s.contextEpoch
  cacheValid : s.CacheValid → s'.CacheValid
  records : s.Owned → s.EpochsCurrent → SameRecords s s'

variable {s s' : PageOwnershipIndex} {h : PageHandle} {p : PhysicalPageRecord} {d k : Prop}

/-- A record update published by one entry. `t` is the state before the revisions move. -/
theorem Emits.of_touch {t : PageOwnershipIndex} {topology : Bool} {hs : Finset PageHandle}
    {cs : Finset String} {ks : Finset Component}
    (hrev : t.revision = s.revision) (hjournal : t.mutationJournal = s.mutationJournal)
    (hcache : SameCache s t) (hphys : t.physicalStateRevision = s.physicalStateRevision)
    (pages_frame : ∀ h ∉ hs, t.pages[h]? = s.pages[h]?)
    (pages_grow : ∀ h ∈ s.pages, h ∈ t.pages)
    (pages_new : ∀ h ∈ t.pages, h ∉ s.pages → ks ∩ Component.structural ≠ ∅)
    (pages_static : ks ∩ Component.structural = ∅ →
      ∀ (h : PageHandle) (p q : PhysicalPageRecord), s.pages[h]? = some p → t.pages[h]? = some q →
        PatchOf p q)
    (pages_core : ks ∩ Component.physical = ∅ →
      ∀ h : PageHandle, t.pages[h]?.map core = s.pages[h]?.map core)
    (contexts_frame : ∀ c, c ∉ cs ∨ ks ∩ Component.contextual = ∅ → t.pagesOf c = s.pagesOf c ∧
      t.contextEpoch[c]? = s.contextEpoch[c]? ∧ t.contextWorkflow[c]? = s.contextWorkflow[c]?)
    (contexts_grow : ∀ c ∈ s.contextEpoch, c ∈ t.contextEpoch)
    (contexts_known : ks ∩ Component.contextual ≠ ∅ → ∀ c ∈ cs, c ∈ t.contextEpoch) :
    ∃ m, Emits s m (t.touch topology hs cs ks) := by
  refine ⟨⟨t.revision,t.revision + 1,
    if topology then t.topologyRevision + 1 else t.topologyRevision,hs,cs,ks⟩,
    hrev,hrev ▸ Nat.lt_succ_self _,rfl,?_,pages_frame,pages_grow,pages_new,
    pages_static,pages_core,contexts_frame,contexts_grow,contexts_known,
    ⟨hcache.1,hcache.2,hcache.3,hcache.4,hcache.5⟩,?_⟩
  · simp only [touch,hjournal]
  · simp only [touch,hphys]
    by_cases hks : ks ∩ Component.physical = ∅
    · exact .inr ⟨hks,if_neg (not_not.mpr hks)⟩
    · exact .inl (by rw [if_pos hks]; omega)

theorem Silent.of_sameRecords (h : SameRecords s s') (hr : s'.revision = s.revision)
    (ht : s'.topologyRevision = s.topologyRevision) (hj : s'.mutationJournal = s.mutationJournal)
    (hc : s.CacheValid → s'.CacheValid) : Silent s s' :=
  ⟨hr,ht,hj,fun _ => by rw [h.pages],h.contextEpoch,hc,fun _ _ => h⟩

/-- Owner entries are no input of the accounting. -/
theorem updateOwners_core (hs : Finset PageHandle) (c : String) (e : ℤ) (h : PageHandle) :
    ((s.updatePages hs fun p => { p with
      ownerContexts := p.ownerContexts.insert c e }).pages[h]?).map core = s.pages[h]?.map core := by
  rw [get_updatePages]
  split_ifs
  · cases s.pages[h]? <;> rfl
  · rfl

/-- Entering an owner epoch that is already there changes nothing. -/
theorem updateOwners_eq (ho : s.Owned) (he : s.EpochsCurrent) {c : String} {e : ℤ}
    (hc : s.contextEpoch[c]? = some e) {hs : Finset PageHandle} (hsub : hs ⊆ s.pagesOf c) :
    s.pages.updateAll hs (fun p => { p with ownerContexts := p.ownerContexts.insert c e }) =
      s.pages := by
  apply Dict.ext_get
  intro h
  rw [Dict.get_updateAll]
  split_ifs with hh
  · cases hp : s.pages[h]? with
    | none => rfl
    | some p =>
      obtain ⟨x,hx⟩ := (Dict.mem_iff_get _ _).mp ((ho.owner_iff c h p hp).mp (hsub hh))
      have hxe : x = e := Option.some.inj ((he h p c x hp hx).symm.trans hc)
      have hsame : p.ownerContexts.insert c e = p.ownerContexts := by
        apply Dict.ext_get
        intro a
        rw [Dict.get_insert]
        split_ifs with ha
        · rw [← ha,hx,hxe]
        · rfl
      rw [Option.map_some,hsame]
  · rfl

theorem rebind_silent {c : String} {e : ℤ} {hs : Finset PageHandle}
    (hc : s.contextEpoch[c]? = some e) (hsub : hs ⊆ s.pagesOf c) : Silent s (s.claimPages c e hs) := by
  refine ⟨rfl,rfl,rfl,mem_updatePages _ _,rfl,fun hv => hv.of_sameCache ⟨rfl,rfl,rfl,rfl,rfl⟩
    (.inr ⟨rfl,updateOwners_core hs c e⟩),
    fun ho he => ⟨updateOwners_eq ho he hc hsub,rfl,?_,rfl,rfl⟩⟩
  intro a
  rw [pagesOf_claimPages]
  split_ifs with ha
  · rw [ha,Finset.union_eq_left.mpr hsub]
  · rfl

theorem readvance_silent {c : String} {e : ℤ} (hc : s.contextEpoch[c]? = some e) :
    Silent s (s.advanceEpoch c e) := by
  have hepoch : (s.advanceEpoch c e).contextEpoch = s.contextEpoch := by
    apply Dict.ext_get
    intro a
    refine (Dict.get_insert _ _ _ _).trans ?_
    split_ifs with ha
    · rw [← ha,hc]
    · rfl
  exact ⟨rfl,rfl,rfl,mem_updatePages _ _,hepoch,fun hv => hv.of_sameCache ⟨rfl,rfl,rfl,rfl,rfl⟩
    (.inr ⟨rfl,updateOwners_core (s.pagesOf c) c e⟩),fun ho he =>
    ⟨updateOwners_eq ho he hc subset_rfl,rfl,fun _ => rfl,hepoch,rfl⟩⟩

/-- In-place updates published with the handles they touch. -/
theorem Emits.of_update {hs hs' : Finset PageHandle} {f : PhysicalPageRecord → PhysicalPageRecord}
    {topology : Bool} {cs : Finset String} {ks : Finset Component} (hsub : hs ⊆ hs')
    (hstatic : ks ∩ Component.structural = ∅ → ∀ h ∈ hs, ∀ p : PhysicalPageRecord,
      s.pages[h]? = some p → PatchOf p (f p))
    (hcore : ks ∩ Component.physical = ∅ → ∀ h ∈ hs, ∀ p : PhysicalPageRecord,
      s.pages[h]? = some p → core (f p) = core p)
    (hctx : ks ∩ Component.contextual = ∅) :
    ∃ m, Emits s m ((s.updatePages hs f).touch topology hs' cs ks) := by
  refine Emits.of_touch (t := s.updatePages hs f) rfl rfl ⟨rfl,rfl,rfl,rfl,rfl⟩ rfl ?_ ?_ ?_ ?_ ?_ ?_ ?_ ?_
  · intro h hh
    rw [get_updatePages,if_neg fun hm => hh (hsub hm)]
  · exact fun h hh => (mem_updatePages _ _ _).mpr hh
  · exact fun h hh hn => absurd ((mem_updatePages _ _ _).mp hh) hn
  · intro hks h p q hp hq
    rw [get_updatePages,hp] at hq
    split_ifs at hq with hh
    · cases hq
      exact hstatic hks h hh p hp
    · cases hq
      exact PatchOf.refl p
  · intro hks h
    rw [get_updatePages]
    split_ifs with hh
    · cases hp : s.pages[h]? with
      | none => rfl
      | some p => simp [hcore hks h hh p hp]
    · rfl
  · exact fun c _ => ⟨rfl,rfl,rfl⟩
  · exact fun c hc => hc
  · exact fun hne => absurd hctx hne

theorem patch_emits (hp : s.requirePage h = .ok p) {q : PhysicalPageRecord} {t : Bool}
    {cs : Finset String} {ks : Finset Component} (hq : Patched p q t ks) :
    ∃ m, Emits s m ({ s with pages := s.pages.insert h q }.touch t {h} cs ks) := by
  have hpage := (requirePage_eq_ok.mp hp).1
  have hone {a : PageHandle} {r : PhysicalPageRecord} (ha : a ∈ ({h} : Finset PageHandle))
      (hr : s.pages[a]? = some r) : r = p := by
    rw [Finset.mem_singleton.mp ha,hpage] at hr
    exact (Option.some.inj hr).symm
  rw [← updatePages_singleton hpage fun _ => q]
  refine Emits.of_update subset_rfl (fun hks a ha r hr => ?_) (fun hks a ha r hr => ?_) ?_
  · rw [hone ha hr]
    have hdepth : q.radixDepth = p.radixDepth := hq.radixDepth.resolve_right fun htop => by
      have hmem : Component.topology ∈ ks ∩ Component.structural :=
        Finset.mem_inter.mpr ⟨htop.1,by decide⟩
      simp [hks] at hmem
    obtain ⟨h₁,h₂,h₃,h₄,h₅,h₆,h₇,-⟩ := hq
    cases q
    subst h₁ h₂ h₃ h₄ h₅ h₆ h₇ hdepth
    rfl
  · rw [hone ha hr]
    exact hq.core.resolve_right (not_not.mpr hks)
  · have h₁ := hq.not_owner
    have h₂ := hq.not_context
    ext a
    simp only [Finset.mem_inter,Component.contextual,Finset.mem_insert,Finset.mem_singleton,
      Finset.notMem_empty,iff_false,not_and,not_or]
    intro ha
    exact ⟨fun he => h₁ (he ▸ ha),fun he => h₂ (he ▸ ha)⟩

theorem retire_emits (hb : s.Base) (hp : s.requirePage h = .ok p) (b : Bool) :
    ∃ m, Emits s m (s.retirePage h p b) := by
  have hpage := (requirePage_eq_ok.mp hp).1
  refine Emits.of_touch rfl rfl ⟨rfl,rfl,rfl,rfl,rfl⟩ rfl (fun a ha => ?_) (fun a ha => ?_) (fun _ _ _ => by decide)
    (fun hks => absurd hks (by decide)) (fun hks => absurd hks (by decide)) (fun c hc => ?_)
    (fun c hc => hc) (fun _ c hc => ?_)
  · simp only [Finset.mem_union,Finset.mem_insert,Option.mem_toFinset,not_or] at ha
    simp [get_updatePages,ha]
  · simpa only [mem_updatePages] using ha
  · have hnot : c ∉ p.ownerContexts := by
      rcases hc with hc | hc
      · simpa using hc
      · exact absurd hc (by decide)
    refine ⟨?_,rfl,rfl⟩
    have := pagesOf_retirePage s c h p b
    rw [if_neg hnot] at this
    exact this
  · exact hb.owner_known h p c hpage (by simpa using hc)

theorem register_emits (p : PhysicalPageRecord) :
    ∃ m, Emits s m ((s.attachPage p).touch true (insert p.handle p.parent.toFinset) ∅
      {.topology,.residency}) := by
  refine Emits.of_touch rfl rfl ⟨rfl,rfl,rfl,rfl,rfl⟩ rfl (fun a ha => ?_) (fun a ha => ?_) (fun _ _ _ => by decide)
    (fun hks => absurd hks (by decide)) (fun hks => absurd hks (by decide)) (fun c hc => ⟨rfl,rfl,rfl⟩)
    (fun c hc => hc) (fun _ c hc => by simp at hc)
  · rw [Finset.mem_insert,not_or] at ha
    unfold attachPage
    rw [get_updatePages,if_neg ha.2]
    exact (Dict.get_insert _ _ _ _).trans (if_neg (Ne.symm ha.1))
  · exact (mem_updatePages _ _ _).mpr ((Dict.mem_insert_iff _ _ _ _).mpr (.inr ha))

theorem relink_emits (previous parent : Option PageHandle) :
    ∃ m, Emits s m ((s.relinkPage h previous parent).touch true
      (insert h (previous.toFinset ∪ parent.toFinset)) ∅ {.topology}) := by
  refine Emits.of_touch rfl rfl ⟨rfl,rfl,rfl,rfl,rfl⟩ rfl (fun a ha => ?_) (fun a ha => ?_) (fun _ _ _ => by decide)
    (fun hks => absurd hks (by decide)) (fun hks => absurd hks (by decide)) (fun c hc => ⟨rfl,rfl,rfl⟩)
    (fun c hc => hc) (fun _ c hc => by simp at hc)
  · simp only [Finset.mem_insert,Finset.mem_union,not_or] at ha
    simp [relinkPage,get_updatePages,ha]
  · simpa only [relinkPage,mem_updatePages] using ha

theorem bind_emits {c : String} {e : ℤ} {hs handles : Finset PageHandle}
    (hc : s.contextEpoch[c]? = some e) (hsub : hs ⊆ handles) :
    ∃ m, Emits s m ((s.claimPages c e hs).touch false handles {c} {.owner}) := by
  have hlook (a : PageHandle) : (s.claimPages c e hs).pages[a]? = if a ∈ hs then
      s.pages[a]?.map fun r => { r with ownerContexts := r.ownerContexts.insert c e }
      else s.pages[a]? := get_updatePages _ _ _ _
  refine Emits.of_touch rfl rfl ⟨rfl,rfl,rfl,rfl,rfl⟩ rfl (fun a ha => ?_) (fun a ha => (mem_updatePages _ _ _).mpr ha)
    (fun _ _ _ => by decide) (fun hks => absurd hks (by decide)) (fun _ a => ?_) (fun a ha => ?_)
    (fun a ha => ha) (fun _ a ha => ?_)
  · rw [hlook,if_neg fun hm => ha (hsub hm)]
  · exact updateOwners_core _ c e a
  · have hne : a ≠ c := by
      rcases ha with ha | ha
      · simpa using ha
      · exact absurd ha (by decide)
    exact ⟨by rw [pagesOf_claimPages,if_neg hne],rfl,rfl⟩
  · rw [Finset.mem_singleton.mp ha]
    exact (Dict.mem_iff_get _ _).mpr ⟨e,hc⟩

theorem unbind_emits (hb : s.Base) {c : String} (hne : s.pagesOf c ≠ ∅) {ks : Finset Component}
    (howner : .owner ∈ ks) (hpins : .semanticPin ∈ ks ∨ ∀ h ∈ s.pagesOf c,
      ∀ p : PhysicalPageRecord, s.pages[h]? = some p → c ∉ p.semanticPinContexts) :
    ∃ m, Emits s m ((s.disownPages c).touch false (s.pagesOf c) {c} ks) := by
  have hlook (a : PageHandle) : (s.disownPages c).pages[a]? = if a ∈ s.pagesOf c then
      s.pages[a]?.map fun r => { r with
        ownerContexts := r.ownerContexts.erase c
        semanticPinContexts := r.semanticPinContexts.erase c }
      else s.pages[a]? := get_updatePages _ _ _ _
  have hmem {ks' : Finset Component} {x : Component} (hx : x ∈ ks) (hx' : x ∈ ks') : ks ∩ ks' ≠ ∅ :=
    Finset.ne_empty_of_mem (Finset.mem_inter.mpr ⟨hx,hx'⟩)
  refine Emits.of_touch rfl rfl ⟨rfl,rfl,rfl,rfl,rfl⟩ rfl (fun a ha => ?_) (fun a ha => (mem_updatePages _ _ _).mpr ha)
    (fun _ _ _ => hmem howner (by decide)) (fun hks => absurd hks (hmem howner (by decide)))
    (fun hks a => ?_) (fun a ha => ?_) (fun a ha => ha) (fun _ a ha => ?_)
  · rw [hlook,if_neg ha]
  · rw [hlook]
    split_ifs with hm
    · cases hp : s.pages[a]? with
      | none => rfl
      | some p =>
        have hpin := hpins.resolve_left (fun hx => hmem hx (by decide) hks) a hm p hp
        simp [core,Finset.erase_eq_of_notMem hpin]
    · rfl
  · have hac : a ≠ c := by
      rcases ha with ha | ha
      · simpa using ha
      · exact absurd ha (hmem howner (by decide))
    exact ⟨by rw [pagesOf_disownPages,if_neg hac],rfl,rfl⟩
  · obtain ⟨x,hx⟩ := Finset.nonempty_iff_ne_empty.mpr hne
    rw [Finset.mem_singleton.mp ha]
    exact (hb.pagesOf_known c x hx).1

theorem advance_emits (c : String) (e : ℤ) :
    ∃ m, Emits s m ((s.advanceEpoch c e).touch false (s.pagesOf c) {c} {.context,.owner}) := by
  have hlook (a : PageHandle) : (s.advanceEpoch c e).pages[a]? = if a ∈ s.pagesOf c then
      s.pages[a]?.map fun r => { r with ownerContexts := r.ownerContexts.insert c e }
      else s.pages[a]? := get_updatePages _ _ _ _
  refine Emits.of_touch rfl rfl ⟨rfl,rfl,rfl,rfl,rfl⟩ rfl (fun a ha => ?_) (fun a ha => (mem_updatePages _ _ _).mpr ha)
    (fun _ _ _ => by decide) (fun hks => absurd hks (by decide)) (fun _ a => ?_) (fun a ha => ?_)
    (fun a ha => (Dict.mem_insert_iff _ _ _ _).mpr (.inr ha))
    (fun _ a ha => (Dict.mem_insert_iff _ _ _ _).mpr (.inl (Finset.mem_singleton.mp ha)))
  · rw [hlook,if_neg ha]
  · exact updateOwners_core _ c e a
  · have hne : a ≠ c := by
      rcases ha with ha | ha
      · simpa using ha
      · exact absurd ha (by decide)
    exact ⟨rfl,(Dict.get_insert _ _ _ _).trans (if_neg hne.symm),rfl⟩

theorem enroll_emits (c w : String) (e : ℤ) :
    ∃ m, Emits s m ((s.enrollContext c w e).touch false ∅ {c} {.context}) := by
  refine Emits.of_touch rfl rfl ⟨rfl,rfl,rfl,rfl,rfl⟩ rfl (fun a ha => rfl) (fun a ha => ha) (fun _ hm hn => absurd hm hn)
    (fun hks a p q hp hq => ?_) (fun _ a => rfl) (fun a ha => ?_)
    (fun a ha => (Dict.mem_insert_iff _ _ _ _).mpr (.inr ha))
    (fun _ a ha => (Dict.mem_insert_iff _ _ _ _).mpr (.inl (Finset.mem_singleton.mp ha)))
  · cases hp.symm.trans hq
    exact PatchOf.refl p
  · have hne : a ≠ c := by
      rcases ha with ha | ha
      · simpa using ha
      · exact absurd ha (by decide)
    exact ⟨pagesOf_enrollContext _ _ _ _ _,(Dict.get_insert _ _ _ _).trans (if_neg hne.symm),
      (Dict.get_insert _ _ _ _).trans (if_neg hne.symm)⟩

/-- Every effect is silent or published by one journal entry. -/
theorem Effect.publishes (hb : s.Base) (heff : Effect d k s s') :
    Silent s s' ∨ ∃ m, Emits s m s' := by
  cases heff with
  | quiet e he =>
    exact .inl (.of_sameRecords (sameRecords_quiet he) rfl rfl rfl fun hv =>
      hv.of_sameCache ⟨rfl,rfl,rfl,rfl,rfl⟩ (.inr ⟨rfl,fun _ => rfl⟩))
  | refresh =>
    refine .inl (.of_sameRecords (sameRecords_refreshPhysical s) ?_ ?_ ?_ CacheValid.refreshPhysical)
    all_goals
      unfold refreshPhysical
      split_ifs <;> rfl
  | patch hp q t cs ks hq => exact .inr (patch_emits hp hq)
  | repin c f hf =>
    right
    exact Emits.of_update subset_rfl (fun _ _ _ _ _ => rfl) (fun hks => absurd hks (by decide))
      (by decide)
  | retire hp b => exact .inr (retire_emits hb hp b)
  | register p => exact .inr (register_emits p)
  | relink hp parent => exact .inr (relink_emits _ parent)
  | bind c e hs hc _ handles hsub => exact .inr (bind_emits hc hsub)
  | rebind c e hs hc hsub => exact .inl (rebind_silent hc hsub)
  | unbind c hne ks howner hpins => exact .inr (unbind_emits hb hne howner hpins)
  | advance c e => exact .inr (advance_emits c e)
  | readvance c e hc => exact .inl (readvance_silent hc)
  | enroll c w e => exact .inr (enroll_emits c w e)

theorem Emits.cacheValid {m : PageIndexMutation} (hm : Emits s m s') (hv : s.CacheValid) :
    s'.CacheValid := by
  refine hv.of_sameCache hm.cache ?_
  rcases hm.physicalStateRevision with hlt | ⟨hk,heq⟩
  · exact .inl hlt
  · exact .inr ⟨heq,hm.pages_core hk⟩

theorem Effect.cacheValid (hb : s.Base) (heff : Effect d k s s') (hv : s.CacheValid) :
    s'.CacheValid := by
  rcases heff.publishes hb with hsil | ⟨m,hm⟩
  · exact hsil.cacheValid hv
  · exact hm.cacheValid hv

/-! ## Stretches of the journal -/

/-- Steps between two states with the entries they published, oldest first. `still` says
what a step may do that publishes nothing. -/
inductive Evolves (still : PageOwnershipIndex → PageOwnershipIndex → Prop)
    (s : PageOwnershipIndex) : List PageIndexMutation → PageOwnershipIndex → Prop
  | refl : Evolves still s [] s
  | still {t u : PageOwnershipIndex} {ms : List PageIndexMutation} (h : Evolves still s ms t)
      (hs : still t u) : Evolves still s ms u
  | emit {t u : PageOwnershipIndex} {ms : List PageIndexMutation} {m : PageIndexMutation}
      (h : Evolves still s ms t) (hm : Emits t m u) : Evolves still s (ms ++ [m]) u

namespace Evolves
variable {still : PageOwnershipIndex → PageOwnershipIndex → Prop} {ms : List PageIndexMutation}

theorem chain (h : Evolves still s ms s') (hstill : ∀ t u, still t u → Silent t u) :
    Journal.Chain PageIndexMutation.fromRevision PageIndexMutation.revision s.revision ms
      s'.revision := by
  induction h with
  | refl => exact .nil _
  | still _ hs ih => rwa [(hstill _ _ hs).revision]
  | emit _ hm ih =>
    refine ih.append (.cons hm.fromRevision hm.revision_lt ?_)
    rw [hm.revision_eq]
    exact .nil _

theorem journal (h : Evolves still s ms s') (hstill : ∀ t u, still t u → Silent t u) :
    s'.mutationJournal = Journal.pushAll journalBound s.mutationJournal ms := by
  induction h with
  | refl => rfl
  | still _ hs ih => rwa [(hstill _ _ hs).journal]
  | emit _ hm ih => rw [hm.journal,ih,Journal.pushAll_concat]

theorem pages_grow (h : Evolves still s ms s') (hstill : ∀ t u, still t u → Silent t u) :
    ∀ a ∈ s.pages, a ∈ s'.pages := by
  induction h with
  | refl => exact fun _ => id
  | still _ hs ih => exact fun a ha => ((hstill _ _ hs).mem_iff a).mpr (ih a ha)
  | emit _ hm ih => exact fun a ha => hm.pages_grow a (ih a ha)

theorem contexts_grow (h : Evolves still s ms s') (hstill : ∀ t u, still t u → Silent t u) :
    ∀ c ∈ s.contextEpoch, c ∈ s'.contextEpoch := by
  induction h with
  | refl => exact fun _ => id
  | still _ hs ih => exact fun c hc => (hstill _ _ hs).contextEpoch ▸ ih c hc
  | emit _ hm ih => exact fun c hc => hm.contexts_grow c (ih c hc)

/-- The handles of the entries that replicas read as whole records. -/
def structuralHandles (ms : List PageIndexMutation) : Finset PageHandle :=
  Journal.collect PageIndexMutation.handles
    (ms.filter fun m => m.components ∩ Component.structural ≠ ∅)

/-- The contexts of the entries that replicas read as context records. -/
def contextualIds (ms : List PageIndexMutation) : Finset String :=
  Journal.collect PageIndexMutation.contextIds
    (ms.filter fun m => m.components ∩ Component.contextual ≠ ∅)

theorem mem_structuralHandles {a : PageHandle} : a ∈ structuralHandles ms ↔
    ∃ m ∈ ms, m.components ∩ Component.structural ≠ ∅ ∧ a ∈ m.handles := by
  simp [structuralHandles,and_assoc]

theorem mem_contextualIds {c : String} : c ∈ contextualIds ms ↔
    ∃ m ∈ ms, m.components ∩ Component.contextual ≠ ∅ ∧ c ∈ m.contextIds := by
  simp [contextualIds,and_assoc]

/-- A page that is new is listed by an entry that ships whole records. -/
theorem pages_new (h : Evolves still s ms s') (hstill : ∀ t u, still t u → Silent t u)
    {a : PageHandle} (ha : a ∈ s'.pages) (hn : a ∉ s.pages) : a ∈ structuralHandles ms := by
  induction h with
  | refl => exact absurd ha hn
  | still _ hs ih => exact ih (((hstill _ _ hs).mem_iff a).mp ha)
  | @emit t u ms m _ hm ih =>
    rw [mem_structuralHandles]
    by_cases hat : a ∈ t.pages
    · obtain ⟨m',hm',hx⟩ := mem_structuralHandles.mp (ih hat)
      exact ⟨m',by simp [hm'],hx⟩
    · refine ⟨m,by simp,hm.pages_new a ha hat,?_⟩
      by_contra hnot
      rw [Dict.mem_iff_get,hm.pages_frame a hnot,← Dict.mem_iff_get] at ha
      exact hat ha

theorem contexts_known (h : Evolves still s ms s') (hstill : ∀ t u, still t u → Silent t u) :
    ∀ c ∈ contextualIds ms, c ∈ s'.contextEpoch := by
  induction h with
  | refl => simp [contextualIds,Journal.collect]
  | still _ hs ih => exact fun c hc => (hstill _ _ hs).contextEpoch ▸ ih c hc
  | @emit t u ms m _ hm ih =>
    intro c hc
    obtain ⟨m',hm',hk,hc'⟩ := mem_contextualIds.mp hc
    rcases List.mem_append.mp hm' with hin | hin
    · exact hm.contexts_grow c (ih c (mem_contextualIds.mpr ⟨m',hin,hk,hc'⟩))
    · obtain rfl := List.mem_singleton.mp hin
      exact hm.contexts_known hk c hc'

theorem trans {t u : PageOwnershipIndex} {ms' : List PageIndexMutation} (h : Evolves still s ms t)
    (h' : Evolves still t ms' u) : Evolves still s (ms ++ ms') u := by
  induction h' with
  | refl => rwa [List.append_nil]
  | still _ hs ih => exact .still ih hs
  | emit _ hm ih =>
    rw [← List.append_assoc]
    exact .emit ih hm

section Frames
variable (hev : Evolves still s ms s') (hstill : ∀ t u, still t u → SameRecords t u)
include hev hstill

/-- A page no entry lists is unchanged. -/
theorem pages_frame {a : PageHandle} (ha : ∀ m ∈ ms, a ∉ m.handles) :
    s'.pages[a]? = s.pages[a]? := by
  induction hev with
  | refl => rfl
  | still _ hs ih => rw [(hstill _ _ hs).pages,ih ha]
  | emit _ hm ih => rw [hm.pages_frame a (ha _ (by simp)),ih fun m hm' => ha m (by simp [hm'])]

/-- A page listed only by entries without structural tags changed in its patchable state only. -/
theorem pages_static {a : PageHandle} (ha : a ∉ structuralHandles ms) {p q : PhysicalPageRecord}
    (hp : s.pages[a]? = some p) (hq : s'.pages[a]? = some q) : PatchOf p q := by
  induction hev generalizing q with
  | refl =>
    cases hp.symm.trans hq
    exact .refl p
  | still _ hs ih => exact ih ha ((hstill _ _ hs).pages ▸ hq)
  | @emit t u ms m h' hm ih =>
    have ha' : a ∉ structuralHandles ms := by
      intro hx
      obtain ⟨m',hm',hx'⟩ := mem_structuralHandles.mp hx
      exact ha (mem_structuralHandles.mpr ⟨m',by simp [hm'],hx'⟩)
    by_cases hin : a ∈ m.handles
    · have hk : m.components ∩ Component.structural = ∅ := by
        by_contra hk
        exact ha (mem_structuralHandles.mpr ⟨m,by simp,hk,hin⟩)
      have hmem : a ∈ t.pages := by
        by_contra hn
        exact hm.pages_new a ((Dict.mem_iff_get _ _).mpr ⟨q,hq⟩) hn hk
      obtain ⟨r,hr⟩ := (Dict.mem_iff_get _ _).mp hmem
      exact (ih ha' hr).trans (hm.pages_static hk a r q hr hq)
    · rw [hm.pages_frame a hin] at hq
      exact ih ha' hq

theorem contexts_frame {c : String} (hc : c ∉ contextualIds ms) :
    s'.pagesOf c = s.pagesOf c ∧ s'.contextEpoch[c]? = s.contextEpoch[c]? ∧
      s'.contextWorkflow[c]? = s.contextWorkflow[c]? := by
  induction hev with
  | refl => exact ⟨rfl,rfl,rfl⟩
  | still _ hs ih =>
    rw [(hstill _ _ hs).pagesOf,(hstill _ _ hs).contextEpoch,(hstill _ _ hs).contextWorkflow]
    exact ih hc
  | @emit t u ms m _ hm ih =>
    have hc' : c ∉ contextualIds ms := by
      intro hx
      obtain ⟨m',hm',hx'⟩ := mem_contextualIds.mp hx
      exact hc (mem_contextualIds.mpr ⟨m',by simp [hm'],hx'⟩)
    have hnot : c ∉ m.contextIds ∨ m.components ∩ Component.contextual = ∅ := by
      by_contra hx
      rw [not_or,not_not] at hx
      exact hc (mem_contextualIds.mpr ⟨m,by simp,hx.2,hx.1⟩)
    obtain ⟨h₁,h₂,h₃⟩ := hm.contexts_frame c hnot
    obtain ⟨h₄,h₅,h₆⟩ := ih hc'
    exact ⟨h₁.trans h₄,h₂.trans h₅,h₃.trans h₆⟩

/-- Without a physical tag the accounting inputs are unchanged. -/
theorem pages_core (hk : ∀ m ∈ ms, m.components ∩ Component.physical = ∅) (a : PageHandle) :
    s'.pages[a]?.map core = s.pages[a]?.map core := by
  induction hev with
  | refl => rfl
  | still _ hs ih => rw [(hstill _ _ hs).pages,ih hk]
  | emit _ hm ih =>
    rw [hm.pages_core (hk _ (by simp)) a,ih fun m hm' => hk m (by simp [hm'])]

end Frames
end Evolves

/-- Every call, whatever it asks for, is a stretch of the journal and keeps the weak invariant. -/
theorem step_evolves (hb : s.Base) (op : Op) :
    (∃ ms, Evolves Silent s ms (s.step op)) ∧ (s.step op).Base := by
  unfold step
  cases hok : op.apply s with
  | error e => exact ⟨⟨[],.refl⟩,hb⟩
  | ok s' =>
    have heff := Op.effects hb op hok
    clear hok
    dsimp only
    induction heff with
    | refl => exact ⟨⟨[],.refl⟩,hb⟩
    | tail _ heff ih =>
      obtain ⟨⟨ms,hev⟩,hb'⟩ := ih
      refine ⟨?_,heff.base hb'⟩
      rcases heff.publishes hb' with hsil | ⟨m,hm⟩
      · exact ⟨ms,.still hev hsil⟩
      · exact ⟨ms ++ [m],.emit hev hm⟩

end BeliefKV.PageOwnershipIndex
