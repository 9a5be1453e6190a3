import BeliefKV.PageIndex.Effect

/-! Every effect keeps the invariants of the index. -/
namespace BeliefKV.PageOwnershipIndex
open Forest Relation

variable {s s' : PageOwnershipIndex} {h : PageHandle} {p : PhysicalPageRecord} {d k : Prop}

/-! ## Lookups after the record updates -/

section Lookups
variable (s : PageOwnershipIndex) (c a w : String) (e : ℤ) (hs : Finset PageHandle)

@[grind =] theorem pagesOf_claimPages : (s.claimPages c e hs).pagesOf a =
    if a = c then s.pagesOf c ∪ hs else s.pagesOf a := getD_insert _ _ _ _

@[grind =] theorem pagesOf_disownPages : (s.disownPages c).pagesOf a =
    if a = c then ∅ else s.pagesOf a := getD_insert _ _ _ _

@[simp, grind =] theorem pagesOf_enrollContext :
    (s.enrollContext c w e).pagesOf a = s.pagesOf a := by
  refine (getD_insert _ _ _ _).trans ?_
  split_ifs with h
  · rw [h]
  · rfl

@[grind =] theorem pagesOf_retirePage (h : PageHandle) (p : PhysicalPageRecord) (b : Bool) :
    (s.retirePage h p b).pagesOf a =
      if a ∈ p.ownerContexts then (s.pagesOf a).erase h else s.pagesOf a := by
  change (s.contextPages.updateAll p.ownerContexts.keySet (·.erase h))[a]?.getD ∅ = _
  unfold pagesOf
  simp only [Dict.get_updateAll,Dict.mem_keySet]
  split_ifs <;> cases s.contextPages[a]? <;> simp

end Lookups

theorem mem_updatePages (hs : Finset PageHandle) (f : PhysicalPageRecord → PhysicalPageRecord)
    (h : PageHandle) : h ∈ (s.updatePages hs f).pages ↔ h ∈ s.pages :=
  Dict.mem_updateAll _ _ _ _

theorem sameRecords_quiet {e : Dict String (Finset PageHandle)}
    (he : ∀ c : String, e[c]?.getD ∅ = s.pagesOf c) : SameRecords s { s with contextPages := e } :=
  ⟨rfl,rfl,he,rfl,rfl⟩

theorem sameRecords_refreshPhysical (s : PageOwnershipIndex) : SameRecords s s.refreshPhysical := by
  unfold refreshPhysical
  split_ifs
  · exact .refl s
  · exact ⟨rfl,rfl,fun _ => rfl,rfl,rfl⟩

/-! ## The weak invariant -/

theorem Base.updatePages (hb : s.Base) {hs : Finset PageHandle}
    {f : PhysicalPageRecord → PhysicalPageRecord}
    (hf : ∀ h ∈ hs, ∀ p : PhysicalPageRecord, s.pages[h]? = some p →
      (f p).handle = p.handle ∧ ∀ c ∈ (f p).ownerContexts, c ∈ p.ownerContexts ∨ c ∈ s.contextEpoch) :
    (s.updatePages hs f).Base := by
  obtain ⟨h₁,h₂,h₃,h₄,h₅⟩ := hb
  constructor
  · intro h p hp
    simp only [PageOwnershipIndex.updatePages] at hp
    grind
  · exact h₂.congr fun k => (mem_updatePages hs f k).symm
  · intro h p c hp
    simp only [PageOwnershipIndex.updatePages] at hp ⊢
    grind
  · intro c h hh
    exact ⟨(h₄ c h hh).1,(mem_updatePages hs f h).mpr (h₄ c h hh).2⟩
  · exact h₅

/-- Replace the page sets of the contexts. -/
theorem Base.contextPages (hb : s.Base) {e : Dict String (Finset PageHandle)}
    (he : ∀ c : String, ∀ h ∈ e[c]?.getD ∅, c ∈ s.contextEpoch ∧ h ∈ s.pages) :
    Base { s with contextPages := e } := ⟨hb.1,hb.2,hb.3,he,hb.5⟩

theorem Base.insertEpoch (hb : s.Base) {c : String} (hc : c ∈ s.contextEpoch) (e : ℤ) :
    Base { s with contextEpoch := s.contextEpoch.insert c e } := by
  have hmem (a : String) : a ∈ s.contextEpoch.insert c e ↔ a ∈ s.contextEpoch := by
    rw [Dict.mem_insert_iff]
    exact or_iff_right_of_imp fun ha => ha ▸ hc
  obtain ⟨h₁,h₂,h₃,h₄,h₅⟩ := hb
  constructor <;> simp only [hmem] <;> assumption

theorem Base.attachPage (hb : s.Base)
    (hgen : ∀ g, s.latestGeneration[p.handle.pageId]? = some g → g < p.handle.allocationGeneration)
    (howners : p.ownerContexts = ∅) : (s.attachPage p).Base := by
  have hmem (a : PageHandle) : a ∈ s.pages.insert p.handle p ↔ a ∈ s.pages ∨ a = p.handle :=
    (Dict.mem_insert_iff _ _ _ _).trans or_comm
  have hobs : s.latestGeneration.insert p.handle.pageId p.handle.allocationGeneration =
      observeGeneration s.latestGeneration p.handle := by
    unfold observeGeneration
    cases hg : s.latestGeneration[p.handle.pageId]? with
    | none => simp
    | some g => rw [Option.getD_some,max_eq_left (hgen g hg).le]
  have hins : Base { s with
      pages := s.pages.insert p.handle p
      latestGeneration := s.latestGeneration.insert p.handle.pageId
        p.handle.allocationGeneration } := by
    constructor
    · intro h q hq
      have := hb.handle_eq h q
      grind
    · rw [hobs]
      exact (hb.latest.observe p.handle).congr fun a => (hmem a).symm
    · intro h q c hq hc
      have := hb.owner_known h q c
      grind
    · intro c h hh
      have := hb.pagesOf_known c h hh
      exact ⟨this.1,(hmem h).mpr (.inl this.2)⟩
    · exact hb.workflow_known
  exact hins.updatePages (fun _ _ _ _ => ⟨rfl,fun _ hc => .inl hc⟩)

theorem Base.enrollContext (hb : s.Base) (c w : String) (e : ℤ) : (s.enrollContext c w e).Base := by
  have hmem (a : String) := Dict.mem_insert_iff s.contextEpoch c a e
  have hmem' (a : String) := Dict.mem_insert_iff s.contextWorkflow c a w
  obtain ⟨h₁,h₂,h₃,h₄,h₅⟩ := hb
  constructor
  · exact h₁
  · exact h₂
  · intro h p a hp ha
    exact (hmem a).mpr (.inr (h₃ h p a hp ha))
  · intro a h ha
    rw [pagesOf_enrollContext] at ha
    exact ⟨(hmem a).mpr (.inr (h₄ a h ha).1),(h₄ a h ha).2⟩
  · intro a
    exact ((hmem a).trans (or_congr_right (h₅ a))).trans (hmem' a).symm

theorem Base.claimPages (hb : s.Base) {c : String} (hc : c ∈ s.contextEpoch) (e : ℤ)
    {hs : Finset PageHandle} (hsub : ∀ h ∈ hs, h ∈ s.pages) : (s.claimPages c e hs).Base := by
  have hu : (s.updatePages hs fun p => { p with
      ownerContexts := p.ownerContexts.insert c e }).Base := by
    refine hb.updatePages (fun _ _ p _ => ⟨rfl,fun a ha => ?_⟩)
    rcases (Dict.mem_insert_iff _ _ _ _).mp ha with rfl | ha
    · exact .inr hc
    · exact .inl ha
  apply hu.contextPages
  intro a h hh
  change h ∈ (s.claimPages c e hs).pagesOf a at hh
  rw [mem_updatePages,updatePages_contextEpoch]
  have hold := hb.pagesOf_known
  grind

theorem Base.disownPages (hb : s.Base) (c : String) : (s.disownPages c).Base := by
  have hu : (s.updatePages (s.pagesOf c) fun p => { p with
      ownerContexts := p.ownerContexts.erase c
      semanticPinContexts := p.semanticPinContexts.erase c }).Base := by
    exact hb.updatePages (fun _ _ p _ =>
      ⟨rfl,fun a ha => .inl (Std.ExtTreeMap.mem_of_mem_erase ha)⟩)
  apply hu.contextPages
  intro a h hh
  change h ∈ (s.disownPages c).pagesOf a at hh
  rw [mem_updatePages,updatePages_contextEpoch]
  have hold := hb.pagesOf_known
  grind

theorem Base.advanceEpoch (hb : s.Base) {c : String} (hc : c ∈ s.contextEpoch) (e : ℤ) :
    (s.advanceEpoch c e).Base := by
  have hu : (s.updatePages (s.pagesOf c) fun p => { p with
      ownerContexts := p.ownerContexts.insert c e }).Base := by
    refine hb.updatePages (fun _ _ p _ => ⟨rfl,fun a ha => ?_⟩)
    rcases (Dict.mem_insert_iff _ _ _ _).mp ha with rfl | ha
    · exact .inr hc
    · exact .inl ha
  exact hu.insertEpoch hc e

theorem Base.retirePage (hb : s.Base) (h : PageHandle) (p : PhysicalPageRecord) (b : Bool) :
    (s.retirePage h p b).Base := by
  have hf : Base { s with
      contextPages := s.contextPages.updateAll p.ownerContexts.keySet (·.erase h) } := by
    apply hb.contextPages
    intro a q hq
    change q ∈ (s.retirePage h p b).pagesOf a at hq
    have hold := hb.pagesOf_known a q
    grind
  refine (sameRecords_touch _ _ _ _ _).base ?_
  refine Base.updatePages ?_ (fun _ _ _ _ => ⟨rfl,fun _ hc => .inl hc⟩)
  refine Base.updatePages ?_ (fun _ _ _ _ => by split_ifs <;> exact ⟨rfl,fun _ hc => .inl hc⟩)
  refine Base.updatePages ?_ (fun _ _ _ _ => ⟨rfl,fun _ hc => .inl hc⟩)
  exact hf.updatePages (fun _ _ _ _ => ⟨rfl,fun _ hc => by simp at hc⟩)

/-- Every effect keeps the weak invariant, whatever its caller promises. -/
theorem Effect.base (hb : s.Base) (heff : Effect d k s s') : s'.Base := by
  have hlive {q : PageHandle} (hq : ∃ r, s.requirePage q = .ok r) : q ∈ s.pages := by
    obtain ⟨r,hr⟩ := hq
    exact (Dict.mem_iff_get _ _).mpr ⟨r,(requirePage_eq_ok.mp hr).1⟩
  cases heff with
  | quiet e he => exact (sameRecords_quiet he).base hb
  | refresh => exact (sameRecords_refreshPhysical s).base hb
  | @patch h p hp q t cs ks hq hdead =>
    have hpage := (requirePage_eq_ok.mp hp).1
    apply (sameRecords_touch _ _ _ _ _).base
    rw [← updatePages_singleton hpage fun _ => q]
    refine hb.updatePages (fun a ha r hr => ?_)
    rw [Finset.mem_singleton.mp ha,hpage] at hr
    cases hr
    exact ⟨hq.handle,fun c hc => .inl (hq.ownerContexts ▸ hc)⟩
  | repin c f hf =>
    apply (sameRecords_touch _ _ _ _ _).base
    exact hb.updatePages (fun _ _ _ _ => ⟨rfl,fun _ hc => .inl hc⟩)
  | retire hp b => exact hb.retirePage _ _ b
  | register p hnew hgen _ hbare =>
    apply (sameRecords_touch _ _ _ _ _).base
    exact hb.attachPage (fun g hg => (hgen g hg).1) hbare.2.1
  | relink hp parent hparent =>
    apply (sameRecords_touch _ _ _ _ _).base
    refine Base.updatePages ?_ (fun _ _ _ _ => ⟨rfl,fun _ hc => .inl hc⟩)
    refine Base.updatePages ?_ (fun _ _ _ _ => ⟨rfl,fun _ hc => .inl hc⟩)
    exact hb.updatePages (fun _ _ _ _ => ⟨rfl,fun _ hc => .inl hc⟩)
  | bind c e hs he hl =>
    apply (sameRecords_touch _ _ _ _ _).base
    exact hb.claimPages ((Dict.mem_iff_get _ _).mpr ⟨e,he⟩) e fun h hh => hlive (hl h hh)
  | rebind c e hs he hsub =>
    exact hb.claimPages ((Dict.mem_iff_get _ _).mpr ⟨e,he⟩) e
      fun h hh => (hb.pagesOf_known c h (hsub hh)).2
  | unbind c =>
    apply (sameRecords_touch _ _ _ _ _).base
    exact hb.disownPages c
  | advance c e cur hcur =>
    apply (sameRecords_touch _ _ _ _ _).base
    exact hb.advanceEpoch ((Dict.mem_iff_get _ _).mpr ⟨cur,hcur⟩) e
  | readvance c e he => exact hb.advanceEpoch ((Dict.mem_iff_get _ _).mpr ⟨e,he⟩) e
  | enroll c w e =>
    apply (sameRecords_touch _ _ _ _ _).base
    exact hb.enrollContext c w e

/-! ## Edges -/

/-- Two indexes hold the same handles, with the same edges and the same dead pages. -/
structure SameShape (s t : PageOwnershipIndex) : Prop where
  latestGeneration : t.latestGeneration = s.latestGeneration
  mem_iff : ∀ h, h ∈ t.pages ↔ h ∈ s.pages
  shape : ∀ (h : PageHandle) (p q : PhysicalPageRecord), s.pages[h]? = some p → t.pages[h]? = some q →
    q.parent = p.parent ∧ q.children = p.children ∧ (q.residency = .dead ↔ p.residency = .dead)

theorem SameShape.old {t : PageOwnershipIndex} (hsh : SameShape s t) {q : PhysicalPageRecord}
    (hq : t.pages[h]? = some q) : ∃ p : PhysicalPageRecord, s.pages[h]? = some p ∧
      q.parent = p.parent ∧ q.children = p.children ∧ (q.residency = .dead ↔ p.residency = .dead) := by
  obtain ⟨p,hp⟩ := (Dict.mem_iff_get _ _).mp
    ((hsh.mem_iff h).mp ((Dict.mem_iff_get _ _).mpr ⟨q,hq⟩))
  exact ⟨p,hp,hsh.shape h p q hp hq⟩

theorem SameShape.new {t : PageOwnershipIndex} (hsh : SameShape s t) (hp : s.pages[h]? = some p) :
    ∃ q : PhysicalPageRecord, t.pages[h]? = some q ∧
      q.parent = p.parent ∧ q.children = p.children ∧ (q.residency = .dead ↔ p.residency = .dead) := by
  obtain ⟨q,hq⟩ := (Dict.mem_iff_get _ _).mp
    ((hsh.mem_iff h).mpr ((Dict.mem_iff_get _ _).mpr ⟨p,hp⟩))
  exact ⟨q,hq,hsh.shape h p q hp hq⟩

theorem Linked.of_sameShape {t : PageOwnershipIndex} (hl : s.Linked) (hsh : SameShape s t) :
    t.Linked := by
  have hedge (a b : PageHandle) (hab : t.ParentEdge a b) : s.ParentEdge a b := by
    obtain ⟨q,hq,hb⟩ := hab
    obtain ⟨p,hp,hpar,-,-⟩ := hsh.old hq
    exact ⟨p,hp,hpar ▸ hb⟩
  constructor
  · intro a q hq hd
    obtain ⟨p,hp,-,hch,hdead⟩ := hsh.old hq
    rw [hch]
    exact hl.dead_leaf a p hp (hdead.mp hd)
  · intro a q b hq hd hb
    obtain ⟨p,hp,hpar,-,hdead⟩ := hsh.old hq
    obtain ⟨r,hr,hlive,hmem⟩ := hl.parent_live a p b hp (mt hdead.mpr hd) (hpar ▸ hb)
    obtain ⟨r',hr',-,hch,hdead'⟩ := hsh.new hr
    exact ⟨r',hr',mt hdead'.mp hlive,hch ▸ hmem⟩
  · intro a q c hq hc
    obtain ⟨p,hp,-,hch,-⟩ := hsh.old hq
    obtain ⟨r,hr,hlive,hpar⟩ := hl.child_live a p c hp (hch ▸ hc)
    obtain ⟨r',hr',hpar',-,hdead'⟩ := hsh.new hr
    exact ⟨r',hr',mt hdead'.mp hlive,hpar' ▸ hpar⟩
  · intro a b hab
    exact (hsh.mem_iff b).mpr (hl.parent_known a b (hedge a b hab))
  · exact hl.acyclic.mono hedge
  · intro a q hq hd
    obtain ⟨p,hp,-,-,hdead⟩ := hsh.old hq
    rw [hsh.latestGeneration]
    exact hl.live_latest a p hp (mt hdead.mpr hd)

/-- An in-place update that leaves edges and residencies alone keeps the shape. -/
theorem sameShape_updatePages {hs : Finset PageHandle} {f : PhysicalPageRecord → PhysicalPageRecord}
    (hf : ∀ h ∈ hs, ∀ p : PhysicalPageRecord, s.pages[h]? = some p → (f p).parent = p.parent ∧
      (f p).children = p.children ∧ ((f p).residency = .dead ↔ p.residency = .dead)) :
    SameShape s (s.updatePages hs f) := by
  refine ⟨rfl,mem_updatePages hs f,fun h p q hp hq => ?_⟩
  rw [get_updatePages,hp] at hq
  split_ifs at hq with hh
  · cases hq
    exact hf h hh p hp
  · cases hq
    exact ⟨rfl,rfl,Iff.rfl⟩

theorem sameShape_claimPages (c : String) (e : ℤ) (hs : Finset PageHandle) :
    SameShape s (s.claimPages c e hs) := by
  have hsh : SameShape s (s.updatePages hs fun p => { p with
      ownerContexts := p.ownerContexts.insert c e }) :=
    sameShape_updatePages fun _ _ _ _ => ⟨rfl,rfl,Iff.rfl⟩
  exact ⟨hsh.1,hsh.2,hsh.3⟩

theorem sameShape_disownPages (c : String) : SameShape s (s.disownPages c) := by
  have hsh : SameShape s (s.updatePages (s.pagesOf c) fun p => { p with
      ownerContexts := p.ownerContexts.erase c
      semanticPinContexts := p.semanticPinContexts.erase c }) :=
    sameShape_updatePages fun _ _ _ _ => ⟨rfl,rfl,Iff.rfl⟩
  exact ⟨hsh.1,hsh.2,hsh.3⟩

theorem sameShape_advanceEpoch (c : String) (e : ℤ) : SameShape s (s.advanceEpoch c e) := by
  have hsh : SameShape s (s.updatePages (s.pagesOf c) fun p => { p with
      ownerContexts := p.ownerContexts.insert c e }) :=
    sameShape_updatePages fun _ _ _ _ => ⟨rfl,rfl,Iff.rfl⟩
  exact ⟨hsh.1,hsh.2,hsh.3⟩

theorem Linked.attachPage (hl : s.Linked) (hnew : p.handle ∉ s.pages)
    (hgen : ∀ g, s.latestGeneration[p.handle.pageId]? = some g → g < p.handle.allocationGeneration ∧
      ∀ r : PhysicalPageRecord, s.pages[(⟨p.handle.pageId,g⟩ : PageHandle)]? = some r →
        r.residency = .dead)
    (hparent : ∀ q, p.parent = some q → ∃ r, s.requirePage q = .ok r)
    (hch : p.children = ∅) (hdead : p.residency ≠ .dead) : (s.attachPage p).Linked := by
  have hnone : s.pages[p.handle]? = none := (Dict.notMem_iff_get _ _).mp hnew
  have hself : p.parent ≠ some p.handle := by
    intro hp
    obtain ⟨r,hr⟩ := hparent _ hp
    rw [(requirePage_eq_ok.mp hr).1] at hnone
    cases hnone
  have hlook (a : PageHandle) : (s.attachPage p).pages[a]? =
      if a = p.handle then some p
      else if p.parent = some a then
        s.pages[a]?.map fun r => { r with children := insert p.handle r.children }
      else s.pages[a]? := by
    simp only [PageOwnershipIndex.attachPage,get_updatePages,Option.mem_toFinset,Option.mem_def,
      Dict.get_insert]
    grind
  have hgen' (i : ℕ) : (s.attachPage p).latestGeneration[i]? =
      if p.handle.pageId = i then some p.handle.allocationGeneration else s.latestGeneration[i]? :=
    Dict.get_insert _ _ _ _
  have hrequire (q : PageHandle) (hq : p.parent = some q) : ∃ r : PhysicalPageRecord,
      s.pages[q]? = some r ∧ r.residency ≠ .dead := by
    obtain ⟨r,hr⟩ := hparent q hq
    exact ⟨r,(requirePage_eq_ok.mp hr).1,(requirePage_eq_ok.mp hr).2.1⟩
  have hedge (a b : PageHandle) (hab : (s.attachPage p).ParentEdge a b) :
      s.ParentEdge a b ∨ (a = p.handle ∧ p.parent = some b) := by
    obtain ⟨r,hr,hb⟩ := hab
    rw [hlook] at hr
    unfold ParentEdge
    grind
  have hmem (a : PageHandle) (ha : a ∈ s.pages) : a ∈ (s.attachPage p).pages :=
    (mem_updatePages _ _ _).mpr ((Dict.mem_insert_iff _ _ _ _).mpr (.inr ha))
  obtain ⟨h₁,h₂,h₃,h₄,h₅,h₆⟩ := hl
  constructor
  · intro a r hr
    rw [hlook] at hr
    grind
  · intro a r b hr hlive hb
    simp only [hlook] at hr ⊢
    grind
  · intro a r c hr hc
    simp only [hlook] at hr ⊢
    grind
  · intro a b hab
    rcases hedge a b hab with hold | ⟨-,hb⟩
    · exact hmem b (h₄ a b hold)
    · obtain ⟨r,hr,-⟩ := hrequire b hb
      exact hmem b ((Dict.mem_iff_get _ _).mpr ⟨r,hr⟩)
  · cases hp : p.parent with
    | none =>
      refine h₅.mono fun a b hab => (hedge a b hab).resolve_right fun hx => ?_
      simp [hp] at hx
    | some q =>
      -- Nothing points to a handle that has not been registered.
      refine h₅.add (x := p.handle) (p := q) (fun a b hab => ?_) (fun hreach => ?_)
      · refine (hedge a b hab).imp_right fun hx => ⟨hx.1,?_⟩
        simpa [hp] using hx.2.symm
      · have := eq_of_reflTransGen_of_noIncoming (fun b hb => hnew (h₄ b _ hb)) hreach
        exact hself (this ▸ hp)
  · intro a r hr hlive
    rw [hgen']
    by_cases ha : a = p.handle
    · rw [if_pos (ha ▸ rfl),ha]
    · obtain ⟨r',hr',hlive'⟩ : ∃ r' : PhysicalPageRecord, s.pages[a]? = some r' ∧
          r'.residency ≠ .dead := by
        rw [hlook] at hr
        grind
      have hlatest := h₆ a r' hr' hlive'
      -- A live older generation would have made the registration fail.
      rw [if_neg fun hid => hlive' ((hgen _ (hid ▸ hlatest)).2 r' (hid ▸ hr'))]
      exact hlatest

theorem insert_erase_self (hs : Finset PageHandle) (h : PageHandle) :
    insert h (hs.erase h) = insert h hs := by
  ext a
  simp only [Finset.mem_insert,Finset.mem_erase]
  tauto

/-- Moving a live page below a live page that is no descendant of it. -/
theorem Linked.relinkPage (hl : s.Linked) (hp : s.requirePage h = .ok p) {parent : Option PageHandle}
    (hparent : ∀ q, parent = some q → (∃ r, s.requirePage q = .ok r) ∧
      ¬ ReflTransGen s.ParentEdge q h) : (s.relinkPage h p.parent parent).Linked := by
  obtain ⟨hpage,hlive,-⟩ := requirePage_eq_ok.mp hp
  have hself : parent ≠ some h := fun hq => (hparent h hq).2 .refl
  have hold : p.parent ≠ some h := fun hq => hl.acyclic h (.single ⟨p,hpage,hq⟩)
  have hlook (a : PageHandle) : (s.relinkPage h p.parent parent).pages[a]? =
      if a = h then some { p with parent := parent }
      else s.pages[a]?.map fun r => { r with
        children := (if parent = some a then insert h r.children
          else if p.parent = some a then r.children.erase h else r.children) } := by
    simp only [PageOwnershipIndex.relinkPage,get_updatePages,Option.mem_toFinset,Option.mem_def,
      Finset.mem_singleton]
    by_cases ha : a = h
    · simp [ha,hself,hold,hpage]
    · by_cases hpa : parent = some a <;> by_cases hqa : p.parent = some a <;>
        cases s.pages[a]? <;> simp [ha,hpa,hqa,insert_erase_self]
  have hmoved : (s.relinkPage h p.parent parent).pages[h]? = some { p with parent := parent } := by
    rw [hlook,if_pos rfl]
  have hother (a : PageHandle) (r : PhysicalPageRecord) (ha : a ≠ h) (hr : s.pages[a]? = some r) :
      (s.relinkPage h p.parent parent).pages[a]? = some { r with
        children := (if parent = some a then insert h r.children
          else if p.parent = some a then r.children.erase h else r.children) } := by
    rw [hlook,if_neg ha,hr,Option.map_some]
  have hrequire (q : PageHandle) (hq : parent = some q) : ∃ r : PhysicalPageRecord,
      s.pages[q]? = some r ∧ r.residency ≠ .dead := by
    obtain ⟨r,hr⟩ := (hparent q hq).1
    exact ⟨r,(requirePage_eq_ok.mp hr).1,(requirePage_eq_ok.mp hr).2.1⟩
  -- A record after the move is the moved page, or an old record with its children adjusted.
  have hcases (a : PageHandle) (r : PhysicalPageRecord)
      (hr : (s.relinkPage h p.parent parent).pages[a]? = some r) :
      (a = h ∧ r = { p with parent := parent }) ∨ (a ≠ h ∧ ∃ r₀ : PhysicalPageRecord,
        s.pages[a]? = some r₀ ∧ r.residency = r₀.residency ∧ r.parent = r₀.parent ∧
          r.children = (if parent = some a then insert h r₀.children
            else if p.parent = some a then r₀.children.erase h else r₀.children)) := by
    rw [hlook] at hr
    by_cases ha : a = h
    · rw [if_pos ha] at hr
      exact .inl ⟨ha,(Option.some.inj hr).symm⟩
    · rw [if_neg ha] at hr
      obtain ⟨r₀,hr₀,rfl⟩ := Option.map_eq_some_iff.mp hr
      exact .inr ⟨ha,r₀,hr₀,rfl,rfl,rfl⟩
  have hedge (a b : PageHandle) (hab : (s.relinkPage h p.parent parent).ParentEdge a b) :
      s.ParentEdge a b ∨ (a = h ∧ parent = some b) := by
    obtain ⟨r,hr,hb⟩ := hab
    rcases hcases a r hr with ⟨rfl,rfl⟩ | ⟨-,r₀,hr₀,-,hpar,-⟩
    · exact .inr ⟨rfl,hb⟩
    · exact .inl ⟨r₀,hr₀,hpar ▸ hb⟩
  have hmem (a : PageHandle) : a ∈ (s.relinkPage h p.parent parent).pages ↔ a ∈ s.pages := by
    unfold PageOwnershipIndex.relinkPage
    simp only [mem_updatePages]
  obtain ⟨h₁,h₂,h₃,h₄,h₅,h₆⟩ := hl
  constructor
  · intro a r hr hd
    rcases hcases a r hr with ⟨rfl,rfl⟩ | ⟨ha,r₀,hr₀,hres,-,hch⟩
    · exact absurd hd hlive
    · have hempty := h₁ a r₀ hr₀ (hres ▸ hd)
      have hq : parent ≠ some a := by
        rintro rfl
        obtain ⟨r',hr',hl'⟩ := hrequire a rfl
        rw [hr₀] at hr'
        cases hr'
        exact hl' (hres ▸ hd)
      simp [hch,hq,hempty]
  · intro a r b hr hd hb
    rcases hcases a r hr with ⟨rfl,rfl⟩ | ⟨ha,r₀,hr₀,hres,hpar,-⟩
    · obtain ⟨r',hr',hl'⟩ := hrequire b hb
      have hba : b ≠ a := fun hba => hself (hba ▸ hb)
      exact ⟨_,hother _ _ hba hr',hl',by simp [show parent = some b from hb]⟩
    · obtain ⟨r',hr',hl',hmem'⟩ := h₂ a r₀ b hr₀ (hres ▸ hd) (hpar ▸ hb)
      by_cases hbh : b = h
      · subst hbh
        rw [hpage] at hr'
        cases hr'
        exact ⟨_,hmoved,hlive,hmem'⟩
      · refine ⟨_,hother _ _ hbh hr',hl',?_⟩
        dsimp only
        split_ifs
        · exact Finset.mem_insert_of_mem hmem'
        · exact Finset.mem_erase.mpr ⟨ha,hmem'⟩
        · exact hmem'
  · intro a r c hr hc
    rcases hcases a r hr with ⟨rfl,rfl⟩ | ⟨ha,r₀,hr₀,-,-,hch⟩
    · obtain ⟨r',hr',hl',hpar'⟩ := h₃ a p c hpage hc
      have hca : c ≠ a := by
        rintro rfl
        rw [hpage] at hr'
        cases hr'
        exact hold hpar'
      exact ⟨_,hother _ _ hca hr',hl',hpar'⟩
    · by_cases hch' : c = h
      · subst hch'
        refine ⟨_,hmoved,hlive,?_⟩
        -- The moved page is only listed below its new parent.
        by_contra hne
        rw [hch,if_neg hne] at hc
        split_ifs at hc with hpa
        · simp at hc
        · obtain ⟨r',hr',-,hpar'⟩ := h₃ a r₀ c hr₀ hc
          rw [hpage] at hr'
          cases hr'
          exact hpa hpar'
      · have hc' : c ∈ r₀.children := by
          rw [hch] at hc
          split_ifs at hc
          · exact (Finset.mem_insert.mp hc).resolve_left hch'
          · exact Finset.mem_of_mem_erase hc
          · exact hc
        obtain ⟨r',hr',hl',hpar'⟩ := h₃ a r₀ c hr₀ hc'
        exact ⟨_,hother _ _ hch' hr',hl',hpar'⟩
  · intro a b hab
    rw [hmem]
    rcases hedge a b hab with hold | ⟨-,hb⟩
    · exact h₄ a b hold
    · obtain ⟨r,hr,-⟩ := hrequire b hb
      exact (Dict.mem_iff_get _ _).mpr ⟨r,hr⟩
  · cases hq : parent with
    | none =>
      refine h₅.mono fun a b hab => ?_
      rw [← hq] at hab
      refine (hedge a b hab).resolve_right fun hx => ?_
      simp [hq] at hx
    | some q =>
      refine h₅.add (x := h) (p := q) (fun a b hab => ?_) (hparent q hq).2
      rw [← hq] at hab
      refine (hedge a b hab).imp_right fun hx => ⟨hx.1,?_⟩
      simpa [hq] using hx.2.symm
  · intro a r hr hd
    change s.latestGeneration[a.pageId]? = _
    rcases hcases a r hr with ⟨rfl,rfl⟩ | ⟨-,r₀,hr₀,hres,-,-⟩
    · exact h₆ a p hpage hlive
    · exact h₆ a r₀ hr₀ (hres ▸ hd)

/-- A child that were also the parent would close a cycle of length two. -/
theorem Linked.child_ne_parent (hl : s.Linked) (hpage : s.pages[h]? = some p) {a : PageHandle}
    (hc : a ∈ p.children) : p.parent ≠ some a := by
  obtain ⟨r,hr,-,hpar⟩ := hl.child_live h p a hpage hc
  exact fun hq => hl.acyclic h (.tail (.single ⟨p,hpage,hq⟩) ⟨r,hr,hpar⟩)

/-- The records after a page was retired. Under two-sided edges the children are live, so
both flavours of retirement do the same. -/
theorem get_retirePage (hl : s.Linked) (hpage : s.pages[h]? = some p) (b : Bool) (a : PageHandle) :
    (s.retirePage h p b).pages[a]? =
      if a = h then some { p with
        ownerContexts := ∅, semanticPinContexts := ∅, residency := .dead, children := ∅ }
      else if a ∈ p.children then s.pages[a]?.map fun r => { r with parent := none }
      else if p.parent = some a then s.pages[a]?.map fun r => { r with children := r.children.erase h }
      else s.pages[a]? := by
  have hself : h ∉ p.children := by
    intro hc
    obtain ⟨r,hr,-,hpar⟩ := hl.child_live h p h hpage hc
    rw [hpage] at hr
    cases hr
    exact hl.acyclic h (.single ⟨p,hpage,hpar⟩)
  have hself' : p.parent ≠ some h := fun hq => hl.acyclic h (.single ⟨p,hpage,hq⟩)
  simp only [retirePage,touch_pages,get_updatePages,Option.mem_toFinset,Option.mem_def,
    Finset.mem_singleton]
  by_cases ha : a = h
  · simp [ha,hself,hself',hpage]
  by_cases hc : a ∈ p.children
  · obtain ⟨r,hr,hlive,hpar⟩ := hl.child_live h p a hpage hc
    have hne := hl.child_ne_parent hpage hc
    simp [ha,hc,hr,hne,PhysicalPageRecord.live,hlive]
  · simp [ha,hc]

theorem Linked.retirePage (hl : s.Linked) (hp : s.requirePage h = .ok p) (b : Bool) :
    (s.retirePage h p b).Linked := by
  obtain ⟨hpage,hlive,-⟩ := requirePage_eq_ok.mp hp
  have hlook := get_retirePage hl hpage b
  have hcyc (a : PageHandle) (ha : a ∈ p.children) := hl.child_ne_parent hpage ha
  have hmem (a : PageHandle) : a ∈ (s.retirePage h p b).pages ↔ a ∈ s.pages := by
    simp only [PageOwnershipIndex.retirePage,touch_pages,mem_updatePages]
  -- The dead page keeps its own upward pointer; all other pointers are old ones.
  have hedge (a b' : PageHandle) (hab : (s.retirePage h p b).ParentEdge a b') :
      s.ParentEdge a b' := by
    obtain ⟨r,hr,hb⟩ := hab
    rw [hlook] at hr
    unfold ParentEdge
    split_ifs at hr with h₁ h₂ h₃
    · cases hr
      exact ⟨p,h₁ ▸ hpage,hb⟩
    · obtain ⟨r₀,-,rfl⟩ := Option.map_eq_some_iff.mp hr
      cases hb
    · obtain ⟨r₀,hr₀,rfl⟩ := Option.map_eq_some_iff.mp hr
      exact ⟨r₀,hr₀,hb⟩
    · exact ⟨r,hr,hb⟩
  obtain ⟨h₁,h₂,h₃,h₄,h₅,h₆⟩ := hl
  constructor
  · intro a r hr hd
    rw [hlook] at hr
    grind
  · intro a r q hr hd hq
    simp only [hlook] at hr ⊢
    grind
  · intro a r c hr hc
    simp only [hlook] at hr ⊢
    grind
  · intro a q haq
    exact (hmem q).mpr (h₄ a q (hedge a q haq))
  · exact h₅.mono hedge
  · intro a r hr hd
    change s.latestGeneration[a.pageId]? = _
    rw [hlook] at hr
    grind

/-! ## Owners -/

/-- Updates that leave the owner entries alone only have to answer for counts and pins. -/
theorem Owned.of_sameOwners {t : PageOwnershipIndex} (ho : s.Owned)
    (hpages : ∀ c, t.pagesOf c = s.pagesOf c)
    (hold : ∀ (h : PageHandle) (q : PhysicalPageRecord), t.pages[h]? = some q →
      ∃ p : PhysicalPageRecord, s.pages[h]? = some p ∧ q.ownerContexts = p.ownerContexts ∧
        (q.residency = .dead → p.residency = .dead) ∧
        (0 ≤ p.engineLockRef ∧ 0 ≤ p.activeReaderCount →
          0 ≤ q.engineLockRef ∧ 0 ≤ q.activeReaderCount) ∧
        ∀ c ∈ q.semanticPinContexts, c ∈ p.semanticPinContexts ∨ c ∈ p.ownerContexts) : t.Owned := by
  obtain ⟨h₁,h₂,h₃,h₄⟩ := ho
  constructor
  · intro c h q hq
    obtain ⟨p,hp,hown,-⟩ := hold h q hq
    rw [hpages,hown]
    exact h₁ c h p hp
  · intro h q hq hd
    obtain ⟨p,hp,hown,hdead,-⟩ := hold h q hq
    rw [hown]
    exact h₂ h p hp (hdead hd)
  · intro h q hq
    obtain ⟨p,hp,-,-,href,-⟩ := hold h q hq
    exact href (h₃ h p hp)
  · intro h q c hq hc
    obtain ⟨p,hp,hown,-,-,hpin⟩ := hold h q hq
    rw [hown]
    exact (hpin c hc).elim (h₄ h p c hp) id

theorem Owned.patch (ho : s.Owned) (hp : s.pages[h]? = some p) {q : PhysicalPageRecord} {t : Bool}
    {ks : Finset Component} (hq : Patched p q t ks) (hdead : q.residency ≠ .dead) :
    Owned { s with pages := s.pages.insert h q } := by
  refine ho.of_sameOwners (fun _ => rfl) (fun a r hr => ?_)
  rw [Dict.get_insert] at hr
  split_ifs at hr with ha
  · cases hr
    exact ⟨p,ha ▸ hp,hq.ownerContexts,fun hd => absurd hd hdead,hq.refs_nonneg,
      fun c hc => .inl (hq.semanticPinContexts ▸ hc)⟩
  · exact ⟨r,hr,rfl,id,id,fun c hc => .inl hc⟩

theorem Owned.updatePages (ho : s.Owned) {hs : Finset PageHandle}
    {f : PhysicalPageRecord → PhysicalPageRecord}
    (hf : ∀ h ∈ hs, ∀ p : PhysicalPageRecord, s.pages[h]? = some p →
      (f p).ownerContexts = p.ownerContexts ∧ (f p).residency = p.residency ∧
      (f p).engineLockRef = p.engineLockRef ∧ (f p).activeReaderCount = p.activeReaderCount ∧
      ∀ c ∈ (f p).semanticPinContexts, c ∈ p.semanticPinContexts ∨ c ∈ p.ownerContexts) :
    (s.updatePages hs f).Owned := by
  refine ho.of_sameOwners (fun _ => rfl) (fun a r hr => ?_)
  rw [get_updatePages] at hr
  split_ifs at hr with ha
  · obtain ⟨p,hp,rfl⟩ := Option.map_eq_some_iff.mp hr
    obtain ⟨h₁,h₂,h₃,h₄,h₅⟩ := hf a ha p hp
    exact ⟨p,hp,h₁,fun hd => h₂ ▸ hd,by rw [h₃,h₄]; exact id,h₅⟩
  · exact ⟨r,hr,rfl,id,id,fun c hc => .inl hc⟩

theorem Owned.attachPage (ho : s.Owned) (hb : s.Base) (hnew : p.handle ∉ s.pages)
    (hbare : p.children = ∅ ∧ p.ownerContexts = ∅ ∧ p.semanticPinContexts = ∅)
    (hrefs : 0 ≤ p.engineLockRef ∧ 0 ≤ p.activeReaderCount) (hdead : p.residency ≠ .dead) :
    (s.attachPage p).Owned := by
  have hins : Owned { s with
      pages := s.pages.insert p.handle p
      latestGeneration := s.latestGeneration.insert p.handle.pageId
        p.handle.allocationGeneration } := by
    obtain ⟨h₁,h₂,h₃,h₄⟩ := ho
    constructor
    · intro c a r hr
      change a ∈ s.pagesOf c ↔ _
      rw [Dict.get_insert] at hr
      split_ifs at hr with ha
      · cases hr
        constructor
        · exact fun hm => absurd (hb.pagesOf_known c a hm).2 (ha ▸ hnew)
        · intro hc
          simp [hbare.2.1] at hc
      · exact h₁ c a r hr
    · grind
    · grind
    · grind
  exact hins.updatePages (fun _ _ _ _ => ⟨rfl,rfl,rfl,rfl,fun _ hc => .inl hc⟩)

theorem Owned.claimPages (ho : s.Owned) {c : String} {e : ℤ} {hs : Finset PageHandle}
    (hlive : ∀ h ∈ hs, ∀ p : PhysicalPageRecord, s.pages[h]? = some p → p.residency ≠ .dead) :
    (s.claimPages c e hs).Owned := by
  have hlook (a : PageHandle) : (s.claimPages c e hs).pages[a]? = if a ∈ hs then
      s.pages[a]?.map fun r => { r with ownerContexts := r.ownerContexts.insert c e }
      else s.pages[a]? := get_updatePages _ _ _ _
  have hmem (d : Dict String ℤ) (a : String) := Dict.mem_insert_iff d c a e
  obtain ⟨h₁,h₂,h₃,h₄⟩ := ho
  constructor
  · intro a h p hp
    rw [pagesOf_claimPages]
    rw [hlook] at hp
    grind
  · intro h p hp
    rw [hlook] at hp
    grind
  · intro h p hp
    rw [hlook] at hp
    grind
  · intro h p a hp
    rw [hlook] at hp
    grind

theorem Owned.disownPages (ho : s.Owned) (c : String) : (s.disownPages c).Owned := by
  have hlook (a : PageHandle) : (s.disownPages c).pages[a]? = if a ∈ s.pagesOf c then
      s.pages[a]?.map fun r => { r with
        ownerContexts := r.ownerContexts.erase c
        semanticPinContexts := r.semanticPinContexts.erase c }
      else s.pages[a]? := get_updatePages _ _ _ _
  have hmem (d : Dict String ℤ) (a : String) := Dict.mem_erase_iff d c a
  obtain ⟨h₁,h₂,h₃,h₄⟩ := ho
  constructor
  · intro a h p hp
    rw [pagesOf_disownPages]
    rw [hlook] at hp
    grind
  · intro h p hp
    rw [hlook] at hp
    grind
  · intro h p hp
    rw [hlook] at hp
    grind
  · intro h p a hp
    rw [hlook] at hp
    grind

theorem Owned.advanceEpoch (ho : s.Owned) (c : String) (e : ℤ) : (s.advanceEpoch c e).Owned := by
  have hlook (a : PageHandle) : (s.advanceEpoch c e).pages[a]? = if a ∈ s.pagesOf c then
      s.pages[a]?.map fun r => { r with ownerContexts := r.ownerContexts.insert c e }
      else s.pages[a]? := get_updatePages _ _ _ _
  have hmem (d : Dict String ℤ) (a : String) := Dict.mem_insert_iff d c a e
  have hpages (a : String) : (s.advanceEpoch c e).pagesOf a = s.pagesOf a := rfl
  obtain ⟨h₁,h₂,h₃,h₄⟩ := ho
  constructor
  · intro a h p hp
    rw [hpages]
    rw [hlook] at hp
    grind
  · intro h p hp
    rw [hlook] at hp
    grind
  · intro h p hp
    rw [hlook] at hp
    grind
  · intro h p a hp
    rw [hlook] at hp
    grind

theorem Owned.retirePage (ho : s.Owned) (hl : s.Linked) (hpage : s.pages[h]? = some p) (b : Bool) :
    (s.retirePage h p b).Owned := by
  have hlook := get_retirePage hl hpage b
  obtain ⟨h₁,h₂,h₃,h₄⟩ := ho
  constructor
  · intro a k r hr
    rw [pagesOf_retirePage]
    rw [hlook] at hr
    grind
  · intro k r hr
    rw [hlook] at hr
    grind
  · intro k r hr
    rw [hlook] at hr
    grind
  · intro k r c hr
    rw [hlook] at hr
    grind

/-! ## All effects -/

/-- Every effect of a call that asks for no DEAD residency keeps the invariant. -/
theorem Effect.inv (hs : s.Inv) (hd : d) (heff : Effect d k s s') : s'.Inv := by
  have hbase := heff.base hs.toBase
  cases heff with
  | quiet e he => exact (sameRecords_quiet he).inv hs
  | refresh => exact (sameRecords_refreshPhysical s).inv hs
  | @patch h p hp q t cs ks hq hdead =>
    obtain ⟨hpage,hlive,-⟩ := requirePage_eq_ok.mp hp
    refine (sameRecords_touch _ _ _ _ _).inv
      ⟨(sameRecords_touch _ _ _ _ _).symm.base hbase,?_,hs.toOwned.patch hpage hq (hdead hd)⟩
    rw [← updatePages_singleton hpage fun _ => q]
    refine hs.toLinked.of_sameShape (sameShape_updatePages fun a ha r hr => ?_)
    rw [Finset.mem_singleton.mp ha,hpage] at hr
    cases hr
    exact ⟨hq.parent,hq.children,iff_of_false (hdead hd) hlive⟩
  | repin c f hf =>
    refine (sameRecords_touch _ _ _ _ _).inv ⟨(sameRecords_touch _ _ _ _ _).symm.base hbase,
      hs.toLinked.of_sameShape (sameShape_updatePages fun _ _ _ _ => ⟨rfl,rfl,Iff.rfl⟩),
      hs.toOwned.updatePages fun h hh p hp => ⟨rfl,rfl,rfl,rfl,fun a ha => ?_⟩⟩
    -- A pinned page is one of the context's own pages.
    rcases hf with rfl | rfl
    · rcases Finset.mem_insert.mp ha with rfl | ha
      · exact .inr ((hs.owner_iff a h p hp).mp (Finset.mem_filter.mp hh).1)
      · exact .inl ha
    · exact .inl (Finset.mem_of_mem_erase ha)
  | retire hp b =>
    exact ⟨hbase,hs.toLinked.retirePage hp b,
      hs.toOwned.retirePage hs.toLinked (requirePage_eq_ok.mp hp).1 b⟩
  | register p hnew hgen hparent hbare hrefs hdead =>
    exact (sameRecords_touch _ _ _ _ _).inv ⟨(sameRecords_touch _ _ _ _ _).symm.base hbase,
      hs.toLinked.attachPage hnew hgen hparent hbare.1 (hdead hd),
      hs.toOwned.attachPage hs.toBase hnew hbare hrefs (hdead hd)⟩
  | relink hp parent hparent =>
    refine (sameRecords_touch _ _ _ _ _).inv ⟨(sameRecords_touch _ _ _ _ _).symm.base hbase,
      hs.toLinked.relinkPage hp hparent,?_⟩
    refine Owned.updatePages ?_ (fun _ _ _ _ => ⟨rfl,rfl,rfl,rfl,fun _ hc => .inl hc⟩)
    refine Owned.updatePages ?_ (fun _ _ _ _ => ⟨rfl,rfl,rfl,rfl,fun _ hc => .inl hc⟩)
    exact hs.toOwned.updatePages (fun _ _ _ _ => ⟨rfl,rfl,rfl,rfl,fun _ hc => .inl hc⟩)
  | bind c e hs' he hlive =>
    refine (sameRecords_touch _ _ _ _ _).inv ⟨(sameRecords_touch _ _ _ _ _).symm.base hbase,
      hs.toLinked.of_sameShape (sameShape_claimPages c e hs'),
      hs.toOwned.claimPages fun h hh p hp => ?_⟩
    obtain ⟨r,hr⟩ := hlive h hh
    obtain ⟨hr₁,hr₂,-⟩ := requirePage_eq_ok.mp hr
    rw [hp] at hr₁
    cases hr₁
    exact hr₂
  | rebind c e hs' he hsub =>
    refine ⟨hbase,hs.toLinked.of_sameShape (sameShape_claimPages c e hs'),
      hs.toOwned.claimPages fun h hh p hp hdead => ?_⟩
    exact hs.dead_unowned h p hp hdead c ((hs.owner_iff c h p hp).mp (hsub hh))
  | unbind c =>
    exact (sameRecords_touch _ _ _ _ _).inv ⟨(sameRecords_touch _ _ _ _ _).symm.base hbase,
      hs.toLinked.of_sameShape (sameShape_disownPages c),hs.toOwned.disownPages c⟩
  | advance c e cur =>
    exact (sameRecords_touch _ _ _ _ _).inv ⟨(sameRecords_touch _ _ _ _ _).symm.base hbase,
      hs.toLinked.of_sameShape (sameShape_advanceEpoch c e),hs.toOwned.advanceEpoch c e⟩
  | readvance c e =>
    exact ⟨hbase,hs.toLinked.of_sameShape (sameShape_advanceEpoch c e),hs.toOwned.advanceEpoch c e⟩
  | enroll c w e =>
    refine (sameRecords_touch _ _ _ _ _).inv ⟨(sameRecords_touch _ _ _ _ _).symm.base hbase,
      hs.toLinked.of_sameShape ?_,hs.toOwned.of_sameOwners (fun a => pagesOf_enrollContext s c a w e) ?_⟩
    · refine ⟨rfl,fun _ => Iff.rfl,fun h p q hp hq => ?_⟩
      cases hp.symm.trans hq
      exact ⟨rfl,rfl,Iff.rfl⟩
    · exact fun h q hq => ⟨q,hq,rfl,id,id,fun _ hc => .inl hc⟩

/-! ## Owner epochs -/

/-- Dropping owner entries and changing anything else keeps the epochs current. -/
theorem EpochsCurrent.of_sub {t : PageOwnershipIndex} (he : s.EpochsCurrent)
    (hepoch : t.contextEpoch = s.contextEpoch)
    (hsub : ∀ (h : PageHandle) (q : PhysicalPageRecord) (c : String) (e : ℤ), t.pages[h]? = some q →
      q.ownerContexts[c]? = some e → ∃ p : PhysicalPageRecord, s.pages[h]? = some p ∧
        p.ownerContexts[c]? = some e) : t.EpochsCurrent := by
  intro h q c e hq hc
  obtain ⟨p,hp,hc'⟩ := hsub h q c e hq hc
  rw [hepoch]
  exact he h p c e hp hc'

theorem EpochsCurrent.updatePages (he : s.EpochsCurrent) {hs : Finset PageHandle}
    {f : PhysicalPageRecord → PhysicalPageRecord}
    (hf : ∀ (p : PhysicalPageRecord) (c : String) (e : ℤ), (f p).ownerContexts[c]? = some e →
      p.ownerContexts[c]? = some e) : (s.updatePages hs f).EpochsCurrent := by
  refine he.of_sub rfl (fun h q c e hq hc => ?_)
  rw [get_updatePages] at hq
  split_ifs at hq
  · obtain ⟨p,hp,rfl⟩ := Option.map_eq_some_iff.mp hq
    exact ⟨p,hp,hf p c e hc⟩
  · exact ⟨q,hq,hc⟩

/-- An epoch only ever moves together with the owner entries that carry it. -/
theorem EpochsCurrent.advanceEpoch (he : s.EpochsCurrent) (ho : s.Owned) (c : String) (e : ℤ) :
    (s.advanceEpoch c e).EpochsCurrent := by
  intro h q a x hq ha
  have hlook : (s.advanceEpoch c e).pages[h]? = if h ∈ s.pagesOf c then
      s.pages[h]?.map fun r => { r with ownerContexts := r.ownerContexts.insert c e }
      else s.pages[h]? := get_updatePages _ _ _ _
  rw [hlook] at hq
  change (s.contextEpoch.insert c e)[a]? = some x
  have hold := he h
  have hiff := ho.owner_iff c h
  simp only [Dict.mem_iff_get] at hiff
  grind

theorem EpochsCurrent.claimPages (he : s.EpochsCurrent) {c : String} {e : ℤ}
    (hc : s.contextEpoch[c]? = some e) (hs : Finset PageHandle) :
    (s.claimPages c e hs).EpochsCurrent := by
  intro h q a x hq ha
  have hlook : (s.claimPages c e hs).pages[h]? = if h ∈ hs then
      s.pages[h]?.map fun r => { r with ownerContexts := r.ownerContexts.insert c e }
      else s.pages[h]? := get_updatePages _ _ _ _
  rw [hlook] at hq
  change s.contextEpoch[a]? = some x
  have hold := he h
  grind

theorem Effect.epochsCurrent (hs : s.Inv) (he : s.EpochsCurrent) (hk : k) (heff : Effect d k s s') :
    s'.EpochsCurrent := by
  cases heff with
  | quiet e hq => exact (sameRecords_quiet hq).epochsCurrent he
  | refresh => exact (sameRecords_refreshPhysical s).epochsCurrent he
  | @patch h p hp q t cs ks hq hdead =>
    refine he.of_sub rfl (fun a r c e hr hc => ?_)
    change (s.pages.insert h q)[a]? = some r at hr
    rw [Dict.get_insert] at hr
    split_ifs at hr with ha
    · cases hr
      exact ⟨p,ha ▸ (requirePage_eq_ok.mp hp).1,hq.ownerContexts ▸ hc⟩
    · exact ⟨r,hr,hc⟩
  | repin c f hf =>
    refine (sameRecords_touch _ _ _ _ _).epochsCurrent ?_
    exact he.updatePages fun _ _ _ => id
  | @retire h p hp b =>
    have hlook := get_retirePage hs.toLinked (requirePage_eq_ok.mp hp).1 b
    refine he.of_sub rfl (fun a r c e hr hc => ?_)
    rw [hlook] at hr
    grind
  | register p hnew hgen hparent hbare =>
    refine (sameRecords_touch _ _ _ _ _).epochsCurrent (EpochsCurrent.updatePages ?_ fun _ _ _ => id)
    intro a r c e hr hc
    have hold := he a r c e
    change (s.pages.insert p.handle p)[a]? = some r at hr
    rw [Dict.get_insert] at hr
    split_ifs at hr with ha
    · cases hr
      simp [hbare.2.1] at hc
    · exact hold hr hc
  | relink hp parent hparent =>
    refine (sameRecords_touch _ _ _ _ _).epochsCurrent (EpochsCurrent.updatePages ?_ fun _ _ _ => id)
    refine EpochsCurrent.updatePages ?_ fun _ _ _ => id
    exact he.updatePages fun _ _ _ => id
  | bind c e hs' hc =>
    exact (sameRecords_touch _ _ _ _ _).epochsCurrent (he.claimPages hc hs')
  | rebind c e hs' hc => exact he.claimPages hc hs'
  | unbind c =>
    refine (sameRecords_touch _ _ _ _ _).epochsCurrent ?_
    have hu : (s.updatePages (s.pagesOf c) fun p => { p with
        ownerContexts := p.ownerContexts.erase c
        semanticPinContexts := p.semanticPinContexts.erase c }).EpochsCurrent := by
      refine he.updatePages fun p a e ha => ?_
      rw [Dict.get_erase] at ha
      split_ifs at ha
      exact ha
    exact hu
  | advance c e cur =>
    exact (sameRecords_touch _ _ _ _ _).epochsCurrent (he.advanceEpoch hs.toOwned c e)
  | readvance c e => exact he.advanceEpoch hs.toOwned c e
  | enroll c w e hmono hw hempty =>
    refine (sameRecords_touch _ _ _ _ _).epochsCurrent ?_
    intro h p a x hp ha
    have hne : a ≠ c := by
      rintro rfl
      have hmem := (hs.owner_iff a h p hp).mpr ((Dict.mem_iff_get _ _).mpr ⟨x,ha⟩)
      simp [hempty hk] at hmem
    change (s.contextEpoch.insert c e)[a]? = some x
    rw [Dict.get_insert,if_neg hne.symm]
    exact he h p a x hp ha

/-! ## Calls and runs -/

theorem effects_inv (hs : s.Inv) (hd : d) (heff : ReflTransGen (Effect d k) s s') : s'.Inv := by
  induction heff with
  | refl => exact hs
  | tail _ heff ih => exact heff.inv ih hd

theorem effects_epochsCurrent (hs : s.Inv) (he : s.EpochsCurrent) (hd : d) (hk : k)
    (heff : ReflTransGen (Effect d k) s s') : s'.EpochsCurrent := by
  induction heff with
  | refl => exact he
  | tail hprefix heff ih => exact heff.epochsCurrent (effects_inv hs hd hprefix) ih hk

/-- One call that asks for no DEAD residency keeps the invariant, also when it raises. -/
theorem step_inv (hs : s.Inv) {op : Op} (hd : op.NoDead) : (s.step op).Inv := by
  unfold step
  cases hok : op.apply s with
  | error e => exact hs
  | ok s' => exact effects_inv hs hd (Op.effects hs.toBase op hok)

theorem step_epochsCurrent (hs : s.Inv) (he : s.EpochsCurrent) {op : Op} (hd : op.NoDead)
    (hk : op.KeepsEpochs s) : (s.step op).EpochsCurrent := by
  unfold step
  cases hok : op.apply s with
  | error e => exact he
  | ok s' => exact effects_epochsCurrent hs he hd hk (Op.effects hs.toBase op hok)

/-- Every run that asks for no DEAD residency keeps the invariant. -/
theorem run_inv (ops : List Op) (hd : ∀ op ∈ ops, op.NoDead) : (empty.run ops).Inv := by
  refine Run.AllSteps.invariant (P := fun _ op => op.NoDead) (I := Inv) (fun t op ht hop => ?_)
    empty_inv (Run.AllSteps.of_forall (fun op hop _ => hd op hop) _)
  exact step_inv ht hop

/-- In every run that asks for no DEAD residency and never re-registers a context that owns
pages under a later epoch, the self-check passes, Radix edges and owner maps agree, parent
chains are acyclic, live pages are the youngest allocations and pins belong to owners. -/
theorem run_consistent (ops : List Op) (hd : ∀ op ∈ ops, op.NoDead)
    (hk : Run.AllSteps step (fun t op => op.KeepsEpochs t) empty ops) :
    (empty.run ops).assertConsistent = .ok () ∧ (empty.run ops).Owned ∧
      (empty.run ops).EpochsCurrent ∧ (empty.run ops).Linked := by
  have hboth : (empty.run ops).Inv ∧ (empty.run ops).EpochsCurrent := by
    refine Run.AllSteps.invariant (I := fun t : PageOwnershipIndex => t.Inv ∧ t.EpochsCurrent)
      (fun t op ht hop => ?_) ⟨empty_inv,empty_epochsCurrent⟩
      ((Run.AllSteps.of_forall (fun op hop _ => hd op hop) _).and hk)
    exact ⟨step_inv ht.1 hop.1,step_epochsCurrent ht.1 ht.2 hop.1 hop.2⟩
  exact ⟨assertConsistent_eq_ok hboth.1 hboth.2,hboth.1.toOwned,hboth.2,hboth.1.toLinked⟩

/-- A run with a page bound to a context whose epoch then advances through the proper call. -/
def sampleRun : List Op :=
  [.registerContext "c" "w" 0,.registerPage ⟨0,0⟩ 1 .gpuOnly 0 none true 0,
    .bindPages "c" 0 [⟨0,0⟩] false]

theorem run_consistent_sample :
    (empty.run (sampleRun ++ [.updateContextEpoch "c" 1])).assertConsistent = .ok () := by
  have hd : ∀ op ∈ sampleRun ++ [.updateContextEpoch "c" 1], op.NoDead := by decide
  have hk : Run.AllSteps step (fun t op => op.KeepsEpochs t) empty
      (sampleRun ++ [.updateContextEpoch "c" 1]) := by decide
  exact (run_consistent _ hd hk).1

/-- Re-registering the context under a later epoch leaves its page with the old epoch. -/
theorem reregister_inconsistent :
    (empty.run (sampleRun ++ [.registerContext "c" "w" 1])).assertConsistent =
      .error (.assertionError "page owner epoch differs from context epoch") := by
  decide

end BeliefKV.PageOwnershipIndex
