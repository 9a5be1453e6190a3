import BeliefKV.PageIndex.Atomicity

/-! What the revision and the topology revision tell of a call. -/
namespace BeliefKV.PageOwnershipIndex

/-- No page record, no set of pages of a context, no epoch and no workflow differs. -/
structure Unchanged (s t : PageOwnershipIndex) : Prop where
  pages : t.pages = s.pages
  pagesOf : ∀ c, t.pagesOf c = s.pagesOf c
  contextEpoch : t.contextEpoch = s.contextEpoch
  contextWorkflow : t.contextWorkflow = s.contextWorkflow

/-- The revision tells whether anything differs. -/
def Tells (s t : PageOwnershipIndex) : Prop := t.revision = s.revision ↔ Unchanged s t

section Revision
variable {s t u : PageOwnershipIndex} {h : PageHandle} {p q : PhysicalPageRecord} {c : String}

theorem Unchanged.refl (s : PageOwnershipIndex) : Unchanged s s := ⟨rfl,fun _ => rfl,rfl,rfl⟩

theorem Unchanged.trans (h : Unchanged s t) (h' : Unchanged t u) : Unchanged s u :=
  ⟨h'.pages.trans h.pages,fun c => (h'.pagesOf c).trans (h.pagesOf c),h'.contextEpoch.trans h.contextEpoch,
    h'.contextWorkflow.trans h.contextWorkflow⟩

theorem Unchanged.symm (h : Unchanged s t) : Unchanged t s :=
  ⟨h.pages.symm,fun c => (h.pagesOf c).symm,h.contextEpoch.symm,h.contextWorkflow.symm⟩

theorem Tells.still (h : Unchanged s t) (hrev : t.revision = s.revision) : Tells s t := iff_of_true hrev h

theorem Tells.moved (h : ¬ Unchanged s t) (hrev : s.revision < t.revision) : Tells s t := iff_of_false hrev.ne' h

theorem Tells.followed (h : Tells s t) (hsame : Unchanged t u) (hrev : u.revision = t.revision) : Tells s u := by
  unfold Tells at h ⊢
  rw [hrev,h]
  exact ⟨fun h => h.trans hsame,fun h => h.trans hsame.symm⟩

/-- A record that differs is a change. -/
theorem changed_of_page (hp : s.pages[h]? = some p) (hq : t.pages[h]? = some q) (hne : q ≠ p) : ¬ Unchanged s t := by
  intro hsame
  rw [hsame.pages,hp] at hq
  exact hne (Option.some.inj hq).symm

theorem tells_update {f : PhysicalPageRecord → PhysicalPageRecord} {topology : Bool} {handles : Finset PageHandle}
    {contextIds : Finset String} {components : Finset Component} (hp : s.requirePage h = .ok p) (hne : f p ≠ p) :
    Tells s ((s.updatePages {h} f).touch topology handles contextIds components) := by
  have hpage := (requirePage_eq_ok.mp hp).1
  refine .moved (changed_of_page hpage (q := f p) ?_ hne) (Nat.lt_succ_self _)
  rw [touch_pages,get_updatePages,if_pos (Finset.mem_singleton_self h),hpage]
  rfl

theorem tells_moveResidency {residency : PhysicalResidency} {direction : Option TransferDirection}
    {components : Finset Component} (hp : s.requirePage h = .ok p)
    (hne : residency ≠ p.residency ∨ direction ≠ p.transferDirection) :
    Tells s (s.moveResidency h p residency direction components) := by
  refine tells_update hp fun heq => ?_
  obtain hne | hne := hne
  · exact hne (congrArg PhysicalPageRecord.residency heq)
  · exact hne (congrArg PhysicalPageRecord.transferDirection heq)

/-! ## Records that are written as they were -/

theorem updatePages_same {f : PhysicalPageRecord → PhysicalPageRecord} {hs : Finset PageHandle}
    (hf : ∀ h ∈ hs, ∀ p : PhysicalPageRecord, s.pages[h]? = some p → f p = p) :
    (s.updatePages hs f).pages = s.pages := by
  apply Dict.ext_get
  intro a
  rw [get_updatePages]
  split_ifs with ha
  · cases hp : s.pages[a]? with
    | none => rfl
    | some p => exact congrArg some (hf a ha p hp)
  · rfl

/-- The epoch of a context is what its pages have entered. -/
theorem insertOwner_same (ho : s.Owned) (he : s.EpochsCurrent) {e : ℤ} (hepoch : s.contextEpoch[c]? = some e)
    (hown : h ∈ s.pagesOf c) (hp : s.pages[h]? = some p) :
    { p with ownerContexts := p.ownerContexts.insert c e } = p := by
  obtain ⟨x,hx⟩ := (Dict.mem_iff_get _ _).mp ((ho.owner_iff c h p hp).mp hown)
  have hcur := he h p c x hp hx
  rw [hepoch] at hcur
  cases hcur
  have hsame : p.ownerContexts.insert c e = p.ownerContexts := by
    apply Dict.ext_get
    intro a
    rw [Dict.get_insert]
    split_ifs with ha
    · rw [← ha,hx]
    · rfl
  rw [hsame]

theorem insertPages_same {hs : Finset PageHandle} (hsame : hs = s.pagesOf c) (a : String) :
    (s.contextPages.insert c hs)[a]?.getD ∅ = s.pagesOf a := by
  rw [getD_insert]
  split_ifs with ha
  · rw [ha,hsame]
  · rfl

theorem claimPages_unchanged (ho : s.Owned) (he : s.EpochsCurrent) {e : ℤ} (hepoch : s.contextEpoch[c]? = some e)
    {hs : Finset PageHandle} (hsub : hs ⊆ s.pagesOf c) : Unchanged s (s.claimPages c e hs) := by
  refine ⟨?_,insertPages_same (Finset.union_eq_left.mpr hsub),rfl,rfl⟩
  exact updatePages_same fun h hh p hp => insertOwner_same ho he hepoch (hsub hh) hp

theorem claimNothing_unchanged (c : String) (e : ℤ) : Unchanged s (s.claimPages c e ∅) := by
  refine ⟨?_,insertPages_same (Finset.union_empty _),rfl,rfl⟩
  exact updatePages_same fun h hh => absurd hh (Finset.notMem_empty h)

theorem advanceEpoch_unchanged (ho : s.Owned) (he : s.EpochsCurrent) {e : ℤ} (hepoch : s.contextEpoch[c]? = some e) :
    Unchanged s (s.advanceEpoch c e) := by
  refine ⟨?_,fun _ => rfl,?_,rfl⟩
  · exact updatePages_same fun h hh p hp => insertOwner_same ho he hepoch hh hp
  · apply Dict.ext_get
    intro a
    change (s.contextEpoch.insert c e)[a]? = s.contextEpoch[a]?
    rw [Dict.get_insert]
    split_ifs with ha
    · rw [← ha,hepoch]
    · rfl

/-! ## Calls on contexts -/

theorem registerContext_tells {w : String} {e : ℤ} (hnew : s.contextEpoch[c]? = none)
    (hok : s.registerContext c w e = .ok t) : Tells s t := by
  simp only [registerContext] at hok
  split_ifs at hok with _ _ _ htouch
  · cases hok
    refine .moved (fun hsame => ?_) (Nat.lt_succ_self _)
    have hget : (s.contextEpoch.insert c e)[c]? = s.contextEpoch[c]? := congrArg (·[c]?) hsame.contextEpoch
    rw [Dict.get_insert,if_pos rfl,hnew] at hget
    cases hget
  · refine absurd (.inl ?_) htouch
    rw [hnew]
    exact (Option.some_ne_none e).symm

theorem updateContextEpoch_tells (ho : s.Owned) (he : s.EpochsCurrent) {e : ℤ}
    (hok : s.updateContextEpoch c e = .ok t) : Tells s t := by
  obtain ⟨cur,hcur,hok⟩ := bind_eq_ok.mp hok
  have hepoch : s.contextEpoch[c]? = some cur := by
    unfold contextEpochOf at hcur
    cases hx : s.contextEpoch[c]? <;> simp_all
  split_ifs at hok with hlt hne <;> cases hok
  · refine .moved (fun hsame => ?_) (Nat.lt_succ_self _)
    have hget : (s.contextEpoch.insert c e)[c]? = s.contextEpoch[c]? := congrArg (·[c]?) hsame.contextEpoch
    rw [Dict.get_insert,if_pos rfl,hepoch] at hget
    exact hne (Option.some.inj hget)
  · rw [not_not.mp hne]
    exact .still (advanceEpoch_unchanged ho he hepoch) rfl

theorem unbindContext_tells (c : String) : Tells s (s.unbindContext c) := by
  by_cases hown : s.pagesOf c = ∅
  · have heq : s.unbindContext c = s.disownPages c := by
      simp only [unbindContext,hown]
      rfl
    rw [heq]
    refine .still ⟨?_,insertPages_same hown.symm,rfl,rfl⟩ rfl
    refine updatePages_same fun h hh => ?_
    rw [hown] at hh
    exact absurd hh (Finset.notMem_empty h)
  · refine .moved (fun hsame => ?_) ?_
    · have hlost := (sameRecords_unbindContext (s := s) c).pagesOf c
      rw [hsame.pagesOf c] at hlost
      refine hown (hlost.trans ?_)
      change (s.contextPages.insert c ∅)[c]?.getD ∅ = ∅
      rw [getD_insert,if_pos rfl]
    · simp only [unbindContext]
      rw [if_pos hown]
      exact Nat.lt_succ_self _

theorem pinContext_tells (c : String) : Tells s (s.pinContext c) := by
  simp only [pinContext]
  split_ifs with hpin
  · obtain ⟨h,hh,hp⟩ := hpin
    cases hpage : s.pages[h]? with
    | none => simp [hpage] at hp
    | some p =>
      simp only [hpage,Option.any_some,decide_eq_true_eq] at hp
      refine .moved (changed_of_page hpage (q := { p with semanticPinContexts := insert c p.semanticPinContexts }) ?_
        fun heq => hp ?_) (Nat.lt_succ_self _)
      · rw [touch_pages,repinPages,get_updatePages,if_pos hh,hpage]
        rfl
      · rw [← congrArg PhysicalPageRecord.semanticPinContexts heq]
        exact Finset.mem_insert_self _ _
  · exact .still (.refl s) rfl

theorem unpinContext_tells (c : String) : Tells s (s.unpinContext c) := by
  simp only [unpinContext]
  split_ifs with hpin
  · obtain ⟨h,hh,hp⟩ := hpin
    cases hpage : s.pages[h]? with
    | none => simp [hpage] at hp
    | some p =>
      simp only [hpage,Option.any_some,decide_eq_true_eq] at hp
      refine .moved (changed_of_page hpage (q := { p with semanticPinContexts := p.semanticPinContexts.erase c }) ?_
        fun heq => ?_) (Nat.lt_succ_self _)
      · rw [touch_pages,repinPages,get_updatePages,if_pos hh,hpage]
        rfl
      · rw [← congrArg PhysicalPageRecord.semanticPinContexts heq] at hp
        exact Finset.notMem_erase _ _ hp
  · exact .still (.refl s) rfl

/-- Without a replacement, or without a page to bind. -/
theorem bindPages_tells (hs : s.Inv) (he : s.EpochsCurrent) {e : ℤ} {handles : List PageHandle} {replace : Bool}
    (hplain : replace = true → handles = []) (hok : s.bindPages c e handles replace = .ok t) : Tells s t := by
  obtain ⟨_,hval,hok⟩ := bind_eq_ok.mp hok
  obtain ⟨resolved,hres,hok⟩ := bind_eq_ok.mp hok
  have hepoch := validateContextEpoch_eq_ok hval
  cases replace with
  | false =>
    simp only [Bool.not_false,true_and,Bool.false_eq_true,if_false,false_and] at hok
    split_ifs at hok with hsub <;> cases hok
    · exact .still (claimPages_unchanged hs.toOwned he hepoch hsub) rfl
    · refine .moved (fun hsame => hsub fun h hh => ?_) (Nat.lt_succ_self _)
      rw [← hsame.pagesOf c]
      change h ∈ (s.contextPages.insert c (s.pagesOf c ∪ resolved))[c]?.getD ∅
      rw [getD_insert,if_pos rfl]
      exact Finset.mem_union_right _ hh
  | true =>
    rw [hplain rfl] at hres
    cases hres
    simp only [Bool.not_true,Bool.false_eq_true,false_and,if_false,true_and,if_true,ne_eq,not_true] at hok
    cases hok
    exact (unbindContext_tells c).followed (claimNothing_unchanged c e) rfl

theorem unbindContext_revision (c : String) : s.revision ≤ (s.unbindContext c).revision := by
  simp only [unbindContext]
  split_ifs
  · exact Nat.le_succ _
  · exact Nat.le_succ _
  · exact le_rfl

/-- A replacement by some pages always advances the revision. -/
theorem rebind_revision {e : ℤ} {handles : List PageHandle} (hsome : handles ≠ [])
    (hok : s.bindPages c e handles true = .ok t) : s.revision < t.revision := by
  obtain ⟨_,-,hok⟩ := bind_eq_ok.mp hok
  obtain ⟨resolved,hres,hok⟩ := bind_eq_ok.mp hok
  have hne : resolved ≠ ∅ := by
    cases handles with
    | nil => exact absurd rfl hsome
    | cons h handles =>
      obtain ⟨p,-,hrest⟩ := bind_eq_ok.mp hres
      obtain ⟨rest,-,hrest⟩ := bind_eq_ok.mp hrest
      cases hrest
      exact Finset.insert_ne_empty _ _
  simp only [Bool.not_true,Bool.false_eq_true,false_and,if_false,true_and,if_true] at hok
  rw [if_pos hne] at hok
  cases hok
  exact Nat.lt_succ_of_le (unbindContext_revision c)

/-- A replacement by the same pages changes nothing where none is pinned. -/
theorem rebind_unchanged (hs : s.Inv) (he : s.EpochsCurrent) {e : ℤ} (hepoch : s.contextEpoch[c]? = some e)
    (hpins : ∀ h ∈ s.pagesOf c, ∀ p : PhysicalPageRecord, s.pages[h]? = some p → c ∉ p.semanticPinContexts) :
    Unchanged s ((s.unbindContext c).claimPages c e (s.pagesOf c)) := by
  have hunbound := sameRecords_unbindContext (s := s) c
  refine ⟨?_,fun a => ?_,hunbound.contextEpoch.symm.symm,hunbound.contextWorkflow⟩
  · apply Dict.ext_get
    intro a
    change ((s.unbindContext c).updatePages (s.pagesOf c) _).pages[a]? = _
    rw [get_updatePages,hunbound.pages]
    change (if a ∈ s.pagesOf c then (s.pages.updateAll (s.pagesOf c) _)[a]?.map _ else
      (s.pages.updateAll (s.pagesOf c) _)[a]?) = _
    rw [Dict.get_updateAll]
    by_cases ha : a ∈ s.pagesOf c
    · rw [if_pos ha,if_pos ha]
      cases hp : s.pages[a]? with
      | none => rfl
      | some p =>
        have hsame := insertOwner_same hs.toOwned he hepoch ha hp
        have howners : (p.ownerContexts.erase c).insert c e = p.ownerContexts := by
          rw [← congrArg PhysicalPageRecord.ownerContexts hsame]
          apply Dict.ext_get
          intro b
          simp only [Dict.get_insert,Dict.get_erase]
          split_ifs <;> rfl
        have hpin : p.semanticPinContexts.erase c = p.semanticPinContexts := Finset.erase_eq_of_notMem (hpins a ha p hp)
        simp only [Option.map_some,howners,hpin]
    · rw [if_neg ha,if_neg ha]
  · change ((s.unbindContext c).contextPages.insert c _)[a]?.getD ∅ = _
    rw [getD_insert]
    split_ifs with ha
    · rw [ha,hunbound.pagesOf c]
      change (s.contextPages.insert c ∅)[c]?.getD ∅ ∪ _ = _
      rw [getD_insert,if_pos rfl,Finset.empty_union]
    · refine (hunbound.pagesOf a).trans ?_
      change (s.contextPages.insert c ∅)[a]?.getD ∅ = _
      rw [getD_insert,if_neg ha]
      rfl

/-! ## Calls on pages -/

theorem registerPage_tells {size : ℕ} {res : PhysicalResidency} {depth : ℤ} {parent : Option PageHandle}
    {isSealed : Bool} {access : ℚ} (hok : s.registerPage h size res depth parent isSealed access = .ok t) :
    Tells s t ∧ s.topologyRevision < t.topologyRevision := by
  simp only [registerPage] at hok
  split_ifs at hok with _ _ _ hknown
  have hnew : h ∉ s.pages := by simpa using hknown
  obtain ⟨_,-,hok⟩ := bind_eq_ok.mp hok
  cases hok
  refine ⟨.moved (fun hsame => hnew ?_) (Nat.lt_succ_self _),Nat.lt_succ_self _⟩
  rw [← hsame.pages]
  exact (mem_updatePages _ _ _).mpr ((Dict.mem_insert_iff _ _ _ _).mpr (.inl rfl))

theorem retirePage_tells (hl : s.Linked) (hp : s.requirePage h = .ok p) (b : Bool) : Tells s (s.retirePage h p b) := by
  obtain ⟨hpage,hlive,-⟩ := requirePage_eq_ok.mp hp
  have hget := get_retirePage hl hpage b h
  rw [if_pos rfl] at hget
  exact .moved (changed_of_page hpage hget fun heq => hlive (congrArg PhysicalPageRecord.residency heq).symm)
    (Nat.lt_succ_self _)

theorem freePage_tells (hl : s.Linked) (hok : s.freePage h = .ok t) : Tells s t := by
  obtain ⟨p,hp,hok⟩ := bind_eq_ok.mp hok
  split_ifs at hok
  cases hok
  exact retirePage_tells hl hp false

theorem invalidatePage_tells (hl : s.Linked) (hok : s.invalidatePage h = .ok t) : Tells s t := by
  obtain ⟨p,hp,hok⟩ := bind_eq_ok.mp hok
  split_ifs at hok
  cases hok
  exact retirePage_tells hl hp true

/-- Whatever happens to the edges of a page that is moved, it gets its new parent. -/
theorem relinkPage_parent (hpage : s.pages[h]? = some p) (previous parent : Option PageHandle) :
    ∃ q, (s.relinkPage h previous parent).pages[h]? = some q ∧ q.parent = parent := by
  unfold relinkPage
  simp only [get_updatePages,Finset.mem_singleton,if_true,hpage]
  split_ifs <;> exact ⟨_,rfl,rfl⟩

theorem setParent_tells (hl : s.Linked) {parent : Option PageHandle} (hok : s.setParent h parent = .ok t) :
    Tells s t := by
  obtain ⟨p,hp,hok⟩ := bind_eq_ok.mp hok
  obtain ⟨hpage,hlive,-⟩ := requirePage_eq_ok.mp hp
  split at hok
  · cases hok
  obtain ⟨_,-,hok⟩ := bind_eq_ok.mp hok
  obtain ⟨_,-,hok⟩ := bind_eq_ok.mp hok
  by_cases hsame : p.parent = parent
  · rw [if_pos hsame] at hok
    cases parent with
    | none =>
      cases hok
      exact .still (.refl s) rfl
    | some q =>
      -- The edge is there on both sides.
      obtain ⟨r,hr,-,hedge⟩ := hl.parent_live h p q hpage hlive hsame
      dsimp only at hok
      rw [hr,if_neg (by simpa using hedge)] at hok
      cases hok
      exact .still (.refl s) rfl
  · rw [if_neg hsame] at hok
    cases hok
    obtain ⟨q,hq,hparent⟩ := relinkPage_parent hpage p.parent parent
    refine .moved (changed_of_page hpage (q := q) hq fun heq => hsame ?_) (Nat.lt_succ_self _)
    rw [← heq,hparent]

theorem setEngineLock_tells {value : ℤ} (hok : s.setEngineLock h value = .ok t) : Tells s t := by
  unfold setEngineLock at hok
  split at hok
  · cases hok
  obtain ⟨p,hp,hok⟩ := bind_eq_ok.mp hok
  cases hok
  split_ifs with hne
  · exact tells_update hp fun heq => hne (congrArg PhysicalPageRecord.engineLockRef heq).symm
  · exact .still (.refl s) rfl

theorem setActiveReaders_tells {value : ℤ} (hok : s.setActiveReaders h value = .ok t) : Tells s t := by
  unfold setActiveReaders at hok
  split at hok
  · cases hok
  obtain ⟨p,hp,hok⟩ := bind_eq_ok.mp hok
  cases hok
  split_ifs with hne
  · exact tells_update hp fun heq => hne (congrArg PhysicalPageRecord.activeReaderCount heq).symm
  · exact .still (.refl s) rfl

/-- An argument that is given differs from a field iff it changes it. -/
theorem any_ne_iff {A : Type} [DecidableEq A] {given : Option A} {field : A} :
    given.any (field ≠ ·) = true ↔ given.getD field ≠ field := by
  cases given with
  | none => simp
  | some a =>
    rw [Option.any_some,decide_eq_true_eq,Option.getD_some]
    exact ne_comm

theorem updateRuntimeState_tells {res : Option PhysicalResidency} {depth lock : Option ℤ} {access : Option ℚ}
    (hok : s.updateRuntimeState h res depth lock access = .ok t) : Tells s t := by
  obtain ⟨p,hp,hok⟩ := bind_eq_ok.mp hok
  split at hok
  · cases hok
  split at hok
  · cases hok
  split at hok
  · cases hok
  cases hok
  split_ifs with hchanged
  · refine tells_update hp fun heq => ?_
    simp only [Bool.or_eq_true,any_ne_iff] at hchanged
    obtain ((hres | hdepth) | hlock) | haccess := hchanged
    · exact hres (congrArg PhysicalPageRecord.residency heq)
    · exact hdepth (congrArg PhysicalPageRecord.radixDepth heq)
    · exact hlock (congrArg PhysicalPageRecord.engineLockRef heq)
    · exact haccess (congrArg PhysicalPageRecord.lastAccessMs heq)
  · exact .still (.refl s) rfl

theorem beginTransfer_tells {dir : TransferDirection} (hok : s.beginTransfer h dir = .ok t) : Tells s t := by
  obtain ⟨p,hp,hok⟩ := bind_eq_ok.mp hok
  cases dir with
  | d2h =>
    dsimp only at hok
    split_ifs at hok with _ hres
    cases hok
    exact tells_moveResidency hp (.inl fun heq => by rw [← heq] at hres; exact hres (by decide))
  | h2d =>
    dsimp only at hok
    split_ifs at hok with _ hres
    cases hok
    exact tells_moveResidency hp (.inl fun heq => by rw [← heq] at hres; exact hres (by decide))

theorem completeTransfer_tells {dir : TransferDirection} {keepGpu : Bool}
    (hok : s.completeTransfer h dir keepGpu = .ok t) : Tells s t := by
  obtain ⟨p,hp,hok⟩ := bind_eq_ok.mp hok
  by_cases hdir : p.transferDirection ≠ some dir
  · rw [if_pos hdir] at hok
    cases hok
  rw [if_neg hdir] at hok
  cases hok
  refine tells_moveResidency hp (.inr fun heq => ?_)
  rw [not_not.mp hdir] at heq
  cases heq

theorem abortTransfer_tells (hok : s.abortTransfer h = .ok t) : Tells s t := by
  obtain ⟨p,hp,hok⟩ := bind_eq_ok.mp hok
  cases hdir : p.transferDirection with
  | none =>
    rw [hdir] at hok
    cases hok
  | some dir =>
    rw [hdir] at hok
    cases dir <;> cases hok <;> exact tells_moveResidency hp (.inr fun heq => by rw [hdir] at heq; cases heq)

theorem commitCpu_tells (hok : s.commitCpu h = .ok t) : Tells s t := by
  obtain ⟨p,hp,hok⟩ := bind_eq_ok.mp hok
  split_ifs at hok with hcpu hres <;> cases hok
  · exact .still (.refl s) rfl
  · exact tells_moveResidency hp (.inl fun heq => hcpu heq.symm)

theorem dropPage_tells (hl : s.Linked) (hok : s.dropPage h = .ok t) : Tells s t := by
  obtain ⟨p,hp,hok⟩ := bind_eq_ok.mp hok
  split_ifs at hok
  split at hok
  · rename_i hres
    cases hok
    exact tells_moveResidency hp (.inl fun heq => by rw [hres] at heq; cases heq)
  · exact freePage_tells hl hok
  · exact freePage_tells hl hok
  · cases hok

theorem dropHostCopy_tells (hl : s.Linked) (hok : s.dropHostCopy h = .ok t) : Tells s t := by
  obtain ⟨p,hp,hok⟩ := bind_eq_ok.mp hok
  split_ifs at hok
  split at hok
  · rename_i hres
    cases hok
    exact tells_moveResidency hp (.inl fun heq => by rw [hres] at heq; cases heq)
  · exact freePage_tells hl hok
  · cases hok

theorem refreshPhysical_tells : Tells s s.refreshPhysical := by
  have hsame := sameRecords_refreshPhysical s
  refine .still ⟨hsame.pages,hsame.pagesOf,hsame.contextEpoch,hsame.contextWorkflow⟩ ?_
  unfold refreshPhysical
  split_ifs <;> rfl

/-! ## The topology revision -/

/-- The edges and the depth of a record. -/
def shape (p : PhysicalPageRecord) : Option PageHandle × Finset PageHandle × ℤ := (p.parent,p.children,p.radixDepth)

def Live (s : PageOwnershipIndex) (h : PageHandle) : Prop :=
  ∃ p : PhysicalPageRecord, s.pages[h]? = some p ∧ p.residency ≠ .dead

/-- No edge and no depth differs, and under the promise that no page is set DEAD, the same pages are live. -/
structure SameTopology (noDead : Prop) (s t : PageOwnershipIndex) : Prop where
  shapes : ∀ h : PageHandle, t.pages[h]?.map shape = s.pages[h]?.map shape
  live : noDead → ∀ h, t.Live h ↔ s.Live h

variable {d k : Prop}

theorem SameTopology.of_pages (h : t.pages = s.pages) : SameTopology d s t :=
  ⟨fun a => by rw [h],fun _ a => by unfold Live; rw [h]⟩

theorem SameTopology.trans (h : SameTopology d s t) (h' : SameTopology d t u) : SameTopology d s u :=
  ⟨fun a => (h'.shapes a).trans (h.shapes a),fun hd a => (h'.live hd a).trans (h.live hd a)⟩

/-- An update that touches neither edges nor depth nor residency. -/
theorem SameTopology.of_update {hs : Finset PageHandle} {f : PhysicalPageRecord → PhysicalPageRecord}
    (ht : t.pages = s.pages.updateAll hs f) (hf : ∀ p, shape (f p) = shape p ∧ (f p).residency = p.residency) :
    SameTopology d s t := by
  refine ⟨fun a => ?_,fun _ a => ?_⟩
  · rw [ht,Dict.get_updateAll]
    split_ifs
    · cases s.pages[a]? with
      | none => rfl
      | some p => exact congrArg some (hf p).1
    · rfl
  · unfold Live
    rw [ht,Dict.get_updateAll]
    split_ifs
    · cases s.pages[a]? with
      | none => simp
      | some p => simp [(hf p).2]
    · rfl

theorem SameTopology.of_patch {b : Bool} {ks : Finset Component} (ht : t.pages = s.pages.insert h q)
    (hp : s.requirePage h = .ok p) (hq : Patched p q b ks) (hdepth : q.radixDepth = p.radixDepth)
    (hdead : d → q.residency ≠ .dead) : SameTopology d s t := by
  obtain ⟨hpage,hlive,-⟩ := requirePage_eq_ok.mp hp
  have hshape : shape q = shape p := by
    unfold shape
    rw [hq.parent,hq.children,hdepth]
  refine ⟨fun a => ?_,fun hd a => ?_⟩
  · rw [ht,Dict.get_insert]
    split_ifs with ha
    · rw [← ha,hpage,Option.map_some,Option.map_some,hshape]
    · rfl
  · unfold Live
    rw [ht,Dict.get_insert]
    split_ifs with ha
    · subst ha
      exact iff_of_true ⟨q,rfl,hdead hd⟩ ⟨p,hpage,hlive⟩
    · rfl

/-- An effect advances the topology revision or keeps the topology. -/
theorem Effect.topology (heff : Effect d k s t) : s.topologyRevision < t.topologyRevision ∨
    t.topologyRevision = s.topologyRevision ∧ SameTopology d s t := by
  cases heff with
  | quiet e he => exact .inr ⟨rfl,.of_pages rfl⟩
  | refresh =>
    refine .inr ⟨?_,.of_pages (sameRecords_refreshPhysical s).pages⟩
    unfold refreshPhysical
    split_ifs <;> rfl
  | patch hp q b cs ks hq hdead =>
    cases b with
    | true => exact .inl (Nat.lt_succ_self _)
    | false =>
      have hdepth := hq.radixDepth.resolve_right fun h => Bool.false_ne_true h.2
      exact .inr ⟨rfl,.of_patch rfl hp hq hdepth hdead⟩
  | repin c f hf => exact .inr ⟨rfl,.of_update rfl fun _ => ⟨rfl,rfl⟩⟩
  | retire hp b => exact .inl (Nat.lt_succ_self _)
  | register p hnew hgen hparent hbare hrefs hdead => exact .inl (Nat.lt_succ_self _)
  | relink hp parent hparent => exact .inl (Nat.lt_succ_self _)
  | bind c e hs he hlive handles hsub => exact .inr ⟨rfl,.of_update rfl fun _ => ⟨rfl,rfl⟩⟩
  | rebind c e hs he hsub => exact .inr ⟨rfl,.of_update rfl fun _ => ⟨rfl,rfl⟩⟩
  | unbind c hne ks howner hpins => exact .inr ⟨rfl,.of_update rfl fun _ => ⟨rfl,rfl⟩⟩
  | advance c e cur hcur hle => exact .inr ⟨rfl,.of_update rfl fun _ => ⟨rfl,rfl⟩⟩
  | readvance c e he => exact .inr ⟨rfl,.of_update rfl fun _ => ⟨rfl,rfl⟩⟩
  | enroll c w e hmono hw hk => exact .inr ⟨rfl,.of_pages rfl⟩

/-- A call advances the topology revision or keeps the topology. -/
theorem apply_topology (hs : s.Base) {op : Op} (hok : op.apply s = .ok t) :
    s.topologyRevision < t.topologyRevision ∨
      t.topologyRevision = s.topologyRevision ∧ SameTopology op.NoDead s t := by
  obtain ⟨u,hsu,hut⟩ := op.effect_pair hs hok
  obtain hut | ⟨hrev,hsame⟩ := hut.topology
  · cases hsu with
    | refl => exact .inl hut
    | single heff =>
      obtain hsu | ⟨hrev,-⟩ := heff.topology
      · exact .inl (hsu.trans hut)
      · exact .inl (hrev ▸ hut)
  · cases hsu with
    | refl => exact .inr ⟨hrev,hsame⟩
    | single heff =>
      obtain hsu | ⟨hrev',hsame'⟩ := heff.topology
      · exact .inl (hrev.symm ▸ hsu)
      · exact .inr ⟨hrev.trans hrev',hsame'.trans hsame⟩

/-! ## All calls -/

/-- The call registers no context that is known. -/
def Op.FirstEntry (s : PageOwnershipIndex) : Op → Prop
  | registerContext c _ _ => s.contextEpoch[c]? = none
  | _ => True

/-- The call replaces the pages of a context by some pages. -/
def Op.Rebinds : Op → Prop
  | bindPages _ _ handles replace => replace = true ∧ handles ≠ []
  | _ => False

/-- The call sets the residency of a page that is there to DEAD. -/
def Op.MarksDead : Op → Prop
  | updateRuntimeState _ residency _ _ _ => residency = some .dead
  | _ => False

theorem apply_tells (hs : s.Inv) (he : s.EpochsCurrent) {op : Op} (hfirst : op.FirstEntry s) (hplain : ¬ op.Rebinds)
    (hok : op.apply s = .ok t) : Tells s t := by
  cases op with
  | registerContext c w e => exact registerContext_tells hfirst hok
  | registerPage h size res depth parent isSealed access => exact (registerPage_tells hok).1
  | bindPages c e handles replace =>
    exact bindPages_tells hs he (fun hreplace => by_contra fun hne => hplain ⟨hreplace,hne⟩) hok
  | unbindContext c =>
    cases hok
    exact unbindContext_tells c
  | freePage h => exact freePage_tells hs.toLinked hok
  | invalidatePage h => exact invalidatePage_tells hs.toLinked hok
  | setParent h parent => exact setParent_tells hs.toLinked hok
  | updateContextEpoch c e => exact updateContextEpoch_tells hs.toOwned he hok
  | setEngineLock h value => exact setEngineLock_tells hok
  | setActiveReaders h value => exact setActiveReaders_tells hok
  | pinContext c =>
    cases hok
    exact pinContext_tells c
  | unpinContext c =>
    cases hok
    exact unpinContext_tells c
  | updateRuntimeState h res depth lock access => exact updateRuntimeState_tells hok
  | beginTransfer h dir => exact beginTransfer_tells hok
  | completeTransfer h dir keepGpu => exact completeTransfer_tells hok
  | abortTransfer h => exact abortTransfer_tells hok
  | commitCpu h => exact commitCpu_tells hok
  | dropPage h => exact dropPage_tells hs.toLinked hok
  | dropHostCopy h => exact dropHostCopy_tells hs.toLinked hok
  | readPhysical =>
    cases hok
    exact refreshPhysical_tells

theorem apply_live (hs : s.Base) {op : Op} (hdead : ¬ op.MarksDead) (hok : op.apply s = .ok t)
    (hrev : t.topologyRevision = s.topologyRevision) (h : PageHandle) : t.Live h ↔ s.Live h := by
  have hnoDead : op.NoDead := by
    cases op with
    | registerPage h size res depth parent isSealed access =>
      exact absurd hrev (registerPage_tells hok).2.ne'
    | updateRuntimeState h res depth lock access => exact hdead
    | _ => trivial
  obtain hlt | ⟨-,hsame⟩ := apply_topology hs hok
  · exact absurd hrev hlt.ne'
  · exact hsame.live hnoDead h

theorem apply_shape (hs : s.Base) {op : Op} (hok : op.apply s = .ok t)
    (hrev : t.topologyRevision = s.topologyRevision) (h : PageHandle) :
    t.pages[h]?.map shape = s.pages[h]?.map shape := by
  obtain hlt | ⟨-,hsame⟩ := apply_topology hs hok
  · exact absurd hrev hlt.ne'
  · exact hsame.shapes h

/-! ## Where a call is faithful -/

/-- A call that raises has changed nothing. Where a call returns, the revision tells whether any page record, set of
pages of a context, epoch or workflow has changed, and the topology revision has advanced if some edge, some depth or
the set of live pages has changed. -/
structure Faithful (s : PageOwnershipIndex) (op : Op) : Prop where
  atomic : ∀ e t, op.perform s = .error e t → t = s
  tells : ∀ t, op.perform s = .ok () t → Tells s t
  topology : ∀ t, op.perform s = .ok () t → t.topologyRevision = s.topologyRevision → ∀ h : PageHandle,
    t.pages[h]?.map shape = s.pages[h]?.map shape ∧ (t.Live h ↔ s.Live h)

/-- The pages that a context owns, and no others, replace themselves, and none of them is pinned for it. -/
def Op.BindsAgain (s : PageOwnershipIndex) : Op → Prop
  | bindPages c e handles replace => replace = true ∧ handles ≠ [] ∧ s.contextEpoch[c]? = some e ∧
      handles.toFinset = s.pagesOf c ∧
      ∀ h ∈ handles, ∀ p : PhysicalPageRecord, s.pages[h]? = some p → c ∉ p.semanticPinContexts
  | _ => False

/-- The residency of a live page is set to DEAD by arguments that are in order, and its depth stays as it is. -/
def Op.Kills (s : PageOwnershipIndex) : Op → Prop
  | updateRuntimeState h residency depth lock access => residency = some .dead ∧ depth.any (· < 0) = false ∧
      lock.any (· < 0) = false ∧ access.any (· < 0) = false ∧
      ∃ p, s.requirePage h = .ok p ∧ depth.any (p.radixDepth ≠ ·) = false
  | _ => False

theorem perform_eq_ok (hs : s.Base) {op : Op} : op.perform s = .ok () t ↔ op.apply s = .ok t := by
  refine ⟨perform_ok hs,fun hok => ?_⟩
  rw [perform_settled hs,hok]
  rfl

/-- A page of a context is live and of the latest generation. -/
theorem requirePage_of_owned (hs : s.Inv) (hown : h ∈ s.pagesOf c) : ∃ p, s.requirePage h = .ok p := by
  obtain ⟨p,hp⟩ := (Dict.mem_iff_get _ _).mp (hs.pagesOf_known c h hown).2
  have howner := (hs.owner_iff c h p hp).mp hown
  have hlive : p.residency ≠ .dead := fun hdead => hs.dead_unowned h p hp hdead c howner
  refine ⟨p,requirePage_eq_ok.mpr ⟨hp,hlive,fun g hg => ?_⟩⟩
  rw [hs.live_latest h p hp hlive] at hg
  exact (Option.some.inj hg).symm

theorem requirePages_of_live (hs : s.Base) {handles : List PageHandle}
    (hlive : ∀ h ∈ handles, ∃ p, s.requirePage h = .ok p) : s.requirePages handles = .ok handles.toFinset := by
  induction handles with
  | nil => rfl
  | cons h handles ih =>
    obtain ⟨p,hp⟩ := hlive h List.mem_cons_self
    have hrest := ih fun a ha => hlive a (List.mem_cons_of_mem h ha)
    refine bind_eq_ok.mpr ⟨p,hp,bind_eq_ok.mpr ⟨_,hrest,?_⟩⟩
    rw [hs.handle_eq h p (requirePage_eq_ok.mp hp).1,List.toFinset_cons]

theorem requirePages_toFinset (hs : s.Base) {handles : List PageHandle} {resolved : Finset PageHandle}
    (hok : s.requirePages handles = .ok resolved) : resolved = handles.toFinset := by
  induction handles generalizing resolved with
  | nil =>
    cases hok
    rfl
  | cons h handles ih =>
    obtain ⟨p,hp,hok⟩ := bind_eq_ok.mp hok
    obtain ⟨rest,hrest,hok⟩ := bind_eq_ok.mp hok
    cases hok
    rw [hs.handle_eq h p (requirePage_eq_ok.mp hp).1,ih hrest,List.toFinset_cons]

/-- What a replacement by some pages leaves. -/
theorem rebind_eq (hs : s.Base) {e : ℤ} {handles : List PageHandle} (hsome : handles ≠ [])
    (hok : s.bindPages c e handles true = .ok t) : s.contextEpoch[c]? = some e ∧
      t = ((s.unbindContext c).claimPages c e handles.toFinset).touch false handles.toFinset {c} {.owner} := by
  obtain ⟨_,hval,hok⟩ := bind_eq_ok.mp hok
  obtain ⟨resolved,hres,hok⟩ := bind_eq_ok.mp hok
  obtain rfl := requirePages_toFinset hs hres
  have hne : handles.toFinset ≠ ∅ := fun h => hsome (List.toFinset_eq_empty_iff _ |>.mp h)
  simp only [Bool.not_true,Bool.false_eq_true,false_and,if_false,true_and,if_true] at hok
  rw [if_pos hne] at hok
  cases hok
  exact ⟨validateContextEpoch_eq_ok hval,rfl⟩

theorem touch_unchanged {b : Bool} {hs : Finset PageHandle} {cs : Finset String} {ks : Finset Component} :
    Unchanged s (t.touch b hs cs ks) ↔ Unchanged s t :=
  ⟨fun h => ⟨h.pages,h.pagesOf,h.contextEpoch,h.contextWorkflow⟩,
    fun h => ⟨h.pages,h.pagesOf,h.contextEpoch,h.contextWorkflow⟩⟩

/-- A replacement that changes nothing puts the pages of the context back, and takes no pin from them. -/
theorem bindsAgain_of_unchanged {e : ℤ} {handles : List PageHandle} (hepoch : s.contextEpoch[c]? = some e)
    (hsome : handles ≠ []) (hsame : Unchanged s ((s.unbindContext c).claimPages c e handles.toFinset)) :
    (Op.bindPages c e handles true).BindsAgain s := by
  have hunbound := sameRecords_unbindContext (s := s) c
  have hpages : handles.toFinset = s.pagesOf c := by
    rw [← hsame.pagesOf c]
    change _ = ((s.unbindContext c).contextPages.insert c _)[c]?.getD ∅
    rw [getD_insert,if_pos rfl,hunbound.pagesOf c]
    change _ = (s.contextPages.insert c ∅)[c]?.getD ∅ ∪ _
    rw [getD_insert,if_pos rfl,Finset.empty_union]
  refine ⟨rfl,hsome,hepoch,hpages,fun h hh p hp hpin => ?_⟩
  have hin : h ∈ s.pagesOf c := hpages ▸ List.mem_toFinset.mpr hh
  have hget : ((s.unbindContext c).updatePages handles.toFinset _).pages[h]? = s.pages[h]? :=
    congrArg (·[h]?) hsame.pages
  rw [get_updatePages,hunbound.pages,if_pos (List.mem_toFinset.mpr hh)] at hget
  change (s.pages.updateAll (s.pagesOf c) _)[h]?.map _ = _ at hget
  rw [Dict.get_updateAll,if_pos hin,hp,Option.map_some,Option.map_some] at hget
  have hpins : p.semanticPinContexts.erase c = p.semanticPinContexts :=
    congrArg PhysicalPageRecord.semanticPinContexts (Option.some.inj hget)
  rw [← hpins] at hpin
  exact Finset.notMem_erase c _ hpin

/-- A replacement by some pages always advances the revision, which is right unless it binds the same pages again. -/
theorem rebind_tells_iff (hs : s.Inv) (he : s.EpochsCurrent) {e : ℤ} {handles : List PageHandle}
    (hsome : handles ≠ []) (hok : s.bindPages c e handles true = .ok t) :
    Tells s t ↔ ¬ (Op.bindPages c e handles true).BindsAgain s := by
  obtain ⟨hepoch,heq⟩ := rebind_eq hs.toBase hsome hok
  have hmoved := rebind_revision hsome hok
  have hsame : Unchanged s t ↔ (Op.bindPages c e handles true).BindsAgain s := by
    rw [heq,touch_unchanged]
    refine ⟨bindsAgain_of_unchanged hepoch hsome,?_⟩
    rintro ⟨-,-,-,hpages,hpins⟩
    rw [hpages]
    refine rebind_unchanged hs he hepoch fun h hh p hp => hpins h ?_ p hp
    rwa [← hpages,List.mem_toFinset] at hh
  rw [← hsame]
  exact ⟨fun htells h => hmoved.ne' (htells.mpr h),fun h => .moved h hmoved⟩

theorem bindsAgain_accepted (hs : s.Inv) {e : ℤ} {handles : List PageHandle} {replace : Bool}
    (h : (Op.bindPages c e handles replace).BindsAgain s) : ∃ t, s.bindPages c e handles replace = .ok t := by
  obtain ⟨rfl,hsome,hepoch,hpages,-⟩ := h
  have hlive : ∀ h ∈ handles, ∃ p, s.requirePage h = .ok p := fun h hh =>
    requirePage_of_owned hs (c := c) (hpages ▸ List.mem_toFinset.mpr hh)
  have hval : s.validateContextEpoch c e = .ok () := by
    unfold validateContextEpoch contextEpochOf
    simp [hepoch]
  have hne : handles.toFinset ≠ ∅ := fun h => hsome (List.toFinset_eq_empty_iff _ |>.mp h)
  refine ⟨((s.unbindContext c).claimPages c e handles.toFinset).touch false handles.toFinset {c} {.owner},
    bind_eq_ok.mpr ⟨(),hval,bind_eq_ok.mpr ⟨_,requirePages_of_live hs.toBase hlive,?_⟩⟩⟩
  simp only [Bool.not_true,Bool.false_eq_true,false_and,if_false,true_and,if_true]
  exact if_pos hne

/-- An update that kills a page takes it from the live ones under the same topology revision. -/
theorem kills_unseen {residency : Option PhysicalResidency} {depth lock : Option ℤ} {access : Option ℚ}
    (hkills : (Op.updateRuntimeState h residency depth lock access).Kills s) :
    ∃ t, s.updateRuntimeState h residency depth lock access = .ok t ∧
      t.topologyRevision = s.topologyRevision ∧ s.Live h ∧ ¬ t.Live h := by
  obtain ⟨rfl,hdepth,hlock,haccess,p,hp,hstays⟩ := hkills
  obtain ⟨hpage,hlive,-⟩ := requirePage_eq_ok.mp hp
  have hres : (some PhysicalResidency.dead).any (p.residency ≠ ·) = true := by simpa using hlive
  refine ⟨(s.updatePages {h} fun q => { q with
      residency := .dead
      radixDepth := depth.getD q.radixDepth
      engineLockRef := lock.getD q.engineLockRef
      lastAccessMs := access.getD q.lastAccessMs }).touch false {h} p.ownerContexts.keySet
    (runtimeTags true depth.isSome lock.isSome access.isSome),bind_eq_ok.mpr ⟨p,hp,?_⟩,?_⟩
  · rw [if_neg (by simp [hdepth]),if_neg (by simp [hlock]),if_neg (by simp [haccess])]
    simp only [hres,hstays,Bool.true_or,if_true]
    rfl
  · refine ⟨rfl,⟨p,hpage,hlive⟩,?_⟩
    rintro ⟨q,hq,hqlive⟩
    rw [touch_pages,get_updatePages,if_pos (Finset.mem_singleton_self h),hpage] at hq
    exact hqlive (congrArg PhysicalPageRecord.residency (Option.some.inj hq)).symm

/-- An accepted update to DEAD that kills no page under its depth moves the page. -/
theorem marked_topology {op : Op} (hmarks : op.MarksDead) (hlives : ¬ op.Kills s) (hok : op.apply s = .ok t) :
    s.topologyRevision < t.topologyRevision := by
  cases op with
  | updateRuntimeState h residency depth lock access =>
    obtain ⟨p,hp,hok⟩ := bind_eq_ok.mp hok
    split_ifs at hok with hdepth hlock haccess
    have hmoved : depth.any (p.radixDepth ≠ ·) = true := by
      by_contra hstays
      exact hlives ⟨hmarks,by simpa using hdepth,by simpa using hlock,by simpa using haccess,p,hp,
        by simpa using hstays⟩
    simp only [hmoved,Bool.or_true,Bool.true_or,if_true] at hok
    cases hok
    exact Nat.lt_succ_self _
  | _ => exact hmarks.elim

end Revision

/-! ## A page that is bound again, and one that dies -/

/-- One context with one page that is not pinned. -/
def boundRun : List Op :=
  [.registerContext "reader" "flow" 7,.registerPage ⟨53,7⟩ 59 .gpuOnly 0 none true 0,
    .bindPages "reader" 7 [⟨53,7⟩] false]

def boundIndex : PageOwnershipIndex := empty.run boundRun

theorem boundIndex_inv : boundIndex.Inv :=
  run_inv boundRun (by decide)

theorem boundIndex_epochs : boundIndex.EpochsCurrent := by
  have hall : Run.AllSteps step (fun t op => op.NoDead ∧ op.KeepsEpochs t) empty boundRun := by decide
  have hboth : boundIndex.Inv ∧ boundIndex.EpochsCurrent := by
    refine Run.AllSteps.invariant (I := fun t : PageOwnershipIndex => t.Inv ∧ t.EpochsCurrent) (fun t op ht hop => ?_)
      ⟨empty_inv,empty_epochsCurrent⟩ hall
    exact ⟨step_inv ht.1 hop.1,step_epochsCurrent ht.1 ht.2 hop.1 hop.2⟩
  exact hboth.2

end BeliefKV.PageOwnershipIndex
