import BeliefKV.PageIndex.Transfers

/-! The calls that settle one page look at that page alone and leave the others alone; the other
calls leave the transfers under way alone. -/
namespace BeliefKV.PageOwnershipIndex

/-- What the calls that settle a page look at. -/
def standing (p : PhysicalPageRecord) :
    PhysicalResidency × Option TransferDirection × ℤ × ℤ × Finset String :=
  (p.residency,p.transferDirection,p.engineLockRef,p.activeReaderCount,p.semanticPinContexts)

/-- The standing of a handle, with the youngest allocation of its page id. -/
def standingOf (s : PageOwnershipIndex) (h : PageHandle) :
    Option (PhysicalResidency × Option TransferDirection × ℤ × ℤ × Finset String) × Option ℕ :=
  (s.pages[h]?.map standing,s.latestGeneration[h.pageId]?)

/-- The transfer a handle is in. -/
def transferOf (s : PageOwnershipIndex) (h : PageHandle) : Option TransferDirection :=
  s.pages[h]?.bind PhysicalPageRecord.transferDirection

/-- Nothing happens, or something happens to one page and to no other. -/
def OnlyAt (h : PageHandle) (s s' : PageOwnershipIndex) : Prop :=
  s' = s ∨ s'.standingOf h ≠ s.standingOf h ∧ ∀ k ≠ h, s'.standingOf k = s.standingOf k

section Standing
variable {s s' t : PageOwnershipIndex} {h k : PageHandle} {p : PhysicalPageRecord}

theorem transferOf_eq (s : PageOwnershipIndex) (h : PageHandle) :
    s.transferOf h = (s.standingOf h).1.bind (·.2.1) := by
  unfold transferOf standingOf
  cases s.pages[h]? <;> rfl

@[simp] theorem standingOf_touch (b : Bool) (hs : Finset PageHandle) (cs : Finset String)
    (ks : Finset Component) : (s.touch b hs cs ks).standingOf h = s.standingOf h := rfl

theorem standingOf_updatePages_notMem {hs : Finset PageHandle}
    (f : PhysicalPageRecord → PhysicalPageRecord) (hk : k ∉ hs) :
    (s.updatePages hs f).standingOf k = s.standingOf k := by
  unfold standingOf
  rw [get_updatePages,if_neg hk]
  rfl

theorem standingOf_updatePages {f : PhysicalPageRecord → PhysicalPageRecord}
    (hf : ∀ p, standing (f p) = standing p) (hs : Finset PageHandle) :
    (s.updatePages hs f).standingOf k = s.standingOf k := by
  unfold standingOf
  rw [get_updatePages]
  split_ifs
  · rw [Option.map_map,show standing ∘ f = standing from funext hf]
    rfl
  · rfl

theorem standingOf_retirePage_ne (b : Bool) (hk : k ≠ h) :
    (s.retirePage h p b).standingOf k = s.standingOf k := by
  have hk' : k ∉ ({h} : Finset PageHandle) := by simpa using hk
  refine (standingOf_updatePages_notMem _ hk').trans ?_
  refine (standingOf_updatePages (fun q => ?_) _).trans ?_
  · split_ifs <;> rfl
  · exact (standingOf_updatePages (by intro _; rfl) _).trans (standingOf_updatePages_notMem _ hk')

theorem standingOf_retirePage_self (hp : s.pages[h]? = some p) (b : Bool) :
    (s.retirePage h p b).standingOf h =
      (some (.dead,p.transferDirection,p.engineLockRef,p.activeReaderCount,∅),
        s.latestGeneration[h.pageId]?) := by
  refine (standingOf_updatePages (by intro _; rfl) _).trans ?_
  refine (standingOf_updatePages (fun q => ?_) _).trans ?_
  · split_ifs <;> rfl
  · refine (standingOf_updatePages (by intro _; rfl) _).trans ?_
    unfold standingOf
    rw [get_updatePages,if_pos (Finset.mem_singleton_self h)]
    change (Option.map standing (Option.map _ s.pages[h]?),_) = _
    rw [hp]
    rfl

/-- A live page is live wherever it has the same standing. -/
theorem requirePage_of_standing (ht : t.standingOf h = s.standingOf h)
    (hp : s.requirePage h = .ok p) : ∃ q, t.requirePage h = .ok q ∧ standing q = standing p := by
  obtain ⟨hpage,hlive,hgen⟩ := requirePage_eq_ok.mp hp
  obtain ⟨hrec,hlatest⟩ := Prod.mk.inj ht
  rw [hpage,Option.map_some] at hrec
  obtain ⟨q,hq,hst⟩ := Option.map_eq_some_iff.mp hrec
  refine ⟨q,requirePage_eq_ok.mpr ⟨hq,?_,by rw [hlatest]; exact hgen⟩,hst⟩
  rwa [show q.residency = p.residency from congrArg Prod.fst hst]

/-! ## Settling calls -/

theorem moveResidency_onlyAt (hp : s.requirePage h = .ok p) {res : PhysicalResidency}
    {dir : Option TransferDirection} (ks : Finset Component)
    (hne : (res,dir) ≠ (p.residency,p.transferDirection)) :
    OnlyAt h s (s.moveResidency h p res dir ks) := by
  have hpage := (requirePage_eq_ok.mp hp).1
  refine .inr ⟨fun heq => hne ?_,fun k hk => ?_⟩
  · have hrec := (Prod.mk.inj heq).1
    rw [get_moveResidency,if_pos rfl,hpage,Option.map_some,Option.map_some,Option.map_some] at hrec
    have hst := Option.some.inj hrec
    simp only [standing,Prod.mk.injEq] at hst
    rw [hst.1,hst.2.1]
  · unfold moveResidency
    rw [standingOf_touch,standingOf_updatePages_notMem _ (by simpa using hk)]

theorem retirePage_onlyAt (hp : s.requirePage h = .ok p) (b : Bool) :
    OnlyAt h s (s.retirePage h p b) := by
  obtain ⟨hpage,hlive,-⟩ := requirePage_eq_ok.mp hp
  refine .inr ⟨fun heq => hlive ?_,fun k hk => standingOf_retirePage_ne b hk⟩
  rw [standingOf_retirePage_self hpage b] at heq
  have hrec := (Prod.mk.inj heq).1
  rw [hpage,Option.map_some] at hrec
  exact (congrArg Prod.fst (Option.some.inj hrec)).symm

theorem repinPages_onlyAt (f : Finset String → Finset String) :
    OnlyAt h s (s.repinPages {h} f) := by
  by_cases hsame : (s.repinPages {h} f).standingOf h = s.standingOf h
  · left
    have hpages : s.pages.updateAll {h} (fun p => { p with
        semanticPinContexts := f p.semanticPinContexts }) = s.pages := by
      apply Dict.ext_get
      intro k
      rw [Dict.get_updateAll]
      split_ifs with hk
      · rw [Finset.mem_singleton.mp hk]
        have hrec := (Prod.mk.inj hsame).1
        rw [repinPages,get_updatePages,if_pos (by simp)] at hrec
        cases hp : s.pages[h]? with
        | none => rfl
        | some p =>
          rw [hp,Option.map_some,Option.map_some,Option.map_some] at hrec
          rw [Option.map_some,show f p.semanticPinContexts = p.semanticPinContexts from
            congrArg (fun x => x.2.2.2.2) (Option.some.inj hrec)]
      · rfl
    unfold repinPages updatePages
    rw [hpages]
  · exact .inr ⟨hsame,fun k hk => standingOf_updatePages_notMem _ (by simpa using hk)⟩

theorem beginTransfer_onlyAt {dir : TransferDirection} (hok : s.beginTransfer h dir = .ok s') :
    OnlyAt h s s' := by
  obtain ⟨p,hp,hidle,-,rfl⟩ := beginTransfer_eq_ok.mp hok
  exact moveResidency_onlyAt hp _ (by simp [hidle])

theorem completeTransfer_onlyAt {dir : TransferDirection} {keepGpu : Bool}
    (hok : s.completeTransfer h dir keepGpu = .ok s') : OnlyAt h s s' := by
  obtain ⟨p,hp,hdir,rfl⟩ := completeTransfer_eq_ok.mp hok
  exact moveResidency_onlyAt hp _ (by simp [hdir])

theorem abortTransfer_onlyAt (hok : s.abortTransfer h = .ok s') : OnlyAt h s s' := by
  obtain ⟨p,dir,hp,hdir,rfl⟩ := abortTransfer_eq_ok.mp hok
  exact moveResidency_onlyAt hp _ (by simp [hdir])

theorem commitCpu_onlyAt (hok : s.commitCpu h = .ok s') : OnlyAt h s s' := by
  obtain ⟨p,hp,⟨-,rfl⟩ | ⟨hres,rfl⟩⟩ := commitCpu_eq_ok.mp hok
  · exact .inl rfl
  · exact moveResidency_onlyAt hp _ (by simp [hres])

theorem freePage_onlyAt (hok : s.freePage h = .ok s') : OnlyAt h s s' := by
  obtain ⟨p,hp,-,-,-,rfl⟩ := freePage_eq_ok.mp hok
  exact retirePage_onlyAt hp false

theorem dropPage_onlyAt (hok : s.dropPage h = .ok s') : OnlyAt h s s' := by
  obtain ⟨p,hp,-,⟨hres,rfl⟩ | ⟨-,hfree⟩⟩ := dropPage_eq_ok.mp hok
  · exact moveResidency_onlyAt hp _ (by simp [hres])
  · exact freePage_onlyAt hfree

theorem dropHostCopy_onlyAt (hok : s.dropHostCopy h = .ok s') : OnlyAt h s s' := by
  obtain ⟨p,hp,-,⟨hres,rfl⟩ | ⟨-,hfree⟩⟩ := dropHostCopy_eq_ok.mp hok
  · exact moveResidency_onlyAt hp _ (by simp [hres])
  · exact freePage_onlyAt hfree

end Standing

/-! ## Calls that leave transfers alone -/

/-- The call neither begins nor ends a transfer. -/
def Op.Still : Op → Prop
  | .beginTransfer .. | .completeTransfer .. | .abortTransfer .. => False
  | _ => True

section Still
variable {s s' : PageOwnershipIndex} {h : PageHandle}

theorem transferOf_updatePages {f : PhysicalPageRecord → PhysicalPageRecord}
    (hf : ∀ p, (f p).transferDirection = p.transferDirection) (hs : Finset PageHandle) :
    (s.updatePages hs f).transferOf h = s.transferOf h := by
  unfold transferOf
  rw [get_updatePages]
  split_ifs
  · cases s.pages[h]? with
    | none => rfl
    | some p => exact hf p
  · rfl

theorem transferOf_retirePage (k : PageHandle) (p : PhysicalPageRecord) (b : Bool) :
    (s.retirePage k p b).transferOf h = s.transferOf h := by
  refine (transferOf_updatePages (by intro _; rfl) _).trans ?_
  refine (transferOf_updatePages (fun q => ?_) _).trans ?_
  · split_ifs <;> rfl
  · refine (transferOf_updatePages (by intro _; rfl) _).trans ?_
    exact transferOf_updatePages (by intro _; rfl) _

theorem transferOf_unbindContext (c : String) : (s.unbindContext c).transferOf h = s.transferOf h := by
  simp only [unbindContext]
  split_ifs
  all_goals exact transferOf_updatePages (by intro _; rfl) _

theorem transferOf_claimPages (c : String) (e : ℤ) (hs : Finset PageHandle) :
    (s.claimPages c e hs).transferOf h = s.transferOf h :=
  transferOf_updatePages (by intro _; rfl) _

theorem transferOf_freePage {k : PageHandle} (hok : s.freePage k = .ok s') :
    s'.transferOf h = s.transferOf h := by
  obtain ⟨p,-,-,-,-,rfl⟩ := freePage_eq_ok.mp hok
  exact transferOf_retirePage k p false

/-- A move of the residency alone. -/
theorem transferOf_moveResidency {k : PageHandle} {p : PhysicalPageRecord}
    (hp : s.requirePage k = .ok p) (res : PhysicalResidency) (ks : Finset Component) :
    (s.moveResidency k p res p.transferDirection ks).transferOf h = s.transferOf h := by
  unfold transferOf
  rw [get_moveResidency]
  split_ifs with hk
  · rw [hk,(requirePage_eq_ok.mp hp).1]
    rfl
  · rfl

theorem transferOf_registerPage {k : PageHandle} {size : ℕ} {res : PhysicalResidency} {depth : ℤ}
    {parent : Option PageHandle} {isSealed : Bool} {access : ℚ}
    (hok : s.registerPage k size res depth parent isSealed access = .ok s') :
    s'.transferOf h = s.transferOf h := by
  simp only [registerPage] at hok
  split_ifs at hok with h₁ h₂ h₃ hmem
  obtain ⟨-,-,hok⟩ := bind_eq_ok.mp hok
  cases hok
  refine (transferOf_updatePages (by intro _; rfl) _).trans ?_
  unfold transferOf
  change ((s.pages.insert k _)[h]?).bind _ = _
  rw [Dict.get_insert]
  split_ifs with hk
  · rw [← hk,(Dict.notMem_iff_get _ _).mp (by simpa using hmem)]
    rfl
  · rfl

/-- A call that neither begins nor ends a transfer leaves all transfers alone. -/
theorem Op.Still.transferOf {op : Op} (hop : op.Still) (hok : op.apply s = .ok s') :
    s'.transferOf h = s.transferOf h := by
  cases op with
  | beginTransfer => exact hop.elim
  | completeTransfer => exact hop.elim
  | abortTransfer => exact hop.elim
  | registerContext c w e =>
    simp only [Op.apply,PageOwnershipIndex.registerContext] at hok
    split_ifs at hok <;> · cases hok; rfl
  | registerPage => exact transferOf_registerPage hok
  | bindPages c e hs replace =>
    obtain ⟨-,-,hok⟩ := bind_eq_ok.mp hok
    obtain ⟨resolved,-,hok⟩ := bind_eq_ok.mp hok
    cases replace
    all_goals
      simp only [Bool.false_eq_true,if_true,if_false] at hok
      split_ifs at hok
    all_goals cases hok
    all_goals refine (transferOf_claimPages c e resolved).trans ?_
    all_goals first | rfl | exact transferOf_unbindContext c
  | unbindContext c =>
    cases hok
    exact transferOf_unbindContext c
  | freePage => exact transferOf_freePage hok
  | invalidatePage k =>
    obtain ⟨p,hp,hok⟩ := bind_eq_ok.mp hok
    split_ifs at hok
    cases hok
    exact transferOf_retirePage k p true
  | setParent k parent =>
    obtain ⟨p,hp,hok⟩ := bind_eq_ok.mp hok
    by_cases hself : parent = some k
    · rw [if_pos hself] at hok
      cases hok
    rw [if_neg hself] at hok
    obtain ⟨-,-,hok⟩ := bind_eq_ok.mp hok
    obtain ⟨-,-,hok⟩ := bind_eq_ok.mp hok
    by_cases hsame : p.parent = parent
    · rw [if_pos hsame] at hok
      cases parent with
      | none => cases hok; rfl
      | some q =>
        simp only at hok
        split_ifs at hok
        · cases hok
          exact transferOf_updatePages (by intro _; rfl) _
        · cases hok; rfl
    · rw [if_neg hsame] at hok
      cases hok
      refine (transferOf_updatePages (by intro _; rfl) _).trans ?_
      refine (transferOf_updatePages (by intro _; rfl) _).trans ?_
      exact transferOf_updatePages (by intro _; rfl) _
  | updateContextEpoch c e =>
    obtain ⟨cur,hcur,hok⟩ := bind_eq_ok.mp hok
    split_ifs at hok
    all_goals cases hok
    all_goals exact transferOf_updatePages (by intro _; rfl) _
  | setEngineLock k value =>
    simp only [Op.apply,PageOwnershipIndex.setEngineLock] at hok
    split_ifs at hok
    obtain ⟨p,hp,hok⟩ := bind_eq_ok.mp hok
    split_ifs at hok
    · cases hok
      exact transferOf_updatePages (by intro _; rfl) _
    · cases hok; rfl
  | setActiveReaders k value =>
    simp only [Op.apply,PageOwnershipIndex.setActiveReaders] at hok
    split_ifs at hok
    obtain ⟨p,hp,hok⟩ := bind_eq_ok.mp hok
    split_ifs at hok
    · cases hok
      exact transferOf_updatePages (by intro _; rfl) _
    · cases hok; rfl
  | pinContext c =>
    cases hok
    simp only [PageOwnershipIndex.pinContext]
    split_ifs
    · exact transferOf_updatePages (by intro _; rfl) _
    · rfl
  | unpinContext c =>
    cases hok
    simp only [PageOwnershipIndex.unpinContext]
    split_ifs
    · exact transferOf_updatePages (by intro _; rfl) _
    · rfl
  | updateRuntimeState k res depth lock access =>
    obtain ⟨p,hp,hok⟩ := bind_eq_ok.mp hok
    split_ifs at hok
    cases hok
    split_ifs
    · exact transferOf_updatePages (by intro _; rfl) _
    · rfl
  | commitCpu k =>
    obtain ⟨p,hp,⟨-,rfl⟩ | ⟨-,rfl⟩⟩ := commitCpu_eq_ok.mp hok
    · rfl
    · exact transferOf_moveResidency hp _ _
  | dropPage k =>
    obtain ⟨p,hp,-,⟨-,rfl⟩ | ⟨-,hfree⟩⟩ := dropPage_eq_ok.mp hok
    · exact transferOf_moveResidency hp _ _
    · exact transferOf_freePage hfree
  | dropHostCopy k =>
    obtain ⟨p,hp,-,⟨-,rfl⟩ | ⟨-,hfree⟩⟩ := dropHostCopy_eq_ok.mp hok
    · exact transferOf_moveResidency hp _ _
    · exact transferOf_freePage hfree
  | readPhysical =>
    cases hok
    unfold refreshPhysical
    split_ifs <;> rfl

end Still
end BeliefKV.PageOwnershipIndex
