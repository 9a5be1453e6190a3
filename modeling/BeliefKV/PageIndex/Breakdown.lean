import BeliefKV.PageIndex.Migratable

/-! The totals of the accounting pass and the pages it reports as migratable, page by page. -/
namespace BeliefKV.PageOwnershipIndex
open Relation
variable {s : PageOwnershipIndex}

/-! ## Gates and closures -/

/-- A page that may be moved as far as the page itself is concerned. -/
structure OpenGates (p : PhysicalPageRecord) : Prop where
  whole : p.isSealed = true
  unlocked : p.engineLockRef = 0
  unread : p.activeReaderCount = 0
  unpinned : p.semanticPinContexts = ∅
  idle : p.transferIdle = true

theorem locallyEligible_iff {p : PhysicalPageRecord} : locallyEligible p p.engineLockRef = true ↔ OpenGates p := by
  unfold locallyEligible
  simp only [Bool.and_eq_true,decide_eq_true_eq]
  constructor
  · rintro ⟨⟨⟨⟨hsealed,hlock⟩,hread⟩,hpin⟩,hidle⟩
    exact ⟨hsealed,hlock,hread,hpin,hidle⟩
  · rintro ⟨hsealed,hlock,hread,hpin,hidle⟩
    exact ⟨⟨⟨⟨hsealed,hlock⟩,hread⟩,hpin⟩,hidle⟩

/-- From a page down, the gates of every GPU-resident page are open. -/
def ClosureOpen (s : PageOwnershipIndex) (h : PageHandle) : Prop :=
  ∀ (d : PageHandle) (p : PhysicalPageRecord), ReflTransGen s.Below h d → s.pages[d]? = some p →
    p.gpuResident → OpenGates p

/-- Children are deeper than their parents. -/
def DepthsIncrease (s : PageOwnershipIndex) : Prop :=
  ∀ (h c : PageHandle) (p q : PhysicalPageRecord), s.pages[h]? = some p → c ∈ p.children →
    s.pages[c]? = some q → p.radixDepth < q.radixDepth

theorem SubtreeOpen.closureOpen {h : PageHandle} (ho : s.SubtreeOpen h) : s.ClosureOpen h :=
  fun d p hd hp hgpu => locallyEligible_iff.mp ((ho d p hd hp).1 hgpu)

/-- Where depths increase, every child is accounted for before its parent. -/
theorem subtreeOpen_iff_closureOpen (hdepth : s.DepthsIncrease) {h : PageHandle} :
    s.SubtreeOpen h ↔ s.ClosureOpen h := by
  refine ⟨SubtreeOpen.closureOpen,fun ho d p hd hp => ⟨fun hgpu => ?_,fun c q hc hq => ?_⟩⟩
  · exact locallyEligible_iff.mpr (ho d p hd hp hgpu)
  · have hlt := hdepth d c p q hp hc hq
    simp [deepestFirst,hlt]

/-- A page with open gates and a GPU-resident page below it whose gates are not. -/
structure ClosureBlocked (s : PageOwnershipIndex) (p : PhysicalPageRecord) : Prop where
  resident : p.gpuResident
  gates : OpenGates p
  blocker : ∃ (d : PageHandle) (q : PhysicalPageRecord), TransGen s.Below p.handle d ∧ s.pages[d]? = some q ∧
    q.gpuResident ∧ ¬ OpenGates q

theorem closureBlocked_iff (hb : s.Base) {h : PageHandle} {p : PhysicalPageRecord} (hp : s.pages[h]? = some p) :
    s.ClosureBlocked p ↔ p.gpuResident ∧ OpenGates p ∧ ¬ s.ClosureOpen p.handle := by
  have hhandle := hb.handle_eq h p hp
  constructor
  · rintro ⟨hgpu,hgates,d,q,hd,hq,hgpu',hclosed⟩
    exact ⟨hgpu,hgates,fun ho => hclosed (ho d q hd.to_reflTransGen hq hgpu')⟩
  · rintro ⟨hgpu,hgates,hclosed⟩
    unfold ClosureOpen at hclosed
    push Not at hclosed
    obtain ⟨d,q,hd,hq,hgpu',hshut⟩ := hclosed
    refine ⟨hgpu,hgates,d,q,?_,hq,hgpu',hshut⟩
    obtain heq | hlt := reflTransGen_iff_eq_or_transGen.mp hd
    · rw [heq,hhandle,hp] at hq
      cases hq
      exact absurd hgates hshut
    · exact hlt

/-! ## Totals -/

open Classical in
/-- The bytes of the pages with a property. -/
noncomputable def bytesOf (s : PageOwnershipIndex) (P : PhysicalPageRecord → Prop) : ℕ :=
  ((s.pages.vals.filter (P ·)).map (·.sizeBytes)).sum

open Classical in
/-- What a page counts for a property. -/
noncomputable def share (P : PhysicalPageRecord → Prop) (p : PhysicalPageRecord) : ℕ := if P p then p.sizeBytes else 0

theorem share_eq {P : PhysicalPageRecord → Prop} {p : PhysicalPageRecord} {Q : Prop} [Decidable Q] (h : P p ↔ Q) :
    (if Q then p.sizeBytes else 0) = share P p := by
  unfold share
  by_cases hq : Q
  · rw [if_pos hq,if_pos (h.mpr hq)]
  · rw [if_neg hq,if_neg fun hp => hq (h.mp hp)]

theorem bytesOf_eq_passOrder {P : PhysicalPageRecord → Prop} (hlive : ∀ p, P p → p.live) :
    s.bytesOf P = (s.passOrder.map (share P)).sum := by
  have hvals : (s.pages.select fun _ p => p.live).vals = s.pages.vals.filter (·.live) := by
    unfold Dict.vals Dict.select
    rw [Std.ExtTreeMap.toList_filter,List.filter_map]
    rfl
  unfold bytesOf passOrder
  rw [((List.perm_insertionSort _ _).map (share P)).sum_eq,hvals]
  induction s.pages.vals with
  | nil => rfl
  | cons p ps ih =>
    by_cases hp : P p
    · simp [hp,hlive p hp,ih,share]
    · cases hl : p.live <;> simp [hp,hl,ih,share]

/-- A total that each page adds its share to comes to the sum of the shares. -/
theorem PassKnows.total (hb : s.Base) (hl : s.Linked) {get : PhysicalKvStateBreakdown → ℕ}
    {P : PhysicalPageRecord → Prop}
    (hstep : ∀ (acc : PhysicalPass) (page : PhysicalPageRecord), s.pages[page.handle]? = some page →
      (s.roundEligible acc page = true ↔ s.SubtreeOpen page.handle) →
        get (physicalStep (s.pages.select fun _ p => p.live) ∅ acc page).breakdown =
          get acc.breakdown + share P page) (rest : List PhysicalPageRecord)
    {done : List PhysicalPageRecord} (horder : s.passOrder = done ++ rest) {acc : PhysicalPass}
    (hk : s.PassKnows done acc) :
    get (rest.foldl (physicalStep (s.pages.select fun _ p => p.live) ∅) acc).breakdown =
      get acc.breakdown + (rest.map (share P)).sum := by
  induction rest generalizing done acc with
  | nil => rfl
  | cons page rest ih =>
    have hpage := ((mem_passOrder hb).mp (horder ▸ (by simp : page ∈ done ++ page :: rest))).1
    have hround := hstep acc page hpage (hk.roundEligible_iff hb hl horder)
    rw [List.foldl_cons,ih (by simpa using horder) (hk.step hb hl horder),hround,List.map_cons,List.sum_cons,
      add_assoc]

theorem calculate_total (hb : s.Base) (hl : s.Linked) {get : PhysicalKvStateBreakdown → ℕ}
    {P : PhysicalPageRecord → Prop} (hzero : get {} = 0) (hlive : ∀ p, P p → p.live)
    (hstep : ∀ (acc : PhysicalPass) (page : PhysicalPageRecord), s.pages[page.handle]? = some page →
      (s.roundEligible acc page = true ↔ s.SubtreeOpen page.handle) →
        get (physicalStep (s.pages.select fun _ p => p.live) ∅ acc page).breakdown =
          get acc.breakdown + share P page) :
    get s.calculatePhysicalKvState.breakdown = s.bytesOf P := by
  have htotal := PassKnows.total hb hl hstep s.passOrder (List.nil_append _).symm
    (show s.PassKnows [] {} from ⟨by simp,by simp⟩)
  rw [bytesOf_eq_passOrder hlive]
  have hstart : get ({} : PhysicalPass).breakdown = 0 := hzero
  rw [hstart,zero_add] at htotal
  exact htotal

/-- What one page adds to the totals. -/
theorem physicalStep_breakdown (acc : PhysicalPass) (page : PhysicalPageRecord) :
    (physicalStep (s.pages.select fun _ p => p.live) ∅ acc page).breakdown = {
      gpuBytes := acc.breakdown.gpuBytes + if page.gpuResident then page.sizeBytes else 0
      cpuBytes := acc.breakdown.cpuBytes + if page.cpuResident then page.sizeBytes else 0
      engineLockedBytes := acc.breakdown.engineLockedBytes +
        if page.gpuResident ∧ (0 < page.engineLockRef ∨ 0 < page.activeReaderCount) then page.sizeBytes else 0
      closureBlockedBytes := acc.breakdown.closureBlockedBytes +
        if page.gpuResident ∧ locallyEligible page page.engineLockRef ∧ ¬ s.roundEligible acc page
          then page.sizeBytes else 0
      migratableBytes := acc.breakdown.migratableBytes +
        if page.gpuResident ∧ s.roundEligible acc page then page.sizeBytes else 0
      dualResidentBytes := acc.breakdown.dualResidentBytes +
        if page.gpuResident ∧ page.residency = .dualClean then page.sizeBytes else 0 } := by
  unfold physicalStep roundEligible
  cases hgpu : page.gpuResident
  · cases page.cpuResident <;> simp
  · cases hlocal : locallyEligible page page.engineLockRef
    · cases page.cpuResident <;> simp [hlocal]
    · cases page.cpuResident <;> simp [hlocal]

theorem live_of_cpuResident {p : PhysicalPageRecord} (h : p.cpuResident) : p.live := by
  unfold PhysicalPageRecord.live
  cases hres : p.residency <;> simp [PhysicalPageRecord.cpuResident,hres] at h ⊢

/-! ## The report -/

/-- What the accounting pass reports. -/
structure Reported (s : PageOwnershipIndex) : Prop where
  sound : ∀ h ∈ s.calculatePhysicalKvState.migratableHandles, s.OnGpu h ∧ s.ClosureOpen h
  gpu : s.calculatePhysicalKvState.breakdown.gpuBytes = s.bytesOf (·.gpuResident)
  cpu : s.calculatePhysicalKvState.breakdown.cpuBytes = s.bytesOf (·.cpuResident)
  locked : s.calculatePhysicalKvState.breakdown.engineLockedBytes =
    s.bytesOf fun p => p.gpuResident ∧ (0 < p.engineLockRef ∨ 0 < p.activeReaderCount)
  dual : s.calculatePhysicalKvState.breakdown.dualResidentBytes =
    s.bytesOf fun p => p.gpuResident ∧ p.residency = .dualClean
  migratable : s.calculatePhysicalKvState.breakdown.migratableBytes =
    s.bytesOf fun p => p.handle ∈ s.calculatePhysicalKvState.migratableHandles
  complete : s.DepthsIncrease → ∀ h, s.OnGpu h → s.ClosureOpen h → h ∈ s.calculatePhysicalKvState.migratableHandles
  blocked : s.DepthsIncrease → s.calculatePhysicalKvState.breakdown.closureBlockedBytes = s.bytesOf s.ClosureBlocked

theorem bytesOf_congr {P Q : PhysicalPageRecord → Prop}
    (h : ∀ (k : PageHandle) (p : PhysicalPageRecord), s.pages[k]? = some p → (P p ↔ Q p)) : s.bytesOf P = s.bytesOf Q := by
  unfold bytesOf
  congr 2
  refine List.filter_congr fun p hp => ?_
  obtain ⟨k,hk⟩ := (Dict.mem_vals _ _).mp hp
  simp [h k p hk]

theorem onGpu_iff (hb : s.Base) {k : PageHandle} {p : PhysicalPageRecord} (hp : s.pages[k]? = some p) :
    s.OnGpu p.handle ↔ p.gpuResident := by
  have hhandle := hb.handle_eq k p hp
  rw [hhandle]
  constructor
  · rintro ⟨q,hq,hgpu⟩
    rw [hp] at hq
    cases hq
    exact hgpu
  · exact fun hgpu => ⟨p,hp,hgpu⟩

/-- The migratable pages are the GPU-resident ones whose closure is open, and the totals are those
of their pages. -/
theorem calculation_reports (hs : s.Inv) : s.Reported := by
  have hb := hs.toBase
  have hl := hs.toLinked
  have hlive : ∀ p : PhysicalPageRecord, p.gpuResident → p.live := fun p hp => by
    simpa [PhysicalPageRecord.live] using live_of_gpuResident hp
  have hmigratable : ∀ (k : PageHandle) (p : PhysicalPageRecord), s.pages[k]? = some p →
      (p.gpuResident ∧ s.SubtreeOpen p.handle ↔ p.handle ∈ s.calculatePhysicalKvState.migratableHandles) := by
    intro k p hp
    rw [mem_migratableHandles hb hl,onGpu_iff hb hp]
  refine ⟨?_,?_,?_,?_,?_,?_,?_,?_⟩
  · intro h hmem
    obtain ⟨hgpu,ho⟩ := (mem_migratableHandles hb hl).mp hmem
    exact ⟨hgpu,ho.closureOpen⟩
  · refine calculate_total hb hl rfl hlive fun acc page _ _ => ?_
    rw [physicalStep_breakdown]
    exact congrArg (acc.breakdown.gpuBytes + ·) (share_eq Iff.rfl)
  · refine calculate_total hb hl rfl (fun p => live_of_cpuResident) fun acc page _ _ => ?_
    rw [physicalStep_breakdown]
    exact congrArg (acc.breakdown.cpuBytes + ·) (share_eq Iff.rfl)
  · refine calculate_total hb hl rfl (fun p hp => hlive p hp.1) fun acc page _ _ => ?_
    rw [physicalStep_breakdown]
    exact congrArg (acc.breakdown.engineLockedBytes + ·) (share_eq Iff.rfl)
  · refine calculate_total hb hl rfl (fun p hp => hlive p hp.1) fun acc page _ _ => ?_
    rw [physicalStep_breakdown]
    exact congrArg (acc.breakdown.dualResidentBytes + ·) (share_eq Iff.rfl)
  · rw [← bytesOf_congr hmigratable]
    refine calculate_total hb hl rfl (fun p hp => hlive p hp.1) fun acc page _ hround => ?_
    rw [physicalStep_breakdown]
    exact congrArg (acc.breakdown.migratableBytes + ·) (share_eq (and_congr_right fun _ => hround.symm))
  · intro hdepth h hgpu ho
    exact (mem_migratableHandles hb hl).mpr ⟨hgpu,(subtreeOpen_iff_closureOpen hdepth).mpr ho⟩
  · intro hdepth
    refine calculate_total hb hl rfl (fun p hp => hlive p hp.resident) fun acc page hpage hround => ?_
    rw [physicalStep_breakdown]
    refine congrArg (acc.breakdown.closureBlockedBytes + ·) (share_eq ?_)
    rw [closureBlocked_iff hb hpage,hround,subtreeOpen_iff_closureOpen hdepth,locallyEligible_iff]

/-- A root with a locked leaf and a free one. -/
def lockedFork : List Op :=
  [.registerPage ⟨1,0⟩ 10 .gpuOnly 0 none true 0,.registerPage ⟨2,0⟩ 20 .dualClean 1 (some ⟨1,0⟩) true 0,
    .registerPage ⟨3,0⟩ 30 .gpuOnly 1 (some ⟨1,0⟩) true 0,.setEngineLock ⟨3,0⟩ 1]

/-- The locked leaf blocks the root and spares the free leaf. -/
theorem lockedFork_reported : (empty.run lockedFork).Reported ∧
    (empty.run lockedFork).calculatePhysicalKvState.breakdown = ⟨60,20,30,10,20,20⟩ :=
  ⟨calculation_reports (run_inv lockedFork (by decide)),by decide +kernel⟩

end BeliefKV.PageOwnershipIndex
