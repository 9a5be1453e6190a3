import BeliefKV.PageIndex.Operations

/-! Closure-aware physical accounting over the Radix forest, and the cache in front of it. -/
namespace BeliefKV.PageOwnershipIndex

/-- Deeper pages first, ties broken by handle. -/
def deepestFirst (p q : PhysicalPageRecord) : Bool :=
  q.radixDepth < p.radixDepth ∨
    (p.radixDepth = q.radixDepth ∧ (compare p.handle q.handle).isLE)

/-- The accumulators of the bottom-up accounting pass. -/
structure PhysicalPass where
  subtreeGpuEligible : Dict PageHandle Bool := ∅
  breakdown : PhysicalKvStateBreakdown := {}
  engineLockedPages : List PageHandle := []
  migratableHandles : Finset PageHandle := ∅

/-- The transfer gates of one page, under a possibly overridden engine lock count. -/
def locallyEligible (page : PhysicalPageRecord) (engineLockRef : ℤ) : Bool :=
  page.isSealed && engineLockRef = 0 && page.activeReaderCount = 0 &&
    page.semanticPinContexts = ∅ && page.transferIdle

/-- Account for one page. Its children are at a greater depth, so they came before it. -/
def physicalStep (livePages : Dict PageHandle PhysicalPageRecord) (overrides : Dict PageHandle ℤ)
    (acc : PhysicalPass) (page : PhysicalPageRecord) : PhysicalPass :=
  let childSubtreesEligible : Bool := decide (∀ c ∈ page.children, livePages.contains c →
    acc.subtreeGpuEligible[c]?.getD false)
  let engineLockRef := overrides[page.handle]?.getD page.engineLockRef
  let local' := locallyEligible page engineLockRef
  let eligible := childSubtreesEligible && (if page.gpuResident then local' else true)
  let b := acc.breakdown
  let size := page.sizeBytes
  let b := if page.cpuResident then { b with cpuBytes := b.cpuBytes + size } else b
  if !page.gpuResident then
    { acc with
      subtreeGpuEligible := acc.subtreeGpuEligible.insert page.handle eligible
      breakdown := b }
  else
    { subtreeGpuEligible := acc.subtreeGpuEligible.insert page.handle eligible
      breakdown := { b with
        gpuBytes := b.gpuBytes + size
        engineLockedBytes := b.engineLockedBytes +
          if engineLockRef > 0 ∨ page.activeReaderCount > 0 then size else 0
        dualResidentBytes := b.dualResidentBytes + if page.residency = .dualClean then size else 0
        migratableBytes := b.migratableBytes + if eligible then size else 0
        closureBlockedBytes := b.closureBlockedBytes + if !eligible ∧ local' then size else 0 }
      engineLockedPages := acc.engineLockedPages ++ if engineLockRef > 0 then [page.handle] else []
      migratableHandles := if eligible then insert page.handle acc.migratableHandles
        else acc.migratableHandles }

/-- One bottom-up pass over the live pages. -/
def calculatePhysicalKvState (s : PageOwnershipIndex) (overrides : Dict PageHandle ℤ := ∅) :
    PhysicalPass :=
  let livePages := s.pages.select fun _ p => p.live
  (livePages.vals.insertionSort (deepestFirst · ·)).foldl (physicalStep livePages overrides) {}

/-- The depth of a registered page. -/
def depthOf (s : PageOwnershipIndex) (h : PageHandle) : ℤ :=
  (s.pages[h]?.map PhysicalPageRecord.radixDepth).getD 0

/-- The given handles, deeper pages first and ties in handle order. -/
def byDepth (s : PageOwnershipIndex) (handles : Finset PageHandle) : List PageHandle :=
  (s.pages.keys.filter (· ∈ handles)).insertionSort fun a b => s.depthOf b ≤ s.depthOf a

/-- Fill the cache unless it is current. -/
def refreshPhysical (s : PageOwnershipIndex) : PageOwnershipIndex :=
  if s.physicalBreakdownRevision = s.physicalStateRevision then s
  else
    let pass := s.calculatePhysicalKvState
    { s with
      physicalBreakdown := pass.breakdown
      engineLockedPages := pass.engineLockedPages
      migratableGpuHandles := pass.migratableHandles
      migratableGpuPages := s.byDepth pass.migratableHandles
      physicalBreakdownRevision := s.physicalStateRevision }

/-- The breakdown a caller sees: cached when current, recomputed otherwise. -/
def physicalKvStateBreakdown (s : PageOwnershipIndex) : PhysicalKvStateBreakdown :=
  s.refreshPhysical.physicalBreakdown

def readMigratableGpuPages (s : PageOwnershipIndex) : List PageHandle :=
  s.refreshPhysical.migratableGpuPages

/-! ## What the accounting reads -/

/-- A page record up to the fields physical accounting does not read. -/
def core (p : PhysicalPageRecord) : PhysicalPageRecord :=
  { p with ownerContexts := ∅, lastAccessMs := 0 }

/-- The cores of all records. -/
def cores (pages : Dict PageHandle PhysicalPageRecord) : Dict PageHandle PhysicalPageRecord :=
  pages.map fun _ p => core p

/-- One pass over a given set of records. -/
def passOver (pages : Dict PageHandle PhysicalPageRecord) (overrides : Dict PageHandle ℤ) :
    PhysicalPass :=
  let livePages := pages.select fun _ p => p.live
  (livePages.vals.insertionSort (deepestFirst · ·)).foldl (physicalStep livePages overrides) {}

/-- The records with a change made to each. -/
def rewritten (f : PhysicalPageRecord → PhysicalPageRecord) (pages : Dict PageHandle PhysicalPageRecord) :
    Dict PageHandle PhysicalPageRecord := pages.map fun _ p => f p

theorem get_rewritten (f : PhysicalPageRecord → PhysicalPageRecord) (pages : Dict PageHandle PhysicalPageRecord)
    (h : PageHandle) : (rewritten f pages)[h]? = pages[h]?.map f := Std.ExtTreeMap.getElem?_map

/-- A pass over rewritten records is a pass over the records when each round is. -/
theorem passOver_map {f : PhysicalPageRecord → PhysicalPageRecord} (pages : Dict PageHandle PhysicalPageRecord)
    {overrides overrides' : Dict PageHandle ℤ} (hlive : ∀ p, (f p).live = p.live)
    (hdeepest : ∀ p q, deepestFirst (f p) (f q) = deepestFirst p q)
    (hstep : ∀ live live' : Dict PageHandle PhysicalPageRecord, (∀ h, live'.contains h = live.contains h) →
      ∀ acc p, physicalStep live' overrides' acc (f p) = physicalStep live overrides acc p) :
    passOver (rewritten f pages) overrides' = passOver pages overrides := by
  have hselect : (rewritten f pages).select (fun _ p => p.live) = rewritten f (pages.select fun _ p => p.live) := by
    apply Dict.ext_get
    intro h
    rw [Dict.get_select,get_rewritten,get_rewritten,Dict.get_select]
    cases hp : pages[h]? with
    | none => rfl
    | some p => cases hpl : p.live <;> simp [Option.filter,hlive,hpl]
  have hvals (d : Dict PageHandle PhysicalPageRecord) : (rewritten f d).vals = d.vals.map f := by
    simp [Dict.vals,rewritten,Std.ExtTreeMap.toList_map]
  simp only [passOver,hselect,hvals]
  rw [← List.map_insertionSort (deepestFirst · ·) (deepestFirst · ·) f _ fun a _ b _ => by simp [hdeepest],
    List.foldl_map]
  congr 1
  funext acc p
  exact hstep _ _ (fun h => Std.ExtTreeMap.contains_map) acc p

theorem physicalStep_core (live live' : Dict PageHandle PhysicalPageRecord)
    (hlive : ∀ h, live'.contains h = live.contains h) (overrides : Dict PageHandle ℤ)
    (acc : PhysicalPass) (p : PhysicalPageRecord) :
    physicalStep live' overrides acc (core p) = physicalStep live overrides acc p := by
  simp only [physicalStep,hlive]
  rfl

theorem get_cores (pages : Dict PageHandle PhysicalPageRecord) (h : PageHandle) :
    (cores pages)[h]? = pages[h]?.map core := Std.ExtTreeMap.getElem?_map

theorem passOver_cores (pages : Dict PageHandle PhysicalPageRecord) (overrides : Dict PageHandle ℤ) :
    passOver (cores pages) overrides = passOver pages overrides :=
  passOver_map pages (fun _ => rfl) (fun _ _ => rfl) fun live live' hlive =>
    physicalStep_core live live' hlive overrides

theorem cores_congr {s t : PageOwnershipIndex}
    (hcore : ∀ h : PageHandle, t.pages[h]?.map core = s.pages[h]?.map core) :
    cores t.pages = cores s.pages := by
  apply Dict.ext_get
  intro h
  rw [get_cores,get_cores]
  exact hcore h

/-- Records with equal cores have equal accounting. -/
theorem calculatePhysicalKvState_congr {s t : PageOwnershipIndex}
    (hcore : ∀ h : PageHandle, t.pages[h]?.map core = s.pages[h]?.map core)
    (overrides : Dict PageHandle ℤ) :
    t.calculatePhysicalKvState overrides = s.calculatePhysicalKvState overrides := by
  change passOver t.pages overrides = passOver s.pages overrides
  rw [← passOver_cores t.pages,← passOver_cores s.pages,cores_congr hcore]

theorem byDepth_congr {s t : PageOwnershipIndex}
    (hcore : ∀ h : PageHandle, t.pages[h]?.map core = s.pages[h]?.map core)
    (handles : Finset PageHandle) : t.byDepth handles = s.byDepth handles := by
  have hkeys : t.pages.keys = s.pages.keys := by
    have := congrArg Std.ExtTreeMap.keys (cores_congr hcore)
    simpa only [cores,Std.ExtTreeMap.keys_map] using this
  have hdepth (h : PageHandle) : t.depthOf h = s.depthOf h := by
    have := congrArg (Option.map PhysicalPageRecord.radixDepth) (hcore h)
    simp only [Option.map_map] at this
    exact congrArg (Option.getD · 0) this
  simp only [byDepth,hkeys,hdepth]

/-! ## The cache -/

/-- The cache is not from the future, and a current cache holds what a fresh pass computes. -/
structure CacheValid (s : PageOwnershipIndex) : Prop where
  le : s.physicalBreakdownRevision ≤ s.physicalStateRevision
  fresh : s.physicalBreakdownRevision = s.physicalStateRevision →
    s.physicalBreakdown = (s.calculatePhysicalKvState).breakdown ∧
    s.engineLockedPages = (s.calculatePhysicalKvState).engineLockedPages ∧
    s.migratableGpuHandles = (s.calculatePhysicalKvState).migratableHandles ∧
    s.migratableGpuPages = s.byDepth (s.calculatePhysicalKvState).migratableHandles

/-- The cached fields are carried over. -/
structure SameCache (s t : PageOwnershipIndex) : Prop where
  revision : t.physicalBreakdownRevision = s.physicalBreakdownRevision
  breakdown : t.physicalBreakdown = s.physicalBreakdown
  locked : t.engineLockedPages = s.engineLockedPages
  handles : t.migratableGpuHandles = s.migratableGpuHandles
  pages : t.migratableGpuPages = s.migratableGpuPages

theorem empty_cacheValid : empty.CacheValid := ⟨by decide,fun h => absurd h (by decide)⟩

/-- Carrying the cache over is sound when the accounting inputs stay, or the revision moves. -/
theorem CacheValid.of_sameCache {s t : PageOwnershipIndex} (hs : s.CacheValid) (hc : SameCache s t)
    (h : s.physicalStateRevision < t.physicalStateRevision ∨
      t.physicalStateRevision = s.physicalStateRevision ∧
        ∀ h : PageHandle, t.pages[h]?.map core = s.pages[h]?.map core) : t.CacheValid := by
  have hle := hs.le
  rcases h with hlt | ⟨heq,hcore⟩
  · refine ⟨?_,fun hx => ?_⟩ <;> rw [hc.revision] at *
    · omega
    · omega
  · refine ⟨by rw [hc.revision,heq]; exact hle,fun hx => ?_⟩
    rw [hc.revision,heq] at hx
    rw [hc.breakdown,hc.locked,hc.handles,hc.pages,calculatePhysicalKvState_congr hcore,
      byDepth_congr hcore]
    exact hs.fresh hx

theorem CacheValid.refreshPhysical {s : PageOwnershipIndex} (hs : s.CacheValid) :
    s.refreshPhysical.CacheValid := by
  unfold PageOwnershipIndex.refreshPhysical
  split_ifs
  · exact hs
  · exact ⟨le_rfl,fun _ => ⟨rfl,rfl,rfl,rfl⟩⟩

/-- Reading through a valid cache gives the fresh breakdown. -/
theorem CacheValid.breakdown_eq {s : PageOwnershipIndex} (hs : s.CacheValid) :
    s.physicalKvStateBreakdown = (s.calculatePhysicalKvState).breakdown := by
  unfold physicalKvStateBreakdown PageOwnershipIndex.refreshPhysical
  split_ifs with h
  · exact (hs.fresh h).1
  · rfl

theorem CacheValid.migratable_eq {s : PageOwnershipIndex} (hs : s.CacheValid) :
    s.readMigratableGpuPages = s.byDepth (s.calculatePhysicalKvState).migratableHandles := by
  unfold readMigratableGpuPages PageOwnershipIndex.refreshPhysical
  split_ifs with h
  · exact (hs.fresh h).2.2.2
  · rfl

end BeliefKV.PageOwnershipIndex
