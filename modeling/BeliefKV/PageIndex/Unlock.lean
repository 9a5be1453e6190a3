import BeliefKV.PageIndex.Breakdown
import BeliefKV.PageIndex.Transfers

/-! The preview of a release of engine locks, and the release itself. -/
namespace BeliefKV.PageOwnershipIndex
open Relation
variable {s t : PageOwnershipIndex} {overrides : Dict PageHandle ℤ}

structure PhysicalKvUnlockProjection where
  pageRevision : ℕ
  topologyRevision : ℕ
  baseline : PhysicalKvStateBreakdown
  projected : PhysicalKvStateBreakdown
  overriddenHandles : List PageHandle
  lockRefZeroedHandles : List PageHandle
  lockRefZeroedBytes : ℕ
  newlyMigratableHandles : List PageHandle
  newlyMigratableBytes : ℤ

/-- The bytes of a page; a handle without a record has none. -/
def sizeOf (s : PageOwnershipIndex) (h : PageHandle) : ℕ := (s.pages[h]?.map (·.sizeBytes)).getD 0

/-- A projected count is checked against the current one. -/
def requireProjected (s : PageOwnershipIndex) (entry : PageHandle × ℤ) : Except Raised Unit := do
  let page ← s.requirePage entry.1
  ensure (¬ (entry.2 < 0 ∨ page.engineLockRef < entry.2))
    (.valueError "projected engine lock ref must be within the current ref")

/-- The handles whose lock would be released in full. -/
def lockRefZeroed (s : PageOwnershipIndex) (overrides : Dict PageHandle ℤ) : Finset PageHandle :=
  overrides.keySet.filter fun h => s.pages[h]?.any (0 < ·.engineLockRef) ∧ overrides[h]? = some 0

/-- What the closures would come to under other lock counts, against the cached baseline. -/
def projectRelease (s : PageOwnershipIndex) (overrides : Dict PageHandle ℤ) : PhysicalKvUnlockProjection :=
  let pass := s.calculatePhysicalKvState overrides
  { pageRevision := s.revision
    topologyRevision := s.topologyRevision
    baseline := s.physicalBreakdown
    projected := pass.breakdown
    overriddenHandles := overrides.keys
    lockRefZeroedHandles := Dict.sorted (s.lockRefZeroed overrides)
    lockRefZeroedBytes := ((Dict.sorted (s.lockRefZeroed overrides)).map s.sizeOf).sum
    newlyMigratableHandles := Dict.sorted (pass.migratableHandles \ s.migratableGpuHandles)
    newlyMigratableBytes := (pass.breakdown.migratableBytes : ℤ) - s.physicalBreakdown.migratableBytes }

/-- Project the closures under other lock counts. The index fills its cache, as for any reader. -/
def previewEngineLockRelease (s : PageOwnershipIndex) (overrides : Dict PageHandle ℤ) :
    Except Raised (PageOwnershipIndex × PhysicalKvUnlockProjection) := do
  overrides.toList.forM s.requireProjected
  .ok (s.refreshPhysical,s.refreshPhysical.projectRelease overrides)

/-! ## Other lock counts -/

/-- A page under another lock count. -/
def relock (overrides : Dict PageHandle ℤ) (p : PhysicalPageRecord) : PhysicalPageRecord :=
  { p with engineLockRef := overrides[p.handle]?.getD p.engineLockRef }

/-- The pages are those of another index under other lock counts. -/
def Relocked (overrides : Dict PageHandle ℤ) (s t : PageOwnershipIndex) : Prop :=
  t.pages = rewritten (relock overrides) s.pages

theorem relock_of {p : PhysicalPageRecord} {ref : Option ℤ} (h : overrides[p.handle]? = ref) :
    relock overrides p = { p with engineLockRef := ref.getD p.engineLockRef } := by
  rw [← h]
  rfl

theorem deepestFirst_relock (p q : PhysicalPageRecord) :
    deepestFirst (relock overrides p) (relock overrides q) = deepestFirst p q := rfl

theorem physicalStep_relock {live live' : Dict PageHandle PhysicalPageRecord}
    (hcontains : ∀ h, live'.contains h = live.contains h) (acc : PhysicalPass) (p : PhysicalPageRecord) :
    physicalStep live' ∅ acc (relock overrides p) = physicalStep live overrides acc p := by
  have hlock : (∅ : Dict PageHandle ℤ)[(relock overrides p).handle]?.getD (relock overrides p).engineLockRef =
      overrides[p.handle]?.getD p.engineLockRef := by
    rw [Std.ExtTreeMap.getElem?_empty]
    rfl
  unfold physicalStep
  simp only [hcontains,hlock]
  rfl

/-- Overridden lock counts are the lock counts of the pages under them. -/
theorem Relocked.calculate_eq (h : Relocked overrides s t) :
    s.calculatePhysicalKvState overrides = t.calculatePhysicalKvState := by
  have hpass : passOver (rewritten (relock overrides) s.pages) ∅ = passOver s.pages overrides :=
    passOver_map s.pages (fun _ => rfl) deepestFirst_relock fun _ _ hcontains => physicalStep_relock hcontains
  change passOver s.pages overrides = passOver t.pages ∅
  rw [h,hpass]

/-! ## The release -/

/-- Lock counts that live pages can be released to. -/
def Releasable (s : PageOwnershipIndex) (overrides : Dict PageHandle ℤ) : Prop :=
  ∀ (h : PageHandle) (ref : ℤ), overrides[h]? = some ref →
    ∃ p : PhysicalPageRecord, s.pages[h]? = some p ∧ p.residency ≠ .dead ∧ 0 ≤ ref ∧ ref ≤ p.engineLockRef

/-- Set the lock counts one after the other. -/
def releaseLocks (s : PageOwnershipIndex) (calls : List (PageHandle × ℤ)) : Except Raised PageOwnershipIndex :=
  calls.foldlM (fun s call => s.setEngineLock call.1 call.2) s

/-- One call sets the lock count of one page. -/
theorem setEngineLock_spec (hs : s.Inv) (hv : s.CacheValid) {h : PageHandle} {p : PhysicalPageRecord} {ref : ℤ}
    (hp : s.requirePage h = .ok p) (href : 0 ≤ ref) :
    ∃ t, s.setEngineLock h ref = .ok t ∧ t.Inv ∧ t.CacheValid ∧ (∀ k, k ≠ h → t.pages[k]? = s.pages[k]?) ∧
      t.pages[h]? = some { p with engineLockRef := ref } ∧ t.latestGeneration = s.latestGeneration := by
  obtain ⟨t,hok⟩ : ∃ t, s.setEngineLock h ref = .ok t := by
    unfold setEngineLock
    rw [if_neg (not_lt.mpr href),hp]
    exact ⟨_,rfl⟩
  have hinv : (s.step (.setEngineLock h ref)).Inv := step_inv hs trivial
  have hstep : s.step (.setEngineLock h ref) = t := by
    have happly : (Op.setEngineLock h ref).apply s = .ok t := hok
    unfold step
    rw [happly]
  refine ⟨t,hok,hstep ▸ hinv,(setEngineLock_effect (d := True) (k := True) hok).cacheValid hs.toBase hv,?_⟩
  have hpage := (requirePage_eq_ok.mp hp).1
  unfold setEngineLock at hok
  rw [if_neg (not_lt.mpr href),hp] at hok
  obtain rfl := Except.ok.inj hok
  by_cases hsame : p.engineLockRef = ref
  · rw [if_neg (not_not.mpr hsame)]
    refine ⟨fun _ _ => rfl,?_,rfl⟩
    rw [hpage,← hsame]
  · rw [if_pos hsame]
    refine ⟨fun k hk => ?_,?_,rfl⟩
    · rw [touch_pages,get_updatePages,if_neg (by simpa using hk)]
    · rw [touch_pages,get_updatePages,if_pos (by simp),hpage]
      rfl

/-- The calls set the lock counts of their pages. -/
theorem releaseLocks_spec {calls : List (PageHandle × ℤ)} : ∀ {s : PageOwnershipIndex}, s.Inv → s.CacheValid →
    (calls.map Prod.fst).Nodup → (∀ call ∈ calls, 0 ≤ call.2 ∧ ∃ p, s.requirePage call.1 = .ok p) →
    ∃ t, s.releaseLocks calls = .ok t ∧ t.Inv ∧ t.CacheValid ∧
      (∀ k, (∀ call ∈ calls, call.1 ≠ k) → t.pages[k]? = s.pages[k]?) ∧
      ∀ call ∈ calls, t.pages[call.1]? = s.pages[call.1]?.map fun p => { p with engineLockRef := call.2 } := by
  induction calls with
  | nil => exact fun hs hv _ _ => ⟨_,rfl,hs,hv,fun _ _ => rfl,fun call hcall => absurd hcall List.not_mem_nil⟩
  | cons call calls ih =>
    intro s hs hv hnodup hvalid
    rw [List.map_cons,List.nodup_cons] at hnodup
    obtain ⟨href,p,hp⟩ := hvalid call List.mem_cons_self
    obtain ⟨t,ht,htinv,htcache,hframe,hpage,hlatest⟩ := setEngineLock_spec hs hv hp href
    have hother : ∀ c ∈ calls, c.1 ≠ call.1 := fun c hc heq => hnodup.1 (heq ▸ List.mem_map_of_mem hc)
    obtain ⟨u,hu,huinv,hucache,hframe',hset⟩ := ih htinv htcache hnodup.2 fun c hc => by
      obtain ⟨hc',q,hq⟩ := hvalid c (List.mem_cons_of_mem _ hc)
      refine ⟨hc',q,requirePage_eq_ok.mpr ?_⟩
      rw [hframe c.1 (hother c hc),hlatest]
      exact requirePage_eq_ok.mp hq
    refine ⟨u,?_,huinv,hucache,fun k hk => ?_,fun c hc => ?_⟩
    · unfold releaseLocks at hu ⊢
      rw [List.foldlM_cons,ht]
      exact hu
    · rw [hframe' k fun c hc => hk c (List.mem_cons_of_mem _ hc),hframe k (hk call List.mem_cons_self).symm]
    · obtain rfl | hc := List.mem_cons.mp hc
      · rw [hframe' c.1 hother,hpage,(requirePage_eq_ok.mp hp).1]
        rfl
      · rw [hset c hc,hframe c.1 (hother c hc)]

/-- Whatever the order of the calls, the pages end up under the lock counts of the mapping. -/
theorem releaseLocks_relocked (hs : s.Inv) (hv : s.CacheValid) (hvalid : s.Releasable overrides)
    {calls : List (PageHandle × ℤ)} (hcalls : calls.Perm overrides.toList) :
    ∃ t, s.releaseLocks calls = .ok t ∧ t.Inv ∧ t.CacheValid ∧ Relocked overrides s t := by
  have hmem : ∀ call, call ∈ calls ↔ overrides[call.1]? = some call.2 := fun call =>
    hcalls.mem_iff.trans Std.ExtTreeMap.mem_toList_iff_getElem?_eq_some
  have hnodup : (calls.map Prod.fst).Nodup := by
    refine (hcalls.map Prod.fst).nodup_iff.mpr ?_
    rw [Std.ExtTreeMap.map_fst_toList_eq_keys]
    exact Std.ExtTreeMap.nodup_keys
  obtain ⟨t,ht,htinv,htcache,hframe,hset⟩ := releaseLocks_spec hs hv hnodup fun call hcall => by
    obtain ⟨p,hp,hlive,href,-⟩ := hvalid call.1 call.2 ((hmem call).mp hcall)
    exact ⟨href,p,hs.toLinked.requirePage_ok hp hlive⟩
  refine ⟨t,ht,htinv,htcache,Dict.ext_get fun h => ?_⟩
  rw [get_rewritten]
  cases hp : s.pages[h]? with
  | none =>
    have hnone : ∀ call ∈ calls, call.1 ≠ h := by
      rintro call hcall rfl
      obtain ⟨p,hp',-⟩ := hvalid call.1 call.2 ((hmem call).mp hcall)
      rw [hp] at hp'
      cases hp'
    rw [hframe h hnone,hp]
    rfl
  | some p =>
    cases hover : overrides[h]? with
    | none =>
      have hnone : ∀ call ∈ calls, call.1 ≠ h := by
        rintro call hcall rfl
        rw [(hmem call).mp hcall] at hover
        cases hover
      rw [hframe h hnone,hp,Option.map_some,relock_of ((congrArg (overrides[·]?) (hs.handle_eq h p hp)).trans hover)]
      rfl
    | some ref =>
      rw [hset (h,ref) ((hmem (h,ref)).mpr hover),hp,Option.map_some,Option.map_some,
        relock_of ((congrArg (overrides[·]?) (hs.handle_eq h p hp)).trans hover)]
      rfl

/-! ## What a release opens -/

section Opens
variable (hb : s.Base) (hrel : Relocked overrides s t)
include hrel

theorem Relocked.below_iff {a b : PageHandle} : t.Below a b ↔ s.Below a b := by
  unfold Below
  rw [hrel]
  constructor
  · rintro ⟨p,hp,hc⟩
    rw [get_rewritten,Option.map_eq_some_iff] at hp
    obtain ⟨q,hq,rfl⟩ := hp
    exact ⟨q,hq,hc⟩
  · rintro ⟨p,hp,hc⟩
    exact ⟨relock overrides p,by rw [get_rewritten,hp]; rfl,hc⟩

theorem Relocked.sizeOf_eq (h : PageHandle) : t.sizeOf h = s.sizeOf h := by
  unfold sizeOf
  rw [hrel,get_rewritten,Option.map_map]
  rfl

/-- A subtree that is open stays open when locks are released. -/
theorem Relocked.subtreeOpen (hvalid : s.Releasable overrides)
    (hhandle : ∀ (h : PageHandle) (p : PhysicalPageRecord), s.pages[h]? = some p → p.handle = h)
    {h : PageHandle} (ho : s.SubtreeOpen h) : t.SubtreeOpen h := by
  intro d p' hd hp'
  rw [hrel,get_rewritten,Option.map_eq_some_iff] at hp'
  obtain ⟨p,hp,rfl⟩ := hp'
  obtain ⟨hlocal,hchild⟩ := ho d p (ReflTransGen.mono (fun _ _ => hrel.below_iff.mp) h d hd) hp
  refine ⟨fun hgpu => ?_,fun c q' hc hq' => ?_⟩
  · obtain ⟨hwhole,hlock,hread,hpin,hidle⟩ := locallyEligible_iff.mp (hlocal hgpu)
    refine locallyEligible_iff.mpr ⟨hwhole,?_,hread,hpin,hidle⟩
    change overrides[p.handle]?.getD p.engineLockRef = 0
    rw [hhandle d p hp]
    cases hover : overrides[d]? with
    | none => exact hlock
    | some ref =>
      obtain ⟨q,hq,-,hlow,hhigh⟩ := hvalid d ref hover
      rw [hp] at hq
      cases hq
      rw [Option.getD_some]
      omega
  · rw [hrel,get_rewritten,Option.map_eq_some_iff] at hq'
    obtain ⟨q,hq,rfl⟩ := hq'
    exact hchild c q hc hq

include hb in
theorem Relocked.migratable_subset (hl : s.Linked) (ht : t.Inv) (hvalid : s.Releasable overrides) :
    s.calculatePhysicalKvState.migratableHandles ⊆ t.calculatePhysicalKvState.migratableHandles := by
  intro h hmem
  obtain ⟨⟨p,hp,hgpu⟩,ho⟩ := (mem_migratableHandles hb hl).mp hmem
  refine (mem_migratableHandles ht.toBase ht.toLinked).mpr ⟨⟨relock overrides p,?_,hgpu⟩,?_⟩
  · rw [hrel,get_rewritten,hp]
    rfl
  · exact hrel.subtreeOpen hvalid hb.handle_eq ho

end Opens

theorem bytesOf_handles (hb : s.Base) {F : Finset PageHandle} (hF : ∀ h ∈ F, h ∈ s.pages) :
    s.bytesOf (·.handle ∈ F) = ∑ h ∈ F, s.sizeOf h := by
  have hsum : s.bytesOf (·.handle ∈ F) = ∑ h ∈ s.pages.keySet, if h ∈ F then s.sizeOf h else 0 := by
    unfold bytesOf
    rw [Dict.sum_keySet,Dict.vals]
    have hentries : ∀ e ∈ s.pages.toList, e.2.handle = e.1 ∧ s.sizeOf e.1 = e.2.sizeBytes := fun e he => by
      have hp := Std.ExtTreeMap.mem_toList_iff_getElem?_eq_some.mp he
      refine ⟨hb.handle_eq e.1 e.2 hp,?_⟩
      unfold sizeOf
      rw [hp]
      rfl
    generalize s.pages.toList = entries at hentries
    induction entries with
    | nil => rfl
    | cons e es ih =>
      obtain ⟨hhandle,hsize⟩ := hentries e List.mem_cons_self
      have hrest := ih fun e he => hentries e (List.mem_cons_of_mem _ he)
      by_cases hmem : e.1 ∈ F
      · simp [hhandle,hsize,hmem,hrest]
      · simp [hhandle,hmem,hrest]
  rw [hsum,← Finset.sum_filter]
  congr 1
  ext h
  rw [Finset.mem_filter,Dict.mem_keySet]
  exact ⟨fun hh => hh.2,fun hh => ⟨hF h hh,hh⟩⟩

theorem migratable_bytes (hs : s.Inv) : s.calculatePhysicalKvState.breakdown.migratableBytes =
    ∑ h ∈ s.calculatePhysicalKvState.migratableHandles, s.sizeOf h := by
  rw [(calculation_reports hs).migratable]
  refine bytesOf_handles hs.toBase fun h hmem => ?_
  obtain ⟨⟨p,hp,-⟩,-⟩ := (mem_migratableHandles hs.toBase hs.toLinked).mp hmem
  exact (Dict.mem_iff_get _ _).mpr ⟨p,hp⟩

/-! ## The preview -/

/-- Nothing but the cached breakdown is written. -/
structure OnlyCache (s t : PageOwnershipIndex) : Prop where
  records : SameRecords s t
  contextPages : t.contextPages = s.contextPages
  revision : t.revision = s.revision
  topologyRevision : t.topologyRevision = s.topologyRevision
  physicalStateRevision : t.physicalStateRevision = s.physicalStateRevision
  accountingRevision : t.accountingRevision = s.accountingRevision
  mutationJournal : t.mutationJournal = s.mutationJournal
  breakdown : t.physicalKvStateBreakdown = s.physicalKvStateBreakdown

theorem refreshPhysical_onlyCache (hv : s.CacheValid) : OnlyCache s s.refreshPhysical := by
  have hbreakdown : s.refreshPhysical.physicalKvStateBreakdown = s.physicalKvStateBreakdown := by
    rw [hv.refreshPhysical.breakdown_eq,hv.breakdown_eq]
    unfold refreshPhysical
    split_ifs <;> rfl
  refine ⟨?_,?_,?_,?_,?_,?_,?_,hbreakdown⟩
  · unfold refreshPhysical
    split_ifs
    · exact SameRecords.refl s
    · exact ⟨rfl,rfl,fun _ => rfl,rfl,rfl⟩
  all_goals
    unfold refreshPhysical
    split_ifs <;> rfl

/-- What is in a refreshed cache. -/
theorem refreshPhysical_fresh (hv : s.CacheValid) :
    s.refreshPhysical.physicalBreakdown = s.calculatePhysicalKvState.breakdown ∧
      s.refreshPhysical.migratableGpuHandles = s.calculatePhysicalKvState.migratableHandles := by
  unfold refreshPhysical
  split_ifs with hfresh
  · obtain ⟨hbreakdown,-,hhandles,-⟩ := hv.fresh hfresh
    exact ⟨hbreakdown,hhandles⟩
  · exact ⟨rfl,rfl⟩

/-- What a preview gets right. -/
structure Previewed (s : PageOwnershipIndex) (overrides : Dict PageHandle ℤ) (r : PageOwnershipIndex)
    (projection : PhysicalKvUnlockProjection) : Prop where
  unchanged : OnlyCache s r
  baseline : projection.baseline = s.physicalKvStateBreakdown
  projected : ∀ calls, calls.Perm overrides.toList →
    ∃ t, r.releaseLocks calls = .ok t ∧ t.physicalKvStateBreakdown = projection.projected
  contained : s.calculatePhysicalKvState.migratableHandles ⊆
    (s.calculatePhysicalKvState overrides).migratableHandles
  handles : ∀ h, h ∈ projection.newlyMigratableHandles ↔ h ∈ (s.calculatePhysicalKvState overrides).migratableHandles ∧
    h ∉ s.calculatePhysicalKvState.migratableHandles
  bytes : projection.newlyMigratableBytes = (projection.newlyMigratableHandles.map s.sizeOf).sum

theorem requireProjected_all (hl : s.Linked) (hvalid : s.Releasable overrides) :
    overrides.toList.forM s.requireProjected = .ok () := by
  have hall : ∀ entry ∈ overrides.toList, s.requireProjected entry = .ok () := by
    intro entry hentry
    obtain ⟨p,hp,hlive,hlow,hhigh⟩ := hvalid entry.1 entry.2 (Std.ExtTreeMap.mem_toList_iff_getElem?_eq_some.mp hentry)
    refine bind_eq_ok.mpr ⟨p,hl.requirePage_ok hp hlive,ensure_eq_ok.mpr ?_⟩
    omega
  generalize overrides.toList = entries at hall
  induction entries with
  | nil => rfl
  | cons entry entries ih =>
    have hfirst := hall entry List.mem_cons_self
    have hrest := ih fun e he => hall e (List.mem_cons_of_mem _ he)
    exact bind_eq_ok.mpr ⟨(),hfirst,hrest⟩

/-- The preview of a release is what the release comes to. -/
theorem preview_exact (hs : s.Inv) (hv : s.CacheValid) (hvalid : s.Releasable overrides) :
    ∃ r projection, s.previewEngineLockRelease overrides = .ok (r,projection) ∧ Previewed s overrides r projection := by
  have hcache := refreshPhysical_onlyCache hv
  obtain ⟨hbreakdown,hhandles⟩ := refreshPhysical_fresh hv
  have hpages := hcache.records.pages
  have hpass : ∀ o, s.refreshPhysical.calculatePhysicalKvState o = s.calculatePhysicalKvState o := fun o =>
    calculatePhysicalKvState_congr (fun h => by rw [hpages]) o
  have hvalid' : s.refreshPhysical.Releasable overrides := by
    unfold Releasable
    rw [hpages]
    exact hvalid
  -- one order of the calls gives the index that the projection is about
  obtain ⟨t,-,ht,-,hrel⟩ := releaseLocks_relocked hs hv hvalid (List.Perm.refl overrides.toList)
  have hcontained := hrel.migratable_subset hs.toBase hs.toLinked ht hvalid
  rw [← hrel.calculate_eq] at hcontained
  refine ⟨s.refreshPhysical,s.refreshPhysical.projectRelease overrides,?_,hcache,?_,?_,hcontained,?_,?_⟩
  · exact bind_eq_ok.mpr ⟨(),requireProjected_all hs.toLinked hvalid,rfl⟩
  · exact hbreakdown.trans hv.breakdown_eq.symm
  · intro calls hcalls
    obtain ⟨u,hu,-,hucache,hurel⟩ := releaseLocks_relocked (hcache.records.inv hs) hv.refreshPhysical hvalid' hcalls
    refine ⟨u,hu,?_⟩
    rw [hucache.breakdown_eq,← hurel.calculate_eq]
    rfl
  · intro h
    change h ∈ Dict.sorted (_ \ _) ↔ _
    rw [Dict.mem_sorted,Finset.mem_sdiff,hpass,hhandles]
  · have hbefore := migratable_bytes hs
    have hafter := migratable_bytes ht
    have hsizes : t.sizeOf = s.sizeOf := funext hrel.sizeOf_eq
    rw [hsizes,← hrel.calculate_eq,← Finset.sum_sdiff hcontained,← hbefore] at hafter
    change ((s.refreshPhysical.calculatePhysicalKvState overrides).breakdown.migratableBytes : ℤ) -
      s.refreshPhysical.physicalBreakdown.migratableBytes = ((Dict.sorted (_ \ _)).map s.sizeOf).sum
    rw [hpass,hbreakdown,hhandles,hafter,← List.sum_toFinset s.sizeOf (Dict.nodup_sorted _)]
    have hsorted : (Dict.sorted ((s.calculatePhysicalKvState overrides).migratableHandles \
        s.calculatePhysicalKvState.migratableHandles)).toFinset =
        (s.calculatePhysicalKvState overrides).migratableHandles \ s.calculatePhysicalKvState.migratableHandles := by
      ext h
      rw [List.mem_toFinset,Dict.mem_sorted]
    rw [hsorted]
    push_cast
    omega

/-- The release of the locked leaf of a fork. -/
theorem lockedFork_preview_exact : ∃ r projection,
    (empty.run lockedFork).previewEngineLockRelease (Std.ExtTreeMap.empty.insert ⟨3,0⟩ 0) = .ok (r,projection) ∧
      Previewed (empty.run lockedFork) (Std.ExtTreeMap.empty.insert ⟨3,0⟩ 0) r projection := by
  have hleaf : ((empty.run lockedFork).pages[(⟨3,0⟩ : PageHandle)]?.map fun p => (p.residency,p.engineLockRef)) =
      some (.gpuOnly,1) := by decide +kernel
  refine preview_exact (run_inv lockedFork (by decide)) (run_cacheValid lockedFork (by decide)) fun h ref hover => ?_
  rw [Dict.get_insert] at hover
  split_ifs at hover with hh
  · cases hover
    subst hh
    obtain ⟨p,hp,hstate⟩ := Option.map_eq_some_iff.mp hleaf
    obtain ⟨hres,hlock⟩ := Prod.mk.inj hstate
    refine ⟨p,hp,?_,le_rfl,?_⟩
    · rw [hres]
      decide
    · rw [hlock]
      decide
  · cases hover

end BeliefKV.PageOwnershipIndex
