import BeliefKV.PageIndex.Publication

/-! What the accounting pass computes: which pages can migrate, and how many bytes are on the
GPU. -/
namespace BeliefKV.PageOwnershipIndex
open Relation
variable {s : PageOwnershipIndex}

/-- Every run of index calls has a valid cache. -/
theorem run_cacheValid (ops : List Op) (hd : ∀ op ∈ ops, op.NoDead) : (empty.run ops).CacheValid := by
  have hboth : (empty.run ops).Inv ∧ (empty.run ops).CacheValid := by
    refine Run.AllSteps.invariant (P := fun _ op => op.NoDead)
      (I := fun t : PageOwnershipIndex => t.Inv ∧ t.CacheValid) (fun t op ht hop => ?_)
      ⟨empty_inv,empty_cacheValid⟩ (Run.AllSteps.of_forall (fun op hop _ => hd op hop) _)
    refine ⟨step_inv ht.1 hop,?_⟩
    unfold step
    cases hok : op.apply t with
    | error e => exact ht.2
    | ok t' =>
      have heff := Op.effects ht.1.toBase op hok
      have hkeep : t'.Base ∧ t'.CacheValid := by
        clear hok
        induction heff with
        | refl => exact ⟨ht.1.toBase,ht.2⟩
        | tail _ h ih => exact ⟨h.base ih.1,h.cacheValid ih.1 ih.2⟩
      exact hkeep.2
  exact hboth.2

/-! ## The order of the pass -/

section Order

theorem deepestFirst_total (p q : PhysicalPageRecord) : deepestFirst p q ∨ deepestFirst q p := by
  unfold deepestFirst
  rcases lt_trichotomy p.radixDepth q.radixDepth with h | h | h
  · simp [h]
  · have hle : (compare p.handle q.handle).isLE ∨ (compare q.handle p.handle).isLE := by
      rw [show compare q.handle p.handle = (compare p.handle q.handle).swap from
        Std.OrientedCmp.eq_swap]
      cases compare p.handle q.handle <;> simp
    rcases hle with hle | hle <;> simp [h,hle]
  · simp [h]

theorem deepestFirst_trans {p q r : PhysicalPageRecord} (h : deepestFirst p q)
    (h' : deepestFirst q r) : deepestFirst p r := by
  unfold deepestFirst at *
  simp only [decide_eq_true_eq] at *
  rcases h with h | ⟨h,hle⟩ <;> rcases h' with h' | ⟨h',hle'⟩
  · exact .inl (by omega)
  · exact .inl (by omega)
  · exact .inl (by omega)
  · exact .inr ⟨by omega,Std.TransCmp.isLE_trans hle hle'⟩

theorem deepestFirst_antisymm {p q : PhysicalPageRecord} (h : deepestFirst p q)
    (h' : deepestFirst q p) : p.handle = q.handle := by
  unfold deepestFirst at *
  simp only [decide_eq_true_eq] at *
  rcases h with h | ⟨h,hle⟩ <;> rcases h' with h' | ⟨h',hle'⟩
  · omega
  · omega
  · omega
  · exact Std.LawfulEqOrd.eq_of_compare (Std.OrientedCmp.isLE_antisymm hle hle')

instance : Std.Total (fun p q : PhysicalPageRecord => deepestFirst p q = true) :=
  ⟨deepestFirst_total⟩

instance : IsTrans PhysicalPageRecord (fun p q => deepestFirst p q = true) :=
  ⟨fun _ _ _ => deepestFirst_trans⟩

theorem passOrder_sorted (l : List PhysicalPageRecord) :
    (l.insertionSort (deepestFirst · ·)).Pairwise (fun p q => deepestFirst p q = true) :=
  List.pairwise_insertionSort _ l

end Order

/-! ## Open subtrees -/

/-- A page with a GPU copy. -/
def OnGpu (s : PageOwnershipIndex) (h : PageHandle) : Prop :=
  ∃ p : PhysicalPageRecord, s.pages[h]? = some p ∧ p.gpuResident

theorem live_of_gpuResident {p : PhysicalPageRecord} (h : p.gpuResident) : p.residency ≠ .dead := by
  intro hd
  simp [PhysicalPageRecord.gpuResident,hd] at h

/-- A page and one of its children. -/
def Below (s : PageOwnershipIndex) (a b : PageHandle) : Prop :=
  ∃ p : PhysicalPageRecord, s.pages[a]? = some p ∧ b ∈ p.children

/-- From a page down, every GPU-resident page passes its gates and every child is accounted for
before its parent. -/
def SubtreeOpen (s : PageOwnershipIndex) (h : PageHandle) : Prop :=
  ∀ (d : PageHandle) (p : PhysicalPageRecord), ReflTransGen s.Below h d → s.pages[d]? = some p →
    (p.gpuResident → locallyEligible p p.engineLockRef) ∧
      ∀ (c : PageHandle) (q : PhysicalPageRecord), c ∈ p.children → s.pages[c]? = some q →
        deepestFirst q p

/-- A subtree is open when its root is and so are the subtrees of its children. -/
theorem subtreeOpen_iff {h : PageHandle} {p : PhysicalPageRecord} (hp : s.pages[h]? = some p) :
    s.SubtreeOpen h ↔ (p.gpuResident → locallyEligible p p.engineLockRef) ∧
      ∀ c ∈ p.children, (∀ q : PhysicalPageRecord, s.pages[c]? = some q → deepestFirst q p) ∧
        s.SubtreeOpen c := by
  constructor
  · intro ho
    obtain ⟨hlocal,hchild⟩ := ho h p .refl hp
    refine ⟨hlocal,fun c hc => ⟨fun q hq => hchild c q hc hq,fun d r hd hr => ?_⟩⟩
    exact ho d r (.head ⟨p,hp,hc⟩ hd) hr
  · rintro ⟨hlocal,hchild⟩ d r hd hr
    rcases ReflTransGen.cases_head hd with rfl | ⟨c,⟨p',hp',hc⟩,hrest⟩
    · rw [hp] at hr
      obtain rfl := Option.some.inj hr
      exact ⟨hlocal,fun c q hc hq => (hchild c hc).1 q hq⟩
    · rw [hp] at hp'
      obtain rfl := Option.some.inj hp'
      exact (hchild c hc).2 d r hrest hr

/-- The live records in the order of the pass. -/
def passOrder (s : PageOwnershipIndex) : List PhysicalPageRecord :=
  (s.pages.select fun _ p => p.live).vals.insertionSort (deepestFirst · ·)

theorem mem_passOrder (hb : s.Base) {p : PhysicalPageRecord} :
    p ∈ s.passOrder ↔ s.pages[p.handle]? = some p ∧ p.live := by
  unfold passOrder
  rw [List.mem_insertionSort,Dict.mem_vals]
  constructor
  · rintro ⟨h,hp⟩
    rw [Dict.get_select,Option.filter_eq_some_iff] at hp
    rw [hb.handle_eq h p hp.1]
    exact hp
  · rintro ⟨hp,hlive⟩
    exact ⟨p.handle,by rw [Dict.get_select,Option.filter_eq_some_iff]; exact ⟨hp,hlive⟩⟩

/-- What the pass knows after a part of the pages. -/
structure PassKnows (s : PageOwnershipIndex) (done : List PhysicalPageRecord) (acc : PhysicalPass) :
    Prop where
  subtree : ∀ h : PageHandle, acc.subtreeGpuEligible[h]?.getD false ↔
    (∃ p ∈ done, p.handle = h) ∧ s.SubtreeOpen h
  migratable : ∀ h, h ∈ acc.migratableHandles ↔
    (∃ p ∈ done, p.handle = h ∧ p.gpuResident) ∧ s.SubtreeOpen h

/-- The children of a page that were accounted for are those that sort before it. -/
theorem child_done (hb : s.Base) (hl : s.Linked) {done rest : List PhysicalPageRecord}
    {page : PhysicalPageRecord} (horder : s.passOrder = done ++ page :: rest) {c : PageHandle}
    (hc : c ∈ page.children) : (∃ p ∈ done, p.handle = c) ↔
      ∀ q : PhysicalPageRecord, s.pages[c]? = some q → deepestFirst q page := by
  have hmem (p : PhysicalPageRecord) : p ∈ done ++ page :: rest ↔ _ := horder ▸ mem_passOrder hb
  have hpage := ((hmem page).mp (by simp)).1
  have hsort : (done ++ page :: rest).Pairwise (fun p q => deepestFirst p q = true) :=
    horder ▸ passOrder_sorted _
  obtain ⟨q,hq,hlive,hpar⟩ := hl.child_live page.handle page c hpage hc
  have hqc := hb.handle_eq c q hq
  have hne : q.handle ≠ page.handle := by
    intro heq
    rw [hqc] at heq
    exact hl.acyclic c (.single ⟨q,hq,heq ▸ hpar⟩)
  constructor
  · rintro ⟨p,hp,rfl⟩ r hr
    have hp' := ((hmem p).mp (by simp [hp])).1
    rw [hr] at hp'
    obtain rfl := Option.some.inj hp'
    exact (List.pairwise_append.mp hsort).2.2 r hp page (by simp)
  · intro hfirst
    have hqmem : q ∈ done ++ page :: rest :=
      (hmem q).mpr ⟨by rw [hqc]; exact hq,by simpa [PhysicalPageRecord.live] using hlive⟩
    rcases List.mem_append.mp hqmem with h | h
    · exact ⟨q,h,hqc⟩
    · rcases List.mem_cons.mp h with rfl | h
      · exact absurd rfl hne
      · have hafter := (List.pairwise_cons.mp (List.pairwise_append.mp hsort).2.1).1 q h
        exact absurd (deepestFirst_antisymm (hfirst q hq) hafter) hne

/-- The verdict of one round of the pass. -/
def roundEligible (s : PageOwnershipIndex) (acc : PhysicalPass) (page : PhysicalPageRecord) : Bool :=
  decide (∀ c ∈ page.children, (s.pages.select fun _ p => p.live).contains c →
    acc.subtreeGpuEligible[c]?.getD false) &&
      (if page.gpuResident then locallyEligible page page.engineLockRef else true)

theorem physicalStep_subtree (acc : PhysicalPass) (page : PhysicalPageRecord) :
    (physicalStep (s.pages.select fun _ p => p.live) ∅ acc page).subtreeGpuEligible =
      acc.subtreeGpuEligible.insert page.handle (s.roundEligible acc page) := by
  unfold physicalStep roundEligible
  cases page.gpuResident <;> simp

theorem physicalStep_migratable (acc : PhysicalPass) (page : PhysicalPageRecord) :
    (physicalStep (s.pages.select fun _ p => p.live) ∅ acc page).migratableHandles =
      if page.gpuResident && s.roundEligible acc page then
        insert page.handle acc.migratableHandles else acc.migratableHandles := by
  unfold physicalStep roundEligible
  cases page.gpuResident <;> simp

/-- The verdict on a page is whether its subtree is open. -/
theorem PassKnows.roundEligible_iff (hb : s.Base) (hl : s.Linked)
    {done rest : List PhysicalPageRecord} {page : PhysicalPageRecord}
    (horder : s.passOrder = done ++ page :: rest) {acc : PhysicalPass}
    (hk : s.PassKnows done acc) : s.roundEligible acc page ↔ s.SubtreeOpen page.handle := by
  have hpage : s.pages[page.handle]? = some page :=
    ((mem_passOrder hb).mp (horder ▸ (by simp : page ∈ done ++ page :: rest))).1
  rw [subtreeOpen_iff hpage,roundEligible,Bool.and_eq_true,and_comm]
  refine and_congr ?_ ?_
  · cases page.gpuResident <;> simp
  · rw [decide_eq_true_eq]
    refine forall₂_congr fun c hc => ?_
    obtain ⟨q,hq,hlive,-⟩ := hl.child_live page.handle page c hpage hc
    have hcontains : (s.pages.select fun _ p => p.live).contains c := by
      rw [Std.ExtTreeMap.contains_eq_isSome_getElem?,Dict.get_select,hq]
      simp [Option.filter,PhysicalPageRecord.live,hlive]
    rw [hk.subtree c,child_done hb hl horder hc]
    simp [hcontains]

theorem PassKnows.step (hb : s.Base) (hl : s.Linked) {done rest : List PhysicalPageRecord}
    {page : PhysicalPageRecord} (horder : s.passOrder = done ++ page :: rest) {acc : PhysicalPass}
    (hk : s.PassKnows done acc) :
    s.PassKnows (done ++ [page]) (physicalStep (s.pages.select fun _ p => p.live) ∅ acc page) := by
  have hround := hk.roundEligible_iff hb hl horder
  constructor
  · intro h
    rw [physicalStep_subtree,Dict.get_insert]
    by_cases hh : page.handle = h
    · subst hh
      simp [hround]
    · simp [hh,hk.subtree h]
  · intro h
    have hmem : h ∈ (physicalStep (s.pages.select fun _ p => p.live) ∅ acc page).migratableHandles ↔
        h ∈ acc.migratableHandles ∨ h = page.handle ∧ page.gpuResident ∧ s.roundEligible acc page := by
      rw [physicalStep_migratable]
      cases page.gpuResident <;> cases s.roundEligible acc page <;> simp [or_comm]
    rw [hmem,hk.migratable h,hround]
    constructor
    · rintro (⟨⟨p,hp,hph⟩,ho⟩ | ⟨rfl,hg,ho⟩)
      · exact ⟨⟨p,by simp [hp],hph⟩,ho⟩
      · exact ⟨⟨page,by simp,rfl,hg⟩,ho⟩
    · rintro ⟨⟨p,hp,rfl,hg⟩,ho⟩
      rcases List.mem_append.mp hp with hp | hp
      · exact .inl ⟨⟨p,hp,rfl,hg⟩,ho⟩
      · obtain rfl := List.mem_singleton.mp hp
        exact .inr ⟨rfl,hg,ho⟩

theorem PassKnows.foldl (hb : s.Base) (hl : s.Linked) (rest : List PhysicalPageRecord)
    {done : List PhysicalPageRecord} (horder : s.passOrder = done ++ rest) {acc : PhysicalPass}
    (hk : s.PassKnows done acc) :
    s.PassKnows s.passOrder (rest.foldl (physicalStep (s.pages.select fun _ p => p.live) ∅) acc) := by
  induction rest generalizing done acc with
  | nil =>
    rw [horder,List.append_nil]
    exact hk
  | cons page rest ih =>
    exact ih (by simpa using horder) (hk.step hb hl horder)

/-- The pages that can migrate are the GPU-resident ones with an open subtree. -/
theorem mem_migratableHandles (hb : s.Base) (hl : s.Linked) {h : PageHandle} :
    h ∈ (s.calculatePhysicalKvState).migratableHandles ↔ s.OnGpu h ∧ s.SubtreeOpen h := by
  have hk : s.PassKnows s.passOrder s.calculatePhysicalKvState :=
    PassKnows.foldl hb hl s.passOrder (List.nil_append _).symm ⟨by simp,by simp⟩
  rw [hk.migratable h]
  refine and_congr_left fun _ => ⟨?_,?_⟩
  · rintro ⟨p,hp,rfl,hg⟩
    exact ⟨p,((mem_passOrder hb).mp hp).1,hg⟩
  · rintro ⟨p,hp,hg⟩
    have hh := hb.handle_eq h p hp
    refine ⟨p,(mem_passOrder hb).mpr ⟨by rw [hh]; exact hp,?_⟩,hh,hg⟩
    have := live_of_gpuResident hg
    simpa [PhysicalPageRecord.live] using this

theorem mem_byDepth {handles : Finset PageHandle} {h : PageHandle} :
    h ∈ s.byDepth handles ↔ h ∈ s.pages ∧ h ∈ handles := by
  unfold byDepth
  rw [List.mem_insertionSort,List.mem_filter,Std.ExtTreeMap.mem_keys]
  simp

/-! ## Bytes on the GPU -/

/-- What a record holds on the GPU. -/
def gpuShare (p : PhysicalPageRecord) : ℕ := if p.gpuResident then p.sizeBytes else 0

/-- What the page of a handle holds on the GPU. -/
def gpuSize (s : PageOwnershipIndex) (h : PageHandle) : ℕ := (s.pages[h]?.map gpuShare).getD 0

def gpuTotal (s : PageOwnershipIndex) : ℕ := ∑ h ∈ s.pages.keySet, s.gpuSize h

/-- The bytes a caller reads. -/
def gpuBytes (s : PageOwnershipIndex) : ℕ := s.physicalKvStateBreakdown.gpuBytes

theorem foldl_gpuBytes (live : Dict PageHandle PhysicalPageRecord) (overrides : Dict PageHandle ℤ)
    (l : List PhysicalPageRecord) (acc : PhysicalPass) :
    (l.foldl (physicalStep live overrides) acc).breakdown.gpuBytes =
      acc.breakdown.gpuBytes + (l.map gpuShare).sum := by
  induction l generalizing acc with
  | nil => simp
  | cons p l ih =>
    have hstep : (physicalStep live overrides acc p).breakdown.gpuBytes =
        acc.breakdown.gpuBytes + gpuShare p := by
      unfold physicalStep gpuShare
      cases p.gpuResident <;> cases p.cpuResident <;> simp
    rw [List.foldl_cons,ih,hstep,List.map_cons,List.sum_cons,add_assoc]

theorem calculate_gpuBytes (s : PageOwnershipIndex) :
    (s.calculatePhysicalKvState).breakdown.gpuBytes = s.gpuTotal := by
  unfold calculatePhysicalKvState
  rw [foldl_gpuBytes,((List.perm_insertionSort _ _).map gpuShare).sum_eq]
  have hsum : ((s.pages.select fun _ p => p.live).vals.map gpuShare).sum =
      ∑ h ∈ (s.pages.select fun _ p => p.live).keySet, s.gpuSize h := by
    rw [Dict.sum_keySet,Dict.vals,List.map_map]
    congr 1
    apply List.map_congr_left
    rintro ⟨h,p⟩ hp
    rw [Std.ExtTreeMap.mem_toList_iff_getElem?_eq_some,Dict.get_select,
      Option.filter_eq_some_iff] at hp
    simp [gpuSize,hp.1]
  rw [hsum,gpuTotal]
  dsimp only
  rw [zero_add]
  refine Finset.sum_subset (fun h hh => ?_) fun h hh hdead => ?_
  · rw [Dict.mem_keySet,Dict.mem_iff_get] at hh ⊢
    obtain ⟨p,hp⟩ := hh
    rw [Dict.get_select,Option.filter_eq_some_iff] at hp
    exact ⟨p,hp.1⟩
  · rw [Dict.mem_keySet,Dict.mem_iff_get] at hh
    obtain ⟨p,hp⟩ := hh
    rw [Dict.mem_keySet,Dict.notMem_iff_get,Dict.get_select,hp] at hdead
    have hres : p.residency = .dead := by simpa [Option.filter,PhysicalPageRecord.live] using hdead
    simp [gpuSize,hp,gpuShare,PhysicalPageRecord.gpuResident,hres]

theorem CacheValid.gpuBytes_eq (hv : s.CacheValid) : s.gpuBytes = s.gpuTotal := by
  rw [gpuBytes,hv.breakdown_eq,calculate_gpuBytes]

/-- A change of one page moves the total by the change of its share. -/
theorem gpuTotal_change {t : PageOwnershipIndex} {h : PageHandle}
    (hmem : ∀ k, k ∈ t.pages ↔ k ∈ s.pages) (hother : ∀ k, k ≠ h → t.gpuSize k = s.gpuSize k) :
    t.gpuTotal + s.gpuSize h = s.gpuTotal + t.gpuSize h := by
  have hkeys : t.pages.keySet = s.pages.keySet := by
    ext k
    simp [hmem k]
  unfold gpuTotal
  rw [hkeys]
  by_cases hh : h ∈ s.pages.keySet
  · have hrest : ∑ k ∈ s.pages.keySet.erase h, t.gpuSize k =
        ∑ k ∈ s.pages.keySet.erase h, s.gpuSize k :=
      Finset.sum_congr rfl fun k hk => hother k (Finset.ne_of_mem_erase hk)
    have hs := Finset.add_sum_erase s.pages.keySet (fun k => s.gpuSize k) hh
    have ht := Finset.add_sum_erase s.pages.keySet (fun k => t.gpuSize k) hh
    omega
  · have hs : s.gpuSize h = 0 := by
      rw [Dict.mem_keySet,Dict.notMem_iff_get] at hh
      simp [gpuSize,hh]
    have ht : t.gpuSize h = 0 := by
      rw [← hkeys,Dict.mem_keySet,Dict.notMem_iff_get] at hh
      simp [gpuSize,hh]
    rw [hs,ht,Finset.sum_congr rfl fun k hk => hother k (by rintro rfl; exact hh hk)]

end BeliefKV.PageOwnershipIndex
