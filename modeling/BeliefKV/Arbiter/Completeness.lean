import BeliefKV.Arbiter.Previews

/-! When reclaim bundles are closure-complete: the builder does not look below pages that are
not on the GPU. -/
namespace BeliefKV
open Relation

namespace PageOwnershipIndex
variable {s : PageOwnershipIndex}

/-- A set of handles holds every GPU-resident descendant of a root. -/
def Covers (s : PageOwnershipIndex) (root : PageHandle) (handles : List PageHandle) : Prop :=
  ∀ (d : PageHandle) (p : PhysicalPageRecord), TransGen s.ParentEdge d root → s.pages[d]? = some p →
    p.gpuResident → d ∈ handles

/-- Every GPU-resident descendant of a root has a GPU-resident parent. -/
def GapFree (s : PageOwnershipIndex) (root : PageHandle) : Prop :=
  ∀ (d : PageHandle) (p : PhysicalPageRecord), TransGen s.ParentEdge d root → s.pages[d]? = some p →
    p.gpuResident → ∀ q, p.parent = some q → s.OnGpu q

/-- From a root down, children sort before their parents: they are deeper, or at the same depth
with a smaller handle. -/
def DepthOrdered (s : PageOwnershipIndex) (root : PageHandle) : Prop :=
  ∀ (d : PageHandle) (p : PhysicalPageRecord), ReflTransGen s.Below root d → s.pages[d]? = some p →
    ∀ (c : PageHandle) (q : PhysicalPageRecord), c ∈ p.children → s.pages[c]? = some q →
      deepestFirst q p

/-- Children and parents are the same edges. -/
theorem Linked.parentEdge_of_below (hl : s.Linked) {a b : PageHandle} (h : s.Below a b) :
    s.ParentEdge b a := by
  obtain ⟨p,hp,hb⟩ := h
  obtain ⟨r,hr,-,hpar⟩ := hl.child_live a p b hp hb
  exact ⟨r,hr,hpar⟩

theorem Linked.descends_of_below (hl : s.Linked) {a b : PageHandle} (h : ReflTransGen s.Below a b) :
    a = b ∨ TransGen s.ParentEdge b a := by
  induction h with
  | refl => exact .inl rfl
  | tail _ hstep ih =>
    right
    have hedge := hl.parentEdge_of_below hstep
    rcases ih with rfl | ih
    · exact .single hedge
    · exact .head hedge ih

/-- A step of the closure leads to a child of a GPU-resident page. -/
theorem Linked.gpuChild_parent (hl : s.Linked) {a c : PageHandle} (h : s.GpuChild a c) :
    s.OnGpu a ∧ s.OnGpu c ∧ ∀ p : PhysicalPageRecord, s.pages[c]? = some p → p.parent = some a := by
  obtain ⟨p,q,hp,hg,hmem,hq,hgpu⟩ := gpuChild_iff.mp h
  refine ⟨⟨p,hp,hg⟩,⟨q,hq,hgpu⟩,fun r hr => ?_⟩
  obtain ⟨r',hr',-,hpar⟩ := hl.child_live a p c hp hmem
  rw [hr] at hr'
  exact Option.some.inj hr' ▸ hpar

/-- Without gaps the closure reaches every GPU-resident descendant. -/
theorem GapFree.reaches (hl : s.Linked) {root : PageHandle} (hgap : s.GapFree root)
    {d : PageHandle} (hpath : TransGen s.ParentEdge d root) (hgpu : s.OnGpu d) :
    ReflTransGen s.GpuChild root d := by
  induction hpath using TransGen.head_induction_on with
  | @single d hedge =>
    obtain ⟨p,hp,hpar⟩ := hedge
    obtain ⟨p',hp',hg⟩ := hgpu
    rw [hp] at hp'
    obtain rfl := Option.some.inj hp'
    obtain ⟨q,hq,hqg⟩ := hgap d p (.single ⟨p,hp,hpar⟩) hp hg root hpar
    obtain ⟨r,hr,-,hmem⟩ := hl.parent_live d p root hp (live_of_gpuResident hg) hpar
    rw [hq] at hr
    obtain rfl := Option.some.inj hr
    exact .single (gpuChild_iff.mpr ⟨q,p,hq,hqg,hmem,hp,hg⟩)
  | @head d c hedge hrest ih =>
    obtain ⟨p,hp,hpar⟩ := hedge
    obtain ⟨p',hp',hg⟩ := hgpu
    rw [hp] at hp'
    obtain rfl := Option.some.inj hp'
    obtain ⟨q,hq,hqg⟩ := hgap d p (.head ⟨p,hp,hpar⟩ hrest) hp hg c hpar
    obtain ⟨r,hr,-,hmem⟩ := hl.parent_live d p c hp (live_of_gpuResident hg) hpar
    rw [hq] at hr
    obtain rfl := Option.some.inj hr
    exact (ih ⟨q,hq,hqg⟩).tail (gpuChild_iff.mpr ⟨q,p,hq,hqg,hmem,hp,hg⟩)

/-- The closure covers the descendants exactly when there are no gaps. -/
theorem covers_iff_gapFree (hl : s.Linked) {root : PageHandle} (hroot : s.OnGpu root) :
    s.Covers root (s.gpuDescendantClosure root).1.keys ↔ s.GapFree root := by
  have hkeys (d : PageHandle) : d ∈ (s.gpuDescendantClosure root).1.keys ↔
      d ∈ s.pages ∧ ReflTransGen s.GpuChild root d := by
    rw [Std.ExtTreeMap.mem_keys,Dict.mem_iff_get,Dict.mem_iff_get,
      ← mem_gpuDescendantWalk (gpuChildren_isSome.mpr hroot)]
    simp [gpuDescendantClosure,Dict.get_select,Option.filter_eq_some_iff]
  constructor
  · intro hcov d p hpath hp hg q hq
    have hreach := ((hkeys d).mp (hcov d p hpath hp hg)).2
    rcases ReflTransGen.cases_tail hreach with rfl | ⟨a,-,hstep⟩
    · exact absurd hpath (hl.acyclic _)
    · obtain ⟨ha,-,hpar⟩ := hl.gpuChild_parent hstep
      rw [hpar p hp] at hq
      exact Option.some.inj hq ▸ ha
  · intro hgap d p hpath hp hg
    exact (hkeys d).mpr ⟨(Dict.mem_iff_get _ _).mpr ⟨p,hp⟩,hgap.reaches hl hpath ⟨p,hp,hg⟩⟩

end PageOwnershipIndex

namespace PhysicalBundleBuilder
open PageOwnershipIndex
variable {b : PhysicalBundleBuilder} {contextId : String} {contextEpoch : ℤ}
  {options : PreviewOptions} {root : PageHandle} {p : PhysicalBundlePreview}

/-- The previews that reclaim GPU memory from a root down. -/
inductive Reclaims (b : PhysicalBundleBuilder) (contextId : String) (contextEpoch : ℤ)
    (options : PreviewOptions) (root : PageHandle) : PhysicalBundlePreview → Prop
  | offload {p : PhysicalBundlePreview}
      (h : b.previewOffloadRoot .offloadContext contextId contextEpoch root options = some p) :
      Reclaims b contextId contextEpoch options root p
  | drop (h : ∃ r ∈ b.gpuRoots contextId, r.handle = root) :
      Reclaims b contextId contextEpoch options root
        (b.dropPreview contextId contextEpoch root options)

/-- What an eligible reclaim preview says about its closure. -/
theorem Reclaims.facts (hb : b.pageIndex.Base) (h : Reclaims b contextId contextEpoch options root p)
    (hel : p.eligible) : b.pageIndex.OnGpu root ∧
      p.bundle.handles = (b.pageIndex.gpuDescendantClosure root).1.keys ∧
      ∀ page ∈ (b.pageIndex.gpuDescendantClosure root).1.vals, pageTransferBlockers page = [] := by
  unfold PhysicalBundlePreview.eligible at hel
  rw [Bool.and_eq_true,decide_eq_true_eq,decide_eq_true_eq] at hel
  obtain ⟨-,hblock⟩ := hel
  cases h with
  | offload h =>
    obtain ⟨-,context,page,-,-,hpage,hgpu,-,after,blocked,rfl⟩ := previewOffloadRoot_some h
    refine ⟨⟨page,hpage,hgpu⟩,rfl,fun q hq => ?_⟩
    have hall := (flatMap_blockers_eq_nil hblock).2 q ((List.mem_insertionSort _).mpr hq)
    exact (offloadBlockers_eq_nil hall).1
  | drop h =>
    obtain ⟨r,hr,rfl⟩ := h
    unfold gpuRoots at hr
    rw [List.mem_insertionSort,List.mem_filter] at hr
    refine ⟨⟨r,(mem_contextRecords hb hr.1).1,hr.2⟩,rfl,fun q hq => ?_⟩
    have hall := List.flatMap_eq_nil_iff.mp
      (List.append_eq_nil_iff.mp (deduplicateBlockers_eq_nil.mp hblock)).2 q
      ((List.mem_insertionSort _).mpr hq)
    exact (List.append_eq_nil_iff.mp hall).1

/-- The gates of a page without blockers are open, as the accounting pass sees them. -/
theorem locallyEligible_of_unblocked {s : PageOwnershipIndex} (hs : s.Inv) {h : PageHandle}
    {page : PhysicalPageRecord} (hp : s.pages[h]? = some page)
    (hblock : pageTransferBlockers page = []) : locallyEligible page page.engineLockRef := by
  obtain ⟨hsealed,hlock,hreaders,hpins,hidle⟩ := pageTransferBlockers_eq_nil.mp hblock
  have hrefs := hs.refs_nonneg h page hp
  unfold locallyEligible
  simp only [Bool.and_eq_true,decide_eq_true_eq]
  exact ⟨⟨⟨⟨hsealed,by omega⟩,by omega⟩,hpins⟩,hidle⟩

/-- In every index a run reaches, an eligible reclaim bundle holds every GPU-resident descendant
of its root, and the root is among the pages that can migrate, if and only if every GPU-resident
descendant of the root has a GPU-resident parent and below the root children sort before their
parents. -/
theorem reclaim_complete_iff (ops : List Op) (hd : ∀ op ∈ ops, op.NoDead) (digests : Digests)
    (graph : RuntimeCausalContextGraph) (contextId : String) (contextEpoch : ℤ)
    (options : PreviewOptions) (root : PageHandle) (p : PhysicalBundlePreview)
    (h : Reclaims ⟨digests,graph,empty.run ops⟩ contextId contextEpoch options root p)
    (hel : p.eligible) :
    ((empty.run ops).Covers root p.bundle.handles ∧
        root ∈ (empty.run ops).readMigratableGpuPages) ↔
      (empty.run ops).GapFree root ∧ (empty.run ops).DepthOrdered root := by
  have hs := run_inv ops hd
  have hl := hs.toLinked
  obtain ⟨hroot,hhandles,hopen⟩ := h.facts hs.toBase hel
  dsimp only at hroot hhandles hopen
  have hmig : root ∈ (empty.run ops).readMigratableGpuPages ↔ (empty.run ops).SubtreeOpen root := by
    rw [(run_cacheValid ops hd).migratable_eq,mem_byDepth,mem_migratableHandles hs.toBase hl]
    have hmem : root ∈ (empty.run ops).pages := by
      obtain ⟨r,hr,-⟩ := hroot
      exact (Dict.mem_iff_get _ _).mpr ⟨r,hr⟩
    simp [hroot,hmem]
  rw [hhandles,covers_iff_gapFree hl hroot,hmig]
  refine and_congr_right fun hgap => ⟨fun ho d q hd' hq => (ho d q hd' hq).2,fun hdepth d q hd' hq =>
    ⟨fun hg => ?_,hdepth d q hd' hq⟩⟩
  -- Every GPU-resident page of the subtree is in the closure, so it has no blockers.
  have hreach : ReflTransGen (empty.run ops).GpuChild root d := by
    rcases hl.descends_of_below hd' with rfl | hpath
    · exact .refl
    · exact hgap.reaches hl hpath ⟨q,hq,hg⟩
  have hmem : q ∈ ((empty.run ops).gpuDescendantClosure root).1.vals := by
    rw [mem_closure_vals hs.toBase,mem_gpuDescendantWalk (gpuChildren_isSome.mpr hroot),
      hs.handle_eq d q hq]
    exact ⟨hq,hreach⟩
  exact locallyEligible_of_unblocked hs hq (hopen q hmem)

/-! ## A partial offload -/

/-- A chain of three pages on the GPU, owned by one context. -/
def sampleChain : List Op :=
  [.registerContext "c" "w" 0,.registerPage ⟨0,0⟩ 1 .gpuOnly 0 none true 0,
    .registerPage ⟨1,0⟩ 1 .gpuOnly 1 (some ⟨0,0⟩) true 0,
    .registerPage ⟨2,0⟩ 1 .gpuOnly 2 (some ⟨1,0⟩) true 0,
    .bindPages "c" 0 [⟨0,0⟩,⟨1,0⟩,⟨2,0⟩] false]

/-- An offload of the chain of which only the middle page completes. -/
def partialOffload : List Op :=
  [.beginTransfer ⟨2,0⟩ .d2h,.beginTransfer ⟨1,0⟩ .d2h,.beginTransfer ⟨0,0⟩ .d2h,
    .abortTransfer ⟨2,0⟩,.completeTransfer ⟨1,0⟩ .d2h false,.abortTransfer ⟨0,0⟩]

/-- A graph that knows the context, which has no invocations. -/
def idleGraph : RuntimeCausalContextGraph :=
  { contexts := Std.ExtTreeMap.empty.insert "c"
      { workflowId := "w", contextId := "c", epoch := 0, createdTsMs := 0, updatedTsMs := 0 } }

def chainBuilder (ops : List Op) : PhysicalBundleBuilder :=
  ⟨⟨fun _ => "b",fun _ => "f"⟩,idleGraph,empty.run ops⟩

/-- The preview of the root of the chain. -/
def chainPreview (ops : List Op) : Option PhysicalBundlePreview :=
  (chainBuilder ops).previewOffloadRoot .offloadContext "c" 0 ⟨0,0⟩ {}

theorem chainPreview_spec (ops : List Op) (handles : List PageHandle)
    (h : (chainPreview ops).map (fun p => (p.eligible,p.bundle.handles)) = some (true,handles)) :
    ∃ p, chainPreview ops = some p ∧ p.eligible ∧ p.bundle.handles = handles := by
  obtain ⟨p,hp,heq⟩ := Option.map_eq_some_iff.mp h
  exact ⟨p,hp,(Prod.mk.inj heq).1,(Prod.mk.inj heq).2⟩

/-- The bundle of the root of the intact chain holds all three pages. -/
theorem reclaim_complete_sample :
    ∃ p, chainPreview sampleChain = some p ∧ p.bundle.handles = [⟨0,0⟩,⟨1,0⟩,⟨2,0⟩] ∧
      (empty.run sampleChain).Covers ⟨0,0⟩ p.bundle.handles ∧
      (⟨0,0⟩ : PageHandle) ∈ (empty.run sampleChain).readMigratableGpuPages := by
  obtain ⟨p,hp,hel,hhandles⟩ := chainPreview_spec sampleChain
    [⟨0,0⟩,⟨1,0⟩,⟨2,0⟩] (by decide +kernel)
  have hd : ∀ op ∈ sampleChain, op.NoDead := by decide
  have hgpu : ∀ q ∈ (empty.run sampleChain).pages.vals, q.gpuResident := by decide
  have hdepth : ∀ q ∈ (empty.run sampleChain).pages.vals,
      ∀ r ∈ (empty.run sampleChain).pages.vals, r.handle ∈ q.children → deepestFirst r q := by
    decide +kernel
  refine ⟨p,hp,hhandles,(reclaim_complete_iff sampleChain hd _ _ "c" 0 {} ⟨0,0⟩ p (.offload hp)
    hel).mpr ⟨fun d q _ hq _ a ha => ?_,fun d q _ hq c r hc hr => ?_⟩⟩
  · obtain ⟨r,hr,-⟩ := (run_inv sampleChain hd).parent_live d q a hq
      (live_of_gpuResident (hgpu q ((Dict.mem_vals _ _).mpr ⟨d,hq⟩))) ha
    exact ⟨r,hr,hgpu r ((Dict.mem_vals _ _).mpr ⟨a,hr⟩)⟩
  · refine hdepth q ((Dict.mem_vals _ _).mpr ⟨d,hq⟩) r ((Dict.mem_vals _ _).mpr ⟨c,hr⟩) ?_
    rw [(run_inv sampleChain hd).handle_eq c r hr]
    exact hc

/-- After a partial offload the bundle of the root misses the page below the gap, which the leaf
check of the path without bundles does see. -/
theorem reclaim_bundle_misses_descendant :
    ∃ p, chainPreview (sampleChain ++ partialOffload) = some p ∧ p.eligible ∧
      p.bundle.handles = [⟨0,0⟩] ∧
      ¬ (empty.run (sampleChain ++ partialOffload)).Covers ⟨0,0⟩ p.bundle.handles ∧
      (empty.run (sampleChain ++ partialOffload)).pages[(⟨0,0⟩ : PageHandle)]?.any (fun root =>
        !(empty.run (sampleChain ++ partialOffload)).leafClosureAllows root
          p.bundle.handles.toFinset) := by
  obtain ⟨p,hp,hel,hhandles⟩ := chainPreview_spec (sampleChain ++ partialOffload)
    [⟨0,0⟩] (by decide +kernel)
  refine ⟨p,hp,hel,hhandles,fun hcov => ?_,by rw [hhandles]; decide +kernel⟩
  have hleaf : (empty.run (sampleChain ++ partialOffload)).pages[(⟨2,0⟩ : PageHandle)]?.map
      (fun q => (q.gpuResident,q.parent)) = some (true,some ⟨1,0⟩) := by decide
  have hgap : (empty.run (sampleChain ++ partialOffload)).pages[(⟨1,0⟩ : PageHandle)]?.map
      (fun q => (q.gpuResident,q.parent)) = some (false,some ⟨0,0⟩) := by decide
  obtain ⟨q,hq,hqeq⟩ := Option.map_eq_some_iff.mp hleaf
  obtain ⟨r,hr,hreq⟩ := Option.map_eq_some_iff.mp hgap
  have hmem := hcov ⟨2,0⟩ q (.head ⟨q,hq,(Prod.mk.inj hqeq).2⟩ (.single ⟨r,hr,(Prod.mk.inj hreq).2⟩))
    hq (Prod.mk.inj hqeq).1
  rw [hhandles] at hmem
  simp at hmem

end PhysicalBundleBuilder
end BeliefKV
