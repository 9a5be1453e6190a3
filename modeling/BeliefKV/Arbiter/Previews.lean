import BeliefKV.Arbiter.Selection

/-! Where previews come from, and what an eligible preview says about the pages of its
closure. -/
namespace BeliefKV
open Relation

/-- Nothing is left in a list of distinct elements that was not there before. -/
theorem mem_of_mem_eraseDupsBy {α : Type} {r : α → α → Bool} {l : List α} {x : α}
    (h : x ∈ l.eraseDupsBy r) : x ∈ l := by
  induction hn : l.length using Nat.strong_induction_on generalizing l with
  | _ n ih =>
    cases l with
    | nil => simp at h
    | cons a l =>
      rw [List.eraseDupsBy_cons,List.mem_cons] at h
      rcases h with rfl | h
      · simp
      · have hlen := List.length_filter_le (fun b => r b a = false) l
        have hmem := ih _ (by rw [← hn,List.length_cons]; omega) h rfl
        exact List.mem_cons_of_mem a (List.mem_of_mem_filter hmem)

theorem flatMap_blockers_eq_nil {pages : List PhysicalPageRecord}
    {f : PhysicalPageRecord → List TransferBlocker} {before after : List TransferBlocker}
    (h : deduplicateBlockers (before ++ pages.flatMap f ++ after) = []) :
    before = [] ∧ ∀ p ∈ pages, f p = [] := by
  rw [deduplicateBlockers_eq_nil,List.append_eq_nil_iff,List.append_eq_nil_iff,
    List.flatMap_eq_nil_iff] at h
  exact h.1

namespace PhysicalBundleBuilder
open PageOwnershipIndex (deepestFirst)
variable {b : PhysicalBundleBuilder} {kind : CommandKind} {contextId : String} {contextEpoch : ℤ}
  {options : PreviewOptions} {p : PhysicalBundlePreview}

/-! ## Origins -/

/-- The root a preview was made for. -/
inductive Origin (b : PhysicalBundleBuilder) (contextId : String) (contextEpoch : ℤ)
    (options : PreviewOptions) : CommandKind → PhysicalBundlePreview → Prop
  | offload {kind : CommandKind} {root : PageHandle} {p : PhysicalBundlePreview}
      (h : b.previewOffloadRoot kind contextId contextEpoch root options = some p) :
      Origin b contextId contextEpoch options kind p
  | drop {root : PhysicalPageRecord} (h : root ∈ b.gpuRoots contextId) :
      Origin b contextId contextEpoch options .dropContext
        (b.dropPreview contextId contextEpoch root.handle options)
  | prefetch {target : PhysicalPageRecord} (h : target ∈ b.pageIndex.contextRecords contextId)
      (hres : target.residency = .cpuOnly) :
      Origin b contextId contextEpoch options .prefetchContext
        (b.prefetchPreview contextId contextEpoch target options)

theorem origin_of_mem (h : p ∈ b.previewsForContext kind contextId contextEpoch options) :
    b.graph.contexts[contextId]?.map ContextRecord.epoch = some contextEpoch ∧
      b.pageIndex.contextEpoch[contextId]? = some contextEpoch ∧
      Origin b contextId contextEpoch options kind p := by
  unfold previewsForContext at h
  split_ifs at h with he
  · refine ⟨he.1,he.2,?_⟩
    rw [(List.perm_insertionSort _ _).mem_iff] at h
    unfold previewsOfKind distinctClosures at h
    cases kind <;> simp only [List.not_mem_nil] at h <;> replace h := mem_of_mem_eraseDupsBy h
    · obtain ⟨root,-,hp⟩ := List.mem_filterMap.mp h
      exact .offload hp
    · obtain ⟨root,hroot,rfl⟩ := List.mem_map.mp h
      exact .drop hroot
    · obtain ⟨root,-,hp⟩ := List.mem_filterMap.mp h
      exact .offload hp
    · obtain ⟨target,htarget,rfl⟩ := List.mem_map.mp h
      rw [(List.perm_insertionSort _ _).mem_iff,List.mem_filter] at htarget
      exact .prefetch htarget.1 (by simpa using htarget.2)
  · simp at h

theorem mem_of_findIntentPreview {bundleId : String}
    (h : b.findIntentPreview kind contextId contextEpoch bundleId options = some p) :
    p ∈ b.previewsForContext kind contextId contextEpoch options ∧ p.bundle.bundleId = bundleId :=
  ⟨List.mem_of_find?_eq_some h,by simpa using List.find?_some h⟩

/-! ## Offload -/

/-- A D2H preview that exists, taken apart. -/
theorem previewOffloadRoot_some {root : PageHandle}
    (h : b.previewOffloadRoot kind contextId contextEpoch root options = some p) :
    (kind = .offloadContext ∨ kind = .shadowContext) ∧
    ∃ (context : ContextRecord) (page : PhysicalPageRecord),
      b.graph.contexts[contextId]? = some context ∧ context.epoch = contextEpoch ∧
      b.pageIndex.pages[root]? = some page ∧ page.gpuResident ∧ contextId ∈ page.ownerContexts ∧
      ∃ after blocked,
        let closure := b.pageIndex.gpuDescendantClosure root
        let pages := closure.1.vals.insertionSort (deepestFirst · ·)
        p = b.preview kind contextId contextEpoch closure.1 (pages.filterMap (offloadAction kind))
          (closure.2 ++ pages.flatMap (b.offloadBlockers options) ++ after) blocked := by
  unfold previewOffloadRoot at h
  split_ifs at h with hk
  have hkind : kind = .offloadContext ∨ kind = .shadowContext := by tauto
  cases hc : b.graph.contexts[contextId]? with
  | none => simp [hc] at h
  | some context =>
    cases hp : b.pageIndex.pages[root]? with
    | none => simp [hc,hp] at h
    | some page =>
      simp only [hc,hp] at h
      split_ifs at h with hbad
      simp only [not_or,not_not,Bool.not_eq_false] at hbad
      exact ⟨hkind,context,page,rfl,hbad.1,rfl,hbad.2.1,hbad.2.2,_,_,(Option.some.inj h).symm⟩

/-- The pages of a D2H closure without blockers pass every gate. -/
theorem offloadBlockers_eq_nil {page : PhysicalPageRecord} (h : b.offloadBlockers options page = []) :
    pageTransferBlockers page = [] ∧ ownerBlockers b.graph options page = [] := by
  unfold offloadBlockers at h
  by_cases hown : pageTransferBlockers page ++ ownerBlockers b.graph options page = []
  · exact List.append_eq_nil_iff.mp hown
  · simp [hown] at h

end PhysicalBundleBuilder

namespace PageOwnershipIndex
variable {s : PageOwnershipIndex}

/-! ## The descendant closure -/

theorem mem_closure_vals {root : PageHandle} {p : PhysicalPageRecord} (hb : s.Base) :
    p ∈ (s.gpuDescendantClosure root).1.vals ↔
      s.pages[p.handle]? = some p ∧ p.handle ∈ (s.gpuDescendantWalk root).visited := by
  unfold gpuDescendantClosure
  rw [Dict.mem_vals]
  constructor
  · rintro ⟨h,hp⟩
    rw [Dict.get_select,Option.filter_eq_some_iff] at hp
    obtain ⟨hp,hv⟩ := hp
    rw [hb.handle_eq h p hp]
    exact ⟨hp,by simpa using hv⟩
  · rintro ⟨hp,hv⟩
    exact ⟨p.handle,by rw [Dict.get_select,Option.filter_eq_some_iff]; exact ⟨hp,by simpa using hv⟩⟩

/-- One step down between GPU-resident pages. -/
def GpuChild (s : PageOwnershipIndex) (a b : PageHandle) : Prop :=
  Walk.Edge s.gpuChildren a b ∧ (s.gpuChildren b).isSome

theorem gpuChildren_isSome {h : PageHandle} : (s.gpuChildren h).isSome ↔ s.OnGpu h := by
  unfold gpuChildren OnGpu
  cases hp : s.pages[h]? with
  | none => simp
  | some p => cases hg : p.gpuResident <;> simp [hg]

theorem gpuChild_iff {a c : PageHandle} : s.GpuChild a c ↔
    ∃ p q : PhysicalPageRecord, s.pages[a]? = some p ∧ p.gpuResident ∧ c ∈ p.children ∧
      s.pages[c]? = some q ∧ q.gpuResident := by
  unfold GpuChild Walk.Edge
  rw [gpuChildren_isSome]
  constructor
  · rintro ⟨⟨cs,hcs,hmem⟩,q,hq,hgpu⟩
    unfold gpuChildren at hcs
    cases hp : s.pages[a]? with
    | none => simp [hp] at hcs
    | some p =>
      simp only [hp] at hcs
      split_ifs at hcs with hg
      obtain rfl := Option.some.inj hcs
      exact ⟨p,q,rfl,hg,by simpa using hmem,hq,hgpu⟩
  · rintro ⟨p,q,hp,hg,hmem,hq,hgpu⟩
    exact ⟨⟨_,by simp [gpuChildren,hp,hg]; rfl,by simpa using hmem⟩,q,hq,hgpu⟩

/-- The walk down from a GPU-resident root visits exactly what the root reaches over
GPU-resident pages. -/
theorem mem_gpuDescendantWalk {root h : PageHandle} (hroot : (s.gpuChildren root).isSome) :
    h ∈ (s.gpuDescendantWalk root).visited ↔ ReflTransGen s.GpuChild root h := by
  unfold gpuDescendantWalk
  obtain ⟨hstack,hclosed⟩ := Walk.explore_complete (width_domain width_gpuChildren)
    (s.edgeCount + 1) [root] {}
    (by have := width_le_edgeCount (s := s) width_gpuChildren []; simpa using this)
    (fun a ha => absurd ha (by simp))
  constructor
  · intro hv
    rcases Walk.explore_sound hv with h' | ⟨hsome,r,hr,hpath⟩
    · simp at h'
    · rw [List.mem_singleton] at hr
      subst hr
      clear hv hstack hclosed
      induction hpath with
      | refl => exact .refl
      | @tail a c hpath hedge ih =>
        obtain ⟨cs,hcs,hmem⟩ := hedge
        exact (ih (by simp [hcs])).tail ⟨⟨cs,hcs,hmem⟩,hsome⟩
  · intro hpath
    exact hclosed.reaches (hstack root (by simp) hroot) hpath

theorem closure_gpuResident {root : PageHandle} {p : PhysicalPageRecord} (hb : s.Base)
    (hp : p ∈ (s.gpuDescendantClosure root).1.vals) : p.gpuResident := by
  obtain ⟨hpage,hv⟩ := (mem_closure_vals hb).mp hp
  rcases Walk.explore_sound hv with h | ⟨hsome,-⟩
  · simp at h
  · obtain ⟨q,hq,hgpu⟩ := gpuChildren_isSome.mp hsome
    rw [hpage] at hq
    obtain rfl := Option.some.inj hq
    exact hgpu

/-- The pages of a closure are records of the index, under distinct handles. -/
theorem select_records (hb : s.Base) (f : PageHandle → PhysicalPageRecord → Bool) :
    (∀ p ∈ (s.pages.select f).vals, s.pages[p.handle]? = some p) ∧
      ((s.pages.select f).vals.map PhysicalPageRecord.handle).Nodup := by
  have hget {h : PageHandle} {p : PhysicalPageRecord} (hp : (s.pages.select f)[h]? = some p) :
      s.pages[h]? = some p := by
    rw [Dict.get_select,Option.filter_eq_some_iff] at hp
    exact hp.1
  refine ⟨fun p hp => ?_,(handles_nodup fun h p hp => hb.handle_eq h p (hget hp)).2⟩
  obtain ⟨h,hp⟩ := (Dict.mem_vals _ _).mp hp
  rw [hb.handle_eq h p (hget hp)]
  exact hget hp

end PageOwnershipIndex

/-! ## Resolution -/

namespace RadixArbiter
variable {a : RadixArbiter} {graph : RuntimeCausalContextGraph} {s : PageOwnershipIndex}
  {command : ControlCommand}

/-- A bundle command that resolves to actions finds a current preview without blockers that says
what its intent says. -/
theorem resolvePhysicalBundle_some {contextId : String} {epoch : ℤ} {intent : PhysicalBundleIntent}
    (hne : (a.resolvePhysicalBundle graph s command contextId epoch intent).pageActions ≠ []) :
    ∃ p, p ∈ (a.builder graph s).previewsForContext command.kind contextId epoch
        (commandOptions command) ∧
      p.bundle.bundleId = intent.bundleId ∧
      p.bundle.generationFingerprint = intent.generationFingerprint ∧ p.blockers = [] ∧
      p.bundle.handles = intent.closureHandles ∧ p.pageActions = intent.pageActions ∧
      p.bundle.closureBytes = intent.closureBytes ∧
      a.resolvePhysicalBundle graph s command contextId epoch intent =
        ⟨p.pageActions,p.bundle.closureBytes,"physical_bundle_resolved",[],
          intent.generationFingerprint⟩ := by
  unfold resolvePhysicalBundle at hne ⊢
  cases hfind : (a.builder graph s).findIntentPreview command.kind contextId epoch intent.bundleId
      (commandOptions command) with
  | none => simp [hfind] at hne
  | some p =>
    simp only [hfind] at hne ⊢
    obtain ⟨hmem,hid⟩ := PhysicalBundleBuilder.mem_of_findIntentPreview hfind
    by_cases hf : p.bundle.generationFingerprint = intent.generationFingerprint
    · by_cases hb : p.blockers = []
      · by_cases hd : p.bundle.handles ≠ intent.closureHandles ∨ p.pageActions ≠ intent.pageActions ∨
            p.bundle.closureBytes ≠ intent.closureBytes
        · simp [hf,hb,hd] at hne
        · simp only [not_or,not_not] at hd
          refine ⟨p,hmem,hid,hf,hb,hd.1,hd.2.1,hd.2.2,?_⟩
          simp [hf,hb,hd.1,hd.2.1,hd.2.2]
      · simp [hf,hb] at hne
    · simp [hf] at hne

end RadixArbiter
end BeliefKV
