import BeliefKV.Lib.Code
import BeliefKV.Arbiter.Execution

/-! Intents wait in a queue while pages and contexts change. A bundle command that still
resolves to actions finds everything its preview was taken from as it was. -/
namespace BeliefKV

/-! ## Facts of a page -/

/-- Two records of a page agree on what a bundle of a kind relies on. The gates of a page that
is on the GPU already do not matter to a load. -/
structure SameFacts (kind : CommandKind) (p q : PhysicalPageRecord) : Prop where
  residency : q.residency = p.residency
  sizeBytes : q.sizeBytes = p.sizeBytes
  parent : q.parent = p.parent
  children : q.children = p.children
  ownerContexts : q.ownerContexts = p.ownerContexts
  gates : kind ≠ .prefetchContext ∨ p.gpuResident = false →
    q.engineLockRef = p.engineLockRef ∧ q.activeReaderCount = p.activeReaderCount ∧
      q.semanticPinContexts = p.semanticPinContexts ∧ q.isSealed = p.isSealed ∧
      q.transferDirection = p.transferDirection

/-- The pages whose gates a fingerprint of a kind covers. -/
def blockerScope (kind : CommandKind) (page : PhysicalPageRecord) : Bool :=
  kind ∈ [CommandKind.offloadContext,.dropContext,.shadowContext] || !page.gpuResident

theorem sameFacts_of_pageFacts {kind : CommandKind} {p q : PhysicalPageRecord}
    (hkind : kind = .prefetchContext ∨ kind ∈ [CommandKind.offloadContext,.dropContext,.shadowContext])
    (h : pageFacts (blockerScope kind p) p = pageFacts (blockerScope kind q) q) :
    SameFacts kind p q := by
  simp only [pageFacts,PageFacts.mk.injEq] at h
  obtain ⟨-,hsize,hres,hparent,hchildren,howners,hlock,hreaders,hpins,hsealed,hdir⟩ := h
  have hscope : blockerScope kind q = blockerScope kind p := by
    simp only [blockerScope,PhysicalPageRecord.gpuResident,hres]
  rw [hscope] at hlock hreaders hpins hsealed hdir
  refine ⟨hres.symm,hsize.symm,hparent.symm,(Dict.sorted_injective hchildren).symm,?_,fun hgates => ?_⟩
  · apply Dict.ext_get
    intro c
    apply Option.ext
    intro e
    rw [← Std.ExtTreeMap.mem_toList_iff_getElem?_eq_some,← howners,
      Std.ExtTreeMap.mem_toList_iff_getElem?_eq_some]
  · have htrue : blockerScope kind p = true := by
      unfold blockerScope
      rcases hkind with rfl | hk
      · simp_all
      · simp [hk]
    simp only [htrue,if_true,Option.some.injEq] at hlock hreaders hpins hsealed hdir
    exact ⟨hlock.symm,hreaders.symm,(Dict.sorted_injective hpins).symm,hsealed.symm,hdir.symm⟩

namespace PhysicalBundleBuilder
variable {b : PhysicalBundleBuilder} {kind : CommandKind} {contextId : String} {contextEpoch : ℤ}
  {options : PreviewOptions} {p : PhysicalBundlePreview}

/-- A preview a caller can get for a kind and a context. -/
def Previewed (b : PhysicalBundleBuilder) (kind : CommandKind) (contextId : String)
    (contextEpoch : ℤ) (options : PreviewOptions) (p : PhysicalBundlePreview) : Prop :=
  p ∈ b.previewsForContext kind contextId contextEpoch options ∨
    ∃ root, b.previewOffloadRoot kind contextId contextEpoch root options = some p

theorem Previewed.origin (h : b.Previewed kind contextId contextEpoch options p) :
    b.graph.contexts[contextId]?.map ContextRecord.epoch = some contextEpoch ∧
      Origin b contextId contextEpoch options kind p := by
  rcases h with h | ⟨root,h⟩
  · obtain ⟨hgraph,-,horigin⟩ := origin_of_mem h
    exact ⟨hgraph,horigin⟩
  · obtain ⟨-,context,-,hc,he,-⟩ := previewOffloadRoot_some h
    exact ⟨by rw [hc,Option.map_some,he],.offload h⟩

/-- The closure of a preview is a part of the index, and its identity and its fingerprint are
those of the closure. -/
theorem Origin.closure (h : Origin b contextId contextEpoch options kind p) :
    (kind = .prefetchContext ∨ kind ∈ [CommandKind.offloadContext,.dropContext,.shadowContext]) ∧
    ∃ (f : PageHandle → PhysicalPageRecord → Bool) (owners : List String),
      p.bundle.handles = (b.pageIndex.pages.select f).keys ∧
      p.bundle.generationFingerprint = b.fingerprint kind (b.pageIndex.pages.select f) owners := by
  cases h with
  | offload h =>
    obtain ⟨hkind,-,-,-,-,-,-,-,after,blocked,heq⟩ := previewOffloadRoot_some h
    refine ⟨.inr (by rcases hkind with h | h <;> simp [h]),?_⟩
    rw [heq]
    exact ⟨_,_,rfl,rfl⟩
  | drop h => exact ⟨.inr (by simp),_,_,rfl,rfl⟩
  | prefetch h => exact ⟨.inl rfl,_,_,rfl,rfl⟩

end PhysicalBundleBuilder

/-! ## Resolution -/

namespace RadixArbiter
open PageOwnershipIndex
open PhysicalBundleBuilder (Previewed)

/-- Whatever happened since an eligible preview was taken, its intent resolves to actions only
when the epoch of the context and the facts of every page of the closure are those of the preview,
and then the actions are the intent's. -/
theorem stale_intents_rejected (a : RadixArbiter) (hinj : Function.Injective a.digests.fingerprint)
    (graph graph' : RuntimeCausalContextGraph) (s s' : PageOwnershipIndex) (contextId : String)
    (contextEpoch : ℤ) (options : PreviewOptions) (p : PhysicalBundlePreview)
    (intent : PhysicalBundleIntent) (command : ControlCommand)
    (hp : Previewed (a.builder graph s) command.kind contextId contextEpoch options p)
    (hintent : p.intent = .ok intent) (hc : command.contextId = some contextId)
    (he : command.contextEpoch = some contextEpoch) (hb : command.physicalBundle = some intent)
    (hne : (a.resolve graph' s' command).pageActions ≠ []) :
    graph'.contexts[contextId]?.map ContextRecord.epoch =
        graph.contexts[contextId]?.map ContextRecord.epoch ∧
      s'.contextEpoch[contextId]? = some contextEpoch ∧
      (∀ h ∈ p.bundle.handles, ∃ q q' : PhysicalPageRecord, s.pages[h]? = some q ∧
        s'.pages[h]? = some q' ∧ SameFacts command.kind q q') ∧
      (a.resolve graph' s' command).pageActions = intent.pageActions := by
  obtain ⟨hgraph,horigin⟩ := hp.origin
  obtain ⟨hkind,f,owners,hhandles,hfp⟩ := horigin.closure
  have hfields : intent.closureHandles = p.bundle.handles ∧
      intent.generationFingerprint = p.bundle.generationFingerprint := by
    unfold PhysicalBundlePreview.intent at hintent
    split_ifs at hintent
    obtain rfl := Except.ok.inj hintent
    exact ⟨rfl,rfl⟩
  rcases resolve_cases hne with ⟨hdrop,-⟩ |
    ⟨c,e,context,hc',he',hcontext,hepoch,hindex,⟨intent',hb',heq⟩ | ⟨hnone,-⟩⟩
  · simp [hdrop] at hkind
  · rw [hc] at hc'
    rw [he] at he'
    rw [hb] at hb'
    obtain rfl := Option.some.inj hc'
    obtain rfl := Option.some.inj he'
    obtain rfl := Option.some.inj hb'
    rw [heq] at hne ⊢
    obtain ⟨p',hmem,-,hfp',-,hhandles',hactions,-,hresolved⟩ := resolvePhysicalBundle_some hne
    obtain ⟨-,-,horigin'⟩ := PhysicalBundleBuilder.origin_of_mem hmem
    obtain ⟨-,f',owners',hkeys',hfp''⟩ := horigin'.closure
    refine ⟨?_,hindex,fun h hh => ?_,?_⟩
    · exact (by rw [hcontext,Option.map_some,hepoch] : _ = some contextEpoch).trans hgraph.symm
    · -- One fingerprint, so one list of facts over one list of handles.
      have hpayload := hinj (hfp.symm.trans (hfields.2.symm.trans (hfp'.symm.trans hfp'')))
      have hkeys : (s.pages.select f).keys = (s'.pages.select f').keys :=
        hhandles.symm.trans (hfields.1.symm.trans (hhandles'.symm.trans hkeys'))
      obtain ⟨q,q',hq,hq',hfacts⟩ := Dict.get_of_map_vals hkeys
        (FingerprintPayload.mk.inj hpayload).2.1 (hhandles ▸ hh)
      rw [Dict.get_select,Option.filter_eq_some_iff] at hq hq'
      exact ⟨q,q',hq.1,hq'.1,sameFacts_of_pageFacts hkind hfacts⟩
    · rw [hresolved]
      exact hactions
  · simp [hnone] at hb

/-! ## A serialisation as digest -/

def handleCode : Code PageHandle :=
  (Code.nat.pair .nat).along (fun h => (h.pageId,h.allocationGeneration)) fun x y h => by
    cases x
    cases y
    simpa using h

def pageFactsCode : Code PageFacts :=
  (handleCode.pair <| Code.nat.pair <| Code.nat.pair <| handleCode.option.pair <|
    handleCode.list.pair <| (Code.string.pair .int).list.pair <| Code.int.option.pair <|
    Code.int.option.pair <| Code.string.list.option.pair <| Code.bool.option.pair
    Code.nat.option).along
    (fun p => (p.handle,p.sizeBytes,p.residency.ctorIdx,p.parent,p.children,p.ownerContexts,
      p.engineLockRef,p.activeReaderCount,p.semanticPinContexts,p.isSealed,
      p.transferDirection.map TransferDirection.ctorIdx)) fun x y h => by
    have hres (r r' : PhysicalResidency) (h : r.ctorIdx = r'.ctorIdx) : r = r' := by
      cases r <;> cases r' <;> first | rfl | cases h
    have hdir (d d' : TransferDirection) (h : d.ctorIdx = d'.ctorIdx) : d = d' := by
      cases d <;> cases d' <;> first | rfl | cases h
    simp only [Prod.mk.injEq] at h
    obtain ⟨h₁,h₂,h₃,h₄,h₅,h₆,h₇,h₈,h₉,h₁₀,h₁₁⟩ := h
    cases x
    cases y
    simp only [PageFacts.mk.injEq]
    exact ⟨h₁,h₂,hres _ _ h₃,h₄,h₅,h₆,h₇,h₈,h₉,h₁₀,Option.map_injective hdir h₁₁⟩

theorem ctorIdx_injective : Function.Injective CommandKind.ctorIdx := by
  intro x y h
  cases x <;> cases y <;> first | rfl | cases h

def kindCode : Code CommandKind := Code.nat.along CommandKind.ctorIdx ctorIdx_injective

def payloadCode : Code FingerprintPayload :=
  (kindCode.pair <| pageFactsCode.list.pair <| Code.nat.pair <| Code.string.list.pair
    (Code.string.pair (Code.string.pair .string)).list).along
    (fun p => (p.kind,p.pages,p.strongestKind.ctorIdx,p.ownerContextIds,p.conditions)) fun x y h => by
    have hlease (k k' : LeaseKind) (h : k.ctorIdx = k'.ctorIdx) : k = k' := by
      cases k <;> cases k' <;> first | rfl | cases h
    simp only [Prod.mk.injEq] at h
    obtain ⟨h₁,h₂,h₃,h₄,h₅⟩ := h
    cases x
    cases y
    simp only [FingerprintPayload.mk.injEq]
    exact ⟨h₁,h₂,hlease _ _ h₃,h₄,h₅⟩

/-- Digests without collisions: the representation itself. -/
def serialDigests : Digests :=
  ⟨fun x => Code.text ((kindCode.pair handleCode.list).enc x),fun x => Code.text (payloadCode.enc x)⟩

theorem serialDigests_injective : Function.Injective serialDigests.fingerprint :=
  Code.text_injective.comp payloadCode.injective

def serialArbiter : RadixArbiter := { digests := serialDigests }

def pagePreview : Option PhysicalBundlePreview :=
  (serialArbiter.builder PhysicalBundleBuilder.idleGraph (empty.run onePage)).previewOffloadRoot
    .offloadContext "c" 0 ⟨0,0⟩ {}

def offloadWith (intent : PhysicalBundleIntent) : ControlCommand :=
  { commandId := "x"
    kind := .offloadContext
    contextId := some "c"
    contextEpoch := some 0
    physicalBundle := some intent
    targets_nodup := List.nodup_nil }

/-- The page is locked and released again while the command waits. -/
def lockedAndReleased : List Op := onePage ++ [.setEngineLock ⟨0,0⟩ 1,.setEngineLock ⟨0,0⟩ 0]

theorem stale_intents_rejected_sample : ∃ (p : PhysicalBundlePreview) (intent : PhysicalBundleIntent),
    pagePreview = some p ∧ p.intent = .ok intent ∧ p.bundle.handles = [⟨0,0⟩] ∧
    (serialArbiter.resolve PhysicalBundleBuilder.idleGraph (empty.run lockedAndReleased)
      (offloadWith intent)).pageActions = intent.pageActions ∧
    ∃ q q' : PhysicalPageRecord, (empty.run onePage).pages[(⟨0,0⟩ : PageHandle)]? = some q ∧
      (empty.run lockedAndReleased).pages[(⟨0,0⟩ : PageHandle)]? = some q' ∧
      SameFacts .offloadContext q q' := by
  have heval : (pagePreview.bind fun p => p.intent.toOption.map fun intent =>
      (p.bundle.handles,(serialArbiter.resolve PhysicalBundleBuilder.idleGraph
        (empty.run lockedAndReleased) (offloadWith intent)).pageActions)) =
      some ([⟨0,0⟩],[⟨⟨0,0⟩,.startD2h,1⟩]) := by decide +kernel
  obtain ⟨p,hp,hmap⟩ := Option.bind_eq_some_iff.mp heval
  obtain ⟨intent,hsome,hfacts⟩ := Option.map_eq_some_iff.mp hmap
  obtain ⟨hhandles,hactions⟩ := Prod.mk.inj hfacts
  have hintent : p.intent = .ok intent := by
    cases h : p.intent with
    | error e => simp [h,Except.toOption] at hsome
    | ok i => simpa [h,Except.toOption] using hsome
  obtain ⟨-,-,hpages,hsame⟩ := stale_intents_rejected serialArbiter serialDigests_injective
    PhysicalBundleBuilder.idleGraph PhysicalBundleBuilder.idleGraph (empty.run onePage)
    (empty.run lockedAndReleased) "c" 0 {} p intent (offloadWith intent) (.inr ⟨⟨0,0⟩,hp⟩) hintent
    rfl rfl rfl (by rw [hactions]; simp)
  exact ⟨p,intent,hp,hintent,hhandles,hsame,hpages ⟨0,0⟩ (by rw [hhandles]; simp)⟩

end RadixArbiter
end BeliefKV
