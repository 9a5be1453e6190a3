import BeliefKV.Rolling.Room
import BeliefKV.Rolling.Runs
import BeliefKV.Lib.Cover

/-! Evictions: whether they make the room that they can, and that they make all of it or none. -/
namespace BeliefKV.RollingRadixAllocator
open Call TieredTokenRadix
variable {digest : List ℤ → String} {config : RollingConfig} {s t : TieredTokenRadix} {a b : RollingRadixAllocator}
  {paths : List (List ℤ)}

/-! ## Bundles -/

theorem mapM_returns {A B E : Type} {f : A → Except E B} {l : List A} (h : ∀ x ∈ l, ∃ y, f x = .ok y) :
    ∃ out, l.mapM f = .ok out ∧ ∀ x ∈ l, ∃ y ∈ out, f x = .ok y := by
  induction l with
  | nil => exact ⟨[],rfl,fun x hx => absurd hx List.not_mem_nil⟩
  | cons x l ih =>
    obtain ⟨y,hy⟩ := h x List.mem_cons_self
    obtain ⟨out,hout,hall⟩ := ih fun z hz => h z (List.mem_cons_of_mem x hz)
    refine ⟨y :: out,?_,fun z hz => ?_⟩
    · rw [List.mapM_cons,hy,hout]
      rfl
    · obtain rfl | hz := List.mem_cons.mp hz
      · exact ⟨y,List.mem_cons_self,hy⟩
      · obtain ⟨w,hw,hfw⟩ := hall z hz
        exact ⟨w,List.mem_cons_of_mem y hw,hfw⟩

/-- A bundle that no protected path leads into. -/
structure Offer (s : TieredTokenRadix) (paths : List (List ℤ)) (b : TieredRadixBundle) : Prop where
  known : b.nodeId ∈ s.nodesById
  evictable : s.Evictable b.nodeId
  leads : s.Leads 0 b.rootPath b.nodeId
  clear : s.Clear paths b.nodeId
  gpu : b.gpuTokens = s.subtreeCount TieredTrieNode.gpu b.nodeId

theorem bundle_returns (digest : List ℤ → String) (hs : s.Linked) (hu : s.Unsigned) {i : ℕ} (hi : i ∈ s.nodesById) :
    ∃ b, s.bundle digest i = .ok b := by
  obtain ⟨q,hq,hleads⟩ := hs.nodePath hi
  have hid : bundleId digest q = .ok ("radix:" ++ digest q) := if_neg (unsigned_iff.mp (hu.leads hleads))
  unfold TieredTokenRadix.bundle
  rw [hq]
  simp only [hid]
  exact ⟨_,rfl⟩

theorem bundle_eq_ok {b : TieredRadixBundle} {i : ℕ} (h : s.bundle digest i = .ok b) :
    b.nodeId = i ∧ s.nodePath i = .ok b.rootPath ∧ b.gpuTokens = s.subtreeCount TieredTrieNode.gpu i ∧
      b.missingCpuTokens = s.subtreeCount (fun n => n.gpu && !n.cpu) i := by
  unfold TieredTokenRadix.bundle at h
  cases hpath : s.nodePath i with
  | error raised =>
    rw [hpath] at h
    cases h
  | ok rootPath =>
    rw [hpath] at h
    simp only at h
    cases hid : bundleId digest rootPath with
    | error raised =>
      rw [hid] at h
      cases h
    | ok id =>
      rw [hid] at h
      cases h
      exact ⟨rfl,rfl,rfl,rfl⟩

/-- The bundles are those of the evictable nodes. -/
theorem evictableBundles_returns (digest : List ℤ → String) (hs : s.Linked) (hu : s.Unsigned) :
    ∃ bundles, s.evictableBundles digest = .ok bundles ∧
      (∀ b ∈ bundles, b.nodeId ∈ s.nodesById ∧ s.Evictable b.nodeId ∧ s.bundle digest b.nodeId = .ok b) ∧
      ∀ r ∈ s.nodesById, s.Evictable r → ∃ b ∈ bundles, b.nodeId = r := by
  have hnodes (i : ℕ) : i ∈ ((s.subtreeNodes 0).reverse.filter fun i => s.Evictable i) ↔
      i ∈ s.nodesById ∧ s.Evictable i := by
    rw [List.mem_filter,List.mem_reverse,decide_eq_true_eq]
    exact and_congr_left fun _ => ⟨(hs.subtree hs.root).2.1 i,hs.mem_all i⟩
  obtain ⟨bundles,hbundles,hall⟩ := mapM_returns (f := s.bundle digest) fun i hi =>
    bundle_returns digest hs hu ((hnodes i).mp hi).1
  refine ⟨bundles.mergeSort fun a b => a.lruKey ≤ b.lruKey,?_,fun b hb => ?_,fun r hr hev => ?_⟩
  · unfold evictableBundles
    rw [hbundles]
    rfl
  · obtain ⟨i,hi,hbundle⟩ := mem_mapM hbundles b (List.mem_mergeSort.mp hb)
    obtain ⟨hmem,hev⟩ := (hnodes i).mp hi
    obtain ⟨rfl,-⟩ := bundle_eq_ok hbundle
    exact ⟨hmem,hev,hbundle⟩
  · obtain ⟨b,hb,hbundle⟩ := hall r ((hnodes r).mpr ⟨hr,hev⟩)
    exact ⟨b,List.mem_mergeSort.mpr hb,(bundle_eq_ok hbundle).1⟩

theorem bundle_leads {b : TieredRadixBundle} (hs : s.Linked) {i : ℕ} (hi : i ∈ s.nodesById)
    (h : s.bundle digest i = .ok b) : s.Leads 0 b.rootPath i := by
  obtain ⟨q,hq,hleads⟩ := hs.nodePath hi
  cases Except.ok.inj (hq.symm.trans (bundle_eq_ok h).2.1)
  exact hleads

/-- Exactly the bundles that no protected path leads into are found. -/
theorem closureSafe_returns (digest : List ℤ → String) (hs : a.radix.Linked) (hu : a.radix.Unsigned)
    (paths : List (List ℤ)) :
    ∃ candidates, a.closureSafe digest paths = .ok candidates ∧ (∀ b ∈ candidates, Offer a.radix paths b) ∧
      ∀ r ∈ a.radix.nodesById, a.radix.Evictable r → a.radix.Clear paths r → ∃ b ∈ candidates, b.nodeId = r := by
  obtain ⟨bundles,hbundles,hmade,hall⟩ := evictableBundles_returns digest hs hu
  have hclear {i : ℕ} (hne : i ≠ 0) {root : List ℤ} (hroot : a.radix.Leads 0 root i) :
      (¬ ∃ path ∈ paths, root <+: path) ↔ a.radix.Clear paths i := by
    unfold Clear
    simp only [hs.prefix_iff hroot hne,not_exists,not_and]
  have hfound : a.closureSafe digest paths = .ok (bundles.filter fun b => ¬ ∃ path ∈ paths, b.rootPath <+: path) := by
    unfold closureSafe
    rw [hbundles]
    rfl
  refine ⟨_,hfound,fun b hb => ?_,fun r hr hev hcl => ?_⟩
  · obtain ⟨hmem,hsafe⟩ := List.mem_filter.mp hb
    obtain ⟨hi,hev,hbundle⟩ := hmade b hmem
    have hleads := bundle_leads hs hi hbundle
    exact ⟨hi,hev,hleads,(hclear hev.1 hleads).mp (of_decide_eq_true hsafe),(bundle_eq_ok hbundle).2.2.1⟩
  · obtain ⟨b,hb,rfl⟩ := hall r hr hev
    have hleads := bundle_leads hs hr (hmade b hb).2.2
    exact ⟨b,List.mem_filter.mpr ⟨hb,decide_eq_true ((hclear hev.1 hleads).mpr hcl)⟩,rfl⟩

/-! ## What the bundles come to -/

theorem Linked.leads_below (h : s.Linked) {r : ℕ} (hr : r ∈ s.nodesById) {p : List ℤ} :
    ∀ {i j : ℕ}, i ∈ s.subtreeNodes r → s.Leads i p j → j ∈ s.subtreeNodes r := by
  obtain ⟨-,-,-,hdown,-⟩ := h.subtree hr
  induction p with
  | nil =>
    rintro i j hi rfl
    exact hi
  | cons x p ih =>
    rintro i j hi ⟨c,hc,hrest⟩
    exact ih (hdown i hi x c hc) hrest

/-- What a bundle has on the GPU. -/
def bundleNodes (s : TieredTokenRadix) (b : TieredRadixBundle) : Finset ℕ :=
  (s.having TieredTrieNode.gpu).filter (· ∈ s.subtreeNodes b.nodeId)

theorem Offer.sub {b c : TieredRadixBundle} (hb : Offer s paths b) (hc : Offer s paths c) (hs : s.Linked)
    (hlead : c.rootPath <+: b.rootPath) : bundleNodes s b ⊆ bundleNodes s c := by
  obtain ⟨rest,hrest⟩ := hlead
  have hleads := hb.leads
  rw [← hrest] at hleads
  obtain ⟨k,hk,hdown⟩ := leads_append.mp hleads
  obtain rfl := hk.end_unique hc.leads
  have hbelow : b.nodeId ∈ s.subtreeNodes c.nodeId :=
    Linked.leads_below hs hc.known (hs.subtree hc.known).2.2.1 hdown
  intro i hi
  obtain ⟨hgpu,hi⟩ := Finset.mem_filter.mp hi
  exact Finset.mem_filter.mpr ⟨hgpu,hs.subtree_sub hs id hc.known hbelow hb.known i hi⟩

theorem Offer.apart {b c : TieredRadixBundle} (hb : Offer s paths b) (hc : Offer s paths c) (hs : s.Linked)
    (hle : c.rootPath.length ≤ b.rootPath.length) :
    c.rootPath <+: b.rootPath ∨ Disjoint (bundleNodes s c) (bundleNodes s b) := by
  by_cases hlead : c.rootPath <+: b.rootPath
  · exact .inl hlead
  · refine .inr (Finset.disjoint_left.mpr fun i hic hib => hlead ?_)
    obtain ⟨hgpu,hic⟩ := Finset.mem_filter.mp hic
    obtain ⟨-,hib⟩ := Finset.mem_filter.mp hib
    obtain ⟨q,-,hq⟩ := hs.nodePath ((hs.subtree hc.known).2.1 i hic)
    exact List.prefix_of_prefix_length_le (hs.subtree_extends hc.leads hic hq)
      (hs.subtree_extends hb.leads hib hq) hle

/-- The bytes that the check before the evictions counts. -/
theorem reclaimable_eq (hs : s.Linked) {candidates : List TieredRadixBundle}
    (hoffer : ∀ b ∈ candidates, Offer s paths b)
    (hall : ∀ r ∈ s.nodesById, s.Evictable r → s.Clear paths r → ∃ b ∈ candidates, b.nodeId = r)
    (bytesPerToken : ℕ) :
    disjointReclaimableBytes candidates bytesPerToken = (s.offeredNodes paths).card * bytesPerToken := by
  let key (b : TieredRadixBundle) : ℕ ×ₗ List ℤ := toLex (b.rootPath.length,b.rootPath)
  have hmem (b : TieredRadixBundle) : b ∈ (candidates.mergeSort fun a b => key a ≤ key b) ↔ b ∈ candidates :=
    List.mem_mergeSort
  have hsorted : (candidates.mergeSort fun a b => key a ≤ key b).Pairwise fun a b => decide (key a ≤ key b) = true :=
    List.pairwise_mergeSort
      (fun a b c hab hbc => decide_eq_true ((of_decide_eq_true hab).trans (of_decide_eq_true hbc)))
    (fun a b => by simpa using le_total (key a) (key b)) candidates
  have htaken : Cover.Taken TieredRadixBundle.rootPath (bundleNodes s)
      (candidates.mergeSort fun a b => key a ≤ key b)
      ((candidates.mergeSort fun a b => key a ≤ key b).foldl
        (Cover.take (· <+: ·) TieredRadixBundle.rootPath TieredRadixBundle.gpuTokens) ([],0)) :=
    Cover.foldl_take (fun b hb => by
      obtain hb := hoffer b ((hmem b).mp hb)
      rw [hb.gpu,hs.subtreeCount_eq hb.known]
      rfl)
    (fun b hb c hc => (hoffer b ((hmem b).mp hb)).sub (hoffer c ((hmem c).mp hc)) hs)
    (hsorted.imp_of_mem fun {c b} hc hb hle => by
      refine (hoffer b ((hmem b).mp hb)).apart (hoffer c ((hmem c).mp hc)) hs ?_
      obtain hlt | ⟨heq,-⟩ := Prod.Lex.toLex_le_toLex.mp (of_decide_eq_true hle)
      · exact hlt.le
      · exact heq.le)
  have htotal := htaken.eq_card (U := s.offeredNodes paths) fun i => by
    simp only [hmem]
    constructor
    · intro hi
      obtain ⟨hgpu,r,hr,hev,hclear,hsub⟩ := Finset.mem_filter.mp hi
      obtain ⟨b,hb,rfl⟩ := hall r hr hev hclear
      exact ⟨b,hb,Finset.mem_filter.mpr ⟨hgpu,hsub⟩⟩
    · rintro ⟨b,hb,hi⟩
      obtain ⟨hgpu,hsub⟩ := Finset.mem_filter.mp hi
      obtain hb := hoffer b hb
      exact Finset.mem_filter.mpr ⟨hgpu,b.nodeId,hb.known,hb.evictable,hb.clear,hsub⟩
  unfold disjointReclaimableBytes
  rw [← htotal]
  rfl

/-! ## One eviction -/

theorem foldlM_returns {A B E : Type} {f : B → A → Except E B} {l : List A} (h : ∀ x ∈ l, ∀ b, ∃ c, f b x = .ok c) :
    ∀ b, ∃ c, l.foldlM f b = .ok c := by
  induction l with
  | nil => exact fun b => ⟨b,rfl⟩
  | cons x l ih =>
    intro b
    obtain ⟨c,hc⟩ := h x List.mem_cons_self b
    rw [List.foldlM_cons,hc]
    exact ih (fun y hy => h y (List.mem_cons_of_mem x hy)) c

theorem chooseBundle_returns (config : RollingConfig) (a : RollingRadixAllocator)
    {candidates : List TieredRadixBundle} (hne : candidates ≠ []) (futureUses : List FutureRadixUse) :
    ∃ chosen, a.chooseBundle config candidates futureUses = .ok (some chosen) ∧ chosen.1 ∈ candidates := by
  obtain ⟨first,rest,rfl⟩ := List.exists_cons_of_ne_nil hne
  have hsome : ∃ chosen, a.chooseBundle config (first :: rest) futureUses = .ok (some chosen) := by
    unfold chooseBundle
    cases config.mode with
    | reactiveLru => exact ⟨_,rfl⟩
    | hindsightNextUse =>
      obtain ⟨nextUse,hnext⟩ : ∃ nextUse,
          a.radix.futureUseIndices (futureUses.map (·.promptTokenSymbols)) = .ok nextUse := by
        refine foldlM_returns (fun entry hentry d => ?_) ∅
        obtain ⟨use,-,huse⟩ := List.mem_map.mp (List.fst_mem_of_mem_zipIdx hentry)
        rw [← huse,validatePath_unsigned.mpr use.unsigned]
        exact ⟨_,rfl⟩
      simp only [hnext]
      exact ⟨_,rfl⟩
  obtain ⟨chosen,hchosen⟩ := hsome
  exact ⟨chosen,hchosen,chooseBundle_mem hchosen⟩

/-- What every allocator has between calls whose paths were validated. -/
structure Tidy (a : RollingRadixAllocator) : Prop where
  sound : a.radix.Sound
  unsigned : a.radix.Unsigned

theorem appendEvent_returns (config : RollingConfig) (ha : a.radix.Sound) (hb : b.radix.Sound) {startMs endMs : ℚ}
    (htime : startMs ≤ endMs)
    (kind : PhysicalKind) (reason : String) (requestId bundleId : Option String) (mutation : TieredRadixMutation)
    {transfer : ℤ} (htransfer : 0 ≤ transfer) :
    ∃ c, b.appendEvent config startMs endMs kind reason requestId bundleId mutation transfer
      (a.hbmOccupiedBytes config) (a.hostOccupiedBytes config) = (c,.ok ()) ∧ c.radix = b.radix := by
  obtain ⟨hbefore,hbefore'⟩ := occupied_nonneg config ha
  obtain ⟨hafter,hafter'⟩ := occupied_nonneg config hb
  unfold appendEvent
  rw [dif_pos htime,dif_pos ⟨htransfer,hbefore,hafter,hbefore',hafter'⟩]
  exact ⟨_,rfl,rfl⟩

/-- A round of the evictions takes one bundle. -/
theorem evict_returns (config : RollingConfig) (ha : Tidy a) {bundle : TieredRadixBundle}
    (hoffer : Offer a.radix paths bundle) (nextUse : Option ℕ) (cursor : ℚ) (requestId reason : String) :
    ∃ b endMs, a.evict config bundle nextUse cursor requestId reason = (b,.ok endMs) ∧ Tidy b ∧
      Shed a.radix b.radix bundle.nodeId := by
  have hne := hoffer.evictable.1
  have hlocks := hoffer.evictable.2.2.1
  have hshed {t : TieredTokenRadix}
      (h : ∃ r ∈ a.radix.nodesById, r ≠ 0 ∧ a.radix.Leads 0 bundle.rootPath r ∧ Shed a.radix t r) :
      Shed a.radix t bundle.nodeId := by
    obtain ⟨r,-,-,hleads,hshed⟩ := h
    rwa [hleads.end_unique hoffer.leads] at hshed
  unfold evict
  simp only
  by_cases hpreserve : (config.mode = .reactiveLru ∨ nextUse.isSome) ∧
      a.hostOccupiedBytes config + bundle.missingCpuTokens * config.bytesPerToken ≤ config.hostCapacityBytes
  · rw [if_pos hpreserve]
    obtain ⟨t,m,hcall⟩ := commitCpu_returns ha.sound ha.unsigned hoffer.leads hoffer.known hne hlocks
    have hfine := commitCpu_fine ha.sound bundle.rootPath
    have hgone := hshed (commitCpu_shed ha.sound hcall)
    rw [hcall] at hfine ⊢
    have hmore : 0 ≤ (m.transferTokens : ℤ) * config.bytesPerToken := by positivity
    obtain ⟨c,hevent,hradix⟩ := appendEvent_returns config (a := a) (b := { a with
        radix := t
        d2hBytes := a.d2hBytes + m.transferTokens * config.bytesPerToken
        pcieBusyMs := a.pcieBusyMs + (cursor + transferMs config (m.transferTokens * config.bytesPerToken)
          config.d2hBytesPerMs - cursor) }) ha.sound hfine.sound
      (le_add_of_nonneg_right (transferMs_nonneg config (m.transferTokens * config.bytesPerToken) config.d2h_pos))
      .d2hCommit reason (some requestId) (some bundle.bundleId) m hmore
    refine ⟨c,cursor + transferMs config (m.transferTokens * config.bytesPerToken) config.d2hBytesPerMs,?_,?_,?_⟩
    · change andThen (appendEvent config _ _ _ _ _ _ _ _ _ _ _) _ = _
      rw [hevent,andThen_ok]
    · exact ⟨hradix ▸ hfine.sound,hradix ▸ ha.unsigned.mono hgone.child⟩
    · rw [hradix]
      exact hgone
  · rw [if_neg hpreserve]
    obtain ⟨t,m,hcall⟩ := dropSubtree_returns ha.sound ha.unsigned hoffer.leads hoffer.known hne hlocks
    have hfine := dropSubtree_fine ha.sound bundle.rootPath
    have hgone := hshed (dropSubtree_shed ha.sound hcall)
    rw [hcall] at hfine ⊢
    obtain ⟨c,hevent,hradix⟩ := appendEvent_returns config (a := a) (b := { a with radix := t }) ha.sound
      hfine.sound (le_refl cursor) .drop reason (some requestId) (some bundle.bundleId) m (le_refl 0)
    refine ⟨c,cursor,?_,?_,?_⟩
    · change andThen (appendEvent config _ _ _ _ _ _ _ _ _ _ _) _ = _
      rw [hevent,andThen_ok]
    · exact ⟨hradix ▸ hfine.sound,hradix ▸ ha.unsigned.mono hgone.child⟩
    · rw [hradix]
      exact hgone

/-! ## All of them -/

/-- The bytes that could be taken from the GPU. -/
def freeBytes (config : RollingConfig) (a : RollingRadixAllocator) (paths : List (List ℤ)) : ℤ :=
  (a.radix.freeNodes paths).card * config.bytesPerToken

/-- The bytes that the bundles have on the GPU. -/
def offeredBytes (config : RollingConfig) (a : RollingRadixAllocator) (paths : List (List ℤ)) : ℤ :=
  (a.radix.offeredNodes paths).card * config.bytesPerToken

theorem offeredBytes_le (config : RollingConfig) (paths : List (List ℤ)) (ha : Tidy a) :
    offeredBytes config a paths ≤ freeBytes config a paths := by
  have hcard := Finset.card_le_card (ha.sound.linked.offered_free paths)
  exact mul_le_mul_of_nonneg_right (by exact_mod_cast hcard) (Int.natCast_nonneg _)

/-- An eviction makes room for the tokens of its bundle, and takes no more from what is free. -/
theorem shed_room (ha : Tidy a) (hb : Tidy b) {r : ℕ} (hr : r ∈ a.radix.nodesById) (hclear : a.radix.Clear paths r)
    (h : Shed a.radix b.radix r) :
    a.hbmAvailableBytes config + freeBytes config a paths ≤
      b.hbmAvailableBytes config + freeBytes config b paths := by
  have htokens := h.tokens ha.sound hb.sound hr
  have hcard := h.card_free ha.sound.linked hb.sound.linked hr hclear
  have hmul : ((a.radix.freeNodes paths).card : ℤ) * config.bytesPerToken ≤
      ((b.radix.freeNodes paths).card + a.radix.subtreeCount TieredTrieNode.gpu r : ℤ) * config.bytesPerToken :=
    mul_le_mul_of_nonneg_right (by exact_mod_cast hcard) (Int.natCast_nonneg _)
  unfold hbmAvailableBytes hbmOccupiedBytes freeBytes
  rw [htokens]
  rw [add_mul] at hmul ⊢
  omega

/-- The loop ends with the room that it was asked for, if that can be made. -/
theorem evictUntil_returns {requiredBytes : ℤ} {requestId : String} {futureUses : List FutureRadixUse}
    {reason : String} (fuel : ℕ) : ∀ {a : RollingRadixAllocator} (cursor : ℚ), Tidy a → a.radix.gpuTokens ≤ fuel →
      requiredBytes ≤ a.hbmAvailableBytes config + freeBytes config a paths →
      ∃ b endMs,
        evictUntil digest config requiredBytes requestId paths futureUses reason fuel a cursor = (b,.ok endMs) ∧
        requiredBytes ≤ b.hbmAvailableBytes config ∧ Sheltered a.radix b.radix paths := by
  induction fuel with
  | zero =>
    intro a cursor ha hfuel hroom
    -- nothing is on the GPU, so nothing is free
    have hcard : (a.radix.freeNodes paths).card ≤ (a.radix.having TieredTrieNode.gpu).card :=
      Finset.card_le_card (Finset.filter_subset _ _)
    have hgpu := ha.sound.counted.gpu
    have hnone : (a.radix.freeNodes paths).card = 0 := by
      push_cast at hfuel
      omega
    unfold freeBytes at hroom
    rw [hnone,Nat.cast_zero,zero_mul,add_zero] at hroom
    rw [evictUntil,if_pos hroom]
    exact ⟨a,cursor,rfl,hroom,.refl _ _⟩
  | succ fuel ih =>
    intro a cursor ha hfuel hroom
    rw [evictUntil]
    by_cases hdone : requiredBytes ≤ a.hbmAvailableBytes config
    · rw [if_pos hdone]
      exact ⟨a,cursor,rfl,hdone,.refl _ _⟩
    rw [if_neg hdone]
    have hfree : (a.radix.freeNodes paths).Nonempty := by
      by_contra hempty
      unfold freeBytes at hroom
      rw [Finset.not_nonempty_iff_eq_empty.mp hempty,Finset.card_empty,Nat.cast_zero,zero_mul,add_zero] at hroom
      exact hdone hroom
    obtain ⟨r,hr,hev,hclear⟩ := ha.sound.linked.offers hfree
    obtain ⟨candidates,hcandidates,hoffer,hall⟩ := closureSafe_returns digest ha.sound.linked ha.unsigned paths
    obtain ⟨first,hfirst,-⟩ := hall r hr hev hclear
    obtain ⟨chosen,hchosen,hmem⟩ := chooseBundle_returns config a (List.ne_nil_of_mem hfirst) futureUses
    obtain hbundle := hoffer chosen.1 hmem
    obtain ⟨b,endMs,hevict,hb,hshed⟩ := evict_returns config ha hbundle chosen.2 cursor requestId reason
    have htokens := hshed.tokens ha.sound hb.sound hbundle.known
    have hsome := hbundle.evictable.2.1
    have hless : b.radix.gpuTokens ≤ fuel := by
      push_cast at hfuel
      omega
    obtain ⟨c,finalMs,hloop,henough,hsheltered⟩ := ih endMs hb hless
      (hroom.trans (shed_room ha hb hbundle.known hbundle.clear hshed))
    have hsafe := hshed.sheltered ha.sound.linked hbundle.known hbundle.evictable.1 hbundle.clear
    refine ⟨c,finalMs,?_,henough,hsafe.trans hsheltered⟩
    rw [hcandidates,andThen_ok,hchosen,andThen_ok]
    simp only
    rw [hevict,andThen_ok]
    exact hloop

/-- What the evictions come to: nothing at all, when the bundles found at first do not come to enough, and
all of the room otherwise. -/
theorem ensureCapacity_spec (digest : List ℤ → String) (config : RollingConfig) (paths : List (List ℤ)) (ha : Tidy a)
    (requiredBytes : ℕ) (nowMs : ℚ) (requestId : String)
    (futureUses : List FutureRadixUse) (reason : String) :
    (a.hbmAvailableBytes config + offeredBytes config a paths < requiredBytes →
      a.ensureCapacity digest config requiredBytes nowMs requestId paths futureUses reason =
        (a,.error (a.noBundle config requiredBytes requestId))) ∧
    (requiredBytes ≤ a.hbmAvailableBytes config + offeredBytes config a paths →
      ∃ b endMs,
        a.ensureCapacity digest config requiredBytes nowMs requestId paths futureUses reason = (b,.ok endMs) ∧
        requiredBytes ≤ b.hbmAvailableBytes config ∧ Sheltered a.radix b.radix paths) := by
  obtain ⟨candidates,hcandidates,hoffer,hall⟩ := closureSafe_returns digest ha.sound.linked ha.unsigned paths
  have hreclaimable : disjointReclaimableBytes candidates config.bytesPerToken = offeredBytes config a paths :=
    reclaimable_eq ha.sound.linked hoffer hall config.bytesPerToken
  have hnonneg : 0 ≤ offeredBytes config a paths := by
    unfold offeredBytes
    positivity
  have hbytes : ¬ (requiredBytes : ℤ) < 0 := not_lt.mpr (Int.natCast_nonneg _)
  unfold ensureCapacity
  rw [if_neg hbytes,hcandidates,andThen_ok,hreclaimable]
  constructor
  · intro hshort
    rw [if_neg (by omega),if_pos hshort]
  · intro henough
    by_cases hroom : (requiredBytes : ℤ) ≤ a.hbmAvailableBytes config
    · rw [if_pos hroom]
      exact ⟨a,nowMs,rfl,hroom,.refl _ _⟩
    · rw [if_neg hroom,if_neg (not_lt.mpr henough)]
      refine evictUntil_returns a.radix.gpuTokens.toNat nowMs ha (Int.self_le_toNat _) (henough.trans ?_)
      exact add_le_add_right (offeredBytes_le config paths ha) _

end BeliefKV.RollingRadixAllocator
