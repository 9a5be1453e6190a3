import BeliefKV.Rolling.Shortfall
import BeliefKV.Radix.Residents

/-! The bundles that can be evicted: each can be committed, together they cover whatever no lock holds back, and
they can be committed in any order. -/
namespace BeliefKV.TieredTokenRadix
open Call RollingRadixAllocator
variable {s t u : TieredTokenRadix} {i j r : ℕ} {root : List ℤ} {digest : List ℤ → String}

/-! ## Symbols -/

/-- A path is said to be validated only when it is one of symbols. -/
def Op.Honest : Op → Prop
  | .extendRequestGpu _ path validated => validated = true → validatePath path = .ok path
  | _ => True

theorem materializeGpu_unsigned (hu : s.Unsigned) (path : List ℤ) (contextId : Option String) (touch : Bool) :
    (s.materializeGpu path contextId touch).1.Unsigned := by
  unfold materializeGpu
  cases hpath : validatePath path with
  | error e => exact hu
  | ok normalized =>
    obtain rfl := validatePath_eq_ok hpath
    rw [andThen_ok]
    have hgrow := growPath_unsigned none "GPU materialization requires a GPU-resident ancestor" normalized 0 {} hu
      (validatePath_unsigned.mp hpath)
    refine andThen_cases (P := Unsigned) hgrow fun growth => ?_
    have hend {u : TieredTokenRadix} (hu : u.Unsigned) (m : TieredRadixMutation) :
        ((if touch then u.touchNodes growth.visited else u).checked m).1.Unsigned := by
      split_ifs
      · exact Unsigned.checked (hu.touchNodes _) m
      · exact Unsigned.checked hu m
    cases contextId with
    | none => exact hend hgrow _
    | some contextId =>
      have hbind := bindContext_unsigned hgrow contextId normalized
      exact andThen_cases (P := Unsigned) hbind fun _ => hend hbind _

theorem extendLockPrefix_unsigned (hu : s.Unsigned) (requestId : String) (path : List ℤ) (tokenCount : ℤ) :
    (s.extendLockPrefix requestId path tokenCount).1.Unsigned := by
  unfold extendLockPrefix
  cases s.requestLocks[requestId]? with
  | none => exact hu
  | some oldIds =>
    refine andThen_cases (P := Unsigned) hu fun normalized => ?_
    simp only
    split_ifs
    · exact hu
    · exact hu
    · exact hu
    · exact Unsigned.checked (hu.of_children fun j => children_ite (by rfl)) ()

theorem extendRequestGpu_honest (hu : s.Unsigned) (requestId : String) {path : List ℤ} {validated : Bool}
    (hpath : validated = true → validatePath path = .ok path) :
    (s.extendRequestGpu requestId path validated).1.Unsigned := by
  obtain hvalid | hno := em (validatePath path = .ok path)
  · have hsame : s.extendRequestGpu requestId path validated = s.extendRequestGpu requestId path true := by
      unfold extendRequestGpu
      rw [hvalid]
      simp only [ite_self]
    rw [hsame]
    exact extendRequestGpu_unsigned hu requestId (validatePath_unsigned.mp hvalid)
  · unfold extendRequestGpu
    rw [if_neg (mt hpath hno)]
    cases hpath : validatePath path with
    | error e => exact hu
    | ok normalized => exact absurd (validatePath_eq_ok hpath ▸ hpath) hno

theorem call_unsigned (hu : s.Unsigned) {op : Op} (hop : op.Honest) : (s.call op).1.Unsigned := by
  cases op with
  | materializeGpu path contextId touch =>
    have hcall := materializeGpu_unsigned hu path contextId touch
    exact andThen_cases (P := Unsigned) hcall fun _ => hcall
  | bindContext contextId path => exact bindContext_unsigned hu contextId path
  | lockPrefix requestId path tokenCount => exact lockPrefix_unsigned hu requestId path tokenCount
  | extendLockPrefix requestId path tokenCount => exact extendLockPrefix_unsigned hu requestId path tokenCount
  | extendRequestGpu requestId path validated =>
    have hcall := extendRequestGpu_honest hu requestId hop
    exact andThen_cases (P := Unsigned) hcall fun _ => hcall
  | unlockRequest requestId => exact unlockRequest_unsigned hu requestId
  | restorePrefix prompt tokenCount =>
    have hcall := restorePrefix_unsigned hu prompt tokenCount
    exact andThen_cases (P := Unsigned) hcall fun _ => hcall
  | prepareHost rootPath =>
    have hcall := prepareHost_unsigned hu rootPath
    exact andThen_cases (P := Unsigned) hcall fun _ => hcall
  | commitCpu rootPath =>
    have hcall := commitCpu_unsigned hu rootPath
    exact andThen_cases (P := Unsigned) hcall fun _ => hcall
  | dropSubtree rootPath =>
    have hcall := dropSubtree_unsigned hu rootPath
    exact andThen_cases (P := Unsigned) hcall fun _ => hcall

theorem Reached.unsigned (h : Reached Op.Honest s) : s.Unsigned := by
  induction h with
  | new validate =>
    intro i x c hc
    have hnone : (∅ : Dict ℤ ℕ)[x]? = some c := hc
    rw [Std.ExtTreeMap.getElem?_empty] at hnone
    cases hnone
  | call op hop _ ih => exact call_unsigned ih hop
  | matched prompt touch _ ih => exact matchPrompt_unsigned ih prompt touch

/-! ## One commit -/

theorem SameLinks.subtreeNodes (h : SameLinks s t) (r : ℕ) : t.subtreeNodes r = s.subtreeNodes r := by
  have hchildren : t.childNodes = s.childNodes := by
    funext i
    unfold childNodes
    rw [h.children]
  unfold TieredTokenRadix.subtreeNodes
  rw [hchildren,h.next]

theorem Moves.locksOf (h : Moves s t) (nodes : List ℕ) : t.locksOf nodes = s.locksOf nodes := by
  unfold TieredTokenRadix.locksOf
  simp only [h.locks]

/-- What a commit of an unlocked subtree does. -/
structure Committed (s t : TieredTokenRadix) (r : ℕ) : Prop where
  whole : t.Whole
  moves : Moves s t
  gpu : t.having TieredTrieNode.gpu = s.having TieredTrieNode.gpu \ (s.subtreeNodes r).toFinset

theorem commitCpu_committed (hs : s.Whole) (hu : s.Unsigned) (hroot : s.Leads 0 root r) (hr : r ∈ s.nodesById)
    (hne : r ≠ 0) (hlocks : s.locksOf (s.subtreeNodes r) = ∅) :
    ∃ t m, s.commitCpu root = (t,.ok m) ∧ Committed s t r ∧
      m.gpuDeltaTokens = -(s.subtreeCount TieredTrieNode.gpu r : ℤ) ∧
      m.transferTokens = s.subtreeCount (fun n => n.gpu && !n.cpu) r := by
  obtain ⟨hnodup,-,-,hdown,-⟩ := hs.linked.subtree hr
  have hpos := hs.linked.subtree_pos hr hne
  obtain ⟨hmoves,-,hgpu⟩ := foldl_commitNode hpos
  obtain ⟨htokens,-,-,htransfer⟩ := commitNodes_tokens _ s (0,0) hnodup
  have hquiet := hush_foldl (f := commitNode) (fun s acc i => hush_commitNode acc i) (s.subtreeNodes r) s (0,0)
  have hwhole : ((s.subtreeNodes r).foldl commitNode (s,0,0)).1.Whole := by
    have hsound : ((s.subtreeNodes r).foldl commitNode (s.quietly,0,0)).1.Sound :=
      hs.sound.commit hpos hdown (locksOf_eq_empty hlocks)
    rw [hquiet] at hsound
    exact ⟨hsound⟩
  unfold commitCpu
  rw [requireSubtreeRoot_leads hu hroot hne,andThen_ok]
  simp only
  rw [if_neg (not_not.mpr hlocks),hwhole.checked]
  refine ⟨_,_,rfl,⟨hwhole,hmoves,hgpu⟩,?_,?_⟩
  · have hcard := hs.linked.card_sdiff_subtree hr
    have hafter := hwhole.counted.gpu
    have hbefore := hs.counted.gpu
    rw [hgpu] at hafter
    simp only at htokens ⊢
    push_cast at htokens
    omega
  · simp only at htransfer ⊢
    rw [htransfer,Nat.zero_add]
    apply List.countP_congr
    intro j hj
    have hjne := (Finset.mem_erase.mp (hpos j hj)).1
    simp [uncopied,hjne]

/-! ## The bundles -/

/-- What no lock holds back is below an evictable node: the highest one above it that no lock holds back. -/
theorem Whole.evictable_above (hs : s.Whole) : ∀ i ∈ s.nodesById, i ≠ 0 → (s.heap i).gpu = true →
    s.locksOf (s.subtreeNodes i) = ∅ → ∃ r ∈ s.nodesById, s.Evictable r ∧ i ∈ s.subtreeNodes r := by
  have hl := hs.linked
  intro i
  induction i using Nat.strong_induction_on with
  | _ i ih =>
    intro hi hne hgpu hlocks
    obtain rfl | ⟨p,hp,x,hx⟩ := hl.parent i hi
    · exact absurd rfl hne
    obtain ⟨-,hparent,-,hlt⟩ := hl.child p hp x i hx
    have hroot := (hl.subtree hi).2.2.1
    have hsome : s.subtreeCount TieredTrieNode.gpu i ≠ 0 := by
      rw [hl.subtreeCount_eq hi]
      refine Finset.card_ne_zero_of_mem (a := i) (Finset.mem_filter.mpr ⟨?_,hroot⟩)
      exact mem_having.mpr ⟨Finset.mem_erase.mpr ⟨hne,hi⟩,hgpu⟩
    by_cases htop : p = 0
    · refine ⟨i,hi,⟨hne,hsome,hlocks,.inl ?_⟩,hroot⟩
      rw [hparent]
      exact .inl htop
    by_cases hblocked : s.locksOf (s.subtreeNodes p) = ∅
    · obtain ⟨r,hr,hev,hsub⟩ := ih p hlt hp htop (hs.tiered.closed p hp x i hx hgpu) hblocked
      exact ⟨r,hr,hev,(hl.subtree hr).2.2.2.1 p hsub x i hx⟩
    · refine ⟨i,hi,⟨hne,hsome,hlocks,.inr (.inl ?_)⟩,hroot⟩
      rw [hparent]
      exact hblocked

/-! ## All of them -/

/-- The commits at some roots, one after the other, but for those with nothing left on the GPU. -/
def commitRoots : TieredTokenRadix → List (List ℤ) → TieredTokenRadix × Except RadixRaised Unit
  | s, [] => (s,.ok ())
  | s, root :: roots =>
    andThen (s,s.requireSubtreeRoot root) fun s found =>
    if s.subtreeCount TieredTrieNode.gpu found.1 = 0 then commitRoots s roots
    else andThen (s.commitCpu root) fun s _ => commitRoots s roots

/-- A path leads to a subtree that no lock holds back. -/
structure Loose (s : TieredTokenRadix) (root : List ℤ) (r : ℕ) : Prop where
  known : r ∈ s.nodesById
  below : r ≠ 0
  leads : s.Leads 0 root r
  unlocked : s.locksOf (s.subtreeNodes r) = ∅

theorem Loose.moved (h : Loose s root r) (hmoves : Moves s t) : Loose t root r := by
  refine ⟨?_,h.below,(leads_congr hmoves.children root 0 r).mpr h.leads,?_⟩
  · rw [hmoves.index]
    exact h.known
  · rw [hmoves.subtreeNodes,hmoves.locksOf]
    exact h.unlocked

/-- Whatever the order, what is below the roots leaves the GPU and the rest stays. -/
theorem commitRoots_ok (roots : List (List ℤ)) : ∀ {s : TieredTokenRadix}, s.Whole → s.Unsigned →
    (∀ root ∈ roots, ∃ r, Loose s root r) →
      ∃ t, s.commitRoots roots = (t,.ok ()) ∧ Moves s t ∧ ∀ i, i ∈ t.having TieredTrieNode.gpu ↔
        i ∈ s.having TieredTrieNode.gpu ∧ ∀ root ∈ roots, ∀ r, s.Leads 0 root r → i ∉ s.subtreeNodes r := by
  induction roots with
  | nil => exact fun {s} _ _ _ => ⟨s,rfl,Moves.refl s,fun i => by simp⟩
  | cons root roots ih =>
    intro s hs hu hloose
    obtain ⟨r,hr⟩ := hloose root List.mem_cons_self
    have hrest (root' : List ℤ) (hroot' : root' ∈ roots) := hloose root' (List.mem_cons_of_mem root hroot')
    have hhere (i : ℕ) : (∀ r', s.Leads 0 root r' → i ∉ s.subtreeNodes r') ↔ i ∉ s.subtreeNodes r := by
      refine ⟨fun h => h r hr.leads,fun h r' hr' => ?_⟩
      rwa [← hr.leads.end_unique hr']
    rw [commitRoots,requireSubtreeRoot_leads hu hr.leads hr.below,andThen_ok]
    simp only [List.forall_mem_cons,hhere]
    by_cases hnone : s.subtreeCount TieredTrieNode.gpu r = 0
    · rw [if_pos hnone]
      obtain ⟨t,hcall,hmoves,hgpu⟩ := ih hs hu hrest
      refine ⟨t,hcall,hmoves,fun i => (hgpu i).trans (and_congr_right fun hi => (and_iff_right ?_).symm)⟩
      intro hsub
      rw [hs.linked.subtreeCount_eq hr.known] at hnone
      exact Finset.notMem_empty i (Finset.card_eq_zero.mp hnone ▸ Finset.mem_filter.mpr ⟨hi,hsub⟩)
    · rw [if_neg hnone]
      obtain ⟨u,m,hcommit,hdone,-,-⟩ := commitCpu_committed hs hu hr.leads hr.known hr.below hr.unlocked
      have hlinks := hdone.moves.toSameLinks
      obtain ⟨t,hcall,hmoves,hgpu⟩ := ih hdone.whole (hlinks.unsigned hu) fun root' hroot' => by
        obtain ⟨r',hr'⟩ := hrest root' hroot'
        exact ⟨r',hr'.moved hdone.moves⟩
      refine ⟨t,?_,hdone.moves.trans hmoves,fun i => ?_⟩
      · rw [hcommit,andThen_ok]
        exact hcall
      · rw [hgpu,hdone.gpu,Finset.mem_sdiff,List.mem_toFinset,and_assoc]
        simp only [leads_congr hlinks.children,hlinks.subtreeNodes]

/-- The GPU has what is above a node that it has. -/
theorem Whole.gpu_above (hs : s.Whole) (hr : r ∈ s.nodesById) : ∀ j ∈ s.subtreeNodes r, (s.heap j).gpu = true →
    (s.heap r).gpu = true := by
  obtain ⟨-,hmem,-,-,horigin⟩ := hs.linked.subtree hr
  intro j
  induction j using Nat.strong_induction_on with
  | _ j ih =>
    intro hj hgpu
    obtain rfl | ⟨i,hi,x,hx⟩ := horigin j hj
    · exact hgpu
    · have hlt := (hs.linked.child i (hmem i hi) x j hx).2.2.2
      exact ih i hlt hi (hs.tiered.closed i (hmem i hi) x j hx hgpu)

/-- The nodes that are locked or have a locked one below them. -/
def heldNodes (s : TieredTokenRadix) : Finset ℕ :=
  (s.nodesById.erase 0).filter fun i => s.locksOf (s.subtreeNodes i) ≠ ∅

theorem Whole.heldNodes_gpu (hs : s.Whole) : s.heldNodes ⊆ s.having TieredTrieNode.gpu := by
  intro i hi
  obtain ⟨hpos,hlocks⟩ := Finset.mem_filter.mp hi
  obtain ⟨hne,hmem⟩ := Finset.mem_erase.mp hpos
  obtain ⟨request,hrequest⟩ := Finset.nonempty_iff_ne_empty.mpr hlocks
  obtain ⟨j,hj,hlock⟩ := Finset.mem_biUnion.mp hrequest
  have hj := List.mem_toFinset.mp hj
  have hjpos := hs.linked.subtree_pos hmem hne j hj
  obtain ⟨hjne,hjmem⟩ := Finset.mem_erase.mp hjpos
  have hgpu := hs.tiered.locked j hjmem hjne (Finset.ne_empty_of_mem hlock)
  exact mem_having.mpr ⟨hpos,hs.gpu_above hmem j hj hgpu⟩

/-- Of every radix that can be had: each of its bundles can be committed at once and takes what it says; what no
lock holds back is below the root of some bundle; and the bundles can be committed in any order, after which the GPU
has what is locked and what is above it. -/
theorem evictable_bundles_sufficient (digest : List ℤ → String) (h : Reached Op.Honest s) :
    ∃ bundles, s.evictableBundles digest = .ok bundles ∧
      (∀ b ∈ bundles, ∃ t m, s.commitCpu b.rootPath = (t,.ok m) ∧ m.gpuDeltaTokens = -(b.gpuTokens : ℤ) ∧
        m.transferTokens = b.missingCpuTokens) ∧
      (∀ i ∈ s.nodesById, i ≠ 0 → (s.heap i).gpu = true → s.locksOf (s.subtreeNodes i) = ∅ →
        ∃ b ∈ bundles, s.Leads 0 b.rootPath b.nodeId ∧ i ∈ s.subtreeNodes b.nodeId) ∧
      ∀ roots, roots.Perm (bundles.map TieredRadixBundle.rootPath) →
        ∃ t, s.commitRoots roots = (t,.ok ()) ∧ Moves s t ∧ t.having TieredTrieNode.gpu = s.heldNodes := by
  have hs := h.whole
  have hu := h.unsigned
  obtain ⟨bundles,hbundles,hmade,hall⟩ := evictableBundles_returns digest hs.linked hu
  have hleads (b : TieredRadixBundle) (hb : b ∈ bundles) : s.Leads 0 b.rootPath b.nodeId :=
    bundle_leads hs.linked (hmade b hb).1 (hmade b hb).2.2
  refine ⟨bundles,hbundles,fun b hb => ?_,fun i hi hne hgpu hlocks => ?_,fun roots hperm => ?_⟩
  · obtain ⟨hmem,hev,hbundle⟩ := hmade b hb
    obtain ⟨-,-,hgpu,hmissing⟩ := bundle_eq_ok hbundle
    obtain ⟨t,m,hcall,-,hdelta,htransfer⟩ := commitCpu_committed hs hu (hleads b hb) hmem hev.1 hev.2.2.1
    exact ⟨t,m,hcall,by rw [hdelta,hgpu],by rw [htransfer,hmissing]⟩
  · obtain ⟨r,hr,hev,hsub⟩ := hs.evictable_above i hi hne hgpu hlocks
    obtain ⟨b,hb,rfl⟩ := hall r hr hev
    exact ⟨b,hb,hleads b hb,hsub⟩
  · have hmem (root : List ℤ) : root ∈ roots ↔ ∃ b ∈ bundles, b.rootPath = root := by
      rw [hperm.mem_iff,List.mem_map]
    obtain ⟨t,hcall,hmoves,hgpu⟩ := commitRoots_ok roots hs hu fun root hroot => by
      obtain ⟨b,hb,rfl⟩ := (hmem root).mp hroot
      obtain ⟨hknown,hev,-⟩ := hmade b hb
      exact ⟨b.nodeId,hknown,hev.1,hleads b hb,hev.2.2.1⟩
    refine ⟨t,hcall,hmoves,?_⟩
    ext i
    rw [hgpu i]
    constructor
    · rintro ⟨hi,hout⟩
      obtain ⟨hpos,hon⟩ := mem_having.mp hi
      obtain ⟨hne,hknown⟩ := Finset.mem_erase.mp hpos
      refine Finset.mem_filter.mpr ⟨hpos,fun hlocks => ?_⟩
      obtain ⟨r,hr,hev,hsub⟩ := hs.evictable_above i hknown hne hon hlocks
      obtain ⟨b,hb,rfl⟩ := hall r hr hev
      exact hout b.rootPath ((hmem _).mpr ⟨b,hb,rfl⟩) b.nodeId (hleads b hb) hsub
    · intro hi
      refine ⟨hs.heldNodes_gpu hi,fun root hroot r hr hsub => ?_⟩
      obtain ⟨b,hb,rfl⟩ := (hmem root).mp hroot
      obtain ⟨hknown,hev,-⟩ := hmade b hb
      rw [← (hleads b hb).end_unique hr] at hsub
      exact (Finset.mem_filter.mp hi).2 (hs.linked.unlocked_below hknown hev.2.2.1 i hsub)

/-- A radix with the self-check: a locked prefix with two branches, and another prompt of two tokens. -/
def branches : TieredTokenRadix := { validateEachMutation := true : TieredTokenRadix }.run
  [.materializeGpu [1,2,3] (some "c") true,.materializeGpu [1,2,4] none true,.materializeGpu [5,6] none true,
    .lockPrefix "r" [1,2,3] 2]

theorem branches_reached : Reached Op.Honest branches := by
  refine Reached.run _ (.new true) fun op hop => ?_
  simp only [List.mem_cons,List.not_mem_nil,or_false] at hop
  obtain rfl | rfl | rfl | rfl := hop <;> trivial

theorem evictable_bundles_sufficient_sample : ∃ bundles, branches.evictableBundles (fun _ => "") = .ok bundles ∧
    ∃ t, branches.commitRoots (bundles.map TieredRadixBundle.rootPath) = (t,.ok ()) ∧
      t.having TieredTrieNode.gpu = {1,2} := by
  obtain ⟨bundles,hbundles,-,-,hany⟩ := evictable_bundles_sufficient (fun _ => "") branches_reached
  obtain ⟨t,hcall,-,hgpu⟩ := hany _ (List.Perm.refl _)
  have hheld : branches.heldNodes = {1,2} := by decide +kernel
  exact ⟨bundles,hbundles,t,hcall,hgpu.trans hheld⟩

end BeliefKV.TieredTokenRadix
