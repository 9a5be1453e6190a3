import BeliefKV.Rolling.Allocator

/-! What the evictions can take from the GPU, and what one of them takes. -/
namespace BeliefKV.TieredTokenRadix
open Call
variable {s t u : TieredTokenRadix} {i j c r : ℕ} {p q root : List ℤ} {paths : List (List ℤ)}

/-! ## Subtrees and paths -/

/-- A subtree has the subtrees of its nodes, also after edges are gone. -/
theorem Linked.subtree_sub (hs : s.Linked) (ht : t.Linked)
    (hchild : ∀ {i : ℕ} {x : ℤ} {c : ℕ}, t.Child i x c → s.Child i x c)
    (hr : r ∈ s.nodesById) (hi : i ∈ s.subtreeNodes r) (hmem : i ∈ t.nodesById) :
    ∀ j ∈ t.subtreeNodes i, j ∈ s.subtreeNodes r := by
  obtain ⟨-,-,-,hdown,-⟩ := hs.subtree hr
  obtain ⟨-,hin,-,-,horigin⟩ := ht.subtree hmem
  intro j
  induction j using Nat.strong_induction_on with
  | _ j ih =>
    intro hj
    obtain rfl | ⟨k,hk,x,hx⟩ := horigin j hj
    · exact hi
    · have hlt := (ht.child k (hin k hk) x j hx).2.2.2
      exact hdown k (ih k hlt hk) x j (hchild hx)

theorem Linked.mem_all (h : s.Linked) : ∀ i ∈ s.nodesById, i ∈ s.subtreeNodes 0 := by
  obtain ⟨-,-,hroot,hdown,-⟩ := h.subtree h.root
  exact h.all_of_closed (P := fun i => i ∈ s.subtreeNodes 0) hroot fun i _ hi x c hx => hdown i hi x c hx

theorem Leads.mem_existingPath : ∀ {root p : List ℤ} {i : ℕ}, s.Leads i root r → root ≠ [] → root <+: p →
    r ∈ s.existingPath i p := by
  intro root
  induction root with
  | nil => exact fun _ hne => absurd rfl hne
  | cons x root ih =>
    rintro p i ⟨c,hc,hrest⟩ - ⟨rest,rfl⟩
    have hchild : (s.heap i).children[x]? = some c := hc
    rw [List.cons_append,TieredTokenRadix.existingPath,hchild]
    by_cases hnil : root = []
    · subst hnil
      obtain rfl : c = r := hrest
      exact List.mem_cons_self
    · exact List.mem_cons_of_mem c (ih hrest hnil (List.prefix_append root rest))

theorem Leads.ne_nil (h : s.Leads 0 root r) (hr : r ≠ 0) : root ≠ [] := by
  rintro rfl
  exact hr h.symm

theorem Linked.prefix_iff (h : s.Linked) (hroot : s.Leads 0 root r) (hr : r ≠ 0) :
    root <+: p ↔ r ∈ s.existingPath 0 p := by
  refine ⟨hroot.mem_existingPath (hroot.ne_nil hr),fun hmem => ?_⟩
  obtain ⟨q,hq,hleads⟩ := TieredTokenRadix.mem_existingPath hmem
  rw [h.leads_unique hroot hleads]
  exact hq

/-- A path to a node of a subtree leads through the root of the subtree. -/
theorem Linked.through (h : s.Linked) (hr : r ∈ s.nodesById) (hne : r ≠ 0) (hi : i ∈ s.subtreeNodes r)
    (hp : i ∈ s.existingPath 0 p) : r ∈ s.existingPath 0 p := by
  obtain ⟨root,-,hroot⟩ := h.nodePath hr
  obtain ⟨q,hq,hleads⟩ := TieredTokenRadix.mem_existingPath hp
  exact (h.prefix_iff hroot hne).mp ((h.subtree_extends hroot hi hleads).trans hq)

theorem Linked.subtreeCount_eq (h : s.Linked) (hr : r ∈ s.nodesById) (f : TieredTrieNode → Bool) :
    s.subtreeCount f r = ((s.having f).filter (· ∈ s.subtreeNodes r)).card := by
  obtain ⟨hnodup,hmem,-⟩ := h.subtree hr
  unfold subtreeCount
  rw [List.countP_eq_length_filter,← List.toFinset_card_of_nodup (hnodup.filter _)]
  congr 1
  ext j
  simp only [List.mem_toFinset,List.mem_filter,Finset.mem_filter,mem_having,Finset.mem_erase,Bool.and_eq_true,
    decide_eq_true_eq]
  constructor
  · rintro ⟨hj,hne,hf⟩
    exact ⟨⟨⟨hne,hmem j hj⟩,hf⟩,hj⟩
  · rintro ⟨⟨⟨hne,-⟩,hf⟩,hj⟩
    exact ⟨hj,hne,hf⟩

theorem Linked.card_sdiff_subtree (h : s.Linked) (hr : r ∈ s.nodesById) :
    (s.having TieredTrieNode.gpu \ (s.subtreeNodes r).toFinset).card + s.subtreeCount TieredTrieNode.gpu r =
      (s.having TieredTrieNode.gpu).card := by
  have hinter : s.having TieredTrieNode.gpu ∩ (s.subtreeNodes r).toFinset =
      (s.having TieredTrieNode.gpu).filter (· ∈ s.subtreeNodes r) := by
    ext i
    simp only [Finset.mem_inter,List.mem_toFinset,Finset.mem_filter]
  rw [h.subtreeCount_eq hr,← hinter]
  exact Finset.card_sdiff_add_card_inter _ _

theorem locksOf_empty {nodes : List ℕ} (h : ∀ i ∈ nodes, (s.heap i).lockedByRequestIds = ∅) :
    s.locksOf nodes = ∅ := by
  apply Finset.eq_empty_of_forall_notMem
  intro r hr
  obtain ⟨i,hi,hlock⟩ := Finset.mem_biUnion.mp hr
  rw [h i (List.mem_toFinset.mp hi)] at hlock
  exact Finset.notMem_empty r hlock

/-! ## What can be taken -/

/-- No protected path leads through a node. -/
def Clear (s : TieredTokenRadix) (paths : List (List ℤ)) (i : ℕ) : Prop := ∀ path ∈ paths, i ∉ s.existingPath 0 path

instance : Decidable (s.Clear paths i) := inferInstanceAs (Decidable (∀ _ ∈ _, _))

/-- What the GPU has on no protected path and without a lock below it. -/
def freeNodes (s : TieredTokenRadix) (paths : List (List ℤ)) : Finset ℕ :=
  (s.having TieredTrieNode.gpu).filter fun i => s.Clear paths i ∧ s.locksOf (s.subtreeNodes i) = ∅

/-- What the GPU has of the bundles that no protected path leads into. -/
def offeredNodes (s : TieredTokenRadix) (paths : List (List ℤ)) : Finset ℕ :=
  (s.having TieredTrieNode.gpu).filter fun i =>
    ∃ r ∈ s.nodesById, s.Evictable r ∧ s.Clear paths r ∧ i ∈ s.subtreeNodes r

theorem Linked.clear_below (h : s.Linked) (hr : r ∈ s.nodesById) (hne : r ≠ 0) (hclear : s.Clear paths r) :
    ∀ i ∈ s.subtreeNodes r, s.Clear paths i :=
  fun _ hi path hpath hmem => hclear path hpath (h.through hr hne hi hmem)

theorem Linked.unlocked_below (h : s.Linked) (hr : r ∈ s.nodesById) (hlocks : s.locksOf (s.subtreeNodes r) = ∅) :
    ∀ i ∈ s.subtreeNodes r, s.locksOf (s.subtreeNodes i) = ∅ := by
  intro i hi
  apply locksOf_empty
  intro j hj
  exact locksOf_eq_empty hlocks j (h.subtree_sub h id hr hi ((h.subtree hr).2.1 i hi) j hj)

/-- The bundles have nothing but what can be taken. -/
theorem Linked.offered_free (h : s.Linked) (paths : List (List ℤ)) : s.offeredNodes paths ⊆ s.freeNodes paths := by
  intro i hi
  obtain ⟨hgpu,r,hr,⟨hne,-,hlocks,-⟩,hclear,hsub⟩ := Finset.mem_filter.mp hi
  exact Finset.mem_filter.mpr ⟨hgpu,h.clear_below hr hne hclear i hsub,h.unlocked_below hr hlocks i hsub⟩

/-- As long as something can be taken, some bundle is there to take: the last node below it is one. -/
theorem Linked.offers (h : s.Linked) (hfree : (s.freeNodes paths).Nonempty) :
    ∃ r ∈ s.nodesById, s.Evictable r ∧ s.Clear paths r := by
  obtain ⟨i,hi⟩ := hfree
  obtain ⟨hgpu,hclear,hlocks⟩ := Finset.mem_filter.mp hi
  obtain ⟨hpos,-⟩ := mem_having.mp hgpu
  obtain ⟨hne,hmem⟩ := Finset.mem_erase.mp hpos
  obtain ⟨-,hin,hroot,-,-⟩ := h.subtree hmem
  have hsome : ((s.having TieredTrieNode.gpu).filter (· ∈ s.subtreeNodes i)).Nonempty :=
    ⟨i,Finset.mem_filter.mpr ⟨hgpu,hroot⟩⟩
  obtain ⟨j,hj,hlast⟩ := Finset.exists_max_image _ id hsome
  obtain ⟨hjgpu,hjsub⟩ := Finset.mem_filter.mp hj
  obtain ⟨hjpos,-⟩ := mem_having.mp hjgpu
  obtain ⟨hjne,hjmem⟩ := Finset.mem_erase.mp hjpos
  obtain ⟨-,-,hjroot,hjdown,-⟩ := h.subtree hjmem
  have hsafe := h.clear_below hmem hne hclear j hjsub
  refine ⟨j,hjmem,⟨hjne,?_,h.unlocked_below hmem hlocks j hjsub,.inr (.inr ?_)⟩,hsafe⟩
  · rw [h.subtreeCount_eq hjmem]
    exact Finset.card_ne_zero_of_mem (Finset.mem_filter.mpr ⟨hjgpu,hjroot⟩)
  · -- no child of the last node has anything on the GPU
    have hnone : (s.childNodes j).countP (fun c => s.subtreeCount TieredTrieNode.gpu c ≠ 0) = 0 := by
      apply List.countP_eq_zero.mpr
      intro c hc
      obtain ⟨x,hx⟩ := mem_childNodes.mp hc
      obtain ⟨hcmem,-,-,hlt⟩ := h.child j hjmem x c hx
      have hcsub : c ∈ s.subtreeNodes i := h.subtree_sub h id hmem hjsub hjmem c (hjdown j hjroot x c hx)
      have hzero : s.subtreeCount TieredTrieNode.gpu c = 0 := by
        rw [h.subtreeCount_eq hcmem]
        apply Finset.card_eq_zero.mpr
        apply Finset.eq_empty_of_forall_notMem
        intro k hk
        obtain ⟨hkgpu,hksub⟩ := Finset.mem_filter.mp hk
        have hdeep := h.subtree_ge hcmem k hksub
        have hle : k ≤ j := hlast k (Finset.mem_filter.mpr ⟨hkgpu,h.subtree_sub h id hmem hcsub hcmem k hksub⟩)
        omega
      simp [hzero]
    rw [hnone]
    exact Nat.zero_ne_one

/-! ## One eviction -/

/-- A subtree leaves the GPU, with its nodes or without them; nothing else changes tiers. -/
structure Shed (s t : TieredTokenRadix) (r : ℕ) : Prop where
  gpu : t.having TieredTrieNode.gpu = s.having TieredTrieNode.gpu \ (s.subtreeNodes r).toFinset
  child : ∀ {i : ℕ} {x : ℤ} {c : ℕ}, t.Child i x c → s.Child i x c
  locks : ∀ i, (t.heap i).lockedByRequestIds = (s.heap i).lockedByRequestIds
  tiers : ∀ i ∉ s.subtreeNodes r, (t.heap i).gpu = (s.heap i).gpu ∧ (t.heap i).cpu = (s.heap i).cpu
  paths : ∀ p, r ∉ s.existingPath 0 p → t.existingPath 0 p = s.existingPath 0 p

/-- The nodes that a commit takes leave the GPU. -/
theorem foldl_commitNode {nodes : List ℕ} (hmem : ∀ i ∈ nodes, i ∈ s.nodesById.erase 0) :
    Moves s (nodes.foldl commitNode (s,0,0)).1 ∧
      (∀ j, (nodes.foldl commitNode (s,0,0)).1.heap j = if j ∈ nodes then settled (s.heap j) else s.heap j) ∧
      (nodes.foldl commitNode (s,0,0)).1.having TieredTrieNode.gpu = s.having TieredTrieNode.gpu \ nodes.toFinset := by
  obtain ⟨hmoves,hheap⟩ := foldl_moves (s := s) (f := settled) (fun n => by simp [settled,copied])
    (fun s acc i hi => commitNode_spec acc hi) nodes (0,0) hmem
  have hat (j : ℕ) : (nodes.foldl commitNode (s,0,0)).1.heap j = if j ∈ nodes then settled (s.heap j) else s.heap j :=
    congrFun hheap j
  refine ⟨hmoves,hat,?_⟩
  ext j
  rw [mem_having,Finset.mem_sdiff,mem_having,List.mem_toFinset,hmoves.index,hat]
  by_cases hj : j ∈ nodes
  · rw [if_pos hj]
    simp [settled,hj]
  · rw [if_neg hj]
    simp [hj]

theorem commitCpu_shed (hs : s.Sound) {m : TieredRadixMutation} (h : s.commitCpu root = (t,.ok m)) :
    ∃ r ∈ s.nodesById, r ≠ 0 ∧ s.Leads 0 root r ∧ Shed s t r := by
  have hevicted := commitCpu_evicted hs h
  obtain ⟨found,hfound,h⟩ := andThen_eq_ok.mp h
  obtain ⟨-,-,hlength,hend⟩ := requireSubtreeRoot_path hfound
  obtain ⟨hmem,hne,-⟩ := requireSubtreeRoot_eq_ok hs.linked hfound
  have hroot : s.Leads 0 root found.1 := hend ▸ leads_existingPath hlength
  simp only at h
  split_ifs at h
  · cases h
  obtain ⟨rfl,-⟩ := checked_eq_ok h
  obtain ⟨hmoves,hat,hgpu⟩ := foldl_commitNode (hs.linked.subtree_pos hmem hne)
  refine ⟨found.1,hmem,hne,hroot,hgpu,hmoves.child.mp,hmoves.locks,fun i hi => ?_,fun p hp => ?_⟩
  · rw [hat,if_neg hi]
    exact ⟨rfl,rfl⟩
  · exact (hevicted.spares p (mt (hs.linked.prefix_iff hroot hne).mp hp)).path

theorem dropSubtree_shed (hs : s.Sound) {m : TieredRadixMutation} (h : s.dropSubtree root = (t,.ok m)) :
    ∃ r ∈ s.nodesById, r ≠ 0 ∧ s.Leads 0 root r ∧ Shed s t r := by
  have hevicted := dropSubtree_evicted hs h
  obtain ⟨found,hfound,h⟩ := andThen_eq_ok.mp h
  obtain ⟨-,-,hlength,hend⟩ := requireSubtreeRoot_path hfound
  obtain ⟨hmem,hne,parent,hparent,x,hx⟩ := requireSubtreeRoot_eq_ok hs.linked hfound
  obtain ⟨-,hup,hsymbol,-⟩ := hs.linked.child parent hparent x found.1 hx
  have hroot : s.Leads 0 root found.1 := hend ▸ leads_existingPath hlength
  simp only at h
  split_ifs at h
  · cases h
  rw [hup,hsymbol] at h
  obtain ⟨rfl,-⟩ := checked_eq_ok h
  refine ⟨found.1,hmem,hne,hroot,?_,fun hc => (child_detach.mp hc).2,fun i => (detach_frame i).2.2.2.2,fun i _ => ?_,
    fun p hp => ?_⟩
  · ext j
    rw [mem_having,Finset.mem_sdiff,mem_having,List.mem_toFinset,Finset.mem_erase,Finset.mem_erase,mem_detach,
      (detach_frame j).2.2.1]
    tauto
  · exact ⟨(detach_frame i).2.2.1,(detach_frame i).2.2.2.1⟩
  · exact (hevicted.spares p (mt (hs.linked.prefix_iff hroot hne).mp hp)).path

/-- What can still be taken after an eviction has all that its subtree did not have. -/
theorem Shed.free (h : Shed s t r) (hs : s.Linked) (ht : t.Linked) (hclear : s.Clear paths r) :
    s.freeNodes paths \ (s.subtreeNodes r).toFinset ⊆ t.freeNodes paths := by
  intro i hi
  obtain ⟨hi,hout⟩ := Finset.mem_sdiff.mp hi
  obtain ⟨hgpu,hfree,hlocks⟩ := Finset.mem_filter.mp hi
  have hgpu' : i ∈ t.having TieredTrieNode.gpu := by
    rw [h.gpu]
    exact Finset.mem_sdiff.mpr ⟨hgpu,hout⟩
  have hmem : i ∈ s.nodesById := Finset.mem_of_mem_erase (mem_having.mp hgpu).1
  have hmem' : i ∈ t.nodesById := Finset.mem_of_mem_erase (mem_having.mp hgpu').1
  refine Finset.mem_filter.mpr ⟨hgpu',fun path hpath => ?_,locksOf_empty fun j hj => ?_⟩
  · rw [h.paths path (hclear path hpath)]
    exact hfree path hpath
  · rw [h.locks]
    exact locksOf_eq_empty hlocks j (hs.subtree_sub ht h.child hmem (hs.subtree hmem).2.2.1 hmem' j hj)

theorem Shed.card_free (h : Shed s t r) (hs : s.Linked) (ht : t.Linked) (hr : r ∈ s.nodesById)
    (hclear : s.Clear paths r) :
    (s.freeNodes paths).card ≤ (t.freeNodes paths).card + s.subtreeCount TieredTrieNode.gpu r := by
  have hsplit : s.freeNodes paths ⊆
      t.freeNodes paths ∪ (s.having TieredTrieNode.gpu).filter (· ∈ s.subtreeNodes r) := by
    intro i hi
    by_cases hsub : i ∈ s.subtreeNodes r
    · exact Finset.mem_union_right _ (Finset.mem_filter.mpr ⟨(Finset.mem_filter.mp hi).1,hsub⟩)
    · exact Finset.mem_union_left _ (h.free hs ht hclear (Finset.mem_sdiff.mpr ⟨hi,by simpa using hsub⟩))
  rw [hs.subtreeCount_eq hr]
  exact (Finset.card_le_card hsplit).trans (Finset.card_union_le _ _)

theorem Shed.tokens (h : Shed s t r) (hs : s.Sound) (ht : t.Sound) (hr : r ∈ s.nodesById) :
    s.gpuTokens = t.gpuTokens + s.subtreeCount TieredTrieNode.gpu r := by
  rw [hs.counted.gpu,ht.counted.gpu,h.gpu,← hs.linked.card_sdiff_subtree hr]
  push_cast
  rfl

/-- The protected paths lead where they led, and what they lead through is in the same tiers. -/
def Sheltered (s t : TieredTokenRadix) (paths : List (List ℤ)) : Prop :=
  ∀ path ∈ paths, t.existingPath 0 path = s.existingPath 0 path ∧
    ∀ i ∈ s.existingPath 0 path, (t.heap i).gpu = (s.heap i).gpu ∧ (t.heap i).cpu = (s.heap i).cpu

theorem Sheltered.refl (s : TieredTokenRadix) (paths : List (List ℤ)) : Sheltered s s paths :=
  fun _ _ => ⟨rfl,fun _ _ => ⟨rfl,rfl⟩⟩

theorem Sheltered.trans (h : Sheltered s t paths) (h' : Sheltered t u paths) : Sheltered s u paths := by
  intro path hpath
  obtain ⟨hst,htiers⟩ := h path hpath
  obtain ⟨htu,htiers'⟩ := h' path hpath
  refine ⟨htu.trans hst,fun i hi => ?_⟩
  obtain ⟨hgpu,hcpu⟩ := htiers i hi
  obtain ⟨hgpu',hcpu'⟩ := htiers' i (by rwa [hst])
  exact ⟨hgpu'.trans hgpu,hcpu'.trans hcpu⟩

theorem Shed.sheltered (h : Shed s t r) (hs : s.Linked) (hr : r ∈ s.nodesById) (hne : r ≠ 0)
    (hclear : s.Clear paths r) :
    Sheltered s t paths := by
  intro path hpath
  refine ⟨h.paths path (hclear path hpath),fun i hi => h.tiers i fun hsub => ?_⟩
  exact hclear path hpath (hs.through hr hne hsub hi)

/-! ## Symbols -/

/-- Every edge has a symbol that can be packed. -/
def Unsigned (s : TieredTokenRadix) : Prop := ∀ (i : ℕ) (x : ℤ) (c : ℕ), s.Child i x c → 0 ≤ x ∧ x < 2 ^ 64

theorem Unsigned.mono (h : s.Unsigned)
    (hchild : ∀ {i : ℕ} {x : ℤ} {c : ℕ}, t.Child i x c → s.Child i x c) : t.Unsigned :=
  fun i x c hc => h i x c (hchild hc)

theorem SameLinks.unsigned (h : SameLinks s t) (hs : s.Unsigned) : t.Unsigned := by
  refine hs.mono fun {i x c} hc => ?_
  unfold Child at hc ⊢
  rwa [h.children] at hc

theorem Unsigned.leads (h : s.Unsigned) : ∀ {p : List ℤ} {i : ℕ}, s.Leads i p j → ∀ x ∈ p, 0 ≤ x ∧ x < 2 ^ 64 := by
  intro p
  induction p with
  | nil => exact fun _ x hx => absurd hx List.not_mem_nil
  | cons y p ih =>
    rintro i ⟨c,hc,hrest⟩ x hx
    obtain rfl | hx := List.mem_cons.mp hx
    · exact h i x c hc
    · exact ih hrest x hx

theorem unsigned_iff {p : List ℤ} : (∀ x ∈ p, 0 ≤ x ∧ x < 2 ^ 64) ↔ ¬ ∃ x ∈ p, x < 0 ∨ 2 ^ 64 ≤ x := by
  simp only [not_exists,not_and,not_or,not_lt,not_le]

theorem validatePath_unsigned {p : List ℤ} : validatePath p = .ok p ↔ ∀ x ∈ p, 0 ≤ x ∧ x < 2 ^ 64 := by
  rw [unsigned_iff]
  unfold validatePath
  constructor
  · intro h hbad
    rw [if_pos hbad] at h
    cases h
  · exact fun h => if_neg h

/-! ## What evictions return -/

theorem requireSubtreeRoot_leads (hu : s.Unsigned) (hroot : s.Leads 0 root r) (hne : r ≠ 0) :
    s.requireSubtreeRoot root = .ok (r,root) := by
  obtain ⟨hlength,hend⟩ := hroot.existingPath
  unfold requireSubtreeRoot
  rw [validatePath_unsigned.mpr (hu.leads hroot)]
  change (if root = [] then _ else if (s.existingPath 0 root).length ≠ root.length then _ else _) = _
  rw [if_neg (hroot.ne_nil hne),if_neg (not_not.mpr hlength)]
  exact congrArg (fun k => Except.ok (k,root)) hend

theorem commitCpu_returns (hs : s.Sound) (hu : s.Unsigned) (hroot : s.Leads 0 root r) (hr : r ∈ s.nodesById)
    (hne : r ≠ 0) (hlocks : s.locksOf (s.subtreeNodes r) = ∅) : ∃ t m, s.commitCpu root = (t,.ok m) := by
  obtain ⟨hmoves,-,-⟩ := foldl_commitNode (hs.linked.subtree_pos hr hne)
  unfold commitCpu
  rw [requireSubtreeRoot_leads hu hroot hne,andThen_ok]
  simp only
  rw [if_neg (not_not.mpr hlocks)]
  exact ⟨_,_,checked_quiet (hmoves.quiet.trans hs.quiet) _⟩

theorem dropSubtree_returns (hs : s.Sound) (hu : s.Unsigned) (hroot : s.Leads 0 root r) (hr : r ∈ s.nodesById)
    (hne : r ≠ 0) (hlocks : s.locksOf (s.subtreeNodes r) = ∅) : ∃ t m, s.dropSubtree root = (t,.ok m) := by
  obtain hzero | ⟨parent,hparent,x,hx⟩ := hs.linked.parent r hr
  · exact absurd hzero hne
  obtain ⟨-,hup,hsymbol,-⟩ := hs.linked.child parent hparent x r hx
  unfold dropSubtree
  rw [requireSubtreeRoot_leads hu hroot hne,andThen_ok]
  simp only
  rw [if_neg (not_not.mpr hlocks),hup,hsymbol]
  exact ⟨_,_,checked_quiet (s := s.detach r parent x) hs.quiet _⟩

end BeliefKV.TieredTokenRadix
