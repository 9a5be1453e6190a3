import BeliefKV.Radix.Invariant

/-! One write to a radix at a time: what it keeps of the tree, of the tiers, of the counters and
of the locks. -/
namespace BeliefKV.TieredTokenRadix
open Call
variable {s t : TieredTokenRadix} {i c : ℕ} {x : ℤ} {f : TieredTrieNode → TieredTrieNode}

/-! ## Writes that leave the tree alone -/

/-- The place of a node in the tree. -/
def links (n : TieredTrieNode) : Option ℤ × Option ℕ × Dict ℤ ℕ := (n.symbol,n.parent,n.children)

structure SameLinks (s t : TieredTokenRadix) : Prop where
  index : t.nodesById = s.nodesById
  next : t.nextNodeId = s.nextNodeId
  links : ∀ i, links (t.heap i) = links (s.heap i)

namespace SameLinks

theorem symbol (h : SameLinks s t) (i : ℕ) : (t.heap i).symbol = (s.heap i).symbol :=
  congrArg Prod.fst (h.links i)

theorem parent (h : SameLinks s t) (i : ℕ) : (t.heap i).parent = (s.heap i).parent :=
  congrArg (·.2.1) (h.links i)

theorem children (h : SameLinks s t) (i : ℕ) : (t.heap i).children = (s.heap i).children :=
  congrArg (·.2.2) (h.links i)

theorem child (h : SameLinks s t) : t.Child i x c ↔ s.Child i x c := by
  unfold Child
  rw [h.children]

theorem trail (h : SameLinks s t) (i : ℕ) (ids : List ℕ) : t.Trail i ids ↔ s.Trail i ids := by
  induction ids generalizing i with
  | nil => exact Iff.rfl
  | cons c ids ih =>
    rw [Trail,Trail,ih]
    simp only [h.child]

theorem linked (h : SameLinks s t) (hs : s.Linked) : t.Linked where
  root := by
    rw [h.index]
    exact hs.root
  top := (h.parent 0).trans hs.top
  below i hi := by
    rw [h.next]
    exact hs.below i (h.index ▸ hi)
  child i hi x c hx := by
    rw [h.index,h.parent,h.symbol]
    exact hs.child i (h.index ▸ hi) x c (h.child.mp hx)
  parent c hc := by
    rcases hs.parent c (h.index ▸ hc) with hzero | ⟨i,hi,x,hx⟩
    · exact .inl hzero
    · exact .inr ⟨i,by rwa [h.index],x,h.child.mpr hx⟩

theorem edit (s : TieredTokenRadix) (i : ℕ) (hf : ∀ n, TieredTokenRadix.links (f n) =
    TieredTokenRadix.links n) : SameLinks s (s.edit i f) := by
  refine ⟨rfl,rfl,fun j => ?_⟩
  change TieredTokenRadix.links (if j = i then f (s.heap j) else s.heap j) = _
  split_ifs
  · exact hf _
  · rfl

theorem editAll (s : TieredTokenRadix) (ids : List ℕ) (hf : ∀ n, TieredTokenRadix.links (f n) =
    TieredTokenRadix.links n) : SameLinks s (s.editAll ids f) := by
  refine ⟨rfl,rfl,fun j => ?_⟩
  change TieredTokenRadix.links (if j ∈ ids then f (s.heap j) else s.heap j) = _
  split_ifs
  · exact hf _
  · rfl

end SameLinks

/-- Tree, tiers, locks and counters are the same. -/
structure SameCore (s t : TieredTokenRadix) : Prop extends SameLinks s t where
  quiet : t.validateEachMutation = s.validateEachMutation
  gpu : ∀ i, (t.heap i).gpu = (s.heap i).gpu
  cpu : ∀ i, (t.heap i).cpu = (s.heap i).cpu
  locks : ∀ i, (t.heap i).lockedByRequestIds = (s.heap i).lockedByRequestIds
  requestLocks : t.requestLocks = s.requestLocks
  counters : (t.uniqueTokens,t.gpuTokens,t.cpuTokens) = (s.uniqueTokens,s.gpuTokens,s.cpuTokens)

theorem SameCore.having (h : SameCore s t) :
    t.having TieredTrieNode.gpu = s.having TieredTrieNode.gpu ∧
      t.having TieredTrieNode.cpu = s.having TieredTrieNode.cpu := by
  unfold TieredTokenRadix.having
  rw [h.index]
  simp only [h.gpu,h.cpu,and_self]

theorem SameCore.sound (h : SameCore s t) (hs : s.Sound) : t.Sound where
  quiet := h.quiet.trans hs.quiet
  linked := h.linked hs.linked
  tiered := by
    refine ⟨(h.gpu 0).trans hs.tiered.root,?_,?_,?_⟩
    · simp only [h.index,h.gpu,h.cpu]
      exact hs.tiered.tier
    · simp only [h.index,h.gpu,h.child]
      exact hs.tiered.closed
    · simp only [h.index,h.gpu,h.locks]
      exact hs.tiered.locked
  counted := by
    have hc := h.counters
    simp only [Prod.mk.injEq] at hc
    refine ⟨?_,?_,?_⟩
    · rw [hc.1,h.index]
      exact hs.counted.unique
    · rw [hc.2.1,h.having.1]
      exact hs.counted.gpu
    · rw [hc.2.2,h.having.2]
      exact hs.counted.cpu
  held := by
    refine ⟨?_,?_⟩
    · simp only [h.requestLocks,h.trail]
      exact hs.held.trail
    · simp only [h.requestLocks,h.index,h.locks]
      exact hs.held.carried

theorem SameCore.trans {u : TieredTokenRadix} (h : SameCore s t) (h' : SameCore t u) :
    SameCore s u where
  index := h'.index.trans h.index
  next := h'.next.trans h.next
  links i := (h'.links i).trans (h.links i)
  quiet := h'.quiet.trans h.quiet
  gpu i := (h'.gpu i).trans (h.gpu i)
  cpu i := (h'.cpu i).trans (h.cpu i)
  locks i := (h'.locks i).trans (h.locks i)
  requestLocks := h'.requestLocks.trans h.requestLocks
  counters := h'.counters.trans h.counters

/-- The part of a node that the invariant is about. -/
def core (n : TieredTrieNode) : (Option ℤ × Option ℕ × Dict ℤ ℕ) × Bool × Bool × Finset String :=
  (links n,n.gpu,n.cpu,n.lockedByRequestIds)

theorem SameCore.editAll (s : TieredTokenRadix) (ids : List ℕ) (hf : ∀ n, core (f n) = core n) :
    SameCore s (s.editAll ids f) := by
  have hcore (j : ℕ) : core ((s.editAll ids f).heap j) = core (s.heap j) := by
    change core (if j ∈ ids then f (s.heap j) else s.heap j) = _
    split_ifs
    · exact hf _
    · rfl
  exact ⟨⟨rfl,rfl,fun j => congrArg Prod.fst (hcore j)⟩,rfl,fun j => congrArg (·.2.1) (hcore j),
    fun j => congrArg (·.2.2.1) (hcore j),fun j => congrArg (·.2.2.2) (hcore j),rfl,rfl⟩

theorem SameCore.touchNodes (s : TieredTokenRadix) (ids : List ℕ) : SameCore s (s.touchNodes ids) := by
  unfold TieredTokenRadix.touchNodes
  split_ifs
  · exact ⟨⟨rfl,rfl,fun _ => rfl⟩,rfl,fun _ => rfl,fun _ => rfl,fun _ => rfl,rfl,rfl⟩
  · obtain ⟨⟨hi,hn,hl⟩,hq,hg,hc,hk,hr,hcount⟩ := SameCore.editAll s ids
      (f := fun n => { n with lastAccessClock := s.clock + 1 }) fun _ => rfl
    exact ⟨⟨hi,hn,hl⟩,hq,hg,hc,hk,hr,hcount⟩

/-! ## Counting -/

theorem having_edit_same {p : TieredTrieNode → Bool} (hp : p (f (s.heap i)) = p (s.heap i)) :
    (s.edit i f).having p = s.having p := by
  unfold having
  refine Finset.filter_congr fun j _ => ?_
  change p (if j = i then f (s.heap j) else s.heap j) = true ↔ _
  split_ifs with hj
  · rw [hj,hp]
  · rfl

theorem having_edit_insert {p : TieredTrieNode → Bool} (hi : i ∈ s.nodesById.erase 0)
    (hp : p (f (s.heap i)) = true) : (s.edit i f).having p = insert i (s.having p) := by
  ext j
  rw [Finset.mem_insert]
  unfold having
  rw [Finset.mem_filter,Finset.mem_filter]
  change j ∈ s.nodesById.erase 0 ∧ p (if j = i then f (s.heap j) else s.heap j) = true ↔ _
  split_ifs with hj
  · subst hj
    simp [hi,hp]
  · simp [hj]

theorem having_edit_erase {p : TieredTrieNode → Bool} (hp : p (f (s.heap i)) = false) :
    (s.edit i f).having p = (s.having p).erase i := by
  ext j
  rw [Finset.mem_erase]
  unfold having
  rw [Finset.mem_filter,Finset.mem_filter]
  change j ∈ s.nodesById.erase 0 ∧ p (if j = i then f (s.heap j) else s.heap j) = true ↔ _
  split_ifs with hj
  · subst hj
    simp [hp]
  · simp [hj]

theorem mem_having {p : TieredTrieNode → Bool} :
    i ∈ s.having p ↔ i ∈ s.nodesById.erase 0 ∧ p (s.heap i) = true := by
  unfold having
  rw [Finset.mem_filter]

theorem Counted.enterGpu (h : s.Counted) (hi : i ∈ s.nodesById.erase 0) (hgpu : (s.heap i).gpu = false) :
    (s.enterGpu i).Counted := by
  have hnot : i ∉ s.having TieredTrieNode.gpu := by simp [mem_having,hgpu]
  refine ⟨h.unique,?_,?_⟩
  · change s.gpuTokens + 1 = ((s.edit i fun n => { n with gpu := true }).having _).card
    rw [having_edit_insert hi rfl,Finset.card_insert_of_notMem hnot,h.gpu]
    push_cast
    rfl
  · change s.cpuTokens = ((s.edit i fun n => { n with gpu := true }).having _).card
    rw [having_edit_same rfl,h.cpu]

/-- A host copy of one node. -/
def hostCopy (s : TieredTokenRadix) (i : ℕ) : TieredTokenRadix :=
  { s.edit i fun n => { n with cpu := true } with cpuTokens := s.cpuTokens + 1 }

theorem Counted.hostCopy (h : s.Counted) (hi : i ∈ s.nodesById.erase 0)
    (hcpu : (s.heap i).cpu = false) : (s.hostCopy i).Counted := by
  have hnot : i ∉ s.having TieredTrieNode.cpu := by simp [mem_having,hcpu]
  refine ⟨h.unique,?_,?_⟩
  · change s.gpuTokens = ((s.edit i fun n => { n with cpu := true }).having _).card
    rw [having_edit_same rfl,h.gpu]
  · change s.cpuTokens + 1 = ((s.edit i fun n => { n with cpu := true }).having _).card
    rw [having_edit_insert hi rfl,Finset.card_insert_of_notMem hnot,h.cpu]
    push_cast
    rfl

/-- One node leaves the GPU. -/
def leaveGpu (s : TieredTokenRadix) (i : ℕ) : TieredTokenRadix :=
  { s.edit i fun n => { n with gpu := false } with gpuTokens := s.gpuTokens - 1 }

theorem Counted.leaveGpu (h : s.Counted) (hi : i ∈ s.nodesById.erase 0)
    (hgpu : (s.heap i).gpu = true) : (s.leaveGpu i).Counted := by
  have hmem : i ∈ s.having TieredTrieNode.gpu := mem_having.mpr ⟨hi,hgpu⟩
  have hpos : 0 < (s.having TieredTrieNode.gpu).card := Finset.card_pos.mpr ⟨i,hmem⟩
  refine ⟨h.unique,?_,?_⟩
  · change s.gpuTokens - 1 = ((s.edit i fun n => { n with gpu := false }).having _).card
    rw [having_edit_erase rfl,Finset.card_erase_of_mem hmem,h.gpu]
    omega
  · change s.cpuTokens = ((s.edit i fun n => { n with gpu := false }).having _).card
    rw [having_edit_same rfl,h.cpu]

/-! ## Tiers -/

theorem Tiered.weaken (h : s.Tiered ∅) (c : ℕ) : s.Tiered {c} :=
  ⟨h.root,fun i hi hne _ => h.tier i hi hne (Finset.notMem_empty i),h.closed,h.locked⟩

theorem Tiered.fill (h : s.Tiered {c}) (hc : (s.heap c).gpu = true) : s.Tiered ∅ := by
  refine ⟨h.root,fun j hj hne _ => ?_,h.closed,h.locked⟩
  by_cases hjc : j = c
  · exact .inl (hjc ▸ hc)
  · exact h.tier j hj hne (by simpa using hjc)

theorem SameLinks.enterGpu (s : TieredTokenRadix) (i : ℕ) : SameLinks s (s.enterGpu i) := by
  obtain ⟨hi,hn,hl⟩ := SameLinks.edit s i (f := fun n => { n with gpu := true }) fun _ => rfl
  exact ⟨hi,hn,hl⟩

theorem gpu_enterGpu (j : ℕ) :
    ((s.enterGpu i).heap j).gpu = true ↔ j = i ∨ (s.heap j).gpu = true := by
  change (if j = i then { s.heap j with gpu := true } else s.heap j).gpu = true ↔ _
  split_ifs with hj
  · simp [hj]
  · simp [hj]

theorem cpu_enterGpu (j : ℕ) : ((s.enterGpu i).heap j).cpu = (s.heap j).cpu := by
  change (if j = i then { s.heap j with gpu := true } else s.heap j).cpu = _
  split_ifs <;> rfl

theorem locks_enterGpu (j : ℕ) :
    ((s.enterGpu i).heap j).lockedByRequestIds = (s.heap j).lockedByRequestIds := by
  change (if j = i then { s.heap j with gpu := true } else s.heap j).lockedByRequestIds = _
  split_ifs <;> rfl

/-- A node below GPU nodes enters the GPU. -/
theorem Tiered.enterGpu {bare : Finset ℕ} (h : s.Tiered bare)
    (hup : ∀ p ∈ s.nodesById, ∀ x, s.Child p x i → (s.heap p).gpu = true) :
    (s.enterGpu i).Tiered bare := by
  have hlinks := SameLinks.enterGpu s i
  refine ⟨(gpu_enterGpu 0).mpr (.inr h.root),fun j hj hne hbare => ?_,fun j hj x c hx hgpu => ?_,
    fun j hj hne hlock => ?_⟩
  · rw [gpu_enterGpu,cpu_enterGpu]
    rcases h.tier j hj hne hbare with hg | hc
    · exact .inl (.inr hg)
    · exact .inr hc
  · rw [gpu_enterGpu] at hgpu ⊢
    have hx' := hlinks.child.mp hx
    rcases hgpu with rfl | hgpu
    · exact .inr (hup j hj x hx')
    · exact .inr (h.closed j hj x c hx' hgpu)
  · rw [locks_enterGpu] at hlock
    exact (gpu_enterGpu j).mpr (.inr (h.locked j hj hne hlock))

/-! ## Locks -/

theorem Held.same (h : s.Held) (hl : SameLinks s t)
    (hlocks : ∀ i, (t.heap i).lockedByRequestIds = (s.heap i).lockedByRequestIds)
    (hreq : t.requestLocks = s.requestLocks) : t.Held := by
  refine ⟨?_,?_⟩
  · simp only [hreq,hl.trail]
    exact h.trail
  · simp only [hreq,hl.index,hlocks]
    exact h.carried

theorem Sound.enterGpu (hq : s.validateEachMutation = false) (hl : s.Linked) (ht : s.Tiered {c})
    (hc : s.Counted) (hh : s.Held) (hmem : c ∈ s.nodesById.erase 0) (hgpu : (s.heap c).gpu = false)
    (hup : ∀ p ∈ s.nodesById, ∀ x, s.Child p x c → (s.heap p).gpu = true) : (s.enterGpu c).Sound where
  quiet := hq
  linked := (SameLinks.enterGpu s c).linked hl
  tiered := (ht.enterGpu hup).fill ((gpu_enterGpu c).mpr (.inl rfl))
  counted := hc.enterGpu hmem hgpu
  held := hh.same (SameLinks.enterGpu s c) locks_enterGpu rfl

/-- The locks of the nodes of a list change, and nothing else about the tree and the tiers. -/
structure Relocks (s t : TieredTokenRadix) : Prop extends SameLinks s t where
  quiet : t.validateEachMutation = s.validateEachMutation
  gpu : ∀ i, (t.heap i).gpu = (s.heap i).gpu
  cpu : ∀ i, (t.heap i).cpu = (s.heap i).cpu
  counters : (t.uniqueTokens,t.gpuTokens,t.cpuTokens) = (s.uniqueTokens,s.gpuTokens,s.cpuTokens)

/-- New locks are sound when they are held by paths of GPU nodes. -/
theorem Relocks.sound (h : Relocks s t) (hs : s.Sound) (hheld : t.Held)
    (hgpu : ∀ (r : String) (ids : List ℕ), t.requestLocks[r]? = some ids →
      ∀ i ∈ ids, (s.heap i).gpu = true) : t.Sound where
  quiet := h.quiet.trans hs.quiet
  linked := h.linked hs.linked
  tiered := by
    refine ⟨(h.gpu 0).trans hs.tiered.root,?_,?_,fun i hi _ hlock => ?_⟩
    · simp only [h.index,h.gpu,h.cpu]
      exact hs.tiered.tier
    · simp only [h.index,h.gpu,h.child]
      exact hs.tiered.closed
    · obtain ⟨r,hr⟩ := Finset.nonempty_iff_ne_empty.mpr hlock
      obtain ⟨ids,hids,hmem⟩ := (hheld.carried r i hi).mp hr
      rw [h.gpu]
      exact hgpu r ids hids i hmem
  counted := by
    have hc := h.counters
    simp only [Prod.mk.injEq] at hc
    refine ⟨?_,?_,?_⟩
    · rw [hc.1,h.index]
      exact hs.counted.unique
    · rw [hc.2.1,hs.counted.gpu,having,having,h.index]
      simp only [h.gpu]
    · rw [hc.2.2,hs.counted.cpu,having,having,h.index]
      simp only [h.cpu]
  held := hheld

/-- What is locked is on the GPU. -/
theorem Sound.locked_gpu (hs : s.Sound) {r : String} {ids : List ℕ}
    (hr : s.requestLocks[r]? = some ids) : ∀ i ∈ ids, i ∈ s.nodesById.erase 0 ∧ (s.heap i).gpu = true := by
  intro i hi
  obtain ⟨hmem,hpos⟩ := hs.linked.trail_mem hs.linked.root (hs.held.trail r ids hr) i hi
  have hne : i ≠ 0 := by omega
  refine ⟨Finset.mem_erase.mpr ⟨hne,hmem⟩,hs.tiered.locked i hmem hne ?_⟩
  exact Finset.ne_empty_of_mem ((hs.held.carried r i hmem).mpr ⟨ids,hr,hi⟩)

/-- The nodes of a list get a lock. -/
theorem Relocks.editAll (s : TieredTokenRadix) (ids : List ℕ) (g : Finset String → Finset String)
    (locks : Dict String (List ℕ)) : Relocks s { s.editAll ids fun n =>
      { n with lockedByRequestIds := g n.lockedByRequestIds } with requestLocks := locks } := by
  obtain ⟨hi,hn,hl⟩ := SameLinks.editAll s ids
    (f := fun n => { n with lockedByRequestIds := g n.lockedByRequestIds }) fun _ => rfl
  refine ⟨⟨hi,hn,hl⟩,rfl,fun j => ?_,fun j => ?_,rfl⟩
  · change (if j ∈ ids then { s.heap j with lockedByRequestIds := g (s.heap j).lockedByRequestIds }
      else s.heap j).gpu = _
    split_ifs <;> rfl
  · change (if j ∈ ids then { s.heap j with lockedByRequestIds := g (s.heap j).lockedByRequestIds }
      else s.heap j).cpu = _
    split_ifs <;> rfl

theorem locks_editAll (ids : List ℕ) (g : Finset String → Finset String) (j : ℕ) :
    ((s.editAll ids fun n => { n with lockedByRequestIds := g n.lockedByRequestIds }).heap
      j).lockedByRequestIds =
      if j ∈ ids then g (s.heap j).lockedByRequestIds else (s.heap j).lockedByRequestIds := by
  change (if j ∈ ids then { s.heap j with lockedByRequestIds := g (s.heap j).lockedByRequestIds }
    else s.heap j).lockedByRequestIds = _
  split_ifs <;> rfl

/-- A request takes over a longer trail of GPU nodes: the nodes it did not have get its lock. -/
theorem Sound.relock (hs : s.Sound) {r : String} (old added : List ℕ)
    (hold : s.requestLocks[r]?.getD [] = old) (htrail : s.Trail 0 (old ++ added))
    (hgpu : ∀ i ∈ added, (s.heap i).gpu = true) :
    Sound { s.editAll added fun n => { n with lockedByRequestIds := insert r n.lockedByRequestIds } with
      requestLocks := s.requestLocks.insert r (old ++ added) } := by
  have hre := Relocks.editAll s added (insert r) (s.requestLocks.insert r (old ++ added))
  refine hre.sound hs ⟨fun q ids hq => ?_,fun q i hi => ?_⟩ fun q ids hq i hi => ?_
  · rw [hre.trail]
    change (s.requestLocks.insert r (old ++ added))[q]? = some ids at hq
    rw [Dict.get_insert] at hq
    split_ifs at hq
    · cases hq
      exact htrail
    · exact hs.held.trail q ids hq
  · change q ∈ ((s.editAll added fun n => { n with
      lockedByRequestIds := insert r n.lockedByRequestIds }).heap i).lockedByRequestIds ↔ ∃ ids,
       (s.requestLocks.insert r (old ++ added))[q]? = some ids ∧ i ∈ ids
    have hcarried := hs.held.carried q i hi
    rw [locks_editAll added (insert r),Dict.get_insert]
    by_cases hqr : r = q
    · subst hqr
      have hmine : r ∈ (s.heap i).lockedByRequestIds ↔ i ∈ old := by
        rw [hcarried]
        cases hget : s.requestLocks[r]? with
        | none => simp [← hold,hget]
        | some ids => simp [← hold,hget]
      simp only [if_true,Option.some.injEq,exists_eq_left',List.mem_append]
      split_ifs with hadd
      · simp [hadd]
      · simp [hmine,hadd]
    · rw [if_neg hqr]
      rw [← hcarried]
      split_ifs
      · rw [Finset.mem_insert]
        exact or_iff_right fun h => hqr h.symm
      · exact Iff.rfl
  · change (s.requestLocks.insert r (old ++ added))[q]? = some ids at hq
    rw [Dict.get_insert] at hq
    split_ifs at hq
    · cases hq
      rcases List.mem_append.mp hi with hi | hi
      · cases hget : s.requestLocks[r]? with
        | none => simp [← hold,hget] at hi
        | some ids =>
          rw [hget,Option.getD_some] at hold
          exact (hs.locked_gpu hget i (hold ▸ hi)).2
      · exact hgpu i hi
    · exact (hs.locked_gpu hq i hi).2

/-- A request gives up its nodes. -/
theorem Sound.unlock (hs : s.Sound) {r : String} {ids : List ℕ} (hr : s.requestLocks[r]? = some ids) :
    Sound { s.editAll (ids.filter (· ∈ s.nodesById)) fun n =>
      { n with lockedByRequestIds := n.lockedByRequestIds.erase r } with
      requestLocks := s.requestLocks.erase r } := by
  have hre := Relocks.editAll s (ids.filter (· ∈ s.nodesById)) (·.erase r) (s.requestLocks.erase r)
  refine hre.sound hs ⟨fun q list hq => ?_,fun q i hi => ?_⟩ fun q list hq i hi => ?_
  · rw [hre.trail]
    change (s.requestLocks.erase r)[q]? = some list at hq
    rw [Dict.get_erase] at hq
    split_ifs at hq
    exact hs.held.trail q list hq
  · change q ∈ ((s.editAll (ids.filter (· ∈ s.nodesById)) fun n => { n with
      lockedByRequestIds := n.lockedByRequestIds.erase r }).heap i).lockedByRequestIds ↔ ∃ list,
      (s.requestLocks.erase r)[q]? = some list ∧ i ∈ list
    have hcarried := hs.held.carried q i hi
    rw [locks_editAll _ (·.erase r),Dict.get_erase]
    by_cases hqr : r = q
    · subst hqr
      have hmine : r ∈ (s.heap i).lockedByRequestIds ↔ i ∈ ids := by
        rw [hcarried,hr]
        simp
      have hi' : i ∈ s.nodesById := hi
      simp only [if_true,List.mem_filter,hi',decide_true,and_true]
      split_ifs with hmem
      · simp
      · simp [hmine,hmem]
    · rw [if_neg hqr,← hcarried]
      split_ifs
      · rw [Finset.mem_erase]
        exact and_iff_right fun h => hqr h.symm
      · exact Iff.rfl
  · change (s.requestLocks.erase r)[q]? = some list at hq
    rw [Dict.get_erase] at hq
    split_ifs at hq
    exact (hs.locked_gpu hq i hi).2

/-! ## A new node -/

/-- A new child of a node. -/
def sprout (s : TieredTokenRadix) (node : ℕ) (x : ℤ) : TieredTokenRadix :=
  (s.newNode x node).edit node fun n => { n with children := n.children.insert x s.nextNodeId }

section Sprout
variable {node : ℕ} (hlt : node < s.nextNodeId)
include hlt

theorem heap_sprout_new : (s.sprout node x).heap s.nextNodeId =
    { symbol := some x, parent := some node } := by
  change (if s.nextNodeId = node then _ else if s.nextNodeId = s.nextNodeId then _ else _) = _
  rw [if_neg (by omega),if_pos rfl]

theorem heap_sprout_node : (s.sprout node x).heap node =
    { s.heap node with children := (s.heap node).children.insert x s.nextNodeId } := by
  have hne : node ≠ s.nextNodeId := by omega
  simp only [sprout,edit,newNode,if_true,if_neg hne]

omit hlt in
theorem heap_sprout_other {j : ℕ} (hj : j ≠ node) (hj' : j ≠ s.nextNodeId) :
    (s.sprout node x).heap j = s.heap j := by
  simp only [sprout,edit,newNode,if_neg hj,if_neg hj']

/-- The old nodes stay as they are but for the child that the one node gets. -/
theorem sprout_old {j : ℕ} (hj : j ≠ s.nextNodeId) :
    ((s.sprout node x).heap j).symbol = (s.heap j).symbol ∧
      ((s.sprout node x).heap j).parent = (s.heap j).parent ∧
      ((s.sprout node x).heap j).gpu = (s.heap j).gpu ∧
      ((s.sprout node x).heap j).cpu = (s.heap j).cpu ∧
      ((s.sprout node x).heap j).lockedByRequestIds = (s.heap j).lockedByRequestIds := by
  by_cases hjn : j = node
  · subst hjn
    rw [heap_sprout_node hlt]
    exact ⟨rfl,rfl,rfl,rfl,rfl⟩
  · rw [heap_sprout_other hjn hj]
    exact ⟨rfl,rfl,rfl,rfl,rfl⟩

variable (hnone : (s.heap node).children[x]? = none)
include hnone

/-- The edges are the old ones and the new one. -/
theorem child_sprout {j : ℕ} {y : ℤ} : (s.sprout node x).Child j y c ↔
    (j = node ∧ y = x ∧ c = s.nextNodeId) ∨ j ≠ s.nextNodeId ∧ s.Child j y c := by
  have hne : node ≠ s.nextNodeId := by omega
  unfold Child
  by_cases hnew : j = s.nextNodeId
  · rw [hnew,heap_sprout_new hlt]
    simp only [Std.ExtTreeMap.getElem?_empty,ne_eq,not_true,false_and,or_false]
    constructor
    · intro h
      cases h
    · rintro ⟨h,-,-⟩
      exact absurd h.symm hne
  by_cases hjn : j = node
  · subst hjn
    rw [heap_sprout_node hlt]
    dsimp only
    rw [Dict.get_insert]
    split_ifs with hxy
    · subst hxy
      simp [hnone,eq_comm]
    · simp [hne,Ne.symm hxy]
  · rw [heap_sprout_other hjn hnew]
    simp [hnew,hjn]

theorem Linked.sprout (hs : s.Linked) (hnode : node ∈ s.nodesById) : (s.sprout node x).Linked where
  root := Finset.mem_insert_of_mem hs.root
  top := by
    have hpos : (0 : ℕ) ≠ s.nextNodeId := by omega
    rw [(sprout_old hlt hpos).2.1]
    exact hs.top
  below j hj := by
    change j < s.nextNodeId + 1
    rcases Finset.mem_insert.mp hj with rfl | hj
    · omega
    · have := hs.below j hj
      omega
  child j hj y c hc := by
    rcases (child_sprout hlt hnone).mp hc with ⟨rfl,rfl,rfl⟩ | ⟨hnew,hc⟩
    · rw [heap_sprout_new hlt]
      exact ⟨Finset.mem_insert_self _ _,rfl,rfl,hlt⟩
    · have hj' : j ∈ s.nodesById := (Finset.mem_insert.mp hj).resolve_left hnew
      obtain ⟨hmem,hpar,hsym,hdeep⟩ := hs.child j hj' y c hc
      have hcn : c ≠ s.nextNodeId := by
        have := hs.below c hmem
        omega
      obtain ⟨hsym',hpar',-⟩ := sprout_old (x := x) hlt hcn
      exact ⟨Finset.mem_insert_of_mem hmem,hpar'.trans hpar,hsym'.trans hsym,hdeep⟩
  parent c hc := by
    rcases Finset.mem_insert.mp hc with rfl | hc
    · exact .inr ⟨node,Finset.mem_insert_of_mem hnode,x,(child_sprout hlt hnone).mpr (.inl ⟨rfl,rfl,rfl⟩)⟩
    · rcases hs.parent c hc with hzero | ⟨i,hi,y,hy⟩
      · exact .inl hzero
      · have hin : i ≠ s.nextNodeId := by
          have := hs.below i hi
          omega
        exact .inr ⟨i,Finset.mem_insert_of_mem hi,y,(child_sprout hlt hnone).mpr (.inr ⟨hin,hy⟩)⟩

theorem Tiered.sprout (hs : s.Tiered ∅) : (s.sprout node x).Tiered {s.nextNodeId} := by
  have hold {j : ℕ} (hj : j ∈ (s.sprout node x).nodesById) (hne : j ≠ s.nextNodeId) : j ∈ s.nodesById :=
    (Finset.mem_insert.mp hj).resolve_left hne
  have hpos : (0 : ℕ) ≠ s.nextNodeId := by omega
  refine ⟨?_,fun j hj hne hbare => ?_,fun j hj y c hc hgpu => ?_,fun j hj hne hlock => ?_⟩
  · rw [(sprout_old hlt hpos).2.2.1]
    exact hs.root
  · have hnew : j ≠ s.nextNodeId := by simpa using hbare
    obtain ⟨-,-,hg,hc,-⟩ := sprout_old (x := x) hlt hnew
    rw [hg,hc]
    exact hs.tier j (hold hj hnew) hne (Finset.notMem_empty j)
  · rcases (child_sprout hlt hnone).mp hc with ⟨rfl,rfl,rfl⟩ | ⟨hnew,hc⟩
    · rw [heap_sprout_new hlt] at hgpu
      cases hgpu
    · rw [(sprout_old hlt hnew).2.2.1]
      refine hs.closed j (hold hj hnew) y c hc ?_
      by_cases hcn : c = s.nextNodeId
      · rw [hcn,heap_sprout_new hlt] at hgpu
        cases hgpu
      · rwa [(sprout_old hlt hcn).2.2.1] at hgpu
  · by_cases hnew : j = s.nextNodeId
    · rw [hnew,heap_sprout_new hlt] at hlock
      exact absurd rfl hlock
    · obtain ⟨-,-,hg,-,hl⟩ := sprout_old (x := x) hlt hnew
      rw [hg]
      rw [hl] at hlock
      exact hs.locked j (hold hj hnew) hne hlock

omit hnone in
theorem Counted.sprout (hs : s.Counted) (hl : s.Linked) : (s.sprout node x).Counted := by
  have hpos : (0 : ℕ) ≠ s.nextNodeId := by omega
  have hfresh : s.nextNodeId ∉ s.nodesById := fun hmem => absurd (hl.below _ hmem) (lt_irrefl _)
  have herase : (s.sprout node x).nodesById.erase 0 = insert s.nextNodeId (s.nodesById.erase 0) :=
    Finset.erase_insert_of_ne hpos.symm
  have hnot : s.nextNodeId ∉ s.nodesById.erase 0 := fun hmem => hfresh (Finset.mem_of_mem_erase hmem)
  have hsame {p : TieredTrieNode → Bool} (hbare : p { symbol := some x, parent := some node } = false)
      (hp : ∀ j, j ≠ s.nextNodeId → p ((s.sprout node x).heap j) = p (s.heap j)) :
      (s.sprout node x).having p = s.having p := by
    unfold having
    rw [herase,Finset.filter_insert,heap_sprout_new hlt,hbare,if_neg (by simp)]
    refine Finset.filter_congr fun j hj => ?_
    rw [hp j fun h => hnot (h ▸ hj)]
  refine ⟨?_,?_,?_⟩
  · rw [herase,Finset.card_insert_of_notMem hnot]
    change s.uniqueTokens + 1 = _
    rw [hs.unique]
    push_cast
    rfl
  · rw [hsame rfl fun j hj => (sprout_old hlt hj).2.2.1]
    exact hs.gpu
  · rw [hsame rfl fun j hj => (sprout_old hlt hj).2.2.2.1]
    exact hs.cpu

theorem Held.sprout (hs : s.Held) (hl : s.Linked) : (s.sprout node x).Held := by
  have htrail (ids : List ℕ) : ∀ i ∈ s.nodesById, s.Trail i ids → (s.sprout node x).Trail i ids := by
    induction ids with
    | nil => exact fun _ _ _ => trivial
    | cons c ids ih =>
      rintro i hi ⟨⟨y,hy⟩,hrest⟩
      have hin : i ≠ s.nextNodeId := by
        have := hl.below i hi
        omega
      exact ⟨⟨y,(child_sprout hlt hnone).mpr (.inr ⟨hin,hy⟩)⟩,ih c (hl.child i hi y c hy).1 hrest⟩
  refine ⟨fun r ids hr => htrail ids 0 hl.root (hs.trail r ids hr),fun r i hi => ?_⟩
  change _ ↔ ∃ ids, s.requestLocks[r]? = some ids ∧ i ∈ ids
  by_cases hnew : i = s.nextNodeId
  · rw [hnew,heap_sprout_new hlt]
    constructor
    · intro h
      exact absurd h (Finset.notMem_empty r)
    · rintro ⟨ids,hr,hmem⟩
      have hbound := hl.below _ (hl.trail_mem hl.root (hs.trail r ids hr) _ hmem).1
      omega
  · rw [(sprout_old hlt hnew).2.2.2.2]
    exact hs.carried r i ((Finset.mem_insert.mp hi).resolve_left hnew)

end Sprout

end BeliefKV.TieredTokenRadix
