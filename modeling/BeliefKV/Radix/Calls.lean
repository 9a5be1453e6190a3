import BeliefKV.Radix.Preservation

/-! The loops and the removals of the radix, and what each call does to a sound one. -/
namespace BeliefKV.TieredTokenRadix
open Call
variable {s t : TieredTokenRadix} {i c : ℕ} {x : ℤ}

/-! ## Growing -/

/-- A child that is there, or was made for the walk. -/
theorem childOrNew_spec (hs : s.Sound) {node : ℕ} (hnode : node ∈ s.nodesById) (x : ℤ) :
    (s.childOrNew node x).1.validateEachMutation = false ∧ (s.childOrNew node x).1.Linked ∧
      (s.childOrNew node x).1.Tiered {(s.childOrNew node x).2} ∧
      (s.childOrNew node x).1.Counted ∧ (s.childOrNew node x).1.Held ∧
      node ∈ (s.childOrNew node x).1.nodesById ∧
      (s.childOrNew node x).1.Child node x (s.childOrNew node x).2 ∧
      ((s.childOrNew node x).1.heap node).gpu = (s.heap node).gpu ∧
      (s.childOrNew node x).1.requestLocks = s.requestLocks := by
  unfold childOrNew
  cases hx : (s.heap node).children[x]? with
  | some c =>
    exact ⟨hs.quiet,hs.linked,hs.tiered.weaken c,hs.counted,hs.held,hnode,hx,rfl,rfl⟩
  | none =>
    have hlt := hs.linked.below node hnode
    refine ⟨hs.quiet,hs.linked.sprout hlt hx hnode,hs.tiered.sprout hlt hx,hs.counted.sprout hlt hs.linked,
      hs.held.sprout hlt hx hs.linked,Finset.mem_insert_of_mem hnode,?_,?_,rfl⟩
    · exact (child_sprout hlt hx).mpr (.inl ⟨rfl,rfl,rfl⟩)
    · exact (sprout_old hlt (by omega)).2.2.1

/-- The lock of a request grows by a child of its last node. -/
theorem Sound.lockNode (hs : s.Sound) {request : Option String}
    (hreq : ∀ r, request = some r → ∃ ids, s.requestLocks[r]? = some ids ∧ ∃ x, s.Child (endOf 0 ids) x c)
    (hgpu : (s.heap c).gpu = true) : (s.lockNode request c).Sound := by
  cases request with
  | none => exact hs
  | some r =>
    obtain ⟨ids,hids,x,hx⟩ := hreq r rfl
    have htrail : s.Trail 0 (ids ++ [c]) :=
      trail_append.mpr ⟨hs.held.trail r ids hids,⟨x,hx⟩,trivial⟩
    have hsound := hs.relock ids [c] (by rw [hids]; rfl) htrail (by simpa using hgpu)
    have heq : s.lockNode (some r) c = { s.editAll [c] fun n =>
        { n with lockedByRequestIds := insert r n.lockedByRequestIds } with
        requestLocks := s.requestLocks.insert r (ids ++ [c]) } := by
      simp only [TieredTokenRadix.lockNode,hids,Option.getD_some,edit,editAll,List.mem_singleton]
    rw [heq]
    exact hsound

theorem lockNode_frame (request : Option String) (i j : ℕ) :
    ((s.lockNode request i).heap j).gpu = (s.heap j).gpu ∧
      (s.lockNode request i).nodesById = s.nodesById := by
  cases request with
  | none => exact ⟨rfl,rfl⟩
  | some r =>
    refine ⟨?_,rfl⟩
    change (if j = i then { s.heap j with
      lockedByRequestIds := insert r (s.heap j).lockedByRequestIds } else s.heap j).gpu = _
    split_ifs <;> rfl

theorem lockNode_get {r : String} {ids : List ℕ} (hr : s.requestLocks[r]? = some ids) (i : ℕ) :
    (s.lockNode (some r) i).requestLocks[r]? = some (ids ++ [i]) := by
  change (s.requestLocks.insert r _)[r]? = _
  rw [Dict.get_insert,if_pos rfl,hr]
  rfl

/-- The loop never meets a node whose parent is off the GPU: it starts at a GPU node and each
node it goes to is on the GPU when it goes on. -/
theorem growPath_ok (request : Option String) (message : String) {node : ℕ} (acc : Growth)
    (path : List ℤ) (hs : s.Sound) (hnode : node ∈ s.nodesById) (hgpu : (s.heap node).gpu = true)
    (hreq : ∀ r, request = some r → ∃ ids, s.requestLocks[r]? = some ids ∧ endOf 0 ids = node) :
    ∃ t growth, growPath request message s node acc path = (t,.ok growth) ∧ t.Sound := by
  induction path generalizing s node acc with
  | nil => exact ⟨s,acc,rfl,hs⟩
  | cons x path ih =>
    obtain ⟨hq,hl,ht,hc,hh,hmem,hx,hsame,hlocks⟩ := childOrNew_spec hs hnode x
    rw [growPath]
    generalize (s.childOrNew node x).1 = s' at *
    generalize (s.childOrNew node x).2 = c at *
    obtain ⟨hcmem,hpar,-,hdeep⟩ := hl.child node hmem x c hx
    have hcpos : c ∈ s'.nodesById.erase 0 := Finset.mem_erase.mpr ⟨by omega,hcmem⟩
    -- the state in which the child is on the GPU and gets its lock
    have hgo (u : TieredTokenRadix) (hu : u.Sound) (hlinks : SameLinks s' u)
        (hulocks : u.requestLocks = s'.requestLocks) (hcgpu : (u.heap c).gpu = true) (acc : Growth) :
        ∃ t growth, growPath request message (u.lockNode request c) c acc path = (t,.ok growth) ∧
          t.Sound := by
      have hlock : (u.lockNode request c).Sound := by
        refine hu.lockNode (fun r hr => ?_) hcgpu
        obtain ⟨ids,hids,hend⟩ := hreq r hr
        exact ⟨ids,by rw [hulocks,hlocks,hids],x,hlinks.child.mpr (hend ▸ hx)⟩
      obtain ⟨hg,hn⟩ := lockNode_frame (s := u) request c c
      refine ih _ hlock (by rw [hn,hlinks.index]; exact hcmem) (hg.trans hcgpu) fun r hr => ?_
      obtain ⟨ids,hids,-⟩ := hreq r hr
      subst hr
      exact ⟨ids ++ [c],lockNode_get (by rw [hulocks,hlocks,hids]) c,by simp [endOf]⟩
    by_cases hcgpu : (s'.heap c).gpu = true
    · rw [if_pos hcgpu]
      exact hgo s' ⟨hq,hl,ht.fill hcgpu,hc,hh⟩ ⟨rfl,rfl,fun _ => rfl⟩ rfl hcgpu _
    · rw [if_neg hcgpu,if_neg (by rw [hsame,hgpu]; simp)]
      have hup (p : ℕ) (hp : p ∈ s'.nodesById) (y : ℤ) (hy : s'.Child p y c) :
          (s'.heap p).gpu = true := by
        have hpc := (hl.child p hp y c hy).2.1
        rw [hpar] at hpc
        rw [← Option.some.inj hpc,hsame,hgpu]
      have hsound := Sound.enterGpu hq hl ht hc hh hcpos (by simpa using hcgpu) hup
      exact hgo (s'.enterGpu c) hsound (SameLinks.enterGpu s' c) rfl ((gpu_enterGpu c).mpr (.inl rfl)) _

/-! ## Restoring -/

/-- The loop restores a trail from a node on the GPU downwards. -/
theorem restoreNodes_ok {node : ℕ} {nodes : List ℕ} {n : ℕ} (hs : s.Sound) (hnode : node ∈ s.nodesById)
    (hgpu : (s.heap node).gpu = true) (htrail : s.Trail node nodes) :
    ∃ t m, restoreNodes s n nodes = (t,.ok m) ∧ t.Sound := by
  induction nodes generalizing s node n with
  | nil => exact ⟨s,n,rfl,hs⟩
  | cons c nodes ih =>
    obtain ⟨⟨x,hx⟩,hrest⟩ := htrail
    obtain ⟨hcmem,hpar,-,hdeep⟩ := hs.linked.child node hnode x c hx
    have hcpos : c ∈ s.nodesById.erase 0 := Finset.mem_erase.mpr ⟨by omega,hcmem⟩
    rw [restoreNodes]
    by_cases hcgpu : (s.heap c).gpu = true
    · rw [if_pos hcgpu]
      exact ih hs hcmem hcgpu hrest
    · have hcpu : (s.heap c).cpu = true :=
        (hs.tiered.tier c hcmem (Finset.ne_of_mem_erase hcpos) (Finset.notMem_empty c)).resolve_left hcgpu
      have hfine : ¬ ((s.heap c).cpu = false ∨ ((s.heap c).parent.any fun p => !(s.heap p).gpu) = true) := by
        rw [hcpu,hpar,Option.any_some,hgpu]
        simp
      rw [if_neg hcgpu,if_neg hfine]
      have hup (p : ℕ) (hp : p ∈ s.nodesById) (y : ℤ) (hy : s.Child p y c) : (s.heap p).gpu = true := by
        have hpc := (hs.linked.child p hp y c hy).2.1
        rw [hpar] at hpc
        rw [← Option.some.inj hpc,hgpu]
      have hsound := Sound.enterGpu hs.quiet hs.linked (hs.tiered.weaken c) hs.counted hs.held hcpos
        (by simpa using hcgpu) hup
      have hlinks := SameLinks.enterGpu s c
      exact ih hsound (by rw [hlinks.index]; exact hcmem) ((gpu_enterGpu c).mpr (.inl rfl))
        ((hlinks.trail c nodes).mpr hrest)

/-! ## Host copies and reclamation -/

theorem SameLinks.hostCopy (s : TieredTokenRadix) (i : ℕ) : SameLinks s (s.hostCopy i) := by
  obtain ⟨hi,hn,hl⟩ := SameLinks.edit s i (f := fun n => { n with cpu := true }) fun _ => rfl
  exact ⟨hi,hn,hl⟩

theorem SameLinks.leaveGpu (s : TieredTokenRadix) (i : ℕ) : SameLinks s (s.leaveGpu i) := by
  obtain ⟨hi,hn,hl⟩ := SameLinks.edit s i (f := fun n => { n with gpu := false }) fun _ => rfl
  exact ⟨hi,hn,hl⟩

/-- What moves of nodes between the tiers keep, wherever they stop. -/
structure Moves (s t : TieredTokenRadix) : Prop extends SameLinks s t where
  quiet : t.validateEachMutation = s.validateEachMutation
  locks : ∀ i, (t.heap i).lockedByRequestIds = (s.heap i).lockedByRequestIds
  requestLocks : t.requestLocks = s.requestLocks
  counted : s.Counted → t.Counted

theorem Moves.refl (s : TieredTokenRadix) : Moves s s :=
  ⟨⟨rfl,rfl,fun _ => rfl⟩,rfl,fun _ => rfl,rfl,id⟩

theorem Moves.trans {u : TieredTokenRadix} (h : Moves s t) (h' : Moves t u) : Moves s u where
  index := h'.index.trans h.index
  next := h'.next.trans h.next
  links i := (h'.links i).trans (h.links i)
  quiet := h'.quiet.trans h.quiet
  locks i := (h'.locks i).trans (h.locks i)
  requestLocks := h'.requestLocks.trans h.requestLocks
  counted hs := h'.counted (h.counted hs)

/-- Moves are sound as far as the tiers go. -/
theorem Moves.sound (h : Moves s t) (hs : s.Sound) (ht : t.Tiered ∅) : t.Sound :=
  ⟨h.quiet.trans hs.quiet,h.linked hs.linked,ht,h.counted hs.counted,
    hs.held.same h.toSameLinks h.locks h.requestLocks⟩

/-- A loop that writes to one node in each round writes to all nodes of its list. -/
theorem foldl_moves {β : Type} {step : TieredTokenRadix × β → ℕ → TieredTokenRadix × β}
    {f : TieredTrieNode → TieredTrieNode} (hf : ∀ n, f (f n) = f n)
    (hstep : ∀ (s : TieredTokenRadix) (b : β) (i : ℕ), i ∈ s.nodesById.erase 0 →
      Moves s (step (s,b) i).1 ∧ (step (s,b) i).1.heap = (s.edit i f).heap)
    (nodes : List ℕ) (b : β) (hmem : ∀ i ∈ nodes, i ∈ s.nodesById.erase 0) :
    Moves s (nodes.foldl step (s,b)).1 ∧
      (nodes.foldl step (s,b)).1.heap = (s.editAll nodes f).heap := by
  induction nodes generalizing s b with
  | nil => exact ⟨Moves.refl s,funext fun j => by simp [editAll]⟩
  | cons i nodes ih =>
    obtain ⟨hone,hheap⟩ := hstep s b i (hmem i (by simp))
    obtain ⟨hrest,hall⟩ := ih (s := (step (s,b) i).1) (step (s,b) i).2 fun j hj => by
      rw [hone.index]
      exact hmem j (by simp [hj])
    rw [List.foldl_cons]
    refine ⟨hone.trans hrest,hall.trans (funext fun j => ?_)⟩
    change (if j ∈ nodes then f ((step (s,b) i).1.heap j) else (step (s,b) i).1.heap j) =
      if j ∈ i :: nodes then f (s.heap j) else s.heap j
    rw [hheap]
    change (if j ∈ nodes then f (if j = i then f (s.heap j) else s.heap j)
      else if j = i then f (s.heap j) else s.heap j) = _
    by_cases hji : j = i
    · subst hji
      simp [hf]
    · simp [hji]

/-- A node with a host copy if it is on the GPU. -/
def copied (n : TieredTrieNode) : TieredTrieNode := { n with cpu := n.cpu || n.gpu }

theorem prepareNode_spec (n : ℕ) (hi : i ∈ s.nodesById.erase 0) :
    Moves s (prepareNode (s,n) i).1 ∧
      (prepareNode (s,n) i).1.heap = (s.edit i copied).heap := by
  unfold prepareNode
  by_cases hcopy : (s.heap i).gpu = true ∧ (s.heap i).cpu = false
  · rw [if_pos hcopy]
    refine ⟨⟨SameLinks.hostCopy s i,rfl,fun j => ?_,rfl,fun hc => hc.hostCopy hi hcopy.2⟩,funext fun j => ?_⟩
    · change (if j = i then { s.heap j with cpu := true } else s.heap j).lockedByRequestIds = _
      split_ifs <;> rfl
    · change (if j = i then { s.heap j with cpu := true } else s.heap j) =
        if j = i then copied (s.heap j) else s.heap j
      split_ifs with hj
      · have hboth : ((s.heap i).cpu || (s.heap i).gpu) = true := by rw [hcopy.1,Bool.or_true]
        rw [hj,copied,hboth]
      · rfl
  · rw [if_neg hcopy]
    refine ⟨Moves.refl s,funext fun j => ?_⟩
    change s.heap j = if j = i then copied (s.heap j) else s.heap j
    split_ifs with hj
    · have hsame : ((s.heap i).cpu || (s.heap i).gpu) = (s.heap i).cpu := by
        cases hc : (s.heap i).cpu <;> cases hg : (s.heap i).gpu <;> simp_all
      rw [hj,copied,hsame]
    · rfl

/-- A node that has left the GPU for the host. -/
def settled (n : TieredTrieNode) : TieredTrieNode := { copied n with gpu := false }

theorem commitNode_spec (acc : ℕ × ℕ) (hi : i ∈ s.nodesById.erase 0) :
    Moves s (commitNode (s,acc) i).1 ∧
      (commitNode (s,acc) i).1.heap = (s.edit i settled).heap := by
  obtain ⟨hone,hheap⟩ := prepareNode_spec (s := s) acc.1 hi
  have hat (j : ℕ) : (prepareNode (s,acc.1) i).1.heap j =
      if j = i then copied (s.heap j) else s.heap j := congrFun hheap j
  have hi' : i ∈ (prepareNode (s,acc.1) i).1.nodesById.erase 0 := by
    rw [hone.index]
    exact hi
  unfold commitNode
  dsimp only
  by_cases hgpu : ((prepareNode (s,acc.1) i).1.heap i).gpu = true
  · rw [if_pos hgpu]
    refine ⟨hone.trans ⟨SameLinks.leaveGpu _ i,rfl,fun j => ?_,rfl,fun hc => hc.leaveGpu hi' hgpu⟩,
      funext fun j => ?_⟩
    · change (if j = i then { (prepareNode (s,acc.1) i).1.heap j with gpu := false }
        else (prepareNode (s,acc.1) i).1.heap j).lockedByRequestIds = _
      split_ifs <;> rfl
    · change (if j = i then { (prepareNode (s,acc.1) i).1.heap j with gpu := false }
        else (prepareNode (s,acc.1) i).1.heap j) = if j = i then settled (s.heap j) else s.heap j
      rw [hat]
      split_ifs <;> rfl
  · rw [if_neg hgpu]
    refine ⟨hone,funext fun j => ?_⟩
    change (prepareNode (s,acc.1) i).1.heap j = if j = i then settled (s.heap j) else s.heap j
    rw [hat]
    split_ifs with hj
    · rw [hat,if_pos rfl] at hgpu
      have hoff : (copied (s.heap i)).gpu = false := by simpa using hgpu
      rw [hj,settled,← hoff]
    · rfl

/-- A subtree gets its host copies. -/
theorem Sound.prepare (hs : s.Sound) {nodes : List ℕ} (hmem : ∀ i ∈ nodes, i ∈ s.nodesById.erase 0) :
    (nodes.foldl prepareNode (s,0)).1.Sound := by
  obtain ⟨hmoves,hheap⟩ := foldl_moves (s := s) (f := copied)
    (fun n => by simp only [copied,Bool.or_assoc,Bool.or_self])
    (fun s n i hi => prepareNode_spec n hi) nodes 0 hmem
  have hgpu (j : ℕ) : ((nodes.foldl prepareNode (s,0)).1.heap j).gpu = (s.heap j).gpu := by
    rw [hheap]
    change (if j ∈ nodes then copied (s.heap j) else s.heap j).gpu = _
    split_ifs <;> rfl
  have hcpu (j : ℕ) (hj : (s.heap j).cpu = true) :
      ((nodes.foldl prepareNode (s,0)).1.heap j).cpu = true := by
    rw [hheap]
    change (if j ∈ nodes then copied (s.heap j) else s.heap j).cpu = true
    split_ifs
    · simp [copied,hj]
    · exact hj
  refine hmoves.sound hs ⟨(hgpu 0).trans hs.tiered.root,fun j hj hne hbare => ?_,?_,?_⟩
  · rw [hmoves.index] at hj
    rw [hgpu]
    exact (hs.tiered.tier j hj hne hbare).imp id (hcpu j)
  · simp only [hmoves.index,hgpu,hmoves.child]
    exact hs.tiered.closed
  · simp only [hmoves.index,hgpu,hmoves.locks]
    exact hs.tiered.locked

/-- A subtree without locks leaves the GPU. -/
theorem Sound.commit (hs : s.Sound) {nodes : List ℕ} (hmem : ∀ i ∈ nodes, i ∈ s.nodesById.erase 0)
    (hdown : ∀ i ∈ nodes, ∀ x c, s.Child i x c → c ∈ nodes)
    (hfree : ∀ i ∈ nodes, (s.heap i).lockedByRequestIds = ∅) :
    (nodes.foldl commitNode (s,0,0)).1.Sound := by
  obtain ⟨hmoves,hheap⟩ := foldl_moves (s := s) (f := settled)
    (fun n => by simp [settled,copied]) (fun s acc i hi => commitNode_spec acc hi) nodes (0,0) hmem
  have hat (j : ℕ) : (nodes.foldl commitNode (s,0,0)).1.heap j =
      if j ∈ nodes then settled (s.heap j) else s.heap j := congrFun hheap j
  have hzero : 0 ∉ nodes := fun h => (Finset.mem_erase.mp (hmem 0 h)).1 rfl
  refine hmoves.sound hs ⟨?_,fun j hj hne hbare => ?_,fun j hj x c hx hgpu => ?_,fun j hj hne hlock => ?_⟩
  · rw [hat,if_neg hzero]
    exact hs.tiered.root
  · rw [hmoves.index] at hj
    have htier := hs.tiered.tier j hj hne hbare
    rw [hat]
    split_ifs
    · right
      rcases htier with hg | hc
      · simp [settled,copied,hg]
      · simp [settled,copied,hc]
    · exact htier
  · rw [hmoves.index] at hj
    have hx' := hmoves.child.mp hx
    rw [hat] at hgpu ⊢
    split_ifs at hgpu with hc
    · simp [settled] at hgpu
    · rw [if_neg fun hjn => hc (hdown j hjn x c hx')]
      exact hs.tiered.closed j hj x c hx' hgpu
  · rw [hmoves.index] at hj
    rw [hmoves.locks] at hlock
    rw [hat,if_neg fun hjn => hlock (hfree j hjn)]
    exact hs.tiered.locked j hj hne hlock

/-! ## Removal -/

section Detach
variable {r p : ℕ}

theorem heap_detach (j : ℕ) : (s.detach r p x).heap j =
    if j = p then { s.heap j with children := (s.heap j).children.erase x } else s.heap j := rfl

/-- Removal touches no field but the children of the parent. -/
theorem detach_frame (j : ℕ) : ((s.detach r p x).heap j).symbol = (s.heap j).symbol ∧
    ((s.detach r p x).heap j).parent = (s.heap j).parent ∧
    ((s.detach r p x).heap j).gpu = (s.heap j).gpu ∧ ((s.detach r p x).heap j).cpu = (s.heap j).cpu ∧
    ((s.detach r p x).heap j).lockedByRequestIds = (s.heap j).lockedByRequestIds := by
  rw [heap_detach]
  split_ifs <;> exact ⟨rfl,rfl,rfl,rfl,rfl⟩

theorem child_detach {j : ℕ} {y : ℤ} :
    (s.detach r p x).Child j y c ↔ ¬ (j = p ∧ y = x) ∧ s.Child j y c := by
  unfold Child
  rw [heap_detach]
  by_cases hj : j = p
  · rw [if_pos hj]
    dsimp only
    rw [Dict.get_erase]
    by_cases hy : x = y
    · simp [hj,hy]
    · simp [hj,hy,Ne.symm hy]
  · rw [if_neg hj]
    simp [hj]

theorem mem_detach {j : ℕ} : j ∈ (s.detach r p x).nodesById ↔
    j ∈ s.nodesById ∧ j ∉ s.subtreeNodes r := by
  change j ∈ s.nodesById \ (s.subtreeNodes r).toFinset ↔ _
  rw [Finset.mem_sdiff,List.mem_toFinset]

variable (hl : s.Linked) (hp : p ∈ s.nodesById) (hx : s.Child p x r)
include hl hp hx

theorem Linked.detach : (s.detach r p x).Linked := by
  obtain ⟨hr,hpar,hsym,hlt⟩ := hl.child p hp x r hx
  obtain ⟨-,hmem,hroot,hdown,horigin⟩ := hl.subtree hr
  have hge := hl.subtree_ge hr
  refine ⟨mem_detach.mpr ⟨hl.root,fun h => ?_⟩,(detach_frame 0).2.1.trans hl.top,
    fun j hj => hl.below j (mem_detach.mp hj).1,fun j hj y c hc => ?_,fun c hc => ?_⟩
  · have := hge 0 h
    omega
  · obtain ⟨hj,hjn⟩ := mem_detach.mp hj
    obtain ⟨hkept,hc⟩ := child_detach.mp hc
    obtain ⟨hcmem,hcpar,hcsym,hdeep⟩ := hl.child j hj y c hc
    rw [mem_detach,(detach_frame c).1,(detach_frame c).2.1]
    refine ⟨⟨hcmem,fun hcn => ?_⟩,hcpar,hcsym,hdeep⟩
    rcases horigin c hcn with rfl | ⟨i,hi,z,hz⟩
    · rw [hpar] at hcpar
      rw [hsym] at hcsym
      exact hkept ⟨(Option.some.inj hcpar).symm,(Option.some.inj hcsym).symm⟩
    · have hipar := (hl.child i (hmem i hi) z c hz).2.1
      rw [hcpar] at hipar
      exact hjn (Option.some.inj hipar ▸ hi)
  · obtain ⟨hc,hcn⟩ := mem_detach.mp hc
    rcases hl.parent c hc with hzero | ⟨i,hi,y,hy⟩
    · exact .inl hzero
    · refine .inr ⟨i,mem_detach.mpr ⟨hi,fun hin => hcn (hdown i hin y c hy)⟩,y,child_detach.mpr ⟨?_,hy⟩⟩
      rintro ⟨rfl,rfl⟩
      have hsame : c = r := Option.some.inj (hy.symm.trans hx)
      exact hcn (hsame ▸ hroot)

omit hp hx in
theorem Counted.detach (hc : s.Counted) (hr : r ∈ s.nodesById) (hne : r ≠ 0) :
    (s.detach r p x).Counted := by
  obtain ⟨hnodup,-⟩ := hl.subtree hr
  have hpos := hl.subtree_pos hr hne
  have herase : (s.detach r p x).nodesById.erase 0 =
      s.nodesById.erase 0 \ (s.subtreeNodes r).toFinset := by
    ext j
    simp only [Finset.mem_erase,Finset.mem_sdiff,mem_detach,List.mem_toFinset]
    tauto
  have hsub : (s.subtreeNodes r).toFinset ⊆ s.nodesById.erase 0 :=
    fun j hj => hpos j (List.mem_toFinset.mp hj)
  -- what is counted below the root falls by what is counted in the subtree
  have hcount (f : TieredTrieNode → Bool) (hf : ∀ j, f ((s.detach r p x).heap j) = f (s.heap j)) :
      (((s.detach r p x).having f).card : ℤ) =
        (s.having f).card - ((s.subtreeNodes r).countP fun i => f (s.heap i) : ℕ) := by
    have hhave : (s.detach r p x).having f =
        s.having f \ ((s.subtreeNodes r).filter fun i => f (s.heap i)).toFinset := by
      ext j
      unfold having
      rw [herase]
      simp only [Finset.mem_filter,Finset.mem_sdiff,List.mem_toFinset,List.mem_filter,hf]
      tauto
    have hle : ((s.subtreeNodes r).filter fun i => f (s.heap i)).toFinset ⊆ s.having f := by
      intro j hj
      rw [List.mem_toFinset,List.mem_filter] at hj
      exact mem_having.mpr ⟨hpos j hj.1,hj.2⟩
    have hlen : ((s.subtreeNodes r).filter fun i => f (s.heap i)).toFinset.card =
        (s.subtreeNodes r).countP fun i => f (s.heap i) := by
      rw [List.toFinset_card_of_nodup (hnodup.filter _),List.countP_eq_length_filter]
    have hcard := Finset.card_le_card hle
    rw [hhave,Finset.card_sdiff_of_subset hle,hlen]
    rw [hlen] at hcard
    omega
  refine ⟨?_,?_,?_⟩
  · change s.uniqueTokens - (s.subtreeNodes r).length = _
    have hcard := Finset.card_le_card hsub
    rw [herase,Finset.card_sdiff_of_subset hsub,List.toFinset_card_of_nodup hnodup,hc.unique]
    rw [List.toFinset_card_of_nodup hnodup] at hcard
    omega
  · rw [hcount TieredTrieNode.gpu fun j => (detach_frame j).2.2.1,← hc.gpu]
    rfl
  · rw [hcount TieredTrieNode.cpu fun j => (detach_frame j).2.2.2.1,← hc.cpu]
    rfl

theorem Sound.detach (hs : s.Sound)
    (hfree : ∀ i ∈ s.subtreeNodes r, (s.heap i).lockedByRequestIds = ∅) : (s.detach r p x).Sound := by
  obtain ⟨hr,-,-,hlt⟩ := hl.child p hp x r hx
  obtain ⟨-,hmem,hroot,-,-⟩ := hl.subtree hr
  have hne : r ≠ 0 := by omega
  have htrail (ids : List ℕ) : ∀ i, (∀ c ∈ ids, c ∉ s.subtreeNodes r) → s.Trail i ids →
      (s.detach r p x).Trail i ids := by
    induction ids with
    | nil => exact fun _ _ _ => trivial
    | cons c ids ih =>
      rintro i hout ⟨⟨y,hy⟩,hrest⟩
      refine ⟨⟨y,child_detach.mpr ⟨?_,hy⟩⟩,ih c (fun d hd => hout d (by simp [hd])) hrest⟩
      rintro ⟨rfl,rfl⟩
      have hsame : c = r := Option.some.inj (hy.symm.trans hx)
      exact hout c (by simp) (hsame ▸ hroot)
  refine ⟨hs.quiet,hl.detach hp hx,⟨?_,?_,?_,?_⟩,hs.counted.detach hl hr hne,⟨fun q ids hq => ?_,?_⟩⟩
  · rw [(detach_frame 0).2.2.1]
    exact hs.tiered.root
  · intro j hj hjne hbare
    rw [(detach_frame j).2.2.1,(detach_frame j).2.2.2.1]
    exact hs.tiered.tier j (mem_detach.mp hj).1 hjne hbare
  · intro j hj y c hc hgpu
    rw [(detach_frame c).2.2.1] at hgpu
    rw [(detach_frame j).2.2.1]
    exact hs.tiered.closed j (mem_detach.mp hj).1 y c (child_detach.mp hc).2 hgpu
  · intro j hj hjne hlock
    rw [(detach_frame j).2.2.2.2] at hlock
    rw [(detach_frame j).2.2.1]
    exact hs.tiered.locked j (mem_detach.mp hj).1 hjne hlock
  · refine htrail ids 0 (fun c hc hcn => ?_) (hs.held.trail q ids hq)
    have hcarry := (hs.held.carried q c (hmem c hcn)).mpr ⟨ids,hq,hc⟩
    rw [hfree c hcn] at hcarry
    exact Finset.notMem_empty q hcarry
  · intro q j hj
    rw [(detach_frame j).2.2.2.2]
    exact hs.held.carried q j (mem_detach.mp hj).1

end Detach

end BeliefKV.TieredTokenRadix
