import BeliefKV.Radix.Eviction

/-! The estimate of what some paths need comes true when the paths are grown. -/
namespace BeliefKV.TieredTokenRadix
open Call
variable {s t u : TieredTokenRadix} {e : Estimate} {i c : ℕ} {v : ℤ}

/-! ## Virtual nodes -/

/-- The node that a real or virtual id stands for. Virtual nodes get the next ids in their order. -/
def realNode (s : TieredTokenRadix) (v : ℤ) : ℕ := if v < 0 then s.nextNodeId + (-1 - v).toNat else v.toNat

/-- The id is that of a node or was given to a virtual one. -/
def Estimate.Known (s : TieredTokenRadix) (e : Estimate) (v : ℤ) : Prop :=
  (0 ≤ v ∧ v.toNat ∈ s.nodesById) ∨ (e.nextVirtualId < v ∧ v < 0)

/-- The child of a node in a radix with the virtual nodes of an estimate. -/
def foreseenChild (s : TieredTokenRadix) (e : Estimate) (v x : ℤ) : Option ℤ :=
  match if v < 0 then none else (s.heap v.toNat).children[x]? with
  | some child => some child
  | none => e.virtualEdges[(v,x)]?

/-- A radix in which the virtual nodes of an estimate have been made. -/
structure Foresees (s : TieredTokenRadix) (e : Estimate) (u : TieredTokenRadix) : Prop where
  made : (e.virtualEdges.size : ℤ) = -1 - e.nextVirtualId
  next : u.nextNodeId = s.nextNodeId + e.virtualEdges.size
  edge : ∀ p x v : ℤ, e.virtualEdges[(p,x)]? = some v → e.Known s p ∧ e.nextVirtualId < v ∧ v < 0
  child : ∀ v, e.Known s v → ∀ x, (u.heap (s.realNode v)).children[x]? = (s.foreseenChild e v x).map s.realNode
  gpu : ∀ i ∈ s.nodesById, (u.heap i).gpu = ((s.heap i).gpu || decide (i ∈ e.missingExisting))
  virtual : ∀ v, e.nextVirtualId < v → v < 0 → (u.heap (s.realNode v)).gpu = true
  missing : ∀ i ∈ e.missingExisting, i ∈ s.nodesById ∧ (s.heap i).gpu = false
  tokens : u.gpuTokens = s.gpuTokens + e.tokens
  symbol : ∀ i ∈ s.nodesById, (u.heap i).symbol = (s.heap i).symbol
  index : s.nodesById ⊆ u.nodesById

theorem realNode_natCast (i : ℕ) : s.realNode i = i := by
  unfold realNode
  rw [if_neg (by omega),Int.toNat_natCast]

theorem realNode_virtual (h : v < 0) : s.realNode v = s.nextNodeId + (-1 - v).toNat := if_pos h

theorem Estimate.Known.cases (h : e.Known s v) :
    (∃ i ∈ s.nodesById, v = i) ∨ (e.nextVirtualId < v ∧ v < 0) := by
  refine h.imp_left fun ⟨hnonneg,hmem⟩ => ⟨v.toNat,hmem,?_⟩
  omega

theorem Foresees.start : Foresees s {} s := by
  have hnone : ∀ p x : ℤ, (∅ : Dict (ℤ × ℤ) ℤ)[(p,x)]? = none := fun p x => Std.ExtTreeMap.getElem?_empty
  refine ⟨rfl,rfl,fun p x v h => ?_,fun v hv x => ?_,fun i _ => ?_,fun v h h' => ?_,fun i hi => ?_,?_,
    fun _ _ => rfl,Finset.Subset.refl _⟩
  · rw [hnone] at h
    cases h
  · obtain ⟨i,hi,rfl⟩ | ⟨h,h'⟩ := hv.cases
    · rw [realNode_natCast]
      unfold foreseenChild
      rw [if_neg (by omega),Int.toNat_natCast]
      cases hc : (s.heap i).children[x]? with
      | none =>
        simp only
        rw [hnone]
        rfl
      | some c => exact congrArg some (realNode_natCast c).symm
    · change -1 < v at h
      omega
  · exact (Bool.or_false _).symm
  · change -1 < v at h
    omega
  · exact absurd hi (Finset.notMem_empty i)
  · exact (Int.add_zero _).symm

/-- What the growing of a lock leaves of a radix. -/
structure SameGrowth (t u : TieredTokenRadix) : Prop where
  next : u.nextNodeId = t.nextNodeId
  children : ∀ i, (u.heap i).children = (t.heap i).children
  gpu : ∀ i, (u.heap i).gpu = (t.heap i).gpu
  symbol : ∀ i, (u.heap i).symbol = (t.heap i).symbol
  tokens : u.gpuTokens = t.gpuTokens
  index : u.nodesById = t.nodesById

theorem Foresees.same (h : Foresees s e t) (hsame : SameGrowth t u) : Foresees s e u := by
  refine ⟨h.made,hsame.next.trans h.next,h.edge,fun v hv x => ?_,fun i hi => ?_,fun v hv hv' => ?_,h.missing,
    hsame.tokens.trans h.tokens,fun i hi => ?_,?_⟩
  · rw [hsame.children]
    exact h.child v hv x
  · rw [hsame.gpu]
    exact h.gpu i hi
  · rw [hsame.gpu]
    exact h.virtual v hv hv'
  · rw [hsame.symbol]
    exact h.symbol i hi
  · rw [hsame.index]
    exact h.index

theorem sameGrowth_lockNode (request : Option String) (i : ℕ) : SameGrowth t (t.lockNode request i) := by
  cases request with
  | none => exact ⟨rfl,fun _ => rfl,fun _ => rfl,fun _ => rfl,rfl,rfl⟩
  | some r =>
    have hheap : ∀ j, (t.lockNode (some r) i).heap j = if j = i then
        { t.heap j with lockedByRequestIds := insert r (t.heap j).lockedByRequestIds } else t.heap j := fun _ => rfl
    refine ⟨rfl,fun j => ?_,fun j => ?_,fun j => ?_,rfl,rfl⟩
    · rw [hheap]
      split_ifs
      · rfl
      · rfl
    · rw [hheap]
      split_ifs
      · rfl
      · rfl
    · rw [hheap]
      split_ifs
      · rfl
      · rfl

theorem SameCore.sameGrowth (h : SameCore t u) : SameGrowth t u := by
  obtain ⟨-,htokens⟩ := Prod.mk.inj h.counters
  exact ⟨h.next,h.children,h.gpu,h.symbol,(Prod.mk.inj htokens).1,h.index⟩

/-! ## One symbol -/

/-- A node of the tree enters the GPU. -/
theorem Foresees.enterGpu (h : Foresees s e u) (hc : c ∈ s.nodesById) (hoff : (u.heap c).gpu = false) :
    Foresees s { e with missingExisting := insert c e.missingExisting } (u.enterGpu c) := by
  have hgpu := h.gpu c hc
  rw [hoff] at hgpu
  obtain ⟨hsgpu,hnew⟩ := Bool.or_eq_false_iff.mp hgpu.symm
  have hfresh : c ∉ e.missingExisting := of_decide_eq_false hnew
  have hlinks := SameLinks.enterGpu u c
  refine ⟨h.made,h.next,h.edge,fun v hv x => ?_,fun i hi => ?_,fun v hv hv' => ?_,fun i hi => ?_,?_,fun i hi => ?_,?_⟩
  · rw [hlinks.children]
    exact h.child v hv x
  · by_cases hic : i = c
    · subst hic
      have hon : ((u.enterGpu i).heap i).gpu = true := (gpu_enterGpu i).mpr (.inl rfl)
      rw [hon]
      simp
    · rw [enterGpu_other hic,h.gpu i hi]
      simp [hic]
  · exact (gpu_enterGpu _).mpr (.inr (h.virtual v hv hv'))
  · obtain rfl | hi := Finset.mem_insert.mp hi
    · exact ⟨hc,hsgpu⟩
    · exact h.missing i hi
  · change u.gpuTokens + 1 = _
    rw [h.tokens]
    unfold Estimate.tokens
    rw [Finset.card_insert_of_notMem hfresh]
    push_cast
    omega
  · rw [hlinks.symbol]
    exact h.symbol i hi
  · exact h.index

theorem Foresees.realNode_lt (hl : s.Linked) (h : Foresees s e u) (hv : e.Known s v) :
    s.realNode v < u.nextNodeId := by
  have hmade := h.made
  have hnext := h.next
  obtain ⟨i,hi,rfl⟩ | ⟨hlow,hneg⟩ := hv.cases
  · rw [realNode_natCast]
    have hbelow := hl.below i hi
    omega
  · rw [realNode_virtual hneg]
    omega

theorem Linked.realNode_inj (hl : s.Linked) {w : ℤ} (hv : e.Known s v) (hw : e.Known s w)
    (heq : s.realNode w = s.realNode v) : w = v := by
  obtain ⟨i,hi,rfl⟩ | ⟨-,hneg⟩ := hv.cases
  · have hbelow := hl.below i hi
    rw [realNode_natCast] at heq
    obtain ⟨j,hj,rfl⟩ | ⟨-,hwneg⟩ := hw.cases
    · rw [realNode_natCast] at heq
      rw [heq]
    · rw [realNode_virtual hwneg] at heq
      omega
  · rw [realNode_virtual hneg] at heq
    obtain ⟨j,hj,rfl⟩ | ⟨-,hwneg⟩ := hw.cases
    · have hbelow := hl.below j hj
      rw [realNode_natCast] at heq
      omega
    · rw [realNode_virtual hwneg] at heq
      omega

/-- The virtual node that a path needs next. -/
def Estimate.sprout (e : Estimate) (v x : ℤ) : Estimate :=
  { e with virtualEdges := e.virtualEdges.insert (v,x) e.nextVirtualId, nextVirtualId := e.nextVirtualId - 1 }

theorem Estimate.known_sprout {x w : ℤ} (hmade : (e.virtualEdges.size : ℤ) = -1 - e.nextVirtualId) :
    (e.sprout v x).Known s w ↔ e.Known s w ∨ w = e.nextVirtualId := by
  unfold Estimate.Known
  change (_ ∨ e.nextVirtualId - 1 < w ∧ w < 0) ↔ _
  constructor
  · rintro (h | ⟨hlow,hneg⟩)
    · exact .inl (.inl h)
    · by_cases heq : w = e.nextVirtualId
      · exact .inr heq
      · exact .inl (.inr ⟨by omega,hneg⟩)
  · rintro ((h | ⟨hlow,hneg⟩) | rfl)
    · exact .inl h
    · exact .inr ⟨by omega,hneg⟩
    · exact .inr ⟨by omega,by omega⟩

theorem foreseenChild_eq_none {x : ℤ} (h : s.foreseenChild e v x = none) :
    (if v < 0 then none else (s.heap v.toNat).children[x]?) = none ∧ e.virtualEdges[(v,x)]? = none := by
  unfold foreseenChild at h
  cases hc : (if v < 0 then none else (s.heap v.toNat).children[x]?) with
  | none =>
    rw [hc] at h
    exact ⟨rfl,h⟩
  | some c =>
    rw [hc] at h
    cases h

/-- A virtual node is made. -/
theorem Foresees.sprout (hl : s.Linked) (h : Foresees s e u) {x : ℤ} (hv : e.Known s v)
    (hnone : s.foreseenChild e v x = none) :
    Foresees s (e.sprout v x) ((u.sprout (s.realNode v) x).enterGpu u.nextNodeId) := by
  have hmade := h.made
  have hnext := h.next
  have hlt := h.realNode_lt hl hv
  obtain ⟨hreal,hedge⟩ := foreseenChild_eq_none hnone
  have hnew : s.realNode e.nextVirtualId = u.nextNodeId := by
    rw [realNode_virtual (by omega)]
    omega
  have hleaf : (u.heap (s.realNode v)).children[x]? = none := by
    rw [h.child v hv x,hnone]
    rfl
  have hstranger : ¬ e.Known s e.nextVirtualId := by
    rintro (⟨hpos,-⟩ | ⟨hlow,-⟩)
    · omega
    · exact lt_irrefl _ hlow
  have hvne : v ≠ e.nextVirtualId := fun heq => hstranger (heq ▸ hv)
  have hlinks := SameLinks.enterGpu (u.sprout (s.realNode v) x) u.nextNodeId
  have hsize : (e.sprout v x).virtualEdges.size = e.virtualEdges.size + 1 := by
    change (e.virtualEdges.insert (v,x) e.nextVirtualId).size = _
    rw [Std.ExtTreeMap.size_insert,if_neg fun hc =>
      (Dict.notMem_iff_get _ _).mpr hedge (Std.ExtTreeMap.mem_iff_contains.mpr hc)]
  have hget (p y : ℤ) : (e.sprout v x).virtualEdges[(p,y)]? =
      if (v,x) = (p,y) then some e.nextVirtualId else e.virtualEdges[(p,y)]? := Dict.get_insert _ _ _ _
  have hold (i : ℕ) (hi : i ∈ s.nodesById) : i ≠ u.nextNodeId := by
    have hbelow := hl.below i hi
    omega
  refine ⟨?_,?_,fun p y w hw => ?_,fun w hw y => ?_,fun i hi => ?_,fun w hw hw' => ?_,h.missing,?_,fun i hi => ?_,
    fun i hi => Finset.mem_insert_of_mem (h.index hi)⟩
  · rw [hsize]
    change ((e.virtualEdges.size + 1 : ℕ) : ℤ) = -1 - (e.nextVirtualId - 1)
    push_cast
    omega
  · rw [hsize]
    change u.nextNodeId + 1 = _
    omega
  · rw [hget] at hw
    change _ ∧ e.nextVirtualId - 1 < w ∧ w < 0
    by_cases heq : (v,x) = (p,y)
    · rw [if_pos heq] at hw
      cases hw
      cases heq
      exact ⟨(Estimate.known_sprout hmade).mpr (.inl hv),by omega,by omega⟩
    · rw [if_neg heq] at hw
      obtain ⟨hp,hlow,hneg⟩ := h.edge p y w hw
      exact ⟨(Estimate.known_sprout hmade).mpr (.inl hp),by omega,hneg⟩
  · rw [hlinks.children]
    unfold foreseenChild
    rw [hget]
    obtain hknown | rfl := (Estimate.known_sprout hmade).mp hw
    · have hne : s.realNode w ≠ u.nextNodeId := (h.realNode_lt hl hknown).ne
      by_cases hwv : w = v
      · subst hwv
        rw [heap_sprout_node hlt]
        change ((u.heap (s.realNode w)).children.insert x u.nextNodeId)[y]? = _
        rw [Dict.get_insert]
        by_cases hxy : x = y
        · subst hxy
          rw [if_pos rfl,if_pos rfl,hreal]
          exact congrArg some hnew.symm
        · rw [if_neg hxy,if_neg fun heq => hxy (Prod.mk.inj heq).2,h.child w hknown y]
          rfl
      · have hother : s.realNode w ≠ s.realNode v := fun heq => hwv (hl.realNode_inj hv hknown heq)
        rw [heap_sprout_other hother hne,if_neg fun heq => hwv (Prod.mk.inj heq).1.symm,h.child w hknown y]
        rfl
    · have hnothing : e.virtualEdges[(e.nextVirtualId,y)]? = none := by
        by_contra hsome
        obtain ⟨w,hw⟩ := Option.ne_none_iff_exists'.mp hsome
        exact hstranger (h.edge _ _ _ hw).1
      rw [hnew,heap_sprout_new hlt,if_pos (by omega),if_neg fun heq => hvne (Prod.mk.inj heq).1,hnothing]
      exact Std.ExtTreeMap.getElem?_empty
  · rw [enterGpu_other (hold i hi),(sprout_old hlt (hold i hi)).2.2.1]
    exact h.gpu i hi
  · change e.nextVirtualId - 1 < w at hw
    refine (gpu_enterGpu _).mpr ?_
    by_cases heq : w = e.nextVirtualId
    · rw [heq]
      exact .inl hnew
    · have hlow : e.nextVirtualId < w := by omega
      refine .inr ?_
      rw [(sprout_old hlt (h.realNode_lt hl (.inr ⟨hlow,hw'⟩)).ne).2.2.1]
      exact h.virtual w hlow hw'
  · change u.gpuTokens + 1 = s.gpuTokens + ((e.missingExisting.card + (e.sprout v x).virtualEdges.size : ℕ) : ℤ)
    rw [h.tokens,hsize]
    unfold Estimate.tokens
    push_cast
    omega
  · rw [hlinks.symbol,(sprout_old hlt (hold i hi)).1]
    exact h.symbol i hi

/-! ## Paths -/

/-- The path of an estimate is grown as it was foreseen. -/
theorem Foresees.grow (hl : s.Linked) {request : Option String} {message : String} (path : List ℤ) :
    ∀ {e : Estimate} {u t : TieredTokenRadix} {v : ℤ} {acc growth : Growth}, Foresees s e u → e.Known s v →
      growPath request message u (s.realNode v) acc path = (t,.ok growth) →
        Foresees s (s.estimatePath e v path) t := by
  induction path with
  | nil =>
    intro e u t v acc growth hu _ h
    cases h
    exact hu
  | cons x path ih =>
    intro e u t v acc growth hu hv h
    have hchild := hu.child v hv x
    rw [growPath] at h
    rw [estimatePath]
    unfold foreseenChild at hchild
    cases hreal : (if v < 0 then none else (s.heap v.toNat).children[x]?) with
    | some c =>
      rw [hreal] at hchild
      simp only [Option.map_some,realNode_natCast] at hchild ⊢
      have hfound : u.childOrNew (s.realNode v) x = (u,c) := by
        unfold childOrNew
        rw [hchild]
      have hc : c ∈ s.nodesById := by
        obtain ⟨i,hi,rfl⟩ | ⟨-,hneg⟩ := hv.cases
        · rw [if_neg (by omega),Int.toNat_natCast] at hreal
          exact (hl.child i hi x c hreal).1
        · rw [if_pos hneg] at hreal
          cases hreal
      have hknown : ∀ {e : Estimate}, e.Known s c := .inl ⟨Int.natCast_nonneg c,by rwa [Int.toNat_natCast]⟩
      rw [hfound] at h
      simp only at h
      have hgpu := hu.gpu c hc
      by_cases hon : (u.heap c).gpu = true
      · rw [if_pos hon] at h
        -- the node is on the GPU, or has been foreseen to be
        have hkeep : (if (s.heap c).gpu = true then e else
            { e with missingExisting := insert c e.missingExisting }) = e := by
          by_cases hs : (s.heap c).gpu = true
          · exact if_pos hs
          · rw [hon] at hgpu
            have hmem : c ∈ e.missingExisting := by simpa [hs] using hgpu
            rw [if_neg hs,Finset.insert_eq_self.mpr hmem]
        rw [hkeep]
        exact ih (hu.same (sameGrowth_lockNode request c)) hknown (by rwa [realNode_natCast])
      · rw [if_neg hon] at h
        have hoff : (u.heap c).gpu = false := by simpa using hon
        rw [hoff] at hgpu
        have hs : (s.heap c).gpu = false := (Bool.or_eq_false_iff.mp hgpu.symm).1
        by_cases hraise : (u.heap (s.realNode v)).gpu = false
        · rw [if_pos hraise] at h
          cases h
        · rw [if_neg hraise] at h
          rw [if_neg (by simp [hs])]
          exact ih ((hu.enterGpu hc hoff).same (sameGrowth_lockNode request c)) hknown (by rwa [realNode_natCast])
    | none =>
      rw [hreal] at hchild
      simp only at hchild ⊢
      cases hedge : e.virtualEdges[(v,x)]? with
      | some w =>
        rw [hedge] at hchild
        obtain ⟨-,hlow,hneg⟩ := hu.edge v x w hedge
        have hfound : u.childOrNew (s.realNode v) x = (u,s.realNode w) := by
          unfold childOrNew
          rw [hchild]
          rfl
        rw [hfound] at h
        simp only at h ⊢
        rw [if_pos (hu.virtual w hlow hneg)] at h
        exact ih (hu.same (sameGrowth_lockNode request _)) (.inr ⟨hlow,hneg⟩) h
      | none =>
        rw [hedge] at hchild
        have hlt := hu.realNode_lt hl hv
        have hmade := hu.made
        have hnext := hu.next
        have hfound : u.childOrNew (s.realNode v) x = (u.sprout (s.realNode v) x,u.nextNodeId) := by
          unfold childOrNew
          rw [hchild]
          rfl
        have hnew : s.realNode e.nextVirtualId = u.nextNodeId := by
          rw [realNode_virtual (by omega)]
          omega
        have hnone : s.foreseenChild e v x = none := by
          unfold foreseenChild
          rw [hreal]
          exact hedge
        rw [hfound] at h
        simp only at h ⊢
        rw [heap_sprout_new hlt,if_neg Bool.false_ne_true] at h
        by_cases hraise : ((u.sprout (s.realNode v) x).heap (s.realNode v)).gpu = false
        · rw [if_pos hraise] at h
          cases h
        · rw [if_neg hraise] at h
          have hsprout := (hu.sprout hl hv hnone).same (sameGrowth_lockNode request u.nextNodeId)
          rw [← hnew] at h hsprout
          exact ih hsprout ((Estimate.known_sprout hmade).mpr (.inr rfl)) h

/-- The lock of the request grows, and the other ones stay. -/
theorem growPath_locks {requestId : String} {message : String} (path : List ℤ) :
    ∀ {s t : TieredTokenRadix} {node : ℕ} {acc growth : Growth} {ids : List ℕ},
      s.requestLocks[requestId]? = some ids → growPath (some requestId) message s node acc path = (t,.ok growth) →
        (∃ more, t.requestLocks[requestId]? = some (ids ++ more)) ∧
          ∀ r ≠ requestId, t.requestLocks[r]? = s.requestLocks[r]? := by
  induction path with
  | nil =>
    intro s t node acc growth ids hids h
    cases h
    exact ⟨⟨[],by rw [List.append_nil,hids]⟩,fun _ _ => rfl⟩
  | cons x path ih =>
    intro s t node acc growth ids hids h
    have hchild : (s.childOrNew node x).1.requestLocks = s.requestLocks := by
      unfold childOrNew
      cases (s.heap node).children[x]? with
      | none => rfl
      | some c => rfl
    rw [growPath] at h
    generalize (s.childOrNew node x).1 = s' at hchild h
    generalize (s.childOrNew node x).2 = c at h
    have hgo (u : TieredTokenRadix) (hu : u.requestLocks = s.requestLocks) (acc : Growth)
        (h : growPath (some requestId) message (u.lockNode (some requestId) c) c acc path = (t,.ok growth)) :
        (∃ more, t.requestLocks[requestId]? = some (ids ++ more)) ∧
          ∀ r ≠ requestId, t.requestLocks[r]? = s.requestLocks[r]? := by
      have hlock : (u.lockNode (some requestId) c).requestLocks =
        u.requestLocks.insert requestId (u.requestLocks[requestId]?.getD [] ++ [c]) := rfl
      obtain ⟨⟨more,hmore⟩,hother⟩ := ih (lockNode_get (hu ▸ hids) c) h
      refine ⟨⟨c :: more,?_⟩,fun r hr => ?_⟩
      · rw [hmore,List.append_assoc,List.singleton_append]
      · rw [hother r hr,hlock,Dict.get_insert,if_neg (Ne.symm hr),hu]
    by_cases hon : (s'.heap c).gpu = true
    · rw [if_pos hon] at h
      exact hgo s' hchild _ h
    · rw [if_neg hon] at h
      by_cases hraise : (s'.heap node).gpu = false
      · rw [if_pos hraise] at h
        cases h
      · rw [if_neg hraise] at h
        exact hgo (s'.enterGpu c) hchild _ h

/-! ## Batches -/

/-- The endpoint of a lock is a node of the tree, where the GPU is. -/
theorem Sound.endpoint (hs : s.Sound) {requestId : String} {path : List ℤ} {endpoint : ℕ × ℕ}
    (h : s.lockedPrefixEndpoint requestId path = .ok endpoint) : endpoint.1 ∈ s.nodesById := by
  obtain ⟨ids,hids,hnode⟩ := (lockedPrefixEndpoint_spec s requestId path).1 endpoint h
  rw [hnode]
  exact hs.linked.endOf_mem hs.linked.root (hs.held.trail requestId ids hids)

/-- The walk goes on at the same node where the lock and the symbols are the same. -/
theorem lockedPrefixEndpoint_congr (hs : s.Sound) (ht : t.Sound) {requestId : String} (path : List ℤ)
    (hlocks : t.requestLocks[requestId]? = s.requestLocks[requestId]?)
    (hsymbol : ∀ i ∈ s.nodesById, (t.heap i).symbol = (s.heap i).symbol) :
    t.lockedPrefixEndpoint requestId path = s.lockedPrefixEndpoint requestId path := by
  unfold lockedPrefixEndpoint
  rw [hlocks]
  cases hids : s.requestLocks[requestId]? with
  | none => rfl
  | some ids =>
    cases hlast : ids.getLast? with
    | none => simp only [hlast]
    | some last =>
      have hmem := hs.linked.trail_mem hs.linked.root (hs.held.trail requestId ids hids) last
        (List.mem_of_getLast? hlast)
      have hmem' := ht.linked.trail_mem ht.linked.root (ht.held.trail requestId ids (hlocks.trans hids)) last
        (List.mem_of_getLast? hlast)
      simp only [hlast,hmem.1,hmem'.1,not_true,if_false,hsymbol last hmem.1,hs.quiet,ht.quiet,Bool.false_eq_true,false_and]

/-- The extension of one request. -/
theorem Foresees.extend (hs : s.Sound) (hu : Foresees s e u) (hsu : u.Sound) {requestId : String} {path : List ℤ}
    (hlock : u.requestLocks[requestId]? = s.requestLocks[requestId]?) {endpoint : ℕ × ℕ}
    (hend : s.lockedPrefixEndpoint requestId path = .ok endpoint) {m : TieredRadixMutation}
    (h : u.extendRequestGpu requestId path true = (t,.ok m)) :
    Foresees s (s.estimatePath e endpoint.1 (path.drop endpoint.2)) t ∧
      (∀ ids, u.requestLocks[requestId]? = some ids → ∃ more, t.requestLocks[requestId]? = some (ids ++ more)) ∧
        ∀ r ≠ requestId, t.requestLocks[r]? = u.requestLocks[r]? := by
  obtain ⟨p,hp,h⟩ := andThen_eq_ok.mp h
  cases hp
  obtain ⟨found,hfound,h⟩ := andThen_eq_ok.mp h
  simp only at hfound
  rw [lockedPrefixEndpoint_congr hs hsu path hlock hu.symbol,hend] at hfound
  cases hfound
  obtain ⟨growth,hgrow,h⟩ := andThen_eq_ok.mp h
  obtain ⟨rfl,-⟩ := checked_eq_ok h
  have hmem := hs.endpoint hend
  have hgrown := hu.grow hs.linked (path.drop endpoint.2)
    (.inl ⟨Int.natCast_nonneg endpoint.1,by rwa [Int.toNat_natCast]⟩)
    (by rw [realNode_natCast]; exact Prod.ext rfl hgrow)
  obtain ⟨ids,hids,-⟩ := (lockedPrefixEndpoint_spec s requestId path).1 endpoint hend
  obtain ⟨hmore,hother⟩ := growPath_locks _ (hlock.trans hids) (Prod.ext rfl hgrow)
  have htouch := SameCore.touchNodes (growPath (some requestId) "GPU extension requires a GPU-resident ancestor" u
    endpoint.1 {} (path.drop endpoint.2)).1 growth.visited
  refine ⟨hgrown.same htouch.sameGrowth,fun ids' hids' => ?_,fun r hr => ?_⟩
  · obtain rfl : ids = ids' := Option.some.inj ((hlock.trans hids).symm.trans hids')
    rw [htouch.requestLocks]
    exact hmore
  · rw [htouch.requestLocks]
    exact hother r hr

end BeliefKV.TieredTokenRadix
