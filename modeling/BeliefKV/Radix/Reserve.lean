import BeliefKV.Radix.Estimate

/-! What was asked of a radix stays true when evictions spare the paths in question. -/
namespace BeliefKV.TieredTokenRadix
open Call
variable {s t : TieredTokenRadix} {e : Estimate} {i : ℕ} {v x : ℤ}

/-! ## Existing paths -/

theorem existingPath_append {p q : List ℤ} : ∀ {i : ℕ}, (s.existingPath i p).length = p.length →
    s.existingPath i (p ++ q) = s.existingPath i p ++ s.existingPath (endOf i (s.existingPath i p)) q := by
  induction p with
  | nil => exact fun _ => rfl
  | cons x p ih =>
    intro i h
    rw [List.cons_append,existingPath,existingPath]
    rw [existingPath] at h
    cases hc : (s.heap i).children[x]? with
    | none =>
      simp only [hc] at h
      cases h
    | some c =>
      simp only [hc,List.length_cons,Nat.add_right_cancel_iff] at h ⊢
      rw [ih h,endOf_cons,List.cons_append]

theorem existingPath_take {p : List ℤ} : ∀ {i n : ℕ}, s.existingPath i (p.take n) = (s.existingPath i p).take n := by
  induction p with
  | nil =>
    intro i n
    rw [List.take_nil]
    exact List.take_nil.symm
  | cons x p ih =>
    intro i n
    cases n with
    | zero => rfl
    | succ n =>
      rw [List.take_succ_cons,existingPath,existingPath]
      cases (s.heap i).children[x]? with
      | none => rfl
      | some c =>
        simp only [List.take_succ_cons]
        rw [ih]

/-- The path of a request goes on where its lock ends. -/
def Continues (s : TieredTokenRadix) (requestId : String) (path : List ℤ) : Prop :=
  ∀ ids, s.requestLocks[requestId]? = some ids → s.existingPath 0 (path.take ids.length) = ids

theorem lockedPrefixEndpoint_depth {requestId : String} {path : List ℤ} {endpoint : ℕ × ℕ}
    (h : s.lockedPrefixEndpoint requestId path = .ok endpoint) :
    ∃ ids, s.requestLocks[requestId]? = some ids ∧ endpoint = (endOf 0 ids,ids.length) ∧ ids.length ≤ path.length := by
  obtain ⟨ids,hids,hnode⟩ := (lockedPrefixEndpoint_spec s requestId path).1 endpoint h
  refine ⟨ids,hids,?_⟩
  unfold lockedPrefixEndpoint at h
  rw [hids] at h
  simp only at h
  by_cases hshort : path.length < ids.length
  · rw [if_pos hshort] at h
    cases h
  rw [if_neg hshort] at h
  refine ⟨Prod.ext hnode ?_,by omega⟩
  cases hlast : ids.getLast? with
  | none =>
    rw [hlast] at h
    cases h
    rw [List.getLast?_eq_none_iff.mp hlast]
    rfl
  | some last =>
    rw [hlast] at h
    simp only at h
    split_ifs at h
    cases h
    rfl

/-! ## Estimates -/

/-- The virtual nodes have negative ids. -/
structure Estimate.Virtual (e : Estimate) : Prop where
  next : e.nextVirtualId < 0
  edge : ∀ p x v : ℤ, e.virtualEdges[(p,x)]? = some v → v < 0

theorem Estimate.Virtual.sprout (h : e.Virtual) : (e.sprout v x).Virtual := by
  have hnext := h.next
  refine ⟨?_,fun p y w hw => ?_⟩
  · change e.nextVirtualId - 1 < 0
    omega
  · change (e.virtualEdges.insert (v,x) e.nextVirtualId)[(p,y)]? = some w at hw
    rw [Dict.get_insert] at hw
    split_ifs at hw
    · cases hw
      exact hnext
    · exact h.edge p y w hw

theorem Estimate.virtual_start : Estimate.Virtual {} := by
  refine ⟨by decide,fun p x v h => ?_⟩
  change (∅ : Dict (ℤ × ℤ) ℤ)[(p,x)]? = some v at h
  rw [Std.ExtTreeMap.getElem?_empty] at h
  cases h

/-- Below a virtual node the radix does not matter. -/
theorem estimatePath_virtual (path : List ℤ) : ∀ {e : Estimate} {v : ℤ}, e.Virtual → v < 0 →
    t.estimatePath e v path = s.estimatePath e v path ∧ (s.estimatePath e v path).Virtual := by
  induction path with
  | nil => exact fun he _ => ⟨rfl,he⟩
  | cons x path ih =>
    intro e v he hv
    rw [estimatePath,estimatePath,if_pos hv,if_pos hv]
    cases hedge : e.virtualEdges[(v,x)]? with
    | some w =>
      simp only
      exact ih he (he.edge v x w hedge)
    | none =>
      simp only
      exact ih (e := e.sprout v x) he.sprout he.next

theorem estimatePath_congr (path : List ℤ) : ∀ {e : Estimate} {i : ℕ}, e.Virtual →
    t.existingPath i path = s.existingPath i path → (∀ j ∈ s.existingPath i path, (t.heap j).gpu = (s.heap j).gpu) →
      t.estimatePath e i path = s.estimatePath e i path ∧ (s.estimatePath e i path).Virtual := by
  induction path with
  | nil => exact fun he _ _ => ⟨rfl,he⟩
  | cons x path ih =>
    intro e i he hpath hgpu
    have hpos : ¬ (i : ℤ) < 0 := by omega
    rw [existingPath,existingPath] at hpath
    rw [existingPath] at hgpu
    rw [estimatePath,estimatePath,if_neg hpos,if_neg hpos,Int.toNat_natCast]
    cases hs : (s.heap i).children[x]? with
    | some c =>
      cases ht : (t.heap i).children[x]? with
      | none =>
        rw [hs,ht] at hpath
        cases hpath
      | some d =>
        rw [hs,ht] at hpath
        rw [hs] at hgpu
        obtain ⟨rfl,hpath⟩ := List.cons.inj hpath
        simp only
        rw [hgpu d List.mem_cons_self]
        have hvirtual : (if (s.heap d).gpu = true then e else
            { e with missingExisting := insert d e.missingExisting }).Virtual := by
          split_ifs
          · exact he
          · exact ⟨he.next,he.edge⟩
        exact ih hvirtual hpath fun j hj => hgpu j (List.mem_cons_of_mem d hj)
    | none =>
      cases ht : (t.heap i).children[x]? with
      | some d =>
        rw [hs,ht] at hpath
        cases hpath
      | none =>
        simp only
        cases hedge : e.virtualEdges[((i : ℤ),x)]? with
        | some w =>
          simp only
          exact estimatePath_virtual path he (he.edge _ _ _ hedge)
        | none =>
          simp only
          exact estimatePath_virtual path (e := e.sprout i x) he.sprout he.next

/-- What a spared path needs is as before. -/
theorem Spared.estimatePath {path : List ℤ} (h : Spared s t path) {requestId : String} (hgoes : s.Continues requestId path)
    (he : e.Virtual) {endpoint : ℕ × ℕ} (hend : s.lockedPrefixEndpoint requestId path = .ok endpoint) :
    t.estimatePath e endpoint.1 (path.drop endpoint.2) = s.estimatePath e endpoint.1 (path.drop endpoint.2) ∧
      (s.estimatePath e endpoint.1 (path.drop endpoint.2)).Virtual := by
  obtain ⟨ids,hids,rfl,hshort⟩ := lockedPrefixEndpoint_depth hend
  have hhead := hgoes ids hids
  have hhead' : t.existingPath 0 (path.take ids.length) = ids := by
    rw [existingPath_take,h.path,← existingPath_take]
    exact hhead
  have hsplit : s.existingPath 0 path = ids ++ s.existingPath (endOf 0 ids) (path.drop ids.length) := by
    have happend := existingPath_append (s := s) (p := path.take ids.length) (q := path.drop ids.length) (i := 0)
      (by rw [hhead,List.length_take]; omega)
    rw [List.take_append_drop,hhead] at happend
    exact happend
  have hsplit' : t.existingPath 0 path = ids ++ t.existingPath (endOf 0 ids) (path.drop ids.length) := by
    have happend := existingPath_append (s := t) (p := path.take ids.length) (q := path.drop ids.length) (i := 0)
      (by rw [hhead',List.length_take]; omega)
    rw [List.take_append_drop,hhead'] at happend
    exact happend
  have hpath := h.path
  rw [hsplit,hsplit'] at hpath
  refine estimatePath_congr _ he (List.append_cancel_left hpath) fun j hj => h.gpu j ?_
  rw [hsplit]
  exact List.mem_append_right ids hj

theorem estimatePaths_congr (hs : s.Sound) (ht : t.Sound) (hlocks : t.requestLocks = s.requestLocks)
    (hsymbol : ∀ i ∈ s.nodesById, (t.heap i).symbol = (s.heap i).symbol) (requestPaths : List (String × List ℤ)) :
    ∀ {e : Estimate}, e.Virtual → (∀ request ∈ requestPaths, Spared s t request.2) →
      (∀ request ∈ requestPaths, s.Continues request.1 request.2) →
        t.estimatePaths e requestPaths = s.estimatePaths e requestPaths := by
  induction requestPaths with
  | nil => exact fun _ _ _ => rfl
  | cons request rest ih =>
    intro e he hspared hgoes
    have hsame := lockedPrefixEndpoint_congr hs ht request.2 (congrArg (fun locks => locks[request.1]?) hlocks) hsymbol
    rw [estimatePaths,estimatePaths,hsame]
    cases hend : s.lockedPrefixEndpoint request.1 request.2 with
    | error raised => rfl
    | ok endpoint =>
      obtain ⟨hpath,hvirtual⟩ := (hspared request List.mem_cons_self).estimatePath (hgoes request List.mem_cons_self)
        he hend
      simp only
      rw [hpath]
      exact ih hvirtual (fun r hr => hspared r (List.mem_cons_of_mem request hr))
        fun r hr => hgoes r (List.mem_cons_of_mem request hr)

/-! ## Hits -/

theorem Sound.hitNodes (hs : s.Sound) (path : List ℤ) : ∀ {i : ℕ}, i ∈ s.nodesById →
    s.hitNodes i path = s.existingPath i path := by
  induction path with
  | nil => exact fun _ => rfl
  | cons x path ih =>
    intro i hi
    rw [TieredTokenRadix.hitNodes,existingPath]
    cases hc : (s.heap i).children[x]? with
    | none => rfl
    | some c =>
      obtain ⟨hmem,-,-,hlt⟩ := hs.linked.child i hi x c hc
      have htier : ((s.heap c).gpu || (s.heap c).cpu) = true := by
        obtain h | h := hs.tiered.tier c hmem (by omega) (Finset.notMem_empty c)
        · rw [h]
          rfl
        · rw [h,Bool.or_true]
      simp only [htier,if_true]
      rw [ih hmem]

/-- The nodes of a match are the path of its length. -/
theorem Sound.matchNodes (hs : s.Sound) (prompt : List ℤ) :
    s.existingPath 0 (prompt.take (s.matchTokens prompt).logicalHitTokens) = s.matchNodes prompt := by
  have hnodes : s.matchNodes prompt = (s.existingPath 0 prompt).take (prompt.length - 1) := by
    unfold TieredTokenRadix.matchNodes
    rw [hs.hitNodes _ hs.linked.root,existingPath_take]
  change s.existingPath 0 (prompt.take (s.matchNodes prompt).length) = _
  rw [existingPath_take,hnodes,List.length_take]
  obtain h | h := le_total (prompt.length - 1) (s.existingPath 0 prompt).length
  · rw [min_eq_left h]
  · rw [min_eq_right h,List.take_length,List.take_of_length_le h]

theorem absent_le (nodes : List ℕ) :
    s.absent nodes ≤ nodes.length - (nodes.takeWhile fun i => (s.heap i).gpu).length := by
  induction nodes with
  | nil => exact le_rfl
  | cons i nodes ih =>
    unfold absent at ih ⊢
    rw [List.countP_cons,List.takeWhile_cons]
    have hall := List.countP_le_length (p := fun i => !(s.heap i).gpu) (l := nodes)
    cases hgpu : (s.heap i).gpu with
    | true =>
      simp only [Bool.not_true,Bool.false_eq_true,if_false,if_true,List.length_cons]
      omega
    | false =>
      simp only [Bool.not_false,Bool.false_eq_true,if_false,if_true,List.length_cons,List.length_nil]
      omega

theorem absent_congr {nodes : List ℕ} (h : ∀ i ∈ nodes, (t.heap i).gpu = (s.heap i).gpu) :
    t.absent nodes = s.absent nodes := by
  apply List.countP_congr
  intro i hi
  rw [h i hi]

/-! ## Paths of nodes -/

theorem Linked.climb (h : s.Linked) : ∀ {fuel i : ℕ} (path : List ℤ), i ∈ s.nodesById → i < fuel →
    ∃ q, s.climb fuel i path = .ok (q ++ path) ∧ s.Leads 0 q i := by
  intro fuel
  induction fuel with
  | zero => exact fun _ _ hlt => absurd hlt (Nat.not_lt_zero _)
  | succ fuel ih =>
    intro i path hi hlt
    rw [TieredTokenRadix.climb]
    obtain rfl | ⟨p,hp,x,hx⟩ := h.parent i hi
    · rw [if_pos rfl]
      exact ⟨[],rfl,rfl⟩
    · obtain ⟨-,hparent,hsymbol,hdeep⟩ := h.child p hp x i hx
      rw [if_neg (by omega),hparent,hsymbol]
      obtain ⟨q,hq,hleads⟩ := ih (x :: path) hp (by omega)
      refine ⟨q ++ [x],?_,leads_concat.mpr ⟨p,hleads,hx⟩⟩
      rw [List.append_assoc,List.singleton_append]
      exact hq

theorem Linked.nodePath (h : s.Linked) (hi : i ∈ s.nodesById) : ∃ q, s.nodePath i = .ok q ∧ s.Leads 0 q i := by
  obtain ⟨q,hq,hleads⟩ := h.climb [] hi (h.below i hi)
  rw [List.append_nil] at hq
  exact ⟨q,hq,hleads⟩

end BeliefKV.TieredTokenRadix
