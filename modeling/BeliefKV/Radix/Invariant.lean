import BeliefKV.Radix.Basic

/-! What every radix keeps between calls, and that its self-check passes then. -/
namespace BeliefKV.TieredTokenRadix
variable {s t : TieredTokenRadix} {i c : ℕ} {x : ℤ}

/-- One edge of the tree. -/
def Child (s : TieredTokenRadix) (i : ℕ) (x : ℤ) (c : ℕ) : Prop := (s.heap i).children[x]? = some c

/-- The nodes of the index are a tree: ids grow along the edges, as a parent is made before its
children. -/
structure Linked (s : TieredTokenRadix) : Prop where
  root : 0 ∈ s.nodesById
  top : (s.heap 0).parent = none
  below : ∀ i ∈ s.nodesById, i < s.nextNodeId
  child : ∀ i ∈ s.nodesById, ∀ x c, s.Child i x c → c ∈ s.nodesById ∧
    (s.heap c).parent = some i ∧ (s.heap c).symbol = some x ∧ i < c
  parent : ∀ c ∈ s.nodesById, c = 0 ∨ ∃ i ∈ s.nodesById, ∃ x, s.Child i x c

/-- Every node has a tier, apart from the bare ones; the GPU has the ancestors of what it has,
and what is locked. -/
structure Tiered (s : TieredTokenRadix) (bare : Finset ℕ) : Prop where
  root : (s.heap 0).gpu = true
  tier : ∀ i ∈ s.nodesById, i ≠ 0 → i ∉ bare → (s.heap i).gpu = true ∨ (s.heap i).cpu = true
  closed : ∀ i ∈ s.nodesById, ∀ x c, s.Child i x c → (s.heap c).gpu = true → (s.heap i).gpu = true
  locked : ∀ i ∈ s.nodesById, i ≠ 0 → (s.heap i).lockedByRequestIds ≠ ∅ → (s.heap i).gpu = true

/-- The nodes below the root with a property of their record. -/
def having (s : TieredTokenRadix) (p : TieredTrieNode → Bool) : Finset ℕ :=
  (s.nodesById.erase 0).filter fun i => p (s.heap i) = true

/-- The counters are exact. -/
structure Counted (s : TieredTokenRadix) : Prop where
  unique : s.uniqueTokens = (s.nodesById.erase 0).card
  gpu : s.gpuTokens = (s.having TieredTrieNode.gpu).card
  cpu : s.cpuTokens = (s.having TieredTrieNode.cpu).card

/-- Nodes that lead down from a node. -/
def Trail (s : TieredTokenRadix) : ℕ → List ℕ → Prop
  | _, [] => True
  | i, c :: ids => (∃ x, s.Child i x c) ∧ Trail s c ids

/-- A request locks the nodes of a path from the root, which its list has in order. -/
structure Held (s : TieredTokenRadix) : Prop where
  trail : ∀ (r : String) (ids : List ℕ), s.requestLocks[r]? = some ids → s.Trail 0 ids
  carried : ∀ (r : String), ∀ i ∈ s.nodesById,
    r ∈ (s.heap i).lockedByRequestIds ↔ ∃ ids, s.requestLocks[r]? = some ids ∧ i ∈ ids

structure Sound (s : TieredTokenRadix) : Prop where
  quiet : s.validateEachMutation = false
  linked : s.Linked
  tiered : s.Tiered ∅
  counted : s.Counted
  held : s.Held

/-! ## Paths -/

theorem existingPath_trail (i : ℕ) (path : List ℤ) : s.Trail i (s.existingPath i path) := by
  induction path generalizing i with
  | nil => trivial
  | cons x path ih =>
    rw [existingPath]
    cases hc : (s.heap i).children[x]? with
    | none => trivial
    | some c => exact ⟨⟨x,hc⟩,ih c⟩

/-- A trail is the whole of a path. -/
theorem Trail.path {ids : List ℕ} (h : s.Trail i ids) :
    ∃ path : List ℤ, path.length = ids.length ∧ s.existingPath i path = ids := by
  induction ids generalizing i with
  | nil => exact ⟨[],rfl,rfl⟩
  | cons c ids ih =>
    obtain ⟨⟨x,hx⟩,hrest⟩ := h
    obtain ⟨path,hlen,hpath⟩ := ih hrest
    refine ⟨x :: path,by simp [hlen],?_⟩
    rw [existingPath]
    unfold Child at hx
    simp only [hx,hpath]

theorem Linked.trail_mem (h : s.Linked) {ids : List ℕ} (hi : i ∈ s.nodesById) (ht : s.Trail i ids) :
    ∀ c ∈ ids, c ∈ s.nodesById ∧ i < c := by
  induction ids generalizing i with
  | nil => simp
  | cons c ids ih =>
    obtain ⟨⟨x,hx⟩,hrest⟩ := ht
    obtain ⟨hc,-,-,hlt⟩ := h.child i hi x c hx
    intro d hd
    rcases List.mem_cons.mp hd with rfl | hd
    · exact ⟨hc,hlt⟩
    · obtain ⟨hmem,hdeep⟩ := ih hc hrest d hd
      exact ⟨hmem,by omega⟩

/-- The last node of a trail. -/
def endOf (i : ℕ) (ids : List ℕ) : ℕ := ids.getLast?.getD i

theorem endOf_cons (i c : ℕ) (ids : List ℕ) : endOf i (c :: ids) = endOf c ids := by
  unfold endOf
  rw [List.getLast?_cons]
  rfl

theorem trail_append {ids rest : List ℕ} :
    s.Trail i (ids ++ rest) ↔ s.Trail i ids ∧ s.Trail (endOf i ids) rest := by
  induction ids generalizing i with
  | nil => simp [Trail,endOf]
  | cons c ids ih => rw [List.cons_append,Trail,Trail,ih,endOf_cons,and_assoc]

theorem Linked.endOf_mem (h : s.Linked) {ids : List ℕ} (hi : i ∈ s.nodesById) (ht : s.Trail i ids) :
    endOf i ids ∈ s.nodesById := by
  unfold endOf
  cases hl : ids.getLast? with
  | none => exact hi
  | some last => exact (h.trail_mem hi ht last (List.mem_of_getLast? hl)).1

/-! ## The tree as a forest -/

theorem mem_childNodes : c ∈ s.childNodes i ↔ ∃ x, s.Child i x c := by
  rw [childNodes,List.mem_reverse,Dict.mem_vals]
  rfl

theorem Linked.child_unique (h : s.Linked) {x y : ℤ} (hi : i ∈ s.nodesById) (hx : s.Child i x c)
    (hy : s.Child i y c) : x = y := by
  obtain ⟨-,-,hsym,-⟩ := h.child i hi x c hx
  obtain ⟨-,-,hsym',-⟩ := h.child i hi y c hy
  exact Option.some.inj (hsym.symm.trans hsym')

theorem Linked.childNodes_nodup (h : s.Linked) (hi : i ∈ s.nodesById) : (s.childNodes i).Nodup := by
  rw [childNodes,List.nodup_reverse,Dict.vals]
  refine List.Nodup.map_on ?_ (List.Nodup.of_map Prod.fst ?_)
  · rintro ⟨x,c⟩ hx ⟨y,d⟩ hy (rfl : c = d)
    have hx' : s.Child i x c := Std.ExtTreeMap.mem_toList_iff_getElem?_eq_some.mp hx
    have hy' : s.Child i y c := Std.ExtTreeMap.mem_toList_iff_getElem?_eq_some.mp hy
    rw [h.child_unique hi hx' hy']
  · rw [Std.ExtTreeMap.map_fst_toList_eq_keys]
    exact Std.ExtTreeMap.nodup_keys

theorem Linked.isForest (h : s.Linked) :
    Subtree.IsForest s.childNodes s.nodesById (fun c => (s.heap c).parent) id where
  closed i hi c hc := by
    obtain ⟨x,hx⟩ := mem_childNodes.mp hc
    exact (h.child i hi x c hx).1
  parent i hi c hc := by
    obtain ⟨x,hx⟩ := mem_childNodes.mp hc
    exact (h.child i hi x c hx).2.1
  depth i hi c hc := by
    obtain ⟨x,hx⟩ := mem_childNodes.mp hc
    exact (h.child i hi x c hx).2.2.2
  nodup i hi := h.childNodes_nodup hi

theorem Linked.card_le (h : s.Linked) : s.nodesById.card ≤ s.nextNodeId := by
  calc s.nodesById.card ≤ (Finset.range s.nextNodeId).card :=
        Finset.card_le_card fun i hi => Finset.mem_range.mpr (h.below i hi)
    _ = s.nextNodeId := Finset.card_range _

/-- A set of nodes with the root and the children of its nodes has all nodes. -/
theorem Linked.all_of_closed (h : s.Linked) {P : ℕ → Prop} (hroot : P 0)
    (hchild : ∀ i ∈ s.nodesById, P i → ∀ x c, s.Child i x c → P c) : ∀ i ∈ s.nodesById, P i := by
  intro i
  induction i using Nat.strong_induction_on with
  | _ c ih =>
    intro hc
    rcases h.parent c hc with rfl | ⟨i,hi,x,hx⟩
    · exact hroot
    · exact hchild i hi (ih i (h.child i hi x c hx).2.2.2 hi) x c hx

/-- The nodes of a subtree: each once, with the children of each, and all of them below. -/
theorem Linked.subtree (h : s.Linked) {r : ℕ} (hr : r ∈ s.nodesById) :
    (s.subtreeNodes r).Nodup ∧ (∀ i ∈ s.subtreeNodes r, i ∈ s.nodesById) ∧ r ∈ s.subtreeNodes r ∧
      (∀ i ∈ s.subtreeNodes r, ∀ x c, s.Child i x c → c ∈ s.subtreeNodes r) ∧
      ∀ c ∈ s.subtreeNodes r, c = r ∨ ∃ i ∈ s.subtreeNodes r, ∃ x, s.Child i x c := by
  obtain ⟨hnodup,hmem,hroot,hclosed⟩ := Subtree.gather_root h.isForest hr h.card_le
  refine ⟨hnodup,hmem,hroot,fun i hi x c hx => ?_,fun c hc => ?_⟩
  · exact hclosed i hi c (mem_childNodes.mpr ⟨x,hx⟩)
  · rcases Subtree.gather_origin hc with hstart | ⟨i,hi,hpush⟩
    · exact .inl (List.mem_singleton.mp hstart)
    · exact .inr ⟨i,hi,mem_childNodes.mp hpush⟩

theorem Linked.subtree_ge (h : s.Linked) {r : ℕ} (hr : r ∈ s.nodesById) :
    ∀ i ∈ s.subtreeNodes r, r ≤ i := by
  obtain ⟨-,hmem,-,-,horigin⟩ := h.subtree hr
  intro i
  induction i using Nat.strong_induction_on with
  | _ i ih =>
    intro hi
    rcases horigin i hi with rfl | ⟨p,hp,x,hx⟩
    · exact le_rfl
    · have hlt := (h.child p (hmem p hp) x i hx).2.2.2
      have hup := ih p hlt hp
      omega

theorem Linked.subtree_pos (h : s.Linked) {r : ℕ} (hr : r ∈ s.nodesById) (hne : r ≠ 0) :
    ∀ i ∈ s.subtreeNodes r, i ∈ s.nodesById.erase 0 := by
  intro i hi
  have hge := h.subtree_ge hr i hi
  exact Finset.mem_erase.mpr ⟨by omega,(h.subtree hr).2.1 i hi⟩

/-! ## The self-check -/

/-- What the audit adds at one node. -/
def Audit.visit (s : TieredTokenRadix) (acc : Audit) (i : ℕ) : Audit :=
  if i = 0 then { acc with seen := insert i acc.seen }
  else { acc with seen := insert i acc.seen }.count (s.heap i)

theorem Linked.linksBack (h : s.Linked) (hi : i ∈ s.nodesById) : s.LinksBack i := by
  rintro ⟨x,c⟩ hc
  have hx : s.Child i x c := Std.ExtTreeMap.mem_toList_iff_getElem?_eq_some.mp hc
  obtain ⟨-,hpar,hsym,-⟩ := h.child i hi x c hx
  exact ⟨hpar,hsym⟩

theorem auditNode_eq_ok (hl : s.Linked) (ht : s.Tiered ∅) {acc : Audit} (hi : i ∈ s.nodesById)
    (hnew : i ∉ acc.seen) : s.auditNode acc i = .ok (acc.visit s i) := by
  have htier : ¬ (i ≠ 0 ∧ ¬ ((s.heap i).gpu = true ∨ (s.heap i).cpu = true)) := by
    rintro ⟨hne,hbare⟩
    exact hbare (ht.tier i hi hne (Finset.notMem_empty i))
  have hclosed : ¬ (i ≠ 0 ∧ (s.heap i).gpu = true ∧
      ((s.heap i).parent.any fun p => !(s.heap p).gpu) = true) := by
    rintro ⟨hne,hgpu,hpar⟩
    rcases hl.parent i hi with rfl | ⟨p,hp,x,hx⟩
    · exact hne rfl
    · rw [(hl.child p hp x i hx).2.1,Option.any_some,ht.closed p hp x i hx hgpu] at hpar
      cases hpar
  have hlocked : ¬ (i ≠ 0 ∧ (s.heap i).lockedByRequestIds ≠ ∅ ∧ (s.heap i).gpu = false) := by
    rintro ⟨hne,hlock,hgpu⟩
    rw [ht.locked i hi hne hlock] at hgpu
    cases hgpu
  unfold auditNode
  dsimp only
  rw [if_neg hnew,if_neg htier,if_neg hclosed,if_neg hlocked,if_neg (not_not.mpr (hl.linksBack hi))]
  rfl

/-- What the audit holds once it has visited a list of nodes. -/
structure Audited (s : TieredTokenRadix) (done : List ℕ) (acc : Audit) : Prop where
  seen : acc.seen = done.toFinset
  unique : acc.unique = (done.toFinset.erase 0).card
  gpu : acc.gpu = ((done.toFinset.erase 0).filter fun i => (s.heap i).gpu = true).card
  cpu : acc.cpu = ((done.toFinset.erase 0).filter fun i => (s.heap i).cpu = true).card

theorem Audited.visit {done : List ℕ} {acc : Audit} (h : s.Audited done acc) (hi : i ∉ done) :
    s.Audited (done ++ [i]) (acc.visit s i) := by
  have hset : (done ++ [i]).toFinset = insert i done.toFinset := by
    ext j
    simp
  by_cases hzero : i = 0
  · subst hzero
    have herase : (insert 0 done.toFinset).erase 0 = done.toFinset.erase 0 := by
      ext j
      simp only [Finset.mem_erase,Finset.mem_insert]
      tauto
    refine ⟨?_,?_,?_,?_⟩
    · rw [hset,← h.seen]
      rfl
    · rw [hset,herase]
      exact h.unique
    · rw [hset,herase]
      exact h.gpu
    · rw [hset,herase]
      exact h.cpu
  · have herase : (insert i done.toFinset).erase 0 = insert i (done.toFinset.erase 0) := by
      rw [Finset.erase_insert_of_ne (fun h => hzero h)]
    have hnot : i ∉ done.toFinset.erase 0 := by simp [hi]
    refine ⟨?_,?_,?_,?_⟩
    all_goals
      rw [hset]
      simp only [Audit.visit,if_neg hzero,Audit.count]
    · rw [h.seen]
    · rw [herase,Finset.card_insert_of_notMem hnot,h.unique]
      push_cast
      rfl
    · rw [herase,Finset.filter_insert,h.gpu]
      split_ifs
      · rw [Finset.card_insert_of_notMem (fun hmem => hnot (Finset.mem_filter.mp hmem).1)]
        push_cast
        rfl
      · simp
    · rw [herase,Finset.filter_insert,h.cpu]
      split_ifs
      · rw [Finset.card_insert_of_notMem (fun hmem => hnot (Finset.mem_filter.mp hmem).1)]
        push_cast
        rfl
      · simp

/-- The self-check passes. -/
theorem assertInvariants_eq_ok (hl : s.Linked) (ht : s.Tiered ∅) (hc : s.Counted) :
    s.assertInvariants = .ok () := by
  obtain ⟨hnodup,hmem,hroot,hclosed⟩ := Subtree.gather_root hl.isForest hl.root
    (show s.nodesById.card ≤ s.nextNodeId + 1 from hl.card_le.trans (Nat.le_succ _))
  have hvisit (done : List ℕ) (acc : Audit) (i : ℕ) (hi : i ∈ s.nodesById)
      (hacc : s.Audited done acc) (hnew : i ∉ done) :
      s.auditNode acc i = .ok (Audit.visit s acc i) ∧
        s.Audited (done ++ [i]) (Audit.visit s acc i) :=
    ⟨auditNode_eq_ok hl ht hi (by rw [hacc.seen]; simpa using hnew),hacc.visit hnew⟩
  have hstart : s.Audited [] {} := ⟨rfl,rfl,rfl,rfl⟩
  obtain ⟨acc,hwalk,haudit⟩ := Subtree.walk_eq_ok hvisit hstart hmem (by simpa using hnodup)
  have hall : (Subtree.gather s.childNodes (s.nextNodeId + 1) [0]).toFinset = s.nodesById := by
    ext i
    rw [List.mem_toFinset]
    constructor
    · exact hmem i
    · refine hl.all_of_closed (P := fun i => i ∈ Subtree.gather s.childNodes (s.nextNodeId + 1) [0])
        hroot (fun j _ hj x c hx => ?_) i
      exact hclosed j hj c (mem_childNodes.mpr ⟨x,hx⟩)
  rw [List.nil_append] at haudit
  obtain ⟨hseen,hunique,hgpu,hcpu⟩ := haudit
  rw [hall] at hseen hunique hgpu hcpu
  unfold assertInvariants
  rw [hwalk]
  change (if acc.seen ≠ s.nodesById then _ else _) = _
  rw [if_neg (not_not.mpr hseen),if_neg ?_]
  rw [hunique,hgpu,hcpu,hc.unique,hc.gpu,hc.cpu]
  simp [having]

end BeliefKV.TieredTokenRadix
