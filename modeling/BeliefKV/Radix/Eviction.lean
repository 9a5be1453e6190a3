import BeliefKV.Radix.Demand

/-! The paths that an eviction leaves as they are. -/
namespace BeliefKV.TieredTokenRadix
open Call
variable {s t : TieredTokenRadix} {i j c r : ℕ} {x : ℤ}

/-! ## Paths and their ends -/

/-- A path leads from a node to another one. -/
def Leads (s : TieredTokenRadix) : ℕ → List ℤ → ℕ → Prop
  | i, [], j => i = j
  | i, x :: path, j => ∃ c, s.Child i x c ∧ Leads s c path j

theorem leads_append {p q : List ℤ} : ∀ {i : ℕ}, s.Leads i (p ++ q) j ↔ ∃ k, s.Leads i p k ∧ s.Leads k q j := by
  induction p with
  | nil => exact fun {i} => ⟨fun h => ⟨i,rfl,h⟩,fun ⟨_,rfl,h⟩ => h⟩
  | cons x p ih =>
    intro i
    constructor
    · rintro ⟨c,hc,h⟩
      obtain ⟨k,hk,hq⟩ := ih.mp h
      exact ⟨k,⟨c,hc,hk⟩,hq⟩
    · rintro ⟨k,⟨c,hc,hk⟩,hq⟩
      exact ⟨c,hc,ih.mpr ⟨k,hk,hq⟩⟩

theorem leads_concat {p : List ℤ} : s.Leads i (p ++ [x]) j ↔ ∃ k, s.Leads i p k ∧ s.Child k x j := by
  rw [leads_append]
  constructor
  · rintro ⟨k,hk,c,hc,rfl⟩
    exact ⟨k,hk,hc⟩
  · rintro ⟨k,hk,hc⟩
    exact ⟨k,hk,j,hc,rfl⟩

theorem leads_existingPath {p : List ℤ} : ∀ {i : ℕ}, (s.existingPath i p).length = p.length →
    s.Leads i p (endOf i (s.existingPath i p)) := by
  induction p with
  | nil => exact fun _ => rfl
  | cons x p ih =>
    intro i h
    rw [existingPath] at h ⊢
    cases hc : (s.heap i).children[x]? with
    | none =>
      simp only [hc] at h
      cases h
    | some c =>
      simp only [hc,List.length_cons,Nat.add_right_cancel_iff] at h ⊢
      rw [endOf_cons]
      exact ⟨c,hc,ih h⟩

theorem Leads.existingPath {p : List ℤ} : ∀ {i : ℕ}, s.Leads i p j →
    (s.existingPath i p).length = p.length ∧ endOf i (s.existingPath i p) = j := by
  induction p with
  | nil => exact fun h => ⟨rfl,h⟩
  | cons x p ih =>
    rintro i ⟨c,hc,h⟩
    obtain ⟨hlength,hend⟩ := ih h
    unfold Child at hc
    rw [TieredTokenRadix.existingPath]
    simp only [hc,List.length_cons,hlength,true_and]
    rw [endOf_cons]
    exact hend

theorem Leads.end_unique {p : List ℤ} {k : ℕ} (h : s.Leads i p j) (h' : s.Leads i p k) : j = k :=
  h.existingPath.2.symm.trans h'.existingPath.2

theorem Linked.leads_mem (h : s.Linked) {p : List ℤ} : ∀ {i : ℕ}, i ∈ s.nodesById → s.Leads i p j →
    j ∈ s.nodesById ∧ i ≤ j := by
  induction p with
  | nil =>
    rintro i hi rfl
    exact ⟨hi,le_rfl⟩
  | cons x p ih =>
    rintro i hi ⟨c,hc,hrest⟩
    obtain ⟨hmem,-,-,hlt⟩ := h.child i hi x c hc
    obtain ⟨hj,hle⟩ := ih hmem hrest
    exact ⟨hj,by omega⟩

/-- The path to a node is unique. -/
theorem Linked.leads_unique (h : s.Linked) : ∀ {j : ℕ} {p q : List ℤ}, s.Leads 0 p j → s.Leads 0 q j → p = q := by
  have hroot : ∀ {p : List ℤ} {x : ℤ}, ¬ s.Leads 0 (p ++ [x]) 0 := by
    intro p x hp
    obtain ⟨k,hk,hchild⟩ := leads_concat.mp hp
    obtain ⟨hmem,-⟩ := h.leads_mem h.root hk
    exact absurd (h.child k hmem x 0 hchild).2.2.2 (Nat.not_lt_zero k)
  intro j
  induction j using Nat.strong_induction_on with
  | _ j ih =>
    intro p q hp hq
    obtain rfl | ⟨p,x,rfl⟩ := List.eq_nil_or_concat p
    · obtain rfl : 0 = j := hp
      obtain rfl | ⟨q,y,rfl⟩ := List.eq_nil_or_concat q
      · rfl
      · rw [List.concat_eq_append] at hq
        exact absurd hq hroot
    · rw [List.concat_eq_append] at hp ⊢
      obtain ⟨k,hk,hx⟩ := leads_concat.mp hp
      obtain ⟨hmem,-⟩ := h.leads_mem h.root hk
      obtain ⟨-,hparent,hsymbol,hlt⟩ := h.child k hmem x j hx
      obtain rfl | ⟨q,y,rfl⟩ := List.eq_nil_or_concat q
      · obtain rfl : 0 = j := hq
        exact absurd hp hroot
      · rw [List.concat_eq_append] at hq ⊢
        obtain ⟨l,hl,hy⟩ := leads_concat.mp hq
        obtain ⟨hlmem,-⟩ := h.leads_mem h.root hl
        obtain ⟨-,hparent',hsymbol',-⟩ := h.child l hlmem y j hy
        rw [hparent] at hparent'
        rw [hsymbol] at hsymbol'
        obtain rfl := Option.some.inj hparent'
        obtain rfl := Option.some.inj hsymbol'
        rw [ih k hlt hk hl]

/-- What is below a node has a longer path. -/
theorem Linked.subtree_extends (h : s.Linked) {root : List ℤ} (hroot : s.Leads 0 root r) :
    ∀ {i : ℕ} {q : List ℤ}, i ∈ s.subtreeNodes r → s.Leads 0 q i → root <+: q := by
  obtain ⟨hr,-⟩ := h.leads_mem h.root hroot
  obtain ⟨-,hmem,-,-,horigin⟩ := h.subtree hr
  intro i
  induction i using Nat.strong_induction_on with
  | _ i ih =>
    intro q hi hq
    obtain rfl | ⟨k,hk,x,hx⟩ := horigin i hi
    · rw [h.leads_unique hroot hq]
    · obtain ⟨-,hparent,-,hlt⟩ := h.child k (hmem k hk) x i hx
      obtain rfl | ⟨q,y,rfl⟩ := List.eq_nil_or_concat q
      · obtain rfl : 0 = i := hq
        exact absurd hlt (Nat.not_lt_zero k)
      · rw [List.concat_eq_append] at hq ⊢
        obtain ⟨l,hl,hy⟩ := leads_concat.mp hq
        obtain ⟨hlmem,-⟩ := h.leads_mem h.root hl
        have hparent' := (h.child l hlmem y i hy).2.1
        rw [hparent] at hparent'
        obtain rfl := Option.some.inj hparent'
        exact (ih k hlt hk hl).trans (List.prefix_append q [y])

/-- The nodes of a path are at the ends of its prefixes. -/
theorem mem_existingPath {p : List ℤ} : ∀ {i : ℕ}, c ∈ s.existingPath i p → ∃ q, q <+: p ∧ s.Leads i q c := by
  induction p with
  | nil => exact fun h => absurd h List.not_mem_nil
  | cons x p ih =>
    intro i h
    rw [existingPath] at h
    cases hd : (s.heap i).children[x]? with
    | none =>
      simp only [hd] at h
      exact absurd h List.not_mem_nil
    | some d =>
      simp only [hd] at h
      obtain rfl | h := List.mem_cons.mp h
      · exact ⟨[x],List.prefix_append [x] p,c,hd,rfl⟩
      · obtain ⟨q,hq,hleads⟩ := ih h
        exact ⟨x :: q,List.cons_prefix_cons.mpr ⟨rfl,hq⟩,d,hd,hleads⟩

/-! ## Paths that are spared -/

/-- A path leads through the same nodes, which the GPU has as before. -/
structure Spared (s t : TieredTokenRadix) (p : List ℤ) : Prop where
  path : t.existingPath 0 p = s.existingPath 0 p
  gpu : ∀ i ∈ s.existingPath 0 p, (t.heap i).gpu = (s.heap i).gpu

/-- A subtree is taken from the GPU; the locks and the symbols of the nodes stay. -/
structure Evicted (s t : TieredTokenRadix) (root : List ℤ) : Prop where
  locks : t.requestLocks = s.requestLocks
  symbol : ∀ i, (t.heap i).symbol = (s.heap i).symbol
  spares : ∀ p, ¬ root <+: p → Spared s t p

theorem SameLinks.existingPath (h : SameLinks s t) (p : List ℤ) : ∀ i, t.existingPath i p = s.existingPath i p := by
  induction p with
  | nil => exact fun _ => rfl
  | cons x p ih =>
    intro i
    rw [TieredTokenRadix.existingPath,TieredTokenRadix.existingPath,h.children]
    cases (s.heap i).children[x]? with
    | none => rfl
    | some c => exact congrArg (List.cons c) (ih c)

/-- A path that does not lead into a subtree has none of its nodes. -/
theorem Linked.notMem_subtree (h : s.Linked) {root p : List ℤ} (hroot : s.Leads 0 root r) (hp : ¬ root <+: p) :
    ∀ i ∈ s.existingPath 0 p, i ∉ s.subtreeNodes r := by
  intro i hi hsub
  obtain ⟨q,hq,hleads⟩ := mem_existingPath hi
  exact hp ((h.subtree_extends hroot hsub hleads).trans hq)

theorem commitCpu_evicted (hs : s.Sound) {root : List ℤ} {m : TieredRadixMutation}
    (h : s.commitCpu root = (t,.ok m)) : Evicted s t root := by
  obtain ⟨found,hfound,h⟩ := andThen_eq_ok.mp h
  obtain ⟨-,-,hlength,hend⟩ := requireSubtreeRoot_path hfound
  obtain ⟨hmem,hne,-⟩ := requireSubtreeRoot_eq_ok hs.linked hfound
  simp only at h
  split_ifs at h
  · cases h
  obtain ⟨rfl,-⟩ := checked_eq_ok h
  obtain ⟨hmoves,hheap⟩ := foldl_moves (s := s) (f := settled) (fun n => by simp [settled,copied])
    (fun s acc i hi => commitNode_spec acc hi) (s.subtreeNodes found.1) (0,0) (hs.linked.subtree_pos hmem hne)
  have hroot : s.Leads 0 root found.1 := hend ▸ leads_existingPath hlength
  refine ⟨hmoves.requestLocks,fun i => hmoves.symbol i,fun p hp => ⟨hmoves.existingPath p 0,fun i hi => ?_⟩⟩
  rw [hheap]
  exact congrArg TieredTrieNode.gpu (if_neg (hs.linked.notMem_subtree hroot hp i hi))

theorem existingPath_detach (hs : s.Linked) {parent : ℕ} {root : List ℤ} (hroot : s.Leads 0 root r)
    (hparent : parent ∈ s.nodesById) (hx : s.Child parent x r) (path : List ℤ) : ∀ {node : ℕ} {q : List ℤ},
      s.Leads 0 q node → ¬ root <+: q ++ path →
        (s.detach r parent x).existingPath node path = s.existingPath node path := by
  induction path with
  | nil => exact fun _ _ => rfl
  | cons y path ih =>
    intro node q hq hnot
    have hlookup : ((s.detach r parent x).heap node).children[y]? = (s.heap node).children[y]? := by
      rw [heap_detach]
      split_ifs with hnode
      · subst hnode
        change ((s.heap node).children.erase x)[y]? = _
        rw [Dict.get_erase]
        split_ifs with hxy
        · subst hxy
          have hlonger : s.Leads 0 (q ++ [x]) r := leads_concat.mpr ⟨node,hq,hx⟩
          refine absurd ?_ hnot
          rw [hs.leads_unique hroot hlonger]
          exact ⟨path,by rw [List.append_assoc,List.singleton_append]⟩
        · rfl
      · rfl
    rw [existingPath,existingPath,hlookup]
    cases hc : (s.heap node).children[y]? with
    | none => rfl
    | some c =>
      refine congrArg (List.cons c) (ih (leads_concat.mpr ⟨node,hq,hc⟩) ?_)
      rw [← List.append_cons]
      exact hnot

theorem dropSubtree_evicted (hs : s.Sound) {root : List ℤ} {m : TieredRadixMutation}
    (h : s.dropSubtree root = (t,.ok m)) : Evicted s t root := by
  obtain ⟨found,hfound,h⟩ := andThen_eq_ok.mp h
  obtain ⟨-,-,hlength,hend⟩ := requireSubtreeRoot_path hfound
  obtain ⟨-,-,parent,hparent,x,hx⟩ := requireSubtreeRoot_eq_ok hs.linked hfound
  obtain ⟨-,hup,hsymbol,-⟩ := hs.linked.child parent hparent x found.1 hx
  simp only at h
  split_ifs at h
  · cases h
  rw [hup,hsymbol] at h
  obtain ⟨rfl,-⟩ := checked_eq_ok h
  have hroot : s.Leads 0 root found.1 := hend ▸ leads_existingPath hlength
  refine ⟨rfl,fun i => (detach_frame i).1,fun p hp => ⟨?_,fun i _ => (detach_frame i).2.2.1⟩⟩
  have hstart : s.Leads 0 [] 0 := rfl
  exact existingPath_detach hs.linked hroot hparent hx p hstart hp

end BeliefKV.TieredTokenRadix
