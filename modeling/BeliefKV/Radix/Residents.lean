import BeliefKV.Radix.Checks
import BeliefKV.Radix.Reserve
import BeliefKV.Lib.Prefixes

/-! The prefixes that the GPU has, and that growing a path adds the prefixes of the path. -/
namespace BeliefKV.TieredTokenRadix
open Call Prefixes
variable {s t u : TieredTokenRadix} {i j c node : ℕ} {x : ℤ} {p q stem : List ℤ}

/-! ## Residents -/

/-- The GPU has the node of a prefix. -/
def Resident (s : TieredTokenRadix) (q : List ℤ) : Prop := ∃ i, s.Leads 0 q i ∧ (s.heap i).gpu = true

/-- The prefixes that the GPU has, but for the empty one. -/
def residents (s : TieredTokenRadix) : Finset (List ℤ) :=
  (s.having TieredTrieNode.gpu).image fun i => (s.nodePath i).toOption.getD []

theorem Linked.pathOf (h : s.Linked) (hi : i ∈ s.nodesById) : s.Leads 0 ((s.nodePath i).toOption.getD []) i := by
  obtain ⟨q,hq,hleads⟩ := h.nodePath hi
  rw [hq]
  exact hleads

theorem Linked.mem_residents (h : s.Linked) : q ∈ s.residents ↔ q ≠ [] ∧ s.Resident q := by
  unfold residents
  rw [Finset.mem_image]
  constructor
  · rintro ⟨i,hi,rfl⟩
    obtain ⟨hpos,hgpu⟩ := mem_having.mp hi
    obtain ⟨hne,hmem⟩ := Finset.mem_erase.mp hpos
    have hleads := h.pathOf hmem
    refine ⟨fun hnil => hne ?_,i,hleads,hgpu⟩
    rw [hnil] at hleads
    exact hleads.symm
  · rintro ⟨hne,i,hleads,hgpu⟩
    obtain ⟨hmem,-⟩ := h.leads_mem h.root hleads
    refine ⟨i,mem_having.mpr ⟨Finset.mem_erase.mpr ⟨?_,hmem⟩,hgpu⟩,h.leads_unique (h.pathOf hmem) hleads⟩
    rintro rfl
    exact hne (h.leads_unique hleads rfl)

theorem Linked.card_residents (h : s.Linked) : s.residents.card = (s.having TieredTrieNode.gpu).card := by
  apply Finset.card_image_of_injOn
  intro i hi j hj heq
  have hi' := h.pathOf (Finset.mem_of_mem_erase (mem_having.mp hi).1)
  have hj' := h.pathOf (Finset.mem_of_mem_erase (mem_having.mp hj).1)
  simp only at heq
  rw [heq] at hi'
  exact hi'.end_unique hj'

theorem Whole.gpuTokens (h : s.Whole) : s.gpuTokens = s.residents.card := by
  rw [h.linked.card_residents]
  exact h.counted.gpu

/-! ## One node -/

theorem leads_congr (hchild : ∀ i, (t.heap i).children = (s.heap i).children) (q : List ℤ) :
    ∀ i j, t.Leads i q j ↔ s.Leads i q j := by
  induction q with
  | nil => exact fun _ _ => Iff.rfl
  | cons x q ih =>
    intro i j
    unfold Leads Child
    simp only [hchild,ih]

theorem SameGrowth.resident (h : SameGrowth s t) : t.Resident q ↔ s.Resident q := by
  unfold Resident
  simp only [leads_congr h.children,h.gpu]

/-- A node enters the GPU. -/
theorem resident_enterGpu (hl : s.Linked) (hc : s.Leads 0 p c) : (s.enterGpu c).Resident q ↔ s.Resident q ∨ q = p := by
  have hleads := leads_congr (SameLinks.enterGpu s c).children q 0
  constructor
  · rintro ⟨i,hi,hgpu⟩
    obtain rfl | hgpu := (gpu_enterGpu i).mp hgpu
    · exact .inr (hl.leads_unique ((hleads i).mp hi) hc)
    · exact .inl ⟨i,(hleads i).mp hi,hgpu⟩
  · rintro (⟨i,hi,hgpu⟩ | rfl)
    · exact ⟨i,(hleads i).mpr hi,(gpu_enterGpu i).mpr (.inr hgpu)⟩
    · exact ⟨c,(hleads c).mpr hc,(gpu_enterGpu c).mpr (.inl rfl)⟩

/-- The old nodes are where they were. -/
theorem leads_sprout (hl : s.Linked) (hlt : node < s.nextNodeId) (hnone : (s.heap node).children[x]? = none)
    (q : List ℤ) : ∀ i, i ≠ s.nextNodeId → ((s.sprout node x).Leads 0 q i ↔ s.Leads 0 q i) := by
  induction q using List.reverseRecOn with
  | nil => exact fun _ _ => Iff.rfl
  | append_singleton q y ih =>
    intro i hi
    rw [leads_concat,leads_concat]
    constructor
    · rintro ⟨k,hk,hchild⟩
      obtain ⟨-,-,hnew⟩ | ⟨hold,hchild⟩ := (child_sprout hlt hnone).mp hchild
      · exact absurd hnew hi
      · exact ⟨k,(ih k hold).mp hk,hchild⟩
    · rintro ⟨k,hk,hchild⟩
      have hold : k ≠ s.nextNodeId := (hl.below k (hl.leads_mem hl.root hk).1).ne
      exact ⟨k,(ih k hold).mpr hk,(child_sprout hlt hnone).mpr (.inr ⟨hold,hchild⟩)⟩

/-- The child of a node by a symbol; one that is made is not on the GPU yet. -/
theorem resident_childOrNew (hl : s.Linked) (hnode : node ∈ s.nodesById) (hstem : s.Leads 0 stem node) (x : ℤ) :
    (s.childOrNew node x).1.Linked ∧ (s.childOrNew node x).1.Leads 0 (stem ++ [x]) (s.childOrNew node x).2 ∧
      ∀ q, (s.childOrNew node x).1.Resident q ↔ s.Resident q := by
  unfold childOrNew
  cases hx : (s.heap node).children[x]? with
  | some c => exact ⟨hl,leads_concat.mpr ⟨node,hstem,hx⟩,fun _ => Iff.rfl⟩
  | none =>
    have hlt := hl.below node hnode
    have hgpu (i : ℕ) : ((s.sprout node x).heap i).gpu = true → i ≠ s.nextNodeId := by
      rintro hon rfl
      rw [heap_sprout_new hlt] at hon
      cases hon
    change (s.sprout node x).Linked ∧ (s.sprout node x).Leads 0 (stem ++ [x]) s.nextNodeId ∧
      ∀ q, (s.sprout node x).Resident q ↔ s.Resident q
    refine ⟨hl.sprout hlt hx hnode,leads_concat.mpr ⟨node,?_,?_⟩,fun q => ⟨?_,?_⟩⟩
    · exact (leads_sprout hl hlt hx stem node hlt.ne).mpr hstem
    · exact (child_sprout hlt hx).mpr (.inl ⟨rfl,rfl,rfl⟩)
    · rintro ⟨i,hi,hon⟩
      have hold := hgpu i hon
      refine ⟨i,(leads_sprout hl hlt hx q i hold).mp hi,?_⟩
      rwa [(sprout_old hlt hold).2.2.1] at hon
    · rintro ⟨i,hi,hon⟩
      have hold : i ≠ s.nextNodeId := (hl.below i (hl.leads_mem hl.root hi).1).ne
      refine ⟨i,(leads_sprout hl hlt hx q i hold).mpr hi,?_⟩
      rwa [(sprout_old hlt hold).2.2.1]

/-! ## Paths -/

theorem sameLinks_lockNode (request : Option String) (i : ℕ) : SameLinks s (s.lockNode request i) := by
  cases request with
  | none => exact ⟨rfl,rfl,fun _ => rfl⟩
  | some r =>
    obtain ⟨hindex,hnext,hlinks⟩ := SameLinks.edit s i
      (f := fun n => { n with lockedByRequestIds := insert r n.lockedByRequestIds }) fun _ => rfl
    exact ⟨hindex,hnext,hlinks⟩

/-- A path that is grown adds its prefixes, and nothing else. -/
theorem growPath_resident {request : Option String} {message : String} (path : List ℤ) :
    ∀ {s t : TieredTokenRadix} {node : ℕ} {stem : List ℤ} {acc growth : Growth}, s.Linked → s.Leads 0 stem node →
      growPath request message s node acc path = (t,.ok growth) →
        ∀ q, t.Resident q ↔ s.Resident q ∨ q ∈ along stem path := by
  induction path with
  | nil =>
    intro s t node stem acc growth _ _ h q
    cases h
    simp [along]
  | cons x path ih =>
    intro s t node stem acc growth hl hstem h q
    obtain ⟨hl',hchild,hsame⟩ := resident_childOrNew hl (hl.leads_mem hl.root hstem).1 hstem x
    rw [growPath] at h
    rw [along,List.mem_cons,← hsame q]
    generalize (s.childOrNew node x).1 = s' at hl' hchild h ⊢
    generalize (s.childOrNew node x).2 = c at hchild h
    -- the walk goes on at the child, once its lock has grown
    have hgo (u : TieredTokenRadix) (hu : SameLinks s' u) {acc : Growth}
        (h : growPath request message (u.lockNode request c) c acc path = (t,.ok growth)) :
        t.Resident q ↔ u.Resident q ∨ q ∈ along (stem ++ [x]) path := by
      have hlinks := sameLinks_lockNode (s := u) request c
      have hleads := leads_congr hlinks.children (stem ++ [x]) 0 c
      rw [ih (hlinks.linked (hu.linked hl')) (hleads.mpr ((leads_congr hu.children _ 0 c).mpr hchild)) h q,
        (sameGrowth_lockNode request c).resident]
    by_cases hon : (s'.heap c).gpu = true
    · rw [if_pos hon] at h
      rw [hgo s' ⟨rfl,rfl,fun _ => rfl⟩ h]
      have hhere : q = stem ++ [x] → s'.Resident q := fun heq => ⟨c,heq ▸ hchild,hon⟩
      tauto
    rw [if_neg hon] at h
    by_cases hraise : (s'.heap node).gpu = false
    · rw [if_pos hraise] at h
      cases h
    · rw [if_neg hraise] at h
      rw [hgo (s'.enterGpu c) (SameLinks.enterGpu s' c) h,resident_enterGpu hl' hchild,or_assoc]

end BeliefKV.TieredTokenRadix
