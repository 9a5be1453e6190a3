import BeliefKV.Radix.Reserve

/-! What the calls on a radix keep of the locks. -/
namespace BeliefKV.TieredTokenRadix
open Call
variable {s t u : TieredTokenRadix} {done : Option String} {r : String} {i : ℕ} {ids : List ℕ}

/-! ## Locks -/

/-- The lock of a request only grows, and its nodes keep their symbols. -/
def KeptLock (r : String) (s t : TieredTokenRadix) : Prop :=
  ∀ ids, s.requestLocks[r]? = some ids →
    (∃ more, t.requestLocks[r]? = some (ids ++ more)) ∧ ∀ i ∈ ids, (t.heap i).symbol = (s.heap i).symbol

/-- The locks are kept, but for that of one request. -/
def Kept (done : Option String) (s t : TieredTokenRadix) : Prop := ∀ r, done ≠ some r → KeptLock r s t

theorem KeptLock.trans (h : KeptLock r s t) (h' : KeptLock r t u) : KeptLock r s u := by
  intro ids hids
  obtain ⟨⟨more,hmore⟩,hsymbol⟩ := h ids hids
  obtain ⟨⟨most,hmost⟩,hsymbol'⟩ := h' _ hmore
  refine ⟨⟨more ++ most,?_⟩,fun i hi => ?_⟩
  · rw [hmost,List.append_assoc]
  · exact (hsymbol' i (List.mem_append_left more hi)).trans (hsymbol i hi)

theorem Kept.of_same (hlocks : t.requestLocks = s.requestLocks) (hsymbol : ∀ i, (t.heap i).symbol = (s.heap i).symbol) :
    Kept done s t := by
  intro r _ ids hids
  refine ⟨⟨[],?_⟩,fun i _ => hsymbol i⟩
  rw [hlocks,hids,List.append_nil]

theorem Kept.refl (done : Option String) (s : TieredTokenRadix) : Kept done s s := .of_same rfl fun _ => rfl

theorem Kept.trans (h : Kept done s t) (h' : Kept done t u) : Kept done s u :=
  fun r hr => (h r hr).trans (h' r hr)

theorem SameCore.kept (h : SameCore s t) : Kept done s t := .of_same h.requestLocks h.symbol

/-! ## Paths of locks -/

theorem Linked.symbols (h : s.Linked) {path : List ℤ} : ∀ {i : ℕ} {ids : List ℕ}, i ∈ s.nodesById →
    s.existingPath i path = ids → path.length = ids.length → ids.map (fun c => (s.heap c).symbol) = path.map some := by
  induction path with
  | nil =>
    intro i ids _ hpath _
    rw [← hpath]
    rfl
  | cons x path ih =>
    intro i ids hi hpath hlength
    rw [existingPath] at hpath
    cases hc : (s.heap i).children[x]? with
    | none =>
      simp only [hc] at hpath
      rw [← hpath] at hlength
      cases hlength
    | some c =>
      simp only [hc] at hpath
      obtain ⟨hmem,-,hsymbol,-⟩ := h.child i hi x c hc
      rw [← hpath] at hlength ⊢
      rw [List.map_cons,List.map_cons,hsymbol,ih hmem rfl (Nat.succ.inj hlength)]

theorem Linked.existingPath_of_trail (h : s.Linked) : ∀ {ids : List ℕ} {i : ℕ} {path : List ℤ}, i ∈ s.nodesById →
    s.Trail i ids → ids.map (fun c => (s.heap c).symbol) = path.map some → s.existingPath i path = ids := by
  intro ids
  induction ids with
  | nil =>
    intro i path _ _ hsymbols
    rw [List.map_eq_nil_iff.mp hsymbols.symm]
    rfl
  | cons c ids ih =>
    rintro i path hi ⟨⟨x,hx⟩,hrest⟩ hsymbols
    obtain ⟨hmem,-,hsymbol,-⟩ := h.child i hi x c hx
    cases path with
    | nil => cases hsymbols
    | cons y path =>
      rw [List.map_cons,List.map_cons] at hsymbols
      obtain ⟨hhead,htail⟩ := List.cons.inj hsymbols
      rw [hsymbol] at hhead
      cases hhead
      have hc : (s.heap i).children[x]? = some c := hx
      rw [existingPath,hc]
      simp only
      rw [ih hmem hrest htail]

/-- The path that a request locks still leads through its nodes, and they are on the GPU. -/
theorem KeptLock.path (h : KeptLock r s t) (hs : s.Sound) (ht : t.Sound)
    (hids : s.requestLocks[r]? = some ids) {path : List ℤ} (hpath : s.existingPath 0 path = ids)
    (hlength : path.length = ids.length) :
    t.existingPath 0 path = ids ∧ ∀ i ∈ ids, (t.heap i).gpu = true := by
  obtain ⟨⟨more,hmore⟩,hsymbol⟩ := h ids hids
  have htrail := (trail_append.mp (ht.held.trail r _ hmore)).1
  refine ⟨ht.linked.existingPath_of_trail ht.linked.root htrail ?_,fun i hi => ?_⟩
  · rw [← hs.linked.symbols hs.linked.root hpath hlength]
    exact List.map_congr_left hsymbol
  · exact (ht.locked_gpu hmore i (List.mem_append_left more hi)).2

/-! ## Calls -/

theorem restoreNodes_links (nodes : List ℕ) : ∀ {s t : TieredTokenRadix} {n m : ℕ},
    restoreNodes s n nodes = (t,.ok m) → SameLinks s t ∧ t.requestLocks = s.requestLocks := by
  induction nodes with
  | nil =>
    intro s t n m h
    cases h
    exact ⟨⟨rfl,rfl,fun _ => rfl⟩,rfl⟩
  | cons i nodes ih =>
    intro s t n m h
    rw [restoreNodes] at h
    split_ifs at h
    · exact ih h
    · cases h
    · obtain ⟨hlinks,hlocks⟩ := ih h
      obtain ⟨hindex,hnext,hall⟩ := SameLinks.enterGpu s i
      exact ⟨⟨hlinks.index.trans hindex,hlinks.next.trans hnext,fun j => (hlinks.links j).trans (hall j)⟩,hlocks⟩

theorem restorePrefix_kept {prompt : List ℤ} {count : ℤ} {m : TieredRadixMutation}
    (h : s.restorePrefix prompt count = (t,.ok m)) : Kept done s t := by
  obtain ⟨p,-,h⟩ := andThen_eq_ok.mp h
  simp only at h
  split_ifs at h with hrange hlength
  · cases h
  · cases h
  obtain ⟨restored,hrestore,h⟩ := andThen_eq_ok.mp h
  obtain ⟨rfl,-⟩ := checked_eq_ok h
  obtain ⟨hlinks,hlocks⟩ := restoreNodes_links _ (Prod.ext rfl hrestore)
  exact (Kept.of_same hlocks hlinks.symbol).trans (SameCore.touchNodes _ _).kept

theorem lockPrefix_kept {requestId : String} {path : List ℤ} {count : ℤ}
    (h : s.lockPrefix requestId path count = (t,.ok ())) : Kept done s t := by
  unfold lockPrefix at h
  split_ifs at h with hid hlock
  · cases h
  · cases h
  obtain ⟨p,-,h⟩ := andThen_eq_ok.mp h
  simp only at h
  split_ifs at h with hrange hnodes
  · cases h
  · cases h
  obtain ⟨rfl,-⟩ := checked_eq_ok h
  have hlinks := SameLinks.editAll s (s.existingPath 0 (p.take count.toNat))
    (f := fun n => { n with lockedByRequestIds := insert requestId n.lockedByRequestIds }) fun _ => rfl
  intro r _ ids hids
  refine ⟨⟨[],?_⟩,fun i _ => hlinks.symbol i⟩
  have hne : requestId ≠ r := by
    rintro rfl
    exact hlock ((Dict.mem_iff_get _ _).mpr ⟨ids,hids⟩)
  rw [List.append_nil,← hids]
  change (s.requestLocks.insert requestId _)[r]? = _
  rw [Dict.get_insert,if_neg hne]

theorem extendRequestGpu_kept (hs : s.Sound) {requestId : String} {path : List ℤ} {m : TieredRadixMutation}
    (h : s.extendRequestGpu requestId path true = (t,.ok m)) : Kept done s t := by
  have hcall := h
  obtain ⟨p,hp,hcall⟩ := andThen_eq_ok.mp hcall
  cases hp
  obtain ⟨endpoint,hend,-⟩ := andThen_eq_ok.mp hcall
  obtain ⟨hforesees,hmore,hother⟩ := Foresees.start.extend hs hs rfl hend h
  intro r _ ids hids
  refine ⟨?_,fun i hi => ?_⟩
  · by_cases hr : r = requestId
    · subst hr
      exact hmore ids hids
    · exact ⟨[],by rw [hother r hr,hids,List.append_nil]⟩
  · exact hforesees.symbol i (hs.linked.trail_mem hs.linked.root (hs.held.trail r ids hids) i hi).1

theorem prepareHost_kept (hs : s.Sound) {path : List ℤ} {m : TieredRadixMutation}
    (h : s.prepareHost path = (t,.ok m)) : Kept done s t := by
  obtain ⟨found,hfound,h⟩ := andThen_eq_ok.mp h
  obtain ⟨hmem,hne,-⟩ := requireSubtreeRoot_eq_ok hs.linked hfound
  obtain ⟨rfl,-⟩ := checked_eq_ok h
  obtain ⟨hmoves,-⟩ := foldl_moves (s := s) (f := copied) (fun n => by simp only [copied,Bool.or_assoc,Bool.or_self])
    (fun s n i hi => prepareNode_spec n hi) (s.subtreeNodes found.1) 0 (hs.linked.subtree_pos hmem hne)
  exact .of_same hmoves.requestLocks hmoves.symbol

theorem unlockRequest_kept {requestId : String} (h : s.unlockRequest requestId = (t,.ok ())) :
    Kept (some requestId) s t := by
  unfold unlockRequest at h
  cases hold : s.requestLocks[requestId]? with
  | none =>
    rw [hold] at h
    cases h
  | some nodeIds =>
    rw [hold] at h
    cases h
    intro r hr ids hids
    have hne : requestId ≠ r := fun heq => hr (congrArg some heq)
    refine ⟨⟨[],?_⟩,fun i _ => ?_⟩
    · rw [List.append_nil,← hids]
      change (s.requestLocks.erase requestId)[r]? = _
      rw [Dict.get_erase,if_neg hne]
    · exact (SameLinks.editAll { s with requestLocks := s.requestLocks.erase requestId }
        (nodeIds.filter (· ∈ s.nodesById))
        (f := fun n => { n with lockedByRequestIds := n.lockedByRequestIds.erase requestId }) fun _ => rfl).symbol i

theorem unlockRequest_tokens {requestId : String} (h : s.unlockRequest requestId = (t,.ok ())) : t.tokens = s.tokens := by
  unfold unlockRequest at h
  cases hold : s.requestLocks[requestId]? with
  | none =>
    rw [hold] at h
    cases h
  | some nodeIds =>
    rw [hold] at h
    cases h
    rfl

end BeliefKV.TieredTokenRadix
