import BeliefKV.Radix.Calls

/-! The calls of a radix whose self-check is switched off, and its runs. -/
namespace BeliefKV.TieredTokenRadix
open Call
variable {s t : TieredTokenRadix} {α β : Type}

def closureTexts : List String :=
  ["GPU materialization requires a GPU-resident ancestor",
    "GPU extension requires a GPU-resident ancestor",
    "H2D restore requires CPU source and GPU ancestor closure"]

/-- The errors that only a broken closure could cause. -/
def closureErrors : List RadixRaised := closureTexts.map .tieredTokenRadixError

/-- A call leaves the radix sound, and as it was when it raises. -/
structure Fine (s : TieredTokenRadix) (call : TieredTokenRadix × Except RadixRaised α) : Prop where
  sound : call.1.Sound
  raises : ∀ e, call.2 = .error e → call.1 = s ∧ e ∉ closureErrors

theorem checked_quiet (h : s.validateEachMutation = false) (a : α) : s.checked a = (s,.ok a) := by
  unfold checked checkAfterMutation
  rw [h]
  rfl

namespace Fine

theorem ok (ht : t.Sound) (a : α) : Fine s (t,.ok a) := ⟨ht,nofun⟩

theorem raise (hs : s.Sound) {e : RadixRaised} (he : e ∉ closureErrors) :
    Fine s ((s,.error e) : TieredTokenRadix × Except RadixRaised α) := by
  refine ⟨hs,fun e' h => ⟨rfl,?_⟩⟩
  cases h
  exact he

/-- The result is looked at, not the state. -/
theorem forget {call : TieredTokenRadix × Except RadixRaised α} (h : Fine s call) :
    Fine s (andThen call fun s _ => ((s,.ok ()) : TieredTokenRadix × Except RadixRaised Unit)) := by
  obtain ⟨t,result⟩ := call
  cases result with
  | ok a => exact ⟨h.sound,nofun⟩
  | error e => exact ⟨h.sound,fun e' he => by cases he; exact h.raises e rfl⟩

/-- A check before anything changes. -/
theorem check (hs : s.Sound) {x : Except RadixRaised α} {next : TieredTokenRadix → α →
    TieredTokenRadix × Except RadixRaised β} (herr : ∀ e, x = .error e → e ∉ closureErrors)
    (hnext : ∀ a, x = .ok a → Fine s (next s a)) : Fine s (andThen (s,x) next) := by
  cases x with
  | error e => exact raise hs (herr e rfl)
  | ok a => exact hnext a rfl

theorem checked (ht : t.Sound) (a : α) : Fine s (t.checked a) := by
  rw [checked_quiet ht.quiet]
  exact ok ht a

end Fine

/-! ## Errors of the checks -/

theorem append_ne {a text : String} (h : a.toList.isPrefixOf text.toList = false) (b : String) :
    a ++ b ≠ text := by
  rintro rfl
  rw [String.toList_append] at h
  have hpre : a.toList.isPrefixOf (a.toList ++ b.toList) = true :=
    List.isPrefixOf_iff_prefix.mpr (List.prefix_append _ _)
  rw [hpre] at h
  cases h

/-- The errors that name requests. -/
theorem named_notMem {a : String} (h : ∀ text ∈ closureTexts, a.toList.isPrefixOf text.toList = false)
    (b : String) : RadixRaised.tieredTokenRadixError (a ++ b) ∉ closureErrors := by
  intro hmem
  obtain ⟨text,htext,heq⟩ := List.mem_map.mp hmem
  injection heq with heq
  exact append_ne (h text htext) b heq.symm

theorem validatePath_eq_ok {path normalized : List ℤ} (h : validatePath path = .ok normalized) :
    normalized = path := by
  unfold validatePath at h
  split_ifs at h
  cases h
  rfl

theorem validatePath_error {path : List ℤ} {e : RadixRaised} (h : validatePath path = .error e) :
    e ∉ closureErrors := by
  unfold validatePath at h
  split_ifs at h
  cases h
  decide

theorem noLock_notMem (r : String) : noLock r ∉ closureErrors := named_notMem (by decide) r

theorem requireSubtreeRoot_error {path : List ℤ} {e : RadixRaised}
    (h : s.requireSubtreeRoot path = .error e) : e ∉ closureErrors := by
  unfold requireSubtreeRoot at h
  cases hv : validatePath path with
  | error e' =>
    rw [hv] at h
    cases h
    exact validatePath_error hv
  | ok normalized =>
    rw [hv] at h
    change (if normalized = [] then _ else _) = _ at h
    split_ifs at h
    · cases h
      decide
    · cases h
      decide

/-- The node of a path with its parent. -/
theorem requireSubtreeRoot_eq_ok (hl : s.Linked) {path : List ℤ} {found : ℕ × List ℤ}
    (h : s.requireSubtreeRoot path = .ok found) : found.1 ∈ s.nodesById ∧ found.1 ≠ 0 ∧
      ∃ p ∈ s.nodesById, ∃ x, s.Child p x found.1 := by
  unfold requireSubtreeRoot at h
  cases hv : validatePath path with
  | error e' =>
    rw [hv] at h
    cases h
  | ok normalized =>
    rw [hv] at h
    change (if normalized = [] then _ else if (s.existingPath 0 normalized).length ≠ normalized.length
      then _ else _) = _ at h
    split_ifs at h with hnil hlen
    cases h
    have htrail := existingPath_trail (s := s) 0 normalized
    have hne : s.existingPath 0 normalized ≠ [] := by
      intro hempty
      rw [hempty] at hlen
      exact hnil (List.length_eq_zero_iff.mp (not_not.mp hlen).symm)
    have hlast : (s.existingPath 0 normalized).getLast?.getD 0 ∈ s.existingPath 0 normalized := by
      rw [List.getLast?_eq_some_getLast hne]
      exact List.getLast_mem hne
    obtain ⟨hmem,hpos⟩ := hl.trail_mem hl.root htrail _ hlast
    refine ⟨hmem,by omega,?_⟩
    rcases hl.parent _ hmem with hzero | hpar
    · omega
    · exact hpar

/-! ## Calls -/

/-- Owners are none of the invariant's concern. -/
theorem bindContext_ok {contextId : String} (hne : contextId ≠ "") {path : List ℤ}
    (hpath : validatePath path = .ok path) :
    ∃ t, s.bindContext contextId path = (t,.ok ()) ∧ SameCore s t := by
  unfold bindContext
  rw [if_neg hne,hpath,andThen_ok]
  refine ⟨_,rfl,?_⟩
  have hclear := SameCore.editAll s (s.existingPath 0 (s.contextPaths[contextId]?.getD []))
    (f := fun n => { n with ownerContextIds := n.ownerContextIds.erase contextId }) fun _ => rfl
  refine SameCore.trans (t := { s.editAll (s.existingPath 0 (s.contextPaths[contextId]?.getD []))
    (fun n => { n with ownerContextIds := n.ownerContextIds.erase contextId }) with
    contextPaths := s.contextPaths.insert contextId path }) ?_ (SameCore.editAll _ _ fun n => ?_)
  · obtain ⟨⟨hi,hn,hl⟩,hq,hg,hc,hk,hr,hcount⟩ := hclear
    exact ⟨⟨hi,hn,hl⟩,hq,hg,hc,hk,hr,hcount⟩
  · split_ifs <;> rfl

theorem bindContext_fine (hs : s.Sound) (contextId : String) (path : List ℤ) :
    Fine s (s.bindContext contextId path) := by
  by_cases hne : contextId = ""
  · unfold bindContext
    rw [if_pos hne]
    exact .raise hs (by decide)
  · cases hv : validatePath path with
    | error e =>
      unfold bindContext
      rw [if_neg hne,hv]
      exact .raise hs (validatePath_error hv)
    | ok normalized =>
      cases validatePath_eq_ok hv
      obtain ⟨t,hcall,hcore⟩ := bindContext_ok (s := s) hne hv
      rw [hcall]
      exact .ok (hcore.sound hs) ()

theorem materializeGpu_fine (hs : s.Sound) (path : List ℤ) {contextId : Option String} (touch : Bool)
    (hid : contextId ≠ some "") : Fine s (s.materializeGpu path contextId touch) := by
  refine .check hs (fun e he => validatePath_error he) fun normalized hv => ?_
  cases validatePath_eq_ok hv
  obtain ⟨t,growth,hgrow,ht⟩ := growPath_ok none
    "GPU materialization requires a GPU-resident ancestor" {} path hs hs.linked.root hs.tiered.root nofun
  rw [hgrow,andThen_ok]
  have hend (u : TieredTokenRadix) (hu : u.Sound) :
      (if touch then u.touchNodes growth.visited else u).Sound := by
    split_ifs
    · exact (SameCore.touchNodes u _).sound hu
    · exact hu
  cases contextId with
  | none =>
    rw [andThen_ok]
    exact .checked (hend t ht) _
  | some contextId =>
    have hne : contextId ≠ "" := by
      rintro rfl
      exact hid rfl
    obtain ⟨u,hbind,hcore⟩ := bindContext_ok (s := t) hne hv
    dsimp only
    rw [hbind,andThen_ok]
    exact .checked (hend u (hcore.sound ht)) _

theorem lockPrefix_fine (hs : s.Sound) (requestId : String) (path : List ℤ) (tokenCount : ℤ) :
    Fine s (s.lockPrefix requestId path tokenCount) := by
  unfold lockPrefix
  by_cases hid : requestId = ""
  · rw [if_pos hid]
    exact .raise hs (by decide)
  rw [if_neg hid]
  by_cases hlock : requestId ∈ s.requestLocks
  · rw [if_pos hlock]
    exact .raise hs (named_notMem (by decide) requestId)
  rw [if_neg hlock]
  refine .check hs (fun e he => validatePath_error he) fun normalized _ => ?_
  by_cases hcount : tokenCount < 0 ∨ normalized.length < tokenCount
  · rw [if_pos hcount]
    exact .raise hs (by decide)
  rw [if_neg hcount]
  dsimp only
  by_cases hnodes : ((s.existingPath 0 (normalized.take tokenCount.toNat)).length : ℤ) ≠ tokenCount ∨
      ∃ i ∈ s.existingPath 0 (normalized.take tokenCount.toNat), (s.heap i).gpu = false
  · rw [if_pos hnodes]
    exact .raise hs (by decide)
  rw [if_neg hnodes]
  have hgpu (i : ℕ) (hi : i ∈ s.existingPath 0 (normalized.take tokenCount.toNat)) :
      (s.heap i).gpu = true := by
    by_contra hoff
    exact hnodes (.inr ⟨i,hi,by simpa using hoff⟩)
  have hnone : s.requestLocks[requestId]? = none := (Dict.notMem_iff_get _ _).mp hlock
  exact .checked (hs.relock [] _ (by rw [hnone]; rfl) (existingPath_trail 0 _) hgpu) ()

theorem extendLockPrefix_fine (hs : s.Sound) (requestId : String) (path : List ℤ) (tokenCount : ℤ) :
    Fine s (s.extendLockPrefix requestId path tokenCount) := by
  unfold extendLockPrefix
  cases hold : s.requestLocks[requestId]? with
  | none => exact .raise hs (noLock_notMem requestId)
  | some oldIds =>
    refine .check hs (fun e he => validatePath_error he) fun normalized _ => ?_
    by_cases hcount : tokenCount < oldIds.length ∨ normalized.length < tokenCount
    · rw [if_pos hcount]
      exact .raise hs (by decide)
    rw [if_neg hcount]
    dsimp only
    have htrail := existingPath_trail (s := s) 0 (normalized.take tokenCount.toNat)
    generalize s.existingPath 0 (normalized.take tokenCount.toNat) = nodes at htrail ⊢
    by_cases hnodes : (nodes.length : ℤ) ≠ tokenCount ∨ ∃ i ∈ nodes, (s.heap i).gpu = false
    · rw [if_pos hnodes]
      exact .raise hs (by decide)
    rw [if_neg hnodes]
    by_cases htake : nodes.take oldIds.length ≠ oldIds
    · rw [if_pos htake]
      exact .raise hs (by decide)
    rw [if_neg htake]
    have hsplit : oldIds ++ nodes.drop oldIds.length = nodes := by
      nth_rewrite 1 [← not_not.mp htake]
      exact List.take_append_drop _ _
    have hgpu (i : ℕ) (hi : i ∈ nodes.drop oldIds.length) : (s.heap i).gpu = true := by
      by_contra hoff
      exact hnodes (.inr ⟨i,List.mem_of_mem_drop hi,by simpa using hoff⟩)
    have hsound := hs.relock oldIds (nodes.drop oldIds.length) (by rw [hold]; rfl)
      (by rw [hsplit]; exact htrail) hgpu
    rw [hsplit] at hsound
    exact .checked hsound ()

/-- The walk goes on where the lock of the request ends. -/
theorem lockedPrefixEndpoint_spec (s : TieredTokenRadix) (requestId : String) (path : List ℤ) :
    (∀ endpoint, s.lockedPrefixEndpoint requestId path = .ok endpoint →
      ∃ ids, s.requestLocks[requestId]? = some ids ∧ endpoint.1 = endOf 0 ids) ∧
    ∀ e, s.lockedPrefixEndpoint requestId path = .error e → e ∉ closureErrors := by
  have hraise {e : RadixRaised} (he : e ∉ closureErrors) :
      (∀ endpoint, (Except.error e : Except RadixRaised (ℕ × ℕ)) = .ok endpoint →
        ∃ ids, s.requestLocks[requestId]? = some ids ∧ endpoint.1 = endOf 0 ids) ∧
      ∀ e', (Except.error e : Except RadixRaised (ℕ × ℕ)) = .error e' → e' ∉ closureErrors := by
    refine ⟨fun _ h => (by cases h),fun e' h => ?_⟩
    cases h
    exact he
  unfold lockedPrefixEndpoint
  cases hold : s.requestLocks[requestId]? with
  | none => exact ⟨fun _ h => (by cases h),fun e h => by cases h; exact noLock_notMem requestId⟩
  | some ids =>
    rw [hold] at hraise
    dsimp only
    by_cases hshort : path.length < ids.length
    · rw [if_pos hshort]
      exact hraise (by decide)
    rw [if_neg hshort]
    cases hlast : ids.getLast? with
    | none => exact ⟨fun endpoint h => ⟨ids,rfl,by cases h; simp [endOf,hlast]⟩,fun _ h => by cases h⟩
    | some last =>
      dsimp only
      by_cases hknown : last ∉ s.nodesById
      · rw [if_pos hknown]
        exact hraise (by simp [closureErrors])
      rw [if_neg hknown]
      by_cases hsymbol : (s.heap last).symbol ≠ path[ids.length - 1]?
      · rw [if_pos hsymbol]
        exact hraise (by decide)
      rw [if_neg hsymbol]
      by_cases hvalid : s.validateEachMutation ∧ s.existingPath 0 (path.take ids.length) ≠ ids
      · rw [if_pos hvalid]
        exact hraise (by decide)
      rw [if_neg hvalid]
      exact ⟨fun endpoint h => ⟨ids,rfl,by cases h; simp [endOf,hlast]⟩,fun _ h => by cases h⟩

theorem extendRequestGpu_fine (hs : s.Sound) (requestId : String) (path : List ℤ) (validated : Bool) :
    Fine s (s.extendRequestGpu requestId path validated) := by
  refine .check hs (fun e he => ?_) fun normalized _ => ?_
  · split_ifs at he
    exact validatePath_error he
  refine .check hs (lockedPrefixEndpoint_spec s requestId normalized).2 fun endpoint hend => ?_
  obtain ⟨ids,hids,hnode⟩ := (lockedPrefixEndpoint_spec s requestId normalized).1 endpoint hend
  have htrail := hs.held.trail requestId ids hids
  have hmem : endpoint.1 ∈ s.nodesById := hnode ▸ hs.linked.endOf_mem hs.linked.root htrail
  have hgpu : (s.heap endpoint.1).gpu = true := by
    rw [hnode]
    unfold endOf
    cases hlast : ids.getLast? with
    | none => exact hs.tiered.root
    | some last => exact (hs.locked_gpu hids last (List.mem_of_getLast? hlast)).2
  obtain ⟨t,growth,hgrow,ht⟩ := growPath_ok (some requestId)
    "GPU extension requires a GPU-resident ancestor" {} (normalized.drop endpoint.2) hs hmem hgpu fun r hr => by
      cases hr
      exact ⟨ids,hids,hnode.symm⟩
  rw [hgrow,andThen_ok]
  exact .checked ((SameCore.touchNodes t _).sound ht) _

theorem unlockRequest_fine (hs : s.Sound) (requestId : String) : Fine s (s.unlockRequest requestId) := by
  unfold unlockRequest
  cases hold : s.requestLocks[requestId]? with
  | none => exact .raise hs (noLock_notMem requestId)
  | some ids => exact .ok (hs.unlock hold) ()

theorem restorePrefix_fine (hs : s.Sound) (prompt : List ℤ) (tokenCount : ℤ) :
    Fine s (s.restorePrefix prompt tokenCount) := by
  refine .check hs (fun e he => validatePath_error he) fun normalized _ => ?_
  by_cases hcount : tokenCount < 0 ∨ (normalized.length - 1 : ℕ) < tokenCount
  · rw [if_pos hcount]
    exact .raise hs (by decide)
  rw [if_neg hcount]
  dsimp only
  by_cases hlen : ((s.existingPath 0 (normalized.take tokenCount.toNat)).length : ℤ) ≠ tokenCount
  · rw [if_pos hlen]
    exact .raise hs (by decide)
  rw [if_neg hlen]
  obtain ⟨t,m,hrestore,ht⟩ := restoreNodes_ok (n := 0) hs hs.linked.root hs.tiered.root
    (existingPath_trail 0 (normalized.take tokenCount.toNat))
  rw [hrestore,andThen_ok]
  exact .checked ((SameCore.touchNodes t _).sound ht) _

theorem prepareHost_fine (hs : s.Sound) (rootPath : List ℤ) : Fine s (s.prepareHost rootPath) := by
  refine .check hs (fun e he => requireSubtreeRoot_error he) fun found hfound => ?_
  obtain ⟨hmem,hne,-⟩ := requireSubtreeRoot_eq_ok hs.linked hfound
  exact .checked (hs.prepare (hs.linked.subtree_pos hmem hne)) _

theorem locksOf_eq_empty {nodes : List ℕ} (h : s.locksOf nodes = ∅) :
    ∀ i ∈ nodes, (s.heap i).lockedByRequestIds = ∅ := by
  intro i hi
  refine Finset.eq_empty_of_forall_notMem fun r hr => ?_
  have hmem : r ∈ s.locksOf nodes := Finset.mem_biUnion.mpr ⟨i,List.mem_toFinset.mpr hi,hr⟩
  rw [h] at hmem
  exact Finset.notMem_empty r hmem

theorem commitCpu_fine (hs : s.Sound) (rootPath : List ℤ) : Fine s (s.commitCpu rootPath) := by
  refine .check hs (fun e he => requireSubtreeRoot_error he) fun found hfound => ?_
  obtain ⟨hmem,hne,-⟩ := requireSubtreeRoot_eq_ok hs.linked hfound
  by_cases hlocks : s.locksOf (s.subtreeNodes found.1) ≠ ∅
  · rw [if_pos hlocks]
    exact .raise hs (named_notMem (by decide) _)
  rw [if_neg hlocks]
  exact .checked (hs.commit (hs.linked.subtree_pos hmem hne) (hs.linked.subtree hmem).2.2.2.1
    (locksOf_eq_empty (not_not.mp hlocks))) _

theorem dropSubtree_fine (hs : s.Sound) (rootPath : List ℤ) : Fine s (s.dropSubtree rootPath) := by
  refine .check hs (fun e he => requireSubtreeRoot_error he) fun found hfound => ?_
  obtain ⟨-,-,p,hp,x,hx⟩ := requireSubtreeRoot_eq_ok hs.linked hfound
  obtain ⟨-,hpar,hsym,-⟩ := hs.linked.child p hp x found.1 hx
  by_cases hlocks : s.locksOf (s.subtreeNodes found.1) ≠ ∅
  · rw [if_pos hlocks]
    exact .raise hs (named_notMem (by decide) _)
  rw [if_neg hlocks]
  rw [hpar,hsym]
  exact .checked (hs.detach hs.linked hp hx (locksOf_eq_empty (not_not.mp hlocks))) _

/-! ## Runs -/

/-- The ids that a call names are not empty. -/
def Op.Named : Op → Prop
  | .materializeGpu _ contextId _ => contextId ≠ some ""
  | .bindContext contextId _ => contextId ≠ ""
  | .lockPrefix requestId _ _ | .extendLockPrefix requestId _ _ | .extendRequestGpu requestId _ _
  | .unlockRequest requestId => requestId ≠ ""
  | .restorePrefix .. | .prepareHost .. | .commitCpu .. | .dropSubtree .. => True

theorem call_fine (hs : s.Sound) {op : Op} (hop : op.Named) : Fine s (s.call op) := by
  cases op with
  | materializeGpu path contextId touch => exact (materializeGpu_fine hs path touch hop).forget
  | bindContext contextId path => exact bindContext_fine hs contextId path
  | lockPrefix requestId path tokenCount => exact lockPrefix_fine hs requestId path tokenCount
  | extendLockPrefix requestId path tokenCount =>
    exact extendLockPrefix_fine hs requestId path tokenCount
  | extendRequestGpu requestId path validated =>
    exact (extendRequestGpu_fine hs requestId path validated).forget
  | unlockRequest requestId => exact unlockRequest_fine hs requestId
  | restorePrefix prompt tokenCount => exact (restorePrefix_fine hs prompt tokenCount).forget
  | prepareHost rootPath => exact (prepareHost_fine hs rootPath).forget
  | commitCpu rootPath => exact (commitCpu_fine hs rootPath).forget
  | dropSubtree rootPath => exact (dropSubtree_fine hs rootPath).forget

/-- A new radix without the self-check. -/
def unchecked : TieredTokenRadix := { validateEachMutation := false }

theorem unchecked_sound : unchecked.Sound := by
  have hroot {i : ℕ} (hi : i ∈ unchecked.nodesById) : i = 0 := Finset.mem_singleton.mp hi
  have hleaf {i : ℕ} {x : ℤ} {c : ℕ} : ¬ unchecked.Child i x c := by
    unfold Child unchecked
    simp
  refine ⟨rfl,⟨Finset.mem_singleton_self 0,rfl,fun i hi => ?_,fun i hi x c hx => absurd hx hleaf,
    fun c hc => .inl (hroot hc)⟩,⟨rfl,fun i hi hne => absurd (hroot hi) hne,
    fun i hi x c hx => absurd hx hleaf,fun i hi hne => absurd (hroot hi) hne⟩,⟨rfl,rfl,rfl⟩,
    ⟨fun r ids hr => ?_,fun r i hi => ?_⟩⟩
  · rw [hroot hi]
    exact Nat.one_pos
  · simp [unchecked] at hr
  · simp [unchecked]

/-- What the self-check would find, whose the locks are, and what a call that raises leaves. -/
structure Faithful (s : TieredTokenRadix) : Prop where
  passes : s.assertInvariants = .ok ()
  paths : ∀ (requestId : String) (ids : List ℕ), s.requestLocks[requestId]? = some ids →
    ∃ path : List ℤ, path.length = ids.length ∧ s.existingPath 0 path = ids
  carriers : ∀ (requestId : String), ∀ i ∈ s.nodesById,
    requestId ∈ (s.heap i).lockedByRequestIds ↔
      ∃ ids, s.requestLocks[requestId]? = some ids ∧ i ∈ ids
  atomic : ∀ op : Op, op.Named → ∀ e, (s.call op).2 = .error e →
    (s.call op).1 = s ∧ e ∉ closureErrors

/-- After every sequence of calls on a radix without the self-check: the self-check would pass,
the lock list of a request is the path from the root of the nodes that carry its lock, and a call
that raises changes nothing and does not raise because of the closure. -/
theorem unchecked_runs_faithful (ops : List Op) (hops : ∀ op ∈ ops, op.Named) :
    (unchecked.run ops).Faithful := by
  have hsound : (unchecked.run ops).Sound := by
    refine List.foldlRecOn ops step unchecked_sound fun s hs op hop => ?_
    exact (call_fine hs (hops op hop)).sound
  refine ⟨assertInvariants_eq_ok hsound.linked hsound.tiered hsound.counted,fun r ids hr => ?_,
    hsound.held.carried,fun op hop e he => ?_⟩
  · exact (hsound.held.trail r ids hr).path
  · exact (call_fine hsound hop).raises e he

/-- Two prompts with a common prefix, a lock that grows, and an eviction. -/
def twoPrompts : List Op :=
  [.materializeGpu [1,2,3] (some "c") true,.materializeGpu [1,2,4] none true,
    .lockPrefix "r" [1,2,3] 2,.extendRequestGpu "r" [1,2,3,5] false,.commitCpu [1,2,4]]

theorem unchecked_runs_faithful_sample : (unchecked.run twoPrompts).Faithful ∧
    (unchecked.run twoPrompts).requestLocks["r"]? = some [1,2,3,5] := by
  refine ⟨unchecked_runs_faithful twoPrompts ?_,by decide +kernel⟩
  simp [twoPrompts,Op.Named]

end BeliefKV.TieredTokenRadix
