import BeliefKV.Radix.Demand

/-! Radixes with the self-check switched on: it finds nothing, so the calls do what they do without it. -/
namespace BeliefKV.TieredTokenRadix
open Call
variable {s t : TieredTokenRadix} {α β : Type}

/-! ## The switch -/

/-- The radix with the self-check switched off. -/
def quietly (s : TieredTokenRadix) : TieredTokenRadix := { s with validateEachMutation := false }

/-- A call with the self-check switched off in what it leaves. -/
def hush (call : TieredTokenRadix × Except RadixRaised α) : TieredTokenRadix × Except RadixRaised α :=
  (call.1.quietly,call.2)

@[simp] theorem heap_quietly (s : TieredTokenRadix) : s.quietly.heap = s.heap := rfl

theorem hush_ok (s : TieredTokenRadix) (a : α) : hush (s,.ok a) = (s.quietly,.ok a) := rfl

/-- Sound, whether the self-check is on or off. -/
structure Whole (s : TieredTokenRadix) : Prop where
  sound : s.quietly.Sound

theorem Whole.linked (h : s.Whole) : s.Linked :=
  ⟨h.sound.linked.root,h.sound.linked.top,h.sound.linked.below,h.sound.linked.child,h.sound.linked.parent⟩

theorem Whole.tiered (h : s.Whole) : s.Tiered ∅ :=
  ⟨h.sound.tiered.root,h.sound.tiered.tier,h.sound.tiered.closed,h.sound.tiered.locked⟩

theorem Whole.counted (h : s.Whole) : s.Counted := ⟨h.sound.counted.unique,h.sound.counted.gpu,h.sound.counted.cpu⟩

theorem Whole.checked (h : s.Whole) (a : α) : s.checked a = (s,.ok a) := by
  have hpass : s.checkAfterMutation = .ok () := by
    unfold checkAfterMutation
    by_cases hon : s.validateEachMutation = true
    · rw [if_pos hon]
      exact assertInvariants_eq_ok h.linked h.tiered h.counted
    · exact if_neg hon
  unfold TieredTokenRadix.checked
  rw [hpass,andThen_ok]

theorem hush_checked (h : s.Whole) (a : α) : hush (s.checked a) = s.quietly.checked a := by
  rw [h.checked,hush_ok,checked_quiet rfl]

theorem hush_andThen {call : TieredTokenRadix × Except RadixRaised α}
    {next next' : TieredTokenRadix → α → TieredTokenRadix × Except RadixRaised β}
    (hsound : (andThen (hush call) next').1.Sound)
    (hnext : ∀ t a, (next' t.quietly a).1.Sound → hush (next t a) = next' t.quietly a) :
    hush (andThen call next) = andThen (hush call) next' := by
  obtain ⟨t,result⟩ := call
  cases result with
  | error e => rfl
  | ok a => exact hnext t a hsound

/-- A call that ends with the self-check. -/
theorem hush_last {a : α} (h : (s.quietly.checked a).1.Sound) : hush (s.checked a) = s.quietly.checked a := by
  rw [checked_quiet rfl] at h
  exact hush_checked ⟨h⟩ a

theorem existingPath_heap (h : t.heap = s.heap) (path : List ℤ) :
    ∀ i, t.existingPath i path = s.existingPath i path := by
  induction path with
  | nil => exact fun _ => rfl
  | cons x path ih =>
    intro i
    rw [existingPath,existingPath,h]
    cases (s.heap i).children[x]? with
    | none => rfl
    | some c => exact congrArg (c :: ·) (ih c)

@[simp] theorem existingPath_quietly (s : TieredTokenRadix) (i : ℕ) (path : List ℤ) :
    s.quietly.existingPath i path = s.existingPath i path := existingPath_heap (t := s.quietly) (s := s) rfl path i

/-! ## The calls -/

theorem hush_touchNodes (ids : List ℕ) : (s.touchNodes ids).quietly = s.quietly.touchNodes ids := by
  unfold touchNodes
  split_ifs
  · rfl
  · rfl

theorem hush_childOrNew (node : ℕ) (x : ℤ) :
    s.quietly.childOrNew node x = ((s.childOrNew node x).1.quietly,(s.childOrNew node x).2) := by
  unfold childOrNew
  rw [heap_quietly]
  cases (s.heap node).children[x]? with
  | none => rfl
  | some c => rfl

theorem hush_lockNode (request : Option String) (i : ℕ) :
    (s.lockNode request i).quietly = s.quietly.lockNode request i := by
  cases request with
  | none => rfl
  | some r => rfl

theorem hush_growPath (request : Option String) (message : String) (path : List ℤ) :
    ∀ (s : TieredTokenRadix) (node : ℕ) (acc : Growth),
      hush (growPath request message s node acc path) = growPath request message s.quietly node acc path := by
  induction path with
  | nil => exact fun _ _ _ => rfl
  | cons x path ih =>
    intro s node acc
    have hstate : (s.quietly.childOrNew node x).1 = (s.childOrNew node x).1.quietly :=
      congrArg Prod.fst (hush_childOrNew node x)
    have hnode : (s.quietly.childOrNew node x).2 = (s.childOrNew node x).2 := by rw [hush_childOrNew]
    rw [growPath,growPath,hstate,hnode]
    generalize (s.childOrNew node x).1 = s'
    generalize (s.childOrNew node x).2 = c
    by_cases hgpu : (s'.heap c).gpu = true
    · have hgpu' : (s'.quietly.heap c).gpu = true := hgpu
      rw [if_pos hgpu,if_pos hgpu',ih,hush_lockNode]
    have hgpu' : ¬ (s'.quietly.heap c).gpu = true := hgpu
    rw [if_neg hgpu,if_neg hgpu']
    by_cases hraise : (s'.heap node).gpu = false
    · have hraise' : (s'.quietly.heap node).gpu = false := hraise
      rw [if_pos hraise,if_pos hraise']
      rfl
    · have hraise' : ¬ (s'.quietly.heap node).gpu = false := hraise
      rw [if_neg hraise,if_neg hraise',ih,hush_lockNode]
      rfl

theorem hush_restoreNodes (nodes : List ℕ) : ∀ (s : TieredTokenRadix) (n : ℕ),
    hush (restoreNodes s n nodes) = restoreNodes s.quietly n nodes := by
  induction nodes with
  | nil => exact fun _ _ => rfl
  | cons i nodes ih =>
    intro s n
    rw [restoreNodes,restoreNodes]
    change _ = if (s.heap i).gpu = true then _ else
      if (s.heap i).cpu = false ∨ ((s.heap i).parent.any fun p => !(s.heap p).gpu) = true then _ else _
    split_ifs
    · exact ih s n
    · rfl
    · exact ih (s.enterGpu i) (n + 1)

theorem hush_prepareNode (n i : ℕ) :
    prepareNode (s.quietly,n) i = ((prepareNode (s,n) i).1.quietly,(prepareNode (s,n) i).2) := by
  unfold prepareNode
  change (if (s.heap i).gpu = true ∧ (s.heap i).cpu = false then _ else _) = _
  split_ifs
  · rfl
  · rfl

theorem hush_commitNode (acc : ℕ × ℕ) (i : ℕ) :
    commitNode (s.quietly,acc) i = ((commitNode (s,acc) i).1.quietly,(commitNode (s,acc) i).2) := by
  unfold commitNode
  simp only [hush_prepareNode]
  change (if ((prepareNode (s,acc.1) i).1.heap i).gpu = true then _ else _) = _
  split_ifs
  · rfl
  · rfl

theorem hush_foldl {f : TieredTokenRadix × β → ℕ → TieredTokenRadix × β}
    (hstep : ∀ (s : TieredTokenRadix) (b : β) (i : ℕ), f (s.quietly,b) i = ((f (s,b) i).1.quietly,(f (s,b) i).2))
    (nodes : List ℕ) : ∀ (s : TieredTokenRadix) (b : β),
      nodes.foldl f (s.quietly,b) = ((nodes.foldl f (s,b)).1.quietly,(nodes.foldl f (s,b)).2) := by
  induction nodes with
  | nil => exact fun _ _ => rfl
  | cons i nodes ih =>
    intro s b
    rw [List.foldl_cons,List.foldl_cons,hstep]
    exact ih (f (s,b) i).1 (f (s,b) i).2

/-- The context has left its old path. -/
def rebound (s : TieredTokenRadix) (contextId : String) (path : List ℤ) : TieredTokenRadix :=
  { s.editAll (s.existingPath 0 (s.contextPaths[contextId]?.getD [])) fun n =>
      { n with ownerContextIds := n.ownerContextIds.erase contextId } with
    contextPaths := s.contextPaths.insert contextId path }

theorem hush_rebound (contextId : String) (path : List ℤ) :
    (s.rebound contextId path).quietly = s.quietly.rebound contextId path := by
  unfold rebound
  rw [existingPath_quietly]
  rfl

theorem hush_bindContext (contextId : String) (path : List ℤ) :
    hush (s.bindContext contextId path) = s.quietly.bindContext contextId path := by
  unfold bindContext
  split_ifs
  · rfl
  cases validatePath path with
  | error e => rfl
  | ok normalized =>
    change _ = ((s.quietly.rebound contextId normalized).editAll
      ((s.quietly.rebound contextId normalized).existingPath 0 normalized) _,_)
    rw [← hush_rebound,existingPath_quietly]
    rfl

theorem hush_materializeGpu {path : List ℤ} {contextId : Option String} {touch : Bool}
    (h : (s.quietly.materializeGpu path contextId touch).1.Sound) :
    hush (s.materializeGpu path contextId touch) = s.quietly.materializeGpu path contextId touch := by
  refine hush_andThen h fun t normalized h => ?_
  rw [← hush_growPath] at h ⊢
  refine hush_andThen h fun t growth h => ?_
  have hend (t : TieredTokenRadix) (m : TieredRadixMutation)
      (h : ((if touch then t.quietly.touchNodes growth.visited else t.quietly).checked m).1.Sound) :
      hush ((if touch then t.touchNodes growth.visited else t).checked m) =
        (if touch then t.quietly.touchNodes growth.visited else t.quietly).checked m := by
    split_ifs at h ⊢
    · rw [← hush_touchNodes] at h ⊢
      exact hush_last h
    · exact hush_last h
  cases contextId with
  | none => exact hend t _ h
  | some contextId =>
    simp only at h ⊢
    rw [← hush_bindContext] at h ⊢
    exact hush_andThen h fun t _ h => hend t _ h

theorem hush_lockPrefix {requestId : String} {path : List ℤ} {tokenCount : ℤ}
    (h : (s.quietly.lockPrefix requestId path tokenCount).1.Sound) :
    hush (s.lockPrefix requestId path tokenCount) = s.quietly.lockPrefix requestId path tokenCount := by
  have hlocks : s.quietly.requestLocks = s.requestLocks := rfl
  unfold lockPrefix at h ⊢
  rw [hlocks] at h ⊢
  split_ifs at h ⊢
  · rfl
  · rfl
  refine hush_andThen h fun t normalized h => ?_
  simp only [existingPath_quietly,heap_quietly] at h ⊢
  split_ifs at h ⊢
  · rfl
  · rfl
  · exact hush_last h

theorem hush_extendLockPrefix {requestId : String} {path : List ℤ} {tokenCount : ℤ}
    (h : (s.quietly.extendLockPrefix requestId path tokenCount).1.Sound) :
    hush (s.extendLockPrefix requestId path tokenCount) = s.quietly.extendLockPrefix requestId path tokenCount := by
  unfold extendLockPrefix at h ⊢
  have hlocks : s.quietly.requestLocks[requestId]? = s.requestLocks[requestId]? := rfl
  rw [hlocks] at h ⊢
  cases hold : s.requestLocks[requestId]? with
  | none => rfl
  | some oldIds =>
    rw [hold] at h
    refine hush_andThen h fun t normalized h => ?_
    simp only [existingPath_quietly,heap_quietly] at h ⊢
    split_ifs at h ⊢
    · rfl
    · rfl
    · rfl
    · exact hush_last h

theorem hush_unlockRequest (requestId : String) :
    hush (s.unlockRequest requestId) = s.quietly.unlockRequest requestId := by
  have hlocks : s.quietly.requestLocks[requestId]? = s.requestLocks[requestId]? := rfl
  unfold unlockRequest
  rw [hlocks]
  cases s.requestLocks[requestId]? with
  | none => rfl
  | some nodeIds => rfl

theorem hush_restorePrefix {prompt : List ℤ} {tokenCount : ℤ}
    (h : (s.quietly.restorePrefix prompt tokenCount).1.Sound) :
    hush (s.restorePrefix prompt tokenCount) = s.quietly.restorePrefix prompt tokenCount := by
  refine hush_andThen h fun t normalized h => ?_
  simp only [existingPath_quietly] at h ⊢
  split_ifs at h ⊢
  · rfl
  · rfl
  rw [← hush_restoreNodes] at h ⊢
  refine hush_andThen h fun t restored h => ?_
  rw [← hush_touchNodes] at h ⊢
  exact hush_last h

theorem requireSubtreeRoot_quietly (path : List ℤ) :
    s.quietly.requireSubtreeRoot path = s.requireSubtreeRoot path := by
  unfold requireSubtreeRoot
  simp only [existingPath_quietly]

theorem hush_prepareHost {path : List ℤ} (h : (s.quietly.prepareHost path).1.Sound) :
    hush (s.prepareHost path) = s.quietly.prepareHost path := by
  unfold prepareHost at h ⊢
  rw [requireSubtreeRoot_quietly] at h ⊢
  refine hush_andThen h fun t found h => ?_
  have hnodes : t.quietly.subtreeNodes found.1 = t.subtreeNodes found.1 := rfl
  have hfold := hush_foldl (f := prepareNode) (fun s n i => hush_prepareNode n i) (t.subtreeNodes found.1) t 0
  simp only [hnodes,hfold] at h ⊢
  exact hush_last h

theorem hush_commitCpu {path : List ℤ} (h : (s.quietly.commitCpu path).1.Sound) :
    hush (s.commitCpu path) = s.quietly.commitCpu path := by
  unfold commitCpu at h ⊢
  rw [requireSubtreeRoot_quietly] at h ⊢
  refine hush_andThen h fun t found h => ?_
  have hnodes : t.quietly.subtreeNodes found.1 = t.subtreeNodes found.1 := rfl
  have hlocks : t.quietly.locksOf (t.subtreeNodes found.1) = t.locksOf (t.subtreeNodes found.1) := rfl
  have hfold := hush_foldl (f := commitNode) (fun s acc i => hush_commitNode acc i) (t.subtreeNodes found.1) t (0,0)
  simp only [hnodes,hlocks,hfold] at h ⊢
  split_ifs at h ⊢
  · rfl
  · exact hush_last h

theorem hush_dropSubtree {path : List ℤ} (h : (s.quietly.dropSubtree path).1.Sound) :
    hush (s.dropSubtree path) = s.quietly.dropSubtree path := by
  unfold dropSubtree at h ⊢
  rw [requireSubtreeRoot_quietly] at h ⊢
  refine hush_andThen h fun t found h => ?_
  have hnodes : t.quietly.subtreeNodes found.1 = t.subtreeNodes found.1 := rfl
  have hlocks : t.quietly.locksOf (t.subtreeNodes found.1) = t.locksOf (t.subtreeNodes found.1) := rfl
  simp only [hnodes,hlocks,heap_quietly] at h ⊢
  split_ifs at h ⊢
  · rfl
  cases hparent : (t.heap found.1).parent with
  | none => rfl
  | some parent =>
    cases hsymbol : (t.heap found.1).symbol with
    | none => rfl
    | some x =>
      rw [hparent,hsymbol] at h
      exact hush_last (s := t.detach found.1 parent x) h

/-! ## Extensions -/

/-- A path that passes the check, or need not, is as it was. -/
theorem checkedPath_eq {validated : Bool} {path normalized : List ℤ}
    (h : (if validated then .ok path else validatePath path : Except RadixRaised (List ℤ)) = .ok normalized) :
    normalized = path := by
  split_ifs at h
  · cases h
    rfl
  · exact validatePath_eq_ok h

/-- The self-check compares the whole lock with the path. -/
theorem lockedPrefixEndpoint_quietly (requestId : String) (path : List ℤ) :
    s.lockedPrefixEndpoint requestId path = s.quietly.lockedPrefixEndpoint requestId path ∨
      ∃ raised, s.lockedPrefixEndpoint requestId path = .error raised := by
  have hlocks : s.quietly.requestLocks[requestId]? = s.requestLocks[requestId]? := rfl
  unfold lockedPrefixEndpoint
  rw [hlocks]
  cases hids : s.requestLocks[requestId]? with
  | none => exact .inl rfl
  | some ids =>
    simp only
    by_cases hshort : path.length < ids.length
    · rw [if_pos hshort,if_pos hshort]
      exact .inl rfl
    rw [if_neg hshort,if_neg hshort]
    cases ids.getLast? with
    | none => exact .inl rfl
    | some last =>
      simp only
      have hindex : s.quietly.nodesById = s.nodesById := rfl
      rw [hindex,heap_quietly]
      by_cases hknown : last ∉ s.nodesById
      · rw [if_pos hknown,if_pos hknown]
        exact .inl rfl
      rw [if_neg hknown,if_neg hknown]
      by_cases hsymbol : (s.heap last).symbol ≠ path[ids.length - 1]?
      · rw [if_pos hsymbol,if_pos hsymbol]
        exact .inl rfl
      rw [if_neg hsymbol,if_neg hsymbol]
      have hoff : ¬ (s.quietly.validateEachMutation = true ∧
        s.quietly.existingPath 0 (path.take ids.length) ≠ ids) := fun h => Bool.false_ne_true h.1
      rw [if_neg hoff]
      by_cases hpath : s.validateEachMutation = true ∧ s.existingPath 0 (path.take ids.length) ≠ ids
      · rw [if_pos hpath]
        exact .inr ⟨_,rfl⟩
      · rw [if_neg hpath]
        exact .inl rfl

theorem hush_extendRequestGpu {requestId : String} {path : List ℤ} {validated : Bool}
    (hend : s.lockedPrefixEndpoint requestId path = s.quietly.lockedPrefixEndpoint requestId path)
    (h : (s.quietly.extendRequestGpu requestId path validated).1.Sound) :
    hush (s.extendRequestGpu requestId path validated) = s.quietly.extendRequestGpu requestId path validated := by
  unfold extendRequestGpu at h ⊢
  cases hpath : (if validated = true then .ok path else validatePath path : Except RadixRaised (List ℤ)) with
  | error e => rfl
  | ok normalized =>
    obtain rfl := checkedPath_eq hpath
    rw [hpath] at h
    rw [andThen_ok] at h ⊢
    rw [andThen_ok]
    rw [hend]
    refine hush_andThen h fun t endpoint h => ?_
    rw [← hush_growPath] at h ⊢
    refine hush_andThen h fun t growth h => ?_
    rw [← hush_touchNodes] at h ⊢
    exact hush_last h

/-! ## Runs -/

/-- The result is left, the state is kept. -/
def forget (call : TieredTokenRadix × Except RadixRaised α) : TieredTokenRadix × Except RadixRaised Unit :=
  andThen call fun s _ => (s,.ok ())

theorem hush_forget (call : TieredTokenRadix × Except RadixRaised α) : hush (forget call) = forget (hush call) := by
  obtain ⟨t,result⟩ := call
  cases result with
  | error e => rfl
  | ok a => rfl

theorem forget_sound {call : TieredTokenRadix × Except RadixRaised α} (h : (forget call).1.Sound) : call.1.Sound := by
  obtain ⟨t,result⟩ := call
  cases result with
  | error e => exact h
  | ok a => exact h

/-- Whatever a call names, it leaves the radix sound. -/
theorem call_sound (hs : s.Sound) (op : Op) : (s.call op).1.Sound := by
  by_cases hop : op.Named
  · exact (call_fine hs hop).sound
  cases op with
  | materializeGpu path contextId touch =>
    obtain rfl : contextId = some "" := not_not.mp hop
    have hgrown : (s.materializeGpu path (some "") touch).1.Sound := by
      unfold materializeGpu
      cases hv : validatePath path with
      | error e => exact hs
      | ok normalized =>
        -- the path is on the GPU by the time that the context is refused
        obtain ⟨t,growth,hgrow,ht⟩ := growPath_ok none "GPU materialization requires a GPU-resident ancestor" {}
          normalized hs hs.linked.root hs.tiered.root nofun
        rw [andThen_ok,hgrow,andThen_ok]
        exact ht
    exact andThen_cases (P := Sound) hgrown fun _ => hgrown
  | bindContext contextId path => exact (bindContext_fine hs contextId path).sound
  | lockPrefix requestId path tokenCount => exact (lockPrefix_fine hs requestId path tokenCount).sound
  | extendLockPrefix requestId path tokenCount => exact (extendLockPrefix_fine hs requestId path tokenCount).sound
  | extendRequestGpu requestId path validated => exact (extendRequestGpu_fine hs requestId path validated).forget.sound
  | unlockRequest requestId => exact (unlockRequest_fine hs requestId).sound
  | restorePrefix prompt tokenCount => exact absurd trivial hop
  | prepareHost rootPath => exact absurd trivial hop
  | commitCpu rootPath => exact absurd trivial hop
  | dropSubtree rootPath => exact absurd trivial hop

theorem quietly_call (hs : s.Whole) (op : Op) :
    (s.call op).1 = s ∨ hush (s.call op) = s.quietly.call op := by
  have hsound := call_sound hs.sound op
  cases op with
  | materializeGpu path contextId touch =>
    refine .inr ((hush_forget _).trans (congrArg _ (hush_materializeGpu ?_)))
    exact forget_sound hsound
  | bindContext contextId path => exact .inr (hush_bindContext contextId path)
  | lockPrefix requestId path tokenCount => exact .inr (hush_lockPrefix hsound)
  | extendLockPrefix requestId path tokenCount => exact .inr (hush_extendLockPrefix hsound)
  | extendRequestGpu requestId path validated =>
    obtain hend | ⟨raised,hraise⟩ := lockedPrefixEndpoint_quietly (s := s) requestId path
    · exact .inr ((hush_forget _).trans (congrArg _ (hush_extendRequestGpu hend (forget_sound hsound))))
    · have hstay : (s.extendRequestGpu requestId path validated).1 = s := by
        unfold extendRequestGpu
        cases hpath : (if validated = true then .ok path else validatePath path : Except RadixRaised (List ℤ)) with
        | error e => rfl
        | ok normalized =>
          obtain rfl := checkedPath_eq hpath
          rw [andThen_ok,hraise]
          rfl
      exact .inl (andThen_cases (P := (· = s)) hstay fun _ => hstay)
  | unlockRequest requestId => exact .inr (hush_unlockRequest requestId)
  | restorePrefix prompt tokenCount =>
    exact .inr ((hush_forget _).trans (congrArg _ (hush_restorePrefix (forget_sound hsound))))
  | prepareHost rootPath =>
    exact .inr ((hush_forget _).trans (congrArg _ (hush_prepareHost (forget_sound hsound))))
  | commitCpu rootPath =>
    exact .inr ((hush_forget _).trans (congrArg _ (hush_commitCpu (forget_sound hsound))))
  | dropSubtree rootPath =>
    exact .inr ((hush_forget _).trans (congrArg _ (hush_dropSubtree (forget_sound hsound))))

theorem Whole.call (hs : s.Whole) (op : Op) : (s.call op).1.Whole := by
  obtain hsame | hhush := quietly_call hs op
  · rw [hsame]
    exact hs
  · have hsound := call_sound hs.sound op
    rw [← hhush] at hsound
    exact ⟨hsound⟩

theorem Whole.matchPrompt (hs : s.Whole) (prompt : List ℤ) (touch : Bool) : (s.matchPrompt prompt touch).1.Whole := by
  unfold TieredTokenRadix.matchPrompt
  refine andThen_cases (P := Whole) hs fun path => ?_
  split_ifs
  · refine ⟨?_⟩
    rw [hush_touchNodes]
    exact (SameCore.touchNodes _ _).sound hs.sound
  · exact hs

/-- The radixes that can be had: a new one, with or without the self-check, and what the calls leave. -/
inductive Reached (allowed : Op → Prop) : TieredTokenRadix → Prop
  | new (validate : Bool) : Reached allowed { validateEachMutation := validate }
  | call {s : TieredTokenRadix} (op : Op) : allowed op → Reached allowed s → Reached allowed (s.call op).1
  | matched {s : TieredTokenRadix} (prompt : List ℤ) (touch : Bool) : Reached allowed s →
      Reached allowed (s.matchPrompt prompt touch).1

theorem Reached.whole {allowed : Op → Prop} (h : Reached allowed s) : s.Whole := by
  induction h with
  | new validate => exact ⟨unchecked_sound⟩
  | call op _ _ ih => exact ih.call op
  | matched prompt touch _ ih => exact ih.matchPrompt prompt touch

theorem Reached.run {allowed : Op → Prop} (ops : List Op) : ∀ {s : TieredTokenRadix}, Reached allowed s →
    (∀ op ∈ ops, allowed op) → Reached allowed (s.run ops) := by
  induction ops with
  | nil => exact fun hs _ => hs
  | cons op ops ih =>
    intro s hs hops
    exact ih (.call op (hops op List.mem_cons_self) hs) fun o ho => hops o (List.mem_cons_of_mem op ho)

end BeliefKV.TieredTokenRadix
