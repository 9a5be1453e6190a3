import BeliefKV.Radix.Runs

/-! What is asked of a radix before it changes, and that the answers come true. -/
namespace BeliefKV
open Call

structure TieredRadixMatch where
  logicalHitTokens : ℕ
  gpuHitTokens : ℕ
  cpuOnlyTokens : ℕ
  restoreTokens : ℕ

namespace TieredTokenRadix
section Queries
variable (s : TieredTokenRadix)

/-! ## Queries -/

/-- The nodes of a path that some tier has, as far as they go. -/
def hitNodes : ℕ → List ℤ → List ℕ
  | _, [] => []
  | node, x :: path =>
    match (s.heap node).children[x]? with
    | none => []
    | some child => if (s.heap child).gpu || (s.heap child).cpu then child :: hitNodes child path else []

/-- The last token of a prompt is always a miss. -/
def matchNodes (prompt : List ℤ) : List ℕ := s.hitNodes 0 (prompt.take (prompt.length - 1))

def matchTokens (prompt : List ℤ) : TieredRadixMatch :=
  let visited := s.matchNodes prompt
  let gpuHit := (visited.takeWhile fun i => (s.heap i).gpu).length
  ⟨visited.length,gpuHit,visited.length - gpuHit,visited.length - gpuHit⟩

def matchPrompt (prompt : List ℤ) (touch : Bool) : TieredTokenRadix × Except RadixRaised TieredRadixMatch :=
  andThen (s,validatePath prompt) fun s path =>
  (if touch then s.touchNodes (s.matchNodes path) else s,.ok (s.matchTokens path))

/-- The tokens of a path that the GPU lacks. -/
def missingGpu : ℕ → List ℤ → ℕ
  | _, [] => 0
  | node, x :: path =>
    match (s.heap node).children[x]? with
    | none => path.length + 1
    | some child => (if (s.heap child).gpu then 0 else 1) + missingGpu child path

def gpuMaterializationTokens (path : List ℤ) : Except RadixRaised ℕ :=
  (validatePath path).map (s.missingGpu 0)

/-- The node is on the GPU and has no host copy. -/
def uncopied (i : ℕ) : Bool := (s.heap i).gpu && !(s.heap i).cpu

def missingCpuTokens (rootPath : List ℤ) : Except RadixRaised ℕ :=
  (s.requireSubtreeRoot rootPath).map fun found => (s.subtreeNodes found.1).countP s.uncopied

/-- What some paths need of the GPU. A virtual node stands for one that is yet to be made; its id is negative. -/
structure Estimate where
  missingExisting : Finset ℕ := ∅
  virtualEdges : Dict (ℤ × ℤ) ℤ := ∅
  nextVirtualId : ℤ := -1

def estimatePath : Estimate → ℤ → List ℤ → Estimate
  | e, _, [] => e
  | e, parent, x :: path =>
    match if parent < 0 then none else (s.heap parent.toNat).children[x]? with
    | some child =>
      estimatePath (if (s.heap child).gpu then e else { e with missingExisting := insert child e.missingExisting })
        child path
    | none =>
      match e.virtualEdges[(parent,x)]? with
      | some virtual => estimatePath e virtual path
      | none =>
        estimatePath { e with
          virtualEdges := e.virtualEdges.insert (parent,x) e.nextVirtualId
          nextVirtualId := e.nextVirtualId - 1 } e.nextVirtualId path

/-- The paths go on where the locks of their requests end. -/
def estimatePaths : Estimate → List (String × List ℤ) → Except RadixRaised Estimate
  | e, [] => .ok e
  | e, request :: rest =>
    match s.lockedPrefixEndpoint request.1 request.2 with
    | .error raised => .error raised
    | .ok endpoint => estimatePaths (s.estimatePath e endpoint.1 (request.2.drop endpoint.2)) rest

def Estimate.tokens (e : Estimate) : ℕ := e.missingExisting.card + e.virtualEdges.size

/-- The paths were validated before. -/
def gpuExtensionUnionTokens (requestPaths : List (String × List ℤ)) : Except RadixRaised ℕ :=
  (s.estimatePaths {} requestPaths).map Estimate.tokens

/-- The symbols that lead from the root to a node. -/
def climb : ℕ → ℕ → List ℤ → Except RadixRaised (List ℤ)
  | 0, _, path => .ok path
  | fuel + 1, i, path =>
    if i = 0 then .ok path
    else
      match (s.heap i).symbol, (s.heap i).parent with
      | some x, some parent => climb fuel parent (x :: path)
      | _, _ => .error (.tieredTokenRadixError "Radix node is disconnected from the root")

/-- The ids get smaller on the way to the root. -/
def nodePath (i : ℕ) : Except RadixRaised (List ℤ) := s.climb s.nextNodeId i []

/-- The rank of the first of some prompts that uses a node. -/
def futureUse (result : Dict ℕ ℕ) (index : ℕ) (path : List ℤ) : Dict ℕ ℕ :=
  (s.matchNodes path).foldl (fun d i => if i ∈ d then d else d.insert i index) result

def futureUseIndices (prompts : List (List ℤ)) : Except RadixRaised (Dict ℕ ℕ) :=
  prompts.zipIdx.foldlM (fun result entry => do
    let path ← validatePath entry.1
    .ok (s.futureUse result entry.2 path)) ∅

end Queries
end TieredTokenRadix

namespace TieredTokenRadix
variable {s t : TieredTokenRadix} {α β : Type}

/-! ## The counters -/

theorem checked_eq_ok {a b : α} (h : s.checked a = (t,.ok b)) : t = s ∧ b = a := by
  obtain ⟨_,-,h⟩ := andThen_eq_ok.mp h
  cases h
  exact ⟨rfl,rfl⟩

/-- The counters of the tiers. -/
def tokens (s : TieredTokenRadix) : ℤ × ℤ := (s.gpuTokens,s.cpuTokens)

theorem tokens_touchNodes (ids : List ℕ) : (s.touchNodes ids).tokens = s.tokens := by
  unfold touchNodes
  split_ifs
  · rfl
  · rfl

theorem tokens_childOrNew (node : ℕ) (x : ℤ) : (s.childOrNew node x).1.tokens = s.tokens := by
  unfold childOrNew
  cases (s.heap node).children[x]? with
  | none => rfl
  | some c => rfl

theorem tokens_lockNode (request : Option String) (i : ℕ) : (s.lockNode request i).tokens = s.tokens := by
  cases request with
  | none => rfl
  | some r => rfl

theorem growPath_tokens (request : Option String) (message : String) (path : List ℤ) :
    ∀ {s t : TieredTokenRadix} {node : ℕ} {acc growth : Growth},
      growPath request message s node acc path = (t,.ok growth) →
        t.gpuTokens + acc.gpuDelta = s.gpuTokens + growth.gpuDelta ∧ t.cpuTokens = s.cpuTokens := by
  induction path with
  | nil =>
    intro s t node acc growth h
    cases h
    exact ⟨rfl,rfl⟩
  | cons x path ih =>
    intro s t node acc growth h
    have hchild := tokens_childOrNew (s := s) node x
    rw [growPath] at h
    generalize (s.childOrNew node x).1 = s' at hchild h
    generalize (s.childOrNew node x).2 = c at h
    obtain ⟨hgpu,hcpu⟩ := Prod.mk.inj hchild
    by_cases hcgpu : (s'.heap c).gpu = true
    · rw [if_pos hcgpu] at h
      obtain ⟨hg,hc⟩ := ih h
      have hlock : (s'.lockNode request c).tokens = s'.tokens := tokens_lockNode request c
      obtain ⟨hlg,hlc⟩ := Prod.mk.inj hlock
      rw [hlg,hgpu] at hg
      exact ⟨hg,by rw [hc,hlc,hcpu]⟩
    rw [if_neg hcgpu] at h
    by_cases hraise : (s'.heap node).gpu = false
    · rw [if_pos hraise] at h
      cases h
    · rw [if_neg hraise] at h
      obtain ⟨hg,hc⟩ := ih h
      have hlock : ((s'.enterGpu c).lockNode request c).tokens = (s'.enterGpu c).tokens := tokens_lockNode request c
      obtain ⟨hlg,hlc⟩ := Prod.mk.inj hlock
      rw [hlg] at hg
      rw [hlc] at hc
      refine ⟨?_,hc.trans hcpu⟩
      change t.gpuTokens + ((acc.gpuDelta + 1 : ℕ) : ℤ) = s'.gpuTokens + 1 + growth.gpuDelta at hg
      push_cast at hg
      omega

theorem extendRequestGpu_tokens {requestId : String} {path : List ℤ} {m : TieredRadixMutation}
    (h : s.extendRequestGpu requestId path true = (t,.ok m)) :
    t.gpuTokens = s.gpuTokens + m.gpuDeltaTokens ∧ t.cpuTokens = s.cpuTokens := by
  obtain ⟨p,hp,h⟩ := andThen_eq_ok.mp h
  obtain ⟨endpoint,-,h⟩ := andThen_eq_ok.mp h
  obtain ⟨growth,hgrow,h⟩ := andThen_eq_ok.mp h
  obtain ⟨rfl,rfl⟩ := checked_eq_ok h
  obtain ⟨hgpu,hcpu⟩ := growPath_tokens _ _ _ (Prod.ext rfl hgrow)
  obtain ⟨htg,htc⟩ := Prod.mk.inj (tokens_touchNodes growth.visited (s := (growPath (some requestId)
    "GPU extension requires a GPU-resident ancestor" s endpoint.1 {} (p.drop endpoint.2)).1))
  refine ⟨htg.trans ?_,htc.trans hcpu⟩
  exact (Int.add_zero _).symm.trans hgpu

/-- The nodes of a list that are not on the GPU. -/
def absent (s : TieredTokenRadix) (nodes : List ℕ) : ℕ := nodes.countP fun i => !(s.heap i).gpu

theorem enterGpu_other {i j : ℕ} (h : j ≠ i) : (s.enterGpu i).heap j = s.heap j := if_neg h

theorem restoreNodes_tokens (nodes : List ℕ) : ∀ {s t : TieredTokenRadix} {n m : ℕ}, nodes.Nodup →
    restoreNodes s n nodes = (t,.ok m) →
      m = n + s.absent nodes ∧ t.gpuTokens + n = s.gpuTokens + m ∧ t.cpuTokens = s.cpuTokens := by
  induction nodes with
  | nil =>
    intro s t n m _ h
    cases h
    exact ⟨rfl,rfl,rfl⟩
  | cons i nodes ih =>
    intro s t n m hnodup h
    obtain ⟨hi,hnodup⟩ := List.nodup_cons.mp hnodup
    rw [restoreNodes] at h
    unfold absent
    rw [List.countP_cons]
    split_ifs at h with hgpu hraise
    · obtain ⟨hm,hg,hc⟩ := ih hnodup h
      refine ⟨?_,hg,hc⟩
      rw [if_neg (by simp [hgpu])]
      exact hm
    · cases h
    · obtain ⟨hm,hg,hc⟩ := ih hnodup h
      have hsame : (s.enterGpu i).absent nodes = s.absent nodes := by
        apply List.countP_congr
        intro j hj
        have hne : j ≠ i := fun heq => hi (heq ▸ hj)
        rw [enterGpu_other hne]
      rw [hsame] at hm
      rw [if_pos (by simpa using hgpu)]
      unfold absent at hm
      refine ⟨by omega,?_,hc⟩
      change t.gpuTokens + ((n + 1 : ℕ) : ℤ) = s.gpuTokens + 1 + m at hg
      push_cast at hg
      omega

theorem Linked.trail_nodup (h : s.Linked) : ∀ {ids : List ℕ} {i : ℕ}, i ∈ s.nodesById → s.Trail i ids →
    ids.Nodup := by
  intro ids
  induction ids with
  | nil => exact fun _ _ => List.nodup_nil
  | cons c ids ih =>
    rintro i hi ⟨⟨x,hx⟩,hrest⟩
    obtain ⟨hc,-⟩ := h.child i hi x c hx
    refine List.nodup_cons.mpr ⟨fun hmem => ?_,ih hc hrest⟩
    exact absurd (h.trail_mem hc hrest c hmem).2 (lt_irrefl c)

theorem restorePrefix_tokens (hl : s.Linked) {prompt : List ℤ} {count : ℕ} {m : TieredRadixMutation}
    (h : s.restorePrefix prompt count = (t,.ok m)) :
    t.gpuTokens = s.gpuTokens + m.transferTokens ∧ t.cpuTokens = s.cpuTokens ∧
      m.transferTokens = s.absent (s.existingPath 0 (prompt.take count)) := by
  obtain ⟨p,hp,h⟩ := andThen_eq_ok.mp h
  obtain rfl := validatePath_eq_ok hp
  simp only at h
  split_ifs at h with hrange hlength
  · cases h
  · cases h
  obtain ⟨restored,hrestore,h⟩ := andThen_eq_ok.mp h
  obtain ⟨rfl,rfl⟩ := checked_eq_ok h
  have hnodup : (s.existingPath 0 (p.take (count : ℤ).toNat)).Nodup :=
    hl.trail_nodup hl.root (existingPath_trail 0 _)
  obtain ⟨hm,hgpu,hcpu⟩ := restoreNodes_tokens _ hnodup (Prod.ext rfl hrestore)
  obtain ⟨htg,htc⟩ := Prod.mk.inj (tokens_touchNodes (s.existingPath 0 (p.take (count : ℤ).toNat))
    (s := (restoreNodes s 0 (s.existingPath 0 (p.take (count : ℤ).toNat))).1))
  refine ⟨htg.trans ((Int.add_zero _).symm.trans hgpu),htc.trans hcpu,?_⟩
  rw [Nat.zero_add,Int.toNat_natCast] at hm
  exact hm

end TieredTokenRadix

namespace TieredTokenRadix
variable {s t : TieredTokenRadix} {α β : Type}

/-! ## Copies and reclamation -/

theorem prepareNode_other {n i j : ℕ} (h : j ≠ i) : (prepareNode (s,n) i).1.heap j = s.heap j := by
  unfold prepareNode
  split_ifs
  · exact if_neg h
  · rfl

theorem prepareNode_tokens (n i : ℕ) : (prepareNode (s,n) i).1.gpuTokens = s.gpuTokens ∧
    (prepareNode (s,n) i).1.cpuTokens = s.cpuTokens + (if s.uncopied i then 1 else 0) ∧
    (prepareNode (s,n) i).2 = n + if s.uncopied i then 1 else 0 := by
  unfold prepareNode
  by_cases hcopy : (s.heap i).gpu = true ∧ (s.heap i).cpu = false
  · have hmissing : s.uncopied i = true := by
      unfold uncopied
      rw [hcopy.1,hcopy.2]
      rfl
    rw [if_pos hcopy,hmissing]
    exact ⟨rfl,rfl,rfl⟩
  · have hmissing : s.uncopied i = false := by
      unfold uncopied
      cases hgpu : (s.heap i).gpu with
      | false => rfl
      | true =>
        have hcpu : (s.heap i).cpu = true := by simpa using fun hoff => hcopy ⟨hgpu,hoff⟩
        rw [hcpu]
        rfl
    rw [if_neg hcopy,hmissing]
    exact ⟨rfl,(Int.add_zero _).symm,rfl⟩

theorem countP_uncopied {nodes : List ℕ} (h : ∀ j ∈ nodes, t.heap j = s.heap j) :
    nodes.countP t.uncopied = nodes.countP s.uncopied := by
  apply List.countP_congr
  intro j hj
  unfold uncopied
  rw [h j hj]

theorem prepareNodes_tokens (nodes : List ℕ) : ∀ (s : TieredTokenRadix) (n : ℕ), nodes.Nodup →
    (nodes.foldl prepareNode (s,n)).1.gpuTokens = s.gpuTokens ∧
      (nodes.foldl prepareNode (s,n)).1.cpuTokens = s.cpuTokens + nodes.countP s.uncopied ∧
      (nodes.foldl prepareNode (s,n)).2 = n + nodes.countP s.uncopied := by
  induction nodes with
  | nil => exact fun s n _ => ⟨rfl,(Int.add_zero _).symm,rfl⟩
  | cons i nodes ih =>
    intro s n hnodup
    obtain ⟨hi,hnodup⟩ := List.nodup_cons.mp hnodup
    obtain ⟨hgpu,hcpu,hn⟩ := prepareNode_tokens (s := s) n i
    obtain ⟨hg,hc,hm⟩ := ih (prepareNode (s,n) i).1 (prepareNode (s,n) i).2 hnodup
    have hrest : nodes.countP (prepareNode (s,n) i).1.uncopied = nodes.countP s.uncopied := by
      apply countP_uncopied
      intro j hj
      have hne : j ≠ i := fun heq => hi (heq ▸ hj)
      exact prepareNode_other hne
    rw [hrest] at hc hm
    rw [List.foldl_cons,List.countP_cons]
    refine ⟨hg.trans hgpu,?_,?_⟩
    · rw [hc,hcpu]
      push_cast
      split_ifs
      · omega
      · omega
    · rw [hm,hn]
      omega

theorem commitNode_other {acc : ℕ × ℕ} {i j : ℕ} (h : j ≠ i) : (commitNode (s,acc) i).1.heap j = s.heap j := by
  have hprepare : (prepareNode (s,acc.1) i).1.heap j = s.heap j := prepareNode_other h
  unfold commitNode
  simp only
  split_ifs
  · exact (if_neg h).trans hprepare
  · exact hprepare

theorem commitNode_tokens (acc : ℕ × ℕ) (i : ℕ) :
    (commitNode (s,acc) i).1.gpuTokens + (commitNode (s,acc) i).2.2 = s.gpuTokens + acc.2 ∧
      acc.2 ≤ (commitNode (s,acc) i).2.2 ∧
      (commitNode (s,acc) i).1.cpuTokens = s.cpuTokens + (if s.uncopied i then 1 else 0) ∧
      (commitNode (s,acc) i).2.1 = acc.1 + if s.uncopied i then 1 else 0 := by
  obtain ⟨hgpu,hcpu,hn⟩ := prepareNode_tokens (s := s) acc.1 i
  unfold commitNode
  simp only
  by_cases hon : ((prepareNode (s,acc.1) i).1.heap i).gpu = true
  · rw [if_pos hon]
    refine ⟨?_,Nat.le_succ _,hcpu,hn⟩
    change (prepareNode (s,acc.1) i).1.gpuTokens - 1 + ((acc.2 + 1 : ℕ) : ℤ) = _
    rw [hgpu]
    push_cast
    omega
  · rw [if_neg hon]
    exact ⟨by rw [hgpu],le_rfl,hcpu,hn⟩

theorem commitNodes_tokens (nodes : List ℕ) : ∀ (s : TieredTokenRadix) (acc : ℕ × ℕ), nodes.Nodup →
    (nodes.foldl commitNode (s,acc)).1.gpuTokens + (nodes.foldl commitNode (s,acc)).2.2 = s.gpuTokens + acc.2 ∧
      acc.2 ≤ (nodes.foldl commitNode (s,acc)).2.2 ∧
      (nodes.foldl commitNode (s,acc)).1.cpuTokens = s.cpuTokens + nodes.countP s.uncopied ∧
      (nodes.foldl commitNode (s,acc)).2.1 = acc.1 + nodes.countP s.uncopied := by
  induction nodes with
  | nil => exact fun s acc _ => ⟨rfl,le_rfl,(Int.add_zero _).symm,rfl⟩
  | cons i nodes ih =>
    intro s acc hnodup
    obtain ⟨hi,hnodup⟩ := List.nodup_cons.mp hnodup
    obtain ⟨hgpu,hmore,hcpu,hn⟩ := commitNode_tokens (s := s) acc i
    obtain ⟨hg,hm,hc,hk⟩ := ih (commitNode (s,acc) i).1 (commitNode (s,acc) i).2 hnodup
    have hrest : nodes.countP (commitNode (s,acc) i).1.uncopied = nodes.countP s.uncopied := by
      apply countP_uncopied
      intro j hj
      have hne : j ≠ i := fun heq => hi (heq ▸ hj)
      exact commitNode_other hne
    rw [hrest] at hc hk
    rw [List.foldl_cons,List.countP_cons]
    refine ⟨hg.trans hgpu,hmore.trans hm,?_,?_⟩
    · rw [hc,hcpu]
      push_cast
      split_ifs
      · omega
      · omega
    · rw [hk,hn]
      omega

/-- The node of a path below the root. -/
theorem requireSubtreeRoot_path {path : List ℤ} {found : ℕ × List ℤ} (h : s.requireSubtreeRoot path = .ok found) :
    path ≠ [] ∧ found.2 = path ∧ (s.existingPath 0 path).length = path.length ∧
      found.1 = endOf 0 (s.existingPath 0 path) := by
  unfold requireSubtreeRoot at h
  cases hv : validatePath path with
  | error e =>
    rw [hv] at h
    cases h
  | ok normalized =>
    obtain rfl := validatePath_eq_ok hv
    rw [hv] at h
    change (if normalized = [] then _ else if (s.existingPath 0 normalized).length ≠ normalized.length
      then _ else _) = _ at h
    split_ifs at h with hnil hlength
    cases h
    exact ⟨hnil,rfl,not_not.mp hlength,rfl⟩

/-- The nodes of a subtree that the host lacks are copied, and the subtree leaves the GPU. -/
theorem commitCpu_tokens (hs : s.Sound) {path : List ℤ} {m : TieredRadixMutation}
    (h : s.commitCpu path = (t,.ok m)) : t.gpuTokens ≤ s.gpuTokens ∧
      t.cpuTokens = s.cpuTokens + m.transferTokens ∧
      m.transferTokens = (s.subtreeNodes (endOf 0 (s.existingPath 0 path))).countP s.uncopied := by
  obtain ⟨found,hfound,h⟩ := andThen_eq_ok.mp h
  obtain ⟨-,-,-,hend⟩ := requireSubtreeRoot_path hfound
  obtain ⟨hmem,-,-⟩ := requireSubtreeRoot_eq_ok hs.linked hfound
  simp only at h
  split_ifs at h
  · cases h
  · obtain ⟨rfl,rfl⟩ := checked_eq_ok h
    obtain ⟨hgpu,-,hcpu,hn⟩ := commitNodes_tokens _ s (0,0) (hs.linked.subtree hmem).1
    rw [← hend]
    simp only [Nat.zero_add] at hn
    refine ⟨?_,?_,hn⟩
    · change _ = s.gpuTokens + 0 at hgpu
      omega
    · rw [hcpu,hn]

theorem dropSubtree_tokens {path : List ℤ} {m : TieredRadixMutation} (h : s.dropSubtree path = (t,.ok m)) :
    t.gpuTokens ≤ s.gpuTokens ∧ t.cpuTokens ≤ s.cpuTokens := by
  obtain ⟨found,hfound,h⟩ := andThen_eq_ok.mp h
  simp only at h
  split_ifs at h
  · cases h
  · cases hparent : (s.heap found.1).parent with
    | none =>
      rw [hparent] at h
      cases h
    | some parent =>
      cases hsymbol : (s.heap found.1).symbol with
      | none =>
        rw [hparent,hsymbol] at h
        cases h
      | some x =>
        rw [hparent,hsymbol] at h
        obtain ⟨rfl,-⟩ := checked_eq_ok h
        exact ⟨Int.sub_le_self _ (Int.natCast_nonneg _),Int.sub_le_self _ (Int.natCast_nonneg _)⟩

theorem prepareHost_tokens (hs : s.Sound) {path : List ℤ} {m : TieredRadixMutation}
    (h : s.prepareHost path = (t,.ok m)) : t.gpuTokens = s.gpuTokens ∧
      t.cpuTokens = s.cpuTokens + m.transferTokens ∧ s.missingCpuTokens path = .ok m.transferTokens := by
  obtain ⟨found,hfound,h⟩ := andThen_eq_ok.mp h
  obtain ⟨hmem,-,-⟩ := requireSubtreeRoot_eq_ok hs.linked hfound
  obtain ⟨rfl,rfl⟩ := checked_eq_ok h
  obtain ⟨hgpu,hcpu,hn⟩ := prepareNodes_tokens _ s 0 (hs.linked.subtree hmem).1
  rw [Nat.zero_add] at hn
  refine ⟨hgpu,by rw [hcpu,hn],?_⟩
  unfold missingCpuTokens
  change s.requireSubtreeRoot path = .ok found at hfound
  rw [hfound,hn]
  rfl

theorem lockPrefix_tokens {requestId : String} {path : List ℤ} {count : ℤ} {r : Except RadixRaised Unit}
    (h : s.lockPrefix requestId path count = (t,r)) : t.tokens = s.tokens := by
  have hall : (s.lockPrefix requestId path count).1.tokens = s.tokens := by
    unfold lockPrefix
    split_ifs
    · rfl
    · rfl
    · refine andThen_cases (P := fun u : TieredTokenRadix => u.tokens = s.tokens) rfl fun p => ?_
      simp only
      split_ifs
      · rfl
      · rfl
      · exact andThen_cases (P := fun u : TieredTokenRadix => u.tokens = s.tokens) rfl fun _ => rfl
  rw [h] at hall
  exact hall

end TieredTokenRadix
end BeliefKV
