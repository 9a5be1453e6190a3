import BeliefKV.Lib.Call
import BeliefKV.Lib.Dict
import BeliefKV.Lib.Subtree

/-! The two-tier token radix of the counterfactual replay: a tree of tokens with the tiers that
hold them, the prefixes that running requests lock, and counters of what is where. -/
namespace BeliefKV
open Call

/-- What a call on the radix can raise. -/
inductive RadixRaised
  | valueError (text : String)
  | keyError (text : String)
  | tieredTokenRadixError (text : String)
  deriving DecidableEq, Repr

/-- A node without its id. Parent and children are node objects, which stand here by their ids. -/
structure TieredTrieNode where
  symbol : Option ℤ
  parent : Option ℕ
  children : Dict ℤ ℕ := ∅
  gpu : Bool := false
  cpu : Bool := false
  ownerContextIds : Finset String := ∅
  lockedByRequestIds : Finset String := ∅
  lastAccessClock : ℕ := 0

structure TieredRadixMutation where
  operation : String
  rootPath : List ℤ
  affectedTokens : ℕ
  transferTokens : ℕ := 0
  gpuDeltaTokens : ℤ := 0
  cpuDeltaTokens : ℤ := 0
  recomputedCpuTokens : ℕ := 0
  deriving DecidableEq, Repr

/-- The heap has every node object by its id, also the ones that were dropped; `nodesById` is
the index, which maps an id to the object with that id. -/
structure TieredTokenRadix where
  validateEachMutation : Bool
  nextNodeId : ℕ := 1
  heap : ℕ → TieredTrieNode := fun _ => { symbol := none, parent := none, gpu := true }
  nodesById : Finset ℕ := {0}
  contextPaths : Dict String (List ℤ) := ∅
  requestLocks : Dict String (List ℕ) := ∅
  clock : ℕ := 0
  uniqueTokens : ℤ := 0
  gpuTokens : ℤ := 0
  cpuTokens : ℤ := 0

namespace TieredTokenRadix
variable (s : TieredTokenRadix)

/-! ## Nodes -/

/-- Write to one node. -/
def edit (i : ℕ) (f : TieredTrieNode → TieredTrieNode) : TieredTokenRadix :=
  { s with heap := fun j => if j = i then f (s.heap j) else s.heap j }

/-- Write to the nodes of a list. -/
def editAll (ids : List ℕ) (f : TieredTrieNode → TieredTrieNode) : TieredTokenRadix :=
  { s with heap := fun j => if j ∈ ids then f (s.heap j) else s.heap j }

/-- A new node gets the next id. -/
def newNode (symbol : ℤ) (parent : ℕ) : TieredTokenRadix :=
  { s with
    nextNodeId := s.nextNodeId + 1
    heap := fun j => if j = s.nextNodeId then { symbol := some symbol, parent := some parent }
      else s.heap j
    nodesById := insert s.nextNodeId s.nodesById
    uniqueTokens := s.uniqueTokens + 1 }

def validatePath (path : List ℤ) : Except RadixRaised (List ℤ) :=
  if ∃ x ∈ path, x < 0 ∨ 2 ^ 64 ≤ x then
    .error (.valueError "token symbols must be unsigned 64-bit integers")
  else .ok path

/-- The nodes below a node that a path leads through, as far as they exist. -/
def existingPath : ℕ → List ℤ → List ℕ
  | _, [] => []
  | node, x :: path =>
    match (s.heap node).children[x]? with
    | none => []
    | some child => child :: existingPath child path

/-- The children of a node, the last one on top of the stack. -/
def childNodes (i : ℕ) : List ℕ := (s.heap i).children.vals.reverse

/-- A node with all that is below it; there are fewer nodes than ids given out. -/
def subtreeNodes (root : ℕ) : List ℕ := Subtree.gather s.childNodes s.nextNodeId [root]

def requireSubtreeRoot (rootPath : List ℤ) : Except RadixRaised (ℕ × List ℤ) := do
  let normalized ← validatePath rootPath
  if normalized = [] then
    .error (.tieredTokenRadixError "subtree operation cannot target the root")
  else
    let nodes := s.existingPath 0 normalized
    if nodes.length ≠ normalized.length then
      .error (.tieredTokenRadixError "subtree root does not exist")
    else .ok (nodes.getLast?.getD 0,normalized)

/-- The accesses of a call get one tick of the clock. -/
def touchNodes (ids : List ℕ) : TieredTokenRadix :=
  if ids = [] then s
  else { s.editAll ids fun n => { n with lastAccessClock := s.clock + 1 } with clock := s.clock + 1 }

/-! ## The self-check -/

/-- What the self-check has seen and counted. -/
structure Audit where
  seen : Finset ℕ := ∅
  unique : ℤ := 0
  gpu : ℤ := 0
  cpu : ℤ := 0

/-- The children of a node point back to it. -/
def LinksBack (i : ℕ) : Prop :=
  ∀ entry ∈ (s.heap i).children.toList,
    (s.heap entry.2).parent = some i ∧ (s.heap entry.2).symbol = some entry.1

instance (i : ℕ) : Decidable (s.LinksBack i) := inferInstanceAs (Decidable (∀ _ ∈ _, _))

/-- The counters after one more node below the root. -/
def Audit.count (acc : Audit) (n : TieredTrieNode) : Audit :=
  { acc with
    unique := acc.unique + 1
    gpu := acc.gpu + if n.gpu then 1 else 0
    cpu := acc.cpu + if n.cpu then 1 else 0 }

def auditNode (acc : Audit) (i : ℕ) : Except RadixRaised Audit :=
  let n := s.heap i
  let acc' : Audit := { acc with seen := insert i acc.seen }
  if i ∈ acc.seen then .error (.tieredTokenRadixError "Radix topology contains a cycle")
  else if i ≠ 0 ∧ ¬ (n.gpu ∨ n.cpu) then
    .error (.tieredTokenRadixError "tierless Radix node remains reachable")
  else if i ≠ 0 ∧ n.gpu ∧ n.parent.any fun p => !(s.heap p).gpu then
    .error (.tieredTokenRadixError "GPU residency is not ancestor-closed")
  else if i ≠ 0 ∧ n.lockedByRequestIds ≠ ∅ ∧ n.gpu = false then
    .error (.tieredTokenRadixError "CPU-only node retains an active lock")
  else if ¬ s.LinksBack i then
    .error (.tieredTokenRadixError "Radix parent/child link is inconsistent")
  else .ok (if i = 0 then acc' else acc'.count n)

def assertInvariants : Except RadixRaised Unit := do
  let acc ← Subtree.walk s.childNodes s.auditNode (s.nextNodeId + 1) [0] {}
  if acc.seen ≠ s.nodesById then
    .error (.tieredTokenRadixError "Radix node index contains stale nodes")
  else if acc.unique ≠ s.uniqueTokens ∨ acc.gpu ≠ s.gpuTokens ∨ acc.cpu ≠ s.cpuTokens then
    .error (.tieredTokenRadixError "tier counters disagree with Radix topology")
  else .ok ()

def checkAfterMutation : Except RadixRaised Unit :=
  if s.validateEachMutation then s.assertInvariants else .ok ()

/-- The end of a call: the self-check, if it is on, and the result. -/
def checked {α : Type} (a : α) : TieredTokenRadix × Except RadixRaised α :=
  andThen (s,s.checkAfterMutation) fun s _ => (s,.ok a)

/-! ## Contexts -/

def bindContext (contextId : String) (path : List ℤ) : TieredTokenRadix × Except RadixRaised Unit :=
  if contextId = "" then (s,.error (.valueError "context_id must be non-empty"))
  else
    andThen (s,validatePath path) fun s normalized =>
    let oldPath := s.contextPaths[contextId]?.getD []
    let s := s.editAll (s.existingPath 0 oldPath) fun n =>
      { n with ownerContextIds := n.ownerContextIds.erase contextId }
    let s := { s with contextPaths := s.contextPaths.insert contextId normalized }
    (s.editAll (s.existingPath 0 normalized) fun n =>
      if n.gpu || n.cpu then { n with ownerContextIds := insert contextId n.ownerContextIds } else n,
      .ok ())

/-! ## Growing a path on the GPU -/

/-- What a path on its way to the GPU has needed so far. -/
structure Growth where
  gpuDelta : ℕ := 0
  recomputedCpu : ℕ := 0
  visited : List ℕ := []

/-- The child of a node by a symbol; it is made when it is not there. -/
def childOrNew (node : ℕ) (x : ℤ) : TieredTokenRadix × ℕ :=
  match (s.heap node).children[x]? with
  | some child => (s,child)
  | none => ((s.newNode x node).edit node fun n =>
      { n with children := n.children.insert x s.nextNodeId },s.nextNodeId)

/-- A node enters the GPU tier. -/
def enterGpu (i : ℕ) : TieredTokenRadix :=
  { s.edit i fun n => { n with gpu := true } with gpuTokens := s.gpuTokens + 1 }

/-- The lock of a request grows by one node; materialization without a request locks nothing. -/
def lockNode (request : Option String) (i : ℕ) : TieredTokenRadix :=
  match request with
  | none => s
  | some requestId =>
    { s.edit i fun n => { n with lockedByRequestIds := insert requestId n.lockedByRequestIds } with
      requestLocks := s.requestLocks.insert requestId (s.requestLocks[requestId]?.getD [] ++ [i]) }

/-- The loop of `materialize_gpu` and `extend_request_gpu`. -/
def growPath (request : Option String) (message : String) :
    TieredTokenRadix → ℕ → Growth → List ℤ → TieredTokenRadix × Except RadixRaised Growth
  | s, _, acc, [] => (s,.ok acc)
  | s, node, acc, x :: path =>
    let s' := (s.childOrNew node x).1
    let child := (s.childOrNew node x).2
    if (s'.heap child).gpu then
      growPath request message (s'.lockNode request child) child
        { acc with visited := acc.visited ++ [child] } path
    else if (s'.heap node).gpu = false then (s',.error (.tieredTokenRadixError message))
    else
      growPath request message ((s'.enterGpu child).lockNode request child) child
        { gpuDelta := acc.gpuDelta + 1
          recomputedCpu := acc.recomputedCpu + if (s'.heap child).cpu then 1 else 0
          visited := acc.visited ++ [child] } path

def materializeGpu (path : List ℤ) (contextId : Option String) (touch : Bool) :
    TieredTokenRadix × Except RadixRaised TieredRadixMutation :=
  andThen (s,validatePath path) fun s normalized =>
  andThen (growPath none "GPU materialization requires a GPU-resident ancestor" s 0 {} normalized)
    fun s growth =>
  andThen (match contextId with
    | none => (s,.ok ())
    | some contextId => s.bindContext contextId normalized) fun s _ =>
  (if touch then s.touchNodes growth.visited else s).checked
    { operation := "materialize_gpu"
      rootPath := normalized
      affectedTokens := growth.visited.length
      gpuDeltaTokens := growth.gpuDelta
      recomputedCpuTokens := growth.recomputedCpu }

/-! ## Locks -/

def lockPrefix (requestId : String) (path : List ℤ) (tokenCount : ℤ) :
    TieredTokenRadix × Except RadixRaised Unit :=
  if requestId = "" then (s,.error (.valueError "request_id must be non-empty"))
  else if requestId ∈ s.requestLocks then
    (s,.error (.tieredTokenRadixError ("request already owns a lock: " ++ requestId)))
  else
    andThen (s,validatePath path) fun s normalized =>
    if tokenCount < 0 ∨ normalized.length < tokenCount then
      (s,.error (.valueError "lock token_count is outside the path"))
    else
      let nodes := s.existingPath 0 (normalized.take tokenCount.toNat)
      if nodes.length ≠ tokenCount ∨ ∃ i ∈ nodes, (s.heap i).gpu = false then
        (s,.error (.tieredTokenRadixError "active request can only lock GPU-resident prefix"))
      else
        let s := s.editAll nodes fun n =>
          { n with lockedByRequestIds := insert requestId n.lockedByRequestIds }
        checked { s with requestLocks := s.requestLocks.insert requestId nodes } ()

def noLock (requestId : String) : RadixRaised :=
  .tieredTokenRadixError ("request has no active Radix lock: " ++ requestId)

def extendLockPrefix (requestId : String) (path : List ℤ) (tokenCount : ℤ) :
    TieredTokenRadix × Except RadixRaised Unit :=
  match s.requestLocks[requestId]? with
  | none => (s,.error (noLock requestId))
  | some oldIds =>
    andThen (s,validatePath path) fun s normalized =>
    if tokenCount < oldIds.length ∨ normalized.length < tokenCount then
      (s,.error (.valueError "extended lock must contain the existing lock prefix"))
    else
      let nodes := s.existingPath 0 (normalized.take tokenCount.toNat)
      if nodes.length ≠ tokenCount ∨ ∃ i ∈ nodes, (s.heap i).gpu = false then
        (s,.error (.tieredTokenRadixError "extended lock path is not GPU-resident"))
      else if nodes.take oldIds.length ≠ oldIds then
        (s,.error (.tieredTokenRadixError "extended lock changes the active request prefix"))
      else
        let s := s.editAll (nodes.drop oldIds.length) fun n =>
          { n with lockedByRequestIds := insert requestId n.lockedByRequestIds }
        checked { s with requestLocks := s.requestLocks.insert requestId nodes } ()

/-- The node where the lock of a request ends, and its depth. Without the self-check only the
symbol of that node is compared with the path. -/
def lockedPrefixEndpoint (requestId : String) (path : List ℤ) : Except RadixRaised (ℕ × ℕ) :=
  match s.requestLocks[requestId]? with
  | none => .error (noLock requestId)
  | some nodeIds =>
    if path.length < nodeIds.length then
      .error (.tieredTokenRadixError "request path shrinks below its active lock")
    else
      match nodeIds.getLast? with
      | none => .ok (0,0)
      | some last =>
        if last ∉ s.nodesById then .error (.keyError (toString last))
        else if (s.heap last).symbol ≠ path[nodeIds.length - 1]? then
          .error (.tieredTokenRadixError "request path changes its active lock endpoint")
        else if s.validateEachMutation ∧ s.existingPath 0 (path.take nodeIds.length) ≠ nodeIds then
          .error (.tieredTokenRadixError "request path changes its active lock prefix")
        else .ok (last,nodeIds.length)

def extendRequestGpu (requestId : String) (path : List ℤ) (validated : Bool) :
    TieredTokenRadix × Except RadixRaised TieredRadixMutation :=
  andThen (s,if validated then .ok path else validatePath path) fun s normalized =>
  andThen (s,s.lockedPrefixEndpoint requestId normalized) fun s endpoint =>
  andThen (growPath (some requestId) "GPU extension requires a GPU-resident ancestor" s endpoint.1 {}
    (normalized.drop endpoint.2)) fun s growth =>
  (s.touchNodes growth.visited).checked
    { operation := "extend_request_gpu"
      rootPath := normalized
      affectedTokens := growth.visited.length
      gpuDeltaTokens := growth.gpuDelta
      recomputedCpuTokens := growth.recomputedCpu }

/-- No self-check here. -/
def unlockRequest (requestId : String) : TieredTokenRadix × Except RadixRaised Unit :=
  match s.requestLocks[requestId]? with
  | none => (s,.error (noLock requestId))
  | some nodeIds =>
    let s := { s with requestLocks := s.requestLocks.erase requestId }
    (s.editAll (nodeIds.filter (· ∈ s.nodesById)) fun n =>
      { n with lockedByRequestIds := n.lockedByRequestIds.erase requestId },.ok ())

/-! ## Moves between the tiers -/

/-- The loop of `restore_prefix`. -/
def restoreNodes : TieredTokenRadix → ℕ → List ℕ → TieredTokenRadix × Except RadixRaised ℕ
  | s, restored, [] => (s,.ok restored)
  | s, restored, i :: nodes =>
    if (s.heap i).gpu then restoreNodes s restored nodes
    else if (s.heap i).cpu = false ∨ (s.heap i).parent.any fun p => !(s.heap p).gpu then
      (s,.error (.tieredTokenRadixError "H2D restore requires CPU source and GPU ancestor closure"))
    else restoreNodes (s.enterGpu i) (restored + 1) nodes

def restorePrefix (prompt : List ℤ) (tokenCount : ℤ) :
    TieredTokenRadix × Except RadixRaised TieredRadixMutation :=
  andThen (s,validatePath prompt) fun s normalized =>
  if tokenCount < 0 ∨ (normalized.length - 1 : ℕ) < tokenCount then
    (s,.error (.valueError "restore token_count violates one-token-miss boundary"))
  else
    let nodes := s.existingPath 0 (normalized.take tokenCount.toNat)
    if nodes.length ≠ tokenCount then
      (s,.error (.tieredTokenRadixError "restore prefix is absent from all cache tiers"))
    else
      andThen (restoreNodes s 0 nodes) fun s restored =>
      (s.touchNodes nodes).checked
        { operation := "restore_prefix"
          rootPath := normalized.take tokenCount.toNat
          affectedTokens := tokenCount.toNat
          transferTokens := restored
          gpuDeltaTokens := restored }

/-- A node that is on the GPU only gets a host copy. -/
def prepareNode (acc : TieredTokenRadix × ℕ) (i : ℕ) : TieredTokenRadix × ℕ :=
  if (acc.1.heap i).gpu ∧ (acc.1.heap i).cpu = false then
    ({ acc.1.edit i fun n => { n with cpu := true } with cpuTokens := acc.1.cpuTokens + 1 },acc.2 + 1)
  else acc

def prepareHost (rootPath : List ℤ) : TieredTokenRadix × Except RadixRaised TieredRadixMutation :=
  andThen (s,s.requireSubtreeRoot rootPath) fun s found =>
  let nodes := s.subtreeNodes found.1
  let prepared := nodes.foldl prepareNode (s,0)
  prepared.1.checked
    { operation := "prepare_host"
      rootPath := found.2
      affectedTokens := nodes.length
      transferTokens := prepared.2
      cpuDeltaTokens := prepared.2 }

/-- A node gets its host copy and leaves the GPU. -/
def commitNode (acc : TieredTokenRadix × ℕ × ℕ) (i : ℕ) : TieredTokenRadix × ℕ × ℕ :=
  let prepared := prepareNode (acc.1,acc.2.1) i
  if (prepared.1.heap i).gpu then
    ({ prepared.1.edit i fun n => { n with gpu := false } with
      gpuTokens := prepared.1.gpuTokens - 1 },prepared.2,acc.2.2 + 1)
  else (prepared.1,prepared.2,acc.2.2)

/-- The requests that lock a node of a list. -/
def locksOf (nodes : List ℕ) : Finset String :=
  nodes.toFinset.biUnion fun i => (s.heap i).lockedByRequestIds

def commitCpu (rootPath : List ℤ) : TieredTokenRadix × Except RadixRaised TieredRadixMutation :=
  andThen (s,s.requireSubtreeRoot rootPath) fun s found =>
  let nodes := s.subtreeNodes found.1
  let locks := s.locksOf nodes
  if locks ≠ ∅ then
    (s,.error (.tieredTokenRadixError ("D2H descendant closure contains active locks: " ++
      String.intercalate "," (Dict.sorted locks))))
  else
    let committed := nodes.foldl commitNode (s,0,0)
    committed.1.checked
      { operation := "commit_cpu"
        rootPath := found.2
        affectedTokens := nodes.length
        transferTokens := committed.2.1
        gpuDeltaTokens := -committed.2.2
        cpuDeltaTokens := committed.2.1 }

/-- The nodes leave the tree and the index. -/
def detach (node parent : ℕ) (x : ℤ) : TieredTokenRadix :=
  let nodes := s.subtreeNodes node
  { s.edit parent fun n => { n with children := n.children.erase x } with
    nodesById := s.nodesById \ nodes.toFinset
    uniqueTokens := s.uniqueTokens - nodes.length
    gpuTokens := s.gpuTokens - nodes.countP fun i => (s.heap i).gpu
    cpuTokens := s.cpuTokens - nodes.countP fun i => (s.heap i).cpu }

def dropSubtree (rootPath : List ℤ) : TieredTokenRadix × Except RadixRaised TieredRadixMutation :=
  andThen (s,s.requireSubtreeRoot rootPath) fun s found =>
  let nodes := s.subtreeNodes found.1
  let locks := s.locksOf nodes
  if locks ≠ ∅ then
    (s,.error (.tieredTokenRadixError ("drop descendant closure contains active locks: " ++
      String.intercalate "," (Dict.sorted locks))))
  else
    match (s.heap found.1).parent, (s.heap found.1).symbol with
    | some parent, some x =>
      (s.detach found.1 parent x).checked
        { operation := "drop_subtree"
          rootPath := found.2
          affectedTokens := nodes.length
          gpuDeltaTokens := -(nodes.countP fun i => (s.heap i).gpu : ℕ)
          cpuDeltaTokens := -(nodes.countP fun i => (s.heap i).cpu : ℕ) }
    | _, _ => (s,.error (.tieredTokenRadixError "cannot drop the Radix root"))

/-! ## Runs -/

/-- The calls on a radix. -/
inductive Op
  | materializeGpu (path : List ℤ) (contextId : Option String) (touch : Bool)
  | bindContext (contextId : String) (path : List ℤ)
  | lockPrefix (requestId : String) (path : List ℤ) (tokenCount : ℤ)
  | extendLockPrefix (requestId : String) (path : List ℤ) (tokenCount : ℤ)
  | extendRequestGpu (requestId : String) (path : List ℤ) (validated : Bool)
  | unlockRequest (requestId : String)
  | restorePrefix (prompt : List ℤ) (tokenCount : ℤ)
  | prepareHost (rootPath : List ℤ)
  | commitCpu (rootPath : List ℤ)
  | dropSubtree (rootPath : List ℤ)

/-- The radix after a call, and the error if the call raises. -/
def call (s : TieredTokenRadix) : Op → TieredTokenRadix × Except RadixRaised Unit
  | .materializeGpu path contextId touch =>
    andThen (s.materializeGpu path contextId touch) fun s _ => (s,.ok ())
  | .bindContext contextId path => s.bindContext contextId path
  | .lockPrefix requestId path tokenCount => s.lockPrefix requestId path tokenCount
  | .extendLockPrefix requestId path tokenCount => s.extendLockPrefix requestId path tokenCount
  | .extendRequestGpu requestId path validated =>
    andThen (s.extendRequestGpu requestId path validated) fun s _ => (s,.ok ())
  | .unlockRequest requestId => s.unlockRequest requestId
  | .restorePrefix prompt tokenCount =>
    andThen (s.restorePrefix prompt tokenCount) fun s _ => (s,.ok ())
  | .prepareHost rootPath => andThen (s.prepareHost rootPath) fun s _ => (s,.ok ())
  | .commitCpu rootPath => andThen (s.commitCpu rootPath) fun s _ => (s,.ok ())
  | .dropSubtree rootPath => andThen (s.dropSubtree rootPath) fun s _ => (s,.ok ())

def step (s : TieredTokenRadix) (op : Op) : TieredTokenRadix := (s.call op).1

def run (s : TieredTokenRadix) (ops : List Op) : TieredTokenRadix := ops.foldl step s

end TieredTokenRadix
end BeliefKV
