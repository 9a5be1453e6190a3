import BeliefKV.Radix.Keeping
import BeliefKV.Lib.Logbook
import Mathlib.Data.Prod.Lex
import Mathlib.Data.String.Basic
import Mathlib.Algebra.Order.Field.Rat

/-! The allocator of the rolling replay: a radix of two tiers whose GPU and host have room for so
many bytes. What a request needs is asked of the radix first; subtrees are evicted until there is
room; then the radix grows. -/
namespace BeliefKV
open Call

/-! ## Bundles -/

structure TieredRadixBundle where
  nodeId : ℕ
  bundleId : String
  rootPath : List ℤ
  gpuTokens : ℕ
  cpuTokens : ℕ
  missingCpuTokens : ℕ
  ownerContextIds : List String
  lockedByRequestIds : List String
  lastAccessClock : ℕ

/-- What a call on the allocator can raise. -/
inductive RollingRaised
  | valueError (text : String)
  | replayError (text : String)
  | structError
  | radix (raised : RadixRaised)
  deriving DecidableEq, Repr

namespace TieredTokenRadix
variable (s : TieredTokenRadix)

/-- How many nodes of a subtree have a property; the root does not count. -/
def subtreeCount (p : TieredTrieNode → Bool) (i : ℕ) : ℕ :=
  (s.subtreeNodes i).countP fun j => j ≠ 0 && p (s.heap j)

/-- A subtree with tokens on the GPU and without locks, whose root is the top of what an owner has
there, or has a locked branch above, or a fork below. -/
def Evictable (i : ℕ) : Prop :=
  i ≠ 0 ∧ s.subtreeCount TieredTrieNode.gpu i ≠ 0 ∧ s.locksOf (s.subtreeNodes i) = ∅ ∧
    ((match (s.heap i).parent with
      | none => True
      | some p => p = 0 ∨ (s.heap p).ownerContextIds ≠ (s.heap i).ownerContextIds) ∨
    (match (s.heap i).parent with
      | none => False
      | some p => s.locksOf (s.subtreeNodes p) ≠ ∅) ∨
    (s.childNodes i).countP (fun c => s.subtreeCount TieredTrieNode.gpu c ≠ 0) ≠ 1)

instance (i : ℕ) : Decidable (s.Evictable i) := by
  unfold Evictable
  cases (s.heap i).parent with
  | none => exact inferInstance
  | some p => exact inferInstance

/-- The id of a bundle is a digest of its packed path. -/
def bundleId (digest : List ℤ → String) (path : List ℤ) : Except RollingRaised String :=
  if ∃ x ∈ path, x < 0 ∨ 2 ^ 64 ≤ x then .error .structError else .ok ("radix:" ++ digest path)

def bundle (digest : List ℤ → String) (i : ℕ) : Except RollingRaised TieredRadixBundle :=
  match s.nodePath i with
  | .error raised => .error (.radix raised)
  | .ok rootPath =>
    match bundleId digest rootPath with
    | .error raised => .error raised
    | .ok id => .ok
      { nodeId := i
        bundleId := id
        rootPath := rootPath
        gpuTokens := s.subtreeCount TieredTrieNode.gpu i
        cpuTokens := s.subtreeCount TieredTrieNode.cpu i
        missingCpuTokens := s.subtreeCount (fun n => n.gpu && !n.cpu) i
        ownerContextIds := Dict.sorted ((s.subtreeNodes i).toFinset.biUnion fun j => (s.heap j).ownerContextIds)
        lockedByRequestIds := Dict.sorted (s.locksOf (s.subtreeNodes i))
        lastAccessClock := (s.subtreeNodes i).foldl (fun clock j => max clock (s.heap j).lastAccessClock) 0 }

end TieredTokenRadix

/-- The least recently used first, then the larger ones. -/
def TieredRadixBundle.lruKey (b : TieredRadixBundle) : ℕ ×ₗ ℤ ×ₗ String :=
  toLex (b.lastAccessClock,toLex (-(b.gpuTokens : ℤ),b.bundleId))

/-- What is not used again first, then what is used last. -/
def TieredRadixBundle.nextUseKey (b : TieredRadixBundle) (nextUse : Dict ℕ ℕ) : ℕ ×ₗ ℤ ×ₗ ℤ ×ₗ String :=
  toLex (if b.nodeId ∈ nextUse then 1 else 0,toLex (-((nextUse[b.nodeId]?.getD 0 : ℕ) : ℤ),
    toLex (-(b.gpuTokens : ℤ),b.bundleId)))

/-- The first of the least bundles. -/
def leastBundle (le : TieredRadixBundle → TieredRadixBundle → Bool) : List TieredRadixBundle → Option TieredRadixBundle
  | [] => none
  | b :: bundles => some (bundles.foldl (fun least b => if le least b then least else b) b)

def TieredTokenRadix.evictableBundles (s : TieredTokenRadix) (digest : List ℤ → String) :
    Except RollingRaised (List TieredRadixBundle) :=
  (((s.subtreeNodes 0).reverse.filter fun i => s.Evictable i).mapM (s.bundle digest)).map fun candidates =>
    candidates.mergeSort fun a b => a.lruKey ≤ b.lruKey

/-! ## Allocator -/

inductive ResidencyReplayMode
  | reactiveLru
  | hindsightNextUse
  deriving DecidableEq, Repr

structure FutureRadixUse where
  requestId : String
  promptTokenSymbols : List ℤ
  named : requestId ≠ ""
  unsigned : ∀ x ∈ promptTokenSymbols, 0 ≤ x ∧ x < 2 ^ 64

inductive PhysicalKind
  | d2hCommit
  | drop
  | h2dRestore
  | materialize
  | d2hShadow
  deriving DecidableEq, Repr

structure RollingPhysicalEvent where
  sequence : ℕ
  startMs : ℚ
  endMs : ℚ
  kind : PhysicalKind
  reason : String
  requestId : Option String
  bundleId : Option String
  rootPath : List ℤ
  transferBytes : ℤ
  hbmBytesBefore : ℤ
  hbmBytesAfter : ℤ
  hostBytesBefore : ℤ
  hostBytesAfter : ℤ
  ordered : startMs ≤ endMs
  nonneg : 0 ≤ transferBytes ∧ 0 ≤ hbmBytesBefore ∧ 0 ≤ hbmBytesAfter ∧ 0 ≤ hostBytesBefore ∧ 0 ≤ hostBytesAfter

structure RollingAdmission where
  requestId : String
  matched : TieredRadixMatch
  readyMs : ℚ
  d2hBytes : ℤ
  h2dBytes : ℤ

structure RollingMaterialization where
  readyMs : ℚ
  uniqueGrowthTokens : Dict String ℤ

/-- What an allocator is made with. -/
structure RollingConfig where
  hbmCapacityBytes : ℕ
  hbmFixedBytes : ℕ
  hostCapacityBytes : ℕ
  bytesPerToken : ℕ
  d2hBytesPerMs : ℚ
  h2dBytesPerMs : ℚ
  transferSetupMs : ℚ := 0
  mode : ResidencyReplayMode := .reactiveLru
  capacity_pos : 0 < hbmCapacityBytes
  token_pos : 0 < bytesPerToken
  fixed_le : hbmFixedBytes ≤ hbmCapacityBytes
  d2h_pos : 0 < d2hBytesPerMs
  h2d_pos : 0 < h2dBytesPerMs
  setup_nonneg : 0 ≤ transferSetupMs

structure RollingRadixAllocator where
  radix : TieredTokenRadix := TieredTokenRadix.unchecked
  events : List RollingPhysicalEvent := []
  d2hBytes : ℤ := 0
  h2dBytes : ℤ := 0
  pcieBusyMs : ℚ := 0
  hbmPeakBytes : ℤ

/-- The bundles that no protected path leads into count once, from the top. -/
def disjointReclaimableBytes (candidates : List TieredRadixBundle) (bytesPerToken : ℕ) : ℤ :=
  let key (b : TieredRadixBundle) : ℕ ×ₗ List ℤ := toLex (b.rootPath.length,b.rootPath)
  let total := (candidates.mergeSort fun a b => key a ≤ key b).foldl
    (fun (acc : List (List ℤ) × ℕ) b =>
      if ∃ root ∈ acc.1, root <+: b.rootPath then acc else (acc.1 ++ [b.rootPath],acc.2 + b.gpuTokens)) ([],0)
  total.2 * bytesPerToken

namespace RollingRadixAllocator
variable (digest : List ℤ → String) (config : RollingConfig) (a : RollingRadixAllocator)

def new : RollingRadixAllocator := { hbmPeakBytes := config.hbmFixedBytes }

def hbmOccupiedBytes : ℤ := config.hbmFixedBytes + a.radix.gpuTokens * config.bytesPerToken

def hostOccupiedBytes : ℤ := a.radix.cpuTokens * config.bytesPerToken

def hbmAvailableBytes : ℤ := config.hbmCapacityBytes - a.hbmOccupiedBytes config

/-- A call on the radix. -/
def onRadix {α : Type} (call : TieredTokenRadix × Except RadixRaised α) : RollingRadixAllocator × Except RollingRaised α :=
  ({ a with radix := call.1 },call.2.mapError .radix)

def transferMs (bytes : ℤ) (rate : ℚ) : ℚ := if bytes ≤ 0 then 0 else config.transferSetupMs + bytes / rate

def appendEvent (startMs endMs : ℚ) (kind : PhysicalKind) (reason : String) (requestId bundleId : Option String)
    (mutation : TieredRadixMutation) (transferBytes hbmBefore hostBefore : ℤ) :
    RollingRadixAllocator × Except RollingRaised Unit :=
  if ordered : startMs ≤ endMs then
    if nonneg : 0 ≤ transferBytes ∧ 0 ≤ hbmBefore ∧ 0 ≤ a.hbmOccupiedBytes config ∧ 0 ≤ hostBefore ∧
        0 ≤ a.hostOccupiedBytes config then
      ({ a with
        events := a.events ++ [
          { sequence := a.events.length
            startMs := startMs
            endMs := endMs
            kind := kind
            reason := reason
            requestId := requestId
            bundleId := bundleId
            rootPath := mutation.rootPath
            transferBytes := transferBytes
            hbmBytesBefore := hbmBefore
            hbmBytesAfter := a.hbmOccupiedBytes config
            hostBytesBefore := hostBefore
            hostBytesAfter := a.hostOccupiedBytes config
            ordered := ordered
            nonneg := nonneg }]
        hbmPeakBytes := max a.hbmPeakBytes (a.hbmOccupiedBytes config) },.ok ())
    else (a,.error (.valueError "physical event byte accounting must be non-negative"))
  else (a,.error (.valueError "physical event sequence or time interval is invalid"))

def assertCapacity : Except RollingRaised Unit :=
  if config.hbmCapacityBytes < a.hbmOccupiedBytes config then
    .error (.replayError "rolling allocator exceeded HBM capacity")
  else if config.hostCapacityBytes < a.hostOccupiedBytes config then
    .error (.replayError "rolling allocator exceeded Host capacity")
  else .ok ()

/-! ## Room -/

/-- The bundles that no protected path leads into. -/
def closureSafe (protectedPaths : List (List ℤ)) : Except RollingRaised (List TieredRadixBundle) :=
  (a.radix.evictableBundles digest).map fun bundles =>
    bundles.filter fun b => ¬ ∃ path ∈ protectedPaths, b.rootPath <+: path

def chooseBundle (candidates : List TieredRadixBundle) (futureUses : List FutureRadixUse) :
    Except RollingRaised (Option (TieredRadixBundle × Option ℕ)) :=
  match config.mode with
  | .reactiveLru => .ok ((leastBundle (fun a b => a.lruKey ≤ b.lruKey) candidates).map fun b => (b,none))
  | .hindsightNextUse =>
    match a.radix.futureUseIndices (futureUses.map (·.promptTokenSymbols)) with
    | .error raised => .error (.radix raised)
    | .ok nextUse =>
      .ok ((leastBundle (fun a b => a.nextUseKey nextUse ≤ b.nextUseKey nextUse) candidates).map fun b =>
        (b,nextUse[b.nodeId]?))

def noBundle (requiredBytes : ℤ) (requestId : String) : RollingRaised :=
  .replayError ("no closure-safe bundle can satisfy HBM admission; shortage=" ++
    toString (requiredBytes - a.hbmAvailableBytes config) ++ ", request=" ++ requestId)

/-- One round of the evictions. -/
def evict (bundle : TieredRadixBundle) (nextUse : Option ℕ) (cursor : ℚ) (requestId reason : String) :
    RollingRadixAllocator × Except RollingRaised ℚ :=
  let beforeHbm := a.hbmOccupiedBytes config
  let beforeHost := a.hostOccupiedBytes config
  if (config.mode = .reactiveLru ∨ nextUse.isSome) ∧
      beforeHost + bundle.missingCpuTokens * config.bytesPerToken ≤ config.hostCapacityBytes then
    andThen (a.onRadix (a.radix.commitCpu bundle.rootPath)) fun a mutation =>
    let transfer : ℤ := mutation.transferTokens * config.bytesPerToken
    let endMs := cursor + transferMs config transfer config.d2hBytesPerMs
    andThen (appendEvent config
      { a with d2hBytes := a.d2hBytes + transfer, pcieBusyMs := a.pcieBusyMs + (endMs - cursor) }
      cursor endMs .d2hCommit reason (some requestId) (some bundle.bundleId) mutation transfer beforeHbm beforeHost)
      fun a _ => (a,.ok endMs)
  else
    andThen (a.onRadix (a.radix.dropSubtree bundle.rootPath)) fun a mutation =>
    andThen (appendEvent config a cursor cursor .drop reason (some requestId) (some bundle.bundleId) mutation 0
      beforeHbm beforeHost) fun a _ => (a,.ok cursor)

/-- Each round takes tokens from the GPU; when it has none left there is no bundle. -/
def evictUntil (requiredBytes : ℤ) (requestId : String) (protectedPaths : List (List ℤ))
    (futureUses : List FutureRadixUse) (reason : String) :
    ℕ → RollingRadixAllocator → ℚ → RollingRadixAllocator × Except RollingRaised ℚ
  | 0, a, cursor =>
    if requiredBytes ≤ a.hbmAvailableBytes config then (a,.ok cursor)
    else (a,.error (a.noBundle config requiredBytes requestId))
  | fuel + 1, a, cursor =>
    if requiredBytes ≤ a.hbmAvailableBytes config then (a,.ok cursor)
    else
      andThen (a,a.closureSafe digest protectedPaths) fun a candidates =>
      andThen (a,a.chooseBundle config candidates futureUses) fun a chosen =>
      match chosen with
      | none => (a,.error (a.noBundle config requiredBytes requestId))
      | some chosen =>
        andThen (a.evict config chosen.1 chosen.2 cursor requestId reason) fun a cursor =>
        evictUntil requiredBytes requestId protectedPaths futureUses reason fuel a cursor

def ensureCapacity (requiredBytes : ℤ) (nowMs : ℚ) (requestId : String) (protectedPaths : List (List ℤ))
    (futureUses : List FutureRadixUse) (reason : String) : RollingRadixAllocator × Except RollingRaised ℚ :=
  if requiredBytes < 0 then (a,.error (.valueError "required capacity must be non-negative"))
  else if requiredBytes ≤ a.hbmAvailableBytes config then (a,.ok nowMs)
  else
    andThen (a,a.closureSafe digest protectedPaths) fun a candidates =>
    if a.hbmAvailableBytes config + disjointReclaimableBytes candidates config.bytesPerToken < requiredBytes then
      (a,.error (a.noBundle config requiredBytes requestId))
    else
      evictUntil digest config requiredBytes requestId protectedPaths futureUses reason a.radix.gpuTokens.toNat a nowMs

/-! ## Calls -/

/-- The part of a hit that only the host has enters the GPU. -/
def restore (requestId : String) (prompt : List ℤ) (tokens : ℕ) (readyMs : ℚ) :
    RollingRadixAllocator × Except RollingRaised ℚ :=
  let beforeHbm := a.hbmOccupiedBytes config
  let beforeHost := a.hostOccupiedBytes config
  andThen (a.onRadix (a.radix.restorePrefix prompt tokens)) fun a mutation =>
  let transfer : ℤ := mutation.transferTokens * config.bytesPerToken
  let endMs := readyMs + transferMs config transfer config.h2dBytesPerMs
  andThen (appendEvent config
    { a with h2dBytes := a.h2dBytes + transfer, pcieBusyMs := a.pcieBusyMs + (endMs - readyMs) }
    readyMs endMs .h2dRestore "admission_restore" (some requestId) none mutation transfer beforeHbm beforeHost)
    fun a _ => (a,.ok endMs)

def admitRequest (requestId : String) (prompt : List ℤ) (nowMs : ℚ) (futureUses : List FutureRadixUse) :
    RollingRadixAllocator × Except RollingRaised RollingAdmission :=
  if requestId = "" then (a,.error (.valueError "request_id must be non-empty"))
  else if nowMs < 0 then (a,.error (.valueError "admission timestamp must be finite and non-negative"))
  else
    let startD2h := a.d2hBytes
    let startH2d := a.h2dBytes
    andThen (a.onRadix (a.radix.matchPrompt prompt false)) fun a matched =>
    andThen (a.ensureCapacity digest config (matched.restoreTokens * config.bytesPerToken) nowMs requestId
      [prompt.take matched.logicalHitTokens] futureUses "admission_restore") fun a readyMs =>
    andThen (if matched.restoreTokens ≠ 0 then a.restore config requestId prompt matched.logicalHitTokens readyMs
      else (a,.ok readyMs)) fun a readyMs =>
    andThen (a.onRadix (a.radix.lockPrefix requestId prompt matched.logicalHitTokens)) fun a _ =>
    andThen (a.onRadix (a.radix.matchPrompt prompt true)) fun a _ =>
    andThen (a,a.assertCapacity config) fun a _ =>
    (a,.ok ⟨requestId,matched,readyMs,a.d2hBytes - startD2h,a.h2dBytes - startH2d⟩)

/-- The loop over the requests of a batch. -/
def materializeEach (readyMs : ℚ) (reason : String) :
    RollingRadixAllocator → Dict String ℤ → List (String × List ℤ) →
      RollingRadixAllocator × Except RollingRaised (Dict String ℤ)
  | a, growth, [] => (a,.ok growth)
  | a, growth, request :: rest =>
    let beforeHbm := a.hbmOccupiedBytes config
    let beforeHost := a.hostOccupiedBytes config
    let beforeUnique := a.radix.uniqueTokens
    andThen (a.onRadix (a.radix.extendRequestGpu request.1 request.2 true)) fun a mutation =>
    andThen (if mutation.gpuDeltaTokens ≠ 0 ∨ mutation.recomputedCpuTokens ≠ 0 then
      appendEvent config a readyMs readyMs .materialize reason (some request.1) none mutation 0 beforeHbm beforeHost
      else (a,.ok ())) fun a _ =>
    materializeEach readyMs reason a (growth.insert request.1 (a.radix.uniqueTokens - beforeUnique)) rest

def materializeBatch (requestPaths : List (String × List ℤ)) (nowMs : ℚ) (futureUses : List FutureRadixUse)
    (reason : String) : RollingRadixAllocator × Except RollingRaised RollingMaterialization :=
  if requestPaths = [] then (a,.ok ⟨nowMs,∅⟩)
  else if ¬ (requestPaths.map Prod.fst).Nodup ∨ "" ∈ requestPaths.map Prod.fst then
    (a,.error (.valueError "materialization batch request IDs must be unique and non-empty"))
  else
    andThen (a.onRadix (a.radix,a.radix.gpuExtensionUnionTokens requestPaths)) fun a tokens =>
    andThen (a.ensureCapacity digest config (tokens * config.bytesPerToken) nowMs
      (String.intercalate "," (requestPaths.map Prod.fst)) (requestPaths.map Prod.snd) futureUses reason) fun a readyMs =>
    andThen (materializeEach config readyMs reason a ∅ requestPaths) fun a growth =>
    andThen (a,a.assertCapacity config) fun a _ => (a,.ok ⟨readyMs,growth⟩)

def completeRequest (requestId contextId : String) (finalPath : List ℤ) :
    RollingRadixAllocator × Except RollingRaised Unit :=
  andThen (a.onRadix (a.radix,a.radix.gpuMaterializationTokens finalPath)) fun a missing =>
  if missing ≠ 0 then
    (a,.error (.replayError "request cannot complete before its final cache path is materialized"))
  else
    andThen (a.onRadix (a.radix.bindContext contextId finalPath)) fun a _ =>
    a.onRadix (a.radix.unlockRequest requestId)

def prepareHost (rootPath : List ℤ) (nowMs : ℚ) (reason : String) : RollingRadixAllocator × Except RollingRaised ℚ :=
  let beforeHbm := a.hbmOccupiedBytes config
  let beforeHost := a.hostOccupiedBytes config
  andThen (a.onRadix (a.radix,a.radix.missingCpuTokens rootPath)) fun a missing =>
  if config.hostCapacityBytes < beforeHost + missing * config.bytesPerToken then
    (a,.error (.replayError "shadow copy exceeds Host capacity"))
  else
    andThen (a.onRadix (a.radix.prepareHost rootPath)) fun a mutation =>
    let transfer : ℤ := mutation.transferTokens * config.bytesPerToken
    let endMs := nowMs + transferMs config transfer config.d2hBytesPerMs
    andThen (appendEvent config
      { a with d2hBytes := a.d2hBytes + transfer, pcieBusyMs := a.pcieBusyMs + (endMs - nowMs) }
      nowMs endMs .d2hShadow reason none none mutation transfer beforeHbm beforeHost) fun a _ => (a,.ok endMs)

/-! ## Runs -/

inductive RollingCall
  | admitRequest (requestId : String) (prompt : List ℤ) (nowMs : ℚ) (futureUses : List FutureRadixUse)
  | materializeBatch (requestPaths : List (String × List ℤ)) (nowMs : ℚ) (futureUses : List FutureRadixUse)
    (reason : String)
  | completeRequest (requestId contextId : String) (finalPath : List ℤ)
  | prepareHost (rootPath : List ℤ) (nowMs : ℚ) (reason : String)

/-- The allocator after a call, and the error if the call raises. -/
def call : RollingCall → RollingRadixAllocator × Except RollingRaised Unit
  | .admitRequest requestId prompt nowMs futureUses =>
    andThen (a.admitRequest digest config requestId prompt nowMs futureUses) fun a _ => (a,.ok ())
  | .materializeBatch requestPaths nowMs futureUses reason =>
    andThen (a.materializeBatch digest config requestPaths nowMs futureUses reason) fun a _ => (a,.ok ())
  | .completeRequest requestId contextId finalPath => a.completeRequest requestId contextId finalPath
  | .prepareHost rootPath nowMs reason =>
    andThen (a.prepareHost config rootPath nowMs reason) fun a _ => (a,.ok ())

end RollingRadixAllocator
end BeliefKV
