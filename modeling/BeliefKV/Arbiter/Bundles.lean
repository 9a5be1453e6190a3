import BeliefKV.Arbiter.Closures

/-! Leases of contexts, and the builder of physical bundles: closure-complete transfer
candidates with an identity and a fingerprint of the state they were taken in. -/
namespace BeliefKV

/-! ## Leases -/

inductive LeaseKind
  | dead
  | speculative
  | conditionalResume
  | ready
  | running
  deriving DecidableEq, Repr

/-- The enumeration's string value. -/
def LeaseKind.value : LeaseKind → String
  | .dead => "dead"
  | .speculative => "speculative"
  | .conditionalResume => "conditional_resume"
  | .ready => "ready"
  | .running => "running"

def LeaseKind.strength : LeaseKind → ℕ
  | .dead => 0
  | .speculative => 1
  | .conditionalResume => 2
  | .ready => 3
  | .running => 4

/-- The event kind, subject and id of what a context waits for, in the order they are sorted by. -/
abbrev LeaseCondition := String × String × String

structure ContextLease where
  kind : LeaseKind
  condition : Option LeaseCondition := none

/-- The enumeration's string value. -/
def InvocationState.value : InvocationState → String
  | .created => "created"
  | .ready => "ready"
  | .runningLlm => "running_llm"
  | .waitTool => "wait_tool"
  | .waitChild => "wait_child"
  | .waitJoin => "wait_join"
  | .waitMessage => "wait_message"
  | .returning => "returning"
  | .done => "done"
  | .cancelled => "cancelled"

/-- A missing or empty name. -/
def orUnknown (name : Option String) : String :=
  match name with
  | none => "unknown"
  | some name => if name = "" then "unknown" else name

/-- What a waiting invocation waits for. -/
def leaseCondition (invocation : InvocationRecord) : LeaseCondition :=
  let id := invocation.invocationId
  match invocation.state with
  | .waitTool => ("tool_result",id,"tool:" ++ id ++ ":" ++ orUnknown invocation.activeToolFamily ++
      ":" ++ toString invocation.llmRound)
  | .waitChild => ("child_return",id,"children:" ++ id ++ ":" ++
      String.intercalate "," (Dict.sorted invocation.blockingChildIds))
  | .waitJoin => ("join_satisfied",id,"join:" ++ orUnknown invocation.joinId)
  | .waitMessage => ("message",id,"message:" ++ id)
  | state => ("invocation_ready",id,"state:" ++ id ++ ":" ++ state.value)

namespace RuntimeCausalContextGraph
variable (graph : RuntimeCausalContextGraph)

/-- The records of a context's invocations; every listed id is known. -/
def contextInvocations (context : ContextRecord) : List InvocationRecord :=
  (Dict.sorted context.invocationIds).filterMap fun id => graph.invocations[id]?

/-- The lease of a context that is known. -/
def knownLease (context : ContextRecord) : ContextLease :=
  let invocations := graph.contextInvocations context
  let waiting := invocations.filter (!·.state.terminal)
  let earliest := waiting.insertionSort fun a b =>
    (compare (a.updatedTsMs,a.invocationId) (b.updatedTsMs,b.invocationId)).isLE
  if graph.workflows[context.workflowId]?.any (·.endTsMs.isSome) then ⟨.dead,none⟩
  else if invocations.any (·.state = .runningLlm) then ⟨.running,none⟩
  else if invocations.any (fun r => r.state ∈ [.created,.ready,.returning] ∨ 0 < r.pendingMessages)
  then ⟨.ready,none⟩
  else
    match earliest with
    | invocation :: _ => ⟨.conditionalResume,some (leaseCondition invocation)⟩
    | [] =>
      if context.persistent then
        ⟨.conditionalResume,some ("context_resume",context.contextId,"persistent:" ++
          context.contextId ++ ":" ++ toString context.epoch)⟩
      else ⟨.dead,none⟩

/-- An unknown owner is a safety condition, not dead cache. -/
def lease (contextId : String) : ContextLease :=
  match graph.contexts[contextId]? with
  | none => ⟨.running,none⟩
  | some context => graph.knownLease context

/-- The strongest of the leases of some contexts. -/
def strongestKind (owners : List String) : LeaseKind :=
  owners.foldl (fun kind owner =>
    if kind.strength < (graph.lease owner).kind.strength then (graph.lease owner).kind else kind)
    .dead

/-- What the owners of a bundle wait for. -/
def leaseConditions (owners : List String) : List LeaseCondition :=
  Dict.sorted (owners.filterMap fun owner => (graph.lease owner).condition).toFinset

end RuntimeCausalContextGraph

/-! ## Identity and fingerprint -/

/-- What the fingerprint of a bundle records of one page. Outside the blocker scope the gates
of the page are left out. -/
structure PageFacts where
  handle : PageHandle
  sizeBytes : ℕ
  residency : PhysicalResidency
  parent : Option PageHandle
  children : List PageHandle
  ownerContexts : List (String × ℤ)
  engineLockRef : Option ℤ
  activeReaderCount : Option ℤ
  semanticPinContexts : Option (List String)
  isSealed : Option Bool
  transferDirection : Option TransferDirection
  deriving DecidableEq

structure FingerprintPayload where
  kind : CommandKind
  pages : List PageFacts
  strongestKind : LeaseKind
  ownerContextIds : List String
  conditions : List LeaseCondition
  deriving DecidableEq

/-- The two hashes of the builder: a digest of the representation of a tuple. -/
structure Digests where
  bundleId : CommandKind × List PageHandle → String
  fingerprint : FingerprintPayload → String

def pageFacts (scope : Bool) (page : PhysicalPageRecord) : PageFacts :=
  { handle := page.handle
    sizeBytes := page.sizeBytes
    residency := page.residency
    parent := page.parent
    children := Dict.sorted page.children
    ownerContexts := page.ownerContexts.toList
    engineLockRef := if scope then some page.engineLockRef else none
    activeReaderCount := if scope then some page.activeReaderCount else none
    semanticPinContexts := if scope then some (Dict.sorted page.semanticPinContexts) else none
    isSealed := if scope then some page.isSealed else none
    transferDirection := if scope then page.transferDirection else none }

/-! ## Previews -/

structure PhysicalBundle where
  bundleId : String
  handles : List PageHandle
  ownerContextIds : List String
  marginalReclaimableBytes : ℕ
  closureBytes : ℕ
  lockedBytes : ℕ
  generationFingerprint : String

structure PhysicalBundlePreview where
  commandKind : CommandKind
  contextId : String
  contextEpoch : ℤ
  bundle : PhysicalBundle
  pageActions : List ResolvedPageAction
  blockers : List TransferBlocker

namespace PhysicalBundlePreview

def eligible (preview : PhysicalBundlePreview) : Bool :=
  preview.pageActions ≠ [] && preview.blockers = []

/-- The intent of a preview that is not blocked. -/
def intent (preview : PhysicalBundlePreview) : Except Raised PhysicalBundleIntent :=
  if preview.eligible = false then
    .error (.valueError "a blocked physical bundle cannot become an intent")
  else .ok
    { bundleId := preview.bundle.bundleId
      closureHandles := preview.bundle.handles
      pageActions := preview.pageActions
      generationFingerprint := preview.bundle.generationFingerprint
      closureBytes := preview.bundle.closureBytes
      expectedReclaimableBytes := preview.bundle.marginalReclaimableBytes
      lockedBytes := preview.bundle.lockedBytes }

/-- The key previews are sorted by. -/
def key (preview : PhysicalBundlePreview) : ℕ × ℤ × ℕ × String :=
  (if preview.eligible then 0 else 1,-preview.bundle.marginalReclaimableBytes,
    preview.bundle.closureBytes,preview.bundle.bundleId)

end PhysicalBundlePreview

/-- What a caller allows, protects and has room for. -/
structure PreviewOptions where
  allowReadyOwners : Bool := false
  protectedContextId : Option String := none
  bypassOwnerContextIds : Finset String := ∅
  hostAvailableBytes : Option ℕ := none
  deviceAvailableBytes : Option ℕ := none

/-- The owners whose leases block a page. -/
def ownerBlockers (graph : RuntimeCausalContextGraph) (options : PreviewOptions)
    (page : PhysicalPageRecord) : List TransferBlocker :=
  page.ownerContexts.keys.filterMap fun contextId =>
    let kind := (graph.lease contextId).kind
    if contextId ∈ options.bypassOwnerContextIds then none
    else if some contextId = options.protectedContextId ∨ kind = .running ∨
        (kind = .ready ∧ options.allowReadyOwners = false) then
      some (page.blocker .engineBusy ("owner " ++ contextId ++ " has " ++ kind.value ++ " lease"))
    else none

/-- A page and the actions of one kind on it. -/
def PhysicalPageRecord.act (page : PhysicalPageRecord) (action : PhysicalPageAction) :
    ResolvedPageAction :=
  ⟨page.handle,action,page.sizeBytes⟩

/-- Shallower pages first, ties broken by handle. -/
def shallowestFirst (p q : PhysicalPageRecord) : Bool :=
  p.radixDepth < q.radixDepth ∨
    (p.radixDepth = q.radixDepth ∧ (compare p.handle q.handle).isLE)

/-- The bytes of a list of actions. -/
def actionBytes (actions : List ResolvedPageAction) : ℕ :=
  (actions.map ResolvedPageAction.sizeBytes).sum

/-- A builder over one graph and one index. -/
structure PhysicalBundleBuilder where
  digests : Digests
  graph : RuntimeCausalContextGraph
  pageIndex : PageOwnershipIndex

namespace PhysicalBundleBuilder
open PageOwnershipIndex (deepestFirst)
variable (b : PhysicalBundleBuilder)

def fingerprint (kind : CommandKind) (closure : Dict PageHandle PhysicalPageRecord)
    (owners : List String) : String :=
  let scope (page : PhysicalPageRecord) : Bool :=
    kind ∈ [.offloadContext,.dropContext,.shadowContext] || !page.gpuResident
  b.digests.fingerprint
    { kind := kind
      pages := closure.vals.map fun page => pageFacts (scope page) page
      strongestKind := b.graph.strongestKind owners
      ownerContextIds := owners
      conditions := b.graph.leaseConditions owners }

def preview (kind : CommandKind) (contextId : String) (contextEpoch : ℤ)
    (closure : Dict PageHandle PhysicalPageRecord) (actions : List ResolvedPageAction)
    (blockers : List TransferBlocker) (blockedHandles : Finset PageHandle) :
    PhysicalBundlePreview :=
  let owners := Dict.sorted (closure.vals.flatMap fun page => page.ownerContexts.keys).toFinset
  let blockers := deduplicateBlockers blockers
  { commandKind := kind
    contextId := contextId
    contextEpoch := contextEpoch
    pageActions := actions
    blockers := blockers
    bundle :=
      { bundleId := b.digests.bundleId (kind,closure.keys)
        handles := closure.keys
        ownerContextIds := owners
        marginalReclaimableBytes :=
          if kind ∈ [.offloadContext,.dropContext] ∧ blockers = [] then actionBytes actions else 0
        closureBytes := actionBytes actions
        lockedBytes := ((closure.select fun h _ => h ∈ blockedHandles).vals.map
          PhysicalPageRecord.sizeBytes).sum
        generationFingerprint := b.fingerprint kind closure owners } }

/-- A D2H action for a page that is only on the GPU; a clean copy is committed unless it is to
be kept. -/
def offloadAction (kind : CommandKind) (page : PhysicalPageRecord) : Option ResolvedPageAction :=
  match page.residency with
  | .dualClean => if kind = .offloadContext then some (page.act .commitCpu) else none
  | .gpuOnly => some (page.act .startD2h)
  | _ => none

/-- The blockers of one page of a D2H closure. Ancestors are looked at when nothing else is in
the way. -/
def offloadBlockers (options : PreviewOptions) (page : PhysicalPageRecord) : List TransferBlocker :=
  let own := pageTransferBlockers page ++ ownerBlockers b.graph options page
  if own ≠ [] then own
  else (b.pageIndex.ancestorBlocker page (b.pageIndex.pages.size + 1) page.parent).toList

/-- A bound on the bytes of a copy. -/
def capacityBlocker (code : TransferBlockerCode) (root : PageHandle) (bytes : ℕ) (detail : String)
    (available : Option ℕ) : List TransferBlocker :=
  if available.any (· < bytes) then [⟨code,some root,bytes,detail⟩] else []

/-- The closure-complete D2H preview of one root. -/
def previewOffloadRoot (kind : CommandKind) (contextId : String) (contextEpoch : ℤ)
    (root : PageHandle) (options : PreviewOptions) : Option PhysicalBundlePreview :=
  if kind ≠ .offloadContext ∧ kind ≠ .shadowContext then none
  else
    match b.graph.contexts[contextId]?, b.pageIndex.pages[root]? with
    | some context, some page =>
      if context.epoch ≠ contextEpoch ∨ page.gpuResident = false ∨ contextId ∉ page.ownerContexts
      then none
      else
        let closure := b.pageIndex.gpuDescendantClosure root
        let pages := closure.1.vals.insertionSort (deepestFirst · ·)
        let actions := pages.filterMap (offloadAction kind)
        let copyBytes := actionBytes (actions.filter (·.action = .startD2h))
        let blocked := pages.filter fun p => b.offloadBlockers options p ≠ []
        some (b.preview kind contextId contextEpoch closure.1 actions
          (closure.2 ++ pages.flatMap (b.offloadBlockers options) ++
            capacityBlocker .hostCapacity root copyBytes
              "D2H bundle exceeds current host availability" options.hostAvailableBytes)
          ((closure.2.filterMap TransferBlocker.pageHandle).toFinset ∪
            (blocked.map PhysicalPageRecord.handle).toFinset))
    | _, _ => none

/-- The preview of dropping everything from a root down. -/
def dropPreview (contextId : String) (contextEpoch : ℤ) (root : PageHandle)
    (options : PreviewOptions) : PhysicalBundlePreview :=
  let closure := b.pageIndex.gpuDescendantClosure root
  let pages := closure.1.vals.insertionSort (deepestFirst · ·)
  let pageBlockers (p : PhysicalPageRecord) :=
    pageTransferBlockers p ++ ownerBlockers b.graph options p
  b.preview .dropContext contextId contextEpoch closure.1 (pages.map (·.act .drop))
    (closure.2 ++ pages.flatMap pageBlockers)
    ((pages.filter fun p => pageBlockers p ≠ []).map PhysicalPageRecord.handle).toFinset

/-- The preview of loading a page with the ancestors that are not on the GPU. -/
def prefetchPreview (contextId : String) (contextEpoch : ℤ) (target : PhysicalPageRecord)
    (options : PreviewOptions) : PhysicalBundlePreview :=
  let chain := b.pageIndex.prefetchChain (b.pageIndex.pages.size + 2) target []
  let closure := b.pageIndex.pages.select fun h _ => h ∈ chain.1
  let pages := (closure.vals.insertionSort (shallowestFirst · ·)).filter (!·.gpuResident)
  let actions := pages.filterMap fun p =>
    if p.residency = .cpuOnly then some (p.act .startH2d) else none
  let pageBlockers (p : PhysicalPageRecord) :=
    let own := pageTransferBlockers p
    if own = [] ∧ p.residency ≠ .cpuOnly then
      [p.blocker .nodeLoading "H2D closure extent is not CPU_ONLY"] else own
  b.preview .prefetchContext contextId contextEpoch closure actions
    (chain.2 ++ pages.flatMap pageBlockers ++
      capacityBlocker .deviceCapacity target.handle (actionBytes actions)
        "H2D bundle exceeds current device availability" options.deviceAvailableBytes)
    ((pages.filter fun p => pageBlockers p ≠ []).map PhysicalPageRecord.handle).toFinset

/-- The GPU-resident pages of a context, deepest first. -/
def gpuRoots (contextId : String) : List PhysicalPageRecord :=
  ((b.pageIndex.contextRecords contextId).filter (·.gpuResident)).insertionSort (deepestFirst · ·)

/-- The first preview of each closure. -/
def distinctClosures (previews : List PhysicalBundlePreview) : List PhysicalBundlePreview :=
  previews.eraseDupsBy fun p q => p.bundle.handles = q.bundle.handles

/-- All previews of one kind, before they are sorted. -/
def previewsOfKind (kind : CommandKind) (contextId : String) (contextEpoch : ℤ)
    (options : PreviewOptions) : List PhysicalBundlePreview :=
  match kind with
  | .offloadContext | .shadowContext =>
    distinctClosures ((b.gpuRoots contextId).filterMap fun root =>
      b.previewOffloadRoot kind contextId contextEpoch root.handle options)
  | .dropContext =>
    distinctClosures ((b.gpuRoots contextId).map fun root =>
      b.dropPreview contextId contextEpoch root.handle options)
  | .prefetchContext =>
    distinctClosures ((((b.pageIndex.contextRecords contextId).filter
      (·.residency = .cpuOnly)).insertionSort (deepestFirst · ·)).map fun target =>
        b.prefetchPreview contextId contextEpoch target options)
  | _ => []

def previewsForContext (kind : CommandKind) (contextId : String) (contextEpoch : ℤ)
    (options : PreviewOptions) : List PhysicalBundlePreview :=
  if b.graph.contexts[contextId]?.map ContextRecord.epoch = some contextEpoch ∧
      b.pageIndex.contextEpoch[contextId]? = some contextEpoch then
    (b.previewsOfKind kind contextId contextEpoch options).insertionSort fun p q =>
      (compare p.key q.key).isLE
  else []

def findIntentPreview (kind : CommandKind) (contextId : String) (contextEpoch : ℤ)
    (bundleId : String) (options : PreviewOptions) : Option PhysicalBundlePreview :=
  (b.previewsForContext kind contextId contextEpoch options).find? (·.bundle.bundleId = bundleId)

end PhysicalBundleBuilder
end BeliefKV
