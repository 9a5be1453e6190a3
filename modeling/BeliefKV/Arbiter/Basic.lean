import BeliefKV.Arbiter.Bundles

/-! The arbiter: logical context intents resolved against the physical page facts. -/
namespace BeliefKV

structure ArbitrationConfig where
  shadowChunkBytes : ℕ := 64 * 1024 * 1024
  urgentChunkBytes : ℕ := 256 * 1024 * 1024

/-! ## Selection under a byte limit -/

/-- A page and what is to be done with it. -/
abbrev Candidate := PhysicalPageRecord × PhysicalPageAction

/-- The accumulators of a selection loop. -/
structure Selection where
  actions : List ResolvedPageAction := []
  handles : Finset PageHandle := ∅
  bytes : ℕ := 0
  refused : List PhysicalPageRecord := []

namespace Selection

def take (acc : Selection) (candidate : Candidate) : Selection :=
  { acc with
    actions := acc.actions ++ [candidate.1.act candidate.2]
    handles := insert candidate.1.handle acc.handles
    bytes := acc.bytes + candidate.1.sizeBytes }

/-- Take the candidates in order until the limit is reached; refuse those whose relatives are
in the way. The four selection loops of the arbiter differ in what they refuse. -/
def run (allows : PhysicalPageRecord → Finset PageHandle → Bool) (limit : ℕ) :
    Selection → List Candidate → Selection
  | acc, [] => acc
  | acc, candidate :: rest =>
    if limit ≤ acc.bytes then acc
    else if allows candidate.1 acc.handles then run allows limit (acc.take candidate) rest
    else run allows limit { acc with refused := acc.refused ++ [candidate.1] } rest

/-- The resolution of a selection. Blockers are only reported when nothing was selected. -/
def resolved (acc : Selection) (empty : String) (blockers : List TransferBlocker) :
    ResolvedCommand :=
  { pageActions := acc.actions
    resolvedBytes := acc.bytes
    reason := if acc.actions = [] then empty else "resolved"
    blockers := if acc.actions = [] then deduplicateBlockers blockers else [] }

end Selection

def transferEligible (page : PhysicalPageRecord) : Bool :=
  page.isSealed && page.engineLockRef = 0 && page.semanticPinContexts = ∅ &&
    page.activeReaderCount = 0 && page.transferIdle

/-- An owner is protected, unknown, running or, unless allowed, ready. A context lists known
invocations only, so the lookup does not fail. -/
def pageHasActiveOwner (graph : RuntimeCausalContextGraph) (command : ControlCommand)
    (page : PhysicalPageRecord) : Bool :=
  page.ownerContexts.keys.any fun contextId =>
    some contextId = command.protectedContextId ||
      match graph.contexts[contextId]? with
      | none => true
      | some context => (graph.contextInvocations context).any fun invocation =>
          invocation.state = .runningLlm ||
            (invocation.state = .ready && !command.allowReadyOwners)

structure RadixArbiter where
  digests : Digests
  config : ArbitrationConfig := {}

namespace RadixArbiter
variable (a : RadixArbiter) (graph : RuntimeCausalContextGraph) (index : PageOwnershipIndex)
  (command : ControlCommand)

/-- The byte limit of a command, or the default for its kind. -/
def limit : ℕ := if command.targetBytes = 0 then a.config.urgentChunkBytes else command.targetBytes

/-! ## Offload and shadow -/

/-- What the scan makes of a page: blockers, or an action that makes it a candidate. -/
def scanOffload (shadow : Bool) (page : PhysicalPageRecord) :
    List TransferBlocker × Option PhysicalPageAction :=
  let own := pageTransferBlockers page
  if own ≠ [] then (own,none)
  else if pageHasActiveOwner graph command page then
    ([page.blocker .engineBusy "active context owner"],none)
  else
    match page.residency with
    | .dualClean => ([],if shadow then none else some .commitCpu)
    | .gpuOnly => ([],some .startD2h)
    | _ => ([],none)

def offloadKey (page : PhysicalPageRecord) : ℤ × ℕ × ℚ × PageHandle :=
  (-page.radixDepth,page.ownerContexts.size,page.lastAccessMs,page.handle)

def offloadLimit (shadow : Bool) : ℕ :=
  if shadow then
    min (if command.targetBytes = 0 then a.config.shadowChunkBytes else command.targetBytes)
      a.config.shadowChunkBytes
  else a.limit command

def offloadCandidates (shadow : Bool) (contextId : String) : List Candidate :=
  ((index.contextRecords contextId).filterMap fun page =>
    (scanOffload graph command shadow page).2.map fun action => (page,action)).insertionSort
      fun p q => (compare (offloadKey p.1) (offloadKey q.1)).isLE

def offloadSelection (shadow : Bool) (contextId : String) : Selection :=
  Selection.run index.leafClosureAllows (a.offloadLimit command shadow) {}
    (offloadCandidates graph index command shadow contextId)

def resolveOffload (shadow : Bool) (contextId : String) : ResolvedCommand :=
  let selection := a.offloadSelection graph index command shadow contextId
  selection.resolved "no_migratable_marginal_pages"
    ((index.contextRecords contextId).flatMap (fun page =>
      (scanOffload graph command shadow page).1) ++ selection.refused.map fun page =>
        page.blocker .descendantClosure "GPU-resident descendant is outside the selected bundle")

/-! ## Prefetch -/

/-- What keeps a page of the context from being loaded. -/
def scanPrefetch (page : PhysicalPageRecord) : List TransferBlocker :=
  if page.residency ≠ .cpuOnly then
    if page.residency = .prefetching then
      [page.blocker .nodeLoading "page is already prefetching"] else []
  else if page.transferIdle = false then
    [page.blocker .inflight "page has an in-flight transfer"]
  else if page.isSealed = false then [page.blocker .unsealed "page extent is not sealed"]
  else []

def prefetchCandidates (contextId : String) : List Candidate :=
  (((index.contextRecords contextId).filter fun page =>
    page.residency = .cpuOnly && page.transferIdle && page.isSealed).insertionSort
      (shallowestFirst · ·)).map fun page => (page,.startH2d)

def prefetchSelection (contextId : String) : Selection :=
  Selection.run (fun page selected =>
      index.prefetchClosureAllows selected (index.pages.size + 1) page.parent)
    (a.limit command) {} (prefetchCandidates index contextId)

def resolvePrefetch (contextId : String) : ResolvedCommand :=
  let selection := a.prefetchSelection index command contextId
  selection.resolved "no_cpu_pages"
    ((index.contextRecords contextId).flatMap scanPrefetch ++ selection.refused.map fun page =>
      page.blocker .ancestorClosure "GPU ancestor closure is incomplete")

/-! ## Drops -/

def dropKey (page : PhysicalPageRecord) : ℤ × ℚ × PageHandle :=
  (-page.radixDepth,page.lastAccessMs,page.handle)

def unownedCandidates : List Candidate :=
  ((index.pages.vals.filter fun page =>
    page.live && page.ownerContexts.isEmpty && transferEligible page).insertionSort
      fun p q => (compare (dropKey p) (dropKey q)).isLE).map fun page => (page,.drop)

def unownedSelection : Selection :=
  Selection.run index.leafClosureAllows (a.limit command) {} (unownedCandidates index)

/-- Nothing is reported about pages that stay. -/
def resolveDropUnowned : ResolvedCommand :=
  { (a.unownedSelection index command).resolved "no_unowned_pages" [] with blockers := [] }

/-- What keeps the host copy of a target; a target that is gone, or has no settled host copy,
is passed over. -/
def scanTerminal (handle : PageHandle) : List TransferBlocker × Option PhysicalPageRecord :=
  match index.pages[handle]? with
  | none => ([],none)
  | some page =>
    let block (code : TransferBlockerCode) (detail : String) : List TransferBlocker :=
      [⟨code,some handle,page.sizeBytes,detail⟩]
    if page.live = false then ([],none)
    else if page.ownerContexts.isEmpty = false then
      (block .extentMutated "terminal-private extent acquired another owner",none)
    else if page.residency ≠ .dualClean ∧ page.residency ≠ .cpuOnly then ([],none)
    else if pageTransferBlockers page ≠ [] then (pageTransferBlockers page,none)
    else if page.residency = .cpuOnly ∧
        ∃ c ∈ page.children, index.pages[c]?.any PhysicalPageRecord.live then
      (block .descendantClosure "CPU-only terminal extent is not yet a Radix leaf",none)
    else ([],some page)

def terminalCandidates : List Candidate :=
  ((command.targetHandles.filterMap fun h => (scanTerminal index h).2).insertionSort
    fun p q => (compare (dropKey p) (dropKey q)).isLE).map fun page => (page,.dropHost)

def terminalSelection : Selection :=
  Selection.run (fun _ _ => true) (a.limit command) {} (terminalCandidates index command)

/-- Release only host copies proven private when a context terminated. -/
def resolveTerminalPrivateDrop : ResolvedCommand :=
  (a.terminalSelection index command).resolved "no_terminal_private_host_pages"
    (command.targetHandles.flatMap fun h => (scanTerminal index h).1)

/-! ## Bundles -/

def builder : PhysicalBundleBuilder := ⟨a.digests,graph,index⟩

/-- What a command lets its bundle do to owners. -/
def commandOptions : PreviewOptions :=
  { allowReadyOwners := command.allowReadyOwners
    protectedContextId := command.protectedContextId
    bypassOwnerContextIds := command.bypassOwnerContextIds }

def resolvePhysicalBundle (contextId : String) (contextEpoch : ℤ) (intent : PhysicalBundleIntent) :
    ResolvedCommand :=
  let mutated (detail : String) : TransferBlocker := ⟨.extentMutated,none,0,detail⟩
  match (a.builder graph index).findIntentPreview command.kind contextId contextEpoch
      intent.bundleId (commandOptions command) with
  | none => ⟨[],0,"physical_bundle_no_longer_exists",
      [mutated "bundle closure is absent from the authoritative mirror"],
      intent.generationFingerprint⟩
  | some preview =>
    let fingerprint := preview.bundle.generationFingerprint
    if fingerprint ≠ intent.generationFingerprint then
      ⟨[],0,"physical_bundle_fingerprint_changed",
        if preview.blockers = [] then
          [mutated "physical bundle fingerprint changed before execution"]
        else preview.blockers,fingerprint⟩
    else if preview.blockers ≠ [] then
      ⟨[],0,"physical_bundle_blocked",preview.blockers,fingerprint⟩
    else if preview.bundle.handles ≠ intent.closureHandles ∨
        preview.pageActions ≠ intent.pageActions ∨
        preview.bundle.closureBytes ≠ intent.closureBytes then
      ⟨[],0,"physical_bundle_intent_diverged",
        [mutated "resolved physical actions differ from the selected intent"],fingerprint⟩
    else ⟨preview.pageActions,preview.bundle.closureBytes,"physical_bundle_resolved",[],fingerprint⟩

/-! ## Resolution -/

/-- The one action of a pin command, for every live page of its context. -/
def resolvePins (action : PhysicalPageAction) (contextId : String) : ResolvedCommand :=
  let actions := (index.contextRecords contextId).map (·.act action)
  { pageActions := actions, resolvedBytes := actionBytes actions, reason := "resolved" }

/-- A resolution that finds the command out of date. -/
def stale (reason : String) : ResolvedCommand :=
  { reason := reason, blockers := [{ code := .staleGeneration }] }

/-- The resolution of a command without a bundle, by its kind. -/
def resolveKind (contextId : String) : ResolvedCommand :=
  match command.kind with
  | .offloadContext => a.resolveOffload graph index command false contextId
  | .shadowContext => a.resolveOffload graph index command true contextId
  | .prefetchContext => a.resolvePrefetch index command contextId
  | .dropTerminalPrivate => a.resolveTerminalPrivateDrop index command
  | .pinContext => resolvePins index .pin contextId
  | .unpinContext => resolvePins index .unpin contextId
  | _ => { reason := "command_not_page_resident" }

def resolve : ResolvedCommand :=
  if command.kind = .dropUnowned then a.resolveDropUnowned index command
  else
    match command.contextId, command.contextEpoch with
    | some contextId, some epoch =>
      match graph.contexts[contextId]? with
      | none => stale "unknown_context"
      | some context =>
        if (index.validateContextEpoch contextId epoch).isOk = false then
          stale "stale_context_epoch"
        else if context.epoch ≠ epoch then stale "graph_page_epoch_divergence"
        else
          match command.physicalBundle with
          | some intent => a.resolvePhysicalBundle graph index command contextId epoch intent
          | none => a.resolveKind graph index command contextId
    | _, _ => stale "missing_context_identity"

end RadixArbiter
end BeliefKV
