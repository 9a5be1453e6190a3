import BeliefKV.PageIndex.Basic

/-! The mutators of the page ownership index. Each one checks its arguments before it
changes anything, so a raising call is an `error` without a state. -/
namespace BeliefKV.PageOwnershipIndex

/-- Enter a context under an epoch and a workflow; it keeps the pages it has. -/
def enrollContext (s : PageOwnershipIndex) (contextId workflowId : String) (epoch : ℤ) :
    PageOwnershipIndex :=
  { s with
    contextEpoch := s.contextEpoch.insert contextId epoch
    contextWorkflow := s.contextWorkflow.insert contextId workflowId
    contextPages := s.contextPages.insert contextId (s.pagesOf contextId) }

def registerContext (s : PageOwnershipIndex) (contextId workflowId : String) (epoch : ℤ) :
    Except Raised PageOwnershipIndex :=
  let oldEpoch := s.contextEpoch[contextId]?
  let oldWorkflow := s.contextWorkflow[contextId]?
  if contextId = "" ∨ workflowId = "" then
    .error (.valueError "context_id and workflow_id must be non-empty")
  else if oldEpoch.any (epoch < ·) then
    .error (.pageIndexError ("stale context epoch for " ++ contextId ++ ": " ++ toString epoch ++
      " < " ++ toString (oldEpoch.getD 0)))
  else if oldWorkflow.any (· ≠ workflowId) then
    .error (.pageIndexError "a context cannot move across root workflows")
  else
    let s' := s.enrollContext contextId workflowId epoch
    .ok (if oldEpoch ≠ some epoch ∨ oldWorkflow = none then
      s'.touch false ∅ {contextId} {.context} else s')

/-- Enter a page record, with the edge from its parent. -/
def attachPage (s : PageOwnershipIndex) (page : PhysicalPageRecord) : PageOwnershipIndex :=
  { s with
    pages := s.pages.insert page.handle page
    latestGeneration := s.latestGeneration.insert page.handle.pageId
      page.handle.allocationGeneration }.updatePages page.parent.toFinset fun p =>
        { p with children := insert page.handle p.children }

/-- A parent that is given must be a live page. -/
def requireParent (s : PageOwnershipIndex) : Option PageHandle → Except Raised Unit
  | none => .ok ()
  | some p => do
    let _ ← s.requirePage p
    .ok ()

/-- The record of a page nobody owns, locks, reads or transfers yet. -/
def newPage (handle : PageHandle) (sizeBytes : ℕ) (residency : PhysicalResidency) (radixDepth : ℤ)
    (parent : Option PageHandle) (isSealed : Bool) (lastAccessMs : ℚ) : PhysicalPageRecord :=
  { handle, sizeBytes, residency, radixDepth, parent, isSealed, lastAccessMs }

def registerPage (s : PageOwnershipIndex) (handle : PageHandle) (sizeBytes : ℕ)
    (residency : PhysicalResidency := .gpuOnly) (radixDepth : ℤ := 0)
    (parent : Option PageHandle := none) (isSealed : Bool := true) (lastAccessMs : ℚ := 0) :
    Except Raised PageOwnershipIndex :=
  let latest := s.latestGeneration[handle.pageId]?
  if sizeBytes = 0 then .error (.valueError "size_bytes must be positive")
  else if latest.any (handle.allocationGeneration < ·) then
    .error (.pageIndexError ("stale page handle: " ++ handle.render))
  else if latest.any (fun g => g < handle.allocationGeneration ∧
      s.pages[(⟨handle.pageId,g⟩ : PageHandle)]?.any PhysicalPageRecord.live) then
    .error (.pageIndexError ("page id " ++ toString handle.pageId ++ " reused before generation " ++
      toString (latest.getD 0) ++ " was freed"))
  else if s.pages.contains handle then
    .error (.pageIndexError ("page already registered: " ++ handle.render))
  else do
    s.requireParent parent
    .ok ((s.attachPage (newPage handle sizeBytes residency radixDepth parent isSealed
      lastAccessMs)).touch true (insert handle parent.toFinset) ∅ {.topology,.residency})

/-- Drop a context from the owner and pin sets of all its pages. -/
def disownPages (s : PageOwnershipIndex) (contextId : String) : PageOwnershipIndex :=
  { s.updatePages (s.pagesOf contextId) (fun p => { p with
      ownerContexts := p.ownerContexts.erase contextId
      semanticPinContexts := p.semanticPinContexts.erase contextId }) with
    contextPages := s.contextPages.insert contextId ∅ }

def unbindContext (s : PageOwnershipIndex) (contextId : String) : PageOwnershipIndex :=
  let handles := s.pagesOf contextId
  let removedSemanticPin : Bool := decide (∃ h ∈ handles,
    s.pages[h]?.any fun p => contextId ∈ p.semanticPinContexts)
  if handles ≠ ∅ then
    (s.disownPages contextId).touch false handles {contextId}
      (if removedSemanticPin then {.owner,.semanticPin} else {.owner})
  else s.disownPages contextId

/-- Resolve handles to the handles their live records carry. -/
def requirePages (s : PageOwnershipIndex) : List PageHandle → Except Raised (Finset PageHandle)
  | [] => .ok ∅
  | h :: hs => do
    let page ← s.requirePage h
    let rest ← s.requirePages hs
    .ok (insert page.handle rest)

/-- Make a context the owner of some more pages, under its epoch. -/
def claimPages (s : PageOwnershipIndex) (contextId : String) (contextEpoch : ℤ)
    (handles : Finset PageHandle) : PageOwnershipIndex :=
  { s.updatePages handles (fun p => { p with
      ownerContexts := p.ownerContexts.insert contextId contextEpoch }) with
    contextPages := s.contextPages.insert contextId (s.pagesOf contextId ∪ handles) }

def bindPages (s : PageOwnershipIndex) (contextId : String) (contextEpoch : ℤ)
    (handles : List PageHandle) (replace : Bool := false) : Except Raised PageOwnershipIndex := do
  s.validateContextEpoch contextId contextEpoch
  let resolved ← s.requirePages handles
  let before := s.pagesOf contextId
  let s' := (if replace then s.unbindContext contextId else s).claimPages contextId contextEpoch
    resolved
  if !replace ∧ ¬ resolved ⊆ before then
    .ok (s'.touch false (resolved ∪ before) {contextId} {.owner})
  else if replace ∧ resolved ≠ ∅ then
    .ok (s'.touch false resolved {contextId} {.owner})
  else .ok s'

/-- The common tail of `freePage` and `invalidatePage`: the page dies, its owners forget it,
its parent loses the edge and its children become roots. Only `invalidatePage` looks at the
residency of a child before it re-roots it. -/
def retirePage (s : PageOwnershipIndex) (handle : PageHandle) (page : PhysicalPageRecord)
    (liveChildrenOnly : Bool) : PageOwnershipIndex :=
  let forgetful := { s with
    contextPages := s.contextPages.updateAll page.ownerContexts.keySet (·.erase handle) }
  let dead := forgetful.updatePages {handle} fun p => { p with
    ownerContexts := ∅
    semanticPinContexts := ∅
    residency := .dead }
  let unlinked := dead.updatePages page.parent.toFinset fun p =>
    { p with children := p.children.erase handle }
  let rerooted := unlinked.updatePages page.children fun p =>
    if liveChildrenOnly ∧ !p.live then p else { p with parent := none }
  (rerooted.updatePages {handle} fun p => { p with children := ∅ }).touch true
    (insert handle page.children ∪ page.parent.toFinset) page.ownerContexts.keySet
    {.topology,.owner,.residency}

def freePage (s : PageOwnershipIndex) (handle : PageHandle) : Except Raised PageOwnershipIndex := do
  let page ← s.requirePage handle
  if page.engineLockRef ≠ 0 ∨ page.activeReaderCount ≠ 0 ∨ !page.transferIdle then
    .error (.pageIndexError ("cannot free active page " ++ handle.render))
  else .ok (s.retirePage handle page false)

/-- Unlike `freePage` this accepts engine locks: a Radix split copies them legitimately. -/
def invalidatePage (s : PageOwnershipIndex) (handle : PageHandle) :
    Except Raised PageOwnershipIndex := do
  let page ← s.requirePage handle
  if !page.transferIdle then
    .error (.pageIndexError ("cannot mutate in-flight page extent " ++ handle.render))
  else .ok (s.retirePage handle page true)

/-- Walk from an ancestor to the root of its tree and refuse to meet `handle`. A walk longer
than the number of pages has met some page twice. -/
def checkAncestors (s : PageOwnershipIndex) (handle : PageHandle) :
    ℕ → Option PageHandle → Finset PageHandle → Except Raised Unit
  | _, none, _ => .ok ()
  | 0, some _, _ => .error (.pageIndexError "existing Radix parent cycle detected")
  | fuel + 1, some ancestor, seen => do
    if ancestor = handle then
      .error (.pageIndexError "Radix parent update would create a cycle")
    else if ancestor ∈ seen then
      .error (.pageIndexError "existing Radix parent cycle detected")
    else
      let page ← s.requirePage ancestor
      s.checkAncestors handle fuel page.parent (insert ancestor seen)

/-- Move a page from one parent to another, on both sides of both edges. -/
def relinkPage (s : PageOwnershipIndex) (handle : PageHandle) (previous parent : Option PageHandle) :
    PageOwnershipIndex :=
  let detached := s.updatePages previous.toFinset fun p =>
    { p with children := p.children.erase handle }
  let moved := detached.updatePages {handle} fun p => { p with parent := parent }
  moved.updatePages parent.toFinset fun p => { p with children := insert handle p.children }

def setParent (s : PageOwnershipIndex) (handle : PageHandle) (parent : Option PageHandle) :
    Except Raised PageOwnershipIndex := do
  let page ← s.requirePage handle
  if parent = some handle then .error (.pageIndexError "a page cannot be its own parent")
  else
    s.requireParent parent
    s.checkAncestors handle (s.pages.size + 1) parent ∅
    if page.parent = parent then
      match parent with
      | none => .ok s
      | some p =>
        if s.pages[p]?.any (fun r => handle ∉ r.children) then
          .ok ((s.updatePages {p} fun r => { r with children := insert handle r.children }).touch
            true {handle,p} ∅ {.topology})
        else .ok s
    else
      .ok ((s.relinkPage handle page.parent parent).touch true
        (insert handle (page.parent.toFinset ∪ parent.toFinset)) ∅ {.topology})

/-- Move a context to an epoch together with the owner entries of its pages. -/
def advanceEpoch (s : PageOwnershipIndex) (contextId : String) (epoch : ℤ) : PageOwnershipIndex :=
  { s.updatePages (s.pagesOf contextId) (fun p => { p with
      ownerContexts := p.ownerContexts.insert contextId epoch }) with
    contextEpoch := s.contextEpoch.insert contextId epoch }

def updateContextEpoch (s : PageOwnershipIndex) (contextId : String) (epoch : ℤ) :
    Except Raised PageOwnershipIndex := do
  let current ← s.contextEpochOf contextId
  if epoch < current then .error (.pageIndexError "context epoch cannot move backwards")
  else
    let s' := s.advanceEpoch contextId epoch
    .ok (if epoch ≠ current then
      s'.touch false (s.pagesOf contextId) {contextId} {.context,.owner} else s')

def setEngineLock (s : PageOwnershipIndex) (handle : PageHandle) (value : ℤ) :
    Except Raised PageOwnershipIndex :=
  if value < 0 then .error (.valueError "engine lock must be non-negative")
  else do
    let page ← s.requirePage handle
    .ok (if page.engineLockRef ≠ value then
      (s.updatePages {handle} fun p => { p with engineLockRef := value }).touch false {handle} ∅
        {.lock}
      else s)

def setActiveReaders (s : PageOwnershipIndex) (handle : PageHandle) (value : ℤ) :
    Except Raised PageOwnershipIndex :=
  if value < 0 then .error (.valueError "active readers must be non-negative")
  else do
    let page ← s.requirePage handle
    .ok (if page.activeReaderCount ≠ value then
      (s.updatePages {handle} fun p => { p with activeReaderCount := value }).touch false {handle} ∅
        {.reader}
      else s)

/-- Rewrite the pin sets of some pages. -/
def repinPages (s : PageOwnershipIndex) (handles : Finset PageHandle)
    (f : Finset String → Finset String) : PageOwnershipIndex :=
  s.updatePages handles fun p => { p with semanticPinContexts := f p.semanticPinContexts }

def pinContext (s : PageOwnershipIndex) (contextId : String) : PageOwnershipIndex :=
  let pages := s.livePagesOf contextId
  if ∃ h ∈ pages, s.pages[h]?.any fun p => contextId ∉ p.semanticPinContexts then
    (s.repinPages pages (insert contextId)).touch false pages {contextId} {.semanticPin}
  else s

def unpinContext (s : PageOwnershipIndex) (contextId : String) : PageOwnershipIndex :=
  let pages := s.livePagesOf contextId
  if ∃ h ∈ pages, s.pages[h]?.any fun p => contextId ∈ p.semanticPinContexts then
    (s.repinPages pages (·.erase contextId)).touch false pages {contextId} {.semanticPin}
  else s

/-- The tags of a runtime update: one for each argument that was given, changed or not. -/
def runtimeTags (residency radixDepth engineLockRef lastAccessMs : Bool) : Finset Component :=
  (if residency then {.residency} else ∅) ∪ (if radixDepth then {.topology} else ∅) ∪
    (if engineLockRef then {.lock} else ∅) ∪ (if lastAccessMs then {.access} else ∅)

/-- Mirror the engine's own fields of a page with one revision update. -/
def updateRuntimeState (s : PageOwnershipIndex) (handle : PageHandle)
    (residency : Option PhysicalResidency := none) (radixDepth : Option ℤ := none)
    (engineLockRef : Option ℤ := none) (lastAccessMs : Option ℚ := none) :
    Except Raised PageOwnershipIndex := do
  let page ← s.requirePage handle
  if radixDepth.any (· < 0) then .error (.valueError "radix_depth must be non-negative")
  else if engineLockRef.any (· < 0) then
    .error (.valueError "engine_lock_ref must be non-negative")
  else if lastAccessMs.any (· < 0) then
    .error (.valueError "last_access_ms must be non-negative")
  else
    let topologyChanged : Bool := radixDepth.any (page.radixDepth ≠ ·)
    let changed : Bool := residency.any (page.residency ≠ ·) || topologyChanged ||
      engineLockRef.any (page.engineLockRef ≠ ·) || lastAccessMs.any (page.lastAccessMs ≠ ·)
    .ok (if changed then
      (s.updatePages {handle} fun p => { p with
        residency := residency.getD p.residency
        radixDepth := radixDepth.getD p.radixDepth
        engineLockRef := engineLockRef.getD p.engineLockRef
        lastAccessMs := lastAccessMs.getD p.lastAccessMs }).touch topologyChanged {handle}
          page.ownerContexts.keySet (runtimeTags residency.isSome radixDepth.isSome
            engineLockRef.isSome lastAccessMs.isSome)
      else s)

/-- Replace residency and transfer direction of one page and journal its owners. -/
def moveResidency (s : PageOwnershipIndex) (handle : PageHandle) (page : PhysicalPageRecord)
    (residency : PhysicalResidency) (direction : Option TransferDirection)
    (components : Finset Component) : PageOwnershipIndex :=
  (s.updatePages {handle} fun p => { p with
    residency := residency
    transferDirection := direction }).touch false {handle} page.ownerContexts.keySet components

def beginTransfer (s : PageOwnershipIndex) (handle : PageHandle) (direction : TransferDirection) :
    Except Raised PageOwnershipIndex := do
  let page ← s.requirePage handle
  if !page.transferIdle then
    .error (.pageIndexError ("page already in transfer: " ++ handle.render))
  else match direction with
    | .d2h =>
      if page.residency ≠ .gpuOnly then
        .error (.pageIndexError ("D2H requires GPU_ONLY, got " ++ page.residency.value))
      else .ok (s.moveResidency handle page .mirroring (some .d2h) {.residency,.transfer})
    | .h2d =>
      if page.residency ≠ .cpuOnly then
        .error (.pageIndexError ("H2D requires CPU_ONLY, got " ++ page.residency.value))
      else .ok (s.moveResidency handle page .prefetching (some .h2d) {.residency,.transfer})

def completeTransfer (s : PageOwnershipIndex) (handle : PageHandle) (direction : TransferDirection)
    (keepGpu : Bool := true) : Except Raised PageOwnershipIndex := do
  let page ← s.requirePage handle
  if page.transferDirection ≠ some direction then
    .error (.pageIndexError ("unexpected transfer ACK for " ++ handle.render))
  else
    let residency := match direction with
      | .d2h => if keepGpu then PhysicalResidency.dualClean else .cpuOnly
      | .h2d => .dualClean
    .ok (s.moveResidency handle page residency none {.residency,.transfer})

def abortTransfer (s : PageOwnershipIndex) (handle : PageHandle) :
    Except Raised PageOwnershipIndex := do
  let page ← s.requirePage handle
  match page.transferDirection with
  | some .d2h => .ok (s.moveResidency handle page .gpuOnly none {.residency,.transfer})
  | some .h2d => .ok (s.moveResidency handle page .cpuOnly none {.residency,.transfer})
  | none => .error (.pageIndexError ("page is not in transfer: " ++ handle.render))

def commitCpu (s : PageOwnershipIndex) (handle : PageHandle) : Except Raised PageOwnershipIndex := do
  let page ← s.requirePage handle
  if page.residency = .cpuOnly then .ok s
  else if page.residency ≠ .dualClean then
    .error (.pageIndexError ("commit requires DUAL_CLEAN or the CPU_ONLY postcondition, got " ++
      page.residency.value ++ " for " ++ handle.render))
  else .ok (s.moveResidency handle page .cpuOnly page.transferDirection {.residency})

def dropPage (s : PageOwnershipIndex) (handle : PageHandle) : Except Raised PageOwnershipIndex := do
  let page ← s.requirePage handle
  if !page.transferIdle then .error (.pageIndexError "cannot drop an in-flight page")
  else match page.residency with
    | .dualClean => .ok (s.moveResidency handle page .cpuOnly page.transferDirection {.residency})
    | .gpuOnly => s.freePage handle
    | .cpuOnly => s.freePage handle
    | _ => .error (.pageIndexError ("cannot drop page in state " ++ page.residency.value))

def dropHostCopy (s : PageOwnershipIndex) (handle : PageHandle) :
    Except Raised PageOwnershipIndex := do
  let page ← s.requirePage handle
  if !page.transferIdle then .error (.pageIndexError "cannot drop an in-flight host copy")
  else match page.residency with
    | .dualClean => .ok (s.moveResidency handle page .gpuOnly page.transferDirection {.residency})
    | .cpuOnly => s.freePage handle
    | _ => .error (.pageIndexError ("host-copy drop requires DUAL_CLEAN or CPU_ONLY, got " ++
        page.residency.value))

end BeliefKV.PageOwnershipIndex
