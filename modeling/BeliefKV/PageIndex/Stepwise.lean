import BeliefKV.PageIndex.Preservation

/-! The mutators of the index statement by statement: a statement that raises leaves the state as the
statements before it have made it. On a consistent index none raises after the first assignment. -/
namespace BeliefKV.PageOwnershipIndex

/-- Enter the generation of a new page. -/
def recordGeneration (s : PageOwnershipIndex) (handle : PageHandle) : PageOwnershipIndex :=
  { s with latestGeneration := s.latestGeneration.insert handle.pageId handle.allocationGeneration }

abbrev Mutation := EStateM Raised PageOwnershipIndex

namespace Mutation
variable {A : Type}

/-- Read something off the state. -/
def read (f : PageOwnershipIndex → Except Raised A) : Mutation A := fun s =>
  match f s with
  | .ok a => .ok a s
  | .error e => .error e s

/-- Assignments that cannot raise. -/
def write (f : PageOwnershipIndex → PageOwnershipIndex) : Mutation Unit := fun s => .ok () (f s)

/-- Look a record up under its handle and change it. -/
def amend (f : PhysicalPageRecord → PhysicalPageRecord) (handle : PageHandle) : Mutation Unit := fun s =>
  if handle ∈ s.pages then .ok () (s.updatePages {handle} f) else .error (.keyError handle.render) s

/-- The records of a context, each looked up under its handle. -/
def contextRecords (contextId : String) : Mutation Unit :=
  read fun s => ensure (∀ h ∈ s.pagesOf contextId, h ∈ s.pages) (.keyError contextId)

/-- Touch the index under a condition. -/
def touchIf (c : Prop) [Decidable c] (topology : Bool) (handles : Finset PageHandle) (contextIds : Finset String)
    (components : Finset Component) : Mutation Unit :=
  write fun s => if c then s.touch topology handles contextIds components else s

/-! ## Contexts -/

def registerContext (contextId workflowId : String) (epoch : ℤ) : Mutation Unit := do
  let s ← get
  let oldEpoch := s.contextEpoch[contextId]?
  let oldWorkflow := s.contextWorkflow[contextId]?
  if contextId = "" ∨ workflowId = "" then throw (.valueError "context_id and workflow_id must be non-empty")
  else if oldEpoch.any (epoch < ·) then
    throw (.pageIndexError ("stale context epoch for " ++ contextId ++ ": " ++ toString epoch ++
      " < " ++ toString (oldEpoch.getD 0)))
  else if oldWorkflow.any (· ≠ workflowId) then
    throw (.pageIndexError "a context cannot move across root workflows")
  else do
    write fun s => { s with contextEpoch := s.contextEpoch.insert contextId epoch }
    write fun s => { s with contextWorkflow := s.contextWorkflow.insert contextId workflowId }
    write fun s => { s with contextPages := s.contextPages.insert contextId (s.pagesOf contextId) }
    touchIf (oldEpoch ≠ some epoch ∨ oldWorkflow = none) false ∅ {contextId} {.context}

def updateContextEpoch (contextId : String) (epoch : ℤ) : Mutation Unit := do
  let current ← read (·.contextEpochOf contextId)
  if epoch < current then throw (.pageIndexError "context epoch cannot move backwards")
  else do
    write fun s => { s with contextEpoch := s.contextEpoch.insert contextId epoch }
    let s ← get
    (Dict.sorted (s.pagesOf contextId)).forM (amend fun p =>
      { p with ownerContexts := p.ownerContexts.insert contextId epoch })
    touchIf (epoch ≠ current) false (s.pagesOf contextId) {contextId} {.context,.owner}

/-! ## Ownership -/

def unbindContext (contextId : String) : Mutation Unit := write (·.unbindContext contextId)

def bindPages (contextId : String) (contextEpoch : ℤ) (handles : List PageHandle) (replace : Bool) :
    Mutation Unit := do
  read (·.validateContextEpoch contextId contextEpoch)
  let resolved ← read (·.requirePages handles)
  let s ← get
  let before := s.pagesOf contextId
  if replace then unbindContext contextId else pure ()
  (Dict.sorted resolved).forM (amend fun p =>
    { p with ownerContexts := p.ownerContexts.insert contextId contextEpoch })
  write fun s => { s with contextPages := s.contextPages.insert contextId (s.pagesOf contextId ∪ resolved) }
  if !replace ∧ ¬ resolved ⊆ before then write (·.touch false (resolved ∪ before) {contextId} {.owner})
  else touchIf (replace ∧ resolved ≠ ∅) false resolved {contextId} {.owner}

def pinContext (contextId : String) : Mutation Unit := do
  contextRecords contextId
  let s ← get
  let pages := s.livePagesOf contextId
  if ∃ h ∈ pages, s.pages[h]?.any fun p => contextId ∉ p.semanticPinContexts then do
    write (·.repinPages pages (insert contextId))
    contextRecords contextId
    write (·.touch false pages {contextId} {.semanticPin})
  else pure ()

def unpinContext (contextId : String) : Mutation Unit := do
  contextRecords contextId
  let s ← get
  let pages := s.livePagesOf contextId
  if ∃ h ∈ pages, s.pages[h]?.any fun p => contextId ∈ p.semanticPinContexts then do
    write (·.repinPages pages (·.erase contextId))
    contextRecords contextId
    write (·.touch false pages {contextId} {.semanticPin})
  else pure ()

/-! ## Pages -/

def registerPage (handle : PageHandle) (sizeBytes : ℕ) (residency : PhysicalResidency) (radixDepth : ℤ)
    (parent : Option PageHandle) (isSealed : Bool) (lastAccessMs : ℚ) : Mutation Unit := do
  let s ← get
  let latest := s.latestGeneration[handle.pageId]?
  if sizeBytes = 0 then throw (.valueError "size_bytes must be positive")
  else if latest.any (handle.allocationGeneration < ·) then
    throw (.pageIndexError ("stale page handle: " ++ handle.render))
  else if latest.any (fun g => g < handle.allocationGeneration ∧
      s.pages[(⟨handle.pageId,g⟩ : PageHandle)]?.any PhysicalPageRecord.live) then
    throw (.pageIndexError ("page id " ++ toString handle.pageId ++ " reused before generation " ++
      toString (latest.getD 0) ++ " was freed"))
  else if s.pages.contains handle then throw (.pageIndexError ("page already registered: " ++ handle.render))
  else do
    read (·.requireParent parent)
    let page := newPage handle sizeBytes residency radixDepth parent isSealed lastAccessMs
    write fun s => { s with pages := s.pages.insert handle page }
    write (·.recordGeneration handle)
    parent.toList.forM (amend fun p => { p with children := insert handle p.children })
    write (·.touch true (insert handle parent.toFinset) ∅ {.topology,.residency})

def freePage (handle : PageHandle) : Mutation Unit := do
  let page ← read (·.requirePage handle)
  if page.engineLockRef ≠ 0 ∨ page.activeReaderCount ≠ 0 ∨ !page.transferIdle then
    throw (.pageIndexError ("cannot free active page " ++ handle.render))
  else write (·.retirePage handle page false)

def invalidatePage (handle : PageHandle) : Mutation Unit := do
  let page ← read (·.requirePage handle)
  if !page.transferIdle then throw (.pageIndexError ("cannot mutate in-flight page extent " ++ handle.render))
  else write (·.retirePage handle page true)

/-- The same parent again: only a missing edge is added. -/
def restoreEdge (handle parent : PageHandle) : Mutation Unit := do
  let present ← read fun s => match s.pages[parent]? with
    | none => .error (.keyError parent.render)
    | some r => .ok (decide (handle ∈ r.children))
  if present then pure ()
  else do
    amend (fun r => { r with children := insert handle r.children }) parent
    write (·.touch true {handle,parent} ∅ {.topology})

def setParent (handle : PageHandle) (parent : Option PageHandle) : Mutation Unit := do
  let page ← read (·.requirePage handle)
  if parent = some handle then throw (.pageIndexError "a page cannot be its own parent")
  else do
    read (·.requireParent parent)
    read fun s => s.checkAncestors handle (s.pages.size + 1) parent ∅
    if page.parent = parent then
      match parent with
      | none => pure ()
      | some p => restoreEdge handle p
    else do
      write (·.updatePages page.parent.toFinset fun p => { p with children := p.children.erase handle })
      write (·.updatePages {handle} fun p => { p with parent := parent })
      parent.toList.forM (amend fun p => { p with children := insert handle p.children })
      write (·.touch true (insert handle (page.parent.toFinset ∪ parent.toFinset)) ∅ {.topology})

/-! ## Runtime state -/

def setEngineLock (handle : PageHandle) (value : ℤ) : Mutation Unit :=
  if value < 0 then throw (.valueError "engine lock must be non-negative")
  else do
    let page ← read (·.requirePage handle)
    if page.engineLockRef ≠ value then do
      write (·.updatePages {handle} fun p => { p with engineLockRef := value })
      write (·.touch false {handle} ∅ {.lock})
    else pure ()

def setActiveReaders (handle : PageHandle) (value : ℤ) : Mutation Unit :=
  if value < 0 then throw (.valueError "active readers must be non-negative")
  else do
    let page ← read (·.requirePage handle)
    if page.activeReaderCount ≠ value then do
      write (·.updatePages {handle} fun p => { p with activeReaderCount := value })
      write (·.touch false {handle} ∅ {.reader})
    else pure ()

def updateRuntimeState (handle : PageHandle) (residency : Option PhysicalResidency)
    (radixDepth engineLockRef : Option ℤ) (lastAccessMs : Option ℚ) : Mutation Unit := do
  let page ← read (·.requirePage handle)
  if radixDepth.any (· < 0) then throw (.valueError "radix_depth must be non-negative")
  else if engineLockRef.any (· < 0) then throw (.valueError "engine_lock_ref must be non-negative")
  else if lastAccessMs.any (· < 0) then throw (.valueError "last_access_ms must be non-negative")
  else do
    let topologyChanged : Bool := radixDepth.any (page.radixDepth ≠ ·)
    let changed : Bool := residency.any (page.residency ≠ ·) || topologyChanged ||
      engineLockRef.any (page.engineLockRef ≠ ·) || lastAccessMs.any (page.lastAccessMs ≠ ·)
    if changed then do
      write (·.updatePages {handle} fun p => { p with
        residency := residency.getD p.residency
        radixDepth := radixDepth.getD p.radixDepth
        engineLockRef := engineLockRef.getD p.engineLockRef
        lastAccessMs := lastAccessMs.getD p.lastAccessMs })
      write (·.touch topologyChanged {handle} page.ownerContexts.keySet (runtimeTags residency.isSome
        radixDepth.isSome engineLockRef.isSome lastAccessMs.isSome))
    else pure ()

/-! ## Transfers -/

def beginTransfer (handle : PageHandle) (direction : TransferDirection) : Mutation Unit := do
  let page ← read (·.requirePage handle)
  if !page.transferIdle then throw (.pageIndexError ("page already in transfer: " ++ handle.render))
  else match direction with
    | .d2h =>
      if page.residency ≠ .gpuOnly then
        throw (.pageIndexError ("D2H requires GPU_ONLY, got " ++ page.residency.value))
      else write (·.moveResidency handle page .mirroring (some .d2h) {.residency,.transfer})
    | .h2d =>
      if page.residency ≠ .cpuOnly then
        throw (.pageIndexError ("H2D requires CPU_ONLY, got " ++ page.residency.value))
      else write (·.moveResidency handle page .prefetching (some .h2d) {.residency,.transfer})

def completeTransfer (handle : PageHandle) (direction : TransferDirection) (keepGpu : Bool) :
    Mutation Unit := do
  let page ← read (·.requirePage handle)
  if page.transferDirection ≠ some direction then
    throw (.pageIndexError ("unexpected transfer ACK for " ++ handle.render))
  else
    let residency := match direction with
      | .d2h => if keepGpu then PhysicalResidency.dualClean else .cpuOnly
      | .h2d => .dualClean
    write (·.moveResidency handle page residency none {.residency,.transfer})

def abortTransfer (handle : PageHandle) : Mutation Unit := do
  let page ← read (·.requirePage handle)
  match page.transferDirection with
  | some .d2h => write (·.moveResidency handle page .gpuOnly none {.residency,.transfer})
  | some .h2d => write (·.moveResidency handle page .cpuOnly none {.residency,.transfer})
  | none => throw (.pageIndexError ("page is not in transfer: " ++ handle.render))

def commitCpu (handle : PageHandle) : Mutation Unit := do
  let page ← read (·.requirePage handle)
  if page.residency = .cpuOnly then pure ()
  else if page.residency ≠ .dualClean then
    throw (.pageIndexError ("commit requires DUAL_CLEAN or the CPU_ONLY postcondition, got " ++
      page.residency.value ++ " for " ++ handle.render))
  else write (·.moveResidency handle page .cpuOnly page.transferDirection {.residency})

def dropPage (handle : PageHandle) : Mutation Unit := do
  let page ← read (·.requirePage handle)
  if !page.transferIdle then throw (.pageIndexError "cannot drop an in-flight page")
  else match page.residency with
    | .dualClean => write (·.moveResidency handle page .cpuOnly page.transferDirection {.residency})
    | .gpuOnly => freePage handle
    | .cpuOnly => freePage handle
    | _ => throw (.pageIndexError ("cannot drop page in state " ++ page.residency.value))

def dropHostCopy (handle : PageHandle) : Mutation Unit := do
  let page ← read (·.requirePage handle)
  if !page.transferIdle then throw (.pageIndexError "cannot drop an in-flight host copy")
  else match page.residency with
    | .dualClean => write (·.moveResidency handle page .gpuOnly page.transferDirection {.residency})
    | .cpuOnly => freePage handle
    | _ => throw (.pageIndexError ("host-copy drop requires DUAL_CLEAN or CPU_ONLY, got " ++
        page.residency.value))

end Mutation

/-- A call, statement by statement. -/
def Op.perform : Op → Mutation Unit
  | registerContext c w e => Mutation.registerContext c w e
  | registerPage h size res depth parent isSealed access =>
    Mutation.registerPage h size res depth parent isSealed access
  | bindPages c e hs replace => Mutation.bindPages c e hs replace
  | unbindContext c => Mutation.unbindContext c
  | freePage h => Mutation.freePage h
  | invalidatePage h => Mutation.invalidatePage h
  | setParent h parent => Mutation.setParent h parent
  | updateContextEpoch c e => Mutation.updateContextEpoch c e
  | setEngineLock h value => Mutation.setEngineLock h value
  | setActiveReaders h value => Mutation.setActiveReaders h value
  | pinContext c => Mutation.pinContext c
  | unpinContext c => Mutation.unpinContext c
  | updateRuntimeState h res depth lock access => Mutation.updateRuntimeState h res depth lock access
  | beginTransfer h d => Mutation.beginTransfer h d
  | completeTransfer h d keepGpu => Mutation.completeTransfer h d keepGpu
  | abortTransfer h => Mutation.abortTransfer h
  | commitCpu h => Mutation.commitCpu h
  | dropPage h => Mutation.dropPage h
  | dropHostCopy h => Mutation.dropHostCopy h
  | readPhysical => Mutation.write (·.refreshPhysical)

end BeliefKV.PageOwnershipIndex
