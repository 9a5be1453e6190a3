import BeliefKV.PageIndex.Physical

/-! Self-checks of the index, replica deltas cut from the journal, and their application to
a mirror. -/
namespace BeliefKV

/-- Raise the first of the collected errors. -/
def raiseFirst : List Raised → Except Raised Unit
  | [] => .ok ()
  | e :: _ => .error e

@[simp] theorem raiseFirst_eq_ok (es : List Raised) : raiseFirst es = .ok () ↔ es = [] := by
  cases es <;> simp [raiseFirst]

namespace PageOwnershipIndex

/-! ## Self-checks -/

/-- Check every page of a handle set; `missing` is raised for a handle without a record. -/
def handleErrors (s : PageOwnershipIndex) (handles : Finset PageHandle) (missing : Raised)
    (check : PhysicalPageRecord → Option Raised) : List Raised :=
  (if ∃ h ∈ handles, ¬ s.pages.contains h then [missing] else []) ++
    s.pages.toList.filterMap fun entry => if entry.1 ∈ handles then check entry.2 else none

theorem handleErrors_eq_nil (s : PageOwnershipIndex) (handles : Finset PageHandle)
    (missing : Raised) (check : PhysicalPageRecord → Option Raised) :
    s.handleErrors handles missing check = [] ↔
      ∀ h ∈ handles, ∃ p, s.pages[h]? = some p ∧ check p = none := by
  unfold handleErrors
  rw [List.append_eq_nil_iff,List.filterMap_eq_nil_iff]
  constructor
  · rintro ⟨hm,hc⟩ h hh
    obtain ⟨p,hp⟩ : ∃ p, s.pages[h]? = some p := by
      rw [← Dict.mem_iff_get]
      by_contra hn
      rw [if_pos ⟨h,hh,hn⟩] at hm
      simp at hm
    refine ⟨p,hp,?_⟩
    simpa [hh] using hc (h,p) (Std.ExtTreeMap.mem_toList_iff_getElem?_eq_some.mpr hp)
  · intro hall
    constructor
    · rw [if_neg]
      rintro ⟨h,hh,hn⟩
      obtain ⟨p,hp,-⟩ := hall h hh
      exact hn ((Dict.mem_iff_get _ _).mpr ⟨p,hp⟩)
    · rintro ⟨h,p⟩ hmem
      rw [Std.ExtTreeMap.mem_toList_iff_getElem?_eq_some] at hmem
      split_ifs with hh
      · obtain ⟨q,hq,hc⟩ := hall h hh
        rw [hmem] at hq
        cases hq
        exact hc
      · rfl

/-- The forward half of the ownership maps, for one context. -/
def contextErrors (s : PageOwnershipIndex) (contextId : String) (missing : Raised) : List Raised :=
  s.handleErrors (s.pagesOf contextId) missing fun page =>
    match page.ownerContexts[contextId]?, s.contextEpoch[contextId]? with
    | none, _ => some (.assertionError "context->page mapping lacks reverse owner")
    | some _, none => some (.keyError contextId)
    | some epoch, some current =>
      if epoch ≠ current then some (.assertionError "page owner epoch differs from context epoch")
      else none

/-- The backward half of the ownership maps and the Radix edges, for one page. -/
def pageErrors (s : PageOwnershipIndex) (page : PhysicalPageRecord) : List Raised :=
  (page.ownerContexts.keys.filterMap fun c =>
    if page.handle ∉ s.pagesOf c then
      some (.assertionError "page owner lacks reverse context mapping")
    else none) ++
  (if page.engineLockRef < 0 ∨ page.activeReaderCount < 0 then
    [.assertionError "negative page reference count"] else []) ++
  (if page.residency = .dead then
    if page.children ≠ ∅ then [.assertionError "dead page retains Radix children"] else []
  else
    (match page.parent with
    | none => []
    | some parentHandle =>
      match s.pages[parentHandle]? with
      | none => [.assertionError "live page has a missing or dead Radix parent"]
      | some parent =>
        if parent.residency = .dead then
          [.assertionError "live page has a missing or dead Radix parent"]
        else if page.handle ∉ parent.children then
          [.assertionError "Radix child lacks reverse parent edge"]
        else []) ++
    s.handleErrors page.children
      (.assertionError "Radix parent retains a missing or dead child") fun child =>
        if child.residency = .dead then
          some (.assertionError "Radix parent retains a missing or dead child")
        else if child.parent ≠ some page.handle then
          some (.assertionError "Radix parent/child edge diverged")
        else none)

def assertConsistent (s : PageOwnershipIndex) : Except Raised Unit :=
  raiseFirst ((s.contextPages.keys.flatMap fun c => s.contextErrors c (.keyError "missing page")) ++
    s.pages.vals.flatMap s.pageErrors)

/-! ## Replica deltas -/

/-- An immutable copy of a page record. Values are immutable here, so the copy is the record;
the sorted tuples of the source are the sets they list. -/
abbrev PhysicalPageReplica := PhysicalPageRecord

structure PhysicalPageStateReplica where
  handle : PageHandle
  residency : PhysicalResidency
  engineLockRef : ℤ
  semanticPinContexts : Finset String
  activeReaderCount : ℤ
  transferDirection : Option TransferDirection
  lastAccessMs : ℚ

structure ContextPageReplica where
  contextId : String
  workflowId : String
  epoch : ℤ
  handles : Finset PageHandle

/-- Replacement records of one delta. The sorted tuples of replicas, one for each handle or
context, are kept as dictionaries. -/
structure PageIndexReplicaDelta where
  fromRevision : ℕ
  toRevision : ℕ
  topologyRevision : ℕ
  pages : Dict PageHandle PhysicalPageReplica
  pageStates : Dict PageHandle PhysicalPageStateReplica
  contexts : Dict String ContextPageReplica
  changedHandles : Finset PageHandle
  changedContextIds : Finset String
  components : Finset Component
  fullRebuildRequired : Bool := false

def pageStateReplica (page : PhysicalPageRecord) : PhysicalPageStateReplica :=
  { handle := page.handle
    residency := page.residency
    engineLockRef := page.engineLockRef
    semanticPinContexts := page.semanticPinContexts
    activeReaderCount := page.activeReaderCount
    transferDirection := page.transferDirection
    lastAccessMs := page.lastAccessMs }

def contextReplica (s : PageOwnershipIndex) (contextId : String) (epoch : ℤ) : ContextPageReplica :=
  { contextId := contextId
    workflowId := s.contextWorkflow[contextId]?.getD ""
    epoch := epoch
    handles := s.pagesOf contextId }

def replicaDeltaSince (s : PageOwnershipIndex) (revision : ℕ) :
    Except Raised PageIndexReplicaDelta := do
  let changes ← s.changesSince revision
  let fullRebuild := revision = 0 || changes.fullRebuildRequired
  let handles := if fullRebuild then s.pages.keySet else changes.handles
  let mutations := s.mutationsSince revision
  let fullPageHandles := if fullRebuild then handles
    else Journal.collect PageIndexMutation.handles
      (mutations.filter fun m => m.components ∩ Component.structural ≠ ∅)
  let statePageHandles := handles \ fullPageHandles
  let contextIds := if fullRebuild then s.contextEpoch.keySet
    else Journal.collect PageIndexMutation.contextIds
      (mutations.filter fun m => m.components ∩ Component.contextual ≠ ∅)
  .ok
    { fromRevision := revision
      toRevision := s.revision
      topologyRevision := s.topologyRevision
      pages := s.pages.select fun h _ => h ∈ fullPageHandles
      pageStates := (s.pages.select fun h _ => h ∈ statePageHandles).map fun _ p =>
        pageStateReplica p
      contexts := (s.contextEpoch.select fun c _ => c ∈ contextIds).map s.contextReplica
      changedHandles := handles
      changedContextIds := contextIds
      components := changes.components
      fullRebuildRequired := fullRebuild }

/-- Raise the latest generation of a page id to the one a handle carries. -/
def observeGeneration (latest : Dict ℕ ℕ) (h : PageHandle) : Dict ℕ ℕ :=
  latest.insert h.pageId (max h.allocationGeneration (latest[h.pageId]?.getD 0))

/-- Overwrite the non-topology state of a page by a patch. -/
def patchState (page : PhysicalPageRecord) (r : PhysicalPageStateReplica) : PhysicalPageRecord :=
  { page with
    residency := r.residency
    engineLockRef := r.engineLockRef
    semanticPinContexts := r.semanticPinContexts
    activeReaderCount := r.activeReaderCount
    transferDirection := r.transferDirection
    lastAccessMs := r.lastAccessMs }

/-- Forget all records before a full rebuild. -/
def clear (s : PageOwnershipIndex) : PageOwnershipIndex :=
  { s with
    pages := ∅
    latestGeneration := ∅
    contextPages := ∅
    contextEpoch := ∅
    contextWorkflow := ∅
    mutationJournal := []
    workflowChargeCacheRevision := -1
    workflowChargeCache := ∅ }

/-- Install the whole page records of a delta. -/
def installPages (s : PageOwnershipIndex) (pages : Dict PageHandle PhysicalPageReplica) :
    PageOwnershipIndex :=
  { s with
    pages := s.pages.overlay pages
    latestGeneration := pages.keys.foldl observeGeneration s.latestGeneration }

/-- Install the state patches of a delta on the records they name. -/
def installStates (s : PageOwnershipIndex) (states : Dict PageHandle PhysicalPageStateReplica) :
    PageOwnershipIndex :=
  { s with pages := s.pages.map fun h p => (states[h]?.map (patchState p)).getD p }

def installContexts (s : PageOwnershipIndex) (contexts : Dict String ContextPageReplica) :
    PageOwnershipIndex :=
  { s with
    contextEpoch := s.contextEpoch.overlay (contexts.map fun _ c => c.epoch)
    contextWorkflow := s.contextWorkflow.overlay (contexts.map fun _ c => c.workflowId)
    contextPages := s.contextPages.overlay (contexts.map fun _ c => c.handles) }

/-- Adopt the revisions of a delta and record the covered interval in the mirror's journal. -/
def publishDelta (s : PageOwnershipIndex) (delta : PageIndexReplicaDelta) : PageOwnershipIndex :=
  { s with
    revision := delta.toRevision
    topologyRevision := delta.topologyRevision
    physicalStateRevision :=
      if delta.fullRebuildRequired ∨ delta.components ∩ Component.physical ≠ ∅ then
        s.physicalStateRevision + 1 else s.physicalStateRevision
    accountingRevision :=
      if delta.fullRebuildRequired ∨ delta.components ∩ Component.accounting ≠ ∅ then
        s.accountingRevision + 1 else s.accountingRevision
    mutationJournal := if s.revision < delta.toRevision then
        Journal.push journalBound s.mutationJournal
          { fromRevision := s.revision
            revision := delta.toRevision
            topologyRevision := delta.topologyRevision
            handles := delta.changedHandles
            contextIds := delta.changedContextIds
            components := delta.components }
      else s.mutationJournal }

/-- The mirror's records before a delta is installed. -/
def deltaBase (s : PageOwnershipIndex) (delta : PageIndexReplicaDelta) : PageOwnershipIndex :=
  if delta.fullRebuildRequired then s.clear else s

/-- Install all parts of a delta, in the order whole records, patches, contexts, revisions. -/
def installDelta (s : PageOwnershipIndex) (delta : PageIndexReplicaDelta) : PageOwnershipIndex :=
  ((((s.deltaBase delta).installPages delta.pages).installStates delta.pageStates).installContexts
    delta.contexts).publishDelta delta

/-- Check only the records whose replacement can change an invariant. -/
def assertDeltaConsistent (s : PageOwnershipIndex) (delta : PageIndexReplicaDelta) :
    Except Raised Unit :=
  let changed := delta.changedHandles.filter fun h => s.pages.contains h
  let record (h : PageHandle) := s.pages[h]?
  let contextIds := delta.changedContextIds ∪
    changed.biUnion fun h => ((record h).map fun p => p.ownerContexts.keySet).getD ∅
  let handles := delta.changedHandles ∪
    changed.biUnion fun h => ((record h).map fun p => p.parent.toFinset ∪ p.children).getD ∅
  let unknown : List Raised := if ∃ c ∈ contextIds, ¬ s.contextEpoch.contains c then
    [.assertionError "page owner references an unknown context"] else []
  raiseFirst (unknown ++
    (s.contextEpoch.keys.filter (· ∈ contextIds)).flatMap (fun c =>
      s.contextErrors c (.assertionError "context references a missing page")) ++
    (s.pages.select fun h _ => h ∈ handles).vals.flatMap s.pageErrors)

/-- Apply a safe-point delta to a mirror. The records are replaced before the self-check
runs, so the state is returned also when the check raises. -/
def applyReplicaDelta (s : PageOwnershipIndex) (delta : PageIndexReplicaDelta)
    (fullValidation : Bool := true) : PageOwnershipIndex × Except Raised Unit :=
  if delta.fromRevision ≠ s.revision then
    (s,.error (.pageIndexError ("page replica revision gap: " ++ toString delta.fromRevision ++
      " != " ++ toString s.revision)))
  else if delta.toRevision < delta.fromRevision then
    (s,.error (.pageIndexError "page replica revision cannot move backwards"))
  else
    let installed := (s.deltaBase delta).installPages delta.pages
    match delta.pageStates.keys.find? fun h => !installed.pages.contains h with
    | some unknown =>
      -- The patches that precede the first unknown handle have already been written.
      (installed.installStates (delta.pageStates.select fun h _ => compare h unknown = .lt),
        .error (.pageIndexError ("physical-state patch references unknown page: " ++ unknown.render)))
    | none =>
      let s' := s.installDelta delta
      (s',if fullValidation || delta.fullRebuildRequired then s'.assertConsistent
        else s'.assertDeltaConsistent delta)

end PageOwnershipIndex
end BeliefKV
