import BeliefKV.Lib.Journal
import BeliefKV.Protocol

/-! The page ownership index: physical page records, context ownership and the bounded
mutation journal from which replicas and snapshots are kept current. -/
namespace BeliefKV

/-- Tags a mutation carries in the journal. -/
inductive Component
  | topology
  | residency
  | lock
  | reader
  | semanticPin
  | transfer
  | owner
  | context
  | access
  deriving DecidableEq, Repr

namespace Component

/-- The tags that invalidate the cached physical breakdown. -/
def physical : Finset Component := {topology,residency,lock,reader,semanticPin,transfer}

/-- The tags that invalidate the cached workflow charges. -/
def accounting : Finset Component := {residency,owner,context}

/-- The tags for which a replica delta ships whole page records. -/
def structural : Finset Component := {topology,owner}

/-- The tags for which a replica delta ships context records. -/
def contextual : Finset Component := {owner,context}

end Component

structure PhysicalPageRecord where
  handle : PageHandle
  sizeBytes : ℕ
  residency : PhysicalResidency
  radixDepth : ℤ := 0
  parent : Option PageHandle := none
  children : Finset PageHandle := ∅
  ownerContexts : Dict String ℤ := ∅
  engineLockRef : ℤ := 0
  semanticPinContexts : Finset String := ∅
  activeReaderCount : ℤ := 0
  isSealed : Bool := true
  transferDirection : Option TransferDirection := none
  lastAccessMs : ℚ := 0

namespace PhysicalPageRecord

def gpuResident (p : PhysicalPageRecord) : Bool :=
  p.residency ∈ [.gpuOnly,.mirroring,.dualClean,.prefetching]

def cpuResident (p : PhysicalPageRecord) : Bool :=
  p.residency ∈ [.mirroring,.dualClean,.cpuOnly,.prefetching]

def transferIdle (p : PhysicalPageRecord) : Bool := p.transferDirection = none

def live (p : PhysicalPageRecord) : Bool := p.residency ≠ .dead

end PhysicalPageRecord

structure PhysicalKvStateBreakdown where
  gpuBytes : ℕ := 0
  cpuBytes : ℕ := 0
  engineLockedBytes : ℕ := 0
  closureBlockedBytes : ℕ := 0
  migratableBytes : ℕ := 0
  dualResidentBytes : ℕ := 0
  deriving DecidableEq, Repr

/-- One journal entry of the index. -/
structure PageIndexMutation where
  fromRevision : ℕ
  revision : ℕ
  topologyRevision : ℕ
  handles : Finset PageHandle
  contextIds : Finset String
  components : Finset Component

structure PageOwnershipIndex where
  pages : Dict PageHandle PhysicalPageRecord := ∅
  latestGeneration : Dict ℕ ℕ := ∅
  contextPages : Dict String (Finset PageHandle) := ∅
  contextEpoch : Dict String ℤ := ∅
  contextWorkflow : Dict String String := ∅
  revision : ℕ := 0
  topologyRevision : ℕ := 0
  physicalStateRevision : ℕ := 0
  physicalBreakdownRevision : ℤ := -1
  physicalBreakdown : PhysicalKvStateBreakdown := {}
  -- The three cached page selections hold references to live records, kept here as handles.
  engineLockedPages : List PageHandle := []
  migratableGpuHandles : Finset PageHandle := ∅
  migratableGpuPages : List PageHandle := []
  accountingRevision : ℕ := 0
  workflowChargeCacheRevision : ℤ := -1
  workflowChargeCache : Dict String ℚ := ∅
  mutationJournal : List PageIndexMutation := []

namespace PageOwnershipIndex

/-- The length bound of the mutation journal. -/
def journalBound : ℕ := 65536

theorem journalBound_pos : 0 < journalBound := by decide

def empty : PageOwnershipIndex := {}

/-- Publish one mutation: advance the revisions its tags ask for and journal it. -/
def touch (s : PageOwnershipIndex) (topology : Bool) (handles : Finset PageHandle)
    (contextIds : Finset String) (components : Finset Component) : PageOwnershipIndex :=
  let topologyRevision := if topology then s.topologyRevision + 1 else s.topologyRevision
  { s with
    revision := s.revision + 1
    topologyRevision := topologyRevision
    physicalStateRevision :=
      if components ∩ Component.physical ≠ ∅ then s.physicalStateRevision + 1
      else s.physicalStateRevision
    accountingRevision :=
      if components ∩ Component.accounting ≠ ∅ then s.accountingRevision + 1
      else s.accountingRevision
    mutationJournal := Journal.push journalBound s.mutationJournal
      { fromRevision := s.revision
        revision := s.revision + 1
        topologyRevision := topologyRevision
        handles := handles
        contextIds := contextIds
        components := components } }

section Touch
variable (s : PageOwnershipIndex) (t : Bool) (hs : Finset PageHandle) (cs : Finset String)
  (ks : Finset Component)

@[simp] theorem touch_pages : (s.touch t hs cs ks).pages = s.pages := rfl
@[simp] theorem touch_latestGeneration :
    (s.touch t hs cs ks).latestGeneration = s.latestGeneration := rfl
@[simp] theorem touch_contextPages : (s.touch t hs cs ks).contextPages = s.contextPages := rfl
@[simp] theorem touch_contextEpoch : (s.touch t hs cs ks).contextEpoch = s.contextEpoch := rfl
@[simp] theorem touch_contextWorkflow :
    (s.touch t hs cs ks).contextWorkflow = s.contextWorkflow := rfl
@[simp] theorem touch_revision : (s.touch t hs cs ks).revision = s.revision + 1 := rfl

end Touch

/-- Rewrite the records of some pages in place. -/
def updatePages (s : PageOwnershipIndex) (handles : Finset PageHandle)
    (f : PhysicalPageRecord → PhysicalPageRecord) : PageOwnershipIndex :=
  { s with pages := s.pages.updateAll handles f }

@[simp] theorem updatePages_contextEpoch (s : PageOwnershipIndex) (hs : Finset PageHandle)
    (f : PhysicalPageRecord → PhysicalPageRecord) :
    (s.updatePages hs f).contextEpoch = s.contextEpoch := rfl

@[grind =] theorem get_updatePages (s : PageOwnershipIndex) (hs : Finset PageHandle)
    (f : PhysicalPageRecord → PhysicalPageRecord) (h : PageHandle) :
    (s.updatePages hs f).pages[h]? = if h ∈ hs then s.pages[h]?.map f else s.pages[h]? :=
  Dict.get_updateAll _ _ _ _

/-- The pages a context owns; an unknown context owns none. -/
def pagesOf (s : PageOwnershipIndex) (contextId : String) : Finset PageHandle :=
  s.contextPages[contextId]?.getD ∅

@[simp] theorem updatePages_pagesOf (s : PageOwnershipIndex) (hs : Finset PageHandle)
    (f : PhysicalPageRecord → PhysicalPageRecord) (c : String) :
    (s.updatePages hs f).pagesOf c = s.pagesOf c := rfl

theorem getD_insert (d : Dict String (Finset PageHandle)) (c a : String) (hs : Finset PageHandle) :
    (d.insert c hs)[a]?.getD ∅ = if a = c then hs else d[a]?.getD ∅ := by
  rw [Dict.get_insert]
  split_ifs with h₁ h₂ h₂
  · rfl
  · exact absurd h₁.symm h₂
  · exact absurd h₂.symm h₁
  · rfl

def requirePage (s : PageOwnershipIndex) (handle : PageHandle) :
    Except Raised PhysicalPageRecord :=
  if s.latestGeneration[handle.pageId]?.any (· ≠ handle.allocationGeneration) then
    .error (.pageIndexError ("stale page generation " ++ handle.render ++ "; latest is " ++
      toString (s.latestGeneration[handle.pageId]?.getD 0)))
  else match s.pages[handle]? with
    | none => .error (.pageIndexError ("unknown page: " ++ handle.render))
    | some page =>
      if page.residency = .dead then .error (.pageIndexError ("page is dead: " ++ handle.render))
      else .ok page

theorem requirePage_eq_ok {s : PageOwnershipIndex} {h : PageHandle} {p : PhysicalPageRecord} :
    s.requirePage h = .ok p ↔ s.pages[h]? = some p ∧ p.residency ≠ .dead ∧
      ∀ g, s.latestGeneration[h.pageId]? = some g → g = h.allocationGeneration := by
  unfold requirePage
  cases hg : s.latestGeneration[h.pageId]? <;> cases hp : s.pages[h]? <;> grind

/-- The handles of the live records of a context. -/
def livePagesOf (s : PageOwnershipIndex) (contextId : String) : Finset PageHandle :=
  (s.pagesOf contextId).filter fun h => s.pages[h]?.any PhysicalPageRecord.live

def contextEpochOf (s : PageOwnershipIndex) (contextId : String) : Except Raised ℤ :=
  match s.contextEpoch[contextId]? with
  | some epoch => .ok epoch
  | none => .error (.pageIndexError ("unknown context: " ++ contextId))

def hasContext (s : PageOwnershipIndex) (contextId : String) : Bool :=
  s.contextEpoch.contains contextId

def validateContextEpoch (s : PageOwnershipIndex) (contextId : String) (epoch : ℤ) :
    Except Raised Unit :=
  match s.contextEpochOf contextId with
  | .error e => .error e
  | .ok current =>
    if current ≠ epoch then
      .error (.pageIndexError ("context epoch mismatch for " ++ contextId ++ ": " ++
        toString epoch ++ " != " ++ toString current))
    else .ok ()

/-! ## Reading the journal -/

def mutationsSince (s : PageOwnershipIndex) (revision : ℕ) : List PageIndexMutation :=
  Journal.since PageIndexMutation.revision revision s.mutationJournal

structure ChangeSet where
  fromRevision : ℕ
  toRevision : ℕ
  topologyRevision : ℕ
  handles : Finset PageHandle
  contextIds : Finset String
  components : Finset Component
  fullRebuildRequired : Bool := false

/-- Everything that happened after a revision, with the gap scan over the journal. -/
def changesSince (s : PageOwnershipIndex) (revision : ℕ) : Except Raised ChangeSet :=
  if s.revision < revision then
    .error (.valueError "page-index revision is outside the valid range")
  else if revision = s.revision then
    .ok ⟨revision,revision,s.topologyRevision,∅,∅,∅,false⟩
  else
    let mutations := s.mutationsSince revision
    let covered := Journal.cover PageIndexMutation.fromRevision PageIndexMutation.revision
      revision mutations
    .ok
      { fromRevision := revision
        toRevision := s.revision
        topologyRevision := s.topologyRevision
        handles := Journal.collect PageIndexMutation.handles mutations
        contextIds := Journal.collect PageIndexMutation.contextIds mutations
        components := Journal.collect PageIndexMutation.components mutations
        fullRebuildRequired := mutations.isEmpty || covered ≠ some s.revision }

end PageOwnershipIndex
end BeliefKV
