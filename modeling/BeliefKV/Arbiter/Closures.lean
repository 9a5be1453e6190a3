import BeliefKV.Lib.Walk
import BeliefKV.PageIndex.Physical
import BeliefKV.Controller.Commands

/-! What stands in the way of a transfer: the gates of a single page, and its relatives in the
Radix forest. -/
namespace BeliefKV

/-! ## Blockers -/

/-- A blocker that names a page and its size. -/
def PhysicalPageRecord.blocker (page : PhysicalPageRecord) (code : TransferBlockerCode)
    (detail : String) : TransferBlocker :=
  ⟨code,some page.handle,page.sizeBytes,detail⟩

/-- The blockers of a page itself; the bundle builder has the same function once more. -/
def pageTransferBlockers (page : PhysicalPageRecord) : List TransferBlocker :=
  (if page.isSealed then [] else [page.blocker .unsealed "page extent is not sealed"]) ++
  (if 0 < page.engineLockRef ∨ 0 < page.activeReaderCount then
    [page.blocker .nodeLocked "page has an engine lock or active reader"] else []) ++
  (if page.semanticPinContexts ≠ ∅ then
    [page.blocker .semanticPin "page is semantically pinned"] else []) ++
  (if page.transferIdle then [] else
    [page.blocker (if page.residency = .prefetching then .nodeLoading else .inflight)
      "page has an in-flight transfer"])

/-- The key blockers are sorted by; a missing handle counts as the first one. -/
def TransferBlocker.key (b : TransferBlocker) : String × PageHandle × ℕ × String :=
  (b.code.value,b.pageHandle.getD ⟨0,0⟩,b.requiredBytes,b.detail)

def deduplicateBlockers (blockers : List TransferBlocker) : List TransferBlocker :=
  blockers.eraseDups.insertionSort fun a b => (compare a.key b.key).isLE

theorem mem_deduplicateBlockers {blockers : List TransferBlocker} {b : TransferBlocker} :
    b ∈ deduplicateBlockers blockers ↔ b ∈ blockers := by
  unfold deduplicateBlockers
  rw [(List.perm_insertionSort _ _).mem_iff,List.mem_eraseDups]

theorem deduplicateBlockers_eq_nil {blockers : List TransferBlocker} :
    deduplicateBlockers blockers = [] ↔ blockers = [] := by
  rw [List.eq_nil_iff_forall_not_mem,List.eq_nil_iff_forall_not_mem]
  exact forall_congr' fun b => not_congr mem_deduplicateBlockers

/-- A page without blockers passes every gate. -/
theorem pageTransferBlockers_eq_nil {page : PhysicalPageRecord} :
    pageTransferBlockers page = [] ↔ page.isSealed ∧ page.engineLockRef ≤ 0 ∧
      page.activeReaderCount ≤ 0 ∧ page.semanticPinContexts = ∅ ∧ page.transferIdle := by
  unfold pageTransferBlockers
  simp only [List.append_eq_nil_iff]
  constructor
  · rintro ⟨⟨⟨h₁,h₂⟩,h₃⟩,h₄⟩
    split_ifs at h₁ h₂ h₃ h₄
    grind
  · rintro ⟨h₁,h₂,h₃,h₄,h₅⟩
    simp [h₁,h₄,h₅]
    omega

namespace PageOwnershipIndex
variable (s : PageOwnershipIndex)

/-- The live pages of a context, in handle order. -/
def contextRecords (contextId : String) : List PhysicalPageRecord :=
  (Dict.sorted (s.livePagesOf contextId)).filterMap fun h => s.pages[h]?

/-! ## Descendants -/

/-- The number of edges a walk over the forest can push. -/
def edgeCount : ℕ := (s.pages.vals.map fun p => p.children.card).sum

/-- The children of a live page. Other handles count as visited without any. -/
def liveChildren (handle : PageHandle) : Option (List PageHandle) :=
  match s.pages[handle]? with
  | some page => some (if page.live then Dict.sorted page.children else [])
  | none => some []

/-- Every GPU-resident page below `page` is selected. The source leaves the walk at the first
page that is not, or that comes up twice. -/
def leafClosureAllows (page : PhysicalPageRecord) (selected : Finset PageHandle) : Bool :=
  let stack := Dict.sorted page.children
  let trace := Walk.explore s.liveChildren (s.edgeCount + stack.length) stack {}
  trace.again = [] && trace.visited.all fun h =>
    h ∈ selected || !(s.pages[h]?.any PhysicalPageRecord.gpuResident)

/-- The children of a GPU-resident page. -/
def gpuChildren (handle : PageHandle) : Option (List PageHandle) :=
  match s.pages[handle]? with
  | some page => if page.gpuResident then some (Dict.sorted page.children) else none
  | none => none

/-- The walk down from a root over GPU-resident pages. -/
def gpuDescendantWalk (root : PageHandle) : Walk.Trace PageHandle :=
  Walk.explore s.gpuChildren (s.edgeCount + 1) [root] {}

/-- The GPU-resident pages a root reaches through GPU-resident pages, and the pages that came
up twice or are gone. -/
def gpuDescendantClosure (root : PageHandle) :
    Dict PageHandle PhysicalPageRecord × List TransferBlocker :=
  let trace := s.gpuDescendantWalk root
  let gone := trace.missed.filter fun h => !(s.pages[h]?.any PhysicalPageRecord.live)
  (s.pages.select fun h _ => h ∈ trace.visited,
    trace.again.map (fun h => ⟨.extentMutated,some h,0,"Radix descendant cycle"⟩) ++
    gone.map (fun h => ⟨.descendantClosure,some h,0,"Radix descendant is missing"⟩))

/-! ## Ancestors -/

/-- Every ancestor is a live page that is GPU-resident or selected. On a cycle of parents the
source does not return; acyclic chains are shorter than the number of pages. -/
def prefetchClosureAllows (selected : Finset PageHandle) : ℕ → Option PageHandle → Bool
  | _, none => true
  | 0, some _ => false
  | fuel + 1, some parentHandle =>
    match s.pages[parentHandle]? with
    | none => false
    | some parent =>
      if parent.live = false then false
      else if parent.gpuResident = false ∧ parentHandle ∉ selected then false
      else prefetchClosureAllows selected fuel parent.parent

/-- The first ancestor that is gone or not GPU-resident. -/
def ancestorBlocker (page : PhysicalPageRecord) : ℕ → Option PageHandle → Option TransferBlocker
  | _, none => none
  | 0, some _ => none
  | fuel + 1, some ancestor =>
    let missing := page.blocker .ancestorClosure "D2H closure has a missing ancestor"
    match s.pages[ancestor]? with
    | none => some missing
    | some parent =>
      if parent.live = false then some missing
      else if parent.gpuResident = false then
        some (page.blocker .ancestorClosure "D2H target has a non-resident ancestor")
      else ancestorBlocker page fuel parent.parent

/-- The chain from a page up to its first GPU-resident ancestor, and what breaks it. -/
def prefetchChain : ℕ → PhysicalPageRecord → List PageHandle → List PageHandle × List TransferBlocker
  | 0, _, seen => (seen,[])
  | fuel + 1, node, seen =>
    let missing := node.blocker .ancestorClosure "H2D closure has a missing ancestor"
    if node.gpuResident then (seen ++ [node.handle],[])
    else if node.handle ∈ seen then (seen,[node.blocker .extentMutated "Radix ancestor cycle"])
    else
      match node.parent with
      | none => (seen ++ [node.handle],[])
      | some parentHandle =>
        match s.pages[parentHandle]? with
        | none => (seen ++ [node.handle],[missing])
        | some parent =>
          if parent.live then prefetchChain fuel parent (seen ++ [node.handle])
          else (seen ++ [node.handle],[missing])

end PageOwnershipIndex
end BeliefKV
