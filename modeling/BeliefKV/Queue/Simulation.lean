import BeliefKV.Lib.Gauge
import BeliefKV.Queue.Workload

/-! The resimulation of a frozen workload under a plan. Times are rationals; `fl` stands for the rounding
of floating point, and `order` for the order in which a set is gone through. -/
namespace BeliefKV.QueueService

structure RequestState where
  demand : FrozenRequestDemand
  prefillRemaining : ℕ
  decodeRemaining : ℕ
  readyAtMs : Option ℚ := none
  admittedAtMs : Option ℚ := none
  firstServiceMs : Option ℚ := none
  finishMs : Option ℚ := none
  decodedTokens : ℕ := 0
  prefillChunkIndex : ℕ := 0
  actionUnlockMs : Option ℚ := none
  radixInitialized : Bool := false
  cacheHitTokens : ℕ := 0
  prefillTotal : ℕ := 0
  startupReservedBytes : ℕ := 0
  uniqueCommitGrowthTokens : ℕ := 0

namespace RequestState
variable (r : RequestState)

abbrev id : String := r.demand.requestId

def start (demand : FrozenRequestDemand) : RequestState where
  demand := demand
  prefillRemaining := demand.uncachedPromptTokens
  decodeRemaining := demand.outputTokens
  cacheHitTokens := demand.observedCacheHitTokens
  prefillTotal := demand.uncachedPromptTokens
  startupReservedBytes := demand.startupBytes

def active : Bool := r.admittedAtMs.isSome && r.finishMs.isNone

def waiting : Bool := r.readyAtMs.isSome && r.admittedAtMs.isNone && r.finishMs.isNone

def done : Bool := r.prefillRemaining = 0 && r.decodeRemaining = 0

end RequestState

/-- A time that Python's `or` accepts; zero counts as missing. -/
def truthy (t : Option ℚ) : Option ℚ := if t = some 0 then none else t

/-- A snapshot with the bytes that its index counts. -/
structure ReplayInput extends PolicyInput where
  physicalGpuBytes : ℕ
  physicalCpuBytes : ℕ

/-- A simulation under way. The changes of the occupancy are recorded for the proofs only. -/
structure Simulation where
  states : List RequestState
  physical : PhysicalSchedule
  pending : List PhysicalEvent
  radix : Option TrieNode
  hbmPeak : ℤ
  requestReservedBytes : ℤ := 0
  nowMs : ℚ := 0
  schedulerSteps : ℕ := 0
  preferDecode : Bool := false
  moves : List (LevelChange ℤ) := []

namespace Simulation
variable (s : Simulation)

def occupied : ℤ := s.physical.hbmUsedBytes + s.physical.fixedReservedBytes +
  s.physical.hbmTransferReservedBytes + s.requestReservedBytes

/-- The level of the HBM and the recorded peak. -/
def gauge : Gauge ℤ := ⟨s.occupied,s.hbmPeak,s.moves⟩

/-- Record that the occupancy has changed. -/
def moved (t : Simulation) : Simulation :=
  { t with moves := s.moves ++ [⟨s.hbmPeak,s.occupied,t.occupied⟩] }

def put (r : RequestState) : Simulation :=
  { s with states := s.states.map fun q => if q.id = r.id then r else q }

def finishOf (id : String) : Option ℚ := (s.states.find? (·.id = id)).bind (·.finishMs)

end Simulation

section Simulate
variable (fl : ℚ → ℚ) (order : Finset String → List String) (model : QueueServiceModel)
  (input : PolicyInput) (demand : ScenarioDemand) (plan : ScenarioPlan)
  (workload : FrozenCounterfactualWorkload)

def toleranceMs : ℚ := 1 / 1000000000000

def isDue (nowMs t : ℚ) : Bool := t ≤ fl (nowMs + toleranceMs)

/-! ## Events and releases -/

def applyEvent (s : Simulation) (e : PhysicalEvent) (rest : List PhysicalEvent) :
    Except Raised Simulation := do
  let physical := s.physical.apply e
  checkAllocator input physical s.requestReservedBytes
  .ok (s.moved { s with physical := physical, pending := rest })

/-- The events that are due happen in their order. -/
def applyEvents : List PhysicalEvent → Simulation → Except Raised Simulation
  | [], s => .ok s
  | e :: rest, s =>
    if isDue fl s.nowMs e.tsMs then do
      let s ← applyEvent input s e rest
      applyEvents rest s
    else .ok s

/-- When a request that was not released may start, if its predecessors have finished. -/
def releaseTime (s : Simulation) (r : RequestState) : Option ℚ :=
  if r.readyAtMs.isSome || r.finishMs.isSome then none
  else
    match r.demand.predecessorRequestIds.mapM s.finishOf with
    | none => none
    | some [] => (workload.workflow? r.demand.workflowId).map fun w => fl (w.releaseMs + r.demand.releaseDelayMs)
    | some (t :: times) => some (fl (times.foldl max t + r.demand.releaseDelayMs))

def releaseRequest (s : Simulation) (r : RequestState) : RequestState :=
  match releaseTime fl workload s r with
  | none => r
  | some ready => if isDue fl s.nowMs ready then { r with readyAtMs := some ready } else r

def releaseRequests (s : Simulation) : Simulation :=
  { s with states := s.states.map (releaseRequest fl workload s) }

/-- The demand of a request that has just been released, against the tokens in the tree. -/
def initRadix (radix : TrieNode) (r : RequestState) : RequestState :=
  if r.readyAtMs.isNone || r.radixInitialized then r
  else
    let hit := radix.hitTokens r.demand.promptTokenSymbols
    let remaining := r.demand.promptTokenSymbols.length - hit
    { r with
      cacheHitTokens := hit
      prefillRemaining := remaining
      prefillTotal := remaining
      startupReservedBytes := (r.demand.startupBytes +
        ((r.demand.observedCacheHitTokens : ℤ) - hit) * workload.kvBytesPerToken).toNat
      radixInitialized := true }

def initStates (s : Simulation) : Except Raised Simulation :=
  match s.radix with
  | none => .ok s
  | some radix => do
    ensure (0 < workload.kvBytesPerToken ∨ ∀ r ∈ s.states, r.readyAtMs = none ∨ r.radixInitialized = true)
      (simulationError "exact Radix replay requires kv_bytes_per_token metadata")
    .ok { s with states := s.states.map (initRadix workload radix) }

/-! ## Admissions -/

def rank : Dict String ℕ := plan.executionOrder.zipIdx.foldl (fun d e => d.insert e.1 e.2) ∅

def priorityKey (r : RequestState) : ℕ ×ₗ ℚ ×ₗ String :=
  toLex ((rank plan).getD r.id (rank plan).size,toLex (r.readyAtMs.getD 0,r.id))

def byPriority (l : List RequestState) : List RequestState :=
  l.mergeSort fun a b => priorityKey plan a ≤ priorityKey plan b

def bundlesReady (bundles : Dict String BundleState) : List String → Except Raised Bool
  | [] => .ok true
  | id :: rest =>
    match bundles[id]? with
    | none => .error (simulationError ("request requires unknown bundle: " ++ id))
    | some b => if b.gpuBytes < b.sizeBytes then .ok false else bundlesReady bundles rest

def requiredBundles (r : RequestState) : Finset String :=
  r.demand.requiredBundleIds.toFinset ∪
    if r.id ∈ plan.executionOrder then demand.requiredGpuBundles.toFinset else ∅

def available (s : Simulation) : ℤ := input.resources.hbmCapacityBytes - s.occupied

/-- A request may be admitted if its bundles are on the GPU and its bytes fit. -/
def admissible (s : Simulation) (r : RequestState) : Except Raised Bool := do
  let ready ← bundlesReady s.physical.bundles (order (requiredBundles demand plan r))
  .ok (ready && r.startupReservedBytes ≤ available input s)

def admitted (s : Simulation) (r : RequestState) : Simulation :=
  { s.put { r with admittedAtMs := some s.nowMs } with
    requestReservedBytes := s.requestReservedBytes + r.startupReservedBytes }

def admitRequest (s : Simulation) (r : RequestState) : Except Raised Simulation := do
  let fits ← admissible order input demand plan s r
  if fits then .ok (s.moved (admitted s r)) else .ok s

def admitRequests (s : Simulation) : Except Raised Simulation :=
  (byPriority plan (s.states.filter (·.waiting))).foldlM (admitRequest order input demand plan) s

/-! ## Service -/

def markFirstService (nowMs : ℚ) (r : RequestState) : RequestState :=
  { r with
    firstServiceMs := some (r.firstServiceMs.getD nowMs)
    actionUnlockMs := if r.demand.actionBoundaryTokenIndex = some 0
      then some ((truthy r.actionUnlockMs).getD nowMs) else r.actionUnlockMs }

/-- The tokens that a finished request leaves in the tree, and the bytes by which it grows. -/
def requestGrowth (radix : Option TrieNode) (r : RequestState) : Option TrieNode × RequestState × ℤ :=
  match radix with
  | none => (none,r,r.demand.kvGrowthBytes)
  | some tree =>
    let (tree,inserted) := tree.insert r.demand.cacheCommitTokenSymbols
    let r := { r with uniqueCommitGrowthTokens := r.uniqueCommitGrowthTokens + inserted }
    (some tree,r,r.uniqueCommitGrowthTokens * workload.kvBytesPerToken)

def finished (nowMs : ℚ) (r : RequestState) : RequestState :=
  { r with
    finishMs := some nowMs
    actionUnlockMs := if r.demand.actionBoundaryTokenIndex.isSome && r.actionUnlockMs.isNone
      then some nowMs else r.actionUnlockMs }

/-- The request gives its reservation back and keeps its growth. -/
def completed (s : Simulation) (r : RequestState) : Simulation :=
  let (radix,r,growth) := requestGrowth workload s.radix r
  { s.put (finished s.nowMs r) with
    radix := radix
    requestReservedBytes := s.requestReservedBytes - r.startupReservedBytes
    physical := { s.physical with hbmUsedBytes := s.physical.hbmUsedBytes + growth } }

def completeRequest (s : Simulation) (r : RequestState) : Except Raised Simulation := do
  ensure (r.finishMs = none) (simulationError "request completed twice")
  let t := completed workload s r
  checkAllocator input t.physical t.requestReservedBytes
  .ok (s.moved t)

/-- Admitted requests without tokens to process complete at once. -/
def completeIdle (s : Simulation) : Except Raised Simulation :=
  (s.states.filter fun r => r.active && r.done).foldlM
    (fun s r => completeRequest input workload s (markFirstService s.nowMs r)) s

def prefillTokens (r : RequestState) : ℕ := min r.prefillRemaining model.prefillChunkTokens

/-- The state of a request after its next chunk, and the tree with the tokens seen so far. -/
def prefillChunk (radix : Option TrieNode) (nowMs : ℚ) (r : RequestState) :
    Option TrieNode × RequestState :=
  let r := markFirstService nowMs r
  let r := { r with
    prefillRemaining := r.prefillRemaining - prefillTokens model r
    prefillChunkIndex := r.prefillChunkIndex + 1 }
  match radix with
  | none => (none,r)
  | some tree =>
    let visible := r.cacheHitTokens + (r.prefillTotal - r.prefillRemaining)
    let (tree,inserted) := tree.insert (r.demand.promptTokenSymbols.take visible)
    (some tree,{ r with uniqueCommitGrowthTokens := r.uniqueCommitGrowthTokens + inserted })

def prefilled (s : Simulation) (r : RequestState) (elapsedMs : ℚ) : Simulation :=
  { s.put (prefillChunk model s.radix s.nowMs r).2 with
    radix := (prefillChunk model s.radix s.nowMs r).1
    nowMs := fl (s.nowMs + elapsedMs)
    schedulerSteps := s.schedulerSteps + 1
    preferDecode := true }

def servePrefill (s : Simulation) (r : RequestState) : Except Raised Simulation := do
  let elapsed ← model.prefillElapsedMs fl (prefillTokens model r) r.prefillChunkIndex
  let t := prefilled fl model s r elapsed
  let r := (prefillChunk model s.radix s.nowMs r).2
  if r.done then completeRequest input workload t r else .ok t

def decodeTokens (r : RequestState) : ℕ := min r.decodeRemaining model.decodeQuantumTokens

/-- The action of a request is unlocked while the token at its boundary is decoded. -/
def unlockMs (nowMs elapsedMs : ℚ) (tokens : ℕ) (r : RequestState) : Option ℚ :=
  match r.demand.actionBoundaryTokenIndex with
  | none => r.actionUnlockMs
  | some boundary =>
    if r.actionUnlockMs.isNone && boundary ≤ r.decodedTokens then
      let fraction : ℚ := if tokens = 0 then 0
        else fl (((tokens : ℚ) - ((r.decodedTokens : ℚ) - boundary)) / tokens)
      some (fl (nowMs + fl (elapsedMs * fraction)))
    else r.actionUnlockMs

/-- The state of a request after its tokens of a batch. -/
def decodeRequest (nowMs elapsedMs : ℚ) (r : RequestState) : RequestState :=
  let tokens := decodeTokens model r
  let r := { markFirstService nowMs r with
    decodeRemaining := r.decodeRemaining - tokens
    decodedTokens := r.decodedTokens + tokens }
  { r with actionUnlockMs := unlockMs fl nowMs elapsedMs tokens r }

def decoded (s : Simulation) (batch : List RequestState) (elapsedMs : ℚ) : Simulation :=
  { s with
    states := s.states.map fun r =>
      if r.id ∈ batch.map (·.id) then decodeRequest fl model s.nowMs elapsedMs r else r
    nowMs := fl (s.nowMs + elapsedMs)
    schedulerSteps := s.schedulerSteps + 1
    preferDecode := false }

def serveDecode (s : Simulation) (batch : List RequestState) : Except Raised Simulation := do
  let rate ← model.decodeRate fl batch.length
  let elapsed := fl (model.decodeLaunchMs + fl (((batch.map (decodeTokens model)).sum : ℕ) / rate))
  let served := batch.map (decodeRequest fl model s.nowMs elapsed)
  (served.filter (·.decodeRemaining = 0)).foldlM (completeRequest input workload)
    (decoded fl model s batch elapsed)

def nextReleaseTime (s : Simulation) : Option ℚ :=
  (s.states.filterMap (releaseTime fl workload s)).min?

/-- The later times at which something happens. -/
def futureTimes (s : Simulation) : List ℚ :=
  ((s.pending.head?.map (·.tsMs)).toList ++ (nextReleaseTime fl workload s).toList).filter
    fun t => !isDue fl s.nowMs t

/-- Time passes until something happens. -/
def advance (s : Simulation) : Except Raised Simulation :=
  match (futureTimes fl workload s).min? with
  | none => .error (simulationError ("allocator/dependency deadlock while requests remain: " ++
      String.intercalate "," ((s.states.filter (·.finishMs.isNone)).map (·.id))))
  | some t => .ok { s with nowMs := t }

def prefilling (s : Simulation) : List RequestState :=
  s.states.filter fun r => r.active && 0 < r.prefillRemaining

def decoding (s : Simulation) : List RequestState :=
  s.states.filter fun r => r.active && r.prefillRemaining = 0 && 0 < r.decodeRemaining

/-- Serve a chunk or a batch, or let time pass. -/
def serve (s : Simulation) : Except Raised Simulation :=
  match (byPriority plan (prefilling s)).head? with
  | some r =>
    if (decoding s).isEmpty || !s.preferDecode then servePrefill fl model input workload s r
    else serveDecode fl model input workload s ((byPriority plan (decoding s)).take model.maxDecodeBatch)
  | none =>
    if (decoding s).isEmpty then advance fl workload s
    else serveDecode fl model input workload s ((byPriority plan (decoding s)).take model.maxDecodeBatch)

/-! ## The loop -/

/-- What an iteration does before it serves requests. -/
def settle (s : Simulation) : Except Raised Simulation := do
  let s ← applyEvents fl input s.pending s
  let s ← initStates workload (releaseRequests fl workload s)
  let s ← admitRequests order input demand plan s
  completeIdle input workload s

def iterate (s : Simulation) : Except Raised Simulation := do
  let s ← settle fl order input demand plan workload s
  let s ← serve fl model input plan workload s
  .ok { s with hbmPeak := max s.hbmPeak s.occupied }

def Simulation.running (s : Simulation) : Bool :=
  s.states.any (·.finishMs.isNone) || !s.pending.isEmpty

/-- At most so many iterations. -/
def loop : ℕ → Simulation → Option (Except Raised Simulation)
  | fuel, s =>
    if s.running then
      match fuel with
      | 0 => none
      | fuel + 1 =>
        match iterate fl order model input demand plan workload s with
        | .error e => some (.error e)
        | .ok s => loop fuel s
    else some (.ok s)

end Simulate

/-! ## The simulation -/

section Replay
variable (fl : ℚ → ℚ) (order : Finset String → List String) (model : QueueServiceModel)
  (input : ReplayInput) (demand : ScenarioDemand) (plan : ScenarioPlan)
  (workload : FrozenCounterfactualWorkload)

/-- The tokens of the requests are recomputed if nothing was cached before. -/
def radixExact : Bool :=
  workload.prefixIdentityComplete && workload.initialRadixStateKnown &&
    input.physicalGpuBytes = 0 && input.physicalCpuBytes = 0 && input.resources.hbmUsedBytes = 0

def Simulation.initial (physical : PhysicalSchedule) : Simulation where
  states := workload.requests.map RequestState.start
  physical := physical
  pending := physical.events
  radix := if radixExact input workload then some (.node []) else none
  hbmPeak := physical.hbmUsedBytes + physical.fixedReservedBytes + physical.hbmTransferReservedBytes

def validateRun : Except Raised Unit := do
  ensure (plan.feasible = true) (simulationError "cannot simulate an infeasible plan")
  ensure (plan.snapshotId = input.snapshotId) (simulationError "plan uses a stale physical snapshot")
  ensure (demand.snapshotId = input.snapshotId) (simulationError "demand uses a stale physical snapshot")
  ensure (plan.physicalAccountingExact = true ∧ demand.physicalAccountingExact = true)
    (simulationError "counterfactual timing requires exact extent accounting")
  ensure (∀ id ∈ plan.executionOrder, id ∈ workload.requests.map (·.requestId))
    (simulationError "execution plan references unknown requests")

/-- The simulation after the last iteration. -/
def replayWorkload (fuel : ℕ) : Option (Except Raised Simulation) :=
  match validateRun input demand plan workload, physicalSchedule fl input.toPolicyInput plan with
  | .error e, _ => some (.error e)
  | .ok _, .error e => some (.error e)
  | .ok _, .ok physical =>
    loop fl order model input.toPolicyInput demand plan workload fuel (Simulation.initial input workload physical)

/-! ## The result -/

/-- What is reported of a simulation, by request or workflow where it says so. -/
structure CounterfactualSimulationResult where
  workflowJctMs : List (String × ℚ)
  requestFinishMs : List (String × ℚ)
  requestQueueWaitMs : List (String × ℚ)
  requestActionUnlockMs : List (String × ℚ)
  unhiddenStallMs : ℚ
  finalTsMs : ℚ
  hbmPeakBytes : ℤ
  hbmFinalBytes : ℤ
  hostConsumedBytes : ℤ
  d2hBytes : ℕ
  h2dBytes : ℕ
  pcieBusyMs : ℚ
  schedulerSteps : ℕ
  transitionHash : String
  radixDemandRecomputed : Bool
  recomputedCacheHitTokens : List (String × ℕ)
  recomputedUniqueGrowthBytes : List (String × ℤ)

/-- From the release of a request to its first service. -/
def queueWaitMs (r : RequestState) : ℚ :=
  max 0 (fl ((((truthy r.firstServiceMs).or (truthy r.finishMs)).getD 0) - r.readyAtMs.getD 0))

def completionMs (s : Simulation) (w : FrozenWorkflowDemand) : ℚ :=
  fl ((w.terminalRequestIds.map fun id => (s.finishOf id).getD 0).max?.getD 0 + w.completionDelayMs)

def uniqueGrowthBytes (r : RequestState) : ℤ :=
  if radixExact input workload then r.uniqueCommitGrowthTokens * workload.kvBytesPerToken
  else r.demand.kvGrowthBytes

def report (s : Simulation) : CounterfactualSimulationResult where
  workflowJctMs := workload.workflows.map fun w => (w.workflowId,fl (completionMs fl s w - w.releaseMs))
  requestFinishMs := s.states.map fun r => (r.id,r.finishMs.getD 0)
  requestQueueWaitMs := s.states.map fun r => (r.id,queueWaitMs fl r)
  requestActionUnlockMs := s.states.filterMap fun r => r.actionUnlockMs.map fun t => (r.id,t)
  unhiddenStallMs := s.states.foldl (fun total r => fl (total + queueWaitMs fl r)) 0
  finalTsMs := (workload.workflows.map (completionMs fl s)).foldl max s.nowMs
  hbmPeakBytes := s.hbmPeak
  hbmFinalBytes := s.physical.hbmUsedBytes + s.physical.fixedReservedBytes
  hostConsumedBytes := s.physical.hostInitialFreeBytes - s.physical.hostFreeBytes
  d2hBytes := s.physical.d2hBytes
  h2dBytes := s.physical.h2dBytes
  pcieBusyMs := s.physical.pcieBusyMs
  schedulerSteps := s.schedulerSteps
  transitionHash := workload.transitionHash
  radixDemandRecomputed := radixExact input workload
  recomputedCacheHitTokens := s.states.map fun r => (r.id,r.cacheHitTokens)
  recomputedUniqueGrowthBytes := s.states.map fun r => (r.id,uniqueGrowthBytes input workload r)

def simulate (fuel : ℕ) : Option (Except Raised CounterfactualSimulationResult) :=
  (replayWorkload fl order model input demand plan workload fuel).map
    (·.map (report fl input workload))

end Replay
end BeliefKV.QueueService
