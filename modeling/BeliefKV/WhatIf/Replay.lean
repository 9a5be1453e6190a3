import BeliefKV.WhatIf.Packer

/-! The resimulator's transfers of a plan, and the replay of their events. -/
namespace BeliefKV

structure BundleState where
  sizeBytes : ℤ
  gpuBytes : ℤ
  cpuBytes : ℤ

structure PhysicalEvent where
  tsMs : ℚ
  bundleId : String
  gpuDeltaBytes : ℤ
  cpuDeltaBytes : ℤ
  direction : TransferDirection
  transferBytes : ℕ
  hbmReservationDeltaBytes : ℤ

structure PhysicalSchedule where
  bundles : Dict String BundleState
  events : List PhysicalEvent
  hbmUsedBytes : ℤ
  fixedReservedBytes : ℕ
  hbmTransferReservedBytes : ℤ
  hostFreeBytes : ℤ
  hostInitialFreeBytes : ℕ
  d2hBytes : ℕ
  h2dBytes : ℕ
  pcieBusyMs : ℚ

/-- A copy to the host, and what it frees on the GPU. -/
structure D2hJob where
  bundleId : String
  transfer : ℕ
  reclaim : ℕ
  commit : Bool

structure H2dJob where
  bundleId : String
  transfer : ℕ

/-- What the walk over the actions of a plan has collected. -/
structure Transfers where
  bundles : Dict String BundleState
  hbmUsed : ℤ
  hostFree : ℤ
  d2hJobs : List D2hJob := []
  h2dJobs : List H2dJob := []

def simulationError (text : String) : Raised := .runtimeError text

section Schedule
variable (fl : ℚ → ℚ) (input : PolicyInput) (plan : ScenarioPlan)

/-- The transfers of one action. -/
def Transfers.act (t : Transfers) (entry : String × ResidencyAction) : Except Raised Transfers :=
  match input.bundle? entry.1, t.bundles[entry.1]? with
  | some snapshot, some bundle =>
    if snapshot.actionable = false ∧ entry.2 ≠ .keep then
      .error (simulationError ("plan acts on blocked bundle " ++ entry.1))
    else
      match entry.2 with
      | .keep => .ok t
      | .drop | .recompute =>
        let reclaimed := snapshot.marginalReclaimableBytes
        if bundle.gpuBytes < reclaimed then .error (simulationError "drop exceeds GPU residency")
        else .ok { t with
          bundles := t.bundles.insert entry.1 { bundle with gpuBytes := bundle.gpuBytes - reclaimed }
          hbmUsed := t.hbmUsed - reclaimed }
      | .commitCpu | .prepareHost =>
        let transfer := (bundle.gpuBytes - bundle.cpuBytes).toNat
        if t.hostFree < transfer then .error (simulationError "D2H exceeds Host capacity")
        else .ok { t with
          hostFree := t.hostFree - transfer
          d2hJobs := t.d2hJobs ++ [⟨entry.1,transfer,
            if entry.2 = .commitCpu then snapshot.marginalReclaimableBytes else 0,entry.2 = .commitCpu⟩] }
      | .prefetchGpu =>
        let transfer := (bundle.sizeBytes - bundle.gpuBytes).toNat
        if bundle.cpuBytes < transfer then
          .error (simulationError ("H2D source is incomplete for bundle " ++ entry.1))
        else .ok { t with h2dJobs := t.h2dJobs ++ [⟨entry.1,transfer⟩] }
  | _, _ => .error (.keyError entry.1)

def transferMs (bytes : ℕ) (rate setupMs : ℚ) : Except Raised ℚ :=
  if bytes = 0 then .ok 0
  else if rate ≤ 0 then .error (simulationError "transfer service rate is unavailable")
  else .ok (fl (setupMs + fl (bytes / rate)))

/-- The copies to the host, one after another; the last one takes the deferred reservation. -/
def d2hEvents (deferred : ℤ) : List D2hJob → ℚ → Except Raised (List PhysicalEvent × ℚ)
  | [], cursor => .ok ([],cursor)
  | job :: rest, cursor => do
    let duration ← transferMs fl job.transfer input.resources.d2hServiceBytesPerMs
      input.resources.transferSetupP50Ms
    let (events,finish) ← d2hEvents deferred rest (fl (cursor + duration))
    .ok ({
      tsMs := fl (cursor + duration)
      bundleId := job.bundleId
      gpuDeltaBytes := if job.commit then -job.reclaim else 0
      cpuDeltaBytes := job.transfer
      direction := .d2h
      transferBytes := job.transfer
      hbmReservationDeltaBytes := if rest = [] then deferred else 0 } :: events,finish)

/-- The copies to the GPU; each one gives its reservation back. -/
def h2dEvents : List H2dJob → ℚ → Except Raised (List PhysicalEvent × ℚ)
  | [], cursor => .ok ([],cursor)
  | job :: rest, cursor => do
    let duration ← transferMs fl job.transfer input.resources.h2dServiceBytesPerMs
      input.resources.transferSetupP50Ms
    let (events,finish) ← h2dEvents rest (fl (cursor + duration))
    .ok ({
      tsMs := fl (cursor + duration)
      bundleId := job.bundleId
      gpuDeltaBytes := job.transfer
      cpuDeltaBytes := 0
      direction := .h2d
      transferBytes := job.transfer
      hbmReservationDeltaBytes := -job.transfer } :: events,finish)

def checkAllocator (s : PhysicalSchedule) (requestReservedBytes : ℤ) : Except Raised Unit := do
  let occupied := s.hbmUsedBytes + s.fixedReservedBytes + s.hbmTransferReservedBytes + requestReservedBytes
  ensure (occupied ≤ input.resources.hbmCapacityBytes)
    (simulationError ("counterfactual allocator exceeds HBM by " ++
      toString (occupied - input.resources.hbmCapacityBytes) ++ " bytes"))
  ensure (0 ≤ s.hbmUsedBytes ∧ 0 ≤ s.hbmTransferReservedBytes)
    (simulationError "counterfactual HBM ledger is negative")

def initialBundles : Dict String BundleState :=
  input.bundles.foldl (fun d b => d.insert b.bundleId ⟨b.physicalUniqueBytes,b.gpuBytes,b.cpuBytes⟩) ∅

namespace Transfers
variable (t : Transfers)

def totalD2h : ℕ := (t.d2hJobs.map (·.transfer)).sum

def totalH2d : ℕ := (t.h2dJobs.map (·.transfer)).sum

def totalReclaim : ℕ := ((t.d2hJobs.filter (·.commit)).map (·.reclaim)).sum

/-- What has to be reserved before the first copy to the host. -/
def initialReservation : ℕ := t.totalH2d - t.totalReclaim

def deferredReservation : ℤ := (t.totalH2d : ℤ) - t.initialReservation

/-- The schedule of the transfers. Every restore is added to the initial reservation. -/
def schedule (events : List PhysicalEvent) (finish : ℚ) : PhysicalSchedule where
  bundles := t.bundles
  events := events
  hbmUsedBytes := t.hbmUsed
  fixedReservedBytes := input.resources.hbmReservedBytes
  hbmTransferReservedBytes := (t.initialReservation : ℤ) + t.totalH2d
  hostFreeBytes := t.hostFree
  hostInitialFreeBytes := input.resources.hostFreeBytes
  d2hBytes := t.totalD2h
  h2dBytes := t.totalH2d
  pcieBusyMs := finish

end Transfers

def physicalSchedule : Except Raised PhysicalSchedule := do
  ensure (∀ e ∈ plan.bundleActions.toList, e.1 ∈ input.bundleIds)
    (simulationError "plan references unknown physical bundles")
  let t ← plan.bundleActions.toList.foldlM (Transfers.act input)
    { bundles := initialBundles input, hbmUsed := input.resources.hbmUsedBytes,
      hostFree := input.resources.hostFreeBytes }
  let (offloads,cursor) ← d2hEvents fl input t.deferredReservation t.d2hJobs 0
  let (restores,finish) ← h2dEvents fl input t.h2dJobs cursor
  ensure (t.totalD2h = plan.d2hBytes ∧ t.totalH2d = plan.h2dBytes)
    (simulationError ("plan byte totals disagree with exact bundle replay: d2h=" ++ toString t.totalD2h ++
      "/" ++ toString plan.d2hBytes ++ ", h2d=" ++ toString t.totalH2d ++ "/" ++ toString plan.h2dBytes))
  let s := t.schedule input (offloads ++ restores) finish
  checkAllocator input s 0
  .ok s

end Schedule

/-! ## Replay -/

/-- An event changes its bundle and the ledger. The simulation then checks the allocator again. -/
def PhysicalSchedule.apply (s : PhysicalSchedule) (e : PhysicalEvent) : PhysicalSchedule :=
  { s with
    bundles := match s.bundles[e.bundleId]? with
      | none => s.bundles
      | some b => s.bundles.insert e.bundleId { b with
          gpuBytes := b.gpuBytes + e.gpuDeltaBytes, cpuBytes := b.cpuBytes + e.cpuDeltaBytes }
    hbmUsedBytes := s.hbmUsedBytes + e.gpuDeltaBytes
    hbmTransferReservedBytes := s.hbmTransferReservedBytes + e.hbmReservationDeltaBytes }

/-- The ledger after some events. -/
def PhysicalSchedule.replay (s : PhysicalSchedule) (events : List PhysicalEvent) : PhysicalSchedule :=
  events.foldl PhysicalSchedule.apply s

/-- The bytes that events still bring to the GPU. -/
def landing (events : List PhysicalEvent) : ℕ :=
  ((events.filter (·.direction = .h2d)).map (·.transferBytes)).sum

end BeliefKV
