import Mathlib.Data.Prod.Lex
import Mathlib.Data.List.Lex
import Mathlib.Algebra.Order.Floor.Ring
import Mathlib.Data.Rat.Floor
import BeliefKV.WhatIf.Demand

/-! Packing the demand of a scenario into the capacity of the snapshot. -/
namespace BeliefKV

structure FairnessWindow where
  eligibleWorkflowIds : Finset String

structure WhatIfPackerConfig where
  maxVictimCandidates : ℕ := 8
  maxFrontierPerWorkflow : ℕ := 4
  handoffHysteresisMs : ℚ := 100
  emergencyHbmRatio : ℚ := 98 / 100
  kvBytesPerToken : ℕ := 98304
  recomputeMsPerToken : ℚ := 5 / 100
  allowRecompute : Bool := true
  requireExactExtentIdentity : Bool := true

structure ScenarioPlan where
  snapshotId : String
  scenarioId : String
  executionOrder : List String
  admissionActions : Dict String AdmissionAction
  bundleActions : Dict String ResidencyAction
  feasible : Bool
  d2hBytes : ℕ
  h2dBytes : ℕ
  recomputeTokens : ℕ
  projectedHbmPeakBytes : ℤ
  reclaimedBytes : ℕ
  physicalAccountingExact : Bool
  blockerReasons : List String

/-! ## Victims -/

structure VictimChoice where
  actions : List (PhysicalBundleSnapshot × ResidencyAction) := []
  reclaimedBytes : ℕ := 0
  d2hBytes : ℕ := 0
  recomputeTokens : ℕ := 0

/-- A lower key is a better choice. -/
abbrev VictimKey := ℚ ×ₗ ℕ ×ₗ ℕ ×ₗ ℕ ×ₗ List (String ×ₗ String)

def ResidencyAction.value : ResidencyAction → String
  | .keep => "keep"
  | .prepareHost => "prepare_host"
  | .commitCpu => "commit_cpu"
  | .prefetchGpu => "prefetch_gpu"
  | .recompute => "recompute"
  | .drop => "drop"

section Victims
variable (fl : ℚ → ℚ) (config : WhatIfPackerConfig) (input : PolicyInput)

def emergency : Bool :=
  config.emergencyHbmRatio ≤
    fl (((input.resources.hbmUsedBytes + input.resources.hbmReservedBytes : ℕ) : ℚ) /
      input.resources.hbmCapacityBytes)

/-- A bundle that was used a moment ago is spared by a handoff. -/
def spared (transition : ScenarioTransition) (b : PhysicalBundleSnapshot) : Bool :=
  (transition = .handoff || transition = .cyclicReactivation) &&
    max 0 (fl (input.resources.tsMs - b.lastAccessMs)) < config.handoffHysteresisMs &&
    !(emergency fl config input)

/-- The order of the candidates. -/
def candidateKey (shortage : ℕ) (b : PhysicalBundleSnapshot) : Bool ×ₗ ℚ ×ₗ ℤ ×ₗ String :=
  toLex (b.scope ≠ "exclusive_suffix",toLex (b.lastAccessMs,
    toLex (-(min shortage b.marginalReclaimableBytes : ℕ),b.bundleId)))

def victimCandidates (demand : ScenarioDemand) (shortage : ℕ) : List PhysicalBundleSnapshot :=
  ((input.potentialVictims.filter fun b => b.bundleId ∈ demand.optionalGpuBundles &&
    !(spared fl config input demand.transition b)).mergeSort fun a b =>
      candidateKey shortage a ≤ candidateKey shortage b).take config.maxVictimCandidates

def victimKey (shortage : ℕ) (choice : VictimChoice) : VictimKey :=
  let stall := fl (fl (fl choice.d2hBytes * input.resources.unhiddenStallPerByte) +
    fl (fl choice.recomputeTokens * config.recomputeMsPerToken))
  toLex (stall,toLex (choice.recomputeTokens,toLex (choice.d2hBytes,
    toLex (choice.reclaimedBytes - shortage,
      choice.actions.map fun a => toLex (a.1.bundleId,a.2.value)))))

/-- Keep the better of two choices, the earlier one if they are equal. -/
def offer (shortage : ℕ) (choice : VictimChoice) : Option VictimChoice → Option VictimChoice
  | none => some choice
  | some best =>
    if victimKey fl config input shortage choice < victimKey fl config input shortage best then some choice
    else some best

def recomputeTokensOf (b : PhysicalBundleSnapshot) : ℕ :=
  ⌈fl (b.physicalUniqueBytes / config.kvBytesPerToken)⌉.toNat

/-- The choice with one more bundle copied to the host. -/
def VictimChoice.commit (choice : VictimChoice) (b : PhysicalBundleSnapshot) : VictimChoice :=
  { choice with
    actions := choice.actions ++ [(b,.commitCpu)]
    reclaimedBytes := choice.reclaimedBytes + b.marginalReclaimableBytes
    d2hBytes := choice.d2hBytes + b.hostNeeded }

/-- The choice with one more bundle dropped. -/
def VictimChoice.dropping (choice : VictimChoice) (b : PhysicalBundleSnapshot) (tokens : ℕ) : VictimChoice :=
  { choice with
    actions := choice.actions ++ [(b,.drop)]
    reclaimedBytes := choice.reclaimedBytes + b.marginalReclaimableBytes
    recomputeTokens := choice.recomputeTokens + tokens }

/-- Try to leave, to copy and to drop each candidate, until enough is reclaimed. -/
def visitVictims (shortage : ℕ) :
    List PhysicalBundleSnapshot → VictimChoice → ℕ → Option VictimChoice → Option VictimChoice
  | [], choice, _, best =>
    if choice.reclaimedBytes < shortage then best else offer fl config input shortage choice best
  | b :: rest, choice, hostBytes, best =>
    if shortage ≤ choice.reclaimedBytes then offer fl config input shortage choice best
    else
      let best := visitVictims shortage rest choice hostBytes best
      let best := if hostBytes + b.hostNeeded ≤ input.resources.hostFreeBytes then
          visitVictims shortage rest (choice.commit b) (hostBytes + b.hostNeeded) best
        else best
      if config.allowRecompute then
        visitVictims shortage rest (choice.dropping b (recomputeTokensOf fl config b)) hostBytes best
      else best

def chooseVictims (candidates : List PhysicalBundleSnapshot) (shortage : ℕ) : VictimChoice :=
  (visitVictims fl config input shortage candidates {} 0 none).getD {}

end Victims

/-! ## The plan -/

/-- What the walk over the candidate requests has collected. -/
structure Frontier where
  execution : List String := []
  perWorkflow : Dict String ℕ := ∅
  admission : Dict String AdmissionAction := ∅
  blockers : List String

section Pack
variable (fl : ℚ → ℚ) (config : WhatIfPackerConfig) (fairness : Option FairnessWindow)
  (input : PolicyInput) (demand : ScenarioDemand)

def Frontier.deferred (f : Frontier) (requestId blocker : String) : Frontier :=
  { f with blockers := f.blockers ++ [blocker], admission := f.admission.insert requestId .defer }

def Frontier.visit (f : Frontier) (requestId : String) : Frontier :=
  match input.request? requestId with
  | none => f.deferred requestId ("unknown_request:" ++ requestId)
  | some invocation =>
    let count := f.perWorkflow.getD invocation.workflowId 0
    if fairness.any fun window => invocation.workflowId ∉ window.eligibleWorkflowIds then
      f.deferred requestId ("fairness_ineligible:" ++ invocation.workflowId)
    else if config.maxFrontierPerWorkflow ≤ count then
      f.deferred requestId ("workflow_frontier_limit:" ++ invocation.workflowId)
    else { f with
      execution := f.execution ++ [requestId]
      perWorkflow := f.perWorkflow.insert invocation.workflowId (count + 1) }

def infeasible (blockers : List String) (admission : Dict String AdmissionAction) (h2dBytes : ℕ) :
    ScenarioPlan where
  snapshotId := input.snapshotId
  scenarioId := demand.scenarioId
  executionOrder := []
  admissionActions := ((∅ : Dict String AdmissionAction).insertAll demand.candidateRequestIds
    fun _ => .defer).overlay admission
  bundleActions := ∅
  feasible := false
  d2hBytes := 0
  h2dBytes := h2dBytes
  recomputeTokens := 0
  projectedHbmPeakBytes := demand.projectedHbmPeakBytes
  reclaimedBytes := 0
  physicalAccountingExact := demand.physicalAccountingExact
  blockerReasons := Dict.sorted blockers.toFinset

def requiredBundles : List PhysicalBundleSnapshot := demand.requiredGpuBundles.filterMap input.bundle?

/-- What is done with a bundle that is needed on the GPU. -/
def requiredAction (b : PhysicalBundleSnapshot) : ResidencyAction :=
  if b.missingBytes ≠ 0 then .prefetchGpu else .keep

def requiredActions : Dict String ResidencyAction :=
  (requiredBundles input demand).foldl (fun d b => d.insert b.bundleId (requiredAction b)) ∅

/-- The plan with the chosen victims. -/
def settled (f : Frontier) (projectedPeak : ℕ) (choice : VictimChoice) : ScenarioPlan :=
  let h2dBytes := ((requiredBundles input demand).map (·.missingBytes)).sum
  { snapshotId := input.snapshotId
    scenarioId := demand.scenarioId
    executionOrder := f.execution
    admissionActions := f.admission.insertAll f.execution fun _ =>
      if h2dBytes ≠ 0 then .restoreThenAdmit else .admits
    bundleActions := choice.actions.foldl (fun d a => d.insert a.1.bundleId a.2)
      (requiredActions input demand)
    feasible := true
    d2hBytes := choice.d2hBytes
    h2dBytes := h2dBytes
    recomputeTokens := choice.recomputeTokens
    projectedHbmPeakBytes := (projectedPeak : ℤ) - choice.reclaimedBytes
    reclaimedBytes := choice.reclaimedBytes
    physicalAccountingExact := demand.physicalAccountingExact
    blockerReasons := Dict.sorted f.blockers.toFinset }

/-- Make room for the peak of the executed requests. -/
def makeRoom (f : Frontier) : ScenarioPlan :=
  let deferredStartup := ((demand.startupBytesByRequest.toList.filter fun e => e.1 ∉ f.execution).map
    Prod.snd).sum
  let projectedPeak := max (input.resources.hbmUsedBytes + input.resources.hbmReservedBytes)
    (demand.projectedHbmPeakBytes - deferredStartup)
  let shortage := projectedPeak - input.resources.hbmCapacityBytes
  if shortage = 0 then settled input demand f projectedPeak {}
  else
    let choice := chooseVictims fl config input (victimCandidates fl config input demand shortage) shortage
    if choice.reclaimedBytes < shortage then
      let locked := ((input.bundles.filter fun b => b.bundleId ∈ demand.optionalGpuBundles).map
        (·.lockedBytes)).sum
      infeasible input demand
        (f.blockers ++ ["hbm_capacity_shortage:" ++ toString (shortage - choice.reclaimedBytes)] ++
          if locked ≠ 0 then ["locked_optional_bytes:" ++ toString locked] else [])
        f.admission ((requiredBundles input demand).map (·.missingBytes)).sum
    else settled input demand f projectedPeak choice

/-- A bundle that is needed on the GPU and cannot be brought there. -/
def blockedRequired : List PhysicalBundleSnapshot :=
  (requiredBundles input demand).filter fun b =>
    b.residency = "prefetching" || (b.gpuBytes < b.physicalUniqueBytes && !b.actionable)

def packPlan : ScenarioPlan :=
  if config.requireExactExtentIdentity && !demand.physicalAccountingExact then
    infeasible input demand (demand.blockerReasons ++ ["exact_physical_accounting_unavailable"]) ∅ 0
  else
    let f := demand.candidateRequestIds.foldl (Frontier.visit config fairness input)
      { blockers := demand.blockerReasons }
    let missing := demand.requiredGpuBundles.filter (· ∉ input.bundleIds)
    if f.execution = [] && !demand.speculativeOnly then
      infeasible input demand (f.blockers ++ ["no_fair_runnable_request"]) f.admission 0
    else if missing ≠ [] then
      infeasible input demand (f.blockers ++ missing.map ("missing_required_bundle:" ++ ·)) f.admission 0
    else if blockedRequired input demand ≠ [] then
      infeasible input demand (f.blockers ++ (blockedRequired input demand).map fun b =>
        "required_bundle_not_actionable:" ++ b.bundleId ++ ":" ++ String.intercalate "," b.blockerCodes)
        f.admission 0
    else makeRoom fl config input demand f

def pack : Except Raised ScenarioPlan := do
  ensure (demand.snapshotId = input.snapshotId)
    (.valueError "scenario demand uses a stale physical snapshot")
  .ok (packPlan fl config fairness input demand)

end Pack

end BeliefKV
