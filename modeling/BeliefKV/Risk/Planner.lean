import Mathlib.Data.Prod.Lex
import Mathlib.Data.String.Basic
import BeliefKV.Protocol
import BeliefKV.Lib.Tail

/-! The selection of a predictive package by its expected benefit and by the tail of its regrets. -/
namespace BeliefKV
open Tail

inductive PredictiveActionKind
  | observedBaseline
  | prepareHost
  | prefetchGpu
  | reclaimAndPrefetch
  | partialPrefetchGpu
  deriving DecidableEq

/-- The evaluation of a package in one scenario. -/
structure ScenarioCost where
  actionUnlockDelayMs : ℚ
  workflowServiceLagMs : ℚ
  residualHbmTimeByteMs : ℚ := 0
  residualHostTimeByteMs : ℚ := 0
  residualPcieTimeMs : ℚ := 0
  terminalDebtMs : ℚ := 0
  recourseCreditMs : ℚ := 0
  futureHbmPeakBytes : ℕ := 0
  futureHbmOverflowBytes : ℕ := 0
  futureHbmFeasible : Bool := true
  deterministicFeasible : Bool := true
  futureFeasible : Bool := true
  livenessPathProven : Bool := true

/-- What the gates of a package that prepares a copy read of its diagnostics. -/
structure PrepareRecourseDiagnostic where
  scenarioId : String
  probabilityMass : ℚ
  firstPressureMs : Option ℚ
  transferShapeSupported : Bool
  shapeAwareStallP90Ms : ℚ
  morphologySlackMs : Option ℚ

structure PackageScenarioEvaluation where
  packageId : String
  action : PredictiveActionKind
  costsByScenario : Dict String ScenarioCost
  otherCost : ScenarioCost
  recourseDiagnosticsByScenario : Dict String PrepareRecourseDiagnostic := ∅

structure ScenarioMass where
  scenarioId : String
  probabilityMass : ℚ

/-- What the planner reads of a belief about the frontier. -/
structure FrontierBelief where
  scenarios : List ScenarioMass
  otherProbabilityMass : ℚ
  finiteRiskBound : Bool := false

structure ScenarioRiskPlannerConfig where
  benefitMarginMs : ℚ := 0
  cvarAlpha : ℚ := 9 / 10
  riskBudgetMs : ℚ := 10
  minimumFutureFeasibilityProbability : ℚ := 95 / 100
  hbmShadowPriceMsPerByteMs : ℚ := 0
  hostShadowPriceMsPerByteMs : ℚ := 0
  pcieShadowPrice : ℚ := 0
  margin_nonneg : 0 ≤ benefitMarginMs
  budget_nonneg : 0 ≤ riskBudgetMs
  alpha_range : 0 < cvarAlpha ∧ cvarAlpha < 1

structure PackageRiskSummary where
  packageId : String
  expectedBenefitMs : ℚ
  expectedRecourseCreditMs : ℚ
  cvarRegretMs : ℚ
  futureFeasibilityProbability : ℚ
  futureHbmFeasibilityProbability : ℚ
  worstFutureHbmPeakBytes : ℕ
  worstFutureHbmOverflowBytes : ℕ
  eligible : Bool
  reasons : List String
  recourseDiagnostics : List PrepareRecourseDiagnostic

structure ScenarioRiskDecision where
  selectedPackageId : String
  baselinePackageId : String
  summaries : List PackageRiskSummary

namespace ScenarioRiskPlanner

/-- The greatest values come first. -/
def worstFirst (weightedValues : List (ℚ × ℚ)) : List (ℚ × ℚ) :=
  weightedValues.insertionSort fun a b => toLex b ≤ toLex a

/-- The mean of the worst values, up to a tolerance of the mass. -/
def weightedCvar (weightedValues : List (ℚ × ℚ)) (alpha : ℚ) : ℚ :=
  let tailMass := 1 - alpha
  if tailMass ≤ 0 then (weightedValues.map Prod.fst).max?.getD 0
  else
    let consumed := consume (1 / 10 ^ 12) (worstFirst weightedValues) 0 tailMass
    consumed.1 / max (tailMass - consumed.2) (1 / 10 ^ 12)

/-- Two evaluations in one scenario. -/
structure Outcome where
  baseCost : ScenarioCost
  candidateCost : ScenarioCost
  probability : ℚ

section Summary
variable (config : ScenarioRiskPlannerConfig) (belief : FrontierBelief)
  (baseline candidate : PackageScenarioEvaluation)

def loss (cost : ScenarioCost) : ℚ :=
  cost.actionUnlockDelayMs + cost.workflowServiceLagMs + cost.terminalDebtMs +
    cost.residualHbmTimeByteMs * config.hbmShadowPriceMsPerByteMs +
    cost.residualHostTimeByteMs * config.hostShadowPriceMsPerByteMs +
    cost.residualPcieTimeMs * config.pcieShadowPrice - cost.recourseCreditMs

/-- The cost of a package in a scenario, which is covered by its evaluation. -/
def costIn (evaluation : PackageScenarioEvaluation) (scenarioId : String) : ScenarioCost :=
  evaluation.costsByScenario[scenarioId]?.getD evaluation.otherCost

/-- The scenarios of the belief, and the residual one after them. -/
def outcomes : List Outcome :=
  belief.scenarios.map (fun scenario =>
    ⟨costIn baseline scenario.scenarioId,costIn candidate scenario.scenarioId,scenario.probabilityMass⟩) ++
    [⟨baseline.otherCost,candidate.otherCost,belief.otherProbabilityMass⟩]

def expectedBenefit : ℚ :=
  ((outcomes belief baseline candidate).map fun o =>
    o.probability * (loss config o.baseCost - loss config o.candidateCost)).sum

def expectedRecourseCredit : ℚ :=
  ((outcomes belief baseline candidate).map fun o => o.probability * o.candidateCost.recourseCreditMs).sum

/-- By how much a candidate is worse than the baseline, with the probability. -/
def weightedRegrets : List (ℚ × ℚ) :=
  (outcomes belief baseline candidate).map fun o =>
    (max 0 (loss config o.candidateCost - loss config o.baseCost),o.probability)

/-- The probability of the scenarios in which the candidate has some property. -/
def probabilityThat (holds : ScenarioCost → Bool) : ℚ :=
  (((outcomes belief baseline candidate).filter fun o => holds o.candidateCost).map (·.probability)).sum

def cvar : ℚ := weightedCvar (weightedRegrets config belief baseline candidate) config.cvarAlpha

def probabilityOf (scenarioId : String) : ℚ :=
  ((belief.scenarios.find? (·.scenarioId = scenarioId)).map (·.probabilityMass)).getD 0

def prepareDiagnostics : List PrepareRecourseDiagnostic := candidate.recourseDiagnosticsByScenario.vals

def pressureDiagnostics : List PrepareRecourseDiagnostic :=
  (prepareDiagnostics candidate).filter (·.firstPressureMs.isSome)

def expectedStall : ℚ :=
  ((prepareDiagnostics candidate).map fun d => probabilityOf belief d.scenarioId * d.shapeAwareStallP90Ms).sum

/-- The gates, each with whether it is closed, in the order in which they are looked at. -/
def gates : List (Bool × String) :=
  let prepares := candidate.action = .prepareHost
  let diagnosed := prepares ∧ prepareDiagnostics candidate ≠ []
  let minimum := config.minimumFutureFeasibilityProbability
  let costs := (outcomes belief baseline candidate).map (·.candidateCost)
  [(!costs.all (·.deterministicFeasible),"deterministic_hard_constraint"),
    (!costs.all (·.livenessPathProven),"restore_liveness_path_unproven"),
    (diagnosed ∧ ¬ (prepareDiagnostics candidate).all (·.transferShapeSupported) = true,"shape_unsupported"),
    (diagnosed ∧ pressureDiagnostics candidate ≠ [] ∧
      ¬ (pressureDiagnostics candidate).any (·.morphologySlackMs.any (0 < ·)) = true,"morphology_window_miss"),
    (diagnosed ∧ expectedRecourseCredit belief baseline candidate ≤ expectedStall belief candidate,
      "insufficient_recourse_after_stall"),
    (¬ prepares ∧ 0 < belief.otherProbabilityMass ∧ ¬ belief.finiteRiskBound = true,"other_has_no_finite_risk_bound"),
    (decide (expectedBenefit config belief baseline candidate ≤ config.benefitMarginMs),
      "insufficient_expected_benefit"),
    (decide (config.riskBudgetMs ≤ cvar config belief baseline candidate),"cvar_risk_budget"),
    (decide (probabilityThat belief baseline candidate (·.futureFeasible) < minimum),"future_chance_constraint"),
    -- To prepare a copy takes no memory of the GPU.
    (¬ prepares ∧ probabilityThat belief baseline candidate (·.futureHbmFeasible) < minimum,
      "future_hbm_chance_constraint")]

def reasons : List String := ((gates config belief baseline candidate).filter (·.1)).map (·.2)

def summarize : PackageRiskSummary where
  packageId := candidate.packageId
  expectedBenefitMs := expectedBenefit config belief baseline candidate
  expectedRecourseCreditMs := expectedRecourseCredit belief baseline candidate
  cvarRegretMs := cvar config belief baseline candidate
  futureFeasibilityProbability := probabilityThat belief baseline candidate (·.futureFeasible)
  futureHbmFeasibilityProbability := probabilityThat belief baseline candidate (·.futureHbmFeasible)
  worstFutureHbmPeakBytes :=
    ((outcomes belief baseline candidate).map (·.candidateCost.futureHbmPeakBytes)).foldl max 0
  worstFutureHbmOverflowBytes :=
    ((outcomes belief baseline candidate).map (·.candidateCost.futureHbmOverflowBytes)).foldl max 0
  eligible := reasons config belief baseline candidate = []
  reasons := reasons config belief baseline candidate
  recourseDiagnostics := candidate.recourseDiagnosticsByScenario.toList.map fun e =>
    { e.2 with probabilityMass := probabilityOf belief e.1 }

end Summary

/-! ## The selection -/

def scenarioIds (belief : FrontierBelief) : Finset String := (belief.scenarios.map (·.scenarioId)).toFinset

def validateScenarioCoverage (evaluation : PackageScenarioEvaluation) (expectedIds : Finset String) :
    Except Raised Unit :=
  ensure (evaluation.costsByScenario.keySet = expectedIds)
    (.valueError "package evaluation must cover every global scenario")

section Select
variable (config : ScenarioRiskPlannerConfig) (belief : FrontierBelief) (baseline : PackageScenarioEvaluation)

/-- Keep the best package so far, and its benefit, while the candidates are summarized. -/
def selectFrom : List PackageScenarioEvaluation → String → ℚ → List PackageRiskSummary →
    Except Raised (String × List PackageRiskSummary)
  | [], bestPackageId, _, summaries => .ok (bestPackageId,summaries)
  | candidate :: rest, bestPackageId, bestBenefit, summaries => do
    ensure (candidate.action ≠ .observedBaseline) (.valueError "candidate cannot duplicate observed baseline")
    validateScenarioCoverage candidate (scenarioIds belief)
    let summary := summarize config belief baseline candidate
    if summary.eligible ∧ bestBenefit < summary.expectedBenefitMs then
      selectFrom rest candidate.packageId summary.expectedBenefitMs (summaries ++ [summary])
    else selectFrom rest bestPackageId bestBenefit (summaries ++ [summary])

def select (candidates : List PackageScenarioEvaluation) : Except Raised ScenarioRiskDecision := do
  ensure (baseline.action = .observedBaseline) (.valueError "risk planning requires the observed A0 baseline")
  validateScenarioCoverage baseline (scenarioIds belief)
  let selected ← selectFrom config belief baseline candidates baseline.packageId 0 []
  .ok ⟨selected.1,baseline.packageId,selected.2⟩

end Select
end ScenarioRiskPlanner
end BeliefKV
