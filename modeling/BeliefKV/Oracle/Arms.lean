import BeliefKV.Lib.Call
import BeliefKV.Oracle.BoundedLag
import BeliefKV.WhatIf.Packer

/-! The oracle that compares four ways to decide over the orders in which requests can run. What resimulates a plan
may have a state of its own. -/
namespace BeliefKV.JointOracle
open Precedence Least Call

inductive OracleArm
  | o0Separate
  | o1Agent
  | o2Kv
  | o3Joint
  deriving DecidableEq

structure OracleCost where
  workflowJctMs : ℚ
  causalBlockedMs : ℚ
  unhiddenStallMs : ℚ
  actionUnlockMs : Option ℚ
  nonneg : 0 ≤ workflowJctMs ∧ 0 ≤ causalBlockedMs ∧ 0 ≤ unhiddenStallMs ∧ ∀ unlockMs ∈ actionUnlockMs, 0 ≤ unlockMs

def OracleCost.new (workflowJctMs causalBlockedMs unhiddenStallMs : ℚ) (actionUnlockMs : Option ℚ) :
    Except Raised OracleCost :=
  if h : 0 ≤ workflowJctMs ∧ 0 ≤ causalBlockedMs ∧ 0 ≤ unhiddenStallMs then
    if hunlock : ∀ unlockMs ∈ actionUnlockMs, 0 ≤ unlockMs then
      .ok ⟨workflowJctMs,causalBlockedMs,unhiddenStallMs,actionUnlockMs,h.1,h.2.1,h.2.2,hunlock⟩
    else .error (.valueError "action_unlock_ms must be finite and non-negative")
  else .error (.valueError "oracle costs must be finite and non-negative")

abbrev CostKey := ℚ ×ₗ ℚ ×ₗ ℚ ×ₗ WithTop ℚ

/-- No action at all is as bad as one that never comes. -/
def OracleCost.orderingKey (cost : OracleCost) : CostKey :=
  toLex (cost.workflowJctMs,toLex (cost.causalBlockedMs,toLex (cost.unhiddenStallMs,
    cost.actionUnlockMs.elim ⊤ WithTop.some)))

structure ResimulationEvidence where
  scheduleRecomputed : Bool
  queueServiceRecomputed : Bool
  physicalActionsRecomputed : Bool
  allocatorRecomputed : Bool
  serviceModelCalibrated : Bool
  semanticEventsFrozen : Bool
  tokenDemandFrozen : Bool
  toolDurationFrozen : Bool
  transitionHash : String
  serviceModelId : String := "unknown"
  physicalModelId : String := "unknown"

/-- What the constructor checks. -/
def ResimulationEvidence.check (e : ResimulationEvidence) : Except Raised Unit := do
  ensure (e.transitionHash ≠ "") (.valueError "resimulation transition_hash must be non-empty")
  ensure (e.serviceModelId ≠ "" ∧ e.physicalModelId ≠ "") (.valueError "resimulation model IDs must be non-empty")

/-- The semantic events do not count. -/
def ResimulationEvidence.validForTiming (e : ResimulationEvidence) : Bool :=
  e.scheduleRecomputed && e.queueServiceRecomputed && e.physicalActionsRecomputed && e.allocatorRecomputed &&
    e.serviceModelCalibrated && e.tokenDemandFrozen && e.toolDurationFrozen

structure ResimulatedPlanEvaluation where
  cost : OracleCost
  evidence : ResimulationEvidence

/-- An evaluator that knows the arm, with its state and the sensitivity of the trace. -/
abbrev PlanCostEvaluator (σ : Type) :=
  σ → OracleArm → PolicyInput → ScenarioDemand → ScenarioPlan → String → σ × Except Raised ResimulatedPlanEvaluation

structure OracleArmResult where
  arm : OracleArm
  scenarioId : String
  plan : ScenarioPlan
  cost : OracleCost
  evidence : ResimulationEvidence
  boundKind : String

structure JointOracleResult where
  snapshotId : String
  currentScenarioId : String
  arms : OracleArm → OracleArmResult
  jointSynergyGapMs : ℚ
  jointnessSupported : Bool
  reason : String

structure TraceJointOracleResult where
  result : JointOracleResult
  baselineExecutionOrder : List String
  candidateOrderCount : ℕ
  searchComplete : Bool
  searchKind : String

/-- The results of the arms by name. -/
def armResults (o0 o1 o2 o3 : OracleArmResult) : OracleArm → OracleArmResult
  | .o0Separate => o0
  | .o1Agent => o1
  | .o2Kv => o2
  | .o3Joint => o3

def boundKind (traceSensitivity : String) : String :=
  if traceSensitivity = "semantic_race_sensitive" then "optimistic" else "exact_fixed_semantics"

/-- The rounded difference of two costs has the right sign, as that of two floats has. -/
def GapsSigned {I : Type} (fl : ℚ → ℚ) (answer : OracleArm → I → Except Raised ResimulatedPlanEvaluation) : Prop :=
  ∀ arm i e, answer arm i = .ok e → ∀ arm' i' e', answer arm' i' = .ok e' →
    (0 < fl (e.cost.workflowJctMs - e'.cost.workflowJctMs) ↔ e'.cost.workflowJctMs < e.cost.workflowJctMs)

/-- A gap is positive if the last cost is less than both others. -/
theorem GapsSigned.gap_pos {I : Type} {fl : ℚ → ℚ} {answer : OracleArm → I → Except Raised ResimulatedPlanEvaluation}
    (hfl : GapsSigned fl answer) {arm₁ arm₂ arm₃ : OracleArm} {i₁ i₂ i₃ : I} {e₁ e₂ e₃ : ResimulatedPlanEvaluation}
    (h₁ : answer arm₁ i₁ = .ok e₁) (h₂ : answer arm₂ i₂ = .ok e₂) (h₃ : answer arm₃ i₃ = .ok e₃) :
    0 < fl (min e₁.cost.workflowJctMs e₂.cost.workflowJctMs - e₃.cost.workflowJctMs) ↔
      e₃.cost.workflowJctMs < e₁.cost.workflowJctMs ∧ e₃.cost.workflowJctMs < e₂.cost.workflowJctMs := by
  rw [← lt_min_iff]
  obtain hmin | hmin := min_choice e₁.cost.workflowJctMs e₂.cost.workflowJctMs
  · rw [hmin]
    exact hfl _ _ _ h₁ _ _ _ h₃
  · rw [hmin]
    exact hfl _ _ _ h₂ _ _ _ h₃

/-! ## The orders of a trace -/

structure OrderCandidates where
  orders : List (List String)
  complete : Bool
  searchKind : String

/-- The arguments of the oracle. -/
structure TraceOracleCall where
  policyInput : PolicyInput
  demand : ScenarioDemand
  basePlan : ScenarioPlan
  requestPredecessors : Dict String (List String)
  baselineExecutionOrder : List String
  traceSensitivity : String
  maxCandidateOrders : ℤ := 4096
  candidateExecutionOrders : Option (List (List String)) := none
  candidateSearchKind : String := "bounded_supplied_topological"

namespace TraceOracleCall
section Orders
variable (call : TraceOracleCall)

theorem any_order_iff (order : List String) (orders : List (List String)) :
    (orders.any fun other => other = order) = true ↔ order ∈ orders := by
  simp

/-- Whether an order is listed is found by comparing it with each. -/
local instance orderDecidable (order : List String) (orders : List (List String)) : Decidable (order ∈ orders) :=
  decidable_of_iff _ (any_order_iff order orders)

def checkOrder (text : String) (order : List String) : Except Raised Unit := do
  ensure (order.Nodup ∧ order.toFinset = call.requestPredecessors.keySet) (.valueError text)
  validateTopologicalOrder call.requestPredecessors order ∅

def validate : Except Raised Unit := do
  ensure (0 < call.maxCandidateOrders) (.valueError "max_candidate_orders must be positive")
  ensure (call.basePlan.snapshotId = call.policyInput.snapshotId)
    (.valueError "trace oracle base plan uses a stale snapshot")
  call.checkOrder "baseline order must contain every request exactly once" call.baselineExecutionOrder

/-- Orders that were given, each once. -/
def deduplicate : List (List String) → List (List String) → Except Raised (List (List String))
  | deduplicated, [] => .ok deduplicated
  | deduplicated, order :: rest => do
    call.checkOrder "candidate order must contain every request exactly once" order
    deduplicate (if order ∈ deduplicated then deduplicated else deduplicated ++ [order]) rest

/-- The baseline takes the place of the last order where there is no room for it. -/
def withBaseline (orders : List (List String)) (complete : Bool) : List (List String) × Bool :=
  if call.baselineExecutionOrder ∈ orders then (orders,complete)
  else if call.maxCandidateOrders ≤ orders.length then (orders.dropLast ++ [call.baselineExecutionOrder],false)
  else (orders ++ [call.baselineExecutionOrder],complete)

def candidateOrders : Except Raised OrderCandidates :=
  match call.candidateExecutionOrders with
  | none => do
    let found ← enumerateTopologicalOrders call.requestPredecessors call.maxCandidateOrders
    let candidates := call.withBaseline found.1 found.2
    .ok ⟨candidates.1,candidates.2,if candidates.2 then "exhaustive_topological" else "bounded_topological"⟩
  | some rawOrders => do
    ensure (call.candidateSearchKind ≠ "") (.valueError "candidate_search_kind must be non-empty")
    let deduplicated ← call.deduplicate [] rawOrders
    ensure (deduplicated ≠ []) (.valueError "candidate execution orders must be non-empty")
    .ok ⟨deduplicated.take call.maxCandidateOrders.toNat,false,call.candidateSearchKind⟩

/-- The plan that runs all requests in an order. -/
def planOf (order : List String) : ScenarioPlan :=
  { call.basePlan with
    executionOrder := order
    admissionActions := order.foldl (fun actions requestId => actions.insert requestId .admits) ∅ }

end Orders

/-! ## The evaluations -/

section Evaluate
variable {σ : Type} (fl : ℚ → ℚ) (call : TraceOracleCall) (evaluator : PlanCostEvaluator σ)

def armResult (arm : OracleArm) (plan : ScenarioPlan) (evaluation : ResimulatedPlanEvaluation) : OracleArmResult where
  arm := arm
  scenarioId := call.demand.scenarioId
  plan := plan
  cost := evaluation.cost
  evidence := evaluation.evidence
  boundKind := boundKind call.traceSensitivity

def evaluatePlan (s : σ) (arm : OracleArm) (plan : ScenarioPlan) : σ × Except Raised OracleArmResult :=
  andThen (evaluator s arm call.policyInput call.demand plan call.traceSensitivity) fun s evaluation =>
  if evaluation.evidence.validForTiming then (s,.ok (call.armResult arm plan evaluation))
  else (s,.error (.valueError "trace oracle evaluator did not recompute physical timing"))

def evaluateOrders (arm : OracleArm) (s : σ) (orders : List (List String)) :
    σ × Except Raised (List OracleArmResult) :=
  mapCalls (fun s order => call.evaluatePlan evaluator s arm (call.planOf order)) s orders

def resultKey (result : OracleArmResult) : CostKey ×ₗ List String :=
  toLex (result.cost.orderingKey,result.plan.executionOrder)

/-- The first of the best results. -/
def best (results : List OracleArmResult) : Except Raised OracleArmResult :=
  match leastOf (fun a b => resultKey a < resultKey b) results with
  | none => .error (.valueError "min() iterable argument is empty")
  | some result => .ok result

def reason (complete supported : Bool) : String :=
  if complete then
    if supported then "O3 improves workflow JCT beyond either exhaustive oracle axis alone"
    else "exhaustive topological search found no positive joint synergy gap"
  else if supported then "positive bounded-search point estimate; exhaustive jointness is unproven"
  else "bounded search found no positive joint synergy gap"

def report (candidates : OrderCandidates) (o0 o1 o2 o3 : OracleArmResult) : TraceJointOracleResult :=
  let gap := fl (min o1.cost.workflowJctMs o2.cost.workflowJctMs - o3.cost.workflowJctMs)
  { result :=
      { snapshotId := call.policyInput.snapshotId
        currentScenarioId := call.demand.scenarioId
        arms := armResults o0 o1 o2 o3
        jointSynergyGapMs := gap
        jointnessSupported := decide (0 < gap) && candidates.complete
        reason := reason candidates.complete (decide (0 < gap)) }
    baselineExecutionOrder := call.baselineExecutionOrder
    candidateOrderCount := candidates.orders.length
    searchComplete := candidates.complete
    searchKind := candidates.searchKind }

/-- The best plans of the arms that are free in the order are evaluated once more. -/
def evaluate (s : σ) : σ × Except Raised TraceJointOracleResult :=
  andThen (s,call.validate) fun s _ =>
  andThen (s,call.candidateOrders) fun s candidates =>
  andThen (call.evaluatePlan evaluator s .o0Separate (call.planOf call.baselineExecutionOrder)) fun s o0 =>
  andThen (call.evaluatePlan evaluator s .o2Kv (call.planOf call.baselineExecutionOrder)) fun s o2 =>
  andThen (call.evaluateOrders evaluator .o1Agent s candidates.orders) fun s agents =>
  andThen (call.evaluateOrders evaluator .o3Joint s candidates.orders) fun s joints =>
  andThen (s,best agents) fun s agent =>
  andThen (s,best joints) fun s joint =>
  andThen (call.evaluatePlan evaluator s .o1Agent agent.plan) fun s o1 =>
  andThen (call.evaluatePlan evaluator s .o3Joint joint.plan) fun s o3 =>
  (s,.ok (call.report fl candidates o0 o1 o2 o3))

end Evaluate
end TraceOracleCall
end BeliefKV.JointOracle
