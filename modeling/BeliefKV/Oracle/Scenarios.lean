import BeliefKV.Oracle.Cached

/-! The oracle that compares the four ways to decide over scenarios. A scenario has the plan that is followed now and
the plan that the packer makes for it. -/
namespace BeliefKV.JointOracle
open Least Call

/-- A scenario with the plan that is followed now. -/
structure OracleCandidate where
  demand : ScenarioDemand
  currentSeparatePlan : ScenarioPlan
  traceSensitivity : String
  known : traceSensitivity ∈ FrozenWorkload.WorkloadArguments.sensitivities
  aligned : currentSeparatePlan.snapshotId = demand.snapshotId ∧ currentSeparatePlan.scenarioId = demand.scenarioId

def OracleCandidate.new (demand : ScenarioDemand) (currentSeparatePlan : ScenarioPlan) (traceSensitivity : String) :
    Except Raised OracleCandidate :=
  if hknown : traceSensitivity ∈ FrozenWorkload.WorkloadArguments.sensitivities then
    if haligned : currentSeparatePlan.snapshotId = demand.snapshotId ∧
        currentSeparatePlan.scenarioId = demand.scenarioId then
      .ok ⟨demand,currentSeparatePlan,traceSensitivity,hknown,haligned⟩
    else .error (.valueError "current plan and scenario demand are misaligned")
  else .error (.valueError "invalid oracle trace sensitivity")

/-- The oracle with its packer and the arguments of a call. -/
structure JointPlanOracle where
  packer : WhatIfPackerConfig := {}
  policyInput : PolicyInput
  candidates : List OracleCandidate
  currentScenarioId : String
  fairness : Option FairnessWindow := none

namespace JointPlanOracle
section Evaluate
variable {σ : Type} (fl : ℚ → ℚ) (call : JointPlanOracle) (evaluator : PlanCostEvaluator σ)

/-- The current scenario, if the candidates are right. -/
def validate : Except Raised OracleCandidate := do
  ensure (call.candidates ≠ []) (.valueError "joint oracle requires at least one scenario")
  ensure (call.candidates.map fun item => item.demand.scenarioId).Nodup
    (.valueError "oracle scenario IDs must be unique")
  match call.candidates.find? (·.demand.scenarioId = call.currentScenarioId) with
  | none => .error (.valueError "current scenario is absent from oracle candidates")
  | some current => do
    ensure (∀ item ∈ call.candidates, item.demand.snapshotId = call.policyInput.snapshotId)
      (.valueError "oracle candidates must use the same physical snapshot")
    .ok current

/-- The scenarios with their plans of now. -/
def separatePlans : List (OracleCandidate × ScenarioPlan) :=
  (call.candidates.filter fun item => item.currentSeparatePlan.feasible).map fun item =>
    (item,item.currentSeparatePlan)

/-- The scenarios with the plans of the packer. -/
def oraclePlans : Except Raised (List (OracleCandidate × ScenarioPlan)) :=
  call.candidates.mapM fun item => do
    let plan ← pack fl call.packer call.fairness call.policyInput item.demand
    .ok (item,plan)

def armResult (arm : OracleArm) (item : OracleCandidate) (plan : ScenarioPlan)
    (evaluation : ResimulatedPlanEvaluation) : OracleArmResult where
  arm := arm
  scenarioId := item.demand.scenarioId
  plan := plan
  cost := evaluation.cost
  evidence := evaluation.evidence
  boundKind := boundKind item.traceSensitivity

def evaluatePlan (arm : OracleArm) (s : σ) (scenario : OracleCandidate × ScenarioPlan) :
    σ × Except Raised OracleArmResult :=
  andThen (evaluator s arm call.policyInput scenario.1.demand scenario.2 scenario.1.traceSensitivity)
    fun s evaluation =>
  if evaluation.evidence.validForTiming = false then
    (s,.error (.valueError "oracle evaluator reused fixed timing or physical actions; JCT is invalid"))
  else if scenario.1.traceSensitivity ≠ "semantic_race_sensitive" ∧
      evaluation.evidence.semanticEventsFrozen = false then
    (s,.error (.valueError "non-racy oracle must preserve semantic events"))
  else (s,.ok (armResult arm scenario.1 scenario.2 evaluation))

def scenarioKey (result : OracleArmResult) : CostKey ×ₗ String := toLex (result.cost.orderingKey,result.scenarioId)

/-- The first of the best results, under the name of an arm. -/
def best (arm : OracleArm) (results : List OracleArmResult) : Except Raised OracleArmResult :=
  match leastOf (fun a b => scenarioKey a < scenarioKey b) results with
  | none => .error (.valueError "min() iterable argument is empty")
  | some selected => .ok { selected with arm := arm }

/-- The plan of the packer for the current scenario. -/
def currentOraclePlan (plans : List (OracleCandidate × ScenarioPlan)) :
    Except Raised (OracleCandidate × ScenarioPlan) :=
  match plans.find? (·.1.demand.scenarioId = call.currentScenarioId) with
  | none => .error (.keyError call.currentScenarioId)
  | some scenario => do
    ensure (scenario.2.feasible = true) (.valueError "current scenario has no feasible oracle KV plan")
    .ok scenario

def report (o0 o1 o2 o3 : OracleArmResult) : JointOracleResult :=
  let gap := fl (min o1.cost.workflowJctMs o2.cost.workflowJctMs - o3.cost.workflowJctMs)
  { snapshotId := call.policyInput.snapshotId
    currentScenarioId := call.currentScenarioId
    arms := armResults o0 o1 o2 o3
    jointSynergyGapMs := gap
    jointnessSupported := decide (0 < gap)
    reason :=
      if 0 < gap then "O3 improves workflow JCT beyond either oracle axis alone"
      else "no positive point-estimate joint synergy gap" }

/-- Infeasible plans are not evaluated, but for the plan of now of the current scenario. -/
def evaluate (s : σ) : σ × Except Raised JointOracleResult :=
  andThen (s,call.validate) fun s current =>
  andThen (mapCalls (call.evaluatePlan evaluator .o1Agent) s call.separatePlans) fun s agents =>
  andThen (s,call.oraclePlans fl) fun s plans =>
  andThen (mapCalls (call.evaluatePlan evaluator .o3Joint) s (plans.filter fun p => p.2.feasible)) fun s joints =>
  andThen (s,ensure (agents ≠ [] ∧ joints ≠ [])
    (.valueError "oracle has no feasible baseline or joint plan")) fun s _ =>
  andThen (call.evaluatePlan evaluator .o0Separate s (current,current.currentSeparatePlan)) fun s o0 =>
  andThen (s,best .o1Agent agents) fun s o1 =>
  andThen (s,call.currentOraclePlan plans) fun s currentPlan =>
  andThen (call.evaluatePlan evaluator .o2Kv s currentPlan) fun s o2 =>
  andThen (s,best .o3Joint joints) fun s o3 =>
  (s,.ok (call.report fl o0 o1 o2 o3))

end Evaluate

/-! ## What is reported -/

section Results
variable {σ : Type} {fl : ℚ → ℚ} {call : JointPlanOracle} {evaluator : PlanCostEvaluator σ} {Good : σ → Prop}
  {answer : OracleArm → OracleCandidate → Except Raised ResimulatedPlanEvaluation} {s t : σ} {arm : OracleArm}
  {item current : OracleCandidate} {result : OracleArmResult} {reported : JointOracleResult}

/-- The plan of a scenario under an arm. -/
def planFor (fl : ℚ → ℚ) (call : JointPlanOracle) (arm : OracleArm) (item : OracleCandidate) : ScenarioPlan :=
  match arm with
  | .o0Separate => item.currentSeparatePlan
  | .o1Agent => item.currentSeparatePlan
  | .o2Kv => packPlan fl call.packer call.fairness call.policyInput item.demand
  | .o3Joint => packPlan fl call.packer call.fairness call.policyInput item.demand

/-- In some states, which its calls keep, an evaluator gives the same answers for the plans of the scenarios. -/
structure Answers (fl : ℚ → ℚ) (call : JointPlanOracle) (Good : σ → Prop) (evaluator : PlanCostEvaluator σ)
    (answer : OracleArm → OracleCandidate → Except Raised ResimulatedPlanEvaluation) : Prop where
  kept : ∀ s arm, ∀ item ∈ call.candidates, Good s →
    Good (evaluator s arm call.policyInput item.demand (call.planFor fl arm item) item.traceSensitivity).1
  answered : ∀ s arm, ∀ item ∈ call.candidates, Good s →
    (evaluator s arm call.policyInput item.demand (call.planFor fl arm item) item.traceSensitivity).2 =
      answer arm item

/-- The result of a scenario under an arm. -/
def Evaluated (fl : ℚ → ℚ) (call : JointPlanOracle)
    (answer : OracleArm → OracleCandidate → Except Raised ResimulatedPlanEvaluation) (arm : OracleArm)
    (item : OracleCandidate) (result : OracleArmResult) : Prop :=
  ∃ evaluation, answer arm item = .ok evaluation ∧ result = armResult arm item (call.planFor fl arm item) evaluation

theorem Answers.evaluatePlan (hanswers : Answers fl call Good evaluator answer) (arm : OracleArm)
    (hitem : item ∈ call.candidates) (hs : Good s) {plan : ScenarioPlan} (hplan : plan = call.planFor fl arm item) :
    Good (call.evaluatePlan evaluator arm s (item,plan)).1 ∧
      ∀ result, (call.evaluatePlan evaluator arm s (item,plan)).2 = .ok result →
        Evaluated fl call answer arm item result := by
  obtain rfl := hplan
  have hkept := hanswers.kept s arm item hitem hs
  have hanswered := hanswers.answered s arm item hitem hs
  unfold JointPlanOracle.evaluatePlan
  dsimp only
  generalize evaluator s arm call.policyInput item.demand (call.planFor fl arm item) item.traceSensitivity = reply
    at hkept hanswered
  obtain ⟨u,r⟩ := reply
  cases r with
  | error e =>
    refine ⟨hkept,fun result h => ?_⟩
    cases h
  | ok evaluation =>
    rw [andThen_ok]
    split_ifs
    · refine ⟨hkept,fun result h => ?_⟩
      cases h
    · refine ⟨hkept,fun result h => ?_⟩
      cases h
    · exact ⟨hkept,fun result h => ⟨evaluation,hanswered.symm,(Except.ok.inj h).symm⟩⟩

/-- The plans of some scenarios are evaluated. -/
theorem Answers.evaluatePlans (hanswers : Answers fl call Good evaluator answer) (hs : Good s)
    (items : List OracleCandidate) (hitems : ∀ item ∈ items, item ∈ call.candidates) (arm : OracleArm) :
    Good (mapCalls (call.evaluatePlan evaluator arm) s (items.map fun item => (item,call.planFor fl arm item))).1 ∧
      ∀ results, (mapCalls (call.evaluatePlan evaluator arm) s
          (items.map fun item => (item,call.planFor fl arm item))).2 = .ok results →
        List.Forall₂ (fun item result => Evaluated fl call answer arm item result) items results := by
  have hplan : ∀ p ∈ items.map fun item => (item,call.planFor fl arm item),
      p.1 ∈ call.candidates ∧ p.2 = call.planFor fl arm p.1 := by
    intro p hp
    obtain ⟨item,hitem,rfl⟩ := List.mem_map.mp hp
    exact ⟨hitems item hitem,rfl⟩
  obtain ⟨hgood,hresults⟩ := mapCalls_ok (I := Good)
    (R := fun p result => Evaluated fl call answer arm p.1 result) (fun s p hp hs =>
      hanswers.evaluatePlan arm (hplan p hp).1 hs (hplan p hp).2) hs
  refine ⟨hgood,fun results h => ?_⟩
  have hall := hresults results h
  rwa [List.forall₂_map_left_iff] at hall

theorem best_ok {results : List OracleArmResult} (h : best arm results = .ok result) :
    ∃ selected ∈ results, result = { selected with arm := arm } ∧
      ∀ other ∈ results, scenarioKey selected ≤ scenarioKey other := by
  have hless : ∀ a b : OracleArmResult,
      decide (scenarioKey a < scenarioKey b) = true ↔ scenarioKey a < scenarioKey b :=
    fun a b => decide_eq_true_iff
  unfold best at h
  cases hleast : leastOf (fun a b => decide (scenarioKey a < scenarioKey b)) results with
  | none =>
    rw [hleast] at h
    cases h
  | some selected =>
    rw [hleast] at h
    cases h
    obtain ⟨hmem,hle⟩ := leastOf_spec hless hleast
    exact ⟨selected,hmem,rfl,hle⟩

/-- The best of the scenarios that have a feasible plan under an arm. -/
structure Chosen (fl : ℚ → ℚ) (call : JointPlanOracle)
    (answer : OracleArm → OracleCandidate → Except Raised ResimulatedPlanEvaluation) (arm : OracleArm)
    (result : OracleArmResult) : Prop where
  found : ∃ item ∈ call.candidates, (call.planFor fl arm item).feasible = true ∧
    Evaluated fl call answer arm item result
  least : ∀ item ∈ call.candidates, (call.planFor fl arm item).feasible = true →
    ∃ other, Evaluated fl call answer arm item other ∧ scenarioKey result ≤ scenarioKey other

theorem Chosen.of_best {results : List OracleArmResult}
    (hresults : List.Forall₂ (fun item result => Evaluated fl call answer arm item result)
      (call.candidates.filter fun item => (call.planFor fl arm item).feasible) results)
    (hbest : best arm results = .ok result) : Chosen fl call answer arm result := by
  obtain ⟨selected,hselected,rfl,hleast⟩ := best_ok hbest
  obtain ⟨item,hitem,e,he,hsame⟩ := forall₂_mem_right hresults hselected
  obtain rfl := hsame
  obtain ⟨hmem,hfeasible⟩ := List.mem_filter.mp hitem
  refine ⟨⟨item,hmem,hfeasible,e,he,rfl⟩,fun item' hmem' hfeasible' => ?_⟩
  obtain ⟨other,hother,hevaluated⟩ := forall₂_mem_left hresults (List.mem_filter.mpr ⟨hmem',hfeasible'⟩)
  exact ⟨other,hevaluated,hleast other hother⟩

/-- What a call that returns has found. -/
structure Outcome (fl : ℚ → ℚ) (call : JointPlanOracle)
    (answer : OracleArm → OracleCandidate → Except Raised ResimulatedPlanEvaluation) (current : OracleCandidate)
    (reported : JointOracleResult) : Prop where
  unique : (call.candidates.map fun item => item.demand.scenarioId).Nodup
  is_current : current ∈ call.candidates ∧ current.demand.scenarioId = call.currentScenarioId
  feasible : (call.planFor fl .o2Kv current).feasible = true
  separate : Evaluated fl call answer .o0Separate current (reported.arms .o0Separate)
  agent : Chosen fl call answer .o1Agent (reported.arms .o1Agent)
  kv : Evaluated fl call answer .o2Kv current (reported.arms .o2Kv)
  joint : Chosen fl call answer .o3Joint (reported.arms .o3Joint)
  report : reported = call.report fl (reported.arms .o0Separate) (reported.arms .o1Agent) (reported.arms .o2Kv)
    (reported.arms .o3Joint)

theorem validate_ok (h : call.validate = .ok current) :
    (call.candidates.map fun item => item.demand.scenarioId).Nodup ∧
      (current ∈ call.candidates ∧ current.demand.scenarioId = call.currentScenarioId) ∧
      ∀ item ∈ call.candidates, item.demand.snapshotId = call.policyInput.snapshotId := by
  obtain ⟨_,-,h⟩ := bind_eq_ok.mp h
  obtain ⟨_,hunique,h⟩ := bind_eq_ok.mp h
  have hnodup := ensure_eq_ok.mp hunique
  cases hfind : call.candidates.find? (·.demand.scenarioId = call.currentScenarioId) with
  | none =>
    rw [hfind] at h
    cases h
  | some first =>
    rw [hfind] at h
    obtain ⟨_,hsnapshot,h⟩ := bind_eq_ok.mp h
    cases h
    have hcurrent := (find?_eq_some_iff hnodup).mp hfind
    exact ⟨hnodup,hcurrent,ensure_eq_ok.mp hsnapshot⟩

/-- The packer has a plan for each scenario. -/
theorem oraclePlans_eq (h : ∀ item ∈ call.candidates, item.demand.snapshotId = call.policyInput.snapshotId) :
    call.oraclePlans fl = .ok (call.candidates.map fun item => (item,call.planFor fl .o3Joint item)) := by
  refine mapM_eq_ok fun item hitem => ?_
  have hpack : pack fl call.packer call.fairness call.policyInput item.demand =
      .ok (call.planFor fl .o3Joint item) :=
    bind_eq_ok.mpr ⟨(),ensure_eq_ok.mpr (h item hitem),rfl⟩
  exact bind_eq_ok.mpr ⟨_,hpack,rfl⟩

theorem currentOraclePlan_ok {scenario : OracleCandidate × ScenarioPlan}
    (hunique : (call.candidates.map fun item => item.demand.scenarioId).Nodup)
    (hcurrent : current ∈ call.candidates ∧ current.demand.scenarioId = call.currentScenarioId)
    (h : call.currentOraclePlan (call.candidates.map fun item => (item,call.planFor fl .o3Joint item)) =
      .ok scenario) :
    scenario = (current,call.planFor fl .o3Joint current) ∧ (call.planFor fl .o3Joint current).feasible = true := by
  have hfind : (call.candidates.map fun item => (item,call.planFor fl .o3Joint item)).find?
      (·.1.demand.scenarioId = call.currentScenarioId) = some (current,call.planFor fl .o3Joint current) := by
    rw [List.find?_map]
    have hcandidate := (find?_eq_some_iff hunique).mpr hcurrent
    exact congrArg (Option.map fun item => (item,call.planFor fl .o3Joint item)) hcandidate
  unfold currentOraclePlan at h
  rw [hfind] at h
  obtain ⟨_,hfeasible,h⟩ := bind_eq_ok.mp h
  cases h
  exact ⟨rfl,ensure_eq_ok.mp hfeasible⟩

theorem Answers.outcome (hanswers : Answers fl call Good evaluator answer) (hs : Good s)
    (hrun : call.evaluate fl evaluator s = (t,.ok reported)) :
    ∃ current, Outcome fl call answer current reported := by
  obtain ⟨current,hvalid,h⟩ := andThen_eq_ok.mp hrun
  obtain ⟨hunique,hcurrent,hsnapshot⟩ := validate_ok hvalid
  obtain ⟨agents,hagents,h⟩ := andThen_eq_ok.mp h
  obtain ⟨hs,hagents'⟩ := hanswers.evaluatePlans hs
    (call.candidates.filter fun item => (call.planFor fl .o1Agent item).feasible)
    (fun item hitem => List.mem_of_mem_filter hitem) .o1Agent
  obtain ⟨plans,hplans,h⟩ := andThen_eq_ok.mp h
  rw [oraclePlans_eq hsnapshot] at hplans
  cases hplans
  have hfilter : ((call.candidates.map fun item => (item,call.planFor fl .o3Joint item)).filter
        fun p => p.2.feasible) =
      (call.candidates.filter fun item => (call.planFor fl .o3Joint item).feasible).map fun item =>
        (item,call.planFor fl .o3Joint item) := List.filter_map
  rw [hfilter] at h
  obtain ⟨joints,hjoints,h⟩ := andThen_eq_ok.mp h
  obtain ⟨hs,hjoints'⟩ := hanswers.evaluatePlans hs
    (call.candidates.filter fun item => (call.planFor fl .o3Joint item).feasible)
    (fun item hitem => List.mem_of_mem_filter hitem) .o3Joint
  obtain ⟨_,-,h⟩ := andThen_eq_ok.mp h
  obtain ⟨o0,h0,h⟩ := andThen_eq_ok.mp h
  obtain ⟨hs,hseparate⟩ := hanswers.evaluatePlan .o0Separate hcurrent.1 hs rfl
  obtain ⟨o1,h1,h⟩ := andThen_eq_ok.mp h
  obtain ⟨scenario,hscenario,h⟩ := andThen_eq_ok.mp h
  obtain ⟨rfl,hfeasible⟩ := currentOraclePlan_ok hunique hcurrent hscenario
  obtain ⟨o2,h2,h⟩ := andThen_eq_ok.mp h
  obtain ⟨-,hkv⟩ := hanswers.evaluatePlan .o2Kv hcurrent.1 hs rfl
  obtain ⟨o3,h3,h⟩ := andThen_eq_ok.mp h
  cases h
  exact ⟨current,hunique,hcurrent,hfeasible,hseparate o0 h0,.of_best (hagents' agents hagents) h1,hkv o2 h2,
    .of_best (hjoints' joints hjoints) h3,rfl⟩

theorem jct_le {a b : OracleArmResult} (h : scenarioKey a ≤ scenarioKey b) :
    a.cost.workflowJctMs ≤ b.cost.workflowJctMs :=
  Prod.Lex.monotone_fst _ _ (Prod.Lex.monotone_fst _ _ h)

/-- The joint arm is the fastest if some scenario, with the plan of the packer, is faster than all the others. -/
theorem Outcome.supported_iff (h : Outcome fl call answer current reported) (hfl : GapsSigned fl answer) :
    reported.jointnessSupported = true ↔
      (reported.arms .o3Joint).cost.workflowJctMs < (reported.arms .o1Agent).cost.workflowJctMs ∧
      (reported.arms .o3Joint).cost.workflowJctMs < (reported.arms .o2Kv).cost.workflowJctMs := by
  obtain ⟨item₁,-,-,e₁,he₁,hresult₁⟩ := h.agent.found
  obtain ⟨e₂,he₂,hresult₂⟩ := h.kv
  obtain ⟨item₃,-,-,e₃,he₃,hresult₃⟩ := h.joint.found
  have hcost₁ : (reported.arms .o1Agent).cost = e₁.cost := congrArg OracleArmResult.cost hresult₁
  have hcost₂ : (reported.arms .o2Kv).cost = e₂.cost := congrArg OracleArmResult.cost hresult₂
  have hcost₃ : (reported.arms .o3Joint).cost = e₃.cost := congrArg OracleArmResult.cost hresult₃
  have hgap : reported.jointnessSupported = decide (0 < fl (min (reported.arms .o1Agent).cost.workflowJctMs
      (reported.arms .o2Kv).cost.workflowJctMs - (reported.arms .o3Joint).cost.workflowJctMs)) := by
    rw [h.report]
    rfl
  rw [hgap,decide_eq_true_eq,hcost₁,hcost₂,hcost₃]
  exact hfl.gap_pos he₁ he₂ he₃

/-- Jointness is supported exactly if some scenario, with a feasible plan of the packer, is faster under the joint arm
than the current scenario under the KV arm and than every scenario with its plan of now under the agent arm. -/
theorem Answers.jointness (hfl : GapsSigned fl answer) (hanswers : Answers fl call Good evaluator answer)
    (hs : Good s) (hrun : call.evaluate fl evaluator s = (t,.ok reported)) :
    reported.jointnessSupported = true ↔
      ∃ item ∈ call.candidates, (call.planFor fl .o3Joint item).feasible = true ∧
        ∃ joint, answer .o3Joint item = .ok joint ∧
        (∀ current ∈ call.candidates, current.demand.scenarioId = call.currentScenarioId →
          ∀ kv, answer .o2Kv current = .ok kv → joint.cost.workflowJctMs < kv.cost.workflowJctMs) ∧
        ∀ other ∈ call.candidates, other.currentSeparatePlan.feasible = true →
          ∀ agent, answer .o1Agent other = .ok agent → joint.cost.workflowJctMs < agent.cost.workflowJctMs := by
  obtain ⟨current,h⟩ := hanswers.outcome hs hrun
  obtain ⟨hcurrent,hid⟩ := h.is_current
  rw [h.supported_iff hfl]
  constructor
  · rintro ⟨hagent,hkv⟩
    obtain ⟨item,hitem,hfeasible,joint,hjoint,hresult⟩ := h.joint.found
    have hcost : (reported.arms .o3Joint).cost = joint.cost := congrArg OracleArmResult.cost hresult
    rw [hcost] at hagent hkv
    refine ⟨item,hitem,hfeasible,joint,hjoint,fun current' hcurrent' hid' kv hk => ?_,
      fun other hother hfeasible' agent ha => ?_⟩
    · obtain rfl : current' = current :=
        List.inj_on_of_nodup_map h.unique hcurrent' hcurrent (hid'.trans hid.symm)
      obtain ⟨e,he,hresult₂⟩ := h.kv
      obtain rfl := Except.ok.inj (he.symm.trans hk)
      rwa [congrArg OracleArmResult.cost hresult₂] at hkv
    · obtain ⟨_,⟨e,he,rfl⟩,hle⟩ := h.agent.least other hother hfeasible'
      obtain rfl := Except.ok.inj (he.symm.trans ha)
      exact hagent.trans_le (jct_le hle)
  · rintro ⟨item,hitem,hfeasible,joint,hjoint,hkv,hagent⟩
    obtain ⟨_,⟨e,he,rfl⟩,hle⟩ := h.joint.least item hitem hfeasible
    obtain rfl := Except.ok.inj (he.symm.trans hjoint)
    have hbest : (reported.arms .o3Joint).cost.workflowJctMs ≤ e.cost.workflowJctMs := jct_le hle
    obtain ⟨other,hother,hfeasible₁,agent,ha,hresult₁⟩ := h.agent.found
    obtain ⟨kv,hk,hresult₂⟩ := h.kv
    constructor
    · rw [congrArg OracleArmResult.cost hresult₁]
      exact hbest.trans_lt (hagent other hother hfeasible₁ agent ha)
    · rw [congrArg OracleArmResult.cost hresult₂]
      exact hbest.trans_lt (hkv current hcurrent hid kv hk)

end Results

/-! ## The evaluator that replays -/

section Rolling
variable {model : RollingModel} {fl : ℚ → ℚ} {call : JointPlanOracle} {s t : RollingFrozenTracePlanEvaluator}
  {arm arm' : OracleArm} {item item' : OracleCandidate} {reported : JointOracleResult}

/-- What a replay of a scenario under an arm gives. -/
def replayed (model : RollingModel) (fl : ℚ → ℚ) (call : JointPlanOracle) (arm : OracleArm) (item : OracleCandidate) :
    Except Raised ResimulatedPlanEvaluation :=
  if item.traceSensitivity ≠ model.workload.traceSensitivity then
    .error (.runtimeError "oracle candidate sensitivity differs from the frozen workload")
  else do
    let result ← model.simulate arm.mode call.policyInput item.demand (call.planFor fl arm item)
    model.evaluationOf result

def keyOf (fl : ℚ → ℚ) (call : JointPlanOracle) (arm : OracleArm) (item : OracleCandidate) : CacheKey :=
  cacheKey arm.mode call.policyInput item.demand (call.planFor fl arm item) item.traceSensitivity

/-- What the cache has for the scenarios of a call is what replays of them give. -/
def Right (model : RollingModel) (fl : ℚ → ℚ) (call : JointPlanOracle) (s : RollingFrozenTracePlanEvaluator) : Prop :=
  ∀ arm, ∀ item ∈ call.candidates, ∀ entry,
    Keyed.lookup CacheEntry.key (call.keyOf fl arm item) s.resultCache = some entry →
      replayed model fl call arm item = .ok entry.evaluation

theorem planFor_mode (h : arm.mode = arm'.mode) : call.planFor fl arm item = call.planFor fl arm' item := by
  cases arm <;> cases arm' <;> first | rfl | cases h

/-- The key has no bundle actions, but the mode and the scenario decide them. -/
theorem replayed_key (hunique : (call.candidates.map fun item => item.demand.scenarioId).Nodup)
    (hitem : item ∈ call.candidates) (hitem' : item' ∈ call.candidates)
    (h : call.keyOf fl arm item = call.keyOf fl arm' item') :
    replayed model fl call arm item = replayed model fl call arm' item' := by
  have hmode : arm.mode = arm'.mode := congrArg CacheKey.mode h
  obtain rfl : item = item' := List.inj_on_of_nodup_map hunique hitem hitem' (congrArg CacheKey.scenarioId h)
  unfold replayed
  rw [hmode,planFor_mode hmode]

theorem right_start (model : RollingModel) (fl : ℚ → ℚ) (call : JointPlanOracle) : Right model fl call {} :=
  fun _ _ _ _ h => by cases h

/-- With the cache the evaluator answers what replays give. -/
theorem rolling_answers (hunique : (call.candidates.map fun item => item.demand.scenarioId).Nodup) :
    Answers fl call (Right model fl call) model.evaluateArm (replayed model fl call) := by
  have hspec (s : RollingFrozenTracePlanEvaluator) (arm : OracleArm) (item : OracleCandidate)
      (hitem : item ∈ call.candidates) (hs : Right model fl call s) :
      Right model fl call (model.evaluateArm s arm call.policyInput item.demand (call.planFor fl arm item)
        item.traceSensitivity).1 ∧
      (model.evaluateArm s arm call.policyInput item.demand (call.planFor fl arm item)
        item.traceSensitivity).2 = replayed model fl call arm item := by
    have hkey : cacheKey arm.mode call.policyInput item.demand (call.planFor fl arm item) item.traceSensitivity =
        call.keyOf fl arm item := rfl
    unfold RollingModel.evaluateArm
    dsimp only
    rw [hkey]
    split_ifs with hsensitivity
    · refine ⟨hs,?_⟩
      rw [replayed,if_pos hsensitivity]
    · have hgiven : replayed model fl call arm item = (do
          let result ← model.simulate arm.mode call.policyInput item.demand (call.planFor fl arm item)
          model.evaluationOf result) := if_neg hsensitivity
      cases hlookup : Keyed.lookup CacheEntry.key (call.keyOf fl arm item) s.resultCache with
      | some entry => exact ⟨hs,(hs arm item hitem entry hlookup).symm⟩
      | none =>
        dsimp only
        cases hsimulate : model.simulate arm.mode call.policyInput item.demand (call.planFor fl arm item) with
        | error e =>
          rw [hsimulate] at hgiven
          exact ⟨hs,hgiven.symm⟩
        | ok result =>
          rw [hsimulate] at hgiven
          dsimp only
          cases hevaluation : model.evaluationOf result with
          | error e =>
            exact ⟨hs,hevaluation.symm.trans hgiven.symm⟩
          | ok evaluation =>
            have hreplayed : replayed model fl call arm item = .ok evaluation := hgiven.trans hevaluation
            refine ⟨fun arm' item' hitem' entry hentry => ?_,hreplayed.symm⟩
            rw [Keyed.lookup_store] at hentry
            split_ifs at hentry with hsame
            · cases hentry
              rw [replayed_key hunique hitem' hitem hsame]
              exact hreplayed
            · exact hs arm' item' hitem' entry hentry
  exact ⟨fun s arm item hitem hs => (hspec s arm item hitem hs).1,fun s arm item hitem hs =>
    (hspec s arm item hitem hs).2⟩

end Rolling

/-! ## Two scenarios, one of which is not the current one -/

def quietDemand (scenarioId : String) : ScenarioDemand :=
  ⟨"snapshot",scenarioId,.blocking,[],[],[],∅,5,true,[]⟩

def quietPlan (scenarioId : String) : ScenarioPlan := { TraceOracleCall.samplePlan with scenarioId := scenarioId }

theorem timing_known : "timing_sensitive" ∈ FrozenWorkload.WorkloadArguments.sensitivities := by decide

def quietScenario (scenarioId : String) : OracleCandidate where
  demand := quietDemand scenarioId
  currentSeparatePlan := quietPlan scenarioId
  traceSensitivity := "timing_sensitive"
  known := timing_known
  aligned := ⟨rfl,rfl⟩

def sampleOracle : JointPlanOracle where
  policyInput := TraceOracleCall.sampleInput
  candidates := [quietScenario "calm",quietScenario "storm"]
  currentScenarioId := "storm"

/-- Only the plan of the packer for the calm scenario is fast. -/
def scenarioModel : RollingModel :=
  { sampleModel with
    simulate := fun mode _ demand _ =>
      .ok ⟨[("flow",if mode = .hindsightNextUse ∧ demand.scenarioId = "calm" then 3 else 5)],[],2,1⟩ }

theorem sampleOracle_returns : ∃ t reported,
    sampleOracle.evaluate id scenarioModel.evaluateArm {} = (t,.ok reported) ∧ t.simulationCount = 4 ∧
    reported.jointnessSupported = true := by
  have hcount : (sampleOracle.evaluate id scenarioModel.evaluateArm {}).1.simulationCount = 4 := by decide +kernel
  have hsupported : ((sampleOracle.evaluate id scenarioModel.evaluateArm {}).2.map
      fun reported => reported.jointnessSupported) = .ok true := by decide +kernel
  cases hresult : (sampleOracle.evaluate id scenarioModel.evaluateArm {}).2 with
  | error e =>
    rw [hresult] at hsupported
    cases hsupported
  | ok reported =>
    rw [hresult] at hsupported
    exact ⟨_,reported,Prod.ext rfl hresult,hcount,Except.ok.inj hsupported⟩

/-! ## The reports -/

section Reports
variable {σ : Type} {fl : ℚ → ℚ} {call : JointPlanOracle} {evaluator : PlanCostEvaluator σ} {Good : σ → Prop}
  {answer : OracleArm → OracleCandidate → Except Raised ResimulatedPlanEvaluation} {s t : σ}
  {reported : JointOracleResult}

/-- Two arms report the current scenario, and two the best of all scenarios with a feasible plan. -/
theorem scenario_arms_least (hanswers : Answers fl call Good evaluator answer) (hs : Good s)
    (hrun : call.evaluate fl evaluator s = (t,.ok reported)) :
    (∃ current ∈ call.candidates, current.demand.scenarioId = call.currentScenarioId ∧
      (call.planFor fl .o2Kv current).feasible = true ∧
      ∀ arm, arm = .o0Separate ∨ arm = .o2Kv → Evaluated fl call answer arm current (reported.arms arm)) ∧
    ∀ arm, arm = .o1Agent ∨ arm = .o3Joint →
      (∃ item ∈ call.candidates, (call.planFor fl arm item).feasible = true ∧
        Evaluated fl call answer arm item (reported.arms arm)) ∧
      ∀ item ∈ call.candidates, (call.planFor fl arm item).feasible = true →
        ∃ other, Evaluated fl call answer arm item other ∧ scenarioKey (reported.arms arm) ≤ scenarioKey other := by
  obtain ⟨current,h⟩ := hanswers.outcome hs hrun
  constructor
  · refine ⟨current,h.is_current.1,h.is_current.2,h.feasible,?_⟩
    rintro arm (rfl | rfl)
    · exact h.separate
    · exact h.kv
  · rintro arm (rfl | rfl)
    · exact ⟨h.agent.found,h.agent.least⟩
    · exact ⟨h.joint.found,h.joint.least⟩

theorem scenario_arms_sample : ∃ t reported,
    sampleOracle.evaluate id scenarioModel.evaluateArm {} = (t,.ok reported) ∧
    (∃ current ∈ sampleOracle.candidates, current.demand.scenarioId = "storm" ∧
      (sampleOracle.planFor id .o2Kv current).feasible = true ∧
      ∀ arm, arm = .o0Separate ∨ arm = .o2Kv →
        Evaluated id sampleOracle (replayed scenarioModel id sampleOracle) arm current (reported.arms arm)) ∧
    ∀ arm, arm = .o1Agent ∨ arm = .o3Joint →
      (∃ item ∈ sampleOracle.candidates, (sampleOracle.planFor id arm item).feasible = true ∧
        Evaluated id sampleOracle (replayed scenarioModel id sampleOracle) arm item (reported.arms arm)) ∧
      ∀ item ∈ sampleOracle.candidates, (sampleOracle.planFor id arm item).feasible = true →
        ∃ other, Evaluated id sampleOracle (replayed scenarioModel id sampleOracle) arm item other ∧
          scenarioKey (reported.arms arm) ≤ scenarioKey other := by
  obtain ⟨t,reported,hrun,-,-⟩ := sampleOracle_returns
  exact ⟨t,reported,hrun,scenario_arms_least (rolling_answers (by decide)) (right_start _ _ _) hrun⟩

/-- Over replays only another scenario than the current one can make jointness supported. -/
theorem rolling_jointness {model : RollingModel} {t : RollingFrozenTracePlanEvaluator}
    (hfl : GapsSigned fl (replayed model fl call))
    (hrun : call.evaluate fl model.evaluateArm {} = (t,.ok reported)) :
    reported.jointnessSupported = true ↔
      ∃ item ∈ call.candidates, item.demand.scenarioId ≠ call.currentScenarioId ∧
        (call.planFor fl .o3Joint item).feasible = true ∧ ∃ joint, replayed model fl call .o3Joint item = .ok joint ∧
        (∀ current ∈ call.candidates, current.demand.scenarioId = call.currentScenarioId →
          ∀ kv, replayed model fl call .o2Kv current = .ok kv → joint.cost.workflowJctMs < kv.cost.workflowJctMs) ∧
        ∀ other ∈ call.candidates, other.currentSeparatePlan.feasible = true →
          ∀ agent, replayed model fl call .o1Agent other = .ok agent →
            joint.cost.workflowJctMs < agent.cost.workflowJctMs := by
  obtain ⟨current,hvalid,-⟩ := andThen_eq_ok.mp hrun
  have hanswers : Answers fl call (Right model fl call) model.evaluateArm (replayed model fl call) :=
    rolling_answers (validate_ok hvalid).1
  rw [hanswers.jointness hfl (right_start model fl call) hrun]
  constructor
  · rintro ⟨item,hitem,hfeasible,joint,hjoint,hkv,hagent⟩
    refine ⟨item,hitem,fun hid => ?_,hfeasible,joint,hjoint,hkv,hagent⟩
    -- the KV and the joint arm replay the same plan of the current scenario
    exact lt_irrefl _ (hkv item hitem hid joint hjoint)
  · rintro ⟨item,hitem,-,hfeasible,joint,hjoint,hkv,hagent⟩
    exact ⟨item,hitem,hfeasible,joint,hjoint,hkv,hagent⟩

theorem rolling_jointness_sample : ∃ t reported,
    sampleOracle.evaluate id scenarioModel.evaluateArm {} = (t,.ok reported) ∧ reported.jointnessSupported = true ∧
    (reported.jointnessSupported = true ↔
      ∃ item ∈ sampleOracle.candidates, item.demand.scenarioId ≠ "storm" ∧
        (sampleOracle.planFor id .o3Joint item).feasible = true ∧
        ∃ joint, replayed scenarioModel id sampleOracle .o3Joint item = .ok joint ∧
        (∀ current ∈ sampleOracle.candidates, current.demand.scenarioId = "storm" →
          ∀ kv, replayed scenarioModel id sampleOracle .o2Kv current = .ok kv →
            joint.cost.workflowJctMs < kv.cost.workflowJctMs) ∧
        ∀ other ∈ sampleOracle.candidates, other.currentSeparatePlan.feasible = true →
          ∀ agent, replayed scenarioModel id sampleOracle .o1Agent other = .ok agent →
            joint.cost.workflowJctMs < agent.cost.workflowJctMs) := by
  obtain ⟨t,reported,hrun,-,hsupported⟩ := sampleOracle_returns
  exact ⟨t,reported,hrun,hsupported,rolling_jointness (fun _ _ _ _ _ _ _ _ => sub_pos) hrun⟩

end Reports
end JointPlanOracle
end BeliefKV.JointOracle
