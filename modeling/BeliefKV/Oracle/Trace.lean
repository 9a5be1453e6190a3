import BeliefKV.Oracle.Arms

/-! What the oracle finds, when the answers of its evaluator do not depend on the calls before. -/
namespace BeliefKV.JointOracle
open Precedence Least Call

/-! ## The orders -/

section Orders
variable {requestPredecessors : Dict String (List String)} {order : List String}

abbrev Runs (requestPredecessors : Dict String (List String)) (order : List String) : Prop :=
  Topological requestPredecessors.keySet (normalized requestPredecessors) order

theorem validate_respected {completed : Finset String}
    (h : validateTopologicalOrder requestPredecessors order completed = .ok ()) {before after : List String}
    {a b : String} (horder : order = before ++ a :: after) (hb : b ∈ normalized requestPredecessors a) :
    b ∈ completed ∨ b ∈ before := by
  induction order generalizing completed before with
  | nil => exact absurd horder.symm (List.append_ne_nil_of_right_ne_nil before (List.cons_ne_nil a after))
  | cons r order ih =>
    obtain ⟨_,hfirst,hrest⟩ := bind_eq_ok.mp h
    cases before with
    | nil =>
      cases horder
      exact .inl (Finset.sdiff_eq_empty_iff_subset.mp (ensure_eq_ok.mp hfirst) hb)
    | cons c before =>
      cases horder
      obtain hb | hb := ih hrest rfl
      · obtain rfl | hb := Finset.mem_insert.mp hb
        · exact .inr List.mem_cons_self
        · exact .inl hb
      · exact .inr (List.mem_cons_of_mem r hb)

theorem enumerated {limit : ℤ} {orders : List (List String)} {complete : Bool}
    (h : enumerateTopologicalOrders requestPredecessors limit = .ok (orders,complete)) :
    orders ≠ [] ∧ (∀ order ∈ orders, Runs requestPredecessors order) ∧
      (complete = true → ∀ order, Runs requestPredecessors order → order ∈ orders) := by
  have hsteps := h
  obtain ⟨_,hlimit,hsteps⟩ := bind_eq_ok.mp hsteps
  obtain ⟨_,hchecked,-⟩ := bind_eq_ok.mp hsteps
  have hlimit := ensure_eq_ok.mp hlimit
  obtain ⟨found,hfound,hresult⟩ := enumerate_found hlimit hchecked
  have hlive : ¬ Malformed requestPredecessors → _ := fun h => completions_live h feasible_nil (Nat.zero_add _)
  have hmem := mem_all_iff requestPredecessors
  generalize completions (readyRequests requestPredecessors) requestPredecessors.keySet.card [] = all at *
  have hresults : found.results = all.take limit.toNat := hfound.results
  rw [hresult] at h
  by_cases hnil : found.results = []
  · rw [if_pos hnil] at h
    cases h
  · rw [if_neg hnil] at h
    cases h
    have hruns : ∀ order ∈ found.results, Runs requestPredecessors order := by
      intro order horder
      rw [hresults] at horder
      exact (hmem order).mp (List.mem_of_mem_take horder)
    refine ⟨hnil,hruns,fun hcomplete order horder => ?_⟩
    obtain ⟨some,hsome⟩ := List.exists_mem_of_ne_nil _ hnil
    have hformed : ¬ Malformed requestPredecessors := by
      rintro (⟨a,ha,b,hb,hunknown⟩ | ⟨a,hcycle⟩)
      · exact hunknown ((checked_iff.mp hchecked a ha).1 b hb)
      · exact (hruns some hsome).acyclic a hcycle
    have hall := hfound.truncated hformed
    rw [Bool.not_eq_true'] at hcomplete
    rw [hcomplete,Bool.false_or] at hall
    have hshort := decide_eq_false_iff_not.mp hall.symm
    rw [hresults,List.take_of_length_le]
    · exact (hmem order).mpr horder
    · change ¬ limit.toNat < 0 + all.length at hshort
      omega

end Orders

namespace TraceOracleCall
section Candidates
variable {call : TraceOracleCall} {order : List String} {text : String} {candidates : OrderCandidates}

theorem checkOrder_runs (h : call.checkOrder text order = .ok ()) : Runs call.requestPredecessors order := by
  obtain ⟨_,hlisted,hvalid⟩ := bind_eq_ok.mp h
  obtain ⟨hnodup,hall⟩ := ensure_eq_ok.mp hlisted
  refine ⟨hnodup,fun a => by rw [← hall,List.mem_toFinset],fun before a after horder b hb => ?_⟩
  exact (validate_respected hvalid horder hb).resolve_left (Finset.notMem_empty b)

theorem validate_runs (h : call.validate = .ok ()) : Runs call.requestPredecessors call.baselineExecutionOrder := by
  obtain ⟨_,-,h⟩ := bind_eq_ok.mp h
  obtain ⟨_,-,h⟩ := bind_eq_ok.mp h
  exact checkOrder_runs h

theorem deduplicate_runs {rawOrders seen orders : List (List String)}
    (h : call.deduplicate seen rawOrders = .ok orders) (hseen : ∀ order ∈ seen, Runs call.requestPredecessors order) :
    ∀ order ∈ orders, Runs call.requestPredecessors order := by
  induction rawOrders generalizing seen with
  | nil =>
    cases h
    exact hseen
  | cons raw rawOrders ih =>
    obtain ⟨_,hraw,h⟩ := bind_eq_ok.mp h
    refine ih h fun order horder => ?_
    split_ifs at horder with hin
    · exact hseen order horder
    · obtain horder | horder := List.mem_append.mp horder
      · exact hseen order horder
      · rw [List.mem_singleton.mp horder]
        exact checkOrder_runs hraw

/-- The candidates can run, and are all orders that can if the search was complete. -/
theorem candidateOrders_ok (hvalid : call.validate = .ok ()) (h : call.candidateOrders = .ok candidates) :
    (∀ order ∈ candidates.orders, Runs call.requestPredecessors order) ∧
      (candidates.complete = true → ∀ order, Runs call.requestPredecessors order → order ∈ candidates.orders) := by
  unfold candidateOrders at h
  cases hgiven : call.candidateExecutionOrders with
  | none =>
    rw [hgiven] at h
    obtain ⟨⟨orders,complete⟩,hfound,h⟩ := bind_eq_ok.mp h
    cases h
    obtain ⟨-,hruns,hall⟩ := enumerated hfound
    have hbaseline := validate_runs hvalid
    simp only [withBaseline]
    split_ifs with hin hfull
    · exact ⟨hruns,hall⟩
    · refine ⟨fun order horder => ?_,nofun⟩
      obtain horder | horder := List.mem_append.mp horder
      · exact hruns order (List.dropLast_subset orders horder)
      · rwa [List.mem_singleton.mp horder]
    · refine ⟨fun order horder => ?_,fun hcomplete order horder => ?_⟩
      · obtain horder | horder := List.mem_append.mp horder
        · exact hruns order horder
        · rwa [List.mem_singleton.mp horder]
      · exact List.mem_append_left _ (hall hcomplete order horder)
  | some rawOrders =>
    rw [hgiven] at h
    obtain ⟨_,-,h⟩ := bind_eq_ok.mp h
    obtain ⟨orders,horders,h⟩ := bind_eq_ok.mp h
    obtain ⟨_,-,h⟩ := bind_eq_ok.mp h
    cases h
    refine ⟨fun order horder => ?_,nofun⟩
    exact deduplicate_runs horders (fun _ h => absurd h List.not_mem_nil) order (List.mem_of_mem_take horder)

end Candidates

/-! ## The results -/

section Results
variable {σ : Type} {fl : ℚ → ℚ} {call : TraceOracleCall} {evaluator : PlanCostEvaluator σ} {Good : σ → Prop}
  {answer : OracleArm → List String → Except Raised ResimulatedPlanEvaluation} {s t : σ} {arm : OracleArm}
  {order : List String} {result : OracleArmResult} {trace : TraceJointOracleResult} {candidates : OrderCandidates}

/-- In some states, which its calls keep, an evaluator gives the same answers. -/
structure Answers (call : TraceOracleCall) (Good : σ → Prop) (evaluator : PlanCostEvaluator σ)
    (answer : OracleArm → List String → Except Raised ResimulatedPlanEvaluation) : Prop where
  kept : ∀ s arm order, Good s →
    Good (evaluator s arm call.policyInput call.demand (call.planOf order) call.traceSensitivity).1
  answered : ∀ s arm order, Good s →
    (evaluator s arm call.policyInput call.demand (call.planOf order) call.traceSensitivity).2 = answer arm order

/-- The result of an order under an arm. -/
def Evaluated (call : TraceOracleCall) (answer : OracleArm → List String → Except Raised ResimulatedPlanEvaluation)
    (arm : OracleArm) (order : List String) (result : OracleArmResult) : Prop :=
  ∃ evaluation, answer arm order = .ok evaluation ∧ result = call.armResult arm (call.planOf order) evaluation

theorem Evaluated.unique {result' : OracleArmResult} (h : Evaluated call answer arm order result)
    (h' : Evaluated call answer arm order result') : result = result' := by
  obtain ⟨e,he,rfl⟩ := h
  obtain ⟨e',he',rfl⟩ := h'
  rw [Except.ok.inj (he.symm.trans he')]

theorem Answers.evaluatePlan (hanswers : Answers call Good evaluator answer) (hs : Good s) (arm : OracleArm)
    (order : List String) :
    Good (call.evaluatePlan evaluator s arm (call.planOf order)).1 ∧
      ∀ result, (call.evaluatePlan evaluator s arm (call.planOf order)).2 = .ok result →
        Evaluated call answer arm order result := by
  have hkept := hanswers.kept s arm order hs
  have hanswered := hanswers.answered s arm order hs
  unfold TraceOracleCall.evaluatePlan
  generalize evaluator s arm call.policyInput call.demand (call.planOf order) call.traceSensitivity = reply
    at hkept hanswered
  obtain ⟨u,r⟩ := reply
  cases r with
  | error e =>
    refine ⟨hkept,fun result h => ?_⟩
    cases h
  | ok evaluation =>
    rw [andThen_ok]
    split_ifs
    · exact ⟨hkept,fun result h => ⟨evaluation,hanswered.symm,(Except.ok.inj h).symm⟩⟩
    · refine ⟨hkept,fun result h => ?_⟩
      cases h

theorem Answers.evaluateOrders (hanswers : Answers call Good evaluator answer) (hs : Good s) (arm : OracleArm)
    (orders : List (List String)) :
    Good (call.evaluateOrders evaluator arm s orders).1 ∧
      ∀ results, (call.evaluateOrders evaluator arm s orders).2 = .ok results →
        (∀ result ∈ results, ∃ order ∈ orders, Evaluated call answer arm order result) ∧
        ∀ order ∈ orders, ∃ result ∈ results, Evaluated call answer arm order result := by
  have hcalls : Good (call.evaluateOrders evaluator arm s orders).1 ∧
      ∀ results, (call.evaluateOrders evaluator arm s orders).2 = .ok results →
        List.Forall₂ (Evaluated call answer arm) orders results := by
    unfold TraceOracleCall.evaluateOrders
    exact mapCalls_ok (I := Good) (fun s order _ hs => hanswers.evaluatePlan hs arm order) hs
  refine ⟨hcalls.1,fun results h => ?_⟩
  have hall := hcalls.2 results h
  exact ⟨fun result hresult => forall₂_mem_right hall hresult,fun order horder => forall₂_mem_left hall horder⟩

theorem best_ok {results : List OracleArmResult} (h : best results = .ok result) :
    result ∈ results ∧ ∀ other ∈ results, resultKey result ≤ resultKey other := by
  have hless : ∀ a b : OracleArmResult, decide (resultKey a < resultKey b) = true ↔ resultKey a < resultKey b :=
    fun a b => decide_eq_true_iff
  unfold best at h
  cases hleast : leastOf (fun a b => decide (resultKey a < resultKey b)) results with
  | none =>
    rw [hleast] at h
    cases h
  | some first =>
    rw [hleast] at h
    cases h
    exact leastOf_spec hless hleast

/-- The best of some orders under an arm. -/
structure Chosen (call : TraceOracleCall) (answer : OracleArm → List String → Except Raised ResimulatedPlanEvaluation)
    (orders : List (List String)) (arm : OracleArm) (result : OracleArmResult) : Prop where
  found : ∃ order ∈ orders, Evaluated call answer arm order result
  least : ∀ order ∈ orders, ∃ other, Evaluated call answer arm order other ∧ resultKey result ≤ resultKey other

/-- A chosen plan gets the same result once more. -/
theorem Answers.chosen (hanswers : Answers call Good evaluator answer) {orders : List (List String)}
    {results : List OracleArmResult} {u : σ} (hs : Good s) (hu : Good u)
    (hresults : (call.evaluateOrders evaluator arm s orders).2 = .ok results) (hbest : best results = .ok result)
    {again : OracleArmResult} (hagain : (call.evaluatePlan evaluator u arm result.plan).2 = .ok again) :
    Good (call.evaluatePlan evaluator u arm result.plan).1 ∧ Chosen call answer orders arm again := by
  obtain ⟨hfrom,hto⟩ := (hanswers.evaluateOrders hs arm orders).2 results hresults
  obtain ⟨hmem,hleast⟩ := best_ok hbest
  obtain ⟨order,horder,hevaluated⟩ := hfrom result hmem
  have hplan : result.plan = call.planOf order := by
    obtain ⟨e,-,rfl⟩ := hevaluated
    rfl
  rw [hplan] at hagain ⊢
  obtain ⟨hgood,hanswered⟩ := hanswers.evaluatePlan hu arm order
  obtain rfl := hevaluated.unique (hanswered again hagain)
  refine ⟨hgood,⟨order,horder,hevaluated⟩,fun order' horder' => ?_⟩
  obtain ⟨other,hother,h⟩ := hto order' horder'
  exact ⟨other,h,hleast other hother⟩

structure Outcome (fl : ℚ → ℚ) (call : TraceOracleCall)
    (answer : OracleArm → List String → Except Raised ResimulatedPlanEvaluation) (candidates : OrderCandidates)
    (trace : TraceJointOracleResult) : Prop where
  valid : call.validate = .ok ()
  listed : call.candidateOrders = .ok candidates
  separate : Evaluated call answer .o0Separate call.baselineExecutionOrder (trace.result.arms .o0Separate)
  agent : Chosen call answer candidates.orders .o1Agent (trace.result.arms .o1Agent)
  kv : Evaluated call answer .o2Kv call.baselineExecutionOrder (trace.result.arms .o2Kv)
  joint : Chosen call answer candidates.orders .o3Joint (trace.result.arms .o3Joint)
  reported : trace = call.report fl candidates (trace.result.arms .o0Separate) (trace.result.arms .o1Agent)
    (trace.result.arms .o2Kv) (trace.result.arms .o3Joint)

theorem Answers.outcome (hanswers : Answers call Good evaluator answer) (hs : Good s)
    (hrun : call.evaluate fl evaluator s = (t,.ok trace)) :
    ∃ candidates, Outcome fl call answer candidates trace := by
  obtain ⟨_,hvalid,h⟩ := andThen_eq_ok.mp hrun
  obtain ⟨candidates,hlisted,h⟩ := andThen_eq_ok.mp h
  obtain ⟨o0,h0,h⟩ := andThen_eq_ok.mp h
  obtain ⟨hs,hseparate⟩ := hanswers.evaluatePlan hs .o0Separate call.baselineExecutionOrder
  obtain ⟨o2,h2,h⟩ := andThen_eq_ok.mp h
  obtain ⟨hs,hkv⟩ := hanswers.evaluatePlan hs .o2Kv call.baselineExecutionOrder
  obtain ⟨agents,hagents,h⟩ := andThen_eq_ok.mp h
  have hs₁ := (hanswers.evaluateOrders hs .o1Agent candidates.orders).1
  obtain ⟨joints,hjoints,h⟩ := andThen_eq_ok.mp h
  have hs₃ := (hanswers.evaluateOrders hs₁ .o3Joint candidates.orders).1
  obtain ⟨agent,hagent,h⟩ := andThen_eq_ok.mp h
  obtain ⟨joint,hjoint,h⟩ := andThen_eq_ok.mp h
  obtain ⟨o1,h1,h⟩ := andThen_eq_ok.mp h
  obtain ⟨hs₄,hchosen₁⟩ := hanswers.chosen hs hs₃ hagents hagent h1
  obtain ⟨o3,h3,h⟩ := andThen_eq_ok.mp h
  obtain ⟨-,hchosen₃⟩ := hanswers.chosen hs₁ hs₄ hjoints hjoint h3
  cases h
  exact ⟨candidates,hvalid,hlisted,hseparate o0 h0,hchosen₁,hkv o2 h2,hchosen₃,rfl⟩

theorem jct_le {a b : OracleArmResult} (h : resultKey a ≤ resultKey b) :
    a.cost.workflowJctMs ≤ b.cost.workflowJctMs :=
  Prod.Lex.monotone_fst _ _ (Prod.Lex.monotone_fst _ _ h)

/-! ## Two requests in either order -/

theorem no_requests : (([] : List RunnableInvocation).map (·.requestId)).Nodup := List.nodup_nil

theorem no_requests_sorted : ([] : List RunnableInvocation).Pairwise fun a b => a.requestId ≤ b.requestId := .nil

theorem no_bundles : (([] : List PhysicalBundleSnapshot).map (·.bundleId)).Nodup := List.nodup_nil

def sampleInput : PolicyInput where
  snapshotId := "snapshot"
  runnableFrontier := []
  bundles := []
  resources := {
    tsMs := 19
    hbmCapacityBytes := 23
    hbmUsedBytes := 2
    hbmReservedBytes := 3
    hostFreeBytes := 0
    h2dServiceBytesPerMs := 100
    d2hServiceBytesPerMs := 100
    transferSetupP50Ms := 0
    unhiddenStallPerByte := 0
    ts_nonneg := by norm_num
    capacity_pos := by decide
    fits := by decide }
  requests_unique := no_requests
  requests_sorted := no_requests_sorted
  bundles_unique := no_bundles

def samplePlan : ScenarioPlan where
  snapshotId := "snapshot"
  scenarioId := "scenario"
  executionOrder := ["a","b"]
  admissionActions := ∅
  bundleActions := ∅
  feasible := true
  d2hBytes := 0
  h2dBytes := 0
  recomputeTokens := 0
  projectedHbmPeakBytes := 5
  reclaimedBytes := 0
  physicalAccountingExact := true
  blockerReasons := []

def sampleCall : TraceOracleCall where
  policyInput := sampleInput
  demand := ⟨"snapshot","scenario",.blocking,["a","b"],[],[],∅,5,true,[]⟩
  basePlan := samplePlan
  requestPredecessors := (Std.ExtTreeMap.empty.insert "a" []).insert "b" []
  baselineExecutionOrder := ["a","b"]
  traceSensitivity := "timing_sensitive"

def sampleCost (jctMs : ℕ) : OracleCost where
  workflowJctMs := jctMs
  causalBlockedMs := 0
  unhiddenStallMs := 0
  actionUnlockMs := none
  nonneg := by simp

/-- The second request first is faster. -/
def sampleAnswer (arm : OracleArm) (order : List String) : Except Raised ResimulatedPlanEvaluation :=
  let jctMs := (if arm = .o3Joint then 3 else 5) + if order = ["b","a"] then 0 else 4
  .ok ⟨sampleCost jctMs,true,true,true,true,true,true,true,true,"hash","service","physical"⟩

/-- An evaluator that counts its calls. -/
def sampleEvaluator : PlanCostEvaluator ℕ := fun calls arm _ _ plan _ => (calls + 1,sampleAnswer arm plan.executionOrder)

theorem sampleEvaluator_answers : Answers sampleCall (fun _ => True) sampleEvaluator sampleAnswer :=
  ⟨fun _ _ _ _ => trivial,fun _ _ _ _ => rfl⟩

theorem sampleCall_returns : ∃ trace, sampleCall.evaluate id sampleEvaluator 0 = (8,.ok trace) := by
  have hcalls : (sampleCall.evaluate id sampleEvaluator 0).1 = 8 := by decide +kernel
  have hok : (sampleCall.evaluate id sampleEvaluator 0).2.isOk = true := by decide +kernel
  cases hresult : (sampleCall.evaluate id sampleEvaluator 0).2 with
  | error e => simp [hresult,Except.isOk,Except.toBool] at hok
  | ok trace => exact ⟨trace,Prod.ext hcalls hresult⟩

/-- Two arms run the baseline, and two the best of the candidates, which is the best of all orders if the search was
complete. -/
theorem trace_arms_least (hanswers : Answers call Good evaluator answer) (hs : Good s)
    (hrun : call.evaluate fl evaluator s = (t,.ok trace)) :
    (∀ arm, arm = .o0Separate ∨ arm = .o2Kv →
      Evaluated call answer arm call.baselineExecutionOrder (trace.result.arms arm)) ∧
    ∀ arm, arm = .o1Agent ∨ arm = .o3Joint → ∃ order, Runs call.requestPredecessors order ∧
      Evaluated call answer arm order (trace.result.arms arm) ∧
      (trace.searchComplete = true → ∀ order', Runs call.requestPredecessors order' →
        ∃ other, Evaluated call answer arm order' other ∧ resultKey (trace.result.arms arm) ≤ resultKey other) := by
  obtain ⟨candidates,h⟩ := hanswers.outcome hs hrun
  obtain ⟨hruns,hall⟩ := candidateOrders_ok h.valid h.listed
  have hcomplete : trace.searchComplete = candidates.complete := by
    rw [h.reported]
    rfl
  constructor
  · rintro arm (rfl | rfl)
    · exact h.separate
    · exact h.kv
  · intro arm harm
    have hchosen : Chosen call answer candidates.orders arm (trace.result.arms arm) := by
      obtain rfl | rfl := harm
      · exact h.agent
      · exact h.joint
    obtain ⟨order,horder,hevaluated⟩ := hchosen.found
    refine ⟨order,hruns order horder,hevaluated,fun hsearched order' horder' => ?_⟩
    exact hchosen.least order' (hall (hcomplete ▸ hsearched) order' horder')

theorem trace_arms_sample : ∃ trace, sampleCall.evaluate id sampleEvaluator 0 = (8,.ok trace) ∧
    (∀ arm, arm = .o0Separate ∨ arm = .o2Kv →
      Evaluated sampleCall sampleAnswer arm ["a","b"] (trace.result.arms arm)) ∧
    ∀ arm, arm = .o1Agent ∨ arm = .o3Joint → ∃ order, Runs sampleCall.requestPredecessors order ∧
      Evaluated sampleCall sampleAnswer arm order (trace.result.arms arm) ∧
      (trace.searchComplete = true → ∀ order', Runs sampleCall.requestPredecessors order' →
        ∃ other, Evaluated sampleCall sampleAnswer arm order' other ∧
          resultKey (trace.result.arms arm) ≤ resultKey other) := by
  obtain ⟨trace,hrun⟩ := sampleCall_returns
  exact ⟨trace,hrun,trace_arms_least sampleEvaluator_answers trivial hrun⟩

/-- The gap is positive if the joint arm is faster than both others. -/
theorem Outcome.gap_pos (h : Outcome fl call answer candidates trace) (hfl : GapsSigned fl answer) :
    0 < fl (min (trace.result.arms .o1Agent).cost.workflowJctMs (trace.result.arms .o2Kv).cost.workflowJctMs -
      (trace.result.arms .o3Joint).cost.workflowJctMs) ↔
    (trace.result.arms .o3Joint).cost.workflowJctMs < (trace.result.arms .o1Agent).cost.workflowJctMs ∧
      (trace.result.arms .o3Joint).cost.workflowJctMs < (trace.result.arms .o2Kv).cost.workflowJctMs := by
  obtain ⟨order₁,-,e₁,he₁,hresult₁⟩ := h.agent.found
  obtain ⟨e₂,he₂,hresult₂⟩ := h.kv
  obtain ⟨order₃,-,e₃,he₃,hresult₃⟩ := h.joint.found
  have hcost₁ : (trace.result.arms .o1Agent).cost = e₁.cost := congrArg OracleArmResult.cost hresult₁
  have hcost₂ : (trace.result.arms .o2Kv).cost = e₂.cost := congrArg OracleArmResult.cost hresult₂
  have hcost₃ : (trace.result.arms .o3Joint).cost = e₃.cost := congrArg OracleArmResult.cost hresult₃
  rw [hcost₁,hcost₂,hcost₃]
  exact hfl.gap_pos he₁ he₂ he₃

/-- Jointness is supported exactly if all orders were searched and some order, with the residency of the joint arm, is
faster than every order with that of the agent arm and than the baseline with that of the joint arm. -/
theorem jointness_supported_iff (hfl : GapsSigned fl answer) (hanswers : Answers call Good evaluator answer)
    (hs : Good s) (hrun : call.evaluate fl evaluator s = (t,.ok trace)) :
    trace.result.jointnessSupported = true ↔ trace.searchComplete = true ∧
      ∃ order, Runs call.requestPredecessors order ∧ ∃ joint, answer .o3Joint order = .ok joint ∧
        (∀ kv, answer .o2Kv call.baselineExecutionOrder = .ok kv → joint.cost.workflowJctMs < kv.cost.workflowJctMs) ∧
        ∀ order', Runs call.requestPredecessors order' → ∀ agent, answer .o1Agent order' = .ok agent →
          joint.cost.workflowJctMs < agent.cost.workflowJctMs := by
  obtain ⟨candidates,h⟩ := hanswers.outcome hs hrun
  obtain ⟨hruns,hall⟩ := candidateOrders_ok h.valid h.listed
  have hcomplete : trace.searchComplete = candidates.complete := by
    rw [h.reported]
    rfl
  have hsupported : trace.result.jointnessSupported = true ↔
      (trace.result.arms .o3Joint).cost.workflowJctMs < (trace.result.arms .o1Agent).cost.workflowJctMs ∧
      (trace.result.arms .o3Joint).cost.workflowJctMs < (trace.result.arms .o2Kv).cost.workflowJctMs ∧
      candidates.complete = true := by
    have hgap : trace.result.jointnessSupported = (decide (0 < fl (min (trace.result.arms .o1Agent).cost.workflowJctMs
        (trace.result.arms .o2Kv).cost.workflowJctMs - (trace.result.arms .o3Joint).cost.workflowJctMs)) &&
          candidates.complete) := by
      rw [h.reported]
      rfl
    rw [hgap,Bool.and_eq_true,decide_eq_true_eq,h.gap_pos hfl,and_assoc]
  rw [hsupported,hcomplete]
  constructor
  · rintro ⟨hagent,hkv,hsearched⟩
    refine ⟨hsearched,?_⟩
    obtain ⟨order,horder,joint,hjoint,hresult⟩ := h.joint.found
    have hcost : (trace.result.arms .o3Joint).cost = joint.cost := by rw [hresult]; rfl
    rw [hcost] at hagent hkv
    refine ⟨order,hruns order horder,joint,hjoint,fun kv hk => ?_,fun order' horder' agent ha => ?_⟩
    · have hsame := h.kv.unique ⟨kv,hk,rfl⟩
      rw [hsame] at hkv
      exact hkv
    · obtain ⟨other,⟨e,he,rfl⟩,hle⟩ := h.agent.least order' (hall hsearched order' horder')
      rw [ha] at he
      cases he
      exact hagent.trans_le (jct_le hle)
  · rintro ⟨hsearched,order,horder,joint,hjoint,hkv,hagent⟩
    obtain ⟨other,⟨e,he,rfl⟩,hle⟩ := h.joint.least order (hall hsearched order horder)
    rw [hjoint] at he
    cases he
    have hbest : (trace.result.arms .o3Joint).cost.workflowJctMs ≤ joint.cost.workflowJctMs := jct_le hle
    obtain ⟨order₁,horder₁,agent,ha,hresult₁⟩ := h.agent.found
    obtain ⟨kv,hk,hresult₂⟩ := h.kv
    refine ⟨?_,?_,hsearched⟩
    · rw [hresult₁]
      exact hbest.trans_lt (hagent order₁ (hruns order₁ horder₁) agent ha)
    · rw [hresult₂]
      exact hbest.trans_lt (hkv kv hk)

theorem jointness_supported_sample : ∃ trace, sampleCall.evaluate id sampleEvaluator 0 = (8,.ok trace) ∧
    (trace.result.jointnessSupported = true ↔ trace.searchComplete = true ∧
      ∃ order, Runs sampleCall.requestPredecessors order ∧ ∃ joint, sampleAnswer .o3Joint order = .ok joint ∧
        (∀ kv, sampleAnswer .o2Kv ["a","b"] = .ok kv → joint.cost.workflowJctMs < kv.cost.workflowJctMs) ∧
        ∀ order', Runs sampleCall.requestPredecessors order' → ∀ agent, sampleAnswer .o1Agent order' = .ok agent →
          joint.cost.workflowJctMs < agent.cost.workflowJctMs) := by
  obtain ⟨trace,hrun⟩ := sampleCall_returns
  exact ⟨trace,hrun,jointness_supported_iff (fun _ _ _ _ _ _ _ _ => sub_pos) sampleEvaluator_answers trivial hrun⟩

end Results
end TraceOracleCall
end BeliefKV.JointOracle
