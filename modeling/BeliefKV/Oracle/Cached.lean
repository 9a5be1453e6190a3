import BeliefKV.Frozen.CriticalPath
import BeliefKV.Lib.Keyed
import BeliefKV.Oracle.Trace
import BeliefKV.Rolling.Allocator

/-! The evaluator that replays the frozen workload and keeps what it has replayed. The replay itself is any
function. -/
namespace BeliefKV.JointOracle
open Call

/-! ## The evaluator -/

/-- What the evaluator reads of a replay. -/
structure ReplayResult where
  workflowJctMs : List (String × ℚ)
  requestActionUnlockMs : List (String × ℚ)
  causalBlockedMs : ℚ
  unhiddenStallMs : ℚ

structure CacheKey where
  snapshotId : String
  scenarioId : String
  mode : ResidencyReplayMode
  executionOrder : List String
  admissionActions : List (String × AdmissionAction)
  traceSensitivity : String
  deriving DecidableEq

structure CacheEntry where
  key : CacheKey
  result : ReplayResult
  evaluation : ResimulatedPlanEvaluation

/-- The parts of an evaluator that do not change. Sums and single results are rounded. -/
structure RollingModel where
  sum : List ℚ → ℚ
  fl : ℚ → ℚ
  workload : FrozenWorkload.FrozenCounterfactualWorkload
  serviceCalibrated : Bool
  serviceModelId : String
  simulate : ResidencyReplayMode → PolicyInput → ScenarioDemand → ScenarioPlan → Except Raised ReplayResult

structure RollingFrozenTracePlanEvaluator where
  lastResults : OracleArm → Option ReplayResult := fun _ => none
  simulationCount : ℕ := 0
  resultCache : List CacheEntry := []

def OracleArm.mode : OracleArm → ResidencyReplayMode
  | .o2Kv => .hindsightNextUse
  | .o3Joint => .hindsightNextUse
  | _ => .reactiveLru

def cacheKey (mode : ResidencyReplayMode) (input : PolicyInput) (demand : ScenarioDemand) (plan : ScenarioPlan)
    (traceSensitivity : String) : CacheKey where
  snapshotId := input.snapshotId
  scenarioId := demand.scenarioId
  mode := mode
  executionOrder := plan.executionOrder
  admissionActions := plan.admissionActions.toList
  traceSensitivity := traceSensitivity

namespace RollingModel
variable (model : RollingModel)

def evidence : ResimulationEvidence where
  scheduleRecomputed := true
  queueServiceRecomputed := true
  physicalActionsRecomputed := true
  allocatorRecomputed := true
  serviceModelCalibrated := model.serviceCalibrated
  semanticEventsFrozen := model.workload.semanticEventsFrozen
  tokenDemandFrozen := model.workload.tokenDemandFrozen
  toolDurationFrozen := model.workload.toolDurationFrozen
  transitionHash := model.workload.transitionHash
  serviceModelId := model.serviceModelId
  physicalModelId := "rolling_tiered_token_radix_allocator_v3"

def mean (values : List ℚ) : ℚ := model.fl (model.sum values / values.length)

/-- A workload without workflows has no mean. -/
def evaluationOf (result : ReplayResult) : Except Raised ResimulatedPlanEvaluation := do
  ensure (result.workflowJctMs ≠ []) (.runtimeError "division by zero")
  let unlocks := result.requestActionUnlockMs.map Prod.snd
  let cost ← OracleCost.new (model.mean (result.workflowJctMs.map Prod.snd)) result.causalBlockedMs
    result.unhiddenStallMs (if unlocks = [] then none else some (model.mean unlocks))
  model.evidence.check
  .ok ⟨cost,model.evidence⟩

def evaluateArm : PlanCostEvaluator RollingFrozenTracePlanEvaluator := fun s arm input demand plan traceSensitivity =>
  if traceSensitivity ≠ model.workload.traceSensitivity then
    (s,.error (.runtimeError "oracle candidate sensitivity differs from the frozen workload"))
  else
    let key := cacheKey arm.mode input demand plan traceSensitivity
    match Keyed.lookup CacheEntry.key key s.resultCache with
    | some entry =>
      ({ s with lastResults := Function.update s.lastResults arm (some entry.result) },.ok entry.evaluation)
    | none =>
      match model.simulate arm.mode input demand plan with
      | .error e => (s,.error e)
      | .ok result =>
        let s := { s with
          simulationCount := s.simulationCount + 1
          lastResults := Function.update s.lastResults arm (some result) }
        match model.evaluationOf result with
        | .error e => (s,.error e)
        | .ok evaluation =>
          ({ s with resultCache := Keyed.store CacheEntry.key ⟨key,result,evaluation⟩ s.resultCache },
            .ok evaluation)

end RollingModel

/-! ## The calls of an oracle -/

namespace TraceOracleCall
section Calls
variable {σ : Type} {fl : ℚ → ℚ} {call : TraceOracleCall} {evaluator : PlanCostEvaluator σ} {s t u : σ}
  {arm : OracleArm} {order : List String} {result : OracleArmResult} {trace : TraceJointOracleResult}

/-- A call that returned. -/
structure OracleCall where
  arm : OracleArm
  order : List String
  evaluation : ResimulatedPlanEvaluation

/-- Calls that return, one after another. -/
inductive Calls (call : TraceOracleCall) (evaluator : PlanCostEvaluator σ) : σ → List OracleCall → σ → Prop
  | nil (s : σ) : Calls call evaluator s [] s
  | cons {s u t : σ} {c : OracleCall} {rest : List OracleCall}
      (hcall : evaluator s c.arm call.policyInput call.demand (call.planOf c.order) call.traceSensitivity =
        (u,.ok c.evaluation))
      (hrest : Calls call evaluator u rest t) : Calls call evaluator s (c :: rest) t

theorem Calls.append {calls calls' : List OracleCall} (h : Calls call evaluator s calls u)
    (h' : Calls call evaluator u calls' t) : Calls call evaluator s (calls ++ calls') t := by
  induction h with
  | nil => exact h'
  | cons hcall _ ih => exact .cons hcall (ih h')

theorem Calls.split {calls calls' : List OracleCall} (h : Calls call evaluator s (calls ++ calls') t) :
    ∃ u, Calls call evaluator s calls u ∧ Calls call evaluator u calls' t := by
  induction calls generalizing s with
  | nil => exact ⟨s,.nil s,h⟩
  | cons c calls ih =>
    cases h with
    | cons hcall hrest =>
      obtain ⟨u,hcalls,hlater⟩ := ih hrest
      exact ⟨u,.cons hcall hcalls,hlater⟩

theorem evaluatePlan_calls (h : (call.evaluatePlan evaluator s arm (call.planOf order)).2 = .ok result) :
    ∃ evaluation, result = call.armResult arm (call.planOf order) evaluation ∧
      Calls call evaluator s [⟨arm,order,evaluation⟩]
        (call.evaluatePlan evaluator s arm (call.planOf order)).1 := by
  unfold TraceOracleCall.evaluatePlan at h ⊢
  generalize hreply : evaluator s arm call.policyInput call.demand (call.planOf order) call.traceSensitivity = reply
    at h ⊢
  obtain ⟨u,r⟩ := reply
  cases r with
  | error e => cases h
  | ok evaluation =>
    rw [andThen_ok] at h ⊢
    split_ifs at h ⊢ with hvalid
    · cases h
      exact ⟨evaluation,rfl,.cons hreply (.nil u)⟩

theorem evaluateOrders_calls {orders : List (List String)} {results : List OracleArmResult}
    (h : (call.evaluateOrders evaluator arm s orders).2 = .ok results) :
    (∀ result ∈ results, ∃ order ∈ orders, result.plan = call.planOf order) ∧
      ∃ calls, (∀ c ∈ calls, c.arm = arm) ∧ calls.map OracleCall.order = orders ∧
        Calls call evaluator s calls (call.evaluateOrders evaluator arm s orders).1 := by
  induction orders generalizing s results with
  | nil =>
    cases h
    exact ⟨fun _ h => absurd h List.not_mem_nil,[],fun _ h => absurd h List.not_mem_nil,rfl,.nil s⟩
  | cons order orders ih =>
    rw [TraceOracleCall.evaluateOrders,mapCalls] at h ⊢
    generalize hall : andThen (call.evaluatePlan evaluator s arm (call.planOf order)) _ = all at h ⊢
    obtain ⟨v,r⟩ := all
    obtain rfl : r = .ok results := h
    obtain ⟨first,hfirst,hall⟩ := andThen_eq_ok.mp hall
    obtain ⟨others,hothers,hall⟩ := andThen_eq_ok.mp hall
    cases hall
    obtain ⟨evaluation,rfl,hcall⟩ := evaluatePlan_calls hfirst
    obtain ⟨hplans,calls,harm,horders,hcalls⟩ := ih hothers
    refine ⟨fun result hresult => ?_,⟨arm,order,evaluation⟩ :: calls,fun c hc => ?_,?_,hcall.append hcalls⟩
    · obtain rfl | hresult := List.mem_cons.mp hresult
      · exact ⟨order,List.mem_cons_self,rfl⟩
      · obtain ⟨order',horder',h⟩ := hplans result hresult
        exact ⟨order',List.mem_cons_of_mem order horder',h⟩
    · obtain rfl | hc := List.mem_cons.mp hc
      · rfl
      · exact harm c hc
    · rw [List.map_cons,horders]

/-- The calls for a trace: the baseline under two arms, all candidates under the other two, and the two that were
chosen once more. -/
structure Conversation (call : TraceOracleCall) (evaluator : PlanCostEvaluator σ) (candidates : OrderCandidates)
    (trace : TraceJointOracleResult) (s t : σ) (o0 o2 o1 o3 : OracleCall) (agents joints : List OracleCall) :
    Prop where
  fixed : o0.arm = .o0Separate ∧ o0.order = call.baselineExecutionOrder ∧ o2.arm = .o2Kv ∧
    o2.order = call.baselineExecutionOrder
  chosen : o1.arm = .o1Agent ∧ o1.order ∈ candidates.orders ∧ o3.arm = .o3Joint ∧
    o3.order ∈ candidates.orders
  agents_all : (∀ c ∈ agents, c.arm = .o1Agent) ∧ agents.map OracleCall.order = candidates.orders
  joints_all : (∀ c ∈ joints, c.arm = .o3Joint) ∧ joints.map OracleCall.order = candidates.orders
  arms : ∀ c ∈ [o0,o1,o2,o3], trace.result.arms c.arm = call.armResult c.arm (call.planOf c.order) c.evaluation
  calls : Calls call evaluator s ([o0,o2] ++ agents ++ joints ++ [o1,o3]) t

theorem evaluate_calls (hrun : call.evaluate fl evaluator s = (t,.ok trace)) :
    ∃ candidates o0 o2 o1 o3 agents joints, call.candidateOrders = .ok candidates ∧
      Conversation call evaluator candidates trace s t o0 o2 o1 o3 agents joints := by
  obtain ⟨_,-,h⟩ := andThen_eq_ok.mp hrun
  obtain ⟨candidates,hlisted,h⟩ := andThen_eq_ok.mp h
  obtain ⟨o0,h0,h⟩ := andThen_eq_ok.mp h
  obtain ⟨o2,h2,h⟩ := andThen_eq_ok.mp h
  obtain ⟨agents,hagents,h⟩ := andThen_eq_ok.mp h
  obtain ⟨joints,hjoints,h⟩ := andThen_eq_ok.mp h
  obtain ⟨agent,hagent,h⟩ := andThen_eq_ok.mp h
  obtain ⟨joint,hjoint,h⟩ := andThen_eq_ok.mp h
  obtain ⟨o1,h1,h⟩ := andThen_eq_ok.mp h
  obtain ⟨o3,h3,h⟩ := andThen_eq_ok.mp h
  obtain ⟨e0,rfl,hcall₀⟩ := evaluatePlan_calls h0
  obtain ⟨e2,rfl,hcall₂⟩ := evaluatePlan_calls h2
  obtain ⟨hplans₁,agents,hagents⟩ := evaluateOrders_calls hagents
  obtain ⟨hplans₃,joints,hjoints⟩ := evaluateOrders_calls hjoints
  obtain ⟨order₁,horder₁,hplan₁⟩ := hplans₁ agent (best_ok hagent).1
  obtain ⟨order₃,horder₃,hplan₃⟩ := hplans₃ joint (best_ok hjoint).1
  rw [hplan₁] at h1 h3 h
  rw [hplan₃] at h3 h
  obtain ⟨e1,rfl,hcall₁⟩ := evaluatePlan_calls h1
  obtain ⟨e3,rfl,hcall₃⟩ := evaluatePlan_calls h3
  cases h
  refine ⟨candidates,_,_,_,_,agents,joints,hlisted,⟨rfl,rfl,rfl,rfl⟩,⟨rfl,horder₁,rfl,horder₃⟩,
    ⟨hagents.1,hagents.2.1⟩,⟨hjoints.1,hjoints.2.1⟩,fun c hc => ?_,
    (((hcall₀.append hcall₂).append hagents.2.2).append hjoints.2.2).append (hcall₁.append hcall₃)⟩
  simp only [List.mem_cons,List.not_mem_nil,or_false] at hc
  obtain rfl | rfl | rfl | rfl := hc <;> rfl

end Calls
end TraceOracleCall

/-! ## The cache -/

section Cache
variable {model : RollingModel} {fl : ℚ → ℚ} {call : TraceOracleCall} {s t : RollingFrozenTracePlanEvaluator}
  {arm : OracleArm} {order : List String} {trace : TraceJointOracleResult}
  {pairs : Finset (ResidencyReplayMode × List String)}

def TraceOracleCall.keyOf (call : TraceOracleCall) (pair : ResidencyReplayMode × List String) : CacheKey :=
  cacheKey pair.1 call.policyInput call.demand (call.planOf pair.2) call.traceSensitivity

theorem TraceOracleCall.keyOf_inj {pair pair' : ResidencyReplayMode × List String}
    (h : call.keyOf pair = call.keyOf pair') : pair = pair' := by
  have hmode : pair.1 = pair'.1 := congrArg CacheKey.mode h
  have horder : pair.2 = pair'.2 := congrArg CacheKey.executionOrder h
  exact Prod.ext hmode horder

/-- What is replayed for an order. -/
def RollingModel.Replays (model : RollingModel) (call : TraceOracleCall) (pair : ResidencyReplayMode × List String)
    (result : ReplayResult) (evaluation : ResimulatedPlanEvaluation) : Prop :=
  model.simulate pair.1 call.policyInput call.demand (call.planOf pair.2) = .ok result ∧
    model.evaluationOf result = .ok evaluation

/-- The entries of the cache belong to some modes and orders, each of which was replayed once. -/
structure Cached (model : RollingModel) (call : TraceOracleCall) (pairs : Finset (ResidencyReplayMode × List String))
    (s : RollingFrozenTracePlanEvaluator) : Prop where
  right : ∀ pair entry, Keyed.lookup CacheEntry.key (call.keyOf pair) s.resultCache = some entry →
    pair ∈ pairs ∧ model.Replays call pair entry.result entry.evaluation
  known : ∀ pair ∈ pairs, Keyed.lookup CacheEntry.key (call.keyOf pair) s.resultCache ≠ none
  counted : s.simulationCount = pairs.card

theorem cached_start : Cached model call ∅ {} where
  right pair entry h := by cases h
  known pair h := absurd h (Finset.notMem_empty pair)
  counted := rfl

/-- What a call that returns does. -/
theorem Cached.evaluateArm (h : Cached model call pairs s) {evaluation : ResimulatedPlanEvaluation}
    (hcall : model.evaluateArm s arm call.policyInput call.demand (call.planOf order) call.traceSensitivity =
      (t,.ok evaluation)) :
    Cached model call (insert (arm.mode,order) pairs) t ∧ ∃ result,
      model.Replays call (arm.mode,order) result evaluation ∧
      t.lastResults = Function.update s.lastResults arm (some result) := by
  unfold RollingModel.evaluateArm at hcall
  split_ifs at hcall with hsensitivity
  · cases hcall
  · have hkey : cacheKey arm.mode call.policyInput call.demand (call.planOf order) call.traceSensitivity =
        call.keyOf (arm.mode,order) := rfl
    dsimp only at hcall
    rw [hkey] at hcall
    cases hlookup : Keyed.lookup CacheEntry.key (call.keyOf (arm.mode,order)) s.resultCache with
    | some entry =>
      rw [hlookup] at hcall
      cases hcall
      obtain ⟨hmem,hreplays⟩ := h.right _ entry hlookup
      rw [Finset.insert_eq_of_mem hmem]
      exact ⟨⟨h.right,h.known,h.counted⟩,entry.result,hreplays,rfl⟩
    | none =>
      rw [hlookup] at hcall
      have hnew : (arm.mode,order) ∉ pairs := fun hmem => h.known _ hmem hlookup
      cases hsimulate : model.simulate arm.mode call.policyInput call.demand (call.planOf order) with
      | error e =>
        rw [hsimulate] at hcall
        cases hcall
      | ok result =>
        rw [hsimulate] at hcall
        dsimp only at hcall
        cases hevaluation : model.evaluationOf result with
        | error e =>
          rw [hevaluation] at hcall
          cases hcall
        | ok e =>
          rw [hevaluation] at hcall
          cases hcall
          refine ⟨⟨fun pair entry hentry => ?_,fun pair hpair => ?_,?_⟩,result,
            ⟨hsimulate,hevaluation⟩,rfl⟩
          · rw [Keyed.lookup_store] at hentry
            split_ifs at hentry with hsame
            · cases hentry
              rw [TraceOracleCall.keyOf_inj hsame]
              exact ⟨Finset.mem_insert_self _ pairs,hsimulate,hevaluation⟩
            · obtain ⟨hmem,hreplays⟩ := h.right pair entry hentry
              exact ⟨Finset.mem_insert_of_mem hmem,hreplays⟩
          · rw [Keyed.lookup_store]
            split_ifs with hsame
            · exact Option.some_ne_none _
            · refine h.known pair ((Finset.mem_insert.mp hpair).resolve_left fun hpair => hsame ?_)
              rw [hpair]
          · rw [Finset.card_insert_of_notMem hnew,← h.counted]

theorem Cached.calls {calls : List TraceOracleCall.OracleCall} (h : Cached model call pairs s)
    (hcalls : call.Calls model.evaluateArm s calls t) :
    Cached model call (pairs ∪ (calls.map fun c => (c.arm.mode,c.order)).toFinset) t := by
  induction hcalls generalizing pairs with
  | nil => rwa [List.map_nil,List.toFinset_nil,Finset.union_empty]
  | cons hcall _ ih =>
    rw [List.map_cons,List.toFinset_cons,Finset.union_insert,← Finset.insert_union]
    exact ih (h.evaluateArm hcall).1

theorem Cached.unchanged {calls : List TraceOracleCall.OracleCall} (h : Cached model call pairs s)
    (hcalls : call.Calls model.evaluateArm s calls t) (harm : ∀ c ∈ calls, c.arm ≠ arm) :
    t.lastResults arm = s.lastResults arm := by
  induction hcalls generalizing pairs with
  | nil => rfl
  | cons hcall _ ih =>
    obtain ⟨hnext,result,-,hlast⟩ := h.evaluateArm hcall
    rw [ih hnext fun c hc => harm c (List.mem_cons_of_mem _ hc),hlast,
      Function.update_of_ne (harm _ List.mem_cons_self).symm]

/-- The last call for an arm leaves its replay. -/
theorem Cached.last {before after : List TraceOracleCall.OracleCall} {c : TraceOracleCall.OracleCall}
    (h : Cached model call pairs s) (hcalls : call.Calls model.evaluateArm s (before ++ c :: after) t)
    (hafter : ∀ c' ∈ after, c'.arm ≠ c.arm) :
    ∃ result, t.lastResults c.arm = some result ∧ model.Replays call (c.arm.mode,c.order) result c.evaluation := by
  obtain ⟨u,hbefore,hrest⟩ := hcalls.split
  cases hrest with
  | cons hcall hafter' =>
    obtain ⟨hnext,result,hreplays,hlast⟩ := (h.calls hbefore).evaluateArm hcall
    refine ⟨result,?_,hreplays⟩
    rw [hnext.unchanged hafter' hafter,hlast,Function.update_self]

/-- Under both residency policies the candidates and the baseline are replayed. -/
theorem TraceOracleCall.Conversation.replayed {candidates : OrderCandidates}
    {o0 o2 o1 o3 : TraceOracleCall.OracleCall} {agents joints : List TraceOracleCall.OracleCall}
    (h : call.Conversation model.evaluateArm candidates trace s t o0 o2 o1 o3 agents joints) :
    ((([o0,o2] ++ agents ++ joints ++ [o1,o3]).map fun c => (c.arm.mode,c.order)).toFinset) =
      ({.reactiveLru,.hindsightNextUse} : Finset ResidencyReplayMode) ×ˢ
        insert call.baselineExecutionOrder candidates.orders.toFinset := by
  obtain ⟨harm₀,horder₀,harm₂,horder₂⟩ := h.fixed
  obtain ⟨harm₁,horder₁,harm₃,horder₃⟩ := h.chosen
  obtain ⟨hagents,hagentOrders⟩ := h.agents_all
  obtain ⟨hjoints,hjointOrders⟩ := h.joints_all
  ext ⟨mode,order⟩
  simp only [List.mem_toFinset,List.mem_map,Finset.mem_product,Finset.mem_insert,Finset.mem_singleton,
    Prod.mk.injEq,List.mem_append,List.mem_cons,List.not_mem_nil,or_false]
  constructor
  · rintro ⟨c,((((rfl | rfl) | hc) | hc) | rfl | rfl),rfl,rfl⟩
    · rw [harm₀]
      exact ⟨.inl rfl,.inl horder₀⟩
    · rw [harm₂]
      exact ⟨.inr rfl,.inl horder₂⟩
    · rw [hagents c hc,← hagentOrders]
      exact ⟨.inl rfl,.inr (List.mem_map_of_mem hc)⟩
    · rw [hjoints c hc,← hjointOrders]
      exact ⟨.inr rfl,.inr (List.mem_map_of_mem hc)⟩
    · rw [harm₁]
      exact ⟨.inl rfl,.inr horder₁⟩
    · rw [harm₃]
      exact ⟨.inr rfl,.inr horder₃⟩
  · rintro ⟨rfl | rfl,rfl | horder⟩
    · exact ⟨o0,by simp,by rw [harm₀]; rfl,horder₀⟩
    · rw [← hagentOrders] at horder
      obtain ⟨c,hc,rfl⟩ := List.mem_map.mp horder
      exact ⟨c,by simp [hc],by rw [hagents c hc]; rfl,rfl⟩
    · exact ⟨o2,by simp,by rw [harm₂]; rfl,horder₂⟩
    · rw [← hjointOrders] at horder
      obtain ⟨c,hc,rfl⟩ := List.mem_map.mp horder
      exact ⟨c,by simp [hc],by rw [hjoints c hc]; rfl,rfl⟩

/-- The oracle replays every candidate and the baseline once with each residency policy, and at the end the evaluator
has the replays of the four plans that are reported, from which their costs come. -/
theorem rolling_replays (hrun : call.evaluate fl model.evaluateArm {} = (t,.ok trace)) :
    (∃ candidates, call.candidateOrders = .ok candidates ∧
      t.simulationCount = 2 * (insert call.baselineExecutionOrder candidates.orders.toFinset).card) ∧
    ∀ arm, ∃ result evaluation, t.lastResults arm = some result ∧
      model.simulate arm.mode call.policyInput call.demand (trace.result.arms arm).plan = .ok result ∧
      model.evaluationOf result = .ok evaluation ∧ (trace.result.arms arm).cost = evaluation.cost ∧
      (trace.result.arms arm).evidence = evaluation.evidence := by
  obtain ⟨candidates,o0,o2,o1,o3,agents,joints,hlisted,h⟩ := TraceOracleCall.evaluate_calls hrun
  have hstart : Cached model call ∅ {} := cached_start
  refine ⟨⟨candidates,hlisted,?_⟩,fun arm => ?_⟩
  · rw [(hstart.calls h.calls).counted,Finset.empty_union,h.replayed,Finset.card_product]
    rfl
  · obtain ⟨harm₀,-,harm₂,-⟩ := h.fixed
    obtain ⟨harm₁,-,harm₃,-⟩ := h.chosen
    have hreported : ∀ c ∈ [o0,o1,o2,o3], c.arm = arm →
        (∃ result, t.lastResults c.arm = some result ∧
          model.Replays call (c.arm.mode,c.order) result c.evaluation) →
        ∃ result evaluation, t.lastResults arm = some result ∧
          model.simulate arm.mode call.policyInput call.demand (trace.result.arms arm).plan = .ok result ∧
          model.evaluationOf result = .ok evaluation ∧ (trace.result.arms arm).cost = evaluation.cost ∧
          (trace.result.arms arm).evidence = evaluation.evidence := by
      rintro c hc rfl ⟨result,hlast,hsimulate,hevaluation⟩
      rw [h.arms c hc]
      exact ⟨result,c.evaluation,hlast,hsimulate,hevaluation,rfl,rfl⟩
    have hagents := h.agents_all.1
    have hjoints := h.joints_all.1
    have hlast {before after : List TraceOracleCall.OracleCall} {c : TraceOracleCall.OracleCall}
        (hsplit : [o0,o2] ++ agents ++ joints ++ [o1,o3] = before ++ c :: after)
        (hafter : ∀ c' ∈ after, c'.arm ≠ c.arm) :
        ∃ result, t.lastResults c.arm = some result ∧
          model.Replays call (c.arm.mode,c.order) result c.evaluation :=
      hstart.last (hsplit ▸ h.calls) hafter
    cases arm with
    | o0Separate =>
      refine hreported o0 (by simp) harm₀
        (hlast (show _ = [] ++ o0 :: (o2 :: agents ++ joints ++ [o1,o3]) by simp) ?_)
      intro c hc
      simp only [List.mem_append,List.mem_cons,List.not_mem_nil,or_false] at hc
      obtain ((rfl | hc) | hc) | rfl | rfl := hc
      · simp [harm₀,harm₂]
      · simp [harm₀,hagents c hc]
      · simp [harm₀,hjoints c hc]
      · simp [harm₀,harm₁]
      · simp [harm₀,harm₃]
    | o1Agent =>
      refine hreported o1 (by simp) harm₁
        (hlast (show _ = ([o0,o2] ++ agents ++ joints) ++ o1 :: [o3] by simp) ?_)
      intro c hc
      rw [List.mem_singleton.mp hc]
      simp [harm₁,harm₃]
    | o2Kv =>
      refine hreported o2 (by simp) harm₂
        (hlast (show _ = [o0] ++ o2 :: (agents ++ joints ++ [o1,o3]) by simp) ?_)
      intro c hc
      simp only [List.mem_append,List.mem_cons,List.not_mem_nil,or_false] at hc
      obtain (hc | hc) | rfl | rfl := hc
      · simp [harm₂,hagents c hc]
      · simp [harm₂,hjoints c hc]
      · simp [harm₂,harm₁]
      · simp [harm₂,harm₃]
    | o3Joint =>
      refine hreported o3 (by simp) harm₃
        (hlast (show _ = ([o0,o2] ++ agents ++ joints ++ [o1]) ++ o3 :: [] by simp) ?_)
      exact fun c hc => absurd hc List.not_mem_nil

/-! ## A replay in which the order does not matter -/

def sampleModel : RollingModel where
  sum := List.sum
  fl := id
  workload := FrozenWorkload.soloWorkload
  serviceCalibrated := true
  serviceModelId := "service"
  simulate mode _ _ _ := .ok ⟨[("flow",if mode = .hindsightNextUse then 3 else 5)],[],2,1⟩

/-- Two orders, of which one is the baseline, and two residency policies. -/
theorem rolling_replays_sample : ∃ t trace, TraceOracleCall.sampleCall.evaluate id sampleModel.evaluateArm {} =
      (t,.ok trace) ∧ t.simulationCount = 4 ∧
    ((∃ candidates, TraceOracleCall.sampleCall.candidateOrders = .ok candidates ∧
      t.simulationCount = 2 * (insert ["a","b"] candidates.orders.toFinset).card) ∧
    ∀ arm, ∃ result evaluation, t.lastResults arm = some result ∧
      sampleModel.simulate arm.mode TraceOracleCall.sampleInput TraceOracleCall.sampleCall.demand
        (trace.result.arms arm).plan = .ok result ∧
      sampleModel.evaluationOf result = .ok evaluation ∧ (trace.result.arms arm).cost = evaluation.cost ∧
      (trace.result.arms arm).evidence = evaluation.evidence) := by
  have hok : (TraceOracleCall.sampleCall.evaluate id sampleModel.evaluateArm {}).2.isOk = true := by decide +kernel
  have hcount : (TraceOracleCall.sampleCall.evaluate id sampleModel.evaluateArm {}).1.simulationCount = 4 := by
    decide +kernel
  cases hresult : (TraceOracleCall.sampleCall.evaluate id sampleModel.evaluateArm {}).2 with
  | error e => simp [hresult,Except.isOk,Except.toBool] at hok
  | ok trace => exact ⟨_,trace,Prod.ext rfl hresult,hcount,rolling_replays (Prod.ext rfl hresult)⟩

end Cache
end BeliefKV.JointOracle
