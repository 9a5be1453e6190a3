import Mathlib.Order.Bounds.Basic
import BeliefKV.Lib.Least
import BeliefKV.Oracle.Orders

/-! Topological orders of requests that keep the workflows close to each other in attained service. -/
namespace BeliefKV.JointOracle
open Precedence Least

/-- The order of a strategy, and the largest lag of a workflow at the dispatch of one of its requests. -/
structure BoundedLagOrderCandidate where
  strategy : String
  executionOrder : List String
  maxPreDispatchLagMs : ℚ

structure BoundedLagOrderSet where
  candidates : List BoundedLagOrderCandidate
  lagBudgetMs : ℚ
  maxServiceQuantumMs : ℚ

/-- The arguments of the generator. -/
structure BoundedLagCall where
  requestPredecessors : Dict String (List String)
  workflowByRequest : Dict String String
  serviceMsByRequest : Dict String ℚ
  baselineExecutionOrder : List String
  kvTokensByRequest : Dict String ℤ := ∅
  lagBudgetMs : ℚ := 50
  maxOrders : ℤ := 6

/-- A state of the list scheduling. -/
structure LagState where
  order : List String := []
  indegree : String → ℤ
  available : Finset String
  attained : String → ℚ := fun _ => 0
  maxLag : ℚ := 0

/-- The service of each request along the heaviest chain of successors from it; the successors come later in the
order. -/
def criticalRemainingService (successors : String → List String) (service : String → ℚ) (order : List String) :
    String → ℚ :=
  order.foldr (fun requestId result =>
    Function.update result requestId (service requestId + ((successors requestId).map result).max?.getD 0)) fun _ => 0

/-- An order in which some request comes before one of its predecessors is turned down. -/
def validateTopologicalOrder (requestPredecessors : Dict String (List String)) :
    List String → Finset String → Except Raised Unit
  | [], _ => .ok ()
  | requestId :: rest, completed => do
    let missing := normalized requestPredecessors requestId \ completed
    ensure (missing = ∅) (.valueError ("execution order violates predecessors for " ++ requestId ++ ": " ++
      listText (Dict.sorted missing)))
    validateTopologicalOrder requestPredecessors rest (insert requestId completed)

namespace BoundedLagCall
variable (call : BoundedLagCall)

def requests : Finset String := call.requestPredecessors.keySet

def required (requestId : String) : Finset String := normalized call.requestPredecessors requestId

def workflow (requestId : String) : String := call.workflowByRequest[requestId]?.getD ""

def service (requestId : String) : ℚ := call.serviceMsByRequest[requestId]?.getD 0

def kvTokens (requestId : String) : ℤ := call.kvTokensByRequest[requestId]?.getD 0

def baselineRank (requestId : String) : ℚ := call.baselineExecutionOrder.idxOf requestId

def critical : String → ℚ :=
  criticalRemainingService (successors call.requestPredecessors) call.service call.baselineExecutionOrder

/-- The strategies; the requests with the least key come first. -/
def strategies : List (String × (String → List ℚ)) :=
  [("observed",fun item => [call.baselineRank item]),
    ("shortest_service",fun item => [call.service item,call.baselineRank item]),
    ("longest_service",fun item => [-call.service item,call.baselineRank item]),
    ("largest_kv",fun item => [-(call.kvTokens item : ℚ),call.baselineRank item]),
    ("critical_path",fun item => [-call.critical item,call.baselineRank item]),
    ("reverse_observed",fun item => [-call.baselineRank item])]

/-! ## List scheduling -/

/-- The service of the least served workflow with an available request. -/
def floor (s : LagState) : ℚ :=
  ((Dict.sorted s.available).map fun item => s.attained (call.workflow item)).min?.getD 0

def eligible (s : LagState) : List String :=
  (Dict.sorted s.available).filter fun item =>
    s.attained (call.workflow item) ≤ call.floor s + call.lagBudgetMs + 1 / 10 ^ 12

def earlier (strategyKey : String → List ℚ) (a b : String) : Bool :=
  decide (toLex (strategyKey a,a) < toLex (strategyKey b,b))

def dispatch (s : LagState) (selected : String) : LagState :=
  let released := release (successors call.requestPredecessors selected) s.indegree (s.available.erase selected)
  { order := s.order ++ [selected]
    indegree := released.1
    available := released.2
    attained := Function.update s.attained (call.workflow selected)
      (s.attained (call.workflow selected) + call.service selected)
    maxLag := max s.maxLag (s.attained (call.workflow selected) - call.floor s) }

/-- Dispatch requests as long as there are available ones, of which some are eligible. -/
def schedule (strategyKey : String → List ℚ) : ℕ → LagState → LagState
  | 0, s => s
  | left + 1, s =>
    match leastOf (earlier strategyKey) (call.eligible s) with
    | none => s
    | some selected => schedule strategyKey left (call.dispatch s selected)

def started : LagState where
  indegree := initialIndegree call.requestPredecessors
  available := initialAvailable call.requestPredecessors

def boundedLagOrder (strategyKey : String → List ℚ) : Except Raised (List String × ℚ) := do
  let final := call.schedule strategyKey call.requests.card call.started
  ensure (final.order.length = call.requests.card) (.valueError "request dependency graph is cyclic")
  .ok (final.order,final.maxLag)

/-- The orders of the strategies, without repetitions, until there are enough. -/
def collect : List (String × (String → List ℚ)) → List BoundedLagOrderCandidate →
    Except Raised (List BoundedLagOrderCandidate)
  | [], candidates => .ok candidates
  | strategy :: rest, candidates => do
    let (order,maxLag) ← call.boundedLagOrder strategy.2
    if order ∈ candidates.map (·.executionOrder) then collect rest candidates
    else if call.maxOrders ≤ candidates.length + 1 then .ok (candidates ++ [⟨strategy.1,order,maxLag⟩])
    else collect rest (candidates ++ [⟨strategy.1,order,maxLag⟩])

def generateBoundedLagTopologicalOrders : Except Raised BoundedLagOrderSet := do
  ensure (0 ≤ call.lagBudgetMs) (.valueError "lag_budget_ms must be finite and non-negative")
  ensure (0 < call.maxOrders) (.valueError "max_orders must be positive")
  ensure (call.workflowByRequest.keySet = call.requests)
    (.valueError "workflow mapping must cover every request exactly")
  ensure (call.serviceMsByRequest.keySet = call.requests)
    (.valueError "service mapping must cover every request exactly")
  ensure (∀ requestId ∈ call.requests, 0 ≤ call.service requestId)
    (.valueError "request service must be finite and non-negative")
  ensure (∀ requestId ∈ call.requests, call.workflow requestId ≠ "") (.valueError "workflow IDs must be non-empty")
  ensure (call.baselineExecutionOrder.Nodup ∧ call.baselineExecutionOrder.toFinset = call.requests)
    (.valueError "baseline order must contain every request exactly once")
  validateTopologicalOrder call.requestPredecessors call.baselineExecutionOrder ∅
  call.requestPredecessors.keys.forM (checkPredecessors call.requestPredecessors)
  ensure (∀ requestId ∈ call.requests, 0 ≤ call.kvTokens requestId)
    (.valueError "KV token demand must be non-negative")
  let candidates ← call.collect call.strategies []
  ensure (candidates ≠ []) (.valueError "no bounded-lag topological order was generated")
  .ok {
    candidates := candidates
    lagBudgetMs := call.lagBudgetMs
    maxServiceQuantumMs := ((Dict.sorted call.requests).map call.service).max?.getD 0 }

/-! ## What the orders are for -/

/-- What a workflow has got from some requests. -/
def attainedService (order : List String) (workflowId : String) : ℚ :=
  ((order.filter fun item => call.workflow item = workflowId).map call.service).sum

/-- The services that the workflows with an available request have got. -/
def Runnable (order : List String) : Set ℚ :=
  {served | ∃ item, Ready call.requests call.required order item ∧
    served = call.attainedService order (call.workflow item)}

/-- How far the workflow of some request was ahead of the least served runnable workflow at its dispatch. -/
def Lags (order : List String) : Set ℚ :=
  {lag | ∃ before selected after least, order = before ++ selected :: after ∧
    IsLeast (call.Runnable before) least ∧ lag = call.attainedService before (call.workflow selected) - least}

/-- At each dispatch the workflow is ahead of no runnable workflow by more than the budget. -/
def Bounded (order : List String) : Prop :=
  ∀ before selected after, order = before ++ selected :: after → ∀ served ∈ call.Runnable before,
    call.attainedService before (call.workflow selected) ≤ served + call.lagBudgetMs + 1 / 10 ^ 12

/-- The services of the chains of successors from a request. -/
def ChainServices (requestId : String) : Set ℚ :=
  {total | ∃ rest, List.IsChain (fun a b => b ∈ successors call.requestPredecessors a) (requestId :: rest) ∧
    total = ((requestId :: rest).map call.service).sum}

/-- A topological order within the budget, with its largest lag. -/
structure Fair (order : List String) (maxLag : ℚ) : Prop where
  topological : Topological call.requests call.required order
  bounded : call.Bounded order
  largest : order ≠ [] → IsGreatest (call.Lags order) maxLag
  idle : order = [] → maxLag = 0

/-- Arguments that the generator takes. -/
structure Valid : Prop where
  lag_nonneg : 0 ≤ call.lagBudgetMs
  orders_pos : 0 < call.maxOrders
  workflows : call.workflowByRequest.keySet = call.requests
  services : call.serviceMsByRequest.keySet = call.requests
  service_nonneg : ∀ requestId ∈ call.requests, 0 ≤ call.service requestId
  named : ∀ requestId ∈ call.requests, call.workflow requestId ≠ ""
  baseline : Topological call.requests call.required call.baselineExecutionOrder
  kv_nonneg : ∀ requestId ∈ call.requests, 0 ≤ call.kvTokens requestId

variable {call}

/-! ## One dispatch -/

/-- What holds of the states of the scheduling. -/
structure Scheduled (call : BoundedLagCall) (s : LagState) : Prop where
  feasible : Feasible call.requests call.required s.order
  frontier : Frontier call.requests call.required s.order s.indegree s.available
  attained : ∀ w, s.attained w = call.attainedService s.order w
  bounded : call.Bounded s.order
  largest : IsGreatest (insert 0 (call.Lags s.order)) s.maxLag

variable {s : LagState} {selected : String}

theorem attainedService_concat (order : List String) (selected w : String) :
    call.attainedService (order ++ [selected]) w =
      call.attainedService order w + if w = call.workflow selected then call.service selected else 0 := by
  unfold attainedService
  rw [List.filter_append,List.map_append,List.sum_append]
  congr 1
  by_cases hw : w = call.workflow selected
  · simp [hw]
  · simp [hw,Ne.symm hw]

variable (call) in
theorem lags_nil : call.Lags [] = ∅ := by
  refine Set.eq_empty_of_forall_notMem ?_
  rintro lag ⟨before,b,after,_,h,-⟩
  exact List.append_ne_nil_of_right_ne_nil before (List.cons_ne_nil b after) h.symm

theorem lags_concat (order : List String) (selected : String) :
    call.Lags (order ++ [selected]) = call.Lags order ∪ {lag | ∃ least, IsLeast (call.Runnable order) least ∧
      lag = call.attainedService order (call.workflow selected) - least} := by
  ext lag
  constructor
  · rintro ⟨before,b,after,least,horder,hleast,rfl⟩
    obtain ⟨rfl,rfl,-⟩ | ⟨after,-,horder⟩ := concat_eq_iff.mp horder
    · exact .inr ⟨least,hleast,rfl⟩
    · exact .inl ⟨before,b,after,least,horder,hleast,rfl⟩
  · rintro (⟨before,b,after,least,horder,hleast,rfl⟩ | ⟨least,hleast,rfl⟩)
    · exact ⟨before,b,after ++ [selected],least,concat_eq_iff.mpr (.inr ⟨after,rfl,horder⟩),hleast,rfl⟩
    · exact ⟨order,selected,[],least,rfl,hleast,rfl⟩

theorem Scheduled.runnable (h : Scheduled call s) (served : ℚ) : served ∈ call.Runnable s.order ↔
    served ∈ (Dict.sorted s.available).map fun item => s.attained (call.workflow item) := by
  rw [List.mem_map]
  constructor
  · rintro ⟨item,hready,rfl⟩
    exact ⟨item,(Dict.mem_sorted _ _).mpr ((h.frontier.available item).mpr hready),h.attained _⟩
  · rintro ⟨item,hitem,rfl⟩
    exact ⟨item,(h.frontier.available item).mp ((Dict.mem_sorted _ _).mp hitem),h.attained _⟩

/-- Where a request is available, the floor is the service of the least served runnable workflow. -/
theorem Scheduled.floor (h : Scheduled call s) (hsome : (call.Runnable s.order).Nonempty) :
    IsLeast (call.Runnable s.order) (call.floor s) := by
  unfold BoundedLagCall.floor
  cases hfloor : ((Dict.sorted s.available).map fun item => s.attained (call.workflow item)).min? with
  | none =>
    obtain ⟨served,hserved⟩ := hsome
    rw [h.runnable,List.min?_eq_none_iff.mp hfloor] at hserved
    cases hserved
  | some least =>
    obtain ⟨hmem,hleast⟩ := List.min?_eq_some_iff.mp hfloor
    exact ⟨(h.runnable least).mpr hmem,fun served hserved => hleast served ((h.runnable served).mp hserved)⟩

theorem Scheduled.eligible (h : Scheduled call s) (hselected : selected ∈ call.eligible s) :
    Ready call.requests call.required s.order selected ∧
      s.attained (call.workflow selected) ≤ call.floor s + call.lagBudgetMs + 1 / 10 ^ 12 := by
  obtain ⟨hmem,hlag⟩ := List.mem_filter.mp hselected
  exact ⟨(h.frontier.available selected).mp ((Dict.mem_sorted _ _).mp hmem),of_decide_eq_true hlag⟩

/-- Of the available requests some are eligible. -/
theorem Scheduled.eligible_ne_nil (h : Scheduled call s) (hlag : 0 ≤ call.lagBudgetMs)
    (hready : Ready call.requests call.required s.order selected) : call.eligible s ≠ [] := by
  have hfloor := h.floor ⟨_,selected,hready,rfl⟩
  obtain ⟨item,hitem,hserved⟩ := hfloor.1
  intro hnil
  have hmem : item ∈ call.eligible s := by
    refine List.mem_filter.mpr ⟨(Dict.mem_sorted _ _).mpr ((h.frontier.available item).mpr hitem),decide_eq_true ?_⟩
    rw [h.attained,← hserved]
    linarith
  rw [hnil] at hmem
  cases hmem

theorem Scheduled.started (call : BoundedLagCall) : Scheduled call call.started where
  feasible := feasible_nil
  frontier := initial_frontier call.requestPredecessors
  attained _ := rfl
  bounded := fun before _ after h =>
    absurd h.symm (List.append_ne_nil_of_right_ne_nil before (List.cons_ne_nil _ after))
  largest := by
    change IsGreatest (insert 0 (call.Lags [])) 0
    rw [lags_nil,insert_empty_eq]
    exact isGreatest_singleton

theorem Scheduled.dispatch (h : Scheduled call s) (hselected : selected ∈ call.eligible s) :
    Scheduled call (call.dispatch s selected) := by
  obtain ⟨hready,hlag⟩ := h.eligible hselected
  have hfloor := h.floor ⟨_,selected,hready,rfl⟩
  refine ⟨feasible_concat_iff.mpr ⟨h.feasible,hready⟩,?_,fun w => ?_,?_,?_⟩
  · exact h.frontier.release h.feasible hready (nodup_successors call.requestPredecessors selected)
      fun b => mem_successors
  · change Function.update s.attained (call.workflow selected) _ w = call.attainedService (s.order ++ [selected]) w
    rw [attainedService_concat,← h.attained]
    by_cases hw : w = call.workflow selected
    · subst hw
      rw [Function.update_self,if_pos rfl]
    · rw [Function.update_of_ne hw,if_neg hw,add_zero]
  · intro before b after horder served hserved
    obtain ⟨rfl,rfl,-⟩ | ⟨after,-,horder⟩ := concat_eq_iff.mp horder
    · have hleast := hfloor.2 hserved
      rw [h.attained] at hlag
      linarith
    · exact h.bounded before b after horder served hserved
  · change IsGreatest (insert 0 (call.Lags (s.order ++ [selected]))) (max s.maxLag _)
    have hone : {lag | ∃ least, IsLeast (call.Runnable s.order) least ∧
        lag = call.attainedService s.order (call.workflow selected) - least} =
        {s.attained (call.workflow selected) - call.floor s} := by
      ext lag
      rw [Set.mem_singleton_iff,h.attained]
      constructor
      · rintro ⟨least,hleast,rfl⟩
        rw [hleast.unique hfloor]
      · rintro rfl
        exact ⟨_,hfloor,rfl⟩
    rw [lags_concat,hone,← Set.insert_union]
    exact h.largest.union isGreatest_singleton

/-! ## A run -/

theorem Valid.known (h : call.Valid) : ∀ a ∈ call.requests, ∀ b ∈ call.required a, b ∈ call.requests := by
  intro a ha b hb
  obtain ⟨before,after,horder⟩ := List.append_of_mem ((h.baseline.mem_iff a).mpr ha)
  rw [← h.baseline.mem_iff,horder]
  exact List.mem_append_left _ (h.baseline.respected before a after horder b hb)

/-- Every request is dispatched. -/
theorem schedule_spec (hvalid : call.Valid) (strategyKey : String → List ℚ) (left : ℕ) :
    ∀ {s : LagState}, Scheduled call s → s.order.length + left = call.requests.card →
      Scheduled call (call.schedule strategyKey left s) ∧
        (call.schedule strategyKey left s).order.length = call.requests.card := by
  induction left with
  | zero => exact fun h hlength => ⟨h,hlength⟩
  | succ left ih =>
    intro s h hlength
    have hless (a b : String) : earlier strategyKey a b = true ↔ toLex (strategyKey a,a) < toLex (strategyKey b,b) :=
      decide_eq_true_iff
    rw [schedule]
    cases hselected : leastOf (earlier strategyKey) (call.eligible s) with
    | none =>
      obtain ⟨a,ha,hnew⟩ : ∃ a ∈ call.requests, a ∉ s.order := by
        by_contra! hall
        have hcard := Finset.card_le_card fun a ha => List.mem_toFinset.mpr (hall a ha)
        rw [List.toFinset_card_of_nodup h.feasible.spec.1] at hcard
        omega
      obtain ⟨b,hb⟩ := exists_ready hvalid.baseline.acyclic hvalid.known ha hnew
      exact absurd ((leastOf_eq_none hless _).mp hselected) (h.eligible_ne_nil hvalid.lag_nonneg hb)
    | some selected =>
      refine ih (h.dispatch (leastOf_spec hless hselected).1) ?_
      change (s.order ++ [selected]).length + left = call.requests.card
      rw [List.length_append,List.length_singleton]
      omega

/-- The first request to be dispatched is not ahead. -/
theorem zero_lag {order : List String} (h : Feasible call.requests call.required order) (hsome : order ≠ []) :
    0 ∈ call.Lags order := by
  cases order with
  | nil => exact absurd rfl hsome
  | cons a rest =>
    have hzero (served : ℚ) (hserved : served ∈ call.Runnable []) : served = 0 := by
      obtain ⟨_,-,rfl⟩ := hserved
      rfl
    refine ⟨[],a,rest,0,rfl,⟨⟨a,h [] a rest rfl,rfl⟩,fun served hserved => (hzero served hserved).ge⟩,?_⟩
    exact (sub_zero 0).symm

theorem boundedLagOrder_fair (hvalid : call.Valid) (strategyKey : String → List ℚ) :
    ∃ order maxLag, call.boundedLagOrder strategyKey = .ok (order,maxLag) ∧ call.Fair order maxLag := by
  obtain ⟨hscheduled,hlength⟩ := schedule_spec hvalid strategyKey call.requests.card (Scheduled.started call)
    (Nat.zero_add _)
  refine ⟨_,_,bind_eq_ok.mpr ⟨(),ensure_eq_ok.mpr hlength,rfl⟩,topological_iff.mpr ⟨hscheduled.feasible,hlength⟩,
    hscheduled.bounded,fun hsome => ?_,fun hnil => ?_⟩
  · have hlargest := hscheduled.largest
    rw [Set.insert_eq_of_mem (zero_lag hscheduled.feasible hsome)] at hlargest
    exact hlargest
  · have hlargest := hscheduled.largest
    rw [hnil,lags_nil,insert_empty_eq] at hlargest
    exact Set.mem_singleton_iff.mp hlargest.1

/-- Candidates that are fair and different, and no more than there may be. -/
structure Candidates (call : BoundedLagCall) (candidates : List BoundedLagOrderCandidate) : Prop where
  fair : ∀ c ∈ candidates, call.Fair c.executionOrder c.maxPreDispatchLagMs
  nodup : (candidates.map (·.executionOrder)).Nodup
  length_le : (candidates.length : ℤ) ≤ call.maxOrders

theorem collect_spec (hvalid : call.Valid) (strategies : List (String × (String → List ℚ))) :
    ∀ {candidates : List BoundedLagOrderCandidate}, Candidates call candidates →
      (candidates.length : ℤ) < call.maxOrders →
      ∃ found, call.collect strategies candidates = .ok found ∧ Candidates call found ∧
        (strategies ≠ [] ∨ candidates ≠ [] → found ≠ []) := by
  induction strategies with
  | nil => exact fun h _ => ⟨_,rfl,h,fun hsome => hsome.resolve_left (absurd rfl)⟩
  | cons strategy rest ih =>
    intro candidates h hless
    obtain ⟨order,maxLag,horder,hfair⟩ := boundedLagOrder_fair hvalid strategy.2
    have hstep : call.collect (strategy :: rest) candidates =
        if order ∈ candidates.map (·.executionOrder) then call.collect rest candidates
        else if call.maxOrders ≤ candidates.length + 1 then .ok (candidates ++ [⟨strategy.1,order,maxLag⟩])
        else call.collect rest (candidates ++ [⟨strategy.1,order,maxLag⟩]) := by
      rw [collect,horder]
      rfl
    rw [hstep]
    by_cases hseen : order ∈ candidates.map (·.executionOrder)
    · obtain ⟨found,hfound,hcandidates,hsome⟩ := ih h hless
      rw [if_pos hseen]
      refine ⟨found,hfound,hcandidates,fun _ => hsome (.inr ?_)⟩
      rintro rfl
      cases hseen
    · have hmore : Candidates call (candidates ++ [⟨strategy.1,order,maxLag⟩]) := by
        refine ⟨fun c hc => ?_,?_,?_⟩
        · obtain hc | hc := List.mem_append.mp hc
          · exact h.fair c hc
          · rw [List.mem_singleton.mp hc]
            exact hfair
        · rw [List.map_append,List.map_singleton,List.nodup_append]
          refine ⟨h.nodup,List.nodup_singleton order,fun a ha b hb hab => hseen ?_⟩
          have hab : a = order := hab.trans (List.mem_singleton.mp hb)
          rwa [← hab]
        · rw [List.length_append,List.length_singleton]
          omega
      have hne := List.append_ne_nil_of_right_ne_nil candidates (List.cons_ne_nil
        (⟨strategy.1,order,maxLag⟩ : BoundedLagOrderCandidate) [])
      rw [if_neg hseen]
      by_cases hfull : call.maxOrders ≤ candidates.length + 1
      · rw [if_pos hfull]
        exact ⟨_,rfl,hmore,fun _ => hne⟩
      · obtain ⟨found,hfound,hcandidates,hsome⟩ := ih hmore (by
          rw [List.length_append,List.length_singleton]
          omega)
        rw [if_neg hfull]
        exact ⟨found,hfound,hcandidates,fun _ => hsome (.inr hne)⟩

/-! ## Critical service -/

theorem Valid.successors_later (h : call.Valid) {before after : List String} {a b : String}
    (horder : call.baselineExecutionOrder = before ++ a :: after)
    (hb : b ∈ successors call.requestPredecessors a) : b ∈ after := by
  obtain ⟨hmem,hrequired⟩ := mem_successors.mp hb
  have hless := h.baseline.before ⟨hmem,hrequired⟩
  have hnodup := h.baseline.nodup
  have hb' := (h.baseline.mem_iff b).mpr hmem
  rw [horder] at hless hnodup hb'
  have ha : a ∉ before := fun ha => List.disjoint_of_nodup_append hnodup ha List.mem_cons_self
  rw [List.idxOf_append_of_notMem ha,List.idxOf_cons_self,Nat.add_zero] at hless
  obtain hb' | hb' := List.mem_append.mp hb'
  · rw [List.idxOf_append_of_mem hb'] at hless
    exact absurd (List.idxOf_lt_length_iff.mpr hb') hless.le.not_gt
  · refine (List.mem_cons.mp hb').resolve_left fun hba => ?_
    rw [hba,List.idxOf_append_of_notMem ha,List.idxOf_cons_self] at hless
    exact absurd hless (lt_irrefl _)

/-- The heaviest chain from a request goes on with the heaviest chain from one of its successors. -/
theorem chain_step {a : String} {result : String → ℚ}
    (hresult : ∀ b ∈ successors call.requestPredecessors a, IsGreatest (call.ChainServices b) (result b))
    (hnonneg : ∀ b ∈ successors call.requestPredecessors a, 0 ≤ call.service b) :
    IsGreatest (call.ChainServices a)
      (call.service a + ((successors call.requestPredecessors a).map result).max?.getD 0) := by
  cases hmax : ((successors call.requestPredecessors a).map result).max? with
  | none =>
    have hnone := List.map_eq_nil_iff.mp (List.max?_eq_none_iff.mp hmax)
    refine ⟨⟨[],List.isChain_singleton a,by simp⟩,?_⟩
    rintro total ⟨rest,hchain,rfl⟩
    cases rest with
    | nil => simp
    | cons b rest =>
      have hb := (List.isChain_cons_cons.mp hchain).1
      rw [hnone] at hb
      cases hb
  | some best =>
    obtain ⟨hmem,hbest⟩ := List.max?_eq_some_iff.mp hmax
    obtain ⟨b,hb,rfl⟩ := List.mem_map.mp hmem
    rw [Option.getD_some]
    refine ⟨?_,?_⟩
    · obtain ⟨rest,hchain,htotal⟩ := (hresult b hb).1
      refine ⟨b :: rest,List.isChain_cons_cons.mpr ⟨hb,hchain⟩,?_⟩
      rw [htotal,List.map_cons (a := a),List.sum_cons]
    · rintro total ⟨rest,hchain,rfl⟩
      rw [List.map_cons,List.sum_cons]
      refine add_le_add_right ?_ _
      cases rest with
      | nil =>
        have hone : call.service b ∈ call.ChainServices b := ⟨[],List.isChain_singleton b,by simp⟩
        exact (hnonneg b hb).trans ((hresult b hb).2 hone)
      | cons c rest =>
        obtain ⟨hc,hchain⟩ := List.isChain_cons_cons.mp hchain
        exact ((hresult c hc).2 ⟨rest,hchain,rfl⟩).trans (hbest _ (List.mem_map_of_mem hc))

theorem critical_spec (order : List String) (hnodup : order.Nodup)
    (hlater : ∀ before a after, order = before ++ a :: after → ∀ b ∈ successors call.requestPredecessors a, b ∈ after)
    (hservice : ∀ a ∈ order, 0 ≤ call.service a) : ∀ a ∈ order, IsGreatest (call.ChainServices a)
      (criticalRemainingService (successors call.requestPredecessors) call.service order a) := by
  induction order with
  | nil => exact fun a ha => absurd ha List.not_mem_nil
  | cons r order ih =>
    obtain ⟨hr,hnodup⟩ := List.nodup_cons.mp hnodup
    have hrest := ih hnodup
      (fun before a after horder => hlater (r :: before) a after (by rw [horder,List.cons_append]))
      fun a ha => hservice a (List.mem_cons_of_mem r ha)
    intro a ha
    unfold criticalRemainingService
    rw [List.foldr_cons]
    by_cases har : a = r
    · subst har
      have hmore (b : String) (hb : b ∈ successors call.requestPredecessors a) := hrest b (hlater [] a order rfl b hb)
      rw [Function.update_self]
      refine chain_step hmore fun b hb => ?_
      exact hservice b (List.mem_cons_of_mem a (hlater [] a order rfl b hb))
    · rw [Function.update_of_ne har]
      exact hrest a ((List.mem_cons.mp ha).resolve_left har)

theorem validate_ok {requestPredecessors : Dict String (List String)} (order : List String) :
    ∀ completed : Finset String, (∀ before a after, order = before ++ a :: after →
      ∀ b ∈ normalized requestPredecessors a, b ∈ completed ∨ b ∈ before) →
    validateTopologicalOrder requestPredecessors order completed = .ok () := by
  induction order with
  | nil => exact fun _ _ => rfl
  | cons r order ih =>
    intro completed hearlier
    have hfirst : normalized requestPredecessors r \ completed = ∅ := by
      rw [Finset.sdiff_eq_empty_iff_subset]
      exact fun b hb => (hearlier [] r order rfl b hb).resolve_right List.not_mem_nil
    refine bind_eq_ok.mpr ⟨(),ensure_eq_ok.mpr hfirst,ih _ fun before a after horder b hb => ?_⟩
    obtain hb | hb := hearlier (r :: before) a after (by rw [horder,List.cons_append]) b hb
    · exact .inl (Finset.mem_insert_of_mem hb)
    · obtain rfl | hb := List.mem_cons.mp hb
      · exact .inl (Finset.mem_insert_self _ completed)
      · exact .inr hb

/-- The candidates are different topological orders within the lag budget, each with its largest lag, and the critical
service of a request is that of the heaviest chain of successors from it. -/
theorem bounded_lag_orders (call : BoundedLagCall) (h : call.Valid) :
    ∃ orders, call.generateBoundedLagTopologicalOrders = .ok orders ∧ orders.candidates ≠ [] ∧
      (orders.candidates.length : ℤ) ≤ call.maxOrders ∧ (orders.candidates.map (·.executionOrder)).Nodup ∧
      (∀ c ∈ orders.candidates, call.Fair c.executionOrder c.maxPreDispatchLagMs) ∧
      ∀ requestId ∈ call.requests, IsGreatest (call.ChainServices requestId) (call.critical requestId) := by
  have hnone : Candidates call [] := ⟨fun c hc => absurd hc List.not_mem_nil,List.nodup_nil,h.orders_pos.le⟩
  obtain ⟨candidates,hcollect,hcandidates,hsome⟩ := collect_spec h call.strategies hnone h.orders_pos
  have hbaseline : call.baselineExecutionOrder.toFinset = call.requests := by
    ext a
    rw [List.mem_toFinset,h.baseline.mem_iff]
  have hvalidated : validateTopologicalOrder call.requestPredecessors call.baselineExecutionOrder ∅ = .ok () :=
    validate_ok call.baselineExecutionOrder ∅ fun before a after horder b hb =>
      .inr (h.baseline.respected before a after horder b hb)
  have hchecked := checked_iff.mpr fun a ha => ⟨h.known a ha,fun hself => h.baseline.acyclic a (.single ⟨ha,hself⟩)⟩
  refine ⟨⟨candidates,call.lagBudgetMs,((Dict.sorted call.requests).map call.service).max?.getD 0⟩,?_,
    hsome (.inl (List.cons_ne_nil _ _)),hcandidates.length_le,hcandidates.nodup,hcandidates.fair,fun a ha => ?_⟩
  · unfold generateBoundedLagTopologicalOrders
    rw [ensure_eq_ok (u := ()).mpr h.lag_nonneg,ensure_eq_ok (u := ()).mpr h.orders_pos,
      ensure_eq_ok (u := ()).mpr h.workflows,ensure_eq_ok (u := ()).mpr h.services,
      ensure_eq_ok (u := ()).mpr h.service_nonneg,ensure_eq_ok (u := ()).mpr h.named,
      ensure_eq_ok (u := ()).mpr ⟨h.baseline.nodup,hbaseline⟩,hvalidated,hchecked,
      ensure_eq_ok (u := ()).mpr h.kv_nonneg,hcollect]
    change (ensure (candidates ≠ []) (.valueError "no bounded-lag topological order was generated") >>= fun _ =>
      Except.ok _) = _
    exact bind_eq_ok.mpr ⟨(),ensure_eq_ok.mpr (hsome (.inl (List.cons_ne_nil _ _))),rfl⟩
  · refine critical_spec _ h.baseline.nodup (fun before b after horder c hc => h.successors_later horder hc)
      (fun b hb => h.service_nonneg b ((h.baseline.mem_iff b).mp hb)) a ((h.baseline.mem_iff a).mpr ha)

/-- Three requests of two workflows, of which the last one requires the first one. -/
def forkCall : BoundedLagCall where
  requestPredecessors := forkPredecessors
  workflowByRequest := ((Std.ExtTreeMap.empty.insert "a" "v").insert "b" "w").insert "c" "v"
  serviceMsByRequest := ((Std.ExtTreeMap.empty.insert "a" 2).insert "b" 3).insert "c" 4
  baselineExecutionOrder := ["b","a","c"]

theorem forkCall_valid : forkCall.Valid where
  lag_nonneg := by decide +kernel
  orders_pos := by decide
  workflows := by decide +kernel
  services := by decide +kernel
  service_nonneg := by decide +kernel
  named := by decide +kernel
  baseline := topological_iff.mpr ⟨feasible_concat_iff.mpr ⟨feasible_concat_iff.mpr
    ⟨feasible_concat_iff.mpr ⟨feasible_nil,by decide +kernel,by decide,by decide +kernel⟩,
      by decide +kernel,by decide,by decide +kernel⟩,by decide +kernel,by decide,by decide +kernel⟩,by decide +kernel⟩
  kv_nonneg := by decide +kernel

/-- Each of the three orders is a candidate. -/
theorem fork_scheduled : forkCall.Valid ∧ ∃ orders, forkCall.generateBoundedLagTopologicalOrders = .ok orders ∧
    orders.candidates.map (fun c => (c.executionOrder,c.maxPreDispatchLagMs)) =
      [(["b","a","c"],0),(["a","b","c"],0),(["a","c","b"],2)] ∧
    (∀ c ∈ orders.candidates, forkCall.Fair c.executionOrder c.maxPreDispatchLagMs) ∧
    IsGreatest (forkCall.ChainServices "a") (forkCall.critical "a") ∧ forkCall.critical "a" = 6 := by
  obtain ⟨orders,hok,-,-,-,hfair,hcritical⟩ := bounded_lag_orders forkCall forkCall_valid
  have hlisted : forkCall.generateBoundedLagTopologicalOrders.toOption.map (fun orders =>
      orders.candidates.map fun c => (c.executionOrder,c.maxPreDispatchLagMs)) =
      some [(["b","a","c"],0),(["a","b","c"],0),(["a","c","b"],2)] := by decide +kernel
  rw [hok] at hlisted
  exact ⟨forkCall_valid,orders,hok,Option.some.inj hlisted,hfair,hcritical "a" (by decide +kernel),by decide +kernel⟩

end BoundedLagCall
end BeliefKV.JointOracle
