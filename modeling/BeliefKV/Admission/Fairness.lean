import Mathlib.Data.Prod.Lex
import Mathlib.Data.String.Basic
import BeliefKV.Protocol
import BeliefKV.Lib.Least

/-! Weighted fair queueing of root workflows. The result of an operation on floating point numbers is
rounded by `fl`, which may be any function. -/
namespace BeliefKV
open Least

structure WorkflowAccount where
  workflowId : String
  weight : ℚ := 1
  attainedServiceMs : ℚ := 0
  dispatchCount : ℕ := 0

structure WorkflowFairScheduler where
  accounts : Dict String WorkflowAccount := ∅
  memoryPenaltyMs : ℚ := 5
  revision : ℕ := 0

namespace WorkflowFairScheduler
variable (fl : ℚ → ℚ) (s : WorkflowFairScheduler)

/-- The account of a workflow, which is registered before it is looked up. -/
def account (workflowId : String) : WorkflowAccount := s.accounts[workflowId]?.getD { workflowId := workflowId }

/-- Register a workflow under a positive weight. A weight from before is overwritten. -/
def enroll (workflowId : String) (weight : ℚ) : WorkflowFairScheduler :=
  match s.accounts[workflowId]? with
  | none =>
    { s with
      accounts := s.accounts.insert workflowId { workflowId := workflowId, weight := weight }
      revision := s.revision + 1 }
  | some account =>
    if account.weight = weight then s
    else
      { s with
        accounts := s.accounts.insert workflowId { account with weight := weight }
        revision := s.revision + 1 }

def register (workflowId : String) (weight : ℚ) : Except Raised WorkflowFairScheduler := do
  ensure (0 < weight) (.valueError "workflow weight must be positive")
  .ok (s.enroll workflowId weight)

def chargeService (workflowId : String) (serviceMs : ℚ) : Except Raised WorkflowFairScheduler := do
  ensure (0 ≤ serviceMs) (.valueError "service_ms must be non-negative")
  let t := s.enroll workflowId 1
  let account := t.account workflowId
  let charged : WorkflowAccount := { account with
    attainedServiceMs := fl (account.attainedServiceMs + serviceMs)
    dispatchCount := account.dispatchCount + 1 }
  if serviceMs = 0 then .ok t
  else .ok { t with accounts := t.accounts.insert workflowId charged, revision := t.revision + 1 }

/-- Register some workflows under the default weight. -/
def enrollAll (workflows : Finset String) : WorkflowFairScheduler :=
  (Dict.sorted workflows).foldl (fun t workflowId => t.enroll workflowId 1) s

def virtualRuntime (account : WorkflowAccount) : ℚ := fl (account.attainedServiceMs / account.weight)

/-- The part of the memory that a workflow is charged with. -/
def memoryShare (charges : String → ℚ) (hbmCapacityBytes : ℤ) (workflowId : String) : ℚ :=
  if 0 < hbmCapacityBytes then fl (charges workflowId / fl hbmCapacityBytes) else 0

/-- Workflows with a lesser key come first. -/
def selectionKey (charges : String → ℚ) (hbmCapacityBytes : ℤ) (workflowId : String) : ℚ ×ₗ ℚ ×ₗ ℕ ×ₗ String :=
  let share := memoryShare fl charges hbmCapacityBytes workflowId
  toLex (fl (virtualRuntime fl (s.account workflowId) + fl (share * s.memoryPenaltyMs)),
    toLex (share,toLex ((s.account workflowId).dispatchCount,workflowId)))

def comesBefore (charges : String → ℚ) (hbmCapacityBytes : ℤ) (a b : String) : Bool :=
  decide (s.selectionKey fl charges hbmCapacityBytes a < s.selectionKey fl charges hbmCapacityBytes b)

/-- The runnable workflow with the least key. -/
def select (runnable : Finset String) (charges : String → ℚ) (hbmCapacityBytes : ℤ) :
    WorkflowFairScheduler × Option String :=
  let t := s.enrollAll runnable
  (t,leastOf (t.comesBefore fl charges hbmCapacityBytes) (Dict.sorted runnable))

/-- The allocatable bytes, divided among the active workflows by weight. -/
def fairMemoryShares (active : Finset String) (allocatableBytes : ℤ) : WorkflowFairScheduler × (String → ℚ) :=
  let t := s.enrollAll active
  let totalWeight := (Dict.sorted active).foldl (fun sum workflowId => fl (sum + (t.account workflowId).weight)) 0
  (t,fun workflowId => fl (fl (fl allocatableBytes * (t.account workflowId).weight) / totalWeight))

theorem comesBefore_iff (charges : String → ℚ) (hbmCapacityBytes : ℤ) (a b : String) :
    s.comesBefore fl charges hbmCapacityBytes a b = true ↔
      s.selectionKey fl charges hbmCapacityBytes a < s.selectionKey fl charges hbmCapacityBytes b :=
  decide_eq_true_iff

variable {s}

/-- What is selected is runnable. -/
theorem select_mem {runnable : Finset String} {charges : String → ℚ} {hbmCapacityBytes : ℤ} {w : String}
    (h : (s.select fl runnable charges hbmCapacityBytes).2 = some w) : w ∈ runnable := by
  have hmem := (leastOf_spec ((s.enrollAll runnable).comesBefore_iff fl charges hbmCapacityBytes) h).1
  exact (Dict.mem_sorted _ _).mp hmem

/-- Nothing is selected only where nothing is runnable. -/
theorem select_eq_none {runnable : Finset String} {charges : String → ℚ} {hbmCapacityBytes : ℤ}
    (h : (s.select fl runnable charges hbmCapacityBytes).2 = none) : runnable = ∅ := by
  have hnil := (leastOf_eq_none ((s.enrollAll runnable).comesBefore_iff fl charges hbmCapacityBytes) _).mp h
  refine Finset.eq_empty_of_forall_notMem fun w hw => ?_
  have hmem := (Dict.mem_sorted runnable w).mpr hw
  rw [hnil] at hmem
  cases hmem

end WorkflowFairScheduler
end BeliefKV
