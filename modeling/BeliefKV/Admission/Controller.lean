import BeliefKV.Admission.Index
import BeliefKV.Admission.Fairness

/-! Workflow-fair admission: which pending request is admitted next, and what is reserved for it. -/
namespace BeliefKV
open Least

def AdmissionRequest.estimatedWorkingSetBytes (r : AdmissionRequest) : ℕ :=
  (r.promptTokens.getD r.uncachedPromptTokens + r.expectedOutputTokens) * r.kvBytesPerToken + r.fixedOverheadBytes

structure AdmissionDecision where
  requestId : String
  admitted : Bool
  reason : String
  reservedBytes : ℕ := 0
  requiredBytes : ℕ := 0
  nativeReclaimCapacityBytes : ℤ := 0

/-- Requests are kept under their ids. -/
structure AdmissionController where
  fairness : WorkflowFairScheduler
  reserveHbmBytes : ℕ
  maxBorrowFraction : ℚ
  pending : Dict String AdmissionRequest := ∅
  reserved : Dict String AdmissionRequest := ∅
  revision : ℕ := 0
  fraction_range : 0 ≤ maxBorrowFraction ∧ maxBorrowFraction ≤ 1

/-- The arguments of `decideNext`, and what it reads from the page index and from the causal frontier. -/
structure DecideCall where
  hbmCapacityBytes : ℤ
  actualHbmUsedBytes : Option ℤ := none
  externalWorkflowCharges : Dict String ℚ := ∅
  allowReserveBorrow : Bool := false
  preferredRequestId : Option String := none
  nativeReclaimCapacityBytes : Option ℤ := none
  gpuBytes : ℕ := 0
  workflowGpuCharges : Dict String ℚ := ∅
  /-- The invocations of a workflow that are ready, in causal order. -/
  candidates : String → List String := fun _ => []

namespace DecideCall
variable (fl : ℚ → ℚ) (call : DecideCall)

def physicalUsed : ℤ := max call.gpuBytes (call.actualHbmUsedBytes.getD 0)

/-- What a workflow is charged with, here and elsewhere. -/
def charges (workflowId : String) : ℚ :=
  match call.externalWorkflowCharges[workflowId]? with
  | none => call.workflowGpuCharges[workflowId]?.getD 0
  | some charge => fl (call.workflowGpuCharges[workflowId]?.getD 0 + max 0 charge)

/-- The places of the ready invocations. An invocation that is listed twice has its last place. -/
def frontierOrder (workflowId : String) : Dict String ℕ :=
  (call.candidates workflowId).zipIdx.foldl (fun order item => order.insert item.1 item.2) ∅

end DecideCall

namespace AdmissionController
variable (fl : ℚ → ℚ) (s : AdmissionController)

/-! ## The queue -/

def enqueue (request : AdmissionRequest) : Except Raised AdmissionController := do
  ensure (request.requestId ∉ s.pending ∧ request.requestId ∉ s.reserved)
    (.valueError ("duplicate request id: " ++ request.requestId))
  .ok { s with
    pending := s.pending.insert request.requestId request
    fairness := s.fairness.enroll request.workflowId 1
    revision := s.revision + 1 }

def cancel (requestId : String) : AdmissionController :=
  if requestId ∈ s.pending ∨ requestId ∈ s.reserved then
    { s with
      pending := s.pending.erase requestId
      reserved := s.reserved.erase requestId
      revision := s.revision + 1 }
  else s

/-- Refresh a deferred request after the physical prefix tree changes. -/
def updatePendingEstimate (requestId : String) (uncachedPromptTokens : ℤ) :
    Except Raised (AdmissionController × AdmissionRequest) := do
  ensure (0 ≤ uncachedPromptTokens) (.valueError "uncached_prompt_tokens must be non-negative")
  match s.pending[requestId]? with
  | none => .error (.keyError ("request is not pending: " ++ requestId))
  | some request =>
    let updated := { request with uncachedPromptTokens := uncachedPromptTokens.toNat }
    .ok ({ s with
      pending := s.pending.insert requestId updated
      revision := if updated = request then s.revision else s.revision + 1 },updated)

def acknowledge (requestId : String) : Except Raised (AdmissionController × ℕ) :=
  match s.reserved[requestId]? with
  | none => .error (.keyError ("request has no admission reservation: " ++ requestId))
  | some request =>
    .ok ({ s with reserved := s.reserved.erase requestId, revision := s.revision + 1 },
      request.estimatedIncrementalBytes)

def reserve (request : AdmissionRequest) : AdmissionController :=
  { s with
    pending := s.pending.erase request.requestId
    reserved := s.reserved.insert request.requestId request
    revision := s.revision + 1 }

def withFairness (fairness : WorkflowFairScheduler) : AdmissionController := { s with fairness := fairness }

def reservedBytes : ℕ := (s.reserved.vals.map (·.estimatedIncrementalBytes)).sum

/-! ## What fits -/

section Fit
variable (call : DecideCall)

def allocatable : ℤ := max 0 (call.hbmCapacityBytes - s.reserveHbmBytes)

def free : ℤ := max 0 (s.allocatable call - call.physicalUsed - s.reservedBytes)

/-- What is free when the reserve is borrowed. -/
def hardFree : ℤ := max 0 (call.hbmCapacityBytes - call.physicalUsed - s.reservedBytes)

def fittingRequests (availableBytes : ℤ) : List AdmissionRequest :=
  s.pending.vals.filter fun r => (r.estimatedIncrementalBytes : ℤ) ≤ availableBytes

/-- The reserve is borrowed if nothing fits without it and something fits with it. -/
def borrowedReserve : Bool :=
  s.fittingRequests (s.free call) = [] && call.allowReserveBorrow && s.fittingRequests (s.hardFree call) ≠ []

/-- The requests among which one is chosen. -/
def fitting : List AdmissionRequest :=
  if s.borrowedReserve call then s.fittingRequests (s.hardFree call) else s.fittingRequests (s.free call)

/-! ## Shares -/

def workflows : Finset String := (s.pending.vals.map (·.workflowId)).toFinset

def shares : String → ℚ := (s.fairness.fairMemoryShares fl s.workflows (s.allocatable call)).2

/-- With a request its workflow is charged with no more than its share. -/
def withinShare (r : AdmissionRequest) : Bool :=
  fl (call.charges fl r.workflowId + fl r.estimatedIncrementalBytes) ≤ s.shares fl call r.workflowId

def borrowLimit : ℚ := fl (fl (s.allocatable call) * s.maxBorrowFraction)

/-- With a request its workflow is charged with no more than its share and the borrow limit. -/
def withinBorrow (r : AdmissionRequest) : Bool :=
  fl (call.charges fl r.workflowId + fl r.estimatedIncrementalBytes) ≤
    fl (s.shares fl call r.workflowId + s.borrowLimit fl call)

/-- The workflows of some requests. -/
def workflowsOf (requests : List AdmissionRequest) : Finset String := (requests.map (·.workflowId)).toFinset

/-- The workflows with a fitting request within their share; if there are none, those with a fitting
request within the borrow limit; if there are none either, all. -/
def eligibleWorkflows : Finset String :=
  if (s.fitting call).any (s.withinShare fl call) then workflowsOf ((s.fitting call).filter (s.withinShare fl call))
  else if (s.fitting call).any (s.withinBorrow fl call) then
    workflowsOf ((s.fitting call).filter (s.withinBorrow fl call))
  else workflowsOf (s.fitting call)

end Fit

/-! ## The decision -/

/-- The place of a request in the causal order, and among those that have one place. -/
def causalKey (order : Dict String ℕ) (r : AdmissionRequest) : ℕ ×ₗ ℚ ×ₗ String :=
  toLex (order[r.invocationId]?.getD (2 ^ 30),toLex (r.submittedTsMs,r.requestId))

def causallyBefore (order : Dict String ℕ) (a b : AdmissionRequest) : Bool :=
  decide (causalKey order a < causalKey order b)

def submissionKey (r : AdmissionRequest) : ℚ ×ₗ String := toLex (r.submittedTsMs,r.requestId)

def submittedBefore (a b : AdmissionRequest) : Bool := decide (submissionKey a < submissionKey b)

def noMinimum : Raised := .valueError "min() iterable argument is empty"

section Decide
variable (call : DecideCall)

def granted (r : AdmissionRequest) (reason : String) (native : ℤ) : AdmissionDecision where
  requestId := r.requestId
  admitted := true
  reason := reason
  reservedBytes := r.estimatedIncrementalBytes
  requiredBytes := r.estimatedIncrementalBytes
  nativeReclaimCapacityBytes := native

def denied (r : AdmissionRequest) (reason : String) (native : ℤ) : AdmissionDecision where
  requestId := r.requestId
  admitted := false
  reason := reason
  requiredBytes := r.estimatedIncrementalBytes
  nativeReclaimCapacityBytes := native

/-- The preferred request borrows the reserve if it does not fit otherwise. -/
def preferredBorrows (preferred : AdmissionRequest) : Bool :=
  s.free call < preferred.estimatedIncrementalBytes && call.allowReserveBorrow

def decidePreferred (preferred : AdmissionRequest) : AdmissionController × AdmissionDecision :=
  let required : ℤ := preferred.estimatedIncrementalBytes
  let preferredFree := if s.preferredBorrows call preferred then s.hardFree call else s.free call
  if preferredFree < required then
    match call.nativeReclaimCapacityBytes with
    | none => (s,denied preferred "insufficient_actual_hbm" 0)
    | some native =>
      if call.hbmCapacityBytes < preferred.estimatedWorkingSetBytes then
        (s,denied preferred "request_exceeds_hbm_capacity" native)
      -- The engine refuses a request that needs all of the native capacity.
      else if required < native then
        (s.reserve preferred,granted preferred "admission_liveness_native_reclaim" native)
      else (s,denied preferred "insufficient_native_reclaim_capacity" native)
  else if s.preferredBorrows call preferred then
    (s.reserve preferred,granted preferred "admission_liveness_reserve_borrow" 0)
  else (s.reserve preferred,granted preferred "admission_liveness_target" 0)

/-- Nothing fits: the oldest pending request is turned down. -/
def decideOldest : Except Raised AdmissionDecision :=
  match leastOf submittedBefore s.pending.vals with
  | none => .error noMinimum
  | some oldest => .ok (denied oldest "insufficient_actual_hbm" 0)

/-- The first request of a workflow in the causal order is admitted. -/
def decideWithin (requests : List AdmissionRequest) (borrowed : Bool) (workflowId : String) :
    AdmissionController × Except Raised AdmissionDecision :=
  match leastOf (causallyBefore (call.frontierOrder workflowId)) (requests.filter (·.workflowId = workflowId)) with
  | none => (s,.error noMinimum)
  | some selected => (s.reserve selected,.ok (granted selected
      (if borrowed then "engine_idle_reserve_borrow" else "workflow_fair_causal_frontier") 0))

/-- A workflow is chosen among some that are eligible. -/
def decideAmong (eligible : Finset String) (requests : List AdmissionRequest) (borrowed : Bool) :
    AdmissionController × Except Raised AdmissionDecision :=
  let chosen := s.fairness.select fl eligible (call.charges fl) call.hbmCapacityBytes
  match chosen.2 with
  | none => (s.withFairness chosen.1,.error (.assertionError ""))
  | some workflowId => (s.withFairness chosen.1).decideWithin call requests borrowed workflowId

/-- The preferred request of a call, if it is pending. -/
def preferredRequest : Option AdmissionRequest := call.preferredRequestId.bind fun id => s.pending[id]?

/-- The shares are computed first, which registers the workflows. -/
def registered : AdmissionController :=
  s.withFairness (s.fairness.fairMemoryShares fl s.workflows (s.allocatable call)).1

def decideNext : AdmissionController × Except Raised (Option AdmissionDecision) :=
  if s.pending = ∅ then (s,.ok none)
  else if call.nativeReclaimCapacityBytes.any (· < 0) then
    (s,.error (.valueError "native reclaim capacity must be non-negative or null"))
  else
    match s.preferredRequest call with
    | some preferred =>
      let decided := (s.registered fl call).decidePreferred call preferred
      (decided.1,.ok (some decided.2))
    | none =>
      if s.fitting call = [] then (s.registered fl call,(s.decideOldest).map some)
      else
        let decided := (s.registered fl call).decideAmong fl call (s.eligibleWorkflows fl call) (s.fitting call)
          (s.borrowedReserve call)
        (decided.1,decided.2.map some)

end Decide

/-! ## Runs -/

/-- A call of the controller, or of the fair scheduler by another component. -/
inductive Call
  | enqueue (request : AdmissionRequest)
  | cancel (requestId : String)
  | update (requestId : String) (uncachedPromptTokens : ℤ)
  | decideNext (call : DecideCall)
  | acknowledge (requestId : String)
  | register (workflowId : String) (weight : ℚ)
  | chargeService (workflowId : String) (serviceMs : ℚ)
  | select (runnable : Finset String) (charges : String → ℚ) (hbmCapacityBytes : ℤ)

/-- The state after a part of a call that leaves it alone if it raises. -/
def afterward {A : Type} (outcome : Except Raised A) (state : A → AdmissionController) : AdmissionController :=
  match outcome with
  | .ok a => state a
  | .error _ => s

/-- The state after a call. -/
def step : Call → AdmissionController
  | .enqueue request => s.afterward (s.enqueue request) id
  | .cancel requestId => s.cancel requestId
  | .update requestId tokens => s.afterward (s.updatePendingEstimate requestId tokens) Prod.fst
  | .decideNext call => (s.decideNext fl call).1
  | .acknowledge requestId => s.afterward (s.acknowledge requestId) Prod.fst
  | .register workflowId weight => s.afterward (s.fairness.register workflowId weight) s.withFairness
  | .chargeService workflowId serviceMs =>
    s.afterward (s.fairness.chargeService fl workflowId serviceMs) s.withFairness
  | .select runnable charges capacity => s.withFairness (s.fairness.select fl runnable charges capacity).1

/-- A controller as it is constructed. -/
def fresh (fairness : WorkflowFairScheduler) (reserveHbmBytes : ℕ) (maxBorrowFraction : ℚ)
    (h : 0 ≤ maxBorrowFraction ∧ maxBorrowFraction ≤ 1) : AdmissionController where
  fairness := fairness
  reserveHbmBytes := reserveHbmBytes
  maxBorrowFraction := maxBorrowFraction
  fraction_range := h

def run (start : AdmissionController) (calls : List Call) : AdmissionController := calls.foldl (step fl) start

end AdmissionController
end BeliefKV
