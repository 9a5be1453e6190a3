import Mathlib.Data.String.Basic
import BeliefKV.Lib.Waves
import BeliefKV.Protocol

/-! The records of a frozen workload, and what their constructors check. -/
namespace BeliefKV.FrozenWorkload

/-- A value of a document. A float that is not finite is turned down by all constructors, so that only finite ones
are represented. -/
inductive PyValue
  | null
  | bool (b : Bool)
  | int (n : ℤ)
  | float (x : ℚ)
  | str (text : String)
  | list (items : List PyValue)
  | dict (entries : List (String × PyValue))

abbrev PyDict := List (String × PyValue)

/-! ## Sorting -/

section Sorting
variable {A : Type} {key : A → String} {l : List A}

def sortedBy (key : A → String) (l : List A) : List A := l.insertionSort fun a b => key a ≤ key b

theorem sortedBy_perm : (sortedBy key l).Perm l := l.perm_insertionSort _

@[simp] theorem mem_sortedBy {a : A} : a ∈ sortedBy key l ↔ a ∈ l := sortedBy_perm.mem_iff

@[simp] theorem sortedBy_sortedBy : sortedBy key (sortedBy key l) = sortedBy key l := by
  have : Std.Total fun a b : A => key a ≤ key b := ⟨fun a b => le_total (key a) (key b)⟩
  have : IsTrans A fun a b => key a ≤ key b := ⟨fun a b c => le_trans⟩
  exact (List.pairwise_insertionSort (fun a b : A => key a ≤ key b) l).insertionSort_eq

end Sorting

abbrev sortedIds (ids : List String) : List String := sortedBy (fun id => id) ids

theorem nodup_sortedIds {ids : List String} : (sortedIds ids).Nodup ↔ ids.Nodup := sortedBy_perm.nodup_iff

/-! ## Requests -/

structure RequestArguments where
  requestId : String
  workflowId : String
  invocationId : String
  contextId : String
  contextEpoch : ℤ
  predecessorRequestIds : List String
  releaseDelayMs : ℚ
  uncachedPromptTokens : ℤ
  outputTokens : ℤ
  startupBytes : ℤ
  kvGrowthBytes : ℤ
  requiredBundleIds : List String := []
  actionBoundaryTokenIndex : Option ℤ := none
  toolDurationMs : ℚ := 0
  observedCacheHitTokens : ℤ := 0
  promptTokenSymbols : List ℤ := []
  cacheCommitTokenSymbols : List ℤ := []
  partialCacheCommitTokenSymbols : List (List ℤ) := []

namespace RequestArguments
variable (r : RequestArguments)

def names : List (String × String) :=
  [("request_id",r.requestId),("workflow_id",r.workflowId),("invocation_id",r.invocationId),("context_id",r.contextId)]

def checkName (field : String × String) : Except Raised Unit :=
  ensure (field.2 ≠ "") (.valueError (field.1 ++ " must be non-empty"))

def numeric : List ℚ :=
  [r.releaseDelayMs,r.uncachedPromptTokens,r.outputTokens,r.startupBytes,r.kvGrowthBytes,r.toolDurationMs,
    r.observedCacheHitTokens]

/-- The least integer that is rounded to infinity. -/
def floatBound : ℚ := 2 ^ 1024 - 2 ^ 970

def checkNumber (value : ℚ) : Except Raised Unit := do
  ensure (|value| < floatBound) (.overflowError "int too large to convert to float")
  ensure (0 ≤ value) (.valueError "frozen request demand must be finite and non-negative")

/-- The longest hit that a request can have seen. -/
def hitBound : ℤ :=
  if r.promptTokenSymbols ≠ [] then r.promptTokenSymbols.length else r.uncachedPromptTokens + r.observedCacheHitTokens

def shared : ℕ := min r.promptTokenSymbols.length r.cacheCommitTokenSymbols.length

/-- The symbols are unsigned integers of 64 bits. -/
def Unsigned (symbols : List ℤ) : Prop := ∀ symbol ∈ symbols, 0 ≤ symbol ∧ symbol < 2 ^ 64

instance : DecidablePred Unsigned := fun symbols => List.decidableBAll _ symbols

def checkPaths : Except Raised Unit := do
  ensure (∀ path ∈ r.promptTokenSymbols :: r.cacheCommitTokenSymbols :: r.partialCacheCommitTokenSymbols, Unsigned path)
    (.valueError "token symbols must be unsigned 64-bit integers")
  ensure (r.cacheCommitTokenSymbols ≠ [] ∧ r.promptTokenSymbols ≠ [] →
      r.cacheCommitTokenSymbols.take r.shared = r.promptTokenSymbols.take r.shared)
    (.valueError "cache commit path does not extend the request prompt")
  ensure (∀ path ∈ r.partialCacheCommitTokenSymbols, r.cacheCommitTokenSymbols ≠ [] →
      r.cacheCommitTokenSymbols.take path.length = path)
    (.valueError "partial cache commit is not a final-path prefix")

def check : Except Raised Unit := do
  r.names.forM checkName
  ensure (0 ≤ r.contextEpoch) (.valueError "context_epoch must be non-negative")
  ensure r.predecessorRequestIds.Nodup (.valueError "request predecessors must be unique")
  ensure r.requiredBundleIds.Nodup (.valueError "required bundle IDs must be unique")
  r.numeric.forM checkNumber
  ensure (r.kvGrowthBytes ≤ r.startupBytes) (.valueError "KV growth cannot exceed the request startup reservation")
  ensure (∀ index ∈ r.actionBoundaryTokenIndex, 0 ≤ index ∧ index ≤ r.outputTokens)
    (.valueError "action boundary must lie within frozen output demand")
  ensure (r.observedCacheHitTokens ≤ r.hitBound) (.valueError "observed cache hit exceeds the prompt token path")
  r.checkPaths

def sorted : RequestArguments :=
  { r with
    predecessorRequestIds := sortedIds r.predecessorRequestIds
    requiredBundleIds := sortedIds r.requiredBundleIds }

theorem sorted_sorted : r.sorted.sorted = r.sorted := by
  unfold sorted
  simp only [sortedBy_sortedBy]

/-- The order of the ids is not checked. -/
theorem check_sorted : r.sorted.check = r.check := by
  unfold check
  have hpreds : r.sorted.predecessorRequestIds.Nodup ↔ r.predecessorRequestIds.Nodup := nodup_sortedIds
  have hbundles : r.sorted.requiredBundleIds.Nodup ↔ r.requiredBundleIds.Nodup := nodup_sortedIds
  simp only [hpreds,hbundles]
  rfl

end RequestArguments

/-- A request that its constructor has accepted. -/
structure FrozenRequestDemand extends RequestArguments where
  accepted : toRequestArguments.check = .ok ()
  ordered : toRequestArguments.sorted = toRequestArguments

def FrozenRequestDemand.new (r : RequestArguments) : Except Raised FrozenRequestDemand :=
  match h : r.check with
  | .error e => .error e
  | .ok () => .ok ⟨r.sorted,r.check_sorted.trans h,r.sorted_sorted⟩

/-- A request is what its constructor makes of its own fields. -/
theorem FrozenRequestDemand.new_self (r : FrozenRequestDemand) : new r.toRequestArguments = .ok r := by
  unfold new
  split
  · next e h => exact absurd (r.accepted.symm.trans h) (by simp)
  · rw [Except.ok.injEq]
    obtain ⟨r,haccepted,hordered⟩ := r
    simp only [hordered]

theorem FrozenRequestDemand.predecessors_nodup (r : FrozenRequestDemand) : r.predecessorRequestIds.Nodup := by
  have h := r.accepted
  unfold RequestArguments.check at h
  obtain ⟨_,-,h⟩ := bind_eq_ok.mp h
  obtain ⟨_,-,h⟩ := bind_eq_ok.mp h
  obtain ⟨_,hpreds,-⟩ := bind_eq_ok.mp h
  exact ensure_eq_ok.mp hpreds

theorem FrozenRequestDemand.checkPaths (r : FrozenRequestDemand) : r.toRequestArguments.checkPaths = .ok () := by
  have h := r.accepted
  unfold RequestArguments.check at h
  iterate 8 obtain ⟨_,-,h⟩ := bind_eq_ok.mp h
  exact h

/-- What is written of a path can be read again. -/
theorem FrozenRequestDemand.unsigned (r : FrozenRequestDemand) :
    ∀ path ∈ r.promptTokenSymbols :: r.cacheCommitTokenSymbols :: r.partialCacheCommitTokenSymbols,
      RequestArguments.Unsigned path := by
  have h := r.checkPaths
  unfold RequestArguments.checkPaths at h
  obtain ⟨_,hpaths,-⟩ := bind_eq_ok.mp h
  exact ensure_eq_ok.mp hpaths

theorem FrozenRequestDemand.delay_nonneg (r : FrozenRequestDemand) : 0 ≤ r.releaseDelayMs := by
  have h := r.accepted
  unfold RequestArguments.check at h
  iterate 4 obtain ⟨_,-,h⟩ := bind_eq_ok.mp h
  obtain ⟨_,hnumeric,-⟩ := bind_eq_ok.mp h
  have hdelay := forM_ok_iff.mp hnumeric r.releaseDelayMs List.mem_cons_self
  unfold RequestArguments.checkNumber at hdelay
  obtain ⟨_,-,hdelay⟩ := bind_eq_ok.mp hdelay
  exact ensure_eq_ok.mp hdelay

/-! ## Workflows -/

structure WorkflowArguments where
  workflowId : String
  releaseMs : ℚ
  terminalRequestIds : List String
  completionDelayMs : ℚ := 0

namespace WorkflowArguments
variable (f : WorkflowArguments)

def check : Except Raised Unit := do
  ensure (f.workflowId ≠ "" ∧ f.terminalRequestIds ≠ [])
    (.valueError "workflow and terminal request IDs must be non-empty")
  ensure f.terminalRequestIds.Nodup (.valueError "terminal request IDs must be unique")
  ensure (0 ≤ f.releaseMs ∧ 0 ≤ f.completionDelayMs)
    (.valueError "workflow timing must be finite and non-negative")

def sorted : WorkflowArguments := { f with terminalRequestIds := sortedIds f.terminalRequestIds }

theorem sorted_sorted : f.sorted.sorted = f.sorted := by
  unfold sorted
  simp only [sortedBy_sortedBy]

theorem check_sorted : f.sorted.check = f.check := by
  unfold check
  have hids : f.sorted.terminalRequestIds.Nodup ↔ f.terminalRequestIds.Nodup := nodup_sortedIds
  have hlength : f.sorted.terminalRequestIds.length = f.terminalRequestIds.length := sortedBy_perm.length_eq
  have hnil : f.sorted.terminalRequestIds = [] ↔ f.terminalRequestIds = [] := by
    rw [← List.length_eq_zero_iff,hlength,List.length_eq_zero_iff]
  simp only [hids,hnil,ne_eq]
  rfl

end WorkflowArguments

/-- A workflow that its constructor has accepted. -/
structure FrozenWorkflowDemand extends WorkflowArguments where
  accepted : toWorkflowArguments.check = .ok ()
  ordered : toWorkflowArguments.sorted = toWorkflowArguments

def FrozenWorkflowDemand.new (f : WorkflowArguments) : Except Raised FrozenWorkflowDemand :=
  match h : f.check with
  | .error e => .error e
  | .ok () => .ok ⟨f.sorted,f.check_sorted.trans h,f.sorted_sorted⟩

theorem FrozenWorkflowDemand.new_self (f : FrozenWorkflowDemand) : new f.toWorkflowArguments = .ok f := by
  unfold new
  split
  · next e h => exact absurd (f.accepted.symm.trans h) (by simp)
  · rw [Except.ok.injEq]
    obtain ⟨f,haccepted,hordered⟩ := f
    simp only [hordered]

theorem FrozenWorkflowDemand.terminals_ne_nil (f : FrozenWorkflowDemand) : f.terminalRequestIds ≠ [] := by
  have h := f.accepted
  unfold WorkflowArguments.check at h
  obtain ⟨_,hnamed,-⟩ := bind_eq_ok.mp h
  exact (ensure_eq_ok.mp hnamed).2

/-! ## Cycles -/

section Cycles
variable (requests : List FrozenRequestDemand)

def predecessors (id : String) : List String :=
  ((requests.find? (·.requestId = id)).map (·.predecessorRequestIds)).getD []

def successors (id : String) : List String :=
  requests.flatMap fun r => (r.predecessorRequestIds.filter (· = id)).map fun _ => r.requestId

def assertAcyclic : Except Raised Unit :=
  let indegree (id : String) : ℤ := (predecessors requests id).length
  let ready := sortedIds ((requests.map (·.requestId)).filter fun id => indegree id = 0)
  ensure (Precedence.drain (successors requests) requests.length ready indegree 0 = requests.length)
    (.valueError "frozen request dependencies contain a cycle")

/-- The one request is a predecessor of the other. -/
def Before (p id : String) : Prop := ∃ r ∈ requests, r.requestId = id ∧ p ∈ r.predecessorRequestIds

end Cycles
section Cycles
variable {requests : List FrozenRequestDemand} (hids : (requests.map (·.requestId)).Nodup)
include hids

theorem predecessors_of_mem {r : FrozenRequestDemand} (hr : r ∈ requests) :
    predecessors requests r.requestId = r.predecessorRequestIds := by
  have hfind : requests.find? (·.requestId = r.requestId) = some r := (find?_eq_some_iff hids).mpr ⟨hr,rfl⟩
  rw [predecessors,hfind]
  rfl

theorem precedes_eq : Precedence.Precedes (requests.map (·.requestId)).toFinset
    (fun id => (predecessors requests id).toFinset) = Before requests := by
  funext p id
  apply propext
  unfold Precedence.Precedes Before
  rw [List.mem_toFinset,List.mem_toFinset]
  constructor
  · rintro ⟨hid,hp⟩
    obtain ⟨r,hr,rfl⟩ := List.mem_map.mp hid
    rw [predecessors_of_mem hids hr] at hp
    exact ⟨r,hr,rfl,hp⟩
  · rintro ⟨r,hr,rfl,hp⟩
    rw [predecessors_of_mem hids hr]
    exact ⟨List.mem_map_of_mem hr,hp⟩

omit hids in
theorem successors_eq (id : String) :
    successors requests id = (requests.filter fun r => id ∈ r.predecessorRequestIds).map (·.requestId) := by
  induction requests with
  | nil => rfl
  | cons r requests ih =>
    have hone : (r.predecessorRequestIds.filter (· = id)).map (fun _ => r.requestId) =
        if id ∈ r.predecessorRequestIds then [r.requestId] else [] := by
      rw [List.filter_eq,r.predecessors_nodup.count]
      split_ifs <;> rfl
    rw [successors,List.flatMap_cons,hone,List.filter_cons]
    unfold successors at ih
    rw [ih]
    split_ifs <;> simp_all

omit hids in
theorem predecessors_nodup (id : String) : (predecessors requests id).Nodup := by
  unfold predecessors
  cases requests.find? (·.requestId = id) with
  | none => exact List.nodup_nil
  | some r => exact r.predecessors_nodup

/-- The check accepts exactly the requests of which none comes before itself. -/
theorem assertAcyclic_iff
    (hknown : ∀ r ∈ requests, ∀ p ∈ r.predecessorRequestIds, p ∈ requests.map (·.requestId)) :
    assertAcyclic requests = .ok () ↔ Forest.Acyclic (Before requests) := by
  have hcard : (requests.map (·.requestId)).toFinset.card = requests.length := by
    rw [List.toFinset_card_of_nodup hids,List.length_map]
  have hnodup (id : String) : (successors requests id).Nodup := by
    rw [successors_eq]
    exact hids.sublist (List.filter_sublist.map _)
  have hmem (a b : String) : b ∈ successors requests a ↔
      b ∈ (requests.map (·.requestId)).toFinset ∧ a ∈ (predecessors requests b).toFinset := by
    change _ ↔ Precedence.Precedes (requests.map (·.requestId)).toFinset
      (fun id => (predecessors requests id).toFinset) a b
    rw [precedes_eq hids,successors_eq,List.mem_map,Before]
    simp only [List.mem_filter,decide_eq_true_eq]
    exact ⟨fun ⟨r,⟨hr,ha⟩,hb⟩ => ⟨r,hr,hb,ha⟩,fun ⟨r,hr,hb,ha⟩ => ⟨r,⟨hr,ha⟩,hb⟩⟩
  have hnodes : ∀ a ∈ (requests.map (·.requestId)).toFinset, ∀ b ∈ (predecessors requests a).toFinset,
      b ∈ (requests.map (·.requestId)).toFinset := by
    intro a ha b hb
    obtain ⟨r,hr,rfl⟩ := List.mem_map.mp (List.mem_toFinset.mp ha)
    rw [List.mem_toFinset,predecessors_of_mem hids hr] at hb
    exact List.mem_toFinset.mpr (hknown r hr b hb)
  have hindegree : (fun id => ((predecessors requests id).length : ℤ)) =
      fun id => ((predecessors requests id).toFinset.card : ℤ) := by
    funext id
    rw [List.toFinset_card_of_nodup (predecessors_nodup id)]
  have hready : (sortedIds ((requests.map (·.requestId)).filter fun id =>
        ((predecessors requests id).length : ℤ) = 0)).toFinset =
      (requests.map (·.requestId)).toFinset.filter fun id => ((predecessors requests id).toFinset.card : ℤ) = 0 := by
    rw [List.toFinset_eq_of_perm _ _ sortedBy_perm,List.toFinset_filter]
    refine Finset.filter_congr fun id _ => ?_
    rw [decide_eq_true_eq,congrFun hindegree id]
  have hstart : Precedence.Frontier (requests.map (·.requestId)).toFinset
    (fun id => (predecessors requests id).toFinset) [] (fun id => ((predecessors requests id).toFinset.card : ℤ))
    ((requests.map (·.requestId)).toFinset.filter fun id => ((predecessors requests id).toFinset.card : ℤ) = 0) :=
    .start
  rw [← hready,← hindegree] at hstart
  have hiff := Precedence.drain_eq_iff hnodup hmem hnodes hstart (nodup_sortedIds.mpr (hids.filter _))
  rw [hcard,precedes_eq hids] at hiff
  unfold assertAcyclic
  rw [ensure_eq_ok]
  exact hiff

end Cycles

/-! ## Workloads -/

structure WorkloadArguments where
  traceId : String
  transitionHash : String
  traceSensitivity : String
  requests : List FrozenRequestDemand
  workflows : List FrozenWorkflowDemand
  semanticEventsFrozen : Bool := true
  tokenDemandFrozen : Bool := true
  toolDurationFrozen : Bool := true
  futurePhysicalGrowthExact : Bool := false
  prefixIdentityComplete : Bool := false
  initialRadixStateKnown : Bool := false
  metadata : PyDict := []

namespace WorkloadArguments
variable (w : WorkloadArguments)

def sensitivities : List String := ["schedule_invariant","timing_sensitive","semantic_race_sensitive"]

def requestIds : List String := w.requests.map (·.requestId)

def workflowIds : List String := w.workflows.map (·.workflowId)

/-- The text of a set; its elements come in an order that is not known. -/
def setText (items : List String) : String :=
  "\x7b" ++ ", ".intercalate (items.map fun item => "'" ++ item ++ "'") ++ "\x7d"

def checkRequest (r : FrozenRequestDemand) : Except Raised Unit := do
  ensure (r.workflowId ∈ w.workflowIds) (.valueError ("request has unknown workflow: " ++ r.requestId))
  let unknown := r.predecessorRequestIds.filter fun id => id ∉ w.requestIds
  ensure (unknown = [])
    (.valueError ("request " ++ r.requestId ++ " has unknown predecessors: " ++ setText unknown))
  ensure (w.prefixIdentityComplete = true → r.promptTokenSymbols ≠ [] ∧ r.cacheCommitTokenSymbols ≠ [])
    (.valueError "complete prefix identity requires prompt and final cache paths")

def checkWorkflow (f : FrozenWorkflowDemand) : Except Raised Unit :=
  f.terminalRequestIds.forM fun id =>
    ensure (∃ r ∈ w.requests, r.requestId = id ∧ r.workflowId = f.workflowId)
      (.valueError "workflow terminal request identity is invalid")

/-- All that is checked before the cycles. -/
def checkReferences : Except Raised Unit := do
  ensure (w.traceId ≠ "" ∧ w.transitionHash ≠ "") (.valueError "frozen workload IDs must be non-empty")
  ensure (w.traceSensitivity ∈ sensitivities) (.valueError "invalid trace sensitivity")
  ensure w.requestIds.Nodup (.valueError "frozen request IDs must be unique")
  ensure w.workflowIds.Nodup (.valueError "frozen workflow IDs must be unique")
  w.requests.forM w.checkRequest
  w.workflows.forM w.checkWorkflow

def check : Except Raised Unit := do
  w.checkReferences
  assertAcyclic w.requests

def sorted : WorkloadArguments :=
  { w with
    requests := sortedBy (·.requestId) w.requests
    workflows := sortedBy (·.workflowId) w.workflows }

theorem sorted_sorted : w.sorted.sorted = w.sorted := by
  unfold sorted
  simp only [sortedBy_sortedBy]

/-- What holds of a workload that refers to its own requests and workflows. -/
structure Consistent : Prop where
  named : w.traceId ≠ "" ∧ w.transitionHash ≠ ""
  sensitivity : w.traceSensitivity ∈ sensitivities
  requests_unique : w.requestIds.Nodup
  workflows_unique : w.workflowIds.Nodup
  requests_ok : ∀ r ∈ w.requests, w.checkRequest r = .ok ()
  workflows_ok : ∀ f ∈ w.workflows, w.checkWorkflow f = .ok ()

variable {w}

theorem checkReferences_iff : w.checkReferences = .ok () ↔ w.Consistent := by
  unfold checkReferences
  constructor
  · intro h
    obtain ⟨_,hnamed,h⟩ := bind_eq_ok.mp h
    obtain ⟨_,hsensitivity,h⟩ := bind_eq_ok.mp h
    obtain ⟨_,hrequests,h⟩ := bind_eq_ok.mp h
    obtain ⟨_,hworkflows,h⟩ := bind_eq_ok.mp h
    obtain ⟨_,hrequest,hworkflow⟩ := bind_eq_ok.mp h
    exact ⟨ensure_eq_ok.mp hnamed,ensure_eq_ok.mp hsensitivity,ensure_eq_ok.mp hrequests,ensure_eq_ok.mp hworkflows,
      forM_ok_iff.mp hrequest,forM_ok_iff.mp hworkflow⟩
  · intro h
    refine bind_eq_ok.mpr ⟨(),ensure_eq_ok.mpr h.named,bind_eq_ok.mpr ⟨(),ensure_eq_ok.mpr h.sensitivity,?_⟩⟩
    refine bind_eq_ok.mpr ⟨(),ensure_eq_ok.mpr h.requests_unique,?_⟩
    refine bind_eq_ok.mpr ⟨(),ensure_eq_ok.mpr h.workflows_unique,?_⟩
    exact bind_eq_ok.mpr ⟨(),forM_ok_iff.mpr h.requests_ok,forM_ok_iff.mpr h.workflows_ok⟩

theorem Consistent.predecessors_known (h : w.Consistent) :
    ∀ r ∈ w.requests, ∀ p ∈ r.predecessorRequestIds, p ∈ w.requests.map (·.requestId) := by
  intro r hr p hp
  have hcheck := h.requests_ok r hr
  unfold checkRequest at hcheck
  obtain ⟨_,-,hcheck⟩ := bind_eq_ok.mp hcheck
  obtain ⟨_,hunknown,-⟩ := bind_eq_ok.mp hcheck
  have hnone := List.filter_eq_nil_iff.mp (ensure_eq_ok.mp hunknown) p hp
  simpa [requestIds] using hnone

theorem Consistent.terminals_known (h : w.Consistent) {f : FrozenWorkflowDemand} (hf : f ∈ w.workflows) :
    ∀ id ∈ f.terminalRequestIds, id ∈ w.requests.map (·.requestId) := by
  intro id hid
  have hcheck := forM_ok_iff.mp (h.workflows_ok f hf) id hid
  obtain ⟨r,hr,rfl,-⟩ := ensure_eq_ok.mp hcheck
  exact List.mem_map_of_mem hr

theorem mem_requestIds_sorted {id : String} : id ∈ w.sorted.requestIds ↔ id ∈ w.requestIds :=
  (sortedBy_perm.map _).mem_iff

theorem mem_workflowIds_sorted {id : String} : id ∈ w.sorted.workflowIds ↔ id ∈ w.workflowIds :=
  (sortedBy_perm.map _).mem_iff

theorem mem_requests_sorted {r : FrozenRequestDemand} : r ∈ w.sorted.requests ↔ r ∈ w.requests := mem_sortedBy

theorem mem_workflows_sorted {f : FrozenWorkflowDemand} : f ∈ w.sorted.workflows ↔ f ∈ w.workflows := mem_sortedBy

theorem checkRequest_sorted : w.sorted.checkRequest = w.checkRequest := by
  funext r
  unfold checkRequest
  simp only [mem_requestIds_sorted,mem_workflowIds_sorted]
  rfl

theorem checkWorkflow_sorted : w.sorted.checkWorkflow = w.checkWorkflow := by
  funext f
  unfold checkWorkflow
  simp only [mem_requests_sorted]

theorem Consistent.sorted (h : w.Consistent) : w.sorted.Consistent where
  named := h.named
  sensitivity := h.sensitivity
  requests_unique := (sortedBy_perm.map _).nodup_iff.mpr h.requests_unique
  workflows_unique := (sortedBy_perm.map _).nodup_iff.mpr h.workflows_unique
  requests_ok r hr := by
    rw [checkRequest_sorted]
    exact h.requests_ok r (mem_requests_sorted.mp hr)
  workflows_ok f hf := by
    rw [checkWorkflow_sorted]
    exact h.workflows_ok f (mem_workflows_sorted.mp hf)

theorem Consistent.assertAcyclic_iff (h : w.Consistent) :
    assertAcyclic w.requests = .ok () ↔ Forest.Acyclic (Before w.requests) :=
  FrozenWorkload.assertAcyclic_iff h.requests_unique h.predecessors_known

theorem check_iff : w.check = .ok () ↔ w.Consistent ∧ Forest.Acyclic (Before w.requests) := by
  unfold check
  constructor
  · intro h
    obtain ⟨_,hreferences,hacyclic⟩ := bind_eq_ok.mp h
    have hconsistent := checkReferences_iff.mp hreferences
    exact ⟨hconsistent,hconsistent.assertAcyclic_iff.mp hacyclic⟩
  · rintro ⟨hconsistent,hacyclic⟩
    exact bind_eq_ok.mpr ⟨(),checkReferences_iff.mpr hconsistent,hconsistent.assertAcyclic_iff.mpr hacyclic⟩

theorem check_sorted (h : w.check = .ok ()) : w.sorted.check = .ok () := by
  obtain ⟨hconsistent,hacyclic⟩ := check_iff.mp h
  have hbefore : Before w.sorted.requests = Before w.requests := by
    unfold Before
    simp only [mem_requests_sorted]
  exact check_iff.mpr ⟨hconsistent.sorted,hbefore ▸ hacyclic⟩

end WorkloadArguments

/-- A workload that its constructor has accepted. -/
structure FrozenCounterfactualWorkload extends WorkloadArguments where
  accepted : toWorkloadArguments.check = .ok ()
  ordered : toWorkloadArguments.sorted = toWorkloadArguments

namespace FrozenCounterfactualWorkload

def new (w : WorkloadArguments) : Except Raised FrozenCounterfactualWorkload :=
  match h : w.check with
  | .error e => .error e
  | .ok () => .ok ⟨w.sorted,WorkloadArguments.check_sorted h,w.sorted_sorted⟩

variable (w : FrozenCounterfactualWorkload)

theorem new_self : new w.toWorkloadArguments = .ok w := by
  unfold new
  split
  · next e h => exact absurd (w.accepted.symm.trans h) (by simp)
  · rw [Except.ok.injEq]
    obtain ⟨w,haccepted,hordered⟩ := w
    simp only [hordered]

theorem consistent : w.Consistent := (WorkloadArguments.check_iff.mp w.accepted).1

theorem acyclic : Forest.Acyclic (Before w.requests) := (WorkloadArguments.check_iff.mp w.accepted).2

end FrozenCounterfactualWorkload
end BeliefKV.FrozenWorkload
