import BeliefKV.Lib.Kahn
import BeliefKV.WhatIf.Replay

/-! Frozen workloads, and the service model and token tree of their resimulation. -/
namespace BeliefKV.QueueService

structure FrozenRequestDemand where
  requestId : String
  workflowId : String
  predecessorRequestIds : List String
  releaseDelayMs : ℚ
  uncachedPromptTokens : ℕ
  outputTokens : ℕ
  startupBytes : ℕ
  kvGrowthBytes : ℕ
  requiredBundleIds : List String := []
  actionBoundaryTokenIndex : Option ℕ := none
  observedCacheHitTokens : ℕ := 0
  promptTokenSymbols : List UInt64 := []
  cacheCommitTokenSymbols : List UInt64 := []
  named : requestId ≠ ""
  predecessors_unique : predecessorRequestIds.Nodup
  required_unique : requiredBundleIds.Nodup
  delay_nonneg : 0 ≤ releaseDelayMs
  growth_le : kvGrowthBytes ≤ startupBytes
  boundary_le : ∀ index ∈ actionBoundaryTokenIndex, index ≤ outputTokens
  hit_le : promptTokenSymbols ≠ [] → observedCacheHitTokens ≤ promptTokenSymbols.length
  extends_prompt : promptTokenSymbols <+: cacheCommitTokenSymbols ∨
    cacheCommitTokenSymbols <+: promptTokenSymbols

structure FrozenWorkflowDemand where
  workflowId : String
  releaseMs : ℚ
  terminalRequestIds : List String
  completionDelayMs : ℚ := 0
  named : workflowId ≠ ""
  ends : terminalRequestIds ≠ []
  terminals_unique : terminalRequestIds.Nodup
  release_nonneg : 0 ≤ releaseMs
  delay_nonneg : 0 ≤ completionDelayMs

/-- The edges from a predecessor to the request that waits for it. -/
def dependencyEdges (requests : List FrozenRequestDemand) : Finset (String × String) :=
  (requests.flatMap fun r => r.predecessorRequestIds.map fun p => (p,r.requestId)).toFinset

/-- A workload whose requests depend on each other without a cycle. -/
structure FrozenCounterfactualWorkload where
  transitionHash : String
  requests : List FrozenRequestDemand
  workflows : List FrozenWorkflowDemand
  prefixIdentityComplete : Bool := false
  initialRadixStateKnown : Bool := false
  kvBytesPerToken : ℤ := 0
  requests_sorted : requests.Pairwise fun a b => a.requestId < b.requestId
  workflows_sorted : workflows.Pairwise fun a b => a.workflowId < b.workflowId
  workflow_known : ∀ r ∈ requests, ∃ w ∈ workflows, w.workflowId = r.workflowId
  predecessors_known : ∀ r ∈ requests, ∀ p ∈ r.predecessorRequestIds, p ∈ requests.map (·.requestId)
  terminals_known : ∀ w ∈ workflows, ∀ id ∈ w.terminalRequestIds,
    ∃ r ∈ requests, r.requestId = id ∧ r.workflowId = w.workflowId
  paths_known : prefixIdentityComplete = true →
    ∀ r ∈ requests, r.promptTokenSymbols ≠ [] ∧ r.cacheCommitTokenSymbols ≠ []
  acyclic : Kahn.visits (requests.map (·.requestId)).toFinset (dependencyEdges requests) = requests.length

namespace FrozenCounterfactualWorkload
variable (workload : FrozenCounterfactualWorkload)

theorem requestIds_nodup : (workload.requests.map (·.requestId)).Nodup := by
  refine List.pairwise_map.mpr (workload.requests_sorted.imp fun {a b} hlt => ?_)
  exact hlt.ne

def workflow? (id : String) : Option FrozenWorkflowDemand := workload.workflows.find? (·.workflowId = id)

end FrozenCounterfactualWorkload

/-! ## Service times -/

abbrev ServiceCurve := List (ℕ × ℚ)

structure QueueServiceModel where
  prefillTokensPerMs : ℚ
  decodeTokensPerMs : ℚ
  decodeBatchEfficiency : List ℚ := [1]
  maxDecodeBatch : ℕ := 8
  prefillChunkTokens : ℕ := 2048
  decodeQuantumTokens : ℕ := 8
  prefillLaunchMs : ℚ := 0
  decodeLaunchMs : ℚ := 0
  prefillFirstChunkCurve : ServiceCurve := []
  prefillContinuationChunkCurve : ServiceCurve := []
  prefill_pos : 0 < prefillTokensPerMs
  decode_pos : 0 < decodeTokensPerMs
  batch_pos : 0 < maxDecodeBatch
  chunk_pos : 0 < prefillChunkTokens
  quantum_pos : 0 < decodeQuantumTokens
  efficiency_ne : decodeBatchEfficiency ≠ []
  efficiency_pos : ∀ e ∈ decodeBatchEfficiency, 0 < e
  launch_nonneg : 0 ≤ prefillLaunchMs ∧ 0 ≤ decodeLaunchMs
  curves_sorted : ∀ curve ∈ [prefillFirstChunkCurve,prefillContinuationChunkCurve],
    curve.Pairwise fun a b => a.1 < b.1
  curves_pos : ∀ curve ∈ [prefillFirstChunkCurve,prefillContinuationChunkCurve],
    ∀ p ∈ curve, 0 < p.1 ∧ 0 < p.2

section Service
variable (fl : ℚ → ℚ)

/-- The shortest time that a continued chunk takes. -/
def chunkFloorMs : ℚ := 1 / 1000000000

/-- The time between two points, or beyond the last one, of a curve. -/
def segmentMs (tokens : ℕ) (floorMs : ℚ) (left right : ℕ × ℚ) : ServiceCurve → ℚ
  | [] =>
    if tokens ≤ right.1 then
      fl (left.2 + fl (fl (((tokens : ℚ) - left.1) / ((right.1 : ℚ) - left.1)) * fl (right.2 - left.2)))
    else
      let slope := max 0 (fl (fl (right.2 - left.2) / ((right.1 : ℚ) - left.1)))
      max floorMs (fl (right.2 + fl (slope * ((tokens : ℚ) - right.1))))
  | next :: rest =>
    if tokens ≤ right.1 then
      fl (left.2 + fl (fl (((tokens : ℚ) - left.1) / ((right.1 : ℚ) - left.1)) * fl (right.2 - left.2)))
    else segmentMs tokens floorMs right next rest

def interpolateServiceCurve (tokens : ℕ) (proportionalBelowMinimum : Bool) (floorMs : ℚ) :
    ServiceCurve → Except Raised ℚ
  | [] => .error (.valueError "list index out of range")
  | [point] =>
    let ms := fl (fl (point.2 * tokens) / point.1)
    .ok (if tokens < point.1 && proportionalBelowMinimum then max chunkFloorMs ms else max floorMs ms)
  | first :: second :: rest =>
    if tokens ≤ first.1 then
      if proportionalBelowMinimum then .ok (max chunkFloorMs (fl (fl (first.2 * tokens) / first.1)))
      else
        let slope := fl (fl (second.2 - first.2) / ((second.1 : ℚ) - first.1))
        .ok (max floorMs (fl (first.2 + fl (slope * ((tokens : ℚ) - first.1)))))
    else .ok (segmentMs fl tokens floorMs first second rest)

namespace QueueServiceModel
variable (model : QueueServiceModel)

def decodeRate (batchSize : ℕ) : Except Raised ℚ := do
  ensure (0 < batchSize) (.valueError "decode batch size must be positive")
  .ok (fl (model.decodeTokensPerMs *
    model.decodeBatchEfficiency.getD (min batchSize model.decodeBatchEfficiency.length - 1) 0))

def prefillElapsedMs (tokens chunkIndex : ℕ) : Except Raised ℚ := do
  ensure (0 < tokens) (.valueError "prefill demand and chunk index must be non-negative")
  let curve := if chunkIndex = 0 then model.prefillFirstChunkCurve else model.prefillContinuationChunkCurve
  if curve = [] then .ok (fl (model.prefillLaunchMs + fl (tokens / model.prefillTokensPerMs)))
  else interpolateServiceCurve fl tokens (0 < chunkIndex) model.prefillLaunchMs curve

end QueueServiceModel
end Service

/-! ## The token tree -/

inductive TrieNode
  | node (children : List (UInt64 × TrieNode))

namespace TrieNode

def children : TrieNode → List (UInt64 × TrieNode)
  | node children => children

def child? (t : TrieNode) (symbol : UInt64) : Option TrieNode :=
  (t.children.find? (·.1 = symbol)).map Prod.snd

/-- Replace a child. -/
def setChild (t : TrieNode) (symbol : UInt64) (c : TrieNode) : TrieNode :=
  node (t.children.map fun e => if e.1 = symbol then (symbol,c) else e)

/-- How many symbols of a path the tree has. -/
def walk : TrieNode → List UInt64 → ℕ
  | _, [] => 0
  | t, symbol :: path =>
    match t.child? symbol with
    | none => 0
    | some c => walk c path + 1

/-- Add a path; the number is that of the new nodes. -/
def insert : TrieNode → List UInt64 → TrieNode × ℕ
  | t, [] => (t,0)
  | t, symbol :: path =>
    match t.child? symbol with
    | none =>
      let (c,inserted) := insert (node []) path
      (node (t.children ++ [(symbol,c)]),inserted + 1)
    | some c =>
      let (c,inserted) := insert c path
      (t.setChild symbol c,inserted)

/-- The last token of a prompt is always a miss. -/
def hitTokens (t : TrieNode) (prompt : List UInt64) : ℕ := t.walk prompt.dropLast

end TrieNode
end BeliefKV.QueueService
