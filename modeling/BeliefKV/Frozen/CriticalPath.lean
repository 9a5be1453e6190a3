import BeliefKV.Frozen.Codec

/-! The time that a frozen workload needs even if all of its requests are served at once: the delays along the longest
chain of requests. -/
namespace BeliefKV.FrozenWorkload

def releaseDelayMs (requests : List FrozenRequestDemand) (id : String) : ℚ :=
  ((requests.find? (·.requestId = id)).map (·.releaseDelayMs)).getD 0

section Figure
variable (fl : ℚ → ℚ)

/-- The delays up to the end of a request, from those up to its release. -/
def extendMs (requests : List FrozenRequestDemand) (id : String) (ms : ℚ) : ℚ := fl (ms + releaseDelayMs requests id)

/-- The delays along a chain, added one after another. -/
def chainMs (requests : List FrozenRequestDemand) (chain : List String) : ℚ :=
  Precedence.weight (extendMs fl requests) 0 chain

/-- The paths to all requests. -/
def externalPaths (w : FrozenCounterfactualWorkload) : Option (String → Option ℚ) :=
  Precedence.passes (predecessors w.requests)
    (fun id paths => extendMs fl w.requests id (Precedence.largest 0 paths)) w.requests.length (fun _ => none)
    w.requestIds

/-- The terminal requests of a workflow have paths, since they are requests of the workload. -/
def workflowMs (externalPath : String → Option ℚ) (f : FrozenWorkflowDemand) : ℚ :=
  fl (Precedence.largest 0 (f.terminalRequestIds.map fun id => (externalPath id).getD 0) + f.completionDelayMs)

def causalBlockedCriticalPathMs (total : List ℚ → ℚ) (w : FrozenCounterfactualWorkload) : Except Raised ℚ :=
  match externalPaths fl w with
  | none => .error (.valueError "frozen workload contains an unresolved dependency cycle")
  | some externalPath => .ok (total (w.workflows.map (workflowMs fl externalPath)))

end Figure

variable {fl : ℚ → ℚ} (hmono : Monotone fl) (hzero : fl 0 = 0) (w : FrozenCounterfactualWorkload)

theorem releaseDelayMs_nonneg (requests : List FrozenRequestDemand) (id : String) :
    0 ≤ releaseDelayMs requests id := by
  unfold releaseDelayMs
  cases requests.find? (·.requestId = id) with
  | none => exact le_rfl
  | some r => exact r.delay_nonneg

theorem FrozenCounterfactualWorkload.predecessors_mem :
    ∀ a ∈ w.requestIds.toFinset, ∀ b ∈ predecessors w.requests a, b ∈ w.requestIds.toFinset := by
  intro a ha b hb
  obtain ⟨r,hr,rfl⟩ := List.mem_map.mp (List.mem_toFinset.mp ha)
  rw [predecessors_of_mem w.consistent.requests_unique hr] at hb
  exact List.mem_toFinset.mpr (w.consistent.predecessors_known r hr b hb)

theorem FrozenCounterfactualWorkload.precedes_acyclic : Forest.Acyclic
    (Precedence.Precedes w.requestIds.toFinset fun id => (predecessors w.requests id).toFinset) := by
  have heq := precedes_eq w.consistent.requests_unique
  have hacyclic := w.acyclic
  rw [← heq] at hacyclic
  exact hacyclic

include hmono hzero

/-- Each request has a path, the longest of the chains that end there. -/
theorem externalPaths_spec : ∃ externalPath, externalPaths fl w = some externalPath ∧
    ∀ id ∈ w.requestIds, IsGreatest
      {ms | ∃ chain, Precedence.LeadsTo (predecessors w.requests) chain id ∧ ms = chainMs fl w.requests chain}
      ((externalPath id).getD 0) := by
  have hlength : w.requestIds.length ≤ w.requests.length := (List.length_map _).le
  have hpasses : ∃ externalPath, externalPaths fl w = some externalPath ∧
      Precedence.Known w.requestIds.toFinset (predecessors w.requests)
        (fun id paths => extendMs fl w.requests id (Precedence.largest 0 paths)) externalPath [] :=
    Precedence.passes_spec w.precedes_acyclic w.predecessors_mem _
      (.start w.consistent.requests_unique fun a => List.mem_toFinset.symm) hlength
  obtain ⟨externalPath,hpaths,hknown⟩ := hpasses
  refine ⟨externalPath,hpaths,fun id hid => ?_⟩
  have hmonotone (id : String) : Monotone (extendMs fl w.requests id) := by
    intro a b hab
    exact hmono (by linarith)
  have hstart : ∀ id ∈ w.requestIds.toFinset, 0 ≤ extendMs fl w.requests id 0 := by
    intro id _
    have hle := hmono (releaseDelayMs_nonneg w.requests id)
    rw [hzero] at hle
    rwa [extendMs,zero_add]
  exact Precedence.isGreatest_weight w.precedes_acyclic w.predecessors_mem hmonotone hstart
    (fun a ha => (hknown.solves a ha).2) id (List.mem_toFinset.mpr hid)

/-- The figure of a workflow is the longest chain to one of its terminal requests, and the delay of its completion. -/
theorem criticalPath_spec (total : List ℚ → ℚ) : ∃ longest : FrozenWorkflowDemand → ℚ,
    (∀ f ∈ w.workflows, IsGreatest
      {ms | ∃ id ∈ f.terminalRequestIds, ∃ chain, Precedence.LeadsTo (predecessors w.requests) chain id ∧
        ms = chainMs fl w.requests chain} (longest f)) ∧
      causalBlockedCriticalPathMs fl total w =
        .ok (total (w.workflows.map fun f => fl (longest f + f.completionDelayMs))) := by
  obtain ⟨externalPath,hpaths,hgreatest⟩ := externalPaths_spec hmono hzero w
  refine ⟨fun f => Precedence.largest 0 (f.terminalRequestIds.map fun id => (externalPath id).getD 0),
    fun f hf => ?_,?_⟩
  · have hne : (f.terminalRequestIds.map fun id => (externalPath id).getD 0) ≠ [] :=
      fun hnil => f.terminals_ne_nil (List.map_eq_nil_iff.mp hnil)
    obtain ⟨hmem,hmax⟩ := Precedence.isGreatest_largest 0 hne
    have hids := w.consistent.terminals_known hf
    constructor
    · obtain ⟨id,hid,hpath⟩ := List.mem_map.mp hmem
      obtain ⟨chain,hchain,hweight⟩ := (hgreatest id (hids id hid)).1
      exact ⟨id,hid,chain,hchain,hpath.symm.trans hweight⟩
    · rintro ms ⟨id,hid,chain,hchain,rfl⟩
      have hle := (hgreatest id (hids id hid)).2 ⟨chain,hchain,rfl⟩
      have hmem : (externalPath id).getD 0 ∈ f.terminalRequestIds.map fun id => (externalPath id).getD 0 :=
        List.mem_map.mpr ⟨id,hid,rfl⟩
      exact hle.trans (hmax hmem)
  · rw [causalBlockedCriticalPathMs,hpaths]
    rfl

/-- Workloads and symbols are read as they were written, the constructor accepts no cycles, and the critical path of a
workload adds to the longest chain of each workflow the delay of its completion. -/
theorem frozenWorkload_spec (py : Conversions) (total : List ℚ → ℚ) :
    (∀ w : FrozenCounterfactualWorkload, FrozenCounterfactualWorkload.fromDict py w.toDict = .ok w) ∧
      (∀ symbols : List ℤ, (∀ symbol ∈ symbols, 0 ≤ symbol ∧ symbol < 2 ^ 64) →
        decodeTokenSymbols (encodeTokenSymbols symbols) = .ok symbols) ∧
      (∀ w : WorkloadArguments, w.checkReferences = .ok () →
        (assertAcyclic w.requests = .ok () ↔ ∀ id, ¬ Relation.TransGen (Before w.requests) id id)) ∧
      ∀ w : FrozenCounterfactualWorkload, ∃ longest : FrozenWorkflowDemand → ℚ,
        (∀ f ∈ w.workflows, IsGreatest
          {ms | ∃ id ∈ f.terminalRequestIds, ∃ chain, Precedence.LeadsTo (predecessors w.requests) chain id ∧
            ms = chainMs fl w.requests chain} (longest f)) ∧
          causalBlockedCriticalPathMs fl total w =
            .ok (total (w.workflows.map fun f => fl (longest f + f.completionDelayMs))) := by
  refine ⟨fun w => w.fromDict_toDict py,fun symbols h => decode_encodeTokenSymbols h,fun w h => ?_,fun w => ?_⟩
  · exact (WorkloadArguments.checkReferences_iff.mp h).assertAcyclic_iff
  · exact criticalPath_spec hmono hzero w total

omit hmono hzero

def soloRequest : FrozenRequestDemand where
  requestId := "solo"
  workflowId := "flow"
  invocationId := "call"
  contextId := "talk"
  contextEpoch := 1
  predecessorRequestIds := []
  releaseDelayMs := 3
  uncachedPromptTokens := 4
  outputTokens := 2
  startupBytes := 9
  kvGrowthBytes := 6
  promptTokenSymbols := [7,2 ^ 64 - 1]
  accepted := by decide +kernel
  ordered := rfl

def soloFlow : FrozenWorkflowDemand where
  workflowId := "flow"
  releaseMs := 0
  terminalRequestIds := ["solo"]
  completionDelayMs := 5
  accepted := by decide +kernel
  ordered := rfl

def soloWorkload : FrozenCounterfactualWorkload where
  traceId := "trace"
  transitionHash := "hash"
  traceSensitivity := "timing_sensitive"
  requests := [soloRequest]
  workflows := [soloFlow]
  metadata := [("origin",.str "sample")]
  accepted := by decide +kernel
  ordered := rfl

/-- A request after the first one, of the same workflow. -/
def nextRequest : FrozenRequestDemand where
  requestId := "then"
  workflowId := "flow"
  invocationId := "answer"
  contextId := "talk"
  contextEpoch := 1
  predecessorRequestIds := ["solo"]
  releaseDelayMs := 4
  uncachedPromptTokens := 1
  outputTokens := 2
  startupBytes := 7
  kvGrowthBytes := 6
  promptTokenSymbols := [5]
  accepted := by decide +kernel
  ordered := rfl

/-- A request of another workflow. -/
def asideRequest : FrozenRequestDemand where
  requestId := "aside"
  workflowId := "other"
  invocationId := "aside"
  contextId := "aside"
  contextEpoch := 0
  predecessorRequestIds := []
  releaseDelayMs := 1
  uncachedPromptTokens := 1
  outputTokens := 1
  startupBytes := 2
  kvGrowthBytes := 2
  promptTokenSymbols := [6]
  accepted := by decide +kernel
  ordered := rfl

def chainFlow : FrozenWorkflowDemand where
  workflowId := "flow"
  releaseMs := 0
  terminalRequestIds := ["then"]
  completionDelayMs := 5
  accepted := by decide +kernel
  ordered := rfl

def asideFlow : FrozenWorkflowDemand where
  workflowId := "other"
  releaseMs := 2
  terminalRequestIds := ["aside"]
  completionDelayMs := 0
  accepted := by decide +kernel
  ordered := rfl

def chainWorkload : FrozenCounterfactualWorkload where
  traceId := "trace"
  transitionHash := "hash"
  traceSensitivity := "timing_sensitive"
  requests := [asideRequest,soloRequest,nextRequest]
  workflows := [chainFlow,asideFlow]
  metadata := [("origin",.str "sample")]
  accepted := by decide +kernel
  ordered := rfl

/-- Conversions that know no other values. -/
def plainConversions : Conversions where
  str _ := ""
  int text := .error (.valueError ("invalid literal for int() with base 10: '" ++ text ++ "'"))
  float text := .error (.valueError ("could not convert string to float: '" ++ text ++ "'"))
  floatOfInt n := .ok n
  dict value := .error (.typeError ("'" ++ value.typeName ++ "' object is not iterable"))

/-- A workload of two workflows, one with a chain of two requests, under exact addition. -/
theorem frozenWorkload_spec_chain :
    FrozenCounterfactualWorkload.fromDict plainConversions chainWorkload.toDict = .ok chainWorkload ∧
      decodeTokenSymbols (encodeTokenSymbols [7,2 ^ 64 - 1]) = .ok [7,2 ^ 64 - 1] ∧
      (assertAcyclic chainWorkload.requests = .ok () ↔
        ∀ id, ¬ Relation.TransGen (Before chainWorkload.requests) id id) ∧
      causalBlockedCriticalPathMs id List.sum chainWorkload = .ok 13 ∧
      ∃ longest : FrozenWorkflowDemand → ℚ,
        (∀ f ∈ chainWorkload.workflows, IsGreatest
          {ms | ∃ name ∈ f.terminalRequestIds, ∃ chain,
            Precedence.LeadsTo (predecessors chainWorkload.requests) chain name ∧
              ms = chainMs id chainWorkload.requests chain} (longest f)) ∧
          causalBlockedCriticalPathMs id List.sum chainWorkload =
            .ok (List.sum (chainWorkload.workflows.map fun f => id (longest f + f.completionDelayMs))) := by
  obtain ⟨hread,hsymbols,hcycles,hpath⟩ :=
    frozenWorkload_spec (monotone_id : Monotone (id : ℚ → ℚ)) rfl plainConversions List.sum
  exact ⟨hread chainWorkload,hsymbols _ (by decide),hcycles chainWorkload.toWorkloadArguments (by decide +kernel),
    by decide +kernel,hpath chainWorkload⟩

/-- The figure of a workflow is more than the delays along a chain of its requests. -/
theorem criticalPath_ne_chains : ¬ ∀ (w : FrozenCounterfactualWorkload) (longest : FrozenWorkflowDemand → ℚ),
    (∀ f ∈ w.workflows, IsGreatest
      {ms | ∃ r ∈ w.requests, r.workflowId = f.workflowId ∧ ∃ chain,
        Precedence.LeadsTo (predecessors w.requests) chain r.requestId ∧ ms = chainMs id w.requests chain}
      (longest f)) →
      causalBlockedCriticalPathMs id List.sum w = .ok (w.workflows.map longest).sum := by
  intro hclaim
  obtain ⟨longest,hlongest,hfigure⟩ := criticalPath_spec (monotone_id : Monotone (id : ℚ → ℚ)) rfl soloWorkload
    List.sum
  have hset := hlongest soloFlow List.mem_cons_self
  have hchains := hclaim soloWorkload longest fun f hf => by
    obtain rfl := List.mem_singleton.mp hf
    constructor
    · obtain ⟨name,hname,hchain⟩ := hset.1
      obtain rfl := List.mem_singleton.mp hname
      exact ⟨soloRequest,List.mem_cons_self,rfl,hchain⟩
    · rintro ms ⟨r,hr,-,hchain⟩
      obtain rfl := List.mem_singleton.mp hr
      exact hset.2 ⟨"solo",List.mem_cons_self,hchain⟩
  rw [hfigure] at hchains
  have hsum : (longest soloFlow + 5 + 0 : ℚ) = longest soloFlow + 0 := Except.ok.inj hchains
  linarith

end BeliefKV.FrozenWorkload
