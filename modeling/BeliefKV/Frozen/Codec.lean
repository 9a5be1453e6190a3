import BeliefKV.Lib.Base64
import BeliefKV.Frozen.Records

/-! Frozen workloads are written as documents, and read from them. What is written is read as what it was. -/
namespace BeliefKV.FrozenWorkload

/-- What the conversions of the language make of other values. -/
structure Conversions where
  str : PyValue → String
  int : String → Except Raised ℤ
  float : String → Except Raised ℚ
  floatOfInt : ℤ → Except Raised ℚ
  dict : PyValue → Except Raised PyDict

namespace PyValue

def typeName : PyValue → String
  | null => "NoneType"
  | bool _ => "bool"
  | int _ => "int"
  | float _ => "float"
  | str _ => "str"
  | list _ => "list"
  | dict _ => "dict"

def truth : PyValue → Bool
  | null => false
  | bool b => b
  | int n => n ≠ 0
  | float x => x ≠ 0
  | str text => text ≠ ""
  | list items => !items.isEmpty
  | dict entries => !entries.isEmpty

/-- The values that a loop over a value meets. -/
def items : PyValue → Except Raised (List PyValue)
  | list items => .ok items
  | dict entries => .ok (entries.map fun e => str e.1)
  | str text => .ok (text.toList.map fun c => str c.toString)
  | value => .error (.typeError ("'" ++ value.typeName ++ "' object is not iterable"))

def mapping : PyValue → Except Raised PyDict
  | dict entries => .ok entries
  | value => .error (.typeError ("'" ++ value.typeName ++ "' object is not a mapping"))

section Conversions
variable (py : Conversions)

def toStr : PyValue → String
  | str text => text
  | value => py.str value

def toInt : PyValue → Except Raised ℤ
  | int n => .ok n
  | bool b => .ok (if b then 1 else 0)
  | float x => .ok (if x < 0 then ⌈x⌉ else ⌊x⌋)
  | str text => py.int text
  | value => .error (.typeError
      ("int() argument must be a string, a bytes-like object or a real number, not '" ++ value.typeName ++ "'"))

def toFloat : PyValue → Except Raised ℚ
  | float x => .ok x
  | int n => py.floatOfInt n
  | bool b => .ok (if b then 1 else 0)
  | str text => py.float text
  | value => .error (.typeError
      ("float() argument must be a string or a real number, not '" ++ value.typeName ++ "'"))

def toDict : PyValue → Except Raised PyDict
  | dict entries => .ok entries
  | value => py.dict value

def toOptionalInt : PyValue → Except Raised (Option ℤ)
  | null => .ok none
  | value => do .ok (some (← value.toInt py))

def toTexts (value : PyValue) : Except Raised (List String) := do
  .ok ((← value.items).map fun item => item.toStr py)

end Conversions
end PyValue

namespace PyDict

def item (raw : PyDict) (key : String) : Except Raised PyValue :=
  match raw.lookup key with
  | none => .error (.keyError key)
  | some value => .ok value

def get (raw : PyDict) (key : String) (default : PyValue) : PyValue := (raw.lookup key).getD default

end PyDict

/-! ## Symbols -/

/-- The symbols of a record fit into 64 bits. -/
def encodeTokenSymbols (symbols : List ℤ) : PyValue :=
  if symbols = [] then .null
  else .str (String.ofList (Base64.encode (Base64.toWords (symbols.map Int.toNat))))

def decodeTokenSymbols : PyValue → Except Raised (List ℤ)
  | .null => .ok []
  | .str text =>
    match Base64.decode text.toList with
    | none => .error (.valueError "encoded token symbols are not valid base64")
    | some packed =>
      if packed.length % 8 ≠ 0 then .error (.valueError "encoded token symbol bytes are not uint64 aligned")
      else .ok ((Base64.ofWords packed).map Int.ofNat)
  | _ => .error (.valueError "encoded token symbols must be a base64 string or null")

theorem decode_encodeTokenSymbols {symbols : List ℤ} (h : RequestArguments.Unsigned symbols) :
    decodeTokenSymbols (encodeTokenSymbols symbols) = .ok symbols := by
  unfold encodeTokenSymbols
  split_ifs with hnil
  · rw [hnil,decodeTokenSymbols]
  · have hwords : ∀ x ∈ symbols.map Int.toNat, x < 2 ^ 64 := by
      intro x hx
      obtain ⟨symbol,hsymbol,rfl⟩ := List.mem_map.mp hx
      obtain ⟨hlow,hhigh⟩ := h symbol hsymbol
      omega
    have hback : (symbols.map Int.toNat).map Int.ofNat = symbols := by
      rw [List.map_map]
      refine (List.map_congr_left fun symbol hsymbol => ?_).trans (List.map_id symbols)
      exact Int.toNat_of_nonneg (h symbol hsymbol).1
    rw [decodeTokenSymbols,String.toList_ofList,Base64.decode_encode Base64.toWords_lt]
    simp only
    rw [if_neg (by rw [Base64.length_toWords]; omega),Base64.ofWords_toWords hwords,hback]

/-! ## Requests -/

def FrozenRequestDemand.toDict (r : FrozenRequestDemand) : PyDict :=
  [("request_id",.str r.requestId),("workflow_id",.str r.workflowId),("invocation_id",.str r.invocationId),
    ("context_id",.str r.contextId),("context_epoch",.int r.contextEpoch),
    ("predecessor_request_ids",.list (r.predecessorRequestIds.map .str)),
    ("release_delay_ms",.float r.releaseDelayMs),("uncached_prompt_tokens",.int r.uncachedPromptTokens),
    ("output_tokens",.int r.outputTokens),("startup_bytes",.int r.startupBytes),
    ("kv_growth_bytes",.int r.kvGrowthBytes),("required_bundle_ids",.list (r.requiredBundleIds.map .str)),
    ("action_boundary_token_index",(r.actionBoundaryTokenIndex.map PyValue.int).getD .null),
    ("tool_duration_ms",.float r.toolDurationMs),("observed_cache_hit_tokens",.int r.observedCacheHitTokens),
    ("prompt_token_symbols_b64",encodeTokenSymbols r.promptTokenSymbols),
    ("cache_commit_token_symbols_b64",encodeTokenSymbols r.cacheCommitTokenSymbols),
    ("partial_cache_commit_token_symbols_b64",.list (r.partialCacheCommitTokenSymbols.map encodeTokenSymbols))]

section Conversions
variable (py : Conversions)

def FrozenRequestDemand.fromDict (value : PyValue) : Except Raised FrozenRequestDemand := do
  let raw ← value.mapping
  let requestId ← raw.item "request_id"
  let workflowId ← raw.item "workflow_id"
  let invocationId ← raw.item "invocation_id"
  let contextId ← raw.item "context_id"
  let contextEpoch ← (← raw.item "context_epoch").toInt py
  let predecessorRequestIds ← (raw.get "predecessor_request_ids" (.list [])).toTexts py
  let releaseDelayMs ← (← raw.item "release_delay_ms").toFloat py
  let uncachedPromptTokens ← (← raw.item "uncached_prompt_tokens").toInt py
  let outputTokens ← (← raw.item "output_tokens").toInt py
  let startupBytes ← (← raw.item "startup_bytes").toInt py
  let kvGrowthBytes ← (← raw.item "kv_growth_bytes").toInt py
  let requiredBundleIds ← (raw.get "required_bundle_ids" (.list [])).toTexts py
  let actionBoundaryTokenIndex ← (raw.get "action_boundary_token_index" .null).toOptionalInt py
  let toolDurationMs ← (raw.get "tool_duration_ms" (.float 0)).toFloat py
  let observedCacheHitTokens ← (raw.get "observed_cache_hit_tokens" (.int 0)).toInt py
  let promptTokenSymbols ← decodeTokenSymbols (raw.get "prompt_token_symbols_b64" .null)
  let cacheCommitTokenSymbols ← decodeTokenSymbols (raw.get "cache_commit_token_symbols_b64" .null)
  let partials ← (raw.get "partial_cache_commit_token_symbols_b64" (.list [])).items
  let partialCacheCommitTokenSymbols ← partials.mapM decodeTokenSymbols
  FrozenRequestDemand.new
    { requestId := requestId.toStr py
      workflowId := workflowId.toStr py
      invocationId := invocationId.toStr py
      contextId := contextId.toStr py
      contextEpoch := contextEpoch
      predecessorRequestIds := predecessorRequestIds
      releaseDelayMs := releaseDelayMs
      uncachedPromptTokens := uncachedPromptTokens
      outputTokens := outputTokens
      startupBytes := startupBytes
      kvGrowthBytes := kvGrowthBytes
      requiredBundleIds := requiredBundleIds
      actionBoundaryTokenIndex := actionBoundaryTokenIndex
      toolDurationMs := toolDurationMs
      observedCacheHitTokens := observedCacheHitTokens
      promptTokenSymbols := promptTokenSymbols
      cacheCommitTokenSymbols := cacheCommitTokenSymbols
      partialCacheCommitTokenSymbols := partialCacheCommitTokenSymbols }

theorem toTexts_list (ids : List String) : (PyValue.list (ids.map .str)).toTexts py = .ok ids := by
  have hmap : (ids.map PyValue.str).map (fun item => item.toStr py) = ids := by
    rw [List.map_map]
    exact List.map_id ids
  change Except.ok ((ids.map PyValue.str).map fun item => item.toStr py) = _
  rw [hmap]

theorem toOptionalInt_getD (index : Option ℤ) :
    ((index.map PyValue.int).getD .null).toOptionalInt py = .ok index := by
  cases index with
  | none => rfl
  | some n => rfl

/-- What is read of each element is the element. -/
theorem mapM_map_eq_ok {A B : Type} {f : B → Except Raised A} {g : A → B} {l : List A} (h : ∀ a ∈ l, f (g a) = .ok a) :
    (l.map g).mapM f = .ok l := by
  rw [List.mapM_map]
  exact (mapM_eq_ok h).trans (by rw [List.map_id'])

theorem ok_bind {A B : Type} (a : A) (f : A → Except Raised B) : (Except.ok a >>= f) = f a := rfl

theorem FrozenRequestDemand.fromDict_toDict (r : FrozenRequestDemand) : fromDict py (.dict r.toDict) = .ok r := by
  obtain ⟨hprompt,hrest⟩ := List.forall_mem_cons.mp r.unsigned
  obtain ⟨hcommit,hpartials⟩ := List.forall_mem_cons.mp hrest
  have hmap : (r.partialCacheCommitTokenSymbols.map encodeTokenSymbols).mapM decodeTokenSymbols =
      .ok r.partialCacheCommitTokenSymbols :=
    mapM_map_eq_ok fun path hpath => decode_encodeTokenSymbols (hpartials path hpath)
  have hrequest : r.toDict.item "request_id" = .ok (.str r.requestId) := rfl
  have hworkflow : r.toDict.item "workflow_id" = .ok (.str r.workflowId) := rfl
  have hinvocation : r.toDict.item "invocation_id" = .ok (.str r.invocationId) := rfl
  have hcontext : r.toDict.item "context_id" = .ok (.str r.contextId) := rfl
  have hepoch : r.toDict.item "context_epoch" = .ok (.int r.contextEpoch) := rfl
  have hpreds : r.toDict.get "predecessor_request_ids" (.list []) = .list (r.predecessorRequestIds.map .str) := rfl
  have hdelay : r.toDict.item "release_delay_ms" = .ok (.float r.releaseDelayMs) := rfl
  have huncached : r.toDict.item "uncached_prompt_tokens" = .ok (.int r.uncachedPromptTokens) := rfl
  have houtput : r.toDict.item "output_tokens" = .ok (.int r.outputTokens) := rfl
  have hstartup : r.toDict.item "startup_bytes" = .ok (.int r.startupBytes) := rfl
  have hgrowth : r.toDict.item "kv_growth_bytes" = .ok (.int r.kvGrowthBytes) := rfl
  have hbundles : r.toDict.get "required_bundle_ids" (.list []) = .list (r.requiredBundleIds.map .str) := rfl
  have hindex : r.toDict.get "action_boundary_token_index" .null =
      (r.actionBoundaryTokenIndex.map PyValue.int).getD .null := rfl
  have htool : r.toDict.get "tool_duration_ms" (.float 0) = .float r.toolDurationMs := rfl
  have hhit : r.toDict.get "observed_cache_hit_tokens" (.int 0) = .int r.observedCacheHitTokens := rfl
  have hprompts : r.toDict.get "prompt_token_symbols_b64" .null = encodeTokenSymbols r.promptTokenSymbols := rfl
  have hcommits : r.toDict.get "cache_commit_token_symbols_b64" .null =
      encodeTokenSymbols r.cacheCommitTokenSymbols := rfl
  have hpaths : r.toDict.get "partial_cache_commit_token_symbols_b64" (.list []) =
      .list (r.partialCacheCommitTokenSymbols.map encodeTokenSymbols) := rfl
  unfold fromDict
  simp only [PyValue.mapping,hrequest,hworkflow,hinvocation,hcontext,hepoch,hpreds,hdelay,huncached,houtput,hstartup,
    hgrowth,hbundles,hindex,htool,hhit,hprompts,hcommits,hpaths,ok_bind,toTexts_list,toOptionalInt_getD,
    decode_encodeTokenSymbols hprompt,decode_encodeTokenSymbols hcommit,PyValue.items,hmap,PyValue.toInt,
    PyValue.toFloat,PyValue.toStr]
  exact r.new_self

/-! ## Workflows -/

def FrozenWorkflowDemand.toDict (f : FrozenWorkflowDemand) : PyDict :=
  [("workflow_id",.str f.workflowId),("release_ms",.float f.releaseMs),
    ("terminal_request_ids",.list (f.terminalRequestIds.map .str)),
    ("completion_delay_ms",.float f.completionDelayMs)]

def FrozenWorkflowDemand.fromDict (value : PyValue) : Except Raised FrozenWorkflowDemand := do
  let raw ← value.mapping
  let workflowId ← raw.item "workflow_id"
  let releaseMs ← (← raw.item "release_ms").toFloat py
  let terminalRequestIds ← (raw.get "terminal_request_ids" (.list [])).toTexts py
  let completionDelayMs ← (raw.get "completion_delay_ms" (.float 0)).toFloat py
  FrozenWorkflowDemand.new
    { workflowId := workflowId.toStr py
      releaseMs := releaseMs
      terminalRequestIds := terminalRequestIds
      completionDelayMs := completionDelayMs }

theorem FrozenWorkflowDemand.fromDict_toDict (f : FrozenWorkflowDemand) : fromDict py (.dict f.toDict) = .ok f := by
  have hworkflow : f.toDict.item "workflow_id" = .ok (.str f.workflowId) := rfl
  have hrelease : f.toDict.item "release_ms" = .ok (.float f.releaseMs) := rfl
  have hterminals : f.toDict.get "terminal_request_ids" (.list []) = .list (f.terminalRequestIds.map .str) := rfl
  have hdelay : f.toDict.get "completion_delay_ms" (.float 0) = .float f.completionDelayMs := rfl
  unfold fromDict
  simp only [PyValue.mapping,hworkflow,hrelease,hterminals,hdelay,ok_bind,toTexts_list,PyValue.toFloat,PyValue.toStr]
  exact f.new_self

/-! ## Workloads -/

namespace FrozenCounterfactualWorkload

def toDict (w : FrozenCounterfactualWorkload) : PyDict :=
  [("schema_version",.int 2),("trace_id",.str w.traceId),("transition_hash",.str w.transitionHash),
    ("trace_sensitivity",.str w.traceSensitivity),("semantic_events_frozen",.bool w.semanticEventsFrozen),
    ("token_demand_frozen",.bool w.tokenDemandFrozen),("tool_duration_frozen",.bool w.toolDurationFrozen),
    ("future_physical_growth_exact",.bool w.futurePhysicalGrowthExact),
    ("prefix_identity_complete",.bool w.prefixIdentityComplete),
    ("initial_radix_state_known",.bool w.initialRadixStateKnown),
    ("requests",.list (w.requests.map fun r => .dict r.toDict)),
    ("workflows",.list (w.workflows.map fun f => .dict f.toDict)),("metadata",.dict w.metadata)]

def fromDict (raw : PyDict) : Except Raised FrozenCounterfactualWorkload := do
  let version ← (raw.get "schema_version" (.int 0)).toInt py
  ensure (version = 1 ∨ version = 2) (.valueError "unsupported frozen workload schema")
  let traceId ← raw.item "trace_id"
  let transitionHash ← raw.item "transition_hash"
  let traceSensitivity ← raw.item "trace_sensitivity"
  let requests ← (← (raw.get "requests" (.list [])).items).mapM (FrozenRequestDemand.fromDict py)
  let workflows ← (← (raw.get "workflows" (.list [])).items).mapM (FrozenWorkflowDemand.fromDict py)
  let metadata ← (raw.get "metadata" (.dict [])).toDict py
  new
    { traceId := traceId.toStr py
      transitionHash := transitionHash.toStr py
      traceSensitivity := traceSensitivity.toStr py
      semanticEventsFrozen := (raw.get "semantic_events_frozen" (.bool false)).truth
      tokenDemandFrozen := (raw.get "token_demand_frozen" (.bool false)).truth
      toolDurationFrozen := (raw.get "tool_duration_frozen" (.bool false)).truth
      futurePhysicalGrowthExact := (raw.get "future_physical_growth_exact" (.bool false)).truth
      prefixIdentityComplete := (raw.get "prefix_identity_complete" (.bool false)).truth
      initialRadixStateKnown := (raw.get "initial_radix_state_known" (.bool false)).truth
      requests := requests
      workflows := workflows
      metadata := metadata }

/-- A workload is read as it was written. -/
theorem fromDict_toDict (w : FrozenCounterfactualWorkload) : fromDict py w.toDict = .ok w := by
  have hversion : w.toDict.get "schema_version" (.int 0) = .int 2 := rfl
  have htrace : w.toDict.item "trace_id" = .ok (.str w.traceId) := rfl
  have hhash : w.toDict.item "transition_hash" = .ok (.str w.transitionHash) := rfl
  have hsensitivity : w.toDict.item "trace_sensitivity" = .ok (.str w.traceSensitivity) := rfl
  have hsemantic : w.toDict.get "semantic_events_frozen" (.bool false) = .bool w.semanticEventsFrozen := rfl
  have htoken : w.toDict.get "token_demand_frozen" (.bool false) = .bool w.tokenDemandFrozen := rfl
  have htool : w.toDict.get "tool_duration_frozen" (.bool false) = .bool w.toolDurationFrozen := rfl
  have hgrowth : w.toDict.get "future_physical_growth_exact" (.bool false) = .bool w.futurePhysicalGrowthExact := rfl
  have hcomplete : w.toDict.get "prefix_identity_complete" (.bool false) = .bool w.prefixIdentityComplete := rfl
  have hradix : w.toDict.get "initial_radix_state_known" (.bool false) = .bool w.initialRadixStateKnown := rfl
  have hrequests : w.toDict.get "requests" (.list []) = .list (w.requests.map fun r => .dict r.toDict) := rfl
  have hworkflows : w.toDict.get "workflows" (.list []) = .list (w.workflows.map fun f => .dict f.toDict) := rfl
  have hmetadata : w.toDict.get "metadata" (.dict []) = .dict w.metadata := rfl
  have hread : (w.requests.map fun r => PyValue.dict r.toDict).mapM (FrozenRequestDemand.fromDict py) =
      .ok w.requests := mapM_map_eq_ok fun r _ => r.fromDict_toDict py
  have hread' : (w.workflows.map fun f => PyValue.dict f.toDict).mapM (FrozenWorkflowDemand.fromDict py) =
      .ok w.workflows := mapM_map_eq_ok fun f _ => f.fromDict_toDict py
  unfold fromDict
  simp only [hversion,htrace,hhash,hsensitivity,hsemantic,htoken,htool,hgrowth,hcomplete,hradix,hrequests,hworkflows,
    hmetadata,ok_bind,PyValue.toInt,PyValue.toStr,PyValue.items,PyValue.toDict,PyValue.truth,hread,hread']
  exact bind_eq_ok.mpr ⟨(),ensure_eq_ok.mpr (.inr trivial),w.new_self⟩

end FrozenCounterfactualWorkload
end Conversions
end BeliefKV.FrozenWorkload
