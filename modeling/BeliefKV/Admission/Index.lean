import BeliefKV.Protocol
import BeliefKV.Lib.Run

/-! The side index of visible requests. Every mutator draws from one generation counter; what is
stored under a request id changes only together with a fresh request generation. -/
namespace BeliefKV

/-- A request as its constructor accepts it: no empty id, no negative estimate. -/
structure AdmissionRequest where
  requestId : String
  workflowId : String
  invocationId : String
  contextId : String
  contextEpoch : ℕ
  submittedTsMs : ℚ
  uncachedPromptTokens : ℕ
  expectedOutputTokens : ℕ
  kvBytesPerToken : ℕ
  fixedOverheadBytes : ℕ := 0
  promptTokens : Option ℕ := none
  ids_nonempty : requestId ≠ "" ∧ workflowId ≠ "" ∧ invocationId ≠ "" ∧ contextId ≠ ""
  submitted_nonneg : 0 ≤ submittedTsMs
  kv_pos : 0 < kvBytesPerToken
  deriving DecidableEq

def AdmissionRequest.estimatedIncrementalBytes (r : AdmissionRequest) : ℕ :=
  (r.uncachedPromptTokens + r.expectedOutputTokens) * r.kvBytesPerToken + r.fixedOverheadBytes

inductive AdmissionSideState
  | visiblePending
  | waitRestore
  | policyBlocked
  deriving DecidableEq, Repr

def AdmissionSideState.value : AdmissionSideState → String
  | visiblePending => "visible_pending"
  | waitRestore => "wait_restore"
  | policyBlocked => "policy_blocked"

/-- The version a ticket depends on. Bundle generations are listed by bundle id. -/
structure AdmissionLocalVersion where
  requestGeneration : ℕ
  promptGeneration : ℕ
  prefixGeneration : ℕ
  transitionGeneration : ℕ
  bundleGenerations : List (String × String)
  unique : (bundleGenerations.map Prod.fst).Nodup
  nonempty : ∀ b ∈ bundleGenerations, b.1 ≠ "" ∧ b.2 ≠ ""
  deriving DecidableEq

/-- The constructor, with the checks that a caller can fail. -/
def AdmissionLocalVersion.make (requestGeneration promptGeneration prefixGeneration : ℕ)
    (transitionGeneration : ℤ) (bundles : List (String × String)) :
    Except Raised AdmissionLocalVersion :=
  if transitionGeneration < 0 then .error (.valueError "admission generations must be non-negative")
  else if ¬ ∀ b ∈ bundles, b.1 ≠ "" then .error (.valueError "bundle IDs must be non-empty")
  else if hunique : (bundles.map Prod.fst).Nodup then
    if hnonempty : ∀ b ∈ bundles, b.1 ≠ "" ∧ b.2 ≠ "" then
      .ok ⟨requestGeneration,promptGeneration,prefixGeneration,transitionGeneration.toNat,bundles,
        hunique,hnonempty⟩
    else .error (.valueError "bundle generations must be non-empty")
  else .error (.valueError "bundle generations must have unique bundle IDs")

structure VisibleAdmissionEntry where
  request : AdmissionRequest
  state : AdmissionSideState
  version : AdmissionLocalVersion
  blockerReason : Option String := none
  restoreBundleIds : Finset String := ∅
  deriving DecidableEq

/-- A reason that is missing or empty. -/
def noReason (reason : Option String) : Prop := reason = none ∨ reason = some ""

instance (reason : Option String) : Decidable (noReason reason) :=
  inferInstanceAs (Decidable (reason = none ∨ reason = some ""))

/-- The constructor. The sorted tuple of unique bundle ids is the set of them. -/
def VisibleAdmissionEntry.make (request : AdmissionRequest) (state : AdmissionSideState)
    (version : AdmissionLocalVersion) (blockerReason : Option String)
    (restoreBundleIds : List String) : Except Raised VisibleAdmissionEntry :=
  if ¬ restoreBundleIds.Nodup then .error (.valueError "restore bundle IDs must be unique")
  else if "" ∈ restoreBundleIds then .error (.valueError "restore bundle IDs must be non-empty")
  else if state = .visiblePending ∧ (blockerReason ≠ none ∨ restoreBundleIds ≠ []) then
    .error (.valueError "visible requests cannot retain blockers")
  else if state = .waitRestore ∧ restoreBundleIds = [] then
    .error (.valueError "WAIT_RESTORE requires at least one bundle")
  else if state = .waitRestore ∧ noReason blockerReason then
    .error (.valueError "WAIT_RESTORE requires a blocker reason")
  else if state = .policyBlocked ∧ noReason blockerReason then
    .error (.valueError "POLICY_BLOCKED requires a blocker reason")
  else .ok ⟨request,state,version,blockerReason,restoreBundleIds.toFinset⟩

/-- Request-ID side index. -/
structure VisibleAdmissionIndex where
  entries : Dict String VisibleAdmissionEntry := ∅
  generation : ℕ := 0
  revision : ℕ := 0

namespace VisibleAdmissionIndex

def empty : VisibleAdmissionIndex := {}

section Operations
variable (s : VisibleAdmissionIndex)

def get (requestId : String) : Option VisibleAdmissionEntry := s.entries[requestId]?

/-- Draw a generation. -/
def nextGeneration : VisibleAdmissionIndex := { s with generation := s.generation + 1 }

/-- Store an entry and count the revision. -/
def store (key : String) (entry : VisibleAdmissionEntry) : VisibleAdmissionIndex :=
  { s with entries := s.entries.insert key entry, revision := s.revision + 1 }

def unknownRequest (requestId : String) : Raised :=
  .keyError ("unknown visible request: " ++ requestId)

def register (request : AdmissionRequest) (transitionGeneration : ℤ)
    (bundleGenerations : Dict String String) :
    VisibleAdmissionIndex × Except Raised VisibleAdmissionEntry :=
  if request.requestId ∈ s.entries then
    (s,.error (.valueError ("duplicate visible request id: " ++ request.requestId)))
  else
    let generation := s.generation + 1
    match AdmissionLocalVersion.make generation generation generation transitionGeneration
      bundleGenerations.toList with
    | .error e => (s.nextGeneration,.error e)
    | .ok version =>
      let entry : VisibleAdmissionEntry :=
        { request := request, state := .visiblePending, version := version }
      (s.nextGeneration.store request.requestId entry,.ok entry)

def cancel (requestId : String) : VisibleAdmissionIndex × Option VisibleAdmissionEntry :=
  match s.get requestId with
  | none => (s,none)
  | some entry =>
    ({ s.nextGeneration with
        entries := s.entries.erase requestId
        revision := s.revision + 1 },some entry)

def updateRequest (request : AdmissionRequest) (promptChanged : Bool) :
    VisibleAdmissionIndex × Except Raised VisibleAdmissionEntry :=
  match s.get request.requestId with
  | none => (s,.error (unknownRequest request.requestId))
  | some current =>
    if (current.request.workflowId,current.request.invocationId,current.request.contextId,
        current.request.contextEpoch) ≠
      (request.workflowId,request.invocationId,request.contextId,request.contextEpoch) then
      (s,.error (.valueError "visible request identity cannot change in place"))
    else if current.request = request ∧ promptChanged = false then (s,.ok current)
    else
      let generation := s.generation + 1
      let updated := { current with
        request := request
        version := { current.version with
          requestGeneration := generation
          promptGeneration := if promptChanged then generation
            else current.version.promptGeneration } }
      (s.nextGeneration.store current.request.requestId updated,.ok updated)

def observePrefix (requestId : String) (uncachedPromptTokens : ℤ)
    (bundleGenerations : Dict String String) :
    VisibleAdmissionIndex × Except Raised VisibleAdmissionEntry :=
  if uncachedPromptTokens < 0 then
    (s,.error (.valueError "uncached prompt tokens must be non-negative"))
  else match s.get requestId with
  | none => (s,.error (unknownRequest requestId))
  | some current =>
    let request := { current.request with uncachedPromptTokens := uncachedPromptTokens.toNat }
    if request = current.request ∧
        bundleGenerations.toList = current.version.bundleGenerations then (s,.ok current)
    else
      let generation := s.generation + 1
      match AdmissionLocalVersion.make generation current.version.promptGeneration generation
        current.version.transitionGeneration bundleGenerations.toList with
      | .error e => (s.nextGeneration,.error e)
      | .ok version =>
        let updated := { current with request := request, version := version }
        (s.nextGeneration.store current.request.requestId updated,.ok updated)

def setTransitionGeneration (requestId : String) (generation : ℤ) :
    VisibleAdmissionIndex × Except Raised VisibleAdmissionEntry :=
  if generation < 0 then (s,.error (.valueError "transition generation must be non-negative"))
  else match s.get requestId with
  | none => (s,.error (unknownRequest requestId))
  | some current =>
    if current.version.transitionGeneration = generation then (s,.ok current)
    else
      let updated := { current with
        version := { current.version with
          requestGeneration := s.generation + 1
          transitionGeneration := generation.toNat } }
      (s.nextGeneration.store current.request.requestId updated,.ok updated)

def setState (requestId : String) (state : AdmissionSideState) (blockerReason : Option String)
    (restoreBundleIds : List String) : VisibleAdmissionIndex × Except Raised VisibleAdmissionEntry :=
  match s.get requestId with
  | none => (s,.error (unknownRequest requestId))
  | some current =>
    match VisibleAdmissionEntry.make current.request state current.version blockerReason
      restoreBundleIds with
    | .error e => (s,.error e)
    | .ok candidate =>
      if candidate = current then (s,.ok current)
      else
        let updated := { candidate with
          version := { current.version with requestGeneration := s.generation + 1 } }
        (s.nextGeneration.store candidate.request.requestId updated,.ok updated)

def setWaitRestore (requestId : String) (bundleIds : List String) (reason : String) :
    VisibleAdmissionIndex × Except Raised VisibleAdmissionEntry :=
  s.setState requestId .waitRestore (some reason) bundleIds

def setPolicyBlocked (requestId reason : String) :
    VisibleAdmissionIndex × Except Raised VisibleAdmissionEntry :=
  s.setState requestId .policyBlocked (some reason) []

def setVisible (requestId : String) : VisibleAdmissionIndex × Except Raised VisibleAdmissionEntry :=
  s.setState requestId .visiblePending none []

end Operations

/-- One call of a run. -/
inductive Op
  | register (request : AdmissionRequest) (transitionGeneration : ℤ)
      (bundleGenerations : Dict String String)
  | cancel (requestId : String)
  | updateRequest (request : AdmissionRequest) (promptChanged : Bool)
  | observePrefix (requestId : String) (uncachedPromptTokens : ℤ)
      (bundleGenerations : Dict String String)
  | setTransitionGeneration (requestId : String) (generation : ℤ)
  | setWaitRestore (requestId : String) (bundleIds : List String) (reason : String)
  | setPolicyBlocked (requestId reason : String)
  | setVisible (requestId : String)

/-- The state a call leaves, also when it raises. -/
def step (s : VisibleAdmissionIndex) : Op → VisibleAdmissionIndex
  | .register request transition bundles => (s.register request transition bundles).1
  | .cancel id => (s.cancel id).1
  | .updateRequest request changed => (s.updateRequest request changed).1
  | .observePrefix id tokens bundles => (s.observePrefix id tokens bundles).1
  | .setTransitionGeneration id generation => (s.setTransitionGeneration id generation).1
  | .setWaitRestore id bundles reason => (s.setWaitRestore id bundles reason).1
  | .setPolicyBlocked id reason => (s.setPolicyBlocked id reason).1
  | .setVisible id => (s.setVisible id).1

def run (s : VisibleAdmissionIndex) (ops : List Op) : VisibleAdmissionIndex := ops.foldl step s

/-! ## What a call can do -/

/-- Entries leave the index, or enter it under a generation that was just drawn. -/
inductive Edit (s : VisibleAdmissionIndex) : VisibleAdmissionIndex → Prop
  | same : Edit s s
  | draw : Edit s s.nextGeneration
  | drop (key : String) : Edit s { s.nextGeneration with
      entries := s.entries.erase key
      revision := s.revision + 1 }
  | put (key : String) (entry : VisibleAdmissionEntry)
      (hfresh : entry.version.requestGeneration = s.generation + 1) :
      Edit s (s.nextGeneration.store key entry)

variable {s t : VisibleAdmissionIndex}

theorem AdmissionLocalVersion.make_requestGeneration {r p x : ℕ} {g : ℤ}
    {bundles : List (String × String)} {v : AdmissionLocalVersion}
    (h : AdmissionLocalVersion.make r p x g bundles = .ok v) : v.requestGeneration = r := by
  unfold AdmissionLocalVersion.make at h
  split_ifs at h
  cases h
  rfl

theorem register_edit (request : AdmissionRequest) (g : ℤ) (bundles : Dict String String) :
    Edit s (s.register request g bundles).1 := by
  unfold register
  split_ifs
  · exact .same
  · dsimp only
    split
    · exact .draw
    · rename_i version hv
      exact .put _ _ (AdmissionLocalVersion.make_requestGeneration hv)

theorem cancel_edit (id : String) : Edit s (s.cancel id).1 := by
  unfold cancel
  split
  · exact .same
  · exact .drop id

theorem updateRequest_edit (request : AdmissionRequest) (changed : Bool) :
    Edit s (s.updateRequest request changed).1 := by
  unfold updateRequest
  split
  · exact .same
  · dsimp only
    split
    · exact .same
    · split
      · exact .same
      · exact .put _ _ rfl

theorem observePrefix_edit (id : String) (tokens : ℤ) (bundles : Dict String String) :
    Edit s (s.observePrefix id tokens bundles).1 := by
  unfold observePrefix
  split_ifs
  · exact .same
  · split
    · exact .same
    · dsimp only
      split_ifs
      · exact .same
      · split
        · exact .draw
        · rename_i version hv
          exact .put _ _ (AdmissionLocalVersion.make_requestGeneration hv)

theorem setTransitionGeneration_edit (id : String) (g : ℤ) :
    Edit s (s.setTransitionGeneration id g).1 := by
  unfold setTransitionGeneration
  split_ifs
  · exact .same
  · split
    · exact .same
    · split_ifs
      · exact .same
      · exact .put _ _ rfl

theorem setState_edit (id : String) (state : AdmissionSideState) (reason : Option String)
    (bundles : List String) : Edit s (s.setState id state reason bundles).1 := by
  unfold setState
  split
  · exact .same
  · split
    · exact .same
    · split_ifs
      · exact .same
      · exact .put _ _ rfl

theorem step_edit (op : Op) : Edit s (s.step op) := by
  cases op with
  | register request g bundles => exact register_edit request g bundles
  | cancel id => exact cancel_edit id
  | updateRequest request changed => exact updateRequest_edit request changed
  | observePrefix id tokens bundles => exact observePrefix_edit id tokens bundles
  | setTransitionGeneration id g => exact setTransitionGeneration_edit id g
  | setWaitRestore id bundles reason => exact setState_edit id _ _ bundles
  | setPolicyBlocked id reason => exact setState_edit id _ _ []
  | setVisible id => exact setState_edit id _ _ []

/-- Generations are never handed back. -/
theorem Edit.generation_le (h : Edit s t) : s.generation ≤ t.generation := by
  cases h with
  | same => exact le_rfl
  | _ => exact Nat.le_succ _

/-- What is stored under an id stays, goes, or is replaced under a fresh generation. -/
theorem Edit.get (h : Edit s t) (id : String) : t.get id = s.get id ∨
    ∀ e, t.get id = some e → e.version.requestGeneration = s.generation + 1 := by
  cases h with
  | same => exact .inl rfl
  | draw => exact .inl rfl
  | drop key =>
    have hget : VisibleAdmissionIndex.get { s.nextGeneration with
        entries := s.entries.erase key
        revision := s.revision + 1 } id = if key = id then none else s.get id := Dict.get_erase _ _ _
    rw [hget]
    split_ifs
    · exact .inr fun e he => by cases he
    · exact .inl rfl
  | put key entry hfresh =>
    have hget : (s.nextGeneration.store key entry).get id =
        if key = id then some entry else s.get id := Dict.get_insert _ _ _ _
    rw [hget]
    split_ifs
    · refine .inr fun e he => ?_
      cases he
      exact hfresh
    · exact .inl rfl

/-- No entry has a generation that was not drawn yet. -/
def Drawn (s : VisibleAdmissionIndex) : Prop :=
  ∀ id e, s.get id = some e → e.version.requestGeneration ≤ s.generation

theorem Edit.drawn (h : Edit s t) (hs : s.Drawn) : t.Drawn := by
  intro id e he
  have hle := h.generation_le
  rcases h.get id with hsame | hfresh
  · exact (hs id e (hsame ▸ he)).trans hle
  · rw [hfresh e he]
    cases h with
    | same =>
      have := hs id e he
      have := hfresh e he
      omega
    | _ => exact le_rfl

theorem run_drawn (ops : List Op) : (empty.run ops).Drawn := by
  have hempty : empty.Drawn := fun id e he => by simp [get,empty] at he
  unfold run
  exact Run.AllSteps.invariant (P := fun _ _ => True) (I := Drawn)
    (fun _ op hs _ => (step_edit op).drawn hs) hempty (Run.AllSteps.of_forall (fun _ _ _ => trivial) _)

/-! ## One request over a run -/

/-- What is stored under `id` is younger than generation `g`. -/
def Younger (g : ℕ) (id : String) (s : VisibleAdmissionIndex) : Prop :=
  g ≤ s.generation ∧ ∀ e, s.get id = some e → g < e.version.requestGeneration

theorem Younger.step {g : ℕ} {id : String} (hs : Younger g id s) (op : Op) :
    Younger g id (s.step op) := by
  refine ⟨hs.1.trans (step_edit op).generation_le,fun e he => ?_⟩
  rcases (step_edit op).get id with hsame | hfresh
  · exact hs.2 e (hsame ▸ he)
  · have := hfresh e he
    have := hs.1
    omega

theorem run_generation_le (ops : List Op) : s.generation ≤ (s.run ops).generation := by
  induction ops generalizing s with
  | nil => exact le_rfl
  | cons op ops ih => exact (step_edit op).generation_le.trans ih

/-- Along a run what is stored under `id` never changes, or it is younger in the end. -/
theorem run_dichotomy (ops : List Op) (id : String) :
    (∀ mid, mid <+: ops → (s.run mid).get id = s.get id) ∨
      Younger s.generation id (s.run ops) := by
  induction ops using List.reverseRecOn with
  | nil =>
    left
    intro mid hmid
    rw [List.prefix_nil.mp hmid]
    rfl
  | append_singleton ops op ih =>
    have hrun : s.run (ops ++ [op]) = (s.run ops).step op := by
      simp [run]
    rcases ih with hkept | hyoung
    · have hnow := hkept ops (List.prefix_refl ops)
      have hgen := run_generation_le (s := s) ops
      rcases (step_edit (s := s.run ops) op).get id with hsame | hfresh
      · left
        intro mid hmid
        rcases List.prefix_concat_iff.mp hmid with rfl | hmid
        · rw [hrun,hsame,hnow]
        · exact hkept mid hmid
      · right
        rw [hrun]
        refine ⟨hgen.trans (step_edit op).generation_le,fun e he => ?_⟩
        have := hfresh e he
        omega
    · right
      rw [hrun]
      exact hyoung.step op

end VisibleAdmissionIndex
end BeliefKV
