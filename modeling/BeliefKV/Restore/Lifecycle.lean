import BeliefKV.Controller.Commands
import BeliefKV.Lib.Run

/-! Restore debts and the capacity leases granted for them, as the two state machines the engine
adapter drives. -/
namespace BeliefKV

inductive RestoreObligationState
  | retractionPrepared
  | d2hInflight
  | parkedWait
  | evictForRestore
  | h2dInflight
  | restoreAcked
  | ticketReady
  | satisfied
  | cancelled
  | failed
  deriving DecidableEq, Repr

def RestoreObligationState.terminal : RestoreObligationState → Bool
  | satisfied | cancelled | failed => true
  | _ => false

/-- The part of a restore debt its methods read and write. Attempt stamps and external progress
tokens are only stored. -/
structure RestoreObligation (Stamp Token : Type) where
  obligationId : String
  requestId : String
  workflowId : String
  contextId : String
  state : RestoreObligationState := .retractionPrepared
  requiredExtentIds : Finset String := ∅
  pendingCommandId : Option String := none
  pendingCommandKind : Option CommandKind := none
  commandIds : List String := []
  restoreBytes : ℤ := 0
  lastProgressTsMs : ℚ
  lastAttemptStamp : Option Stamp := none
  lastExternalProgressToken : Option Token := none
  wakeConditions : Finset String := ∅
  blockerCodes : Finset String := ∅
  blockerFingerprint : Option String := none
  retryCount : ℕ := 0
  nativeAdmissionFallback : Bool := false
  firstServiceTsMs : Option ℚ := none
  terminalTsMs : Option ℚ := none
  terminalReason : Option String := none
  ids_nonempty : obligationId ≠ "" ∧ requestId ≠ "" ∧ workflowId ≠ "" ∧ contextId ≠ ""

namespace RestoreObligation
variable {Stamp Token : Type} (o : RestoreObligation Stamp Token)

def setRequiredExtents (extentIds : List String) (restoreBytes : ℤ) (nowMs : ℚ) :
    Except Raised (RestoreObligation Stamp Token) :=
  if o.state.terminal then .ok o
  else if "" ∈ extentIds then .error (.valueError "restore extent IDs must be non-empty")
  else if extentIds.toFinset ≠ o.requiredExtentIds ∨ max 0 restoreBytes ≠ o.restoreBytes then
    .ok { o with
      requiredExtentIds := extentIds.toFinset
      restoreBytes := max 0 restoreBytes
      lastProgressTsMs := nowMs }
  else .ok o

def startCommand (commandId : String) (commandKind : CommandKind) (nowMs : ℚ) (attemptStamp : Stamp) :
    Except Raised (RestoreObligation Stamp Token) :=
  if o.state.terminal then
    .error (.valueError "terminal restore obligation cannot start a command")
  else if o.pendingCommandId ≠ none then
    .error (.valueError "restore obligation already has an in-flight command")
  else .ok { o with
    pendingCommandId := some commandId
    pendingCommandKind := some commandKind
    commandIds := o.commandIds ++ [commandId]
    lastAttemptStamp := some attemptStamp
    blockerCodes := ∅
    blockerFingerprint := none
    lastProgressTsMs := nowMs
    state := if commandKind = .prefetchContext then .h2dInflight else .evictForRestore }

def clearCommand : RestoreObligation Stamp Token :=
  { o with pendingCommandId := none, pendingCommandKind := none }

def block (blockerCodes : List String) (blockerFingerprint : String) (attemptStamp : Option Stamp)
    (externalProgressToken : Option Token) (wakeConditions : List String) (nowMs : ℚ) :
    RestoreObligation Stamp Token :=
  if o.state.terminal then o
  else { o.clearCommand with
    state := .parkedWait
    blockerCodes := blockerCodes.toFinset
    blockerFingerprint := some blockerFingerprint
    lastAttemptStamp := attemptStamp
    lastExternalProgressToken := externalProgressToken
    wakeConditions := wakeConditions.toFinset
    retryCount := o.retryCount + 1
    lastProgressTsMs := nowMs }

def markTicketReady (nowMs : ℚ) : RestoreObligation Stamp Token :=
  if o.state.terminal then o
  else if o.state = .ticketReady then o
  else { o.clearCommand with
    requiredExtentIds := ∅
    restoreBytes := 0
    blockerCodes := ∅
    blockerFingerprint := none
    lastExternalProgressToken := none
    wakeConditions := ∅
    state := .ticketReady
    lastProgressTsMs := nowMs }

def useNativeAdmissionFallback (nowMs : ℚ) : RestoreObligation Stamp Token :=
  if o.state.terminal then o
  else { o with nativeAdmissionFallback := true }.markTicketReady nowMs

/-- Unlike the other methods this one does not look at the present state. -/
def finish (state : RestoreObligationState) (nowMs : ℚ) (reason : String) :
    Except Raised (RestoreObligation Stamp Token) :=
  if state.terminal = false then
    .error (.valueError "restore obligation finish requires a terminal state")
  else .ok { o.clearCommand with
    state := state
    terminalTsMs := some nowMs
    terminalReason := some reason
    lastProgressTsMs := nowMs
    firstServiceTsMs := if state = .satisfied then some nowMs else o.firstServiceTsMs }

inductive Call (Stamp Token : Type)
  | setRequiredExtents (extentIds : List String) (restoreBytes : ℤ) (nowMs : ℚ)
  | startCommand (commandId : String) (commandKind : CommandKind) (nowMs : ℚ) (attemptStamp : Stamp)
  | clearCommand
  | block (blockerCodes : List String) (blockerFingerprint : String) (attemptStamp : Option Stamp)
      (externalProgressToken : Option Token) (wakeConditions : List String) (nowMs : ℚ)
  | markTicketReady (nowMs : ℚ)
  | useNativeAdmissionFallback (nowMs : ℚ)
  | finish (state : RestoreObligationState) (nowMs : ℚ) (reason : String)

def call : Call Stamp Token → Except Raised (RestoreObligation Stamp Token)
  | .setRequiredExtents ids bytes now => o.setRequiredExtents ids bytes now
  | .startCommand id kind now stamp => o.startCommand id kind now stamp
  | .clearCommand => .ok o.clearCommand
  | .block codes fingerprint stamp token wake now =>
    .ok (o.block codes fingerprint stamp token wake now)
  | .markTicketReady now => .ok (o.markTicketReady now)
  | .useNativeAdmissionFallback now => .ok (o.useNativeAdmissionFallback now)
  | .finish state now reason => o.finish state now reason

/-- How an ended debt ended. -/
def ending : RestoreObligationState × Option ℚ × Option String :=
  (o.state,o.terminalTsMs,o.terminalReason)

/-- No call ends the debt a second time in another way. -/
def Guarded : Call Stamp Token → Prop
  | .finish state now reason => o.state.terminal = false ∨ state.terminal = false ∨
      o.ending = (state,some now,some reason)
  | _ => True

variable {o}

/-- An ended debt keeps its ending through a call exactly if the call is guarded. -/
theorem ending_iff_guarded (hend : o.state.terminal = true) (c : Call Stamp Token) :
    (∀ o', o.call c = .ok o' → o'.ending = o.ending) ↔ o.Guarded c := by
  cases c with
  | setRequiredExtents => simp [call,setRequiredExtents,hend,Guarded]
  | startCommand => simp [call,startCommand,hend,Guarded]
  | clearCommand => simp [call,clearCommand,Guarded,ending]
  | block => simp [call,block,hend,Guarded]
  | markTicketReady => simp [call,markTicketReady,hend,Guarded]
  | useNativeAdmissionFallback => simp [call,useNativeAdmissionFallback,hend,Guarded]
  | finish state now reason =>
    cases hstate : state.terminal with
    | false => simp [call,finish,hstate,Guarded]
    | true =>
      simp only [call,finish,hstate,Bool.true_eq_false,if_false,Guarded,hend,false_or,
        Except.ok.injEq,forall_eq']
      exact eq_comm

end RestoreObligation

/-! ## Leases -/

inductive RestoreLeaseState
  | granted
  | h2dInflight
  | restoredReserved
  | admissionCommitting
  | admitted
  | released
  | rolledBack
  deriving DecidableEq, Repr

def RestoreLeaseState.terminal : RestoreLeaseState → Bool
  | released | rolledBack => true
  | _ => false

/-- One admission-capacity lease. -/
structure RestoreLease where
  leaseId : String
  obligationId : String
  requestId : String
  workflowId : String
  contextId : String
  grantedTsMs : ℚ
  reservedTokens : ℤ
  reservedBytes : ℤ
  h2dBytes : ℤ
  state : RestoreLeaseState := .granted
  h2dCommandId : Option String := none
  pinActive : Bool := false
  admissionAttempts : ℕ := 0
  terminalTsMs : Option ℚ := none
  terminalReason : Option String := none

namespace RestoreLease
variable (l : RestoreLease)

def capacityHeld : Bool := l.state ∈ [.granted,.h2dInflight,.restoredReserved]

/-- The checks of the constructor. -/
def check : Except Raised Unit := do
  ensure (l.leaseId ≠ "") (.valueError "restore lease lease_id must be non-empty")
  ensure (l.obligationId ≠ "") (.valueError "restore lease obligation_id must be non-empty")
  ensure (l.requestId ≠ "") (.valueError "restore lease request_id must be non-empty")
  ensure (l.workflowId ≠ "") (.valueError "restore lease workflow_id must be non-empty")
  ensure (l.contextId ≠ "") (.valueError "restore lease context_id must be non-empty")
  ensure (0 ≤ l.grantedTsMs) (.valueError "restore lease grant time must be non-negative")
  ensure (0 ≤ l.reservedTokens ∧ 0 ≤ l.reservedBytes ∧ 0 ≤ l.h2dBytes)
    (.valueError "restore lease capacities must be non-negative")
  ensure (l.reservedTokens ≠ 0 ∧ l.reservedBytes ≠ 0)
    (.valueError "restore lease must reserve positive admission capacity")

def markH2dInflight (commandId : String) : Except Raised RestoreLease :=
  if l.state.terminal then .error (.valueError "terminal restore lease cannot start H2D")
  else if commandId = "" then
    .error (.valueError "restore lease H2D command id must be non-empty")
  else .ok { l with h2dCommandId := some commandId, state := .h2dInflight }

def markRestored : RestoreLease :=
  if l.state.terminal then l else { l with h2dCommandId := none, state := .restoredReserved }

def beginAdmission : Except Raised RestoreLease :=
  if l.state ∉ [.restoredReserved,.granted] then
    .error (.valueError "restore lease is not ready for admission")
  else .ok { l with
    admissionAttempts := l.admissionAttempts + 1
    state := .admissionCommitting }

def admissionRejected : Except Raised RestoreLease :=
  if l.state ≠ .admissionCommitting then
    .error (.valueError "restore lease has no admission attempt to reject")
  else .ok { l with state := .restoredReserved }

def markAdmitted : Except Raised RestoreLease :=
  if l.state ≠ .admissionCommitting then
    .error (.valueError "restore lease admission was not started")
  else .ok { l with state := .admitted }

/-- Only the argument is checked, not the present state. -/
def finish (state : RestoreLeaseState) (nowMs : ℚ) (reason : String) : Except Raised RestoreLease :=
  if state.terminal = false then
    .error (.valueError "restore lease finish requires a terminal state")
  else if nowMs < 0 ∨ reason = "" then
    .error (.valueError "restore lease terminal time/reason is required")
  else .ok { l with
    h2dCommandId := none
    pinActive := false
    state := state
    terminalTsMs := some nowMs
    terminalReason := some reason }

inductive Call
  | markH2dInflight (commandId : String)
  | markRestored
  | beginAdmission
  | admissionRejected
  | markAdmitted
  | finish (state : RestoreLeaseState) (nowMs : ℚ) (reason : String)
  deriving DecidableEq

def call : Call → Except Raised RestoreLease
  | .markH2dInflight commandId => l.markH2dInflight commandId
  | .markRestored => .ok l.markRestored
  | .beginAdmission => l.beginAdmission
  | .admissionRejected => l.admissionRejected
  | .markAdmitted => l.markAdmitted
  | .finish state now reason => l.finish state now reason

/-- How an ended lease ended. -/
def ending : RestoreLeaseState × Option ℚ × Option String :=
  (l.state,l.terminalTsMs,l.terminalReason)

/-- The capacity was handed over, or is being handed over, to an admitted request. -/
def handedOver : Prop := l.state = .admissionCommitting ∨ l.state = .admitted

instance : Decidable l.handedOver :=
  inferInstanceAs (Decidable (l.state = .admissionCommitting ∨ l.state = .admitted))

/-- The call does not start or report an H2D copy for a lease whose capacity was handed over, and
does not end a lease a second time in another way. -/
def Guarded : Call → Prop
  | .markH2dInflight commandId => commandId = "" ∨ ¬ l.handedOver
  | .markRestored => ¬ l.handedOver
  | .finish state now reason => l.state.terminal = false ∨ state.terminal = false ∨ now < 0 ∨
      reason = "" ∨ l.ending = (state,some now,some reason)
  | _ => True

instance : DecidablePred l.Guarded
  | .markH2dInflight commandId => inferInstanceAs (Decidable (commandId = "" ∨ ¬ l.handedOver))
  | .markRestored => inferInstanceAs (Decidable (¬ l.handedOver))
  | .finish state now reason => inferInstanceAs (Decidable (l.state.terminal = false ∨
      state.terminal = false ∨ now < 0 ∨ reason = "" ∨ l.ending = (state,some now,some reason)))
  | .beginAdmission | .admissionRejected | .markAdmitted => isTrue trivial

/-- What one call may do to a lease. -/
structure Fair (c : Call) (l' : RestoreLease) : Prop where
  admitted : l.state = .admitted → l'.state = .admitted ∨ l'.state.terminal = true
  committing : l.state = .admissionCommitting → l'.capacityHeld = true → c = .admissionRejected
  ended : l.state.terminal = true → l'.ending = l.ending

variable {l}

theorem capacityHeld_of_state {l : RestoreLease} (h : l.state = .h2dInflight ∨
    l.state = .restoredReserved) : l.capacityHeld = true := by
  rcases h with h | h <;> simp [capacityHeld,h]

theorem terminal_of_handedOver (h : l.handedOver) : l.state.terminal = false := by
  rcases h with h | h <;> rw [h] <;> rfl

/-- A lease that was handed over may not hold capacity again without a rejection. -/
theorem Fair.not_regain {c : Call} {l' : RestoreLease} (hf : l.Fair c l') (hover : l.handedOver)
    (hheld : l'.state = .h2dInflight ∨ l'.state = .restoredReserved) (hc : c ≠ .admissionRejected) :
    False := by
  rcases hover with h | h
  · exact hc (hf.committing h (capacityHeld_of_state hheld))
  · rcases hf.admitted h with h' | h' <;> rcases hheld with hheld | hheld <;> rw [hheld] at h' <;>
      cases h'

/-- A call that leaves a lease alone, or ends it for the first time. -/
theorem Fair.of_state {c : Call} {l' : RestoreLease} (hnot : ¬ l.handedOver)
    (hend : l.state.terminal = true → l'.ending = l.ending) : l.Fair c l' :=
  ⟨fun h => absurd (.inr h) hnot,fun h => absurd (.inl h) hnot,hend⟩

/-- A call is fair exactly if it is guarded. -/
theorem fair_iff_guarded (c : Call) : (∀ l', l.call c = .ok l' → l.Fair c l') ↔ l.Guarded c := by
  cases c with
  | markH2dInflight id =>
    by_cases hid : id = ""
    · simp only [call,markH2dInflight,Guarded,hid,if_true,true_or,iff_true]
      intro l' hok
      split_ifs at hok
    · simp only [call,markH2dInflight,Guarded,hid,if_false,false_or]
      cases hterm : l.state.terminal with
      | true =>
        simp only [if_true,reduceCtorEq,false_implies,implies_true,true_iff]
        exact fun hover => by simp [terminal_of_handedOver hover] at hterm
      | false =>
        simp only [Bool.false_eq_true,if_false,Except.ok.injEq,forall_eq']
        refine ⟨fun hf hover => hf.not_regain hover (.inl rfl) (by simp),fun hnot => ?_⟩
        exact .of_state hnot fun h => by simp [h] at hterm
  | markRestored =>
    simp only [call,Except.ok.injEq,forall_eq',Guarded,markRestored]
    cases hterm : l.state.terminal with
    | true =>
      simp only [if_true]
      refine ⟨fun _ hover => by simp [terminal_of_handedOver hover] at hterm,fun hnot => ?_⟩
      exact .of_state hnot fun _ => rfl
    | false =>
      simp only [Bool.false_eq_true,if_false]
      refine ⟨fun hf hover => hf.not_regain hover (.inr rfl) (by simp),fun hnot => ?_⟩
      exact .of_state hnot fun h => by simp [h] at hterm
  | beginAdmission =>
    simp only [Guarded,iff_true]
    intro l' hok
    simp only [call,beginAdmission,List.mem_cons,List.not_mem_nil,or_false] at hok
    split_ifs at hok with hstate
    refine .of_state ?_ ?_
    · rintro (h | h) <;> simp [h] at hstate
    · rcases hstate with h | h <;> simp [h,RestoreLeaseState.terminal]
  | admissionRejected =>
    simp only [Guarded,iff_true]
    intro l' hok
    simp only [call,admissionRejected] at hok
    split_ifs at hok with hstate
    have hcommit := not_not.mp hstate
    exact ⟨fun h => by simp [h] at hcommit,fun _ _ => rfl,fun h => by simp [hcommit,
      RestoreLeaseState.terminal] at h⟩
  | markAdmitted =>
    simp only [Guarded,iff_true]
    intro l' hok
    simp only [call,markAdmitted] at hok
    split_ifs at hok with hstate
    have hcommit := not_not.mp hstate
    cases hok
    exact ⟨fun _ => .inl rfl,fun _ h => by simp [capacityHeld] at h,fun h => by simp [hcommit,
      RestoreLeaseState.terminal] at h⟩
  | finish state now reason =>
    by_cases hraise : state.terminal = false ∨ now < 0 ∨ reason = ""
    · have herr : ∀ l', l.call (.finish state now reason) ≠ .ok l' := by
        intro l'
        simp only [call,finish]
        split_ifs with h₁ h₂
        · simp
        · simp
        · tauto
      simp only [Guarded]
      exact ⟨fun _ => by tauto,fun _ l' hok => absurd hok (herr l')⟩
    · rw [not_or,not_or,Bool.not_eq_false] at hraise
      obtain ⟨hstate,hnow,hreason⟩ := hraise
      simp only [call,finish,hstate,hnow,hreason,Bool.true_eq_false,if_false,or_self,
        Except.ok.injEq,forall_eq',Guarded,false_or]
      constructor
      · intro hf
        by_cases hend : l.state.terminal = false
        · exact .inl hend
        · exact .inr (hf.ended (by simpa using hend)).symm
      · intro hguard
        have hterm : ∀ l' : RestoreLease, l'.state = state → l'.capacityHeld = false := by
          intro l' h
          rw [capacityHeld,h]
          cases state <;> simp_all [RestoreLeaseState.terminal]
        refine ⟨fun _ => .inr hstate,fun _ h => ?_,fun hend => ?_⟩
        · rw [hterm _ rfl] at h
          cases h
        · rcases hguard with h | h
          · rw [h] at hend
            cases hend
          · exact h.symm

end RestoreLease
end BeliefKV
