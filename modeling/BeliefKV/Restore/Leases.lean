import BeliefKV.Restore.Lifecycle

/-! The lease table under arbitrary calls: which runs never count a capacity twice. -/
namespace BeliefKV

/-- The lease table. `leases` holds every lease object it ever created, in order; `byRequest`
refers to the one each request got last. -/
structure RestoreLeaseIndex where
  maxActive : ℕ
  leases : List RestoreLease := []
  byRequest : Dict String ℕ := ∅
  sequence : ℕ := 0

namespace RestoreLeaseIndex
variable (s : RestoreLeaseIndex)

/-- The leases the table refers to. -/
def listed : List RestoreLease := s.byRequest.vals.filterMap fun i => s.leases[i]?

def get (requestId : String) : Option RestoreLease := s.byRequest[requestId]?.bind (s.leases[·]?)

/-- Leases that have not ended, by grant time and id. -/
def active : List RestoreLease :=
  (s.listed.filter fun l => !l.state.terminal).mergeSort fun a b =>
    decide (a.grantedTsMs < b.grantedTsMs ∨ a.grantedTsMs = b.grantedTsMs ∧ a.leaseId ≤ b.leaseId)

def reservedTokens : ℤ := ((s.active.filter RestoreLease.capacityHeld).map (·.reservedTokens)).sum

def reservedBytes : ℤ := ((s.active.filter RestoreLease.capacityHeld).map (·.reservedBytes)).sum

/-- Grant a lease for a debt. The sequence number is drawn before the lease's own checks. -/
def grant {Stamp Token : Type} (obligation : RestoreObligation Stamp Token) (grantedTsMs : ℚ)
    (reservedTokens reservedBytes h2dBytes : ℤ) : RestoreLeaseIndex × Except Raised RestoreLease :=
  if (s.get obligation.requestId).any fun l => !l.state.terminal then
    (s,.error (.valueError ("request already owns a restore lease: " ++ obligation.requestId)))
  else if s.maxActive ≤ s.active.length then
    (s,.error (.valueError "restore lease capacity is exhausted"))
  else
    let drawn := { s with sequence := s.sequence + 1 }
    let lease : RestoreLease :=
      { leaseId := "restore-lease-" ++ toString drawn.sequence
        obligationId := obligation.obligationId
        requestId := obligation.requestId
        workflowId := obligation.workflowId
        contextId := obligation.contextId
        grantedTsMs := grantedTsMs
        reservedTokens := reservedTokens
        reservedBytes := reservedBytes
        h2dBytes := h2dBytes }
    match lease.check with
    | .error e => (drawn,.error e)
    | .ok _ =>
      ({ drawn with
          leases := s.leases ++ [lease]
          byRequest := s.byRequest.insert obligation.requestId s.leases.length },.ok lease)

/-- A call on one of the lease objects; a call that raises changes nothing. -/
def onLease (i : ℕ) (c : RestoreLease.Call) : RestoreLeaseIndex :=
  { s with leases := s.leases.modify i fun l => ((l.call c).toOption).getD l }

end RestoreLeaseIndex

/-! ## Runs -/

/-- The lease table and the debts the adapter holds. -/
structure RestoreDesk (Stamp Token : Type) where
  index : RestoreLeaseIndex
  obligations : List (RestoreObligation Stamp Token)

namespace RestoreDesk
variable {Stamp Token : Type}

inductive Input (Stamp Token : Type)
  | grant (k : ℕ) (grantedTsMs : ℚ) (reservedTokens reservedBytes h2dBytes : ℤ)
  | lease (i : ℕ) (c : RestoreLease.Call)
  | obligation (k : ℕ) (c : RestoreObligation.Call Stamp Token)

def step (d : RestoreDesk Stamp Token) : Input Stamp Token → RestoreDesk Stamp Token
  | .grant k ts tokens bytes h2d => match d.obligations[k]? with
    | none => d
    | some o => { d with index := (d.index.grant o ts tokens bytes h2d).1 }
  | .lease i c => { d with index := d.index.onLease i c }
  | .obligation k c => { d with
      obligations := d.obligations.modify k fun o => ((o.call c).toOption).getD o }

def leaseAt (d : RestoreDesk Stamp Token) (i : ℕ) : Option RestoreLease := d.index.leases[i]?

def obligationAt (d : RestoreDesk Stamp Token) (k : ℕ) : Option (RestoreObligation Stamp Token) :=
  d.obligations[k]?

/-- Every method is called in a state it is meant for. -/
def Guarded (d : RestoreDesk Stamp Token) : Input Stamp Token → Prop
  | .grant .. => True
  | .lease i c => ∀ l, d.leaseAt i = some l → l.Guarded c
  | .obligation k c => ∀ o, d.obligationAt k = some o → o.Guarded c

/-- Along the run no capacity is counted again after it was handed over, a lease that is being
handed over is taken back by a rejection only, and what has ended stays as it ended. -/
structure NeverTwice (d : RestoreDesk Stamp Token) (ins : List (Input Stamp Token)) : Prop where
  admitted : ∀ before mid after, ins = before ++ mid ++ after → ∀ i l,
    (before.foldl step d).leaseAt i = some l → l.state = .admitted →
      ∃ l', ((before ++ mid).foldl step d).leaseAt i = some l' ∧ l'.capacityHeld = false
  committing : ∀ before input after, ins = before ++ input :: after → ∀ i l l',
    (before.foldl step d).leaseAt i = some l → l.state = .admissionCommitting →
      ((before ++ [input]).foldl step d).leaseAt i = some l' → l'.capacityHeld = true →
        input = .lease i .admissionRejected
  endedLease : ∀ before mid after, ins = before ++ mid ++ after → ∀ i l,
    (before.foldl step d).leaseAt i = some l → l.state.terminal = true →
      ∃ l', ((before ++ mid).foldl step d).leaseAt i = some l' ∧ l'.ending = l.ending
  endedObligation : ∀ before mid after, ins = before ++ mid ++ after → ∀ k o,
    (before.foldl step d).obligationAt k = some o → o.state.terminal = true →
      ∃ o', ((before ++ mid).foldl step d).obligationAt k = some o' ∧ o'.ending = o.ending

variable {d : RestoreDesk Stamp Token} {i : ℕ} {l : RestoreLease}

/-! ## One step -/

theorem grant_leases {s : RestoreLeaseIndex} (o : RestoreObligation Stamp Token) (ts : ℚ)
    (tokens bytes h2d : ℤ) (h : s.leases[i]? = some l) :
    (s.grant o ts tokens bytes h2d).1.leases[i]? = some l := by
  unfold RestoreLeaseIndex.grant
  split_ifs
  · exact h
  · exact h
  · dsimp only
    split
    · exact h
    · exact List.getElem?_append_left (List.getElem?_eq_some_iff.mp h).1 ▸ h

/-- An object in a list after one of them was called. -/
theorem get_modify {α : Type} {f : α → Except Raised α} {xs : List α} {j : ℕ} {x : α}
    (h : xs[j]? = some x) (n : ℕ) : ∃ x', (xs.modify n fun a => ((f a).toOption).getD a)[j]? = some x' ∧
      (x' = x ∨ n = j ∧ f x = .ok x') := by
  rw [List.getElem?_modify,h]
  by_cases hn : n = j
  · cases hf : f x with
    | error e => exact ⟨x,by simp [hn,hf,Except.toOption],.inl rfl⟩
    | ok x' => exact ⟨x',by simp [hn,hf,Except.toOption],.inr ⟨hn,rfl⟩⟩
  · exact ⟨x,by simp [hn],.inl rfl⟩

/-- A step leaves a lease alone or is a call on it. -/
theorem step_leaseAt (h : d.leaseAt i = some l) (input : Input Stamp Token) :
    ∃ l', (d.step input).leaseAt i = some l' ∧
      (l' = l ∨ ∃ c, input = .lease i c ∧ l.call c = .ok l') := by
  cases input with
  | grant k ts tokens bytes h2d =>
    refine ⟨l,?_,.inl rfl⟩
    simp only [step]
    split
    · exact h
    · exact grant_leases _ ts tokens bytes h2d h
  | lease j c =>
    obtain ⟨l',hl',hcase⟩ := get_modify (f := fun a => a.call c) h j
    refine ⟨l',hl',hcase.imp_right ?_⟩
    rintro ⟨rfl,hok⟩
    exact ⟨c,rfl,hok⟩
  | obligation k c => exact ⟨l,h,.inl rfl⟩

theorem step_obligationAt {k : ℕ} {o : RestoreObligation Stamp Token} (h : d.obligationAt k = some o)
    (input : Input Stamp Token) : ∃ o', (d.step input).obligationAt k = some o' ∧
      (o' = o ∨ ∃ c, input = .obligation k c ∧ o.call c = .ok o') := by
  cases input with
  | grant j ts tokens bytes h2d =>
    refine ⟨o,?_,.inl rfl⟩
    simp only [step]
    split <;> exact h
  | lease j c => exact ⟨o,h,.inl rfl⟩
  | obligation j c =>
    obtain ⟨o',ho',hcase⟩ := get_modify (f := fun a => a.call c) h j
    refine ⟨o',ho',hcase.imp_right ?_⟩
    rintro ⟨rfl,hok⟩
    exact ⟨c,rfl,hok⟩

/-! ## Whole runs -/

section Runs
variable {ins : List (Input Stamp Token)}

theorem admitted_run (hall : Run.AllSteps step Guarded d ins) (h : d.leaseAt i = some l)
    (hl : l.state = .admitted ∨ l.state.terminal = true) :
    ∃ l', (ins.foldl step d).leaseAt i = some l' ∧
      (l'.state = .admitted ∨ l'.state.terminal = true) := by
  induction ins generalizing d l with
  | nil => exact ⟨l,h,hl⟩
  | cons input ins ih =>
    obtain ⟨l',hl',rfl | ⟨c,rfl,hok⟩⟩ := step_leaseAt h input
    · exact ih hall.2 hl' hl
    · have hfair := (RestoreLease.fair_iff_guarded c).mpr (hall.1 l h) l' hok
      refine ih hall.2 hl' ?_
      rcases hl with hl | hl
      · exact hfair.admitted hl
      · have hstate : l'.state = l.state := congrArg Prod.fst (hfair.ended hl)
        exact .inr (hstate ▸ hl)

theorem endedLease_run (hall : Run.AllSteps step Guarded d ins) (h : d.leaseAt i = some l)
    (hl : l.state.terminal = true) :
    ∃ l', (ins.foldl step d).leaseAt i = some l' ∧ l'.ending = l.ending := by
  induction ins generalizing d l with
  | nil => exact ⟨l,h,rfl⟩
  | cons input ins ih =>
    obtain ⟨l',hl',rfl | ⟨c,rfl,hok⟩⟩ := step_leaseAt h input
    · exact ih hall.2 hl' hl
    · have hend := ((RestoreLease.fair_iff_guarded c).mpr (hall.1 l h) l' hok).ended hl
      have hstate : l'.state = l.state := congrArg Prod.fst hend
      obtain ⟨l'',hl'',hend'⟩ := ih hall.2 hl' (hstate ▸ hl)
      exact ⟨l'',hl'',hend'.trans hend⟩

theorem endedObligation_run {k : ℕ} {o : RestoreObligation Stamp Token}
    (hall : Run.AllSteps step Guarded d ins) (h : d.obligationAt k = some o)
    (ho : o.state.terminal = true) :
    ∃ o', (ins.foldl step d).obligationAt k = some o' ∧ o'.ending = o.ending := by
  induction ins generalizing d o with
  | nil => exact ⟨o,h,rfl⟩
  | cons input ins ih =>
    obtain ⟨o',ho',rfl | ⟨c,rfl,hok⟩⟩ := step_obligationAt h input
    · exact ih hall.2 ho' ho
    · have hend := (RestoreObligation.ending_iff_guarded ho c).mpr (hall.1 o h) o' hok
      have hstate : o'.state = o.state := congrArg Prod.fst hend
      obtain ⟨o'',ho'',hend'⟩ := ih hall.2 ho' (hstate ▸ ho)
      exact ⟨o'',ho'',hend'.trans hend⟩

end Runs

theorem capacityHeld_eq_false (h : l.state = .admitted ∨ l.state.terminal = true) :
    l.capacityHeld = false := by
  unfold RestoreLease.capacityHeld
  cases hs : l.state <;> simp_all [RestoreLeaseState.terminal]

/-- From ADMITTED a call that holds no capacity leads on, never back to an admission attempt. -/
theorem settled_of_admitted {l' : RestoreLease} {c : RestoreLease.Call} (h : l.state = .admitted)
    (hok : l.call c = .ok l') (hheld : l'.capacityHeld = false) :
    l'.state = .admitted ∨ l'.state.terminal = true := by
  cases c with
  | markH2dInflight id =>
    simp only [RestoreLease.call,RestoreLease.markH2dInflight] at hok
    split_ifs at hok
    cases hok
    simp [RestoreLease.capacityHeld] at hheld
  | markRestored =>
    cases hok
    simp [RestoreLease.markRestored,h,RestoreLeaseState.terminal,RestoreLease.capacityHeld] at hheld
  | beginAdmission => simp [RestoreLease.call,RestoreLease.beginAdmission,h] at hok
  | admissionRejected => simp [RestoreLease.call,RestoreLease.admissionRejected,h] at hok
  | markAdmitted => simp [RestoreLease.call,RestoreLease.markAdmitted,h] at hok
  | finish state now reason =>
    simp only [RestoreLease.call,RestoreLease.finish] at hok
    split_ifs at hok with hstate
    cases hok
    exact .inr (by simpa using hstate)

/-- The call that was made shows in the next state. -/
theorem step_lease_call {l' : RestoreLease} {c : RestoreLease.Call} (h : d.leaseAt i = some l)
    (hok : l.call c = .ok l') : (d.step (.lease i c)).leaseAt i = some l' := by
  unfold leaseAt at h
  simp [step,leaseAt,RestoreLeaseIndex.onLease,h,hok,Except.toOption]

theorem step_obligation_call {k : ℕ} {o o' : RestoreObligation Stamp Token}
    {c : RestoreObligation.Call Stamp Token} (h : d.obligationAt k = some o)
    (hok : o.call c = .ok o') : (d.step (.obligation k c)).obligationAt k = some o' := by
  unfold obligationAt at h
  simp [step,obligationAt,h,hok,Except.toOption]

/-- Runs count no capacity twice exactly if all their calls are guarded. -/
theorem never_twice_iff_guarded (d : RestoreDesk Stamp Token) (ins : List (Input Stamp Token)) :
    NeverTwice d ins ↔ Run.AllSteps step Guarded d ins := by
  constructor
  · intro hnever
    refine Run.AllSteps.of_split fun before input after hcut => ?_
    have hcut' : ins = before ++ [input] ++ after := by rw [hcut]; simp
    cases input with
    | grant => trivial
    | lease i c =>
      intro l hl
      refine (RestoreLease.fair_iff_guarded c).mp fun l' hok => ?_
      have hnext : ((before ++ [Input.lease i c]).foldl step d).leaseAt i = some l' := by
        rw [List.foldl_append]
        exact step_lease_call hl hok
      constructor
      · intro hstate
        obtain ⟨l'',hl'',hheld⟩ := hnever.admitted before _ after hcut' i l hl hstate
        cases hnext.symm.trans hl''
        exact settled_of_admitted hstate hok hheld
      · intro hstate hheld
        have hinput := hnever.committing before _ after hcut i l l' hl hstate hnext hheld
        cases hinput
        rfl
      · intro hend
        obtain ⟨l'',hl'',hsame⟩ := hnever.endedLease before _ after hcut' i l hl hend
        cases hnext.symm.trans hl''
        exact hsame
    | obligation k c =>
      intro o ho
      cases hend : o.state.terminal with
      | false =>
        cases c with
        | finish state now reason => exact .inl hend
        | _ => trivial
      | true =>
        refine (RestoreObligation.ending_iff_guarded hend c).mp fun o' hok => ?_
        obtain ⟨o'',ho'',hsame⟩ := hnever.endedObligation before _ after hcut' k o ho hend
        rw [List.foldl_append] at ho''
        cases (step_obligation_call ho hok).symm.trans ho''
        exact hsame
  · intro hall
    have hpart {before mid after : List (Input Stamp Token)} (hcut : ins = before ++ mid ++ after) :
        Run.AllSteps step Guarded (before.foldl step d) mid := by
      rw [hcut] at hall
      exact (Run.AllSteps.append.mp (Run.AllSteps.append.mp hall).1).2
    constructor
    · intro before mid after hcut i l hl hstate
      obtain ⟨l',hl',hstate'⟩ := admitted_run (hpart hcut) hl (.inl hstate)
      rw [List.foldl_append]
      exact ⟨l',hl',capacityHeld_eq_false hstate'⟩
    · intro before input after hcut i l l' hl hstate hl' hheld
      have hguard : Guarded (before.foldl step d) input := by
        have hcut' : ins = before ++ [input] ++ after := by rw [hcut]; simp
        exact (hpart hcut').1
      rw [List.foldl_append] at hl'
      obtain ⟨l'',hl'',hsame | ⟨c,rfl,hok⟩⟩ := step_leaseAt hl input
      · cases hl'.symm.trans hl''
        rw [hsame] at hheld
        simp [RestoreLease.capacityHeld,hstate] at hheld
      · cases hl'.symm.trans hl''
        have hfair := (RestoreLease.fair_iff_guarded c).mpr (hguard l hl) l' hok
        rw [hfair.committing hstate hheld]
    · intro before mid after hcut i l hl hend
      rw [List.foldl_append]
      exact endedLease_run (hpart hcut) hl hend
    · intro before mid after hcut k o ho hend
      rw [List.foldl_append]
      exact endedObligation_run (hpart hcut) ho hend

/-- A debt, a lease for it, and the callbacks of a restore that is reported once more after its
request was admitted. -/
def sampleObligation : RestoreObligation Unit Unit :=
  { obligationId := "restore-1"
    requestId := "r"
    workflowId := "w"
    contextId := "c"
    lastProgressTsMs := 0
    ids_nonempty := by decide }

def lateCallback : List (Input Unit Unit) :=
  [.grant 0 0 8 64 64,.lease 0 (.markH2dInflight "h2d"),.lease 0 .markRestored,
    .lease 0 .beginAdmission,.lease 0 .markAdmitted,.lease 0 .markRestored]

/-- The late callback makes the admitted lease count again. -/
theorem late_callback_counts_twice :
    (lateCallback.foldl step ⟨{ maxActive := 1 },[sampleObligation]⟩).index.reservedTokens = 8 ∧
      ¬ NeverTwice ⟨{ maxActive := 1 },[sampleObligation]⟩ lateCallback := by
  constructor
  · decide +kernel
  · intro hnever
    have hadmitted : ((lateCallback.take 5).foldl step ⟨{ maxActive := 1 },[sampleObligation]⟩
        |>.leaseAt 0).map (·.state) = some .admitted := by
      decide +kernel
    obtain ⟨l,hl,hstate⟩ := Option.map_eq_some_iff.mp hadmitted
    obtain ⟨l',hl',hheld⟩ := hnever.admitted (lateCallback.take 5) (lateCallback.drop 5) [] rfl 0 l
      hl hstate
    have hcounts : ((lateCallback.foldl step ⟨{ maxActive := 1 },[sampleObligation]⟩).leaseAt 0).map
        (·.capacityHeld) = some true := by
      decide +kernel
    rw [List.take_append_drop] at hl'
    rw [hl',Option.map_some,hheld] at hcounts
    cases hcounts

end RestoreDesk
end BeliefKV
