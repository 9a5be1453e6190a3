import BeliefKV.Admission.Index

/-! Tickets of one batch epoch: how they are compiled from the visible entries, how they are
validated against the index, and that no ticket outlives a change of its entry. -/
namespace BeliefKV

/-- Permission to attempt native admission in one epoch. -/
structure AdmissionTicket where
  epoch : ℤ
  rank : ℕ
  requestId : String
  workflowId : String
  invocationId : String
  contextId : String
  contextEpoch : ℕ
  version : AdmissionLocalVersion
  estimatedPrefillTokens : ℤ
  estimatedIncrementalBytes : ℤ
  issuedTsMs : ℚ
  source : String
  reason : String
  reservationCreditBytes : ℤ := 0

/-- The checks of the ticket's constructor, in its order. -/
def AdmissionTicket.check (t : AdmissionTicket) : Except Raised Unit := do
  ensure (0 ≤ t.epoch ∧ 0 ≤ t.estimatedPrefillTokens ∧ 0 ≤ t.estimatedIncrementalBytes ∧
    0 ≤ t.reservationCreditBytes) (.valueError "ticket counters must be non-negative")
  ensure (0 ≤ t.issuedTsMs) (.valueError "ticket issue time must be non-negative")
  ensure (t.requestId ≠ "") (.valueError "ticket request_id must be non-empty")
  ensure (t.workflowId ≠ "") (.valueError "ticket workflow_id must be non-empty")
  ensure (t.invocationId ≠ "") (.valueError "ticket invocation_id must be non-empty")
  ensure (t.contextId ≠ "") (.valueError "ticket context_id must be non-empty")
  ensure (t.source ≠ "") (.valueError "ticket source must be non-empty")
  ensure (t.reason ≠ "") (.valueError "ticket reason must be non-empty")

structure AdmissionTicketEpoch where
  epoch : ℤ
  tickets : List AdmissionTicket
  skipped : List (String × String)
  scannedCount : ℕ
  source : String

def AdmissionTicketEpoch.check (e : AdmissionTicketEpoch) : Except Raised Unit := do
  ensure (0 ≤ e.epoch) (.valueError "ticket epoch counters must be non-negative")
  ensure (e.tickets.map AdmissionTicket.requestId).Nodup
    (.valueError "ticket epoch contains duplicate request IDs")
  ensure (∀ t ∈ e.tickets.map AdmissionTicket.epoch, t = e.epoch)
    (.valueError "ticket belongs to a different epoch")
  ensure (e.source ≠ "") (.valueError "ticket epoch source must be non-empty")

structure AdmissionCompileBudget where
  maxPrefillTokens : ℕ
  maxRequests : ℕ
  maxCandidates : ℕ
  availableHbmBytes : ℕ
  reclaimableHbmBytes : ℕ := 0
  protectedHbmBytes : ℕ := 0

def AdmissionCompileBudget.boundedHbmBytes (b : AdmissionCompileBudget) : ℤ :=
  max 0 ((b.availableHbmBytes : ℤ) + b.reclaimableHbmBytes - b.protectedHbmBytes)

namespace AdmissionTicketCompiler

/-- What the scan over the candidates has collected. -/
structure Scan where
  tickets : List AdmissionTicket := []
  skipped : List (String × String) := []
  remainingTokens : ℤ
  remainingHbm : ℤ
  scanned : ℕ := 0

/-- The arguments of `compile` that the scan reads. -/
structure Request where
  epoch : ℤ
  nowMs : ℚ
  entries : Dict String VisibleAdmissionEntry
  budget : AdmissionCompileBudget
  source : String
  reason : String
  credits : Dict String ℤ

def Scan.skip (scan : Scan) (requestId reason : String) : Scan :=
  { scan with skipped := scan.skipped ++ [(requestId,reason)] }

/-- The ticket for an entry under the budget that is left. -/
def ticketFor (args : Request) (scan : Scan) (requestId : String) (entry : VisibleAdmissionEntry) :
    AdmissionTicket :=
  let required : ℤ := entry.request.estimatedIncrementalBytes
  { epoch := args.epoch
    rank := scan.tickets.length
    requestId := requestId
    workflowId := entry.request.workflowId
    invocationId := entry.request.invocationId
    contextId := entry.request.contextId
    contextEpoch := entry.request.contextEpoch
    version := entry.version
    estimatedPrefillTokens := min entry.request.uncachedPromptTokens scan.remainingTokens
    estimatedIncrementalBytes := required
    issuedTsMs := args.nowMs
    source := args.source
    reason := args.reason
    reservationCreditBytes := min required (args.credits[requestId]?.getD 0) }

/-- One candidate of the scan. -/
def scanOne (args : Request) (scan : Scan) (requestId : String) : Except Raised Scan :=
  match args.entries[requestId]? with
  | none => .ok (scan.skip requestId "request_missing")
  | some entry =>
    let ticket := ticketFor args scan requestId entry
    let budgetedBytes := ticket.estimatedIncrementalBytes - ticket.reservationCreditBytes
    if entry.state ≠ .visiblePending then .ok (scan.skip requestId entry.state.value)
    else if args.budget.maxRequests ≤ scan.tickets.length then
      .ok (scan.skip requestId "request_slot_budget")
    else if 0 < entry.request.uncachedPromptTokens ∧ scan.remainingTokens ≤ 0 then
      .ok (scan.skip requestId "prefill_token_budget")
    else if scan.remainingHbm < budgetedBytes then .ok (scan.skip requestId "bounded_hbm_budget")
    else do
      ticket.check
      .ok { scan with
        tickets := scan.tickets ++ [ticket]
        remainingTokens := scan.remainingTokens - ticket.estimatedPrefillTokens
        remainingHbm := scan.remainingHbm - budgetedBytes }

/-- The scan stops at the candidate bound. -/
def scanAll (args : Request) : Scan → List String → Except Raised Scan
  | scan, [] => .ok scan
  | scan, requestId :: rest =>
    if args.budget.maxCandidates ≤ scan.scanned then .ok scan
    else do
      let scan ← scanOne args { scan with scanned := scan.scanned + 1 } requestId
      scanAll args scan rest

def compile (args : Request) (orderedRequestIds : List String) : Except Raised AdmissionTicketEpoch := do
  ensure (0 ≤ args.epoch ∧ 0 ≤ args.nowMs)
    (.valueError "ticket epoch and time must be non-negative")
  ensure (args.source ≠ "" ∧ args.reason ≠ "")
    (.valueError "ticket source and reason must be non-empty")
  ensure orderedRequestIds.Nodup (.valueError "ordered request IDs must be unique")
  ensure (∀ credit ∈ args.credits.toList, credit.1 ≠ "" ∧ 0 ≤ credit.2)
    (.valueError "admission reservation credits must be non-negative")
  let scan ← scanAll args
    { remainingTokens := args.budget.maxPrefillTokens, remainingHbm := args.budget.boundedHbmBytes }
    orderedRequestIds
  let result : AdmissionTicketEpoch :=
    { epoch := args.epoch
      tickets := scan.tickets
      skipped := scan.skipped
      scannedCount := scan.scanned
      source := args.source }
  result.check
  .ok result

/-- What a ticket says about the entry it was compiled from. -/
structure CompiledFrom (args : Request) (t : AdmissionTicket) (entry : VisibleAdmissionEntry) :
    Prop where
  found : args.entries[t.requestId]? = some entry
  visible : entry.state = .visiblePending
  epoch : t.epoch = args.epoch
  version : t.version = entry.version
  contextEpoch : t.contextEpoch = entry.request.contextEpoch

variable {args : Request} {scan scan' : Scan}

theorem scanOne_compiled {id : String} (h : scanOne args scan id = .ok scan') :
    ∀ t ∈ scan'.tickets, t ∈ scan.tickets ∨ ∃ entry, CompiledFrom args t entry := by
  intro t ht
  unfold scanOne at h
  split at h
  · cases h
    exact .inl ht
  · rename_i entry hentry
    dsimp only at h
    split_ifs at h with hstate
    · cases h
      exact .inl ht
    · cases h
      exact .inl ht
    · cases h
      exact .inl ht
    · cases h
      exact .inl ht
    · obtain ⟨_,-,h⟩ := bind_eq_ok.mp h
      cases h
      rcases List.mem_append.mp ht with ht | ht
      · exact .inl ht
      · rw [List.mem_singleton.mp ht]
        exact .inr ⟨entry,hentry,not_not.mp hstate,rfl,rfl,rfl⟩

theorem scanAll_compiled {ids : List String} (h : scanAll args scan ids = .ok scan') :
    ∀ t ∈ scan'.tickets, t ∈ scan.tickets ∨ ∃ entry, CompiledFrom args t entry := by
  induction ids generalizing scan with
  | nil =>
    cases h
    exact fun t ht => .inl ht
  | cons id ids ih =>
    rw [scanAll] at h
    split_ifs at h
    · cases h
      exact fun t ht => .inl ht
    · obtain ⟨next,hone,hrest⟩ := bind_eq_ok.mp h
      intro t ht
      rcases ih hrest t ht with ht | hnew
      · exact scanOne_compiled hone t ht
      · exact .inr hnew

/-- Every ticket comes from a visible entry, with its version. -/
theorem compile_compiled {ids : List String} {result : AdmissionTicketEpoch}
    (h : compile args ids = .ok result) :
    ∀ t ∈ result.tickets, ∃ entry, CompiledFrom args t entry := by
  obtain ⟨_,-,h⟩ := bind_eq_ok.mp h
  obtain ⟨_,-,h⟩ := bind_eq_ok.mp h
  obtain ⟨_,-,h⟩ := bind_eq_ok.mp h
  obtain ⟨_,-,h⟩ := bind_eq_ok.mp h
  obtain ⟨scan,hscan,h⟩ := bind_eq_ok.mp h
  obtain ⟨_,-,h⟩ := bind_eq_ok.mp h
  cases h
  intro t ht
  exact (scanAll_compiled hscan t ht).resolve_left (by simp)

end AdmissionTicketCompiler

/-! ## Validation -/

structure AdmissionTicketValidation where
  valid : Bool
  reasons : List String

namespace VisibleAdmissionIndex

/-- What speaks against a ticket once its request is found. -/
def mismatches (ticket : AdmissionTicket) (current : VisibleAdmissionEntry)
    (observedBundles : List (String × String)) : List String :=
  (if current.state ≠ .visiblePending then [current.state.value] else []) ++
  (if ticket.contextEpoch ≠ current.request.contextEpoch then ["context_epoch"] else []) ++
  (if ticket.version.requestGeneration ≠ current.version.requestGeneration then
    ["request_generation"] else []) ++
  (if ticket.version.promptGeneration ≠ current.version.promptGeneration then
    ["prompt_generation"] else []) ++
  (if ticket.version.prefixGeneration ≠ current.version.prefixGeneration then
    ["prefix_generation"] else []) ++
  (if ticket.version.transitionGeneration ≠ current.version.transitionGeneration then
    ["transition_generation"] else []) ++
  ticket.version.bundleGenerations.filterMap fun bundle =>
    if observedBundles.lookup bundle.1 ≠ some bundle.2 then
      some ("bundle_generation:" ++ bundle.1) else none

def validateTicket (s : VisibleAdmissionIndex) (ticket : AdmissionTicket) (epoch : ℤ)
    (bundleGenerations : Option (Dict String String)) : AdmissionTicketValidation :=
  let expired := if ticket.epoch ≠ epoch then ["epoch_expired"] else []
  match s.get ticket.requestId with
  | none => ⟨false,expired ++ ["request_missing"]⟩
  | some current =>
    let reasons := expired ++ mismatches ticket current
      ((bundleGenerations.map fun values => values.toList).getD current.version.bundleGenerations)
    ⟨reasons.isEmpty,reasons⟩

theorem lookup_of_mem {b : String × String} {bundles : List (String × String)}
    (hunique : (bundles.map Prod.fst).Nodup) (hb : b ∈ bundles) :
    bundles.lookup b.1 = some b.2 := by
  induction bundles with
  | nil => simp at hb
  | cons a bundles ih =>
    rw [List.map_cons,List.nodup_cons] at hunique
    rcases List.mem_cons.mp hb with rfl | hb
    · exact List.lookup_cons_self
    · have hne : b.1 ≠ a.1 := by
        intro heq
        exact hunique.1 (heq ▸ List.mem_map_of_mem hb)
      rw [List.lookup_cons,beq_eq_false_iff_ne.mpr hne]
      exact ih hunique.2 hb

/-- A ticket for the stored entry passes. -/
theorem validateTicket_of_get {s : VisibleAdmissionIndex} {args : AdmissionTicketCompiler.Request}
    {t : AdmissionTicket} {entry : VisibleAdmissionEntry}
    (ht : AdmissionTicketCompiler.CompiledFrom args t entry)
    (hget : s.get t.requestId = some entry) : (s.validateTicket t t.epoch none).valid = true := by
  have hbundles : t.version.bundleGenerations.filterMap (fun bundle =>
      if entry.version.bundleGenerations.lookup bundle.1 ≠ some bundle.2 then
        some ("bundle_generation:" ++ bundle.1) else none) = [] := by
    rw [List.filterMap_eq_nil_iff,ht.version]
    intro b hb
    rw [lookup_of_mem entry.version.unique hb]
    simp
  simp only [validateTicket,hget,mismatches,ht.version,ht.visible,ht.contextEpoch] at hbundles ⊢
  simpa using hbundles

/-- A ticket that passes has the generation of the stored entry. -/
theorem get_of_validateTicket {s : VisibleAdmissionIndex} {t : AdmissionTicket} {epoch : ℤ}
    {bundles : Option (Dict String String)} (h : (s.validateTicket t epoch bundles).valid = true) :
    ∃ entry, s.get t.requestId = some entry ∧
      entry.version.requestGeneration = t.version.requestGeneration := by
  unfold validateTicket at h
  cases hget : s.get t.requestId with
  | none => simp [hget] at h
  | some entry =>
    refine ⟨entry,rfl,?_⟩
    by_contra hne
    simp [hget,mismatches,Ne.symm hne] at h

/-- No ABA: a ticket of this epoch is valid exactly as long as the entry it was compiled from has
been stored without interruption. -/
theorem ticket_valid_iff_unchanged (before after : List Op)
    (args : AdmissionTicketCompiler.Request) (hentries : args.entries = (empty.run before).entries)
    (ids : List String) (result : AdmissionTicketEpoch)
    (hcompile : AdmissionTicketCompiler.compile args ids = .ok result) (ticket : AdmissionTicket)
    (hticket : ticket ∈ result.tickets) :
    ∃ entry, (empty.run before).get ticket.requestId = some entry ∧
      (((empty.run (before ++ after)).validateTicket ticket ticket.epoch none).valid = true ↔
        (empty.run (before ++ after)).get ticket.requestId = some entry ∧
          ∀ mid, mid <+: after →
            (empty.run (before ++ mid)).get ticket.requestId = some entry) := by
  obtain ⟨entry,hfrom⟩ := AdmissionTicketCompiler.compile_compiled hcompile ticket hticket
  have hstart : (empty.run before).get ticket.requestId = some entry := by
    rw [get,← hentries]
    exact hfrom.found
  have hrun (ops : List Op) : empty.run (before ++ ops) = (empty.run before).run ops := by
    simp [run]
  refine ⟨entry,hstart,fun hvalid => ?_,fun hkept => validateTicket_of_get hfrom hkept.1⟩
  rcases run_dichotomy (s := empty.run before) after ticket.requestId with hkept | hyoung
  · have hall (mid : List Op) (hmid : mid <+: after) :
        (empty.run (before ++ mid)).get ticket.requestId = some entry := by
      rw [hrun,hkept mid hmid,hstart]
    exact ⟨hall after (List.prefix_refl after),hall⟩
  · -- the entry has changed: what is stored now is younger than the ticket
    obtain ⟨now,hnow,hgen⟩ := get_of_validateTicket hvalid
    rw [hrun] at hnow
    have hlt := hyoung.2 now hnow
    have hold := run_drawn before ticket.requestId entry hstart
    rw [hgen,hfrom.version] at hlt
    omega

def sampleRequest : AdmissionRequest :=
  { requestId := "r"
    workflowId := "w"
    invocationId := "i"
    contextId := "c"
    contextEpoch := 0
    submittedTsMs := 0
    uncachedPromptTokens := 4
    expectedOutputTokens := 1
    kvBytesPerToken := 2
    ids_nonempty := by decide
    submitted_nonneg := le_rfl
    kv_pos := by decide }

def sampleArgs : AdmissionTicketCompiler.Request :=
  { epoch := 3
    nowMs := 1
    entries := (empty.run [.register sampleRequest 0 ∅]).entries
    budget := ⟨8,1,4,100,0,0⟩
    source := "native"
    reason := "frontier"
    credits := ∅ }

/-- A request is registered and gets a ticket; then it is cancelled and registered again. -/
theorem ticket_valid_iff_unchanged_sample : ∃ result ticket,
    AdmissionTicketCompiler.compile sampleArgs ["r"] = .ok result ∧ ticket ∈ result.tickets ∧
    ∃ entry, (empty.run [.register sampleRequest 0 ∅]).get ticket.requestId = some entry ∧
      (((empty.run ([.register sampleRequest 0 ∅] ++ [.cancel "r",.register sampleRequest 0 ∅])).validateTicket
          ticket ticket.epoch none).valid = true ↔
        (empty.run ([.register sampleRequest 0 ∅] ++ [.cancel "r",.register sampleRequest 0 ∅])).get
            ticket.requestId = some entry ∧
          ∀ mid, mid <+: [.cancel "r",.register sampleRequest 0 ∅] →
            (empty.run ([.register sampleRequest 0 ∅] ++ mid)).get ticket.requestId = some entry) := by
  have hcount : (AdmissionTicketCompiler.compile sampleArgs ["r"]).toOption.map
      (·.tickets.length) = some 1 := by decide +kernel
  cases hcompile : AdmissionTicketCompiler.compile sampleArgs ["r"] with
  | error e => simp [hcompile,Except.toOption] at hcount
  | ok result =>
    have hlen : result.tickets.length = 1 := by simpa [hcompile,Except.toOption] using hcount
    obtain ⟨ticket,hticket⟩ := List.exists_mem_of_length_pos (l := result.tickets) (by omega)
    exact ⟨result,ticket,rfl,hticket,ticket_valid_iff_unchanged _ _ sampleArgs rfl ["r"] result hcompile
      ticket hticket⟩

end VisibleAdmissionIndex
end BeliefKV
