import BeliefKV.Admission.Tickets
import Mathlib.Tactic

/-! Tickets are compiled within every budget, and a pending request is passed over only where it does not fit. -/
namespace BeliefKV.AdmissionTicketCompiler
variable {args : Request} {scan scan' : Scan} {ids seen : List String} {id : String}

/-- What a ticket takes of the tokens and of the bytes. -/
def tokenSum (tickets : List AdmissionTicket) : ℤ := (tickets.map (·.estimatedPrefillTokens)).sum

def byteSum (tickets : List AdmissionTicket) : ℤ :=
  (tickets.map fun t => t.estimatedIncrementalBytes - t.reservationCreditBytes).sum

/-- The bytes of a request that its credit does not cover. -/
def uncovered (args : Request) (entry : VisibleAdmissionEntry) (requestId : String) : ℤ :=
  let required : ℤ := entry.request.estimatedIncrementalBytes
  required - min required (args.credits[requestId]?.getD 0)

/-- The reasons for which a pending request does not fit after some tickets. -/
def Unfit (args : Request) (before : List AdmissionTicket) (entry : VisibleAdmissionEntry)
    (requestId reason : String) : Prop :=
  reason = "request_slot_budget" ∧ args.budget.maxRequests ≤ before.length ∨
  reason = "prefill_token_budget" ∧ 0 < entry.request.uncachedPromptTokens ∧
    args.budget.maxPrefillTokens ≤ tokenSum before ∨
  reason = "bounded_hbm_budget" ∧ args.budget.boundedHbmBytes < byteSum before + uncovered args entry requestId

/-- What the scan has made of the ids that it has seen. -/
structure Scanned (args : Request) (seen : List String) (scan : Scan) : Prop where
  scanned : scan.scanned = seen.length
  order : (scan.tickets.map (·.requestId)).Sublist seen
  divided : (scan.tickets.map (·.requestId) ++ scan.skipped.map Prod.fst).Perm seen
  ranks : scan.tickets.map (·.rank) = List.range scan.tickets.length
  slots : scan.tickets.length ≤ args.budget.maxRequests
  tokens : scan.remainingTokens + tokenSum scan.tickets = args.budget.maxPrefillTokens
  tokensLeft : 0 ≤ scan.remainingTokens
  bytes : scan.remainingHbm + byteSum scan.tickets = args.budget.boundedHbmBytes
  bytesLeft : 0 ≤ scan.remainingHbm
  credits : ∀ t ∈ scan.tickets, t.reservationCreditBytes ≤ t.estimatedIncrementalBytes ∧
    t.reservationCreditBytes ≤ args.credits[t.requestId]?.getD 0
  passed : ∀ skip ∈ scan.skipped, ∀ entry, args.entries[skip.1]? = some entry → entry.state = .visiblePending →
    ∃ pre post, seen = pre ++ skip.1 :: post ∧
      Unfit args (scan.tickets.filter fun t => t.requestId ∈ pre) entry skip.1 skip.2

theorem Scanned.start : Scanned args []
    { remainingTokens := args.budget.maxPrefillTokens, remainingHbm := args.budget.boundedHbmBytes } where
  scanned := rfl
  order := List.nil_sublist []
  divided := List.Perm.refl []
  ranks := rfl
  slots := Nat.zero_le _
  tokens := add_zero _
  tokensLeft := Int.natCast_nonneg _
  bytes := add_zero _
  bytesLeft := le_max_left _ _
  credits _ ht := absurd ht List.not_mem_nil
  passed _ hskip := absurd hskip List.not_mem_nil

/-- The tickets so far are all before the next id. -/
theorem Scanned.tickets_before (h : Scanned args seen scan) :
    (scan.tickets.filter fun t => t.requestId ∈ seen) = scan.tickets := by
  apply List.filter_eq_self.mpr
  intro t ht
  exact decide_eq_true (h.order.subset (List.mem_map_of_mem ht))

theorem passed_later (id : String) {skipped : List (String × String)} {tickets : List AdmissionTicket}
    (h : ∀ skip ∈ skipped, ∀ entry, args.entries[skip.1]? = some entry → entry.state = .visiblePending →
      ∃ pre post, seen = pre ++ skip.1 :: post ∧
        Unfit args (tickets.filter fun t => t.requestId ∈ pre) entry skip.1 skip.2)
    (more : List AdmissionTicket) (hmore : ∀ t ∈ more, t.requestId ∉ seen) :
    ∀ skip ∈ skipped, ∀ entry, args.entries[skip.1]? = some entry → entry.state = .visiblePending →
      ∃ pre post, seen ++ [id] = pre ++ skip.1 :: post ∧
        Unfit args ((tickets ++ more).filter fun t => t.requestId ∈ pre) entry skip.1 skip.2 := by
  intro skip hskip entry hentry hstate
  obtain ⟨pre,post,hseen,hunfit⟩ := h skip hskip entry hentry hstate
  refine ⟨pre,post ++ [id],by rw [hseen,List.append_assoc,List.cons_append],?_⟩
  have hnone : (more.filter fun t => t.requestId ∈ pre) = [] := by
    apply List.filter_eq_nil_iff.mpr
    intro t ht hpre
    refine hmore t ht ?_
    rw [hseen]
    exact List.mem_append_left _ (of_decide_eq_true hpre)
  rw [List.filter_append,hnone,List.append_nil]
  exact hunfit

/-- An id that is passed over. -/
theorem Scanned.skip (h : Scanned args seen scan) {reason : String}
    (hreason : ∀ entry, args.entries[id]? = some entry → entry.state = .visiblePending →
      Unfit args scan.tickets entry id reason) :
    Scanned args (seen ++ [id]) (Scan.skip { scan with scanned := scan.scanned + 1 } id reason) where
  scanned := by
    rw [List.length_append,List.length_singleton,← h.scanned]
    rfl
  order := h.order.trans (List.sublist_append_left seen [id])
  divided := by
    change (scan.tickets.map _ ++ (scan.skipped ++ [(id,reason)]).map Prod.fst).Perm (seen ++ [id])
    rw [List.map_append,← List.append_assoc]
    exact h.divided.append_right [id]
  ranks := h.ranks
  slots := h.slots
  tokens := h.tokens
  tokensLeft := h.tokensLeft
  bytes := h.bytes
  bytesLeft := h.bytesLeft
  credits := h.credits
  passed := by
    intro skip hskip entry hentry hstate
    obtain hold | hnew := List.mem_append.mp hskip
    · have hlater := passed_later id h.passed [] (fun t ht => absurd ht List.not_mem_nil)
      rw [List.append_nil] at hlater
      exact hlater skip hold entry hentry hstate
    · obtain rfl := List.mem_singleton.mp hnew
      refine ⟨seen,[],rfl,?_⟩
      change Unfit args (scan.tickets.filter fun t => t.requestId ∈ seen) entry id reason
      rw [h.tickets_before]
      exact hreason entry hentry hstate

/-- An id that gets a ticket. -/
theorem Scanned.issue (h : Scanned args seen scan) (hnew : id ∉ seen) {entry : VisibleAdmissionEntry}
    (hslot : scan.tickets.length < args.budget.maxRequests)
    (hbytes : uncovered args entry id ≤ scan.remainingHbm) :
    Scanned args (seen ++ [id]) { scan with
      scanned := scan.scanned + 1
      tickets := scan.tickets ++ [ticketFor args scan id entry]
      remainingTokens := scan.remainingTokens - (ticketFor args scan id entry).estimatedPrefillTokens
      remainingHbm := scan.remainingHbm - uncovered args entry id } where
  scanned := by
    rw [List.length_append,List.length_singleton,← h.scanned]
  order := by
    rw [List.map_append]
    exact h.order.append (List.Sublist.refl [id])
  divided := by
    rw [List.map_append]
    change (scan.tickets.map _ ++ [id] ++ scan.skipped.map Prod.fst).Perm (seen ++ [id])
    refine List.Perm.trans ?_ (h.divided.append_right [id])
    rw [List.append_assoc,List.append_assoc]
    exact (List.perm_append_comm).append_left _
  ranks := by
    rw [List.map_append,h.ranks,List.length_append,List.length_singleton,List.range_succ]
    rfl
  slots := by
    rw [List.length_append,List.length_singleton]
    omega
  tokens := by
    have htokens := h.tokens
    unfold tokenSum at htokens ⊢
    rw [List.map_append,List.sum_append,List.map_singleton,List.sum_singleton]
    dsimp only
    omega
  tokensLeft := by
    have hle : (ticketFor args scan id entry).estimatedPrefillTokens ≤ scan.remainingTokens := min_le_right _ _
    exact sub_nonneg.mpr hle
  bytes := by
    have hsum := h.bytes
    have hcharge : (ticketFor args scan id entry).estimatedIncrementalBytes -
      (ticketFor args scan id entry).reservationCreditBytes = uncovered args entry id := rfl
    unfold byteSum at hsum ⊢
    rw [List.map_append,List.sum_append,List.map_singleton,List.sum_singleton,hcharge]
    dsimp only
    omega
  bytesLeft := sub_nonneg.mpr hbytes
  credits := by
    intro t ht
    obtain hold | hlast := List.mem_append.mp ht
    · exact h.credits t hold
    · obtain rfl := List.mem_singleton.mp hlast
      exact ⟨min_le_left _ _,min_le_right _ _⟩
  passed := passed_later id h.passed [ticketFor args scan id entry] fun t ht => by
    obtain rfl := List.mem_singleton.mp ht
    exact hnew

/-- One candidate: it is passed over, or it gets a ticket. -/
theorem Scanned.one (h : Scanned args seen scan) (hnew : id ∉ seen)
    (hone : scanOne args { scan with scanned := scan.scanned + 1 } id = .ok scan') :
    Scanned args (seen ++ [id]) scan' := by
  unfold scanOne at hone
  cases hentry : args.entries[id]? with
  | none =>
    rw [hentry] at hone
    cases hone
    refine h.skip fun entry hsome _ => ?_
    rw [hentry] at hsome
    cases hsome
  | some entry =>
    rw [hentry] at hone
    have hsame {reason : String} (hunfit : entry.state = .visiblePending → Unfit args scan.tickets entry id reason) :
        ∀ entry', args.entries[id]? = some entry' → entry'.state = .visiblePending →
          Unfit args scan.tickets entry' id reason := by
      intro entry' hsome hstate
      rw [hentry] at hsome
      cases hsome
      exact hunfit hstate
    have htokens := h.tokens
    have hbytes := h.bytes
    dsimp only at hone
    split_ifs at hone with hstate hslot htoken hroom
    · cases hone
      exact h.skip (hsame fun hvisible => absurd hvisible hstate)
    · cases hone
      exact h.skip (hsame fun _ => .inl ⟨rfl,hslot⟩)
    · cases hone
      exact h.skip (hsame fun _ => .inr (.inl ⟨rfl,htoken.1,by omega⟩))
    · cases hone
      have hshort : scan.remainingHbm < uncovered args entry id := hroom
      exact h.skip (hsame fun _ => .inr (.inr ⟨rfl,by omega⟩))
    · obtain ⟨_,-,hone⟩ := bind_eq_ok.mp hone
      cases hone
      exact h.issue hnew (not_le.mp hslot) (not_lt.mp hroom)

/-- The scan ends after as many candidates as there may be. -/
theorem Scanned.all : ∀ {ids seen : List String} {scan : Scan}, Scanned args seen scan → (seen ++ ids).Nodup →
    scanAll args scan ids = .ok scan' →
      Scanned args (seen ++ ids.take (args.budget.maxCandidates - seen.length)) scan' := by
  intro ids
  induction ids with
  | nil =>
    intro seen scan h _ hall
    cases hall
    rw [List.take_nil,List.append_nil]
    exact h
  | cons id ids ih =>
    intro seen scan h hnodup hall
    rw [scanAll] at hall
    by_cases hfull : args.budget.maxCandidates ≤ scan.scanned
    · rw [if_pos hfull] at hall
      cases hall
      have hzero : args.budget.maxCandidates - seen.length = 0 := by
        rw [← h.scanned]
        omega
      rw [hzero,List.take_zero,List.append_nil]
      exact h
    · rw [if_neg hfull] at hall
      obtain ⟨next,hone,hrest⟩ := bind_eq_ok.mp hall
      have hnew : id ∉ seen := fun hmem => (List.nodup_append.mp hnodup).2.2 id hmem id List.mem_cons_self rfl
      have hmore : args.budget.maxCandidates - seen.length =
          args.budget.maxCandidates - (seen ++ [id]).length + 1 := by
        rw [List.length_append,List.length_singleton,← h.scanned]
        omega
      have hstep := ih (h.one hnew hone) (by rwa [← List.append_cons]) hrest
      rw [hmore,List.take_succ_cons]
      rwa [← List.append_cons] at hstep

/-- The tickets of an epoch: who gets them, what they take, and why the other candidates were passed over. -/
structure WithinBudgets (args : Request) (ids : List String) (result : AdmissionTicketEpoch) : Prop where
  pending : ∀ t ∈ result.tickets, ∃ entry, args.entries[t.requestId]? = some entry ∧ entry.state = .visiblePending
  order : (result.tickets.map (·.requestId)).Sublist (ids.take args.budget.maxCandidates)
  ranks : result.tickets.map (·.rank) = List.range result.tickets.length
  slots : result.tickets.length ≤ args.budget.maxRequests
  tokens : tokenSum result.tickets ≤ args.budget.maxPrefillTokens
  bytes : byteSum result.tickets ≤ args.budget.boundedHbmBytes
  credits : ∀ t ∈ result.tickets, t.reservationCreditBytes ≤ t.estimatedIncrementalBytes ∧
    t.reservationCreditBytes ≤ args.credits[t.requestId]?.getD 0
  scanned : result.scannedCount = (ids.take args.budget.maxCandidates).length
  divided : (result.tickets.map (·.requestId) ++ result.skipped.map Prod.fst).Perm
    (ids.take args.budget.maxCandidates)
  distinct : (result.tickets.map (·.requestId) ++ result.skipped.map Prod.fst).Nodup
  passed : ∀ skip ∈ result.skipped, ∀ entry, args.entries[skip.1]? = some entry → entry.state = .visiblePending →
    ∃ pre post, ids.take args.budget.maxCandidates = pre ++ skip.1 :: post ∧
      Unfit args (result.tickets.filter fun t => t.requestId ∈ pre) entry skip.1 skip.2

open VisibleAdmissionIndex

def namedRequest (id : String) (h : id ≠ "") : AdmissionRequest :=
  { sampleRequest with requestId := id, ids_nonempty := ⟨h,sampleRequest.ids_nonempty.2⟩ }

/-- Three requests of ten bytes each, one of which has a credit, and room for fourteen bytes. -/
def tightArgs : Request :=
  { sampleArgs with
    entries := (empty.run [.register sampleRequest 0 ∅,.register (namedRequest "s" (by decide)) 0 ∅,
      .register (namedRequest "t" (by decide)) 0 ∅]).entries
    budget := ⟨8,8,100,14,0,0⟩
    credits := (∅ : Dict String ℤ).insert "s" 6 }

end BeliefKV.AdmissionTicketCompiler
