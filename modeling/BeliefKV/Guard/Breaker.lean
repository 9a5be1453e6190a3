import BeliefKV.Guard.Suppression

/-! Failures that the backend does not explain are repeated only so often. The controller has one attempt in flight at a time
and asks the guard before each. -/
namespace BeliefKV
namespace RetryGuard
namespace TransferAttemptGuard
variable {guard guard' : TransferAttemptGuard} {key : TransferAttemptKey} {b c : BlockedTransferAttempt} {nowMs : ℚ}
  {reason : String} {config : GuardConfig}

/-- The steps of a guard whose attempts are begun by the dispatcher. -/
inductive Step (config : GuardConfig) : TransferAttemptGuard → TransferAttemptGuard → Prop
  | updateResources (guard : TransferAttemptGuard) (device host : ℕ) (nowMs : ℚ) :
      Step config guard (guard.apply config (.updateResources device host nowMs))
  | query (guard : TransferAttemptGuard) (key : TransferAttemptKey) (nowMs : ℚ) :
      Step config guard (guard.apply config (.query key nowMs))
  | dispatch (guard : TransferAttemptGuard) (commandId : String) (key : TransferAttemptKey) (targetBytes : ℕ) (nowMs : ℚ)
      (hfree : guard.inflight = ∅) (heligible : (guard.isEligible config key nowMs).2 = true) :
      Step config guard ((guard.isEligible config key nowMs).1.apply config (.beginAttempt commandId key targetBytes))
  | recordFailure (guard : TransferAttemptGuard) (commandId : String) (blockers : List TransferBlocker)
      (requiredBytes : ℕ) (nowMs : ℚ) :
      Step config guard (guard.apply config (.recordFailure commandId blockers requiredBytes nowMs))
  | recordSuccess (guard : TransferAttemptGuard) (commandId : String) (nowMs : ℚ) :
      Step config guard (guard.apply config (.recordSuccess commandId nowMs))
  | cancelAttempt (guard : TransferAttemptGuard) (commandId : String) :
      Step config guard (guard.apply config (.cancelAttempt commandId))
  | invalidateContext (guard : TransferAttemptGuard) (contextId : String) (keepEpoch : Option ℤ) (nowMs : ℚ) :
      Step config guard (guard.apply config (.invalidateContext contextId keepEpoch nowMs))
  | reset (guard : TransferAttemptGuard) (nowMs : ℚ) : Step config guard (guard.apply config (.reset nowMs))

abbrev Steps (config : GuardConfig) : TransferAttemptGuard → TransferAttemptGuard → Prop :=
  Relation.ReflTransGen (Step config)

/-! ## What the parts of a step do -/

theorem releaseChanged_frame (guard : TransferAttemptGuard) (key : TransferAttemptKey) (nowMs : ℚ)
    (b : BlockedTransferAttempt) : (guard.releaseChanged key nowMs b).inflight = guard.inflight ∧
      (guard.releaseChanged key nowMs b).unknownFailureCounts = guard.unknownFailureCounts := by
  unfold releaseChanged
  dsimp only
  split_ifs with hvisited hremaining
  · exact ⟨rfl,rfl⟩
  · exact ⟨release_inflight,release_counts⟩
  · exact ⟨rfl,rfl⟩

theorem foldl_frame {l : List BlockedTransferAttempt}
    {f : TransferAttemptGuard → BlockedTransferAttempt → TransferAttemptGuard}
    (hf : ∀ guard b, (f guard b).inflight = guard.inflight ∧
      (f guard b).unknownFailureCounts = guard.unknownFailureCounts) (guard : TransferAttemptGuard) :
    (l.foldl f guard).inflight = guard.inflight ∧
      (l.foldl f guard).unknownFailureCounts = guard.unknownFailureCounts := by
  induction l generalizing guard with
  | nil => exact ⟨rfl,rfl⟩
  | cons b l ih => exact ⟨(ih _).1.trans (hf guard b).1,(ih _).2.trans (hf guard b).2⟩

theorem releaseChangedSnapshots_inflight :
    (guard.releaseChangedSnapshots key nowMs).inflight = guard.inflight :=
  (foldl_frame (fun guard b => releaseChanged_frame guard key nowMs b) guard).1

theorem releaseChangedSnapshots_counts (k : TransferAttemptKey) :
    (guard.releaseChangedSnapshots key nowMs).unknownFailureCounts k =
      if SameIdentity k key ∧ k ≠ key then 0 else guard.unknownFailureCounts k := by
  unfold releaseChangedSnapshots
  dsimp only
  rw [(foldl_frame (fun guard b => releaseChanged_frame guard key nowMs b) guard).2]

theorem releaseAll_inflight (guard : TransferAttemptGuard) (p : TransferAttemptKey → Bool) :
    (guard.releaseAll p nowMs reason).inflight = guard.inflight :=
  (foldl_frame (fun _ _ => ⟨release_inflight,release_counts⟩) guard).1

theorem releaseAll_counts (guard : TransferAttemptGuard) (p : TransferAttemptKey → Bool) (k : TransferAttemptKey) :
    (guard.releaseAll p nowMs reason).unknownFailureCounts k = if p k then 0 else guard.unknownFailureCounts k := by
  unfold releaseAll
  dsimp only
  rw [(foldl_frame (fun _ _ => ⟨release_inflight,release_counts⟩) guard).2]

theorem block_counts (guard : TransferAttemptGuard) (b : BlockedTransferAttempt) (k : TransferAttemptKey) :
    (guard.block b nowMs).unknownFailureCounts k =
      if .unknownBackend ∈ b.blockerCodes ∧ k = b.key then guard.unknownFailureCounts k + 1
      else guard.unknownFailureCounts k := by
  unfold block
  by_cases hunknown : .unknownBackend ∈ b.blockerCodes
  · by_cases hk : k = b.key
    · simp [hunknown,hk]
    · simp [hunknown,hk]
  · simp [hunknown]

theorem mem_releaseAll (guard : TransferAttemptGuard) {p : TransferAttemptKey → Bool}
    (hc : c ∈ (guard.releaseAll p nowMs reason).blocked) : c ∈ guard.blocked := by
  have hfold (l : List BlockedTransferAttempt) : ∀ guard : TransferAttemptGuard,
      c ∈ (l.foldl (fun guard attempt => guard.release attempt nowMs reason) guard).blocked → c ∈ guard.blocked := by
    induction l with
    | nil => exact fun _ hc => hc
    | cons b l ih => exact fun guard hc => (mem_release.mp (ih _ hc)).1
  exact hfold _ guard hc

/-- Like an attempt that was there: with as many failures, and with no other blockers. -/
def Descends (guard : TransferAttemptGuard) (key : TransferAttemptKey) (c : BlockedTransferAttempt) : Prop :=
  c ∈ guard.blocked ∨ c.key = key ∧ ∃ b ∈ guard.blocked, SameIdentity b.key key ∧
    c.identicalFailureCount = b.identicalFailureCount

theorem descends_releaseChangedSnapshots (hc : c ∈ (guard.releaseChangedSnapshots key nowMs).blocked) :
    guard.Descends key c := by
  have hfold (l : List BlockedTransferAttempt) : ∀ guard₁ : TransferAttemptGuard,
      (∀ b ∈ l, b ∈ guard.blocked) → (∀ x ∈ guard₁.blocked, guard.Descends key x) →
      ∀ x ∈ (l.foldl (fun guard attempt => guard.releaseChanged key nowMs attempt) guard₁).blocked,
        guard.Descends key x := by
    induction l with
    | nil => exact fun _ _ hall => hall
    | cons b l ih =>
      intro guard₁ hl hall
      refine ih _ (fun x hx => hl x (List.mem_cons_of_mem b hx)) fun x hx => ?_
      unfold releaseChanged at hx
      dsimp only at hx
      split_ifs at hx with hvisited hremaining
      · obtain rfl | hx := Keyed.mem_store hx
        · exact .inr ⟨rfl,b,hl b List.mem_cons_self,hvisited.1,rfl⟩
        · exact hall x (Keyed.mem_pop.mp hx).1
      · exact hall x (mem_release.mp hx).1
      · exact hall x hx
  exact hfold guard.blocked guard (fun _ hb => hb) (fun _ hx => .inl hx) c hc

/-! ## The order of attempts -/

/-- At most one attempt is in flight, no attempt of its identity is blocked, an identity is blocked under one key, and a key
that has used up its failures is blocked for good. -/
structure Orderly (config : GuardConfig) (guard : TransferAttemptGuard) : Prop where
  one : ∀ (i j : String) a a', guard.inflight[i]? = some a → guard.inflight[j]? = some a' → i = j
  apart : ∀ (i : String) a, guard.inflight[i]? = some a → ∀ b ∈ guard.blocked, ¬ SameIdentity b.key a.key
  unique : ∀ b ∈ guard.blocked, guard.Alone b.key
  counted : ∀ b ∈ guard.blocked, 0 < b.identicalFailureCount
  bounded : ∀ k, guard.unknownFailureCounts k ≤ config.unknownCircuitBreakerFailures
  shut : ∀ k, guard.unknownFailureCounts k = config.unknownCircuitBreakerFailures →
    ∃ b, guard.lookup k = some b ∧ .unknownBackend ∈ b.blockerCodes ∧ b.nextRetryTsMs = none

theorem orderly_start : Orderly config {} where
  one i j a a' h := absurd h (by simp)
  apart i a h := absurd h (by simp)
  unique b hb := absurd hb (by simp)
  counted b hb := absurd hb (by simp)
  bounded k := Nat.zero_le _
  shut k h := absurd h config.breaker_pos.ne

/-- A key in flight has failures left. -/
theorem Orderly.failures_left (h : Orderly config guard) {i : String} {a : AttemptSnapshot}
    (ha : guard.inflight[i]? = some a) :
    guard.unknownFailureCounts a.key < config.unknownCircuitBreakerFailures := by
  refine lt_of_le_of_ne (h.bounded a.key) fun hfull => ?_
  obtain ⟨b,hb,-⟩ := h.shut a.key hfull
  obtain ⟨hmem,hkey⟩ := Keyed.lookup_mem hb
  exact h.apart i a ha b hmem (hkey ▸ sameIdentity_refl b.key)

/-- Blocked for good. -/
def Shut (b : BlockedTransferAttempt) : Prop := .unknownBackend ∈ b.blockerCodes ∧ b.nextRetryTsMs = none

/-- The order is kept where no attempt is new, in flight or blocked, and a key keeps its failures only with what it is
blocked by for good. -/
theorem Orderly.carried (h : Orderly config guard)
    (hinflight : ∀ (i : String) a, guard'.inflight[i]? = some a → guard.inflight[i]? = some a)
    (hblocked : ∀ b ∈ guard'.blocked, ∃ b' ∈ guard.blocked, b'.key = b.key ∧
      b'.identicalFailureCount = b.identicalFailureCount)
    (hcounts : ∀ k, guard'.unknownFailureCounts k = 0 ∨
      guard'.unknownFailureCounts k = guard.unknownFailureCounts k ∧
        ∀ b, guard.lookup k = some b → Shut b → ∃ b', guard'.lookup k = some b' ∧ Shut b') :
    Orderly config guard' where
  one i j a a' ha ha' := h.one i j a a' (hinflight i a ha) (hinflight j a' ha')
  apart i a ha b hb := by
    obtain ⟨b',hb',hkey,-⟩ := hblocked b hb
    rw [← hkey]
    exact h.apart i a (hinflight i a ha) b' hb'
  unique b hb c hc hsame := by
    obtain ⟨b',hb',hkey,-⟩ := hblocked b hb
    obtain ⟨c',hc',hkey',-⟩ := hblocked c hc
    rw [← hkey,← hkey'] at hsame ⊢
    exact h.unique b' hb' c' hc' hsame
  counted b hb := by
    obtain ⟨b',hb',-,hcount⟩ := hblocked b hb
    rw [← hcount]
    exact h.counted b' hb'
  bounded k := by
    obtain hzero | ⟨hsame,-⟩ := hcounts k
    · rw [hzero]
      exact Nat.zero_le _
    · rw [hsame]
      exact h.bounded k
  shut k hk := by
    obtain hzero | ⟨hsame,hstays⟩ := hcounts k
    · exact absurd (hzero.symm.trans hk) config.breaker_pos.ne
    · obtain ⟨b,hb,hshut⟩ := h.shut k (hsame.symm.trans hk)
      exact hstays b hb hshut

theorem Orderly.updateResources (h : Orderly config guard) (d n : ℕ) (nowMs : ℚ) :
    Orderly config (guard.updateResources d n nowMs) := by
  refine h.carried (fun _ _ ha => ha) (fun b hb => ?_) fun k => .inr ⟨rfl,fun b hb hshut => ?_⟩
  · obtain ⟨b',hb',rfl⟩ := List.mem_map.mp hb
    exact ⟨b',hb',(BlockedTransferAttempt.anchor_key d n b').symm,(BlockedTransferAttempt.anchor_count d n b').symm⟩
  · have hmap := Keyed.lookup_map (k := k) (l := guard.blocked) (BlockedTransferAttempt.anchor_key d n)
    simp only [lookup] at hb
    rw [hb] at hmap
    exact ⟨b.anchor d n,hmap,by simpa [Shut] using hshut⟩

theorem Orderly.releaseAll (h : Orderly config guard) (p : TransferAttemptKey → Bool)
    (inflight : Dict String AttemptSnapshot)
    (hinflight : ∀ (i : String) a, inflight[i]? = some a → guard.inflight[i]? = some a) :
    Orderly config ({ guard with inflight := inflight }.releaseAll p nowMs reason) := by
  refine h.carried (fun i a ha => hinflight i a ?_)
    (fun b hb => ⟨b,mem_releaseAll { guard with inflight := inflight } hb,rfl,rfl⟩) fun k => ?_
  · rw [releaseAll_inflight] at ha
    exact ha
  · rw [releaseAll_counts]
    cases hp : p k with
    | true => exact .inl rfl
    | false =>
      refine .inr ⟨rfl,fun b hb hshut => ⟨b,?_,hshut⟩⟩
      rw [(untouched_releaseAll { guard with inflight := inflight } nowMs reason hp).lookup]
      exact hb

theorem Orderly.release (h : Orderly config guard) (hopen : ¬ Shut b) (hfound : guard.lookup b.key = some b) :
    Orderly config (guard.release b nowMs reason) := by
  refine h.carried (fun i a ha => ?_) (fun c hc => ⟨c,(mem_release.mp hc).1,rfl,rfl⟩) fun k => ?_
  · rw [release_inflight] at ha
    exact ha
  · rw [release_counts]
    refine .inr ⟨rfl,fun c hc hshut => ⟨c,?_,hshut⟩⟩
    rw [lookup_release,if_neg]
    · exact hc
    · rintro rfl
      obtain rfl := Option.some.inj (hfound.symm.trans hc)
      exact hopen hshut

theorem Orderly.suppress {events : List TransferGuardEvent} {n : ℕ} (h : Orderly config guard)
    (hfound : guard.lookup b.key = some b) : Orderly config { guard with
      blocked := Keyed.store BlockedTransferAttempt.key b.suppress guard.blocked
      suppressedCount := n
      events := events } := by
  refine h.carried (fun _ _ ha => ha) (fun c hc => ?_) fun k => .inr ⟨rfl,fun c hc hshut => ?_⟩
  · obtain rfl | hc := Keyed.mem_store hc
    · exact ⟨b,(Keyed.lookup_mem hfound).1,rfl,rfl⟩
    · exact ⟨c,hc,rfl,rfl⟩
  · simp only [lookup,Keyed.lookup_store]
    by_cases hk : k = b.suppress.key
    · rw [if_pos hk]
      obtain rfl := Option.some.inj (hfound.symm.trans ((congrArg guard.lookup hk).symm.trans hc))
      exact ⟨_,rfl,hshut⟩
    · rw [if_neg hk]
      exact ⟨c,hc,hshut⟩

/-- What is blocked under the key of a query is there before and after its changed closures are let go. -/
theorem Orderly.lookup_releaseChangedSnapshots (h : Orderly config guard) {k : TransferAttemptKey}
    (hfound : guard.lookup k = some b) (hother : SameIdentity k key → k = key) :
    (guard.releaseChangedSnapshots key nowMs).lookup k = some b := by
  by_cases hsame : SameIdentity key k
  · obtain rfl := hother hsame.symm
    obtain ⟨hb,hkey⟩ := Keyed.lookup_mem hfound
    have halone : guard.Alone k := hkey ▸ h.unique b hb
    rw [halone.releaseChangedSnapshots nowMs]
    exact hfound
  · rw [(untouched_releaseChangedSnapshots guard nowMs hsame).lookup]
    exact hfound

theorem Orderly.releaseChangedSnapshots (h : Orderly config guard) (key : TransferAttemptKey) (nowMs : ℚ) :
    Orderly config (guard.releaseChangedSnapshots key nowMs) where
  one := by
    rw [releaseChangedSnapshots_inflight]
    exact h.one
  apart i a ha b hb hsame := by
    rw [releaseChangedSnapshots_inflight] at ha
    obtain hold | ⟨hkey,b',hb',hidentity,-⟩ := descends_releaseChangedSnapshots hb
    · exact h.apart i a ha b hold hsame
    · exact h.apart i a ha b' hb' (hidentity.trans (hkey ▸ hsame))
  unique b hb c hc hsame := by
    by_cases hidentity : SameIdentity b.key key
    · rw [alone_releaseChangedSnapshots b hb hidentity]
      exact alone_releaseChangedSnapshots c hc (hsame.trans hidentity)
    · obtain hb' | ⟨hkey,-⟩ := descends_releaseChangedSnapshots hb
      · obtain hc' | ⟨hkey,-⟩ := descends_releaseChangedSnapshots hc
        · exact h.unique b hb' c hc' hsame
        · exact absurd (hkey ▸ hsame.symm) hidentity
      · exact absurd (hkey ▸ sameIdentity_refl b.key) hidentity
  counted b hb := by
    obtain hold | ⟨-,b',hb',-,hcount⟩ := descends_releaseChangedSnapshots hb
    · exact h.counted b hold
    · rw [hcount]
      exact h.counted b' hb'
  bounded k := by
    rw [releaseChangedSnapshots_counts]
    split_ifs
    · exact Nat.zero_le _
    · exact h.bounded k
  shut k hk := by
    rw [releaseChangedSnapshots_counts] at hk
    split_ifs at hk with hchanged
    · exact absurd hk config.breaker_pos.ne
    · obtain ⟨b,hb,hcodes⟩ := h.shut k hk
      refine ⟨b,h.lookup_releaseChangedSnapshots hb fun hsame => ?_,hcodes⟩
      by_contra hkey
      exact hchanged ⟨hsame,hkey⟩

/-- A query keeps the order, and the transfer it lets through is not blocked under any key of its identity. -/
theorem Orderly.keyIsEligible (h : Orderly config guard) (hone : config.maxSameSnapshotAttempts = 1)
    (key : TransferAttemptKey) (nowMs : ℚ) :
    Orderly config (guard.keyIsEligible config key nowMs).1 ∧
      (guard.keyIsEligible config key nowMs).1.inflight = guard.inflight ∧
      ((guard.keyIsEligible config key nowMs).2 = true →
        ∀ b ∈ (guard.keyIsEligible config key nowMs).1.blocked, ¬ SameIdentity b.key key) := by
  have hnext := h.releaseChangedSnapshots key nowMs
  have halone : (guard.releaseChangedSnapshots key nowMs).Alone key := alone_releaseChangedSnapshots
  have hinflight : (guard.releaseChangedSnapshots key nowMs).inflight = guard.inflight :=
    releaseChangedSnapshots_inflight
  obtain ⟨hnone,heq⟩ | ⟨b,hb,⟨hfew,-⟩ | ⟨-,hcleared,heq⟩ | ⟨-,-,events,heq⟩⟩ := keyIsEligible_cases guard config key nowMs
  · rw [heq]
    exact ⟨hnext,hinflight,fun _ c hc hsame => Keyed.lookup_eq_none.mp hnone c hc (halone c hc hsame)⟩
  · have hcount := hnext.counted b (Keyed.lookup_mem hb).1
    omega
  · have hkey : b.key = key := (Keyed.lookup_mem hb).2
    rw [heq]
    -- a key that has used up its failures has no time to try again
    have hopen : ¬ Shut b := fun hshut => by
      cases (resourcePredicatesSatisfied_iff.mp hcleared).2 _ hshut.1 with
      | unknown retry hretry htime => exact absurd (hshut.2.symm.trans hretry) (by simp)
    refine ⟨hnext.release hopen (hkey.symm ▸ hb),release_inflight.trans hinflight,fun _ c hc hsame => ?_⟩
    obtain ⟨hmem,hne⟩ := mem_release.mp hc
    exact hne ((halone c hmem hsame).trans hkey.symm)
  · rw [heq]
    have hkey : b.key = key := (Keyed.lookup_mem hb).2
    exact ⟨hnext.suppress (hkey.symm ▸ hb),hinflight,fun htrue => absurd htrue (by simp)⟩

theorem Orderly.isEligible (h : Orderly config guard) (hone : config.maxSameSnapshotAttempts = 1)
    (key : TransferAttemptKey) (nowMs : ℚ) :
    Orderly config (guard.isEligible config key nowMs).1 := by
  unfold TransferAttemptGuard.isEligible
  split_ifs with hoff
  · exact h
  · exact (h.keyIsEligible hone key nowMs).1

theorem Orderly.dispatch {commandId : String} {targetBytes : ℕ} (h : Orderly config guard)
    (hone : config.maxSameSnapshotAttempts = 1) (hfree : guard.inflight = ∅)
    (heligible : (guard.isEligible config key nowMs).2 = true) :
    Orderly config ((guard.isEligible config key nowMs).1.apply config (.beginAttempt commandId key targetBytes)) := by
  have hnext := h.isEligible hone key nowMs
  unfold TransferAttemptGuard.apply TransferAttemptGuard.beginAttempt
  dsimp only
  split_ifs with hthere hoff
  · exact hnext
  · exact hnext
  · have hquery : guard.isEligible config key nowMs = guard.keyIsEligible config key nowMs := by
      unfold TransferAttemptGuard.isEligible
      rw [if_neg hoff]
    rw [hquery] at hnext heligible ⊢
    obtain ⟨-,hinflight,hapart⟩ := h.keyIsEligible hone key nowMs
    have hget (i : String) (a : AttemptSnapshot) (snapshot : AttemptSnapshot)
        (ha : ((guard.keyIsEligible config key nowMs).1.inflight.insert commandId snapshot)[i]? = some a) :
        i = commandId ∧ a = snapshot := by
      rw [hinflight,hfree,Dict.get_insert] at ha
      split_ifs at ha with hsame
      · exact ⟨hsame.symm,(Option.some.inj ha).symm⟩
      · exact absurd ha (by simp)
    refine ⟨fun i j a a' ha ha' => ?_,fun i a ha b hb => ?_,hnext.unique,hnext.counted,hnext.bounded,hnext.shut⟩
    · exact (hget i a _ ha).1.trans (hget j a' _ ha').1.symm
    · rw [(hget i a _ ha).2]
      exact hapart heligible b hb

theorem Orderly.recordFailure {commandId : String} {blockers : List TransferBlocker} {requiredBytes : ℕ}
    (h : Orderly config guard) :
    Orderly config (guard.recordFailure config commandId blockers requiredBytes nowMs).1 := by
  have herase (i : String) (a : AttemptSnapshot) (ha : (guard.inflight.erase commandId)[i]? = some a) :
      i ≠ commandId ∧ guard.inflight[i]? = some a := by
    rw [Dict.get_erase] at ha
    split_ifs at ha with hsame
    exact ⟨Ne.symm hsame,ha⟩
  obtain hnext | ⟨attempt,hattempt,-,hnext⟩ := recordFailure_cases guard config commandId blockers requiredBytes nowMs
  · rw [hnext]
    exact h.carried (fun i a ha => (herase i a ha).2) (fun b hb => ⟨b,hb,rfl,rfl⟩)
      fun k => .inr ⟨rfl,fun b hb hshut => ⟨b,hb,hshut⟩⟩
  · have hleft := h.failures_left hattempt
    have hnone (i : String) (a : AttemptSnapshot) (ha : (guard.inflight.erase commandId)[i]? = some a) : False :=
      (herase i a ha).1 (h.one i commandId a attempt (herase i a ha).2 hattempt)
    rw [hnext]
    constructor
    · exact fun i j a a' ha _ => (hnone i a ha).elim
    · exact fun i a ha => (hnone i a ha).elim
    · intro b hb c hc hsame
      obtain rfl | hb := Keyed.mem_store hb
      · obtain rfl | hc := Keyed.mem_store hc
        · rfl
        · exact absurd hsame (h.apart commandId attempt hattempt c hc)
      · obtain rfl | hc := Keyed.mem_store hc
        · exact absurd hsame.symm (h.apart commandId attempt hattempt b hb)
        · exact h.unique b hb c hc hsame
    · intro b hb
      obtain rfl | hb := Keyed.mem_store hb
      · simp only [blockedAttempt]
        split_ifs <;> omega
      · exact h.counted b hb
    · intro k
      rw [block_counts]
      split_ifs with hunknown
      · have hk : k = attempt.key := hunknown.2
        rw [hk]
        exact hleft
      · exact h.bounded k
    · intro k hk
      rw [block_counts] at hk
      simp only [lookup,block,Keyed.lookup_store]
      split_ifs at hk with hunknown
      · have hkey : k = attempt.key := hunknown.2
        rw [if_pos hunknown.2]
        refine ⟨_,rfl,hunknown.1,?_⟩
        have hcodes : .unknownBackend ∈ normalized blockers := hunknown.1
        have hfull : ¬ guard.unknownFailureCounts attempt.key + 1 < config.unknownCircuitBreakerFailures := by
          rw [← hkey]
          exact hk.ge.not_gt
        simp only [blockedAttempt]
        rw [if_pos hcodes,if_pos hcodes,retryAt,if_neg hfull]
      · obtain ⟨b,hb,hshut⟩ := h.shut k hk
        have hkey : k ≠ (guard.blockedAttempt config attempt commandId blockers requiredBytes nowMs).key := by
          rintro rfl
          exact hleft.ne hk
        refine ⟨b,?_,hshut⟩
        rw [if_neg hkey]
        exact hb

theorem Orderly.step (h : Orderly config guard) (hone : config.maxSameSnapshotAttempts = 1)
    (hstep : Step config guard guard') : Orderly config guard' := by
  cases hstep with
  | updateResources device host nowMs => exact h.updateResources device host nowMs
  | query key nowMs => exact h.isEligible hone key nowMs
  | dispatch commandId key targetBytes nowMs hfree heligible => exact h.dispatch hone hfree heligible
  | recordFailure commandId blockers requiredBytes nowMs => exact h.recordFailure
  | recordSuccess commandId nowMs =>
    unfold TransferAttemptGuard.apply recordSuccess
    dsimp only
    split
    · exact h
    · refine h.releaseAll _ _ fun i a ha => ?_
      rw [Dict.get_erase] at ha
      split_ifs at ha
      exact ha
  | cancelAttempt commandId =>
    refine h.carried (fun i a ha => ?_) (fun b hb => ⟨b,hb,rfl,rfl⟩) fun k => .inr ⟨rfl,fun b hb hshut => ⟨b,hb,hshut⟩⟩
    unfold TransferAttemptGuard.apply TransferAttemptGuard.cancelAttempt at ha
    rw [Dict.get_erase] at ha
    split_ifs at ha
    exact ha
  | invalidateContext contextId keepEpoch nowMs =>
    refine h.releaseAll _ _ fun i a ha => ?_
    rw [Dict.get_select] at ha
    exact (Option.filter_eq_some_iff.mp ha).1
  | reset nowMs =>
    have hempty (i : String) (a : AttemptSnapshot) (ha : (∅ : Dict String AttemptSnapshot)[i]? = some a) :
        guard.inflight[i]? = some a := absurd ha (by simp)
    exact h.releaseAll (fun _ => true) ∅ hempty

theorem orderly_steps (hone : config.maxSameSnapshotAttempts = 1) (hsteps : Steps config {} guard) :
    Orderly config guard := by
  induction hsteps with
  | refl => exact orderly_start
  | tail _ hstep ih => exact ih.step hone hstep

/-- With one attempt for a snapshot, no key fails for unknown reasons more often than the breaker allows; and once it has, it
is kept back at every time and with any room. -/
theorem failures_bounded (hone : config.maxSameSnapshotAttempts = 1) (hsteps : Steps config {} guard)
    (key : TransferAttemptKey) : guard.unknownFailureCounts key ≤ config.unknownCircuitBreakerFailures ∧
      (guard.unknownFailureCounts key = config.unknownCircuitBreakerFailures → config.enabled = true →
        TransferAttemptGuard.guarded key.commandKind = true → ∀ device host nowMs laterMs,
          ((guard.updateResources device host nowMs).isEligible config key laterMs).2 = false) := by
  have horderly := orderly_steps hone hsteps
  refine ⟨horderly.bounded key,fun hfull hon hguarded device host nowMs laterMs => ?_⟩
  have hlater := horderly.updateResources device host nowMs
  obtain ⟨b,hb,hunknown,hretry⟩ := hlater.shut key hfull
  obtain ⟨hmem,hkey⟩ := Keyed.lookup_mem hb
  have hheld : Held key b (guard.updateResources device host nowMs) :=
    ⟨hkey ▸ hlater.unique b hmem,b,hb,b.suppressedCount,b.suppressionReported,rfl⟩
  have hcount := hlater.counted b hmem
  have hquery := (hheld.query laterMs (by omega) ⟨hon,hguarded⟩).1
  by_contra htrue
  rw [Bool.not_eq_false,hquery,resourcePredicatesSatisfied_iff] at htrue
  cases htrue.2 _ hunknown with
  | unknown retry hretry' htime => exact absurd (hretry.symm.trans hretry') (by simp)

/-! ## A run -/

def singleConfig : GuardConfig := { unknownCircuitBreakerFailures := 1, breaker_pos := Nat.one_pos }

/-- The one failure that the breaker allows. -/
def sampleFailed : TransferAttemptGuard :=
  ((({} : TransferAttemptGuard).isEligible singleConfig sampleKey 1).1.apply singleConfig
    (.beginAttempt "transfer" sampleKey 10)).apply singleConfig
    (.recordFailure "transfer" [{ code := .unknownBackend }] 10 2)

theorem sampleFailed_steps : Steps singleConfig {} sampleFailed := by
  have hbegin : Steps singleConfig {} ((({} : TransferAttemptGuard).isEligible singleConfig sampleKey 1).1.apply
      singleConfig (.beginAttempt "transfer" sampleKey 10)) :=
    .single (.dispatch {} "transfer" sampleKey 10 1 rfl (by decide +kernel))
  exact hbegin.tail (.recordFailure _ "transfer" [{ code := .unknownBackend }] 10 2)

theorem failures_bounded_sample :
    ((sampleFailed.updateResources 60 20 3).isEligible singleConfig sampleKey 1000).2 = false :=
  (failures_bounded rfl sampleFailed_steps sampleKey).2 (by decide +kernel) rfl rfl 60 20 3 1000

end TransferAttemptGuard
end RetryGuard
end BeliefKV
