import BeliefKV.Guard.Attempts

/-! How long a transfer is kept back: until its closure, its context or the room has changed. -/
namespace BeliefKV
namespace RetryGuard

theorem sameIdentity_refl (key : TransferAttemptKey) : SameIdentity key key := ⟨rfl,rfl,rfl,rfl⟩

theorem SameIdentity.symm {left right : TransferAttemptKey} (h : SameIdentity left right) : SameIdentity right left :=
  ⟨h.1.symm,h.2.1.symm,h.2.2.1.symm,h.2.2.2.symm⟩

theorem SameIdentity.trans {left middle right : TransferAttemptKey} (h : SameIdentity left middle)
    (h' : SameIdentity middle right) : SameIdentity left right :=
  ⟨h.1.trans h'.1,h.2.1.trans h'.2.1,h.2.2.1.trans h'.2.2.1,h.2.2.2.trans h'.2.2.2⟩

@[simp] theorem BlockedTransferAttempt.anchor_key (d h : ℕ) (b : BlockedTransferAttempt) : (b.anchor d h).key = b.key := by
  unfold anchor
  split_ifs <;> rfl

@[simp] theorem BlockedTransferAttempt.anchor_codes (d h : ℕ) (b : BlockedTransferAttempt) :
    (b.anchor d h).blockerCodes = b.blockerCodes := by
  unfold anchor
  split_ifs <;> rfl

@[simp] theorem BlockedTransferAttempt.anchor_count (d h : ℕ) (b : BlockedTransferAttempt) :
    (b.anchor d h).identicalFailureCount = b.identicalFailureCount := by
  unfold anchor
  split_ifs <;> rfl

theorem BlockedTransferAttempt.anchor_bytes (d h : ℕ) (b : BlockedTransferAttempt) :
    (b.anchor d h).requiredBytes = b.requiredBytes := by
  unfold anchor
  split_ifs <;> rfl

@[simp] theorem BlockedTransferAttempt.anchor_retry (d h : ℕ) (b : BlockedTransferAttempt) :
    (b.anchor d h).nextRetryTsMs = b.nextRetryTsMs := by
  unfold anchor
  split_ifs <;> rfl

namespace TransferAttemptGuard
variable {guard guard' : TransferAttemptGuard} {key K : TransferAttemptKey} {b c : BlockedTransferAttempt} {nowMs : ℚ}
  {reason : String} {config : GuardConfig}

/-! ## What an operation leaves alone -/

/-- The attempts of the identity of `K` are as they were, or gone, and the one under `K` is there. -/
structure Untouched (K : TransferAttemptKey) (guard guard' : TransferAttemptGuard) : Prop where
  lookup : guard'.lookup K = guard.lookup K
  known : ∀ c ∈ guard'.blocked, SameIdentity c.key K → c ∈ guard.blocked

theorem untouched_refl : Untouched K guard guard := ⟨rfl,fun _ hc _ => hc⟩

theorem Untouched.trans {guard'' : TransferAttemptGuard} (h : Untouched K guard guard') (h' : Untouched K guard' guard'') :
    Untouched K guard guard'' :=
  ⟨h'.lookup.trans h.lookup,fun c hc hsame => h.known c (h'.known c hc hsame) hsame⟩

theorem lookup_release : (guard.release b nowMs reason).lookup key = if key = b.key then none else guard.lookup key := by
  unfold release
  split_ifs with hnone hkey hkey
  · rw [hkey,hnone]
  · rfl
  · simp [lookup,Keyed.lookup_pop,hkey]
  · simp [lookup,Keyed.lookup_pop,hkey]

theorem mem_release : c ∈ (guard.release b nowMs reason).blocked ↔ c ∈ guard.blocked ∧ c.key ≠ b.key := by
  unfold release
  split_ifs with hnone
  · exact ⟨fun hc => ⟨hc,Keyed.lookup_eq_none.mp hnone c hc⟩,fun hc => hc.1⟩
  · exact Keyed.mem_pop

theorem release_counts : (guard.release b nowMs reason).unknownFailureCounts = guard.unknownFailureCounts := by
  unfold release
  split_ifs <;> rfl

theorem release_inflight : (guard.release b nowMs reason).inflight = guard.inflight := by
  unfold release
  split_ifs <;> rfl

theorem untouched_release (h : b.key ≠ K) : Untouched K guard (guard.release b nowMs reason) where
  lookup := by rw [lookup_release,if_neg (Ne.symm h)]
  known c hc _ := (mem_release.mp hc).1

/-- Attempts of other identities are neither let go nor taken along. -/
theorem untouched_releaseChanged (h : ¬ SameIdentity key K) :
    Untouched K guard (guard.releaseChanged key nowMs b) := by
  have hkey : key ≠ K := fun hsame => h (hsame ▸ sameIdentity_refl K)
  unfold releaseChanged
  dsimp only
  split_ifs with hvisited hremaining
  · have hb : b.key ≠ K := fun hsame => h (hsame ▸ hvisited.1.symm)
    constructor
    · simp only [TransferAttemptGuard.lookup,Keyed.lookup_store,Keyed.lookup_pop]
      rw [if_neg (Ne.symm hkey),if_neg (Ne.symm hb)]
    · intro c hc hsame
      obtain rfl | hc := Keyed.mem_store hc
      · exact absurd hsame h
      · exact (Keyed.mem_pop.mp hc).1
  · exact untouched_release fun hsame => h (hsame ▸ hvisited.1.symm)
  · exact untouched_refl

theorem untouched_foldl (guard : TransferAttemptGuard) (l : List BlockedTransferAttempt)
    (f : TransferAttemptGuard → BlockedTransferAttempt → TransferAttemptGuard)
    (hf : ∀ guard, ∀ b ∈ l, Untouched K guard (f guard b)) : Untouched K guard (l.foldl f guard) := by
  induction l generalizing guard with
  | nil => exact untouched_refl
  | cons b l ih =>
    exact (hf guard b List.mem_cons_self).trans (ih _ fun guard c hc => hf guard c (List.mem_cons_of_mem b hc))

theorem untouched_releaseChangedSnapshots (guard : TransferAttemptGuard) (nowMs : ℚ) (h : ¬ SameIdentity key K) :
    Untouched K guard (guard.releaseChangedSnapshots key nowMs) := by
  have hfold := untouched_foldl (K := K) guard guard.blocked
    (fun guard attempt => guard.releaseChanged key nowMs attempt) fun guard b _ => untouched_releaseChanged h
  exact ⟨hfold.lookup,hfold.known⟩

/-- How a query ends once the changed closures are let go. -/
theorem keyIsEligible_cases (guard : TransferAttemptGuard) (config : GuardConfig) (key : TransferAttemptKey) (nowMs : ℚ) :
    ((guard.releaseChangedSnapshots key nowMs).lookup key = none ∧
        guard.keyIsEligible config key nowMs = (guard.releaseChangedSnapshots key nowMs,true)) ∨
      ∃ b, (guard.releaseChangedSnapshots key nowMs).lookup key = some b ∧
        ((b.identicalFailureCount < config.maxSameSnapshotAttempts ∧
            guard.keyIsEligible config key nowMs = (guard.releaseChangedSnapshots key nowMs,true)) ∨
          (config.maxSameSnapshotAttempts ≤ b.identicalFailureCount ∧
            (guard.releaseChangedSnapshots key nowMs).resourcePredicatesSatisfied b nowMs = true ∧
            guard.keyIsEligible config key nowMs =
              ((guard.releaseChangedSnapshots key nowMs).release b nowMs "resource_predicate_satisfied",true)) ∨
          (config.maxSameSnapshotAttempts ≤ b.identicalFailureCount ∧
            (guard.releaseChangedSnapshots key nowMs).resourcePredicatesSatisfied b nowMs = false ∧
            ∃ events, guard.keyIsEligible config key nowMs =
              ({ guard.releaseChangedSnapshots key nowMs with
                blocked := Keyed.store BlockedTransferAttempt.key b.suppress
                  (guard.releaseChangedSnapshots key nowMs).blocked
                suppressedCount := (guard.releaseChangedSnapshots key nowMs).suppressedCount + 1
                events := events },false))) := by
  unfold keyIsEligible
  dsimp only
  split
  · rename_i hnone
    exact .inl ⟨hnone,rfl⟩
  · rename_i b hb
    refine .inr ⟨b,hb,?_⟩
    by_cases hfew : b.identicalFailureCount < config.maxSameSnapshotAttempts
    · rw [if_pos hfew]
      exact .inl ⟨hfew,rfl⟩
    · rw [if_neg hfew]
      by_cases hcleared : (guard.releaseChangedSnapshots key nowMs).resourcePredicatesSatisfied b nowMs = true
      · rw [if_pos hcleared]
        exact .inr (.inl ⟨by omega,hcleared,rfl⟩)
      · rw [if_neg hcleared]
        exact .inr (.inr ⟨by omega,by simpa using hcleared,_,rfl⟩)

theorem untouched_store (h : ¬ SameIdentity b.key K) (hblocked : guard'.blocked =
    Keyed.store BlockedTransferAttempt.key b guard.blocked) : Untouched K guard guard' where
  lookup := by
    have hkey : K ≠ b.key := fun hsame => h (hsame ▸ sameIdentity_refl K)
    simp only [TransferAttemptGuard.lookup,hblocked,Keyed.lookup_store]
    rw [if_neg hkey]
  known c hc hsame := by
    rw [hblocked] at hc
    obtain rfl | hc := Keyed.mem_store hc
    · exact absurd hsame h
    · exact hc

theorem untouched_isEligible (h : ¬ SameIdentity key K) : Untouched K guard (guard.isEligible config key nowMs).1 := by
  have hchanged := untouched_releaseChangedSnapshots guard nowMs h
  have hkey : key ≠ K := fun hsame => h (hsame ▸ sameIdentity_refl K)
  unfold isEligible
  split_ifs with hoff
  · exact untouched_refl
  · obtain ⟨-,hnext⟩ | ⟨b,hb,⟨-,hnext⟩ | ⟨-,-,hnext⟩ | ⟨-,-,events,hnext⟩⟩ :=
      keyIsEligible_cases guard config key nowMs
    · rw [hnext]
      exact hchanged
    · rw [hnext]
      exact hchanged
    · rw [hnext]
      exact hchanged.trans (untouched_release ((Keyed.lookup_mem hb).2 ▸ hkey))
    · rw [hnext]
      exact hchanged.trans (untouched_store (b := b.suppress) (fun hsame => h ((Keyed.lookup_mem hb).2 ▸ hsame)) rfl)

theorem untouched_releaseAll (guard : TransferAttemptGuard) {p : TransferAttemptKey → Bool} (nowMs : ℚ) (reason : String)
    (h : p K = false) : Untouched K guard (guard.releaseAll p nowMs reason) := by
  have hfold := untouched_foldl (K := K) guard (guard.blocked.filter fun attempt => p attempt.key)
    (fun guard attempt => guard.release attempt nowMs reason) fun guard b hb => untouched_release fun hsame => by
      have hpicked := (List.mem_filter.mp hb).2
      rw [hsame,h] at hpicked
      exact absurd hpicked (by simp)
  exact ⟨hfold.lookup,hfold.known⟩

theorem recordFailure_cases (guard : TransferAttemptGuard) (config : GuardConfig) (commandId : String)
    (blockers : List TransferBlocker) (requiredBytes : ℕ) (nowMs : ℚ) :
    (guard.recordFailure config commandId blockers requiredBytes nowMs).1 =
        { guard with inflight := guard.inflight.erase commandId } ∨
      ∃ attempt, guard.inflight[commandId]? = some attempt ∧ blockers ≠ [] ∧
        (guard.recordFailure config commandId blockers requiredBytes nowMs).1 =
          { guard with inflight := guard.inflight.erase commandId }.block
            (guard.blockedAttempt config attempt commandId blockers requiredBytes nowMs) nowMs := by
  unfold recordFailure
  dsimp only
  split
  · exact .inl rfl
  · rename_i attempt hattempt
    split_ifs with hoff hnil
    · exact .inl rfl
    · exact .inl rfl
    · exact .inr ⟨attempt,hattempt,hnil,rfl⟩

theorem untouched_recordFailure {commandId : String} {blockers : List TransferBlocker} {requiredBytes : ℕ}
    (h : ∀ attempt, guard.inflight[commandId]? = some attempt → ¬ SameIdentity attempt.key K) :
    Untouched K guard (guard.recordFailure config commandId blockers requiredBytes nowMs).1 := by
  obtain hnext | ⟨attempt,hattempt,-,hnext⟩ := recordFailure_cases guard config commandId blockers requiredBytes nowMs
  · rw [hnext]
    exact ⟨rfl,fun _ hc _ => hc⟩
  · rw [hnext]
    exact untouched_store (h attempt hattempt) rfl

/-! ## One key for an identity -/

/-- No other key of the identity of `K` is blocked. -/
def Alone (K : TransferAttemptKey) (guard : TransferAttemptGuard) : Prop :=
  ∀ c ∈ guard.blocked, SameIdentity c.key K → c.key = K

theorem Alone.untouched (h : guard.Alone K) (hframe : Untouched K guard guard') : guard'.Alone K :=
  fun c hc hsame => h c (hframe.known c hc hsame) hsame

theorem mem_releaseChanged (hc : c ∈ (guard.releaseChanged key nowMs b).blocked) : c.key = key ∨ c ∈ guard.blocked := by
  unfold releaseChanged at hc
  dsimp only at hc
  split_ifs at hc with hvisited hremaining
  · obtain rfl | hc := Keyed.mem_store hc
    · exact .inl rfl
    · exact .inr (Keyed.mem_pop.mp hc).1
  · exact .inr (mem_release.mp hc).1
  · exact .inr hc

theorem releaseChanged_ne (hb : SameIdentity b.key key ∧ b.key ≠ key)
    (hc : c ∈ (guard.releaseChanged key nowMs b).blocked) : c.key ≠ b.key := by
  unfold releaseChanged at hc
  dsimp only at hc
  rw [if_pos hb] at hc
  split_ifs at hc with hremaining
  · obtain rfl | hc := Keyed.mem_store hc
    · exact Ne.symm hb.2
    · exact (Keyed.mem_pop.mp hc).2
  · exact (mem_release.mp hc).2

/-- Each attempt of the identity that is still there is still to come, or is under the current key. -/
theorem alone_foldl {l : List BlockedTransferAttempt} (h : ∀ c ∈ guard.blocked, SameIdentity c.key K →
    c.key = K ∨ ∃ b ∈ l, b.key = c.key) :
    (l.foldl (fun guard attempt => guard.releaseChanged K nowMs attempt) guard).Alone K := by
  induction l generalizing guard with
  | nil => exact fun c hc hsame => (h c hc hsame).resolve_right (by simp)
  | cons b l ih =>
    refine ih fun c hc hsame => ?_
    obtain hkey | hold := mem_releaseChanged hc
    · exact .inl hkey
    · obtain hkey | ⟨b',hb',hsame'⟩ := h c hold hsame
      · exact .inl hkey
      · obtain rfl | hb' := List.mem_cons.mp hb'
        · by_cases hkey : c.key = K
          · exact .inl hkey
          · have hvisited : SameIdentity b'.key K ∧ b'.key ≠ K := hsame' ▸ ⟨hsame,hkey⟩
            exact absurd hsame'.symm (releaseChanged_ne hvisited hc)
        · exact .inr ⟨b',hb',hsame'⟩

theorem alone_releaseChangedSnapshots : (guard.releaseChangedSnapshots K nowMs).Alone K :=
  alone_foldl fun c hc _ => .inr ⟨c,hc,rfl⟩

theorem releaseChanged_alone (h : b.key = K ∨ ¬ SameIdentity b.key K) : guard.releaseChanged K nowMs b = guard := by
  unfold releaseChanged
  dsimp only
  rw [if_neg]
  rintro ⟨hsame,hkey⟩
  exact h.elim hkey (fun hother => hother hsame)

/-- Where the key is the only one of its identity there is nothing to let go. -/
theorem Alone.releaseChangedSnapshots (h : guard.Alone K) (nowMs : ℚ) : guard.releaseChangedSnapshots K nowMs =
    { guard with unknownFailureCounts := fun key =>
        if SameIdentity key K ∧ key ≠ K then 0 else guard.unknownFailureCounts key } := by
  have hfold (l : List BlockedTransferAttempt) (hl : ∀ b ∈ l, SameIdentity b.key K → b.key = K) :
      l.foldl (fun guard attempt => guard.releaseChanged K nowMs attempt) guard = guard := by
    induction l with
    | nil => rfl
    | cons b l ih =>
      have hb : b.key = K ∨ ¬ SameIdentity b.key K := by
        by_cases hsame : SameIdentity b.key K
        · exact .inl (hl b List.mem_cons_self hsame)
        · exact .inr hsame
      rw [List.foldl_cons,releaseChanged_alone hb]
      exact ih fun c hc => hl c (List.mem_cons_of_mem b hc)
  unfold TransferAttemptGuard.releaseChangedSnapshots
  rw [hfold guard.blocked h]

/-! ## Runs -/

inductive Op
  | updateResources (deviceAvailableBytes hostAvailableBytes : ℕ) (nowMs : ℚ)
  | query (key : TransferAttemptKey) (nowMs : ℚ)
  | beginAttempt (commandId : String) (key : TransferAttemptKey) (targetBytes : ℕ)
  | recordFailure (commandId : String) (blockers : List TransferBlocker) (requiredBytes : ℕ) (nowMs : ℚ)
  | recordSuccess (commandId : String) (nowMs : ℚ)
  | cancelAttempt (commandId : String)
  | invalidateContext (contextId : String) (keepEpoch : Option ℤ) (nowMs : ℚ)
  | reset (nowMs : ℚ)

def apply (config : GuardConfig) (guard : TransferAttemptGuard) : Op → TransferAttemptGuard
  | .updateResources device host nowMs => guard.updateResources device host nowMs
  | .query key nowMs => (guard.isEligible config key nowMs).1
  | .beginAttempt commandId key targetBytes =>
    match guard.beginAttempt config commandId key targetBytes with
    | .ok next => next
    | .error _ => guard
  | .recordFailure commandId blockers requiredBytes nowMs =>
    (guard.recordFailure config commandId blockers requiredBytes nowMs).1
  | .recordSuccess commandId nowMs => guard.recordSuccess commandId nowMs
  | .cancelAttempt commandId => guard.cancelAttempt commandId
  | .invalidateContext contextId keepEpoch nowMs => guard.invalidateContext contextId keepEpoch nowMs
  | .reset nowMs => guard.reset nowMs

def run (config : GuardConfig) (guard : TransferAttemptGuard) (ops : List Op) : TransferAttemptGuard :=
  ops.foldl (apply config) guard

/-- Nothing happens to the identity of `K` but that its transfer is asked for and kept back. -/
def Quiet (config : GuardConfig) (K : TransferAttemptKey) (guard : TransferAttemptGuard) : Op → Prop
  | .query key nowMs => SameIdentity key K → key = K ∧ (guard.isEligible config key nowMs).2 = false
  | .recordFailure commandId _ _ _ =>
    ∀ attempt, guard.inflight[commandId]? = some attempt → ¬ SameIdentity attempt.key K
  | .recordSuccess commandId _ =>
    ∀ attempt, guard.inflight[commandId]? = some attempt → ¬ SameIdentity attempt.key K
  | .invalidateContext contextId keepEpoch _ => stale contextId keepEpoch K = false
  | .reset _ => False
  | _ => True

def QuietRun (config : GuardConfig) (K : TransferAttemptKey) : TransferAttemptGuard → List Op → Prop
  | _, [] => True
  | guard, op :: ops => guard.Quiet config K op ∧ QuietRun config K (guard.apply config op) ops

/-- The room that is reported after the failure is kept with the attempt. -/
def anchored (b : BlockedTransferAttempt) : Op → BlockedTransferAttempt
  | .updateResources device host _ => b.anchor device host
  | _ => b

/-- `c` differs from `b` at most in what it says about being kept back. -/
def Like (c b : BlockedTransferAttempt) : Prop :=
  ∃ n reported, c = { b with suppressedCount := n, suppressionReported := reported }

structure Held (K : TransferAttemptKey) (b : BlockedTransferAttempt) (guard : TransferAttemptGuard) : Prop where
  alone : guard.Alone K
  found : ∃ c, guard.lookup K = some c ∧ Like c b

theorem Held.untouched (h : Held K b guard) (hframe : Untouched K guard guard') : Held K b guard' :=
  ⟨h.alone.untouched hframe,h.found.imp fun _ hc => ⟨hframe.lookup.trans hc.1,hc.2⟩⟩

theorem like_suppress (h : Like c b) : Like c.suppress b := by
  obtain ⟨n,reported,rfl⟩ := h
  exact ⟨n + 1,true,rfl⟩

theorem Like.anchor (h : Like c b) (d n : ℕ) : Like (c.anchor d n) (b.anchor d n) := by
  obtain ⟨m,reported,rfl⟩ := h
  unfold BlockedTransferAttempt.anchor
  split_ifs with hpending
  · exact ⟨m,reported,rfl⟩
  · exact ⟨m,reported,rfl⟩

/-- A query that keeps a transfer back leaves it blocked under its key, and no other key of the identity. -/
theorem held_of_query (hfalse : (guard.isEligible config K nowMs).2 = false) :
    ∃ b, (guard.isEligible config K nowMs).1.lookup K = some b ∧ config.maxSameSnapshotAttempts ≤ b.identicalFailureCount ∧
      (guard.isEligible config K nowMs).1.Alone K := by
  unfold isEligible at hfalse ⊢
  split_ifs at hfalse ⊢ with hoff
  obtain ⟨-,hnext⟩ | ⟨b,hb,⟨-,hnext⟩ | ⟨-,-,hnext⟩ | ⟨hmany,-,events,hnext⟩⟩ := keyIsEligible_cases guard config K nowMs
  · rw [hnext] at hfalse
    exact absurd hfalse (by simp)
  · rw [hnext] at hfalse
    exact absurd hfalse (by simp)
  · rw [hnext] at hfalse
    exact absurd hfalse (by simp)
  · have hkey : b.key = K := (Keyed.lookup_mem hb).2
    rw [hnext]
    refine ⟨b.suppress,?_,hmany,fun c hc hsame => ?_⟩
    · have hkey' : K = b.suppress.key := hkey.symm
      simp only [TransferAttemptGuard.lookup,Keyed.lookup_store]
      rw [if_pos hkey']
    · obtain rfl | hc := Keyed.mem_store hc
      · exact hkey
      · exact alone_releaseChangedSnapshots c hc hsame

/-- A query of the only key of its identity looks at the attempt that is there. -/
theorem Held.query (nowMs : ℚ) (h : Held K b guard) (hmany : config.maxSameSnapshotAttempts ≤ b.identicalFailureCount)
    (hon : config.enabled = true ∧ TransferAttemptGuard.guarded K.commandKind = true) :
    ((guard.isEligible config K nowMs).2 = true ↔ guard.resourcePredicatesSatisfied b nowMs = true) ∧
      ((guard.isEligible config K nowMs).2 = false → Held K b (guard.isEligible config K nowMs).1) := by
  obtain ⟨c,hc,hlike⟩ := h.found
  have hsame : guard.resourcePredicatesSatisfied c nowMs = guard.resourcePredicatesSatisfied b nowMs := by
    obtain ⟨n,reported,rfl⟩ := hlike
    rfl
  have hcount : config.maxSameSnapshotAttempts ≤ c.identicalFailureCount := by
    obtain ⟨n,reported,rfl⟩ := hlike
    exact hmany
  have hstart := h.alone.releaseChangedSnapshots nowMs
  have hlook : (guard.releaseChangedSnapshots K nowMs).lookup K = some c := by
    rw [hstart]
    exact hc
  have hpredicates : (guard.releaseChangedSnapshots K nowMs).resourcePredicatesSatisfied c nowMs =
      guard.resourcePredicatesSatisfied c nowMs := by
    rw [hstart]
    rfl
  unfold isEligible
  rw [if_neg (by simp [hon.1,hon.2])]
  obtain ⟨hnone,-⟩ | ⟨c',hc',hcases⟩ := keyIsEligible_cases guard config K nowMs
  · exact absurd (hnone.symm.trans hlook) (by simp)
  · obtain rfl : c = c' := Option.some.inj (hlook.symm.trans hc')
    obtain ⟨hfew,-⟩ | ⟨-,hcleared,hnext⟩ | ⟨-,hcleared,events,hnext⟩ := hcases
    · omega
    · rw [hnext,← hsame,← hpredicates]
      exact ⟨⟨fun _ => hcleared,fun _ => rfl⟩,fun hfalse => absurd hfalse (by simp)⟩
    · rw [hnext,← hsame,← hpredicates]
      refine ⟨⟨fun htrue => absurd htrue (by simp),fun htrue => absurd (hcleared.symm.trans htrue) (by simp)⟩,fun _ => ?_⟩
      have hkey : c.key = K := (Keyed.lookup_mem hc).2
      constructor
      · intro x hx hidentity
        obtain rfl | hx := Keyed.mem_store hx
        · exact hkey
        · rw [hstart] at hx
          exact h.alone x hx hidentity
      · refine ⟨c.suppress,?_,like_suppress hlike⟩
        have hkey' : K = c.suppress.key := hkey.symm
        simp only [TransferAttemptGuard.lookup,Keyed.lookup_store]
        rw [if_pos hkey']

theorem Held.updateResources (h : Held K b guard) (d n : ℕ) : Held K (b.anchor d n) (guard.updateResources d n nowMs) where
  alone c hc hsame := by
    obtain ⟨c',hc',rfl⟩ := List.mem_map.mp hc
    rw [BlockedTransferAttempt.anchor_key] at hsame ⊢
    exact h.alone c' hc' hsame
  found := by
    obtain ⟨c,hc,hlike⟩ := h.found
    refine ⟨c.anchor d n,?_,hlike.anchor d n⟩
    have hmap := Keyed.lookup_map (k := K) (l := guard.blocked) (BlockedTransferAttempt.anchor_key d n)
    simp only [TransferAttemptGuard.lookup] at hc
    rw [hc] at hmap
    exact hmap

theorem Held.apply {op : Op} (h : Held K b guard) (hmany : config.maxSameSnapshotAttempts ≤ b.identicalFailureCount)
    (hon : config.enabled = true ∧ TransferAttemptGuard.guarded K.commandKind = true)
    (hquiet : guard.Quiet config K op) : Held K (anchored b op) (guard.apply config op) := by
  cases op with
  | updateResources device host nowMs => exact h.updateResources device host
  | query key nowMs =>
    by_cases hsame : SameIdentity key K
    · obtain ⟨rfl,hfalse⟩ := hquiet hsame
      exact (h.query nowMs hmany hon).2 hfalse
    · exact h.untouched (untouched_isEligible hsame)
  | beginAttempt commandId key targetBytes =>
    refine h.untouched ?_
    unfold TransferAttemptGuard.apply TransferAttemptGuard.beginAttempt
    dsimp only
    split_ifs with hthere hoff
    · exact untouched_refl
    · exact untouched_refl
    · exact ⟨rfl,fun _ hc _ => hc⟩
  | recordFailure commandId blockers requiredBytes nowMs => exact h.untouched (untouched_recordFailure hquiet)
  | recordSuccess commandId nowMs =>
    refine h.untouched ?_
    unfold TransferAttemptGuard.apply recordSuccess
    dsimp only
    split
    · exact untouched_refl
    · rename_i attempt hattempt
      have hother : ¬ SameIdentity K attempt.key := fun hsame => hquiet attempt hattempt hsame.symm
      have hpicked : decide (SameIdentity K attempt.key) = false := by simp [hother]
      have hframe := untouched_releaseAll (K := K) (p := fun key => SameIdentity key attempt.key)
        { guard with inflight := guard.inflight.erase commandId } nowMs "transfer_succeeded" hpicked
      exact ⟨hframe.lookup,hframe.known⟩
  | cancelAttempt commandId => exact h.untouched ⟨rfl,fun _ hc _ => hc⟩
  | invalidateContext contextId keepEpoch nowMs =>
    refine h.untouched ?_
    have hframe := untouched_releaseAll (K := K)
      { guard with inflight := guard.inflight.select fun _ attempt => !stale contextId keepEpoch attempt.key }
      nowMs "context_epoch_invalidated" hquiet
    exact ⟨hframe.lookup,hframe.known⟩
  | reset nowMs => exact absurd hquiet id

theorem anchored_same (b : BlockedTransferAttempt) (op : Op) :
    (anchored b op).blockerCodes = b.blockerCodes ∧ (anchored b op).identicalFailureCount = b.identicalFailureCount ∧
      (anchored b op).nextRetryTsMs = b.nextRetryTsMs ∧ (anchored b op).requiredBytes = b.requiredBytes := by
  cases op with
  | updateResources device host nowMs => simp [anchored,BlockedTransferAttempt.anchor_bytes]
  | _ => exact ⟨rfl,rfl,rfl,rfl⟩

theorem foldl_anchored_same (b : BlockedTransferAttempt) (ops : List Op) :
    (ops.foldl anchored b).blockerCodes = b.blockerCodes ∧
      (ops.foldl anchored b).identicalFailureCount = b.identicalFailureCount ∧
      (ops.foldl anchored b).nextRetryTsMs = b.nextRetryTsMs ∧ (ops.foldl anchored b).requiredBytes = b.requiredBytes := by
  induction ops generalizing b with
  | nil => exact ⟨rfl,rfl,rfl,rfl⟩
  | cons op ops ih =>
    obtain ⟨hcodes,hcount,hretry,hbytes⟩ := ih (anchored b op)
    obtain ⟨hcodes',hcount',hretry',hbytes'⟩ := anchored_same b op
    exact ⟨hcodes.trans hcodes',hcount.trans hcount',hretry.trans hretry',hbytes.trans hbytes'⟩

theorem Held.run {ops : List Op} (h : Held K b guard) (hmany : config.maxSameSnapshotAttempts ≤ b.identicalFailureCount)
    (hon : config.enabled = true ∧ TransferAttemptGuard.guarded K.commandKind = true)
    (hquiet : QuietRun config K guard ops) : Held K (ops.foldl anchored b) (guard.run config ops) := by
  induction ops generalizing guard b with
  | nil => exact h
  | cons op ops ih =>
    obtain ⟨hop,hops⟩ := hquiet
    refine ih (h.apply hmany hon hop) ?_ hops
    rw [(anchored_same b op).2.1]
    exact hmany

/-! ## When a transfer is tried again -/

/-- What ends a blocker: more room than there was, and enough; or the time to try again. No other blocker ends while the key
is the same. -/
inductive Ended (guard : TransferAttemptGuard) (b : BlockedTransferAttempt) (nowMs : ℚ) : TransferBlockerCode → Prop
  | device (hsettled : b.capacitySnapshotPending = false)
      (hmore : b.failedDeviceAvailableBytes < guard.deviceAvailableBytes)
      (henough : b.requiredBytes ≤ guard.deviceAvailableBytes) : Ended guard b nowMs .deviceCapacity
  | host (hsettled : b.capacitySnapshotPending = false) (hmore : b.failedHostAvailableBytes < guard.hostAvailableBytes)
      (henough : b.requiredBytes ≤ guard.hostAvailableBytes) : Ended guard b nowMs .hostCapacity
  | unknown (retry : ℚ) (hretry : b.nextRetryTsMs = some retry) (htime : retry ≤ nowMs) : Ended guard b nowMs .unknownBackend

theorem predicateSatisfied_iff (code : TransferBlockerCode) :
    guard.predicateSatisfied b nowMs code = true ↔ Ended guard b nowMs code := by
  constructor
  · intro h
    unfold predicateSatisfied at h
    split_ifs at h with hcapacity hunknown
    · unfold capacityPredicateSatisfied at h
      split_ifs at h with hpending
      cases code with
      | deviceCapacity =>
        obtain ⟨hmore,henough⟩ : b.failedDeviceAvailableBytes < guard.deviceAvailableBytes ∧
          b.requiredBytes ≤ guard.deviceAvailableBytes := by simpa using h
        exact .device (by simpa using hpending) hmore henough
      | hostCapacity =>
        obtain ⟨hmore,henough⟩ : b.failedHostAvailableBytes < guard.hostAvailableBytes ∧
          b.requiredBytes ≤ guard.hostAvailableBytes := by simpa using h
        exact .host (by simpa using hpending) hmore henough
      | _ => exact absurd hcapacity (by simp [isCapacity])
    · rw [hunknown]
      cases hretry : b.nextRetryTsMs with
      | none => simp [hretry] at h
      | some retry => exact .unknown retry hretry (by simpa [hretry] using h)
  · intro h
    cases h with
    | device hsettled hmore henough =>
      simp [predicateSatisfied,isCapacity,capacityPredicateSatisfied,hsettled,hmore,henough]
    | host hsettled hmore henough =>
      simp [predicateSatisfied,isCapacity,capacityPredicateSatisfied,hsettled,hmore,henough]
    | unknown retry hretry htime => simp [predicateSatisfied,isCapacity,hretry,htime]

theorem resourcePredicatesSatisfied_iff : guard.resourcePredicatesSatisfied b nowMs = true ↔
    b.blockerCodes ≠ [] ∧ ∀ code ∈ b.blockerCodes, Ended guard b nowMs code := by
  unfold resourcePredicatesSatisfied
  simp [predicateSatisfied_iff]

/-- A transfer that is kept back is tried again, as long as its key is the same and nothing happens to its identity, exactly
when every blocker has ended: there is more room than there was at the first report after the failure, and enough, and the
time to try again has come. -/
theorem query_true_iff {ops : List Op} {laterMs : ℚ} (hfalse : (guard.isEligible config K nowMs).2 = false)
    (hquiet : QuietRun config K (guard.isEligible config K nowMs).1 ops) :
    ∃ b, (guard.isEligible config K nowMs).1.lookup K = some b ∧
      ((((guard.isEligible config K nowMs).1.run config ops).isEligible config K laterMs).2 = true ↔
        b.blockerCodes ≠ [] ∧ ∀ code ∈ b.blockerCodes,
          Ended ((guard.isEligible config K nowMs).1.run config ops) (ops.foldl anchored b) laterMs code) := by
  have hon : config.enabled = true ∧ TransferAttemptGuard.guarded K.commandKind = true := by
    unfold isEligible at hfalse
    split_ifs at hfalse with hoff
    simpa using hoff
  obtain ⟨b,hb,hmany,halone⟩ := held_of_query hfalse
  have hheld : Held K b (guard.isEligible config K nowMs).1 := ⟨halone,b,hb,b.suppressedCount,b.suppressionReported,rfl⟩
  obtain ⟨hcodes,hcount,-,-⟩ := foldl_anchored_same b ops
  have hend := (hheld.run hmany hon hquiet).query laterMs (by rw [hcount]; exact hmany) hon
  refine ⟨b,hb,?_⟩
  rw [hend.1,resourcePredicatesSatisfied_iff,hcodes]

/-! ## A run -/

def sampleKey : TransferAttemptKey := ⟨"context",3,.offloadContext,"bundle","closure"⟩

/-- A transfer for which there was no room. -/
def sampleBlocked : TransferAttemptGuard where
  deviceAvailableBytes := 90
  blocked := [{
    key := sampleKey
    blockerCodes := [.deviceCapacity]
    requiredBytes := 70
    failedDeviceAvailableBytes := 90
    failedHostAvailableBytes := 0
    failedTsMs := 1
    lastCommandId := "transfer"
    capacitySnapshotPending := true }]

/-- After the failure 60 bytes are free, and then 80. -/
theorem query_true_sample : ∃ b, (sampleBlocked.isEligible {} sampleKey 2).1.lookup sampleKey = some b ∧
    ((((sampleBlocked.isEligible {} sampleKey 2).1.run {} [.updateResources 60 0 3,.updateResources 80 0 4]).isEligible {}
        sampleKey 5).2 = true ↔
      b.blockerCodes ≠ [] ∧ ∀ code ∈ b.blockerCodes,
        Ended ((sampleBlocked.isEligible {} sampleKey 2).1.run {} [.updateResources 60 0 3,.updateResources 80 0 4])
          (([.updateResources 60 0 3,.updateResources 80 0 4] : List Op).foldl anchored b) 5 code) :=
  query_true_iff (by decide +kernel) ⟨trivial,trivial,trivial⟩

end TransferAttemptGuard
end RetryGuard
end BeliefKV
