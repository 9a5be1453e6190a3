import BeliefKV.Guard.Suppression

/-! What the counters and generations of the guard against repeated transfers say about its events. -/
namespace BeliefKV
namespace RetryGuard
namespace TransferAttemptGuard
variable {guard guard' : TransferAttemptGuard} {key : TransferAttemptKey} {b c : BlockedTransferAttempt} {nowMs : ℚ}
  {reason : String} {config : GuardConfig}

/-- The events that end or begin a block of `key`. -/
def changes (key : TransferAttemptKey) (event : TransferGuardEvent) : Bool :=
  match event.kind with
  | .blocked | .released _ _ => event.attempt.key = key
  | _ => false

def isBlock (event : TransferGuardEvent) : Bool :=
  match event.kind with
  | .blocked => true
  | _ => false

def isRelease (event : TransferGuardEvent) : Bool :=
  match event.kind with
  | .released _ _ => true
  | _ => false

/-- The generation of a key counts its blocks and releases, and no more attempts are blocked or released than there were
blocks. -/
structure Tallied (guard : TransferAttemptGuard) : Prop where
  generations : ∀ key, guard.generations key = guard.events.countP (changes key)
  blocked : guard.blockedCount = guard.events.countP isBlock
  released : guard.releasedCount = guard.events.countP isRelease
  nodup : (guard.blocked.map BlockedTransferAttempt.key).Nodup
  active : guard.releasedCount + guard.blocked.length ≤ guard.blockedCount

theorem tallied_start : Tallied {} := ⟨fun _ => rfl,rfl,rfl,List.nodup_nil,Nat.le_refl _⟩

/-- Events that neither begin nor end a block change no count. -/
theorem Tallied.quiet {events : List TransferGuardEvent} (h : guard.Tallied)
    (hgenerations : guard'.generations = guard.generations) (hblocked : guard'.blockedCount = guard.blockedCount)
    (hreleased : guard'.releasedCount = guard.releasedCount) (hevents : guard'.events = guard.events ++ events)
    (hquiet : ∀ event ∈ events, isBlock event = false ∧ isRelease event = false)
    (hnodup : (guard'.blocked.map BlockedTransferAttempt.key).Nodup)
    (hlength : guard'.blocked.length ≤ guard.blocked.length) : guard'.Tallied where
  generations key := by
    have hnone : events.countP (changes key) = 0 := by
      refine List.countP_eq_zero.mpr fun event hevent => ?_
      obtain ⟨hblock,hrelease⟩ := hquiet event hevent
      unfold isBlock isRelease at *
      unfold changes
      split <;> simp_all
    rw [hgenerations,hevents,List.countP_append,hnone]
    exact h.generations key
  blocked := by
    have hnone : events.countP isBlock = 0 := List.countP_eq_zero.mpr fun event hevent => by simp [hquiet event hevent]
    rw [hblocked,hevents,List.countP_append,hnone]
    exact h.blocked
  released := by
    have hnone : events.countP isRelease = 0 := List.countP_eq_zero.mpr fun event hevent => by simp [hquiet event hevent]
    rw [hreleased,hevents,List.countP_append,hnone]
    exact h.released
  nodup := hnodup
  active := by
    have hactive := h.active
    omega

theorem Tallied.release (h : guard.Tallied) : (guard.release b nowMs reason).Tallied := by
  unfold TransferAttemptGuard.release
  split_ifs with hnone
  · exact h
  · have hpop := Keyed.length_pop_lt BlockedTransferAttempt.key hnone
    have hactive := h.active
    constructor
    · intro key
      simp only [List.countP_append,List.countP_singleton,changes]
      by_cases hkey : key = b.key
      · simp [hkey,h.generations]
      · simp [hkey,Ne.symm hkey,h.generations]
    · simp [isBlock,h.blocked]
    · simp [isRelease,h.released]
    · exact Keyed.nodup_pop h.nodup
    · change guard.releasedCount + 1 + (Keyed.pop BlockedTransferAttempt.key b.key guard.blocked).length ≤ guard.blockedCount
      omega

theorem suppressed_length (hb : guard.lookup key = some b) :
    (Keyed.store BlockedTransferAttempt.key b.suppress guard.blocked).length ≤ guard.blocked.length := by
  have hkey : b.suppress.key = key := (Keyed.lookup_mem hb).2
  refine (Keyed.length_store ?_).le
  rw [hkey]
  exact fun hnone => absurd (hb.symm.trans hnone) (by simp)

theorem lookup_releaseChanged {k : TransferAttemptKey} (hb : k ≠ b.key) (hkey : k ≠ key) :
    (guard.releaseChanged key nowMs b).lookup k = guard.lookup k := by
  unfold TransferAttemptGuard.releaseChanged
  dsimp only
  split_ifs with hvisited hremaining
  · simp only [lookup,Keyed.lookup_store,Keyed.lookup_pop]
    rw [if_neg hkey,if_neg hb]
  · rw [lookup_release,if_neg hb]
  · rfl

theorem Tallied.releaseChanged (h : guard.Tallied) (hthere : b.key ≠ key → guard.lookup b.key ≠ none) :
    (guard.releaseChanged key nowMs b).Tallied := by
  unfold TransferAttemptGuard.releaseChanged
  dsimp only
  split_ifs with hvisited hremaining
  · refine h.quiet rfl rfl rfl rfl (fun event hevent => ?_) (Keyed.nodup_store (Keyed.nodup_pop h.nodup)) ?_
    · obtain rfl := List.mem_singleton.mp hevent
      exact ⟨rfl,rfl⟩
    · have hpop := Keyed.length_pop_lt BlockedTransferAttempt.key (hthere hvisited.2)
      exact (Keyed.length_store_le BlockedTransferAttempt.key _ _).trans hpop
  · exact h.release
  · exact h

/-- Each attempt is still there when its turn comes, since the keys are different. -/
theorem Tallied.releaseChangedSnapshots (h : guard.Tallied) (key : TransferAttemptKey) (nowMs : ℚ) :
    (guard.releaseChangedSnapshots key nowMs).Tallied := by
  have hfold (l : List BlockedTransferAttempt) : ∀ guard₁ : TransferAttemptGuard, guard₁.Tallied →
      (l.map BlockedTransferAttempt.key).Nodup → (∀ b ∈ l, b.key ≠ key → guard₁.lookup b.key ≠ none) →
      (l.foldl (fun guard attempt => guard.releaseChanged key nowMs attempt) guard₁).Tallied := by
    induction l with
    | nil => exact fun _ htallied _ _ => htallied
    | cons b l ih =>
      intro guard₁ htallied hnodup hthere
      obtain ⟨hfresh,hnodup⟩ := List.nodup_cons.mp hnodup
      refine ih _ (htallied.releaseChanged (hthere b List.mem_cons_self)) hnodup fun c hc hkey => ?_
      have hother : c.key ≠ b.key := fun hsame => hfresh (hsame ▸ List.mem_map_of_mem hc)
      rw [lookup_releaseChanged hother hkey]
      exact hthere c (List.mem_cons_of_mem b hc) hkey
  have hvisited := hfold guard.blocked guard h h.nodup fun b hb _ hnone => Keyed.lookup_eq_none.mp hnone b hb rfl
  exact ⟨hvisited.generations,hvisited.blocked,hvisited.released,hvisited.nodup,hvisited.active⟩

theorem Tallied.isEligible (h : guard.Tallied) : (guard.isEligible config key nowMs).1.Tallied := by
  have hnext := h.releaseChangedSnapshots key nowMs
  unfold TransferAttemptGuard.isEligible
  split_ifs with hoff
  · exact h
  · unfold TransferAttemptGuard.keyIsEligible
    dsimp only
    split
    · exact hnext
    · rename_i b hb
      split_ifs with hfew hcleared hreported
      · exact hnext
      · exact hnext.release
      · exact hnext.quiet rfl rfl rfl (List.append_nil _).symm (by simp) (Keyed.nodup_store hnext.nodup)
          (suppressed_length hb)
      · refine hnext.quiet rfl rfl rfl rfl (fun event hevent => ?_) (Keyed.nodup_store hnext.nodup)
          (suppressed_length hb)
        obtain rfl := List.mem_singleton.mp hevent
        exact ⟨rfl,rfl⟩

theorem Tallied.releaseAll {p : TransferAttemptKey → Bool} (h : guard.Tallied) :
    (guard.releaseAll p nowMs reason).Tallied := by
  have hfold (l : List BlockedTransferAttempt) : ∀ guard₁ : TransferAttemptGuard, guard₁.Tallied →
      (l.foldl (fun guard attempt => guard.release attempt nowMs reason) guard₁).Tallied := by
    induction l with
    | nil => exact fun _ htallied => htallied
    | cons b l ih => exact fun guard₁ htallied => ih _ htallied.release
  have hreleased := hfold (guard.blocked.filter fun attempt => p attempt.key) guard h
  exact ⟨hreleased.generations,hreleased.blocked,hreleased.released,hreleased.nodup,hreleased.active⟩

theorem Tallied.block (h : guard.Tallied) : (guard.block b nowMs).Tallied := by
  have hactive := h.active
  have hstore := Keyed.length_store_le BlockedTransferAttempt.key b guard.blocked
  constructor
  · intro key
    simp only [TransferAttemptGuard.block,List.countP_append,List.countP_singleton,changes]
    by_cases hkey : key = b.key
    · simp [hkey,h.generations]
    · simp [hkey,Ne.symm hkey,h.generations]
  · simp [TransferAttemptGuard.block,isBlock,h.blocked]
  · simp [TransferAttemptGuard.block,isRelease,h.released]
  · exact Keyed.nodup_store h.nodup
  · change guard.releasedCount + (Keyed.store BlockedTransferAttempt.key b guard.blocked).length ≤ guard.blockedCount + 1
    omega

theorem Tallied.inflight (h : guard.Tallied) (inflight : Dict String AttemptSnapshot) :
    ({ guard with inflight := inflight } : TransferAttemptGuard).Tallied :=
  ⟨h.generations,h.blocked,h.released,h.nodup,h.active⟩

theorem Tallied.apply {op : Op} (h : guard.Tallied) : (guard.apply config op).Tallied := by
  cases op with
  | updateResources device host nowMs =>
    have hkeys : (guard.blocked.map (BlockedTransferAttempt.anchor device host)).map BlockedTransferAttempt.key =
        guard.blocked.map BlockedTransferAttempt.key := by simp
    refine h.quiet rfl rfl rfl rfl (fun event hevent => ?_) (hkeys ▸ h.nodup) (by simp [TransferAttemptGuard.apply,
      TransferAttemptGuard.updateResources])
    obtain ⟨b,-,rfl⟩ := List.mem_map.mp hevent
    exact ⟨rfl,rfl⟩
  | query key nowMs => exact h.isEligible
  | beginAttempt commandId key targetBytes =>
    unfold TransferAttemptGuard.apply TransferAttemptGuard.beginAttempt
    dsimp only
    split_ifs with hthere hoff
    · exact h
    · exact h
    · exact h.inflight _
  | recordFailure commandId blockers requiredBytes nowMs =>
    change (guard.recordFailure config commandId blockers requiredBytes nowMs).1.Tallied
    obtain hnext | ⟨attempt,-,-,hnext⟩ := recordFailure_cases guard config commandId blockers requiredBytes nowMs
    · rw [hnext]
      exact h.inflight _
    · rw [hnext]
      exact (h.inflight _).block
  | recordSuccess commandId nowMs =>
    unfold TransferAttemptGuard.apply TransferAttemptGuard.recordSuccess
    dsimp only
    split
    · exact h
    · exact (h.inflight _).releaseAll
  | cancelAttempt commandId => exact h.inflight _
  | invalidateContext contextId keepEpoch nowMs => exact (h.inflight _).releaseAll
  | reset nowMs =>
    change ({ guard with inflight := ∅ }.releaseAll (fun _ => true) nowMs "cache_reset").Tallied
    exact (h.inflight ∅).releaseAll

/-- In every run of a guard, in whatever order its operations come, the generation of a key is the number of blocks and
releases of that key (none is told of a kind that is not guarded), and there are at least as many blocks as releases and attempts that are still blocked. -/
theorem generations_counted (config : GuardConfig) (ops : List Op) (key : TransferAttemptKey) :
    (run config {} ops).generations key = (run config {} ops).events.countP (changes key) ∧
      (run config {} ops).generationFor key = (if TransferAttemptGuard.guarded key.commandKind = false then 0
        else (run config {} ops).events.countP (changes key)) ∧
      (run config {} ops).blockedCount = (run config {} ops).events.countP isBlock ∧
      (run config {} ops).releasedCount = (run config {} ops).events.countP isRelease ∧
      (run config {} ops).releasedCount + (run config {} ops).blocked.length ≤ (run config {} ops).blockedCount := by
  have htallied (ops : List Op) : ∀ guard : TransferAttemptGuard, guard.Tallied → (run config guard ops).Tallied := by
    induction ops with
    | nil => exact fun _ h => h
    | cons op ops ih => exact fun guard h => ih _ h.apply
  have h := htallied ops {} tallied_start
  refine ⟨h.generations key,?_,h.blocked,h.released,h.active⟩
  unfold generationFor
  rw [h.generations key]

end TransferAttemptGuard
end RetryGuard
end BeliefKV
