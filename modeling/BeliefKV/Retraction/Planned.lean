import BeliefKV.Retraction.Selection

/-! What a retraction plan is, and when there is one. -/
namespace BeliefKV.Retraction
open Rounds

section Plans
variable {config : ObservedRetractionConfig} {snapshot : ObservedRetractionSnapshot}

/-! ## The parts of a plan -/

/-- The extents that come free with some victims: all blockers are known, and are victims. -/
def attributedExtents (snapshot : ObservedRetractionSnapshot) (victims : List String) : List RetractionLockedExtent :=
  snapshot.lockedExtents.filter fun e => e.fullyAttributed ∧ e.blockerRequestIds ≠ [] ∧
    ∀ b ∈ e.blockerRequestIds, b ∈ victims

/-- A candidate that may be retracted. -/
structure Retractable (config : ObservedRetractionConfig) (c : RunningRetractionCandidate) : Prop where
  policy : c.policyEligible = true
  stale : c.serviceStatus = .stale
  unprotected : frontierProtected config c = false
  under_limit : c.priorRetractionCount < config.maximumRetractionsPerRequest

/-- A beginning of the replacements that fits. -/
structure Fits (config : ObservedRetractionConfig) (snapshot : ObservedRetractionSnapshot) (capacity : ℕ)
    (taken : List RetractionReplacement) : Prop where
  starts : taken <+: orderedReplacements config snapshot.replacements
  some_taken : taken ≠ []
  fits : (taken.map (·.estimatedIncrementalBytes)).sum ≤ capacity

/-- What a plan promises. -/
structure SoundPlan (config : ObservedRetractionConfig) (snapshot : ObservedRetractionSnapshot)
    (plan : RunningRetractionPlan) : Prop where
  victims : ∀ id ∈ plan.requestIds, ∃ c ∈ snapshot.candidates, c.requestId = id ∧ Retractable config c
  distinct : plan.requestIds.Nodup
  limit : plan.requestIds.length ≤ snapshot.runningRequestCount - snapshot.minimumActiveRequests
  reclaim : plan.expectedReclaimCapacityBytes =
    ((snapshot.candidates.filter (·.requestId ∈ plan.requestIds)).map (·.privateKvBytes)).sum +
      ((attributedExtents snapshot plan.requestIds).map (·.sizeBytes)).sum
  target : plan.targetReclaimBytes = reclaimTarget config snapshot ∧
    plan.targetReclaimBytes ≤ plan.expectedReclaimCapacityBytes
  replacements : ∃ taken, plan.replacementRequestIds = taken.map (·.requestId) ∧
    Fits config snapshot (snapshot.nativeReclaimCapacityBytes + plan.expectedReclaimCapacityBytes) taken

theorem mem_eligible {c : RunningRetractionCandidate} :
    c ∈ eligible config snapshot ↔ c ∈ snapshot.candidates ∧ Retractable config c := by
  unfold eligible
  rw [List.mem_filter]
  simp only [Bool.and_eq_true,decide_eq_true_eq,Bool.not_eq_true']
  refine and_congr_right fun _ => ⟨?_,?_⟩
  · rintro ⟨⟨⟨hpolicy,hstale⟩,hlimit⟩,hfree⟩
    exact ⟨hpolicy,hstale,hfree,hlimit⟩
  · rintro ⟨hpolicy,hstale,hfree,hlimit⟩
    exact ⟨⟨⟨hpolicy,hstale⟩,hlimit⟩,hfree⟩

theorem fullyAttributed_blocked : ∀ e ∈ fullyAttributedExtents snapshot, e.blockerRequestIds ≠ [] := by
  intro e he
  have hboth := (List.mem_filter.mp he).2
  simp only [Bool.and_eq_true,decide_eq_true_eq] at hboth
  exact hboth.2

/-- The candidates behind a set of eligible names are all the candidates with these names. -/
theorem eligible_filter {S : Finset String} (hS : S ⊆ idsOf (eligible config snapshot)) :
    (eligible config snapshot).filter (·.requestId ∈ S) = snapshot.candidates.filter (·.requestId ∈ S) := by
  unfold eligible at hS ⊢
  rw [List.filter_filter]
  refine List.filter_congr fun c hc => ?_
  by_cases hmem : c.requestId ∈ S
  · obtain ⟨d,hd,hid⟩ := mem_idsOf.mp (hS hmem)
    obtain ⟨hd,hfree⟩ := List.mem_filter.mp hd
    rw [List.inj_on_of_nodup_map snapshot.candidates_unique hd hc hid] at hfree
    rw [hfree,Bool.and_true]
  · simp only [hmem,decide_false,Bool.false_and]

theorem releasedExtents_eq {S : Finset String} {victims : List String} (hmem : ∀ id, id ∈ victims ↔ id ∈ S) :
    releasedExtents (fullyAttributedExtents snapshot) S = attributedExtents snapshot victims := by
  unfold releasedExtents fullyAttributedExtents attributedExtents
  rw [List.filter_filter]
  refine List.filter_congr fun e _ => ?_
  have hsub : e.blockerRequestIds.toFinset ⊆ S ↔ ∀ b ∈ e.blockerRequestIds, b ∈ victims := by
    constructor
    · exact fun h b hb => (hmem b).mpr (h (List.mem_toFinset.mpr hb))
    · exact fun h b hb => (hmem b).mp (h b (List.mem_toFinset.mp hb))
  simp only [hsub,Bool.decide_and,Bool.decide_eq_true]
  rw [Bool.and_comm,Bool.and_assoc]

theorem fitting_fits (l : List RetractionReplacement) : ∀ remaining : ℕ, fitting remaining l <+: l ∧
    ((fitting remaining l).map (·.estimatedIncrementalBytes)).sum ≤ remaining := by
  induction l with
  | nil => exact fun remaining => ⟨List.nil_prefix,Nat.zero_le _⟩
  | cons r l ih =>
    intro remaining
    rw [fitting]
    by_cases hlarge : remaining < r.estimatedIncrementalBytes
    · rw [if_pos hlarge]
      exact ⟨List.nil_prefix,Nat.zero_le _⟩
    · rw [if_neg hlarge]
      obtain ⟨hstarts,hsum⟩ := ih (remaining - r.estimatedIncrementalBytes)
      refine ⟨(List.prefix_cons_inj r).mpr hstarts,?_⟩
      rw [List.map_cons,List.sum_cons]
      omega

/-! ## The plan of a selection -/

variable (config) in
theorem orderedReplacements_perm (replacements : List RetractionReplacement) :
    (orderedReplacements config replacements).Perm replacements := by
  unfold orderedReplacements
  split_ifs
  · exact List.Perm.refl _
  · have hsorted := (List.perm_insertionSort (fun a b : RetractionReplacement × ℕ =>
      (toLex (replacementPriority a.1,a.2) : ℕ ×ₗ ℕ) ≤ toLex (replacementPriority b.1,b.2)) replacements.zipIdx).map
        Prod.fst
    rwa [List.zipIdx_map_fst] at hsorted

/-- The first replacement fits once the target is reached. -/
theorem fitting_ne_nil {reclaim : ℕ} (hreplace : snapshot.replacements ≠ [])
    (htarget : reclaimTarget config snapshot ≤ reclaim) :
    fitting (snapshot.nativeReclaimCapacityBytes + reclaim) (orderedReplacements config snapshot.replacements) ≠ [] := by
  have hdeficit : replacementDeficit config snapshot ≤ reclaim :=
    ((le_max_left _ _).trans (le_max_right _ _)).trans htarget
  unfold replacementDeficit at hdeficit
  cases hordered : orderedReplacements config snapshot.replacements with
  | nil =>
    have hperm := orderedReplacements_perm config snapshot.replacements
    rw [hordered] at hperm
    exact absurd hperm.nil_eq.symm hreplace
  | cons r l =>
    rw [hordered,List.head?_cons,Option.elim_some] at hdeficit
    rw [fitting,if_neg (by omega)]
    exact List.cons_ne_nil _ _

/-- The selections that a plan is made from. -/
abbrev Settled (config : ObservedRetractionConfig) (snapshot : ObservedRetractionSnapshot) (s : Selection) : Prop :=
  Kept (eligible config snapshot) (fullyAttributedExtents snapshot)
    (snapshot.runningRequestCount - snapshot.minimumActiveRequests) s

/-- A selection that reaches the target makes a sound plan, without a raise. -/
theorem planFor_sound {s : Selection} (hs : Settled config snapshot s) (hreplace : snapshot.replacements ≠ [])
    (htarget : reclaimTarget config snapshot ≤ s.currentReclaim) :
    ∃ plan, planFor config snapshot s = .ok plan ∧ SoundPlan config snapshot plan := by
  obtain ⟨hsub,hroom,hcurrent⟩ := hs
  set items := (eligible config snapshot).filter (·.requestId ∈ s.selected) with hitems
  set ids := (items.insertionSort fun a b => victimKey config a ≤ victimKey config b).map (·.requestId) with hids
  have hmem : ∀ id, id ∈ ids ↔ id ∈ s.selected := by
    intro id
    rw [hids,List.mem_map]
    simp only [List.mem_insertionSort,hitems,List.mem_filter,decide_eq_true_eq]
    constructor
    · rintro ⟨c,⟨-,hc⟩,rfl⟩
      exact hc
    · intro hid
      obtain ⟨c,hc,rfl⟩ := mem_idsOf.mp (hsub hid)
      exact ⟨c,⟨hc,hid⟩,rfl⟩
  have hnodup : ids.Nodup := by
    have hsorted := (List.perm_insertionSort (fun a b => victimKey config a ≤ victimKey config b) items).map
      (·.requestId)
    refine hsorted.nodup_iff.mpr ?_
    refine snapshot.candidates_unique.sublist (List.Sublist.map _ ?_)
    rw [hitems,eligible_filter hsub]
    exact List.filter_sublist
  have hlength : ids.length = s.selected.card := by
    rw [← List.toFinset_card_of_nodup hnodup]
    congr 1
    ext id
    rw [List.mem_toFinset,hmem]
  have hne : ids ≠ [] := by
    intro hnil
    have hempty : s.selected = ∅ := by
      rw [← Finset.card_eq_zero,← hlength,hnil]
      rfl
    rw [hcurrent,hempty,worth_empty fullyAttributed_blocked] at htarget
    have hpos : 0 < reclaimTarget config snapshot := lt_of_lt_of_le config.reclaim_pos (le_max_left _ _)
    omega
  obtain ⟨hstarts,hsum⟩ := fitting_fits (orderedReplacements config snapshot.replacements)
    (snapshot.nativeReclaimCapacityBytes + s.currentReclaim)
  have hnames : ((fitting (snapshot.nativeReclaimCapacityBytes + s.currentReclaim)
      (orderedReplacements config snapshot.replacements)).map (·.requestId)).Nodup := by
    have hall := ((orderedReplacements_perm config snapshot.replacements).map (·.requestId)).nodup_iff.mpr
      snapshot.replacements_unique
    exact hall.sublist (hstarts.sublist.map _)
  have hreason : (if config.frontierAwareEnabled then "frontier_aware_lock_closure_reclaim"
      else "observed_lock_closure_reclaim") ≠ "" := by
    split_ifs <;> decide
  refine ⟨_,bind_eq_ok.mpr ⟨items,requireCandidates_eq hsub,bind_eq_ok.mpr ⟨(),ensure_eq_ok.mpr ⟨hne,hnodup⟩,
    bind_eq_ok.mpr ⟨(),ensure_eq_ok.mpr hnames,bind_eq_ok.mpr ⟨(),ensure_eq_ok.mpr htarget,
      bind_eq_ok.mpr ⟨(),ensure_eq_ok.mpr hreason,rfl⟩⟩⟩⟩⟩,?_⟩
  refine ⟨fun id hid => ?_,hnodup,hlength.trans_le hroom,?_,⟨rfl,htarget⟩,_,rfl,hstarts,
    fitting_ne_nil hreplace htarget,hsum⟩
  · obtain ⟨c,hc,rfl⟩ := mem_idsOf.mp (hsub ((hmem id).mp hid))
    obtain ⟨hc,hfree⟩ := mem_eligible.mp hc
    exact ⟨c,hc,rfl,hfree⟩
  · have hvictims : snapshot.candidates.filter (·.requestId ∈ ids) = items := by
      rw [hitems,eligible_filter hsub]
      exact List.filter_congr fun c _ => by simp only [hmem]
    change s.currentReclaim = ((snapshot.candidates.filter (·.requestId ∈ ids)).map (·.privateKvBytes)).sum +
      ((attributedExtents snapshot ids).map (·.sizeBytes)).sum
    rw [hcurrent,hvictims,← releasedExtents_eq hmem,hitems,private_sum,released_sum]
    rfl

/-! ## The decision -/

/-- The checks before the selection pass. -/
structure GatesPass (config : ObservedRetractionConfig) (snapshot : ObservedRetractionSnapshot) : Prop where
  stall : config.minimumAdmissionStallMs ≤ snapshot.admissionStallMs
  replacements : snapshot.replacements ≠ []
  floor : snapshot.minimumActiveRequests < snapshot.runningRequestCount
  pressure : replacementDeficit config snapshot ≠ 0 ∨ activeExcess snapshot ≠ 0

/-- What would be reclaimed by retracting all eligible candidates. -/
def fullReclaim (config : ObservedRetractionConfig) (snapshot : ObservedRetractionSnapshot) : ℕ :=
  ((eligible config snapshot).map (·.privateKvBytes)).sum +
    ((attributedExtents snapshot ((eligible config snapshot).map (·.requestId))).map (·.sizeBytes)).sum

theorem fullReclaim_eq : fullReclaim config snapshot = worth (eligible config snapshot)
    (fullyAttributedExtents snapshot) (idsOf (eligible config snapshot)) := by
  have hmem : ∀ id, id ∈ (eligible config snapshot).map (·.requestId) ↔ id ∈ idsOf (eligible config snapshot) := by
    intro id
    unfold idsOf
    rw [List.mem_toFinset]
  have hall : (eligible config snapshot).filter (·.requestId ∈ idsOf (eligible config snapshot)) =
      eligible config snapshot :=
    List.filter_eq_self.mpr fun c hc => decide_eq_true (mem_idsOf.mpr ⟨c,hc,rfl⟩)
  have hprivate := private_sum (eligible config snapshot) (idsOf (eligible config snapshot))
  rw [hall] at hprivate
  unfold fullReclaim worth
  rw [hprivate,← releasedExtents_eq hmem,released_sum]

/-- What is to be said of a decision. -/
structure Decided (config : ObservedRetractionConfig) (snapshot : ObservedRetractionSnapshot)
    (d : ObservedRetractionDecision) : Prop where
  sound : ∀ plan, d.plan = some plan → SoundPlan config snapshot plan
  complete : GatesPass config snapshot →
    (eligible config snapshot).length ≤ snapshot.runningRequestCount - snapshot.minimumActiveRequests →
      (d.plan.isSome ↔ reclaimTarget config snapshot ≤ fullReclaim config snapshot)

/-- A refusal holds where a gate does not pass, or nothing can be reclaimed. -/
theorem refusal_decided {d : ObservedRetractionDecision} (hplan : d.plan = none)
    (hwhy : GatesPass config snapshot →
      (eligible config snapshot).length ≤ snapshot.runningRequestCount - snapshot.minimumActiveRequests →
        fullReclaim config snapshot < reclaimTarget config snapshot) : Decided config snapshot d := by
  refine ⟨fun plan h => ?_,fun hgates hroom => ?_⟩
  · rw [hplan] at h
    cases h
  · rw [hplan]
    exact ⟨nofun,fun h => absurd h (not_le.mpr (hwhy hgates hroom))⟩

theorem checked_ok {d : ObservedRetractionDecision} (hreason : d.reason ≠ "")
    (hplan : d.plan.isSome → d.reason = "plan_created") : d.checked = .ok d :=
  bind_eq_ok.mpr ⟨(),ensure_eq_ok.mpr hreason,bind_eq_ok.mpr ⟨(),ensure_eq_ok.mpr hplan,rfl⟩⟩

theorem refuse_decided {reason : String} (hreason : reason ≠ "") (hgate : ¬ GatesPass config snapshot) :
    ∃ d, refuse snapshot reason = .ok d ∧ Decided config snapshot d :=
  ⟨_,checked_ok hreason nofun,refusal_decided rfl fun hgates => absurd hgates hgate⟩

/-- The end of the selection is concluded without a raise. -/
theorem conclude_decided {fl : ℚ → ℚ} {order : IterationOrder} {o : Outcome Selection}
    (hreplace : snapshot.replacements ≠ [])
    (ho : Ended (fun s : Selection => reclaimTarget config snapshot ≤ s.currentReclaim)
      (extend fl config (eligible config snapshot) (fullyAttributedExtents snapshot) order
        (snapshot.runningRequestCount - snapshot.minimumActiveRequests)) (Settled config snapshot) o) :
    ∃ d, conclude config snapshot o = .ok d ∧ Decided config snapshot d := by
  cases ho with
  | @reached s hs henough =>
    have htarget : reclaimTarget config snapshot ≤ s.currentReclaim := of_decide_eq_true henough
    obtain ⟨plan,hplan,hsound⟩ := planFor_sound hs hreplace htarget
    refine ⟨_,bind_eq_ok.mpr ⟨plan,hplan,checked_ok (show "plan_created" ≠ "" by decide) fun _ => rfl⟩,
      fun p hp => ?_,fun _ _ => ?_⟩
    · cases hp
      exact hsound
    · refine ⟨fun _ => htarget.trans ?_,fun _ => rfl⟩
      rw [fullReclaim_eq,hs.current]
      exact worth_mono hs.subset
  | @stuck s hs hshort hstuck =>
    have hreason : (if worth (eligible config snapshot) (fullyAttributedExtents snapshot)
        (idsOf (eligible config snapshot)) < reclaimTarget config snapshot then "insufficient_unlock_capacity"
        else "selection_search_exhausted") ≠ "" := by
      split_ifs <;> decide
    refine ⟨_,bind_eq_ok.mpr ⟨_,reclaimCapacity_eq (Finset.Subset.refl _),checked_ok hreason nofun⟩,
      refusal_decided rfl fun _ hroom => ?_⟩
    have hcard : (idsOf (eligible config snapshot)).card ≤ (eligible config snapshot).length := by
      unfold idsOf
      exact (List.toFinset_card_le _).trans (List.length_map _).le
    rw [fullReclaim_eq]
    exact (stuck_worth order (hcard.trans hroom) hs hstuck).trans_lt (not_le.mp (of_decide_eq_false hshort))

variable (fl : ℚ → ℚ) (order order' : IterationOrder) (config snapshot)

theorem decide_order : decide fl order' config snapshot = decide fl order config snapshot := by
  unfold decide
  rw [selectVictims_order order order' fullyAttributed_blocked]

/-- Every snapshot is decided without a raise, soundly and completely, whatever the order in which the
packages are met. -/
theorem retraction_decided : ∃ d, decide fl order config snapshot = .ok d ∧ Decided config snapshot d ∧
    decide fl order' config snapshot = .ok d := by
  obtain ⟨d,hd,hdecided⟩ : ∃ d, decide fl order config snapshot = .ok d ∧ Decided config snapshot d := by
    unfold decide
    split_ifs with hstall hreplace hfloor hpressure hnone
    · exact refuse_decided (by decide) fun h => absurd h.stall (not_le.mpr hstall)
    · exact refuse_decided (by decide) fun h => h.replacements hreplace
    · exact refuse_decided (by decide) fun h => absurd h.floor (not_lt.mpr hfloor)
    · exact refuse_decided (by decide) fun h => h.pressure.elim (· hpressure.1) (· hpressure.2)
    · refine ⟨_,checked_ok (show "no_eligible_stale_candidate" ≠ "" by decide) nofun,
        refusal_decided rfl fun hgates hroom => ?_⟩
      have hempty : eligible config snapshot = [] := by
        obtain hempty | hnoroom := hnone
        · exact hempty
        · have hfloor' := hgates.floor
          omega
      have hnothing : fullReclaim config snapshot = 0 := by
        rw [fullReclaim_eq,hempty]
        exact worth_empty fullyAttributed_blocked
      rw [hnothing]
      exact lt_of_lt_of_le config.reclaim_pos (le_max_left _ _)
    · obtain ⟨o,ho,hended⟩ := selectVictims_ended fl config (eligible config snapshot)
        (snapshot.runningRequestCount - snapshot.minimumActiveRequests) order fullyAttributed_blocked
        (reclaimTarget config snapshot)
      obtain ⟨d,hd,hdecided⟩ := conclude_decided hreplace hended
      exact ⟨d,bind_eq_ok.mpr ⟨o,ho,hd⟩,hdecided⟩
  exact ⟨d,hd,hdecided,(decide_order config snapshot fl order order').trans hd⟩

end Plans

/-! ## An extent without blockers -/

/-- The order in which the packages were made. -/
def madeOrder : IterationOrder := ⟨id,fun packages => List.Perm.refl packages⟩

def eagerConfig : ObservedRetractionConfig where
  minimumAdmissionStallMs := 237
  minimumReclaimBytes := 457
  maximumRetractionsPerRequest := 459
  stall_pos := by norm_num
  reclaim_pos := by decide
  retractions_pos := by decide

theorem no_blockers : ([] : List String).Pairwise (· < ·) := List.Pairwise.nil

/-- A stale request, next to an extent that nobody blocks. -/
def idleSnapshot : ObservedRetractionSnapshot where
  observedTsMs := 0
  pageRevision := 0
  topologyRevision := 0
  activeKvBudgetBytes := 0
  activeKvFootprintBytes := 0
  nativeReclaimCapacityBytes := 0
  admissionStallMs := 250
  runningRequestCount := 2
  minimumActiveRequests := 1
  candidates := [{
    requestId := "stale request"
    privateKvBytes := 1009
    serviceStatus := .stale
    staleForMs := 450
    causalRank := 0
    unblockDepth := 0
    workflowFairRank := 0
    joinCriticality := 1 / 450
    named := by decide
    stale_nonneg := by norm_num
    boundary_nonneg := by
      intro tokens htokens
      cases htokens
    join_nonneg := by norm_num
    join_le := by norm_num }]
  lockedExtents := [⟨"idle extent",463,[],true,by decide,by decide,no_blockers⟩]
  replacements := [⟨"waiting request",1009,.unknown,.unavailable,1 / 450,by decide,by norm_num,by norm_num⟩]
  candidates_unique := by decide
  replacements_unique := by decide

/-- An extent that is attributed to nobody is not counted. -/
theorem idle_extent_uncounted : ∃ d plan, decide id madeOrder eagerConfig idleSnapshot = .ok d ∧ d.plan = some plan ∧
    plan.expectedReclaimCapacityBytes ≠
      ((idleSnapshot.candidates.filter (·.requestId ∈ plan.requestIds)).map (·.privateKvBytes)).sum +
        ((idleSnapshot.lockedExtents.filter fun e => e.fullyAttributed ∧
          ∀ b ∈ e.blockerRequestIds, b ∈ plan.requestIds).map (·.sizeBytes)).sum := by
  refine ⟨_,_,rfl,rfl,?_⟩
  decide +kernel

end BeliefKV.Retraction
