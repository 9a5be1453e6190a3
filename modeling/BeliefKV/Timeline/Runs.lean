import BeliefKV.Timeline.Steps

/-! The batches of a plan in their order: what they have given to an invocation when one is run. -/
namespace BeliefKV.CandidateTimeline

section Meters
variable {fl : ℚ → ℚ} {model : GPUServiceModel} {scenario : DemandScenario} {plan : CandidatePhysicalPlan}

/-! ## The consumed tokens -/

/-- The consumed tokens are as they were. -/
def SameMeters (t u : Timeline) : Prop :=
  u.consumedPrefill = t.consumedPrefill ∧ u.consumedDecode = t.consumedDecode

theorem SameMeters.trans {t u v : Timeline} (h : SameMeters t u) (h' : SameMeters u v) : SameMeters t v :=
  ⟨h'.1.trans h.1,h'.2.trans h.2⟩

theorem foldl_meters {A : Type} {f : Timeline → A → Timeline} (h : ∀ t a, SameMeters t (f t a)) (l : List A) :
    ∀ t, SameMeters t (l.foldl f t) := by
  induction l with
  | nil => exact fun _ => ⟨rfl,rfl⟩
  | cons a l ih => exact fun t => (h t a).trans (ih (f t a))

theorem startOutcome_meters (t : Timeline) (o : FrontierDemandOutcome) : SameMeters t (startOutcome fl plan t o) := by
  unfold startOutcome
  split_ifs
  · exact ⟨rfl,rfl⟩
  · exact ⟨rfl,rfl⟩
  · exact ⟨rfl,rfl⟩

theorem resolveOutcome_meters (t : Timeline) (o : FrontierDemandOutcome) : SameMeters t (resolveOutcome t o) := by
  unfold resolveOutcome
  split_ifs
  · exact ⟨rfl,rfl⟩
  · cases resolved t o with
    | none => exact ⟨rfl,rfl⟩
    | some offset => exact ⟨rfl,rfl⟩

theorem completeZero_meters (t : Timeline) (d : PhysicalizedInvocationDemand) :
    SameMeters t (completeZero scenario t d) := by
  unfold completeZero
  split_ifs
  · exact ⟨rfl,rfl⟩
  · exact ⟨rfl,rfl⟩
  · exact ⟨rfl,rfl⟩

theorem settle_meters (t : Timeline) : SameMeters t (settleDependencyReleases scenario plan t) := by
  unfold settleDependencyReleases
  induction scenario.outcomes.length + 2 with
  | zero => exact ⟨rfl,rfl⟩
  | succ n ih =>
    rw [Function.iterate_succ_apply']
    exact ih.trans ((foldl_meters resolveOutcome_meters _ _).trans (foldl_meters completeZero_meters _ _))

theorem startTimeline_meters : SameMeters {} (startTimeline fl scenario plan) := by
  have hexternal : SameMeters {} (externalTimeline fl scenario plan) := foldl_meters startOutcome_meters _ _
  refine hexternal.trans ((settle_meters _).trans (foldl_meters (fun t x => ?_) _ _))
  have hdemand : SameDemand t (scheduleTransfer fl plan t x.transferId) := scheduleTransfer_demand _ t
  exact ⟨hdemand.prefill,hdemand.decode⟩

theorem getD_insert (d : Dict String ℕ) (k id : String) (v : ℕ) :
    (d.insert k v).getD id 0 = if k = id then v else d.getD id 0 := by
  rw [Std.ExtTreeMap.getD_eq_getD_getElem?,Std.ExtTreeMap.getD_eq_getD_getElem?,Dict.get_insert]
  split_ifs
  · rfl
  · rfl

/-- The tokens that some requests give to an invocation. -/
def givenTokens (requests : List ScheduledRequestQuantum) (id : String) : ℕ :=
  ((requests.filter (·.invocationId = id)).map (·.tokenDelta)).sum

theorem givenTokens_cons (r : ScheduledRequestQuantum) (requests : List ScheduledRequestQuantum) (id : String) :
    givenTokens (r :: requests) id = (if r.invocationId = id then r.tokenDelta else 0) + givenTokens requests id := by
  unfold givenTokens
  by_cases heq : r.invocationId = id
  · rw [List.filter_cons_of_pos (by simpa using heq),List.map_cons,List.sum_cons,if_pos heq]
  · rw [List.filter_cons_of_neg (by simpa using heq),if_neg heq,Nat.zero_add]

/-- Serving a request consumes at most its tokens. -/
theorem serveRequest_meters (plan : CandidatePhysicalPlan) (phase : DemandPhase) (t : Timeline) (r : ScheduledRequestQuantum) (id : String) :
    (serveRequest plan phase t r).consumedPrefill.getD id 0 ≤ t.consumedPrefill.getD id 0 +
        (if phase = .prefill then if r.invocationId = id then r.tokenDelta else 0 else 0) ∧
      (serveRequest plan phase t r).consumedDecode.getD id 0 ≤ t.consumedDecode.getD id 0 +
        if phase = .prefill then 0 else if r.invocationId = id then r.tokenDelta else 0 := by
  unfold serveRequest
  cases plan.physical? r.invocationId with
  | none => exact ⟨Nat.le_add_right _ _,Nat.le_add_right _ _⟩
  | some d =>
    have hkept : ∀ u : Timeline, SameMeters u (if u.Met d then
        u.complete r.invocationId u.nowMs "candidate_gpu_schedule" else u) := by
      intro u
      split_ifs
      · exact ⟨rfl,rfl⟩
      · exact ⟨rfl,rfl⟩
    obtain ⟨hprefill,hdecode⟩ := hkept (t.consume phase r)
    simp only
    rw [hprefill,hdecode]
    unfold Timeline.consume
    by_cases hphase : phase = .prefill
    · simp only [if_pos hphase]
      rw [getD_insert]
      refine ⟨?_,Nat.le_add_right _ _⟩
      split_ifs with heq
      · rw [heq]
      · exact Nat.le_add_right _ _
    · simp only [if_neg hphase]
      rw [getD_insert]
      refine ⟨Nat.le_add_right _ _,?_⟩
      split_ifs with heq
      · rw [heq]
      · exact Nat.le_add_right _ _

theorem serveRequests_meters (phase : DemandPhase) (id : String) (requests : List ScheduledRequestQuantum) :
    ∀ t : Timeline, (requests.foldl (serveRequest plan phase) t).consumedPrefill.getD id 0 ≤
        t.consumedPrefill.getD id 0 + (if phase = .prefill then givenTokens requests id else 0) ∧
      (requests.foldl (serveRequest plan phase) t).consumedDecode.getD id 0 ≤
        t.consumedDecode.getD id 0 + if phase = .prefill then 0 else givenTokens requests id := by
  induction requests with
  | nil => exact fun _ => ⟨Nat.le_add_right _ _,Nat.le_add_right _ _⟩
  | cons r requests ih =>
    intro t
    obtain ⟨hprefill,hdecode⟩ := serveRequest_meters plan phase t r id
    obtain ⟨hprefill',hdecode'⟩ := ih (serveRequest plan phase t r)
    rw [List.foldl_cons,givenTokens_cons]
    by_cases hphase : phase = .prefill
    · simp only [if_pos hphase] at hprefill hdecode hprefill' hdecode' ⊢
      exact ⟨by omega,by omega⟩
    · simp only [if_neg hphase] at hprefill hdecode hprefill' hdecode' ⊢
      exact ⟨by omega,by omega⟩

/-! ## Runs -/

/-- After some batches an invocation has at most their tokens, and it is completed only if its demand is met. -/
structure Metered (plan : CandidatePhysicalPlan) (batches : List ScheduledBatchQuantum) (t : Timeline) : Prop where
  prefill : ∀ id, t.consumedPrefill.getD id 0 ≤ prefillTokens batches id
  decode : ∀ id, t.consumedDecode.getD id 0 ≤ decodeTokens batches id

/-- An invocation with tokens to process is completed only if its demand is met. -/
def MetWhenDone (plan : CandidatePhysicalPlan) (t : Timeline) : Prop :=
  ∀ d ∈ plan.invocationDemands, d.Works → d.invocationId ∈ t.completion → t.Met d

theorem Metered.same {batches : List ScheduledBatchQuantum} {t u : Timeline} (h : Metered plan batches t)
    (hsame : SameMeters t u) : Metered plan batches u := by
  refine ⟨fun id => ?_,fun id => ?_⟩
  · rw [hsame.1]
    exact h.prefill id
  · rw [hsame.2]
    exact h.decode id

theorem demand_unique {d e : PhysicalizedInvocationDemand} (hd : d ∈ plan.invocationDemands)
    (he : e ∈ plan.invocationDemands) (hid : d.invocationId = e.invocationId) : d = e :=
  List.inj_on_of_nodup_map plan.demands_unique hd he hid

theorem Step.metWhenDone {t u : Timeline} (h : Step fl model scenario plan t u) (hmet : MetWhenDone plan t) :
    MetWhenDone plan u := by
  intro d hd hwork hdone
  cases h with
  | release => exact hmet d hd hwork hdone
  | @zero e he hnone =>
    obtain heq | hold := (Dict.mem_insert_iff _ _ _ _).mp hdone
    · rw [demand_unique hd he heq] at hwork
      exact absurd hwork hnone
    · exact hmet d hd hwork hold
  | transfer => exact hmet d hd hwork hdone
  | execute => exact hmet d hd hwork hdone
  | consume phase r =>
    have hold : d.invocationId ∈ t.completion := by
      obtain ⟨_,_,heq⟩ := consume_frame t phase r
      rwa [heq] at hdone
    obtain ⟨hprefill,hdecode⟩ := hmet d hd hwork hold
    unfold Timeline.consume
    split_ifs
    · refine ⟨?_,hdecode⟩
      change _ ≤ (t.consumedPrefill.insert r.invocationId _).getD d.invocationId 0
      rw [getD_insert]
      split_ifs with heq
      · rw [heq]
        exact hprefill.trans (Nat.le_add_right _ _)
      · exact hprefill
    · refine ⟨hprefill,?_⟩
      change _ ≤ (t.consumedDecode.insert r.invocationId _).getD d.invocationId 0
      rw [getD_insert]
      split_ifs with heq
      · rw [heq]
        exact hdecode.trans (Nat.le_add_right _ _)
      · exact hdecode
  | @meet e q he hmeets =>
    obtain heq | hold := (Dict.mem_insert_iff _ _ _ _).mp hdone
    · rw [demand_unique hd he heq]
      exact hmeets
    · exact hmet d hd hwork hold
  | @finish o offset ho hplain =>
    obtain heq | hold := (Dict.mem_insert_iff _ _ _ _).mp hdone
    · rw [← heq,physical?_eq_some.mpr ⟨hd,rfl⟩] at hplain
      cases hplain
    · exact hmet d hd hwork hold
  | fail => exact hmet d hd hwork hdone

/-- The batch after some others serves no completed invocation, if none is to be served again. -/
theorem fresh_of_metered {pre post : List ScheduledBatchQuantum} {b : ScheduledBatchQuantum} {t : Timeline}
    (hsplit : plan.batches = pre ++ b :: post) (hmetered : Metered plan pre t) (hmet : MetWhenDone plan t) :
    Fresh plan b.requests t := by
  intro honce r hr d hphysical
  obtain ⟨hmem,hid⟩ := physical?_eq_some.mp hphysical
  have hserved : ¬ (d.uncachedPrefillTokens ≤ prefillTokens pre d.invocationId ∧
      d.remainingDecodeTokens ≤ decodeTokens pre d.invocationId) :=
    fun h => honce pre b post hsplit d hmem h.1 h.2 r hr hid.symm
  have hworks : d.Works := by
    unfold PhysicalizedInvocationDemand.Works
    by_contra hidle
    exact hserved ⟨by omega,by omega⟩
  refine ⟨hworks,fun hdone => ?_⟩
  obtain ⟨hprefill,hdecode⟩ := hmet d hmem hworks (hid ▸ hdone)
  exact hserved ⟨hprefill.trans (hmetered.prefill _),hdecode.trans (hmetered.decode _)⟩

theorem prefillTokens_concat (batches : List ScheduledBatchQuantum) (b : ScheduledBatchQuantum) (id : String) :
    prefillTokens (batches ++ [b]) id = prefillTokens batches id +
      if b.phase = .prefill then givenTokens b.requests id else 0 := by
  simp [prefillTokens,tokensOf,givenTokens]

theorem decodeTokens_concat (batches : List ScheduledBatchQuantum) (b : ScheduledBatchQuantum) (id : String) :
    decodeTokens (batches ++ [b]) id = decodeTokens batches id +
      if b.phase = .prefill then 0 else givenTokens b.requests id := by
  simp [decodeTokens,tokensOf,givenTokens]

theorem executeBatch_meters {pre : List ScheduledBatchQuantum} {b : ScheduledBatchQuantum} {t u : Timeline}
    (hmetered : Metered plan pre t) (h : executeBatch fl model scenario plan t b = .ok u) :
    Metered plan (pre ++ [b]) u := by
  obtain ⟨v,-,hdemand,-,hcases⟩ := executeBatch_cases h
  have hold : Metered plan pre v := hmetered.same ⟨hdemand.prefill,hdemand.decode⟩
  obtain rfl | ⟨estimate,-,-,-,rfl⟩ := hcases
  · refine ⟨fun id => ?_,fun id => ?_⟩
    · rw [prefillTokens_concat]
      exact (hold.prefill id).trans (Nat.le_add_right _ _)
    · rw [decodeTokens_concat]
      exact (hold.decode id).trans (Nat.le_add_right _ _)
  · refine ⟨fun id => ?_,fun id => ?_⟩
    · rw [prefillTokens_concat]
      exact (serveRequests_meters b.phase id b.requests _).1.trans (Nat.add_le_add_right (hold.prefill id) _)
    · rw [decodeTokens_concat]
      exact (serveRequests_meters b.phase id b.requests _).2.trans (Nat.add_le_add_right (hold.decode id) _)

theorem runBatches_steps : ∀ {post pre : List ScheduledBatchQuantum} {t u : Timeline},
    plan.batches = pre ++ post → Metered plan pre t → MetWhenDone plan t →
      post.foldlM (runBatch fl model scenario plan) t = .ok u → Steps fl model scenario plan t u := by
  intro post
  induction post with
  | nil =>
    intro pre t u _ _ _ h
    cases h
    exact .refl
  | cons b post ih =>
    intro pre t u hsplit hmetered hmet h
    rw [List.foldlM_cons] at h
    obtain ⟨v,hv,h⟩ := bind_eq_ok.mp h
    obtain ⟨_,-,hv⟩ := bind_eq_ok.mp hv
    have hsettle : Steps fl model scenario plan t (settleDependencyReleases scenario plan t) := settle_steps t
    have hmetered' : Metered plan pre (settleDependencyReleases scenario plan t) :=
      hmetered.same (settle_meters t)
    have hmet' := hsettle.invariant (fun hstep => hstep.metWhenDone) hmet
    have hb : b ∈ plan.batches := by
      rw [hsplit]
      exact List.mem_append_right pre List.mem_cons_self
    have hbatch : Steps fl model scenario plan t v :=
      hsettle.trans (executeBatch_steps hb (fresh_of_metered hsplit hmetered' hmet') hv)
    have hnext : plan.batches = (pre ++ [b]) ++ post := by
      rw [hsplit,List.append_assoc,List.singleton_append]
    apply hbatch.trans
    exact ih hnext (executeBatch_meters hmetered' hv) (hbatch.invariant (fun hstep => hstep.metWhenDone) hmet) h

/-! ## The start -/

/-- Only external segments are known. -/
structure External (fl : ℚ → ℚ) (scenario : DemandScenario) (plan : CandidatePhysicalPlan) (t : Timeline) : Prop where
  transfers : t.transferCompletion = ∅
  quanta : t.serviceQuanta = []
  events : t.hbmEvents = []
  clock : t.nowMs = 0 ∧ t.pcieCursorMs = 0
  completions : ∀ {id : String} {c : Completion}, t.completion[id]? = some c → plan.physical? id = none ∧
    ∃ o ∈ scenario.outcomes, o.invocationId = id ∧ o.dependencyMode = .external ∧
      c.offsetMs = roundedSum fl o.residualDelaysMs
  releases : ∀ {id : String} {offset : ℚ}, t.dependencyRelease[id]? = some offset →
    ∃ o ∈ scenario.outcomes, o.invocationId = id ∧ o.dependencyMode = .external ∧
      offset = roundedSum fl o.residualDelaysMs

theorem External.startOutcome {t : Timeline} (h : External fl scenario plan t) {o : FrontierDemandOutcome}
    (ho : o ∈ scenario.outcomes) : External fl scenario plan (startOutcome fl plan t o) := by
  unfold CandidateTimeline.startOutcome
  by_cases hexternal : o.residualDelaysMs ≠ [] ∧ o.dependencyMode = .external
  · have hreleases : ∀ {id : String} {offset : ℚ},
        (t.dependencyRelease.insert o.invocationId (roundedSum fl o.residualDelaysMs))[id]? = some offset →
        ∃ o ∈ scenario.outcomes, o.invocationId = id ∧ o.dependencyMode = .external ∧
          offset = roundedSum fl o.residualDelaysMs := by
      intro id offset hget
      rw [Dict.get_insert] at hget
      split_ifs at hget with heq
      · cases hget
        exact ⟨o,ho,heq,hexternal.2,rfl⟩
      · exact h.releases hget
    rw [if_pos hexternal]
    simp only
    split_ifs with hplain
    · refine ⟨h.transfers,h.quanta,h.events,h.clock,?_,hreleases⟩
      intro id c hget
      change (t.completion.insert o.invocationId _)[id]? = some c at hget
      rw [Dict.get_insert] at hget
      split_ifs at hget with heq
      · cases hget
        subst heq
        exact ⟨Option.isNone_iff_eq_none.mp hplain,o,ho,rfl,hexternal.2,rfl⟩
      · exact h.completions hget
    · exact ⟨h.transfers,h.quanta,h.events,h.clock,h.completions,hreleases⟩
  · rw [if_neg hexternal]
    exact h

theorem externalTimeline_external : External fl scenario plan (externalTimeline fl scenario plan) := by
  unfold externalTimeline
  have hfold : ∀ l : List FrontierDemandOutcome, (∀ o ∈ l, o ∈ scenario.outcomes) → ∀ t : Timeline,
      External fl scenario plan t → External fl scenario plan (l.foldl (startOutcome fl plan) t) := by
    intro l
    induction l with
    | nil => exact fun _ _ h => h
    | cons o l ih =>
      intro hl t h
      exact ih (fun p hp => hl p (List.mem_cons_of_mem o hp)) _ (h.startOutcome (hl o List.mem_cons_self))
  refine hfold _ (fun _ ho => ho) {} ⟨rfl,rfl,rfl,⟨rfl,rfl⟩,?_,?_⟩
  · intro id c hget
    rw [Std.ExtTreeMap.getElem?_empty] at hget
    cases hget
  · intro id offset hget
    rw [Std.ExtTreeMap.getElem?_empty] at hget
    cases hget

theorem External.metWhenDone {t : Timeline} (h : External fl scenario plan t) : MetWhenDone plan t := by
  intro d hd _ hdone
  obtain ⟨c,hc⟩ := (Dict.mem_iff_get _ _).mp hdone
  have hplain := (h.completions hc).1
  rw [physical?_eq_some.mpr ⟨hd,rfl⟩] at hplain
  cases hplain

/-- An evaluation starts with the external segments and the independent transfers. After the batches the
releases are settled, and what uses no GPU is completed. -/
theorem finalTimeline_spec {u : Timeline} (h : finalTimeline fl model scenario plan = .ok u) :
    ∃ t, Steps fl model scenario plan (startTimeline fl scenario plan) t ∧
      u = completeReleasedNonphysical scenario plan (settleDependencyReleases scenario plan t) := by
  obtain ⟨_,-,h⟩ := bind_eq_ok.mp h
  obtain ⟨t,ht,h⟩ := bind_eq_ok.mp h
  cases h
  have hstart : Steps fl model scenario plan (externalTimeline fl scenario plan) (startTimeline fl scenario plan) :=
    startTimeline_steps
  have hmet := hstart.invariant (fun hstep => hstep.metWhenDone) externalTimeline_external.metWhenDone
  refine ⟨t,runBatches_steps (List.nil_append _).symm ?_ hmet ht,rfl⟩
  obtain ⟨hprefill,hdecode⟩ : SameMeters {} (startTimeline fl scenario plan) := startTimeline_meters
  refine ⟨fun id => ?_,fun id => ?_⟩
  · rw [hprefill,Std.ExtTreeMap.getD_empty]
    exact Nat.zero_le _
  · rw [hdecode,Std.ExtTreeMap.getD_empty]
    exact Nat.zero_le _

theorem finalTimeline_steps {u : Timeline} (h : finalTimeline fl model scenario plan = .ok u) :
    Steps fl model scenario plan (startTimeline fl scenario plan) u := by
  obtain ⟨t,ht,rfl⟩ := finalTimeline_spec h
  exact ht.trans ((settle_steps t).trans (foldl_steps (fun _ ho t => finishOutcome_steps ho t) _))

/-- What every step keeps holds at the end, if it holds of the external segments. -/
theorem finalTimeline_invariant {P : Timeline → Prop}
    (hstep : ∀ {t u}, Step fl model scenario plan t u → P t → P u) (hstart : ∀ t, External fl scenario plan t → P t)
    {u : Timeline} (h : finalTimeline fl model scenario plan = .ok u) : P u := by
  have hsteps : Steps fl model scenario plan (externalTimeline fl scenario plan) u :=
    startTimeline_steps.trans (finalTimeline_steps h)
  exact hsteps.invariant hstep (hstart _ externalTimeline_external)

end Meters
end BeliefKV.CandidateTimeline
