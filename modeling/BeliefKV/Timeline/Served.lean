import BeliefKV.Timeline.Order

/-! The tokens that the executed batches have given, and the batch that completes an invocation. -/
namespace BeliefKV.CandidateTimeline

section Served
variable {fl : ℚ → ℚ} {model : GPUServiceModel} {scenario : DemandScenario} {plan : CandidatePhysicalPlan}

/-! ## Tokens -/

/-- The executed batches, by their quanta. -/
def batchesOf (plan : CandidatePhysicalPlan) (quanta : List TimedServiceQuantum) : List ScheduledBatchQuantum :=
  quanta.filterMap fun q => plan.batch? q.batchId

/-- Some batches meet the demand of an invocation. -/
def Serves (batches : List ScheduledBatchQuantum) (d : PhysicalizedInvocationDemand) : Prop :=
  d.uncachedPrefillTokens ≤ prefillTokens batches d.invocationId ∧
    d.remainingDecodeTokens ≤ decodeTokens batches d.invocationId

/-- With a quantum that ends at an offset the executed batches meet the demand for the first time. -/
def FirstMet (plan : CandidatePhysicalPlan) (quanta : List TimedServiceQuantum) (d : PhysicalizedInvocationDemand)
    (offset : ℚ) : Prop :=
  ∃ pre q post, quanta = pre ++ q :: post ∧ q.completionOffsetMs = offset ∧
    Serves (batchesOf plan (pre ++ [q])) d ∧ ¬ Serves (batchesOf plan pre) d

theorem batchesOf_append (quanta rest : List TimedServiceQuantum) :
    batchesOf plan (quanta ++ rest) = batchesOf plan quanta ++ batchesOf plan rest :=
  List.filterMap_append

theorem batchesOf_singleton {b : ScheduledBatchQuantum} (hb : b ∈ plan.batches) {q : TimedServiceQuantum}
    (hid : b.batchId = q.batchId) : batchesOf plan [q] = [b] := by
  unfold batchesOf
  rw [List.filterMap_cons,batch?_eq_some.mpr ⟨hb,hid⟩]
  rfl

theorem Serves.mono {few many : List ScheduledBatchQuantum} (hsub : few.Sublist many)
    {d : PhysicalizedInvocationDemand} (h : Serves few d) : Serves many d :=
  ⟨h.1.trans ((hsub.map _).sum_le_sum fun _ _ => Nat.zero_le _),
    h.2.trans ((hsub.map _).sum_le_sum fun _ _ => Nat.zero_le _)⟩

theorem FirstMet.serves {quanta : List TimedServiceQuantum} {d : PhysicalizedInvocationDemand} {offset : ℚ}
    (h : FirstMet plan quanta d offset) : Serves (batchesOf plan quanta) d := by
  obtain ⟨pre,q,post,rfl,-,hserves,-⟩ := h
  rw [List.append_cons,batchesOf_append]
  exact hserves.mono (List.sublist_append_left _ _)

/-- One more quantum is either the one that meets the demand or changes nothing. -/
theorem firstMet_concat {quanta : List TimedServiceQuantum} {q : TimedServiceQuantum}
    {d : PhysicalizedInvocationDemand} {offset : ℚ} : FirstMet plan (quanta ++ [q]) d offset ↔
      FirstMet plan quanta d offset ∨ (q.completionOffsetMs = offset ∧ Serves (batchesOf plan (quanta ++ [q])) d ∧
        ¬ Serves (batchesOf plan quanta) d) := by
  constructor
  · rintro ⟨pre,p,post,hsplit,h⟩
    obtain rfl | ⟨rest,last,rfl⟩ := List.eq_nil_or_concat post
    · obtain ⟨rfl,hlast⟩ := List.append_inj' hsplit rfl
      obtain rfl := List.singleton_injective hlast
      exact .inr h
    · rw [List.concat_eq_append,← List.cons_append,← List.append_assoc] at hsplit
      obtain ⟨hquanta,-⟩ := List.append_inj' hsplit rfl
      exact .inl ⟨pre,p,rest,hquanta,h⟩
  · rintro (⟨pre,p,post,rfl,h⟩ | h)
    · exact ⟨pre,p,post ++ [q],by rw [List.append_assoc,List.cons_append],h⟩
    · exact ⟨quanta,q,[],rfl,h⟩

/-! ## Serving requests -/

/-- An invocation is as it was. -/
structure SameAt (id : String) (t u : Timeline) : Prop where
  completion : u.completion[id]? = t.completion[id]?
  prefill : u.consumedPrefill.getD id 0 = t.consumedPrefill.getD id 0
  decode : u.consumedDecode.getD id 0 = t.consumedDecode.getD id 0

theorem SameAt.trans {id : String} {t u v : Timeline} (h : SameAt id t u) (h' : SameAt id u v) : SameAt id t v :=
  ⟨h'.completion.trans h.completion,h'.prefill.trans h.prefill,h'.decode.trans h.decode⟩

theorem consume_other {t : Timeline} {phase : DemandPhase} {r : ScheduledRequestQuantum} {id : String}
    (hne : r.invocationId ≠ id) : SameAt id t (t.consume phase r) := by
  unfold Timeline.consume
  split_ifs
  · refine ⟨rfl,?_,rfl⟩
    change (t.consumedPrefill.insert r.invocationId _).getD id 0 = _
    rw [getD_insert,if_neg hne]
  · refine ⟨rfl,rfl,?_⟩
    change (t.consumedDecode.insert r.invocationId _).getD id 0 = _
    rw [getD_insert,if_neg hne]

theorem serveRequest_other {t : Timeline} {phase : DemandPhase} {r : ScheduledRequestQuantum} {id : String}
    (hne : r.invocationId ≠ id) : SameAt id t (serveRequest plan phase t r) := by
  unfold serveRequest
  cases plan.physical? r.invocationId with
  | none => exact ⟨rfl,rfl,rfl⟩
  | some d =>
    have hconsume : SameAt id t (t.consume phase r) := consume_other hne
    simp only
    split_ifs
    · refine hconsume.trans ⟨?_,rfl,rfl⟩
      change ((t.consume phase r).completion.insert r.invocationId _)[id]? = _
      rw [Dict.get_insert,if_neg hne]
    · exact hconsume

theorem serveRequests_other {phase : DemandPhase} {id : String} (requests : List ScheduledRequestQuantum) :
    (∀ r ∈ requests, r.invocationId ≠ id) → ∀ t : Timeline, SameAt id t (requests.foldl (serveRequest plan phase) t) := by
  induction requests with
  | nil => exact fun _ _ => ⟨rfl,rfl,rfl⟩
  | cons r requests ih =>
    intro hne t
    have hfirst : SameAt id t (serveRequest plan phase t r) := serveRequest_other (hne r List.mem_cons_self)
    exact hfirst.trans (ih (fun q hq => hne q (List.mem_cons_of_mem r hq)) _)

theorem serveRequests_time {phase : DemandPhase} (requests : List ScheduledRequestQuantum) : ∀ t : Timeline,
    (requests.foldl (serveRequest plan phase) t).serviceQuanta = t.serviceQuanta ∧
      (requests.foldl (serveRequest plan phase) t).nowMs = t.nowMs := by
  induction requests with
  | nil => exact fun _ => ⟨rfl,rfl⟩
  | cons r requests ih =>
    intro t
    obtain ⟨hquanta,hnow,-⟩ := serveRequest_frame plan phase t r
    exact ⟨(ih _).1.trans hquanta,(ih _).2.trans hnow⟩

theorem givenTokens_nil {requests : List ScheduledRequestQuantum} {id : String}
    (h : ∀ r ∈ requests, r.invocationId ≠ id) : givenTokens requests id = 0 := by
  unfold givenTokens
  rw [List.filter_eq_nil_iff.mpr fun r hr => by simpa using h r hr]
  rfl

theorem Met_congr {t u : Timeline} {d : PhysicalizedInvocationDemand} (h : SameAt d.invocationId t u) :
    u.Met d ↔ t.Met d := by
  unfold Timeline.Met
  rw [h.prefill,h.decode]

theorem serves_concat {batches : List ScheduledBatchQuantum} {b : ScheduledBatchQuantum}
    {d : PhysicalizedInvocationDemand} (hnone : ∀ r ∈ b.requests, r.invocationId ≠ d.invocationId)
    (h : Serves (batches ++ [b]) d) : Serves batches d := by
  obtain ⟨hprefill,hdecode⟩ := h
  rw [prefillTokens_concat,givenTokens_nil hnone,ite_self] at hprefill
  rw [decodeTokens_concat,givenTokens_nil hnone,ite_self] at hdecode
  exact ⟨hprefill,hdecode⟩

/-- What an invocation has after the requests of a batch. -/
structure ServedBy (phase : DemandPhase) (requests : List ScheduledRequestQuantum) (d : PhysicalizedInvocationDemand)
    (t u : Timeline) : Prop where
  prefill : u.consumedPrefill.getD d.invocationId 0 = t.consumedPrefill.getD d.invocationId 0 +
    if phase = .prefill then givenTokens requests d.invocationId else 0
  decode : u.consumedDecode.getD d.invocationId 0 = t.consumedDecode.getD d.invocationId 0 +
    if phase = .prefill then 0 else givenTokens requests d.invocationId
  met : (∃ r ∈ requests, r.invocationId = d.invocationId) → u.Met d →
    u.completionOf d.invocationId = some t.nowMs
  unmet : (¬ (∃ r ∈ requests, r.invocationId = d.invocationId) ∨ ¬ u.Met d) →
    u.completionOf d.invocationId = t.completionOf d.invocationId

theorem SameAt.completionOf {id : String} {t u : Timeline} (h : SameAt id t u) :
    u.completionOf id = t.completionOf id := by
  unfold Timeline.completionOf
  rw [h.completion]

theorem serveRequest_own {phase : DemandPhase} {d : PhysicalizedInvocationDemand} (hd : d ∈ plan.invocationDemands)
    {t : Timeline} {r : ScheduledRequestQuantum} (hid : r.invocationId = d.invocationId) :
    ServedBy phase [r] d t (serveRequest plan phase t r) := by
  have hgiven : givenTokens [r] d.invocationId = r.tokenDelta := by
    rw [givenTokens_cons,if_pos hid]
    rfl
  have hmeters : ∀ u : Timeline, SameMeters (t.consume phase r) u →
      u.consumedPrefill.getD d.invocationId 0 = t.consumedPrefill.getD d.invocationId 0 +
        (if phase = .prefill then givenTokens [r] d.invocationId else 0) ∧
      u.consumedDecode.getD d.invocationId 0 = t.consumedDecode.getD d.invocationId 0 +
        if phase = .prefill then 0 else givenTokens [r] d.invocationId := by
    intro u hsame
    rw [hsame.1,hsame.2,hgiven]
    unfold Timeline.consume
    by_cases hphase : phase = .prefill
    · simp only [if_pos hphase]
      rw [getD_insert,if_pos hid,hid]
      exact ⟨rfl,rfl⟩
    · simp only [if_neg hphase]
      rw [getD_insert,if_pos hid,hid]
      exact ⟨rfl,rfl⟩
  have hcompletion : (t.consume phase r).completion = t.completion ∧ (t.consume phase r).nowMs = t.nowMs := by
    obtain ⟨_,_,heq⟩ := consume_frame t phase r
    rw [heq]
    exact ⟨rfl,rfl⟩
  unfold serveRequest
  rw [physical?_eq_some.mpr ⟨hd,hid.symm⟩]
  simp only
  split_ifs with hmet
  · obtain ⟨hprefill,hdecode⟩ := hmeters ((t.consume phase r).complete r.invocationId (t.consume phase r).nowMs
      "candidate_gpu_schedule") ⟨rfl,rfl⟩
    refine ⟨hprefill,hdecode,fun _ _ => ?_,fun h => ?_⟩
    · rw [completionOf_complete,if_pos hid,hcompletion.2]
    · refine absurd hmet (h.resolve_left fun hnone => hnone ⟨r,List.mem_singleton_self r,hid⟩)
  · obtain ⟨hprefill,hdecode⟩ := hmeters _ ⟨rfl,rfl⟩
    refine ⟨hprefill,hdecode,fun _ h => absurd h hmet,fun _ => ?_⟩
    unfold Timeline.completionOf
    rw [hcompletion.1]

theorem serveRequests_own {phase : DemandPhase} {d : PhysicalizedInvocationDemand} (hd : d ∈ plan.invocationDemands)
    (requests : List ScheduledRequestQuantum) : ∀ t : Timeline, (requests.map (·.invocationId)).Nodup →
      ServedBy phase requests d t (requests.foldl (serveRequest plan phase) t) := by
  induction requests with
  | nil =>
    intro t _
    refine ⟨?_,?_,fun ⟨r,hr,_⟩ => absurd hr List.not_mem_nil,fun _ => rfl⟩
    · split_ifs
      · rfl
      · rfl
    · split_ifs
      · rfl
      · rfl
  | cons r requests ih =>
    intro t hunique
    rw [List.map_cons,List.nodup_cons] at hunique
    rw [List.foldl_cons]
    by_cases hid : r.invocationId = d.invocationId
    · have hrest : ∀ q ∈ requests, q.invocationId ≠ d.invocationId := by
        intro q hq heq
        exact hunique.1 ((hid.trans heq.symm) ▸ List.mem_map_of_mem hq)
      have hfirst : ServedBy phase [r] d t (serveRequest plan phase t r) := serveRequest_own hd hid
      have hsame : SameAt d.invocationId (serveRequest plan phase t r)
          (requests.foldl (serveRequest plan phase) (serveRequest plan phase t r)) := serveRequests_other requests hrest _
      have hgiven : givenTokens (r :: requests) d.invocationId = givenTokens [r] d.invocationId := by
        rw [givenTokens_cons,givenTokens_cons,givenTokens_nil hrest]
        rfl
      refine ⟨?_,?_,fun _ hmet => ?_,fun h => ?_⟩
      · rw [hsame.prefill,hfirst.prefill,hgiven]
      · rw [hsame.decode,hfirst.decode,hgiven]
      · rw [hsame.completionOf]
        exact hfirst.met ⟨r,List.mem_singleton_self r,hid⟩ ((Met_congr hsame).mp hmet)
      · rw [hsame.completionOf]
        refine hfirst.unmet (.inr fun hmet => ?_)
        exact (h.resolve_left fun hnone => hnone ⟨r,List.mem_cons_self,hid⟩) ((Met_congr hsame).mpr hmet)
    · have hfirst : SameAt d.invocationId t (serveRequest plan phase t r) := serveRequest_other hid
      obtain ⟨-,hnow,-⟩ := serveRequest_frame plan phase t r
      have hrest := ih (serveRequest plan phase t r) hunique.2
      have hiff : (∃ q ∈ r :: requests, q.invocationId = d.invocationId) ↔
          ∃ q ∈ requests, q.invocationId = d.invocationId := by
        rw [List.exists_mem_cons_iff]
        exact or_iff_right hid
      have hgiven : givenTokens (r :: requests) d.invocationId = givenTokens requests d.invocationId := by
        rw [givenTokens_cons,if_neg hid,Nat.zero_add]
      refine ⟨?_,?_,fun h hmet => ?_,fun h => ?_⟩
      · rw [hrest.prefill,hfirst.prefill,hgiven]
      · rw [hrest.decode,hfirst.decode,hgiven]
      · rw [hrest.met (hiff.mp h) hmet,hnow]
      · rw [hrest.unmet (h.imp_left hiff.not.mp),hfirst.completionOf]

/-! ## Between the batches -/

/-- Only the releases, the transfers and what uses no GPU have changed. -/
structure Idle (plan : CandidatePhysicalPlan) (t u : Timeline) : Prop where
  quanta : u.serviceQuanta = t.serviceQuanta
  meters : SameMeters t u
  completions : ∀ d ∈ plan.invocationDemands, d.Works → u.completionOf d.invocationId = t.completionOf d.invocationId

theorem Idle.refl (t : Timeline) : Idle plan t t := ⟨rfl,⟨rfl,rfl⟩,fun _ _ _ => rfl⟩

theorem Idle.trans {t u v : Timeline} (h : Idle plan t u) (h' : Idle plan u v) : Idle plan t v :=
  ⟨h'.quanta.trans h.quanta,h.meters.trans h'.meters,
    fun d hd hworks => (h'.completions d hd hworks).trans (h.completions d hd hworks)⟩

theorem foldl_idle {A : Type} {f : Timeline → A → Timeline} {l : List A} :
    (∀ a ∈ l, ∀ t, Idle plan t (f t a)) → ∀ t, Idle plan t (l.foldl f t) := by
  induction l with
  | nil => exact fun _ t => .refl t
  | cons a l ih =>
    intro h t
    exact (h a List.mem_cons_self t).trans (ih (fun b hb => h b (List.mem_cons_of_mem a hb)) _)

theorem resolveOutcome_idle (t : Timeline) (o : FrontierDemandOutcome) : Idle plan t (resolveOutcome t o) := by
  unfold resolveOutcome
  split_ifs
  · exact .refl t
  · cases resolved t o with
    | none => exact .refl t
    | some offset => exact ⟨rfl,⟨rfl,rfl⟩,fun _ _ _ => rfl⟩

theorem completeZero_idle {d : PhysicalizedInvocationDemand} (hd : d ∈ plan.invocationDemands) (t : Timeline) :
    Idle plan t (completeZero scenario t d) := by
  unfold completeZero
  split_ifs with hworks
  · exact .refl t
  · exact .refl t
  · refine ⟨rfl,⟨rfl,rfl⟩,fun e he heworks => ?_⟩
    rw [completionOf_complete,if_neg]
    intro hid
    rw [demand_unique hd he hid] at hworks
    exact hworks heworks

theorem settle_idle (t : Timeline) : Idle plan t (settleDependencyReleases scenario plan t) := by
  unfold settleDependencyReleases
  induction scenario.outcomes.length + 2 with
  | zero => exact .refl t
  | succ n ih =>
    rw [Function.iterate_succ_apply']
    exact ih.trans ((foldl_idle (fun o _ t => resolveOutcome_idle t o) _).trans
      (foldl_idle (fun _ hd t => completeZero_idle hd t) _))

theorem scheduleTransfer_idle (id : String) (t : Timeline) : Idle plan t (scheduleTransfer fl plan t id) := by
  have hdemand : SameDemand t (scheduleTransfer fl plan t id) := scheduleTransfer_demand id t
  refine ⟨scheduleTransfer_quanta id t,⟨hdemand.prefill,hdemand.decode⟩,fun d _ _ => ?_⟩
  unfold Timeline.completionOf
  rw [hdemand.completion]

theorem finishOutcome_idle (t : Timeline) (o : FrontierDemandOutcome) : Idle plan t (finishOutcome plan t o) := by
  unfold finishOutcome
  by_cases hdone : (plan.physical? o.invocationId).isSome ∨ o.invocationId ∈ t.completion
  · rw [if_pos hdone]
    exact .refl t
  · rw [if_neg hdone]
    cases t.dependencyRelease[o.invocationId]? with
    | none => exact .refl t
    | some offset =>
      simp only
      split_ifs
      · exact .refl t
      · refine ⟨rfl,⟨rfl,rfl⟩,fun d hd _ => ?_⟩
        rw [completionOf_complete,if_neg]
        intro hid
        rw [hid,physical?_eq_some.mpr ⟨hd,rfl⟩] at hdone
        exact hdone (.inl rfl)

/-! ## Runs -/

/-- After some batches of the plan those that were executed have given their tokens, and what works is
completed by the batch that meets its demand. -/
structure Ran (plan : CandidatePhysicalPlan) (batches : List ScheduledBatchQuantum) (t : Timeline) : Prop where
  order : (batchesOf plan t.serviceQuanta).Sublist batches
  named : t.serviceQuanta.map (·.batchId) = (batchesOf plan t.serviceQuanta).map (·.batchId)
  prefill : ∀ d ∈ plan.invocationDemands,
    t.consumedPrefill.getD d.invocationId 0 = prefillTokens (batchesOf plan t.serviceQuanta) d.invocationId
  decode : ∀ d ∈ plan.invocationDemands,
    t.consumedDecode.getD d.invocationId 0 = decodeTokens (batchesOf plan t.serviceQuanta) d.invocationId
  completed : ServedOnce plan → ∀ d ∈ plan.invocationDemands, d.Works → ∀ offset,
    t.completionOf d.invocationId = some offset ↔ FirstMet plan t.serviceQuanta d offset

theorem Ran.idle {batches : List ScheduledBatchQuantum} {t u : Timeline} (h : Ran plan batches t)
    (hidle : Idle plan t u) : Ran plan batches u := by
  refine ⟨?_,?_,fun d hd => ?_,fun d hd => ?_,fun honce d hd hworks offset => ?_⟩
  · rw [hidle.quanta]
    exact h.order
  · rw [hidle.quanta]
    exact h.named
  · rw [hidle.quanta,hidle.meters.1]
    exact h.prefill d hd
  · rw [hidle.quanta,hidle.meters.2]
    exact h.decode d hd
  · rw [hidle.quanta,hidle.completions d hd hworks]
    exact h.completed honce d hd hworks offset

theorem Ran.next {batches : List ScheduledBatchQuantum} {t : Timeline} (h : Ran plan batches t)
    (b : ScheduledBatchQuantum) : Ran plan (batches ++ [b]) t :=
  ⟨h.order.trans (List.sublist_append_left _ _),h.named,h.prefill,h.decode,h.completed⟩

/-- A batch is executed after some others of the plan. -/
theorem Ran.executed {pre post : List ScheduledBatchQuantum} {b : ScheduledBatchQuantum}
    (hsplit : plan.batches = pre ++ b :: post) {t : Timeline} (h : Ran plan pre t) (estimate : GPUServiceEstimate) :
    Ran plan (pre ++ [b]) (b.requests.foldl (serveRequest plan b.phase) (t.executed fl scenario plan b estimate)) := by
  have hb : b ∈ plan.batches := by
    rw [hsplit]
    exact List.mem_append_right pre List.mem_cons_self
  set v := t.executed fl scenario plan b estimate with hv
  set q : TimedServiceQuantum := ⟨b.batchId,t.batchStart scenario b,v.nowMs,estimate.source⟩ with hq
  have hquanta : v.serviceQuanta = t.serviceQuanta ++ [q] := rfl
  have hsame : (b.requests.foldl (serveRequest plan b.phase) v).serviceQuanta = v.serviceQuanta :=
    (serveRequests_time b.requests v).1
  have hbatches : batchesOf plan (t.serviceQuanta ++ [q]) = batchesOf plan t.serviceQuanta ++ [b] := by
    rw [batchesOf_append,batchesOf_singleton hb rfl]
  have hserved : ∀ d ∈ plan.invocationDemands,
      ServedBy b.phase b.requests d v (b.requests.foldl (serveRequest plan b.phase) v) :=
    fun d hd => serveRequests_own hd b.requests v b.requests_unique
  set u := b.requests.foldl (serveRequest plan b.phase) v with hu
  have hprefill : ∀ d ∈ plan.invocationDemands,
      u.consumedPrefill.getD d.invocationId 0 = prefillTokens (batchesOf plan (t.serviceQuanta ++ [q])) d.invocationId := by
    intro d hd
    rw [hbatches,prefillTokens_concat,(hserved d hd).prefill]
    exact congrArg (· + _) (h.prefill d hd)
  have hdecode : ∀ d ∈ plan.invocationDemands,
      u.consumedDecode.getD d.invocationId 0 = decodeTokens (batchesOf plan (t.serviceQuanta ++ [q])) d.invocationId := by
    intro d hd
    rw [hbatches,decodeTokens_concat,(hserved d hd).decode]
    exact congrArg (· + _) (h.decode d hd)
  refine ⟨?_,?_,fun d hd => ?_,fun d hd => ?_,fun honce d hd hworks offset => ?_⟩
  · rw [hsame,hquanta,hbatches]
    exact h.order.append_right [b]
  · rw [hsame,hquanta,hbatches,List.map_append,List.map_append,h.named]
    rfl
  · rw [hsame,hquanta]
    exact hprefill d hd
  · rw [hsame,hquanta]
    exact hdecode d hd
  · have hmet : u.Met d ↔ Serves (batchesOf plan (t.serviceQuanta ++ [q])) d := by
      unfold Timeline.Met Serves
      rw [hprefill d hd,hdecode d hd]
    have hbefore := h.completed honce d hd hworks offset
    rw [hsame,hquanta,firstMet_concat]
    by_cases hrequest : ∃ r ∈ b.requests, r.invocationId = d.invocationId
    · have hnot : ¬ Serves (batchesOf plan t.serviceQuanta) d := by
        intro hserves
        obtain ⟨r,hr,hid⟩ := hrequest
        obtain ⟨hfirst,hsecond⟩ := hserves.mono h.order
        exact honce pre b post hsplit d hd hfirst hsecond r hr hid
      by_cases hnow : u.Met d
      · rw [(hserved d hd).met hrequest hnow]
        constructor
        · intro heq
          cases heq
          exact .inr ⟨rfl,hmet.mp hnow,hnot⟩
        · rintro (hfirst | ⟨rfl,-,-⟩)
          · exact absurd hfirst.serves hnot
          · rfl
      · rw [(hserved d hd).unmet (.inr hnow)]
        refine hbefore.trans (or_iff_left ?_).symm
        exact fun hlast => hnow (hmet.mpr hlast.2.1)
    · rw [(hserved d hd).unmet (.inl hrequest)]
      refine hbefore.trans (or_iff_left ?_).symm
      rintro ⟨-,hserves,hnot⟩
      rw [hbatches] at hserves
      exact hnot (serves_concat (fun r hr hid => hrequest ⟨r,hr,hid⟩) hserves)

theorem runBatches_ran : ∀ {post pre : List ScheduledBatchQuantum} {t u : Timeline},
    plan.batches = pre ++ post → Ran plan pre t → post.foldlM (runBatch fl model scenario plan) t = .ok u →
      Ran plan plan.batches u := by
  intro post
  induction post with
  | nil =>
    intro pre t u hsplit hran h
    cases h
    rw [hsplit,List.append_nil]
    exact hran
  | cons b post ih =>
    intro pre t u hsplit hran h
    rw [List.foldlM_cons] at h
    obtain ⟨v,hv,h⟩ := bind_eq_ok.mp h
    obtain ⟨_,-,hv⟩ := bind_eq_ok.mp hv
    have hnext : plan.batches = (pre ++ [b]) ++ post := by
      rw [hsplit,List.append_assoc,List.singleton_append]
    apply ih hnext ?_ h
    obtain ⟨w,-,hdemand,hquanta,hcases⟩ := executeBatch_cases hv
    have hidle : Idle plan (settleDependencyReleases scenario plan t) w := by
      refine ⟨hquanta,⟨hdemand.prefill,hdemand.decode⟩,fun d _ _ => ?_⟩
      unfold Timeline.completionOf
      rw [hdemand.completion]
    have hw : Ran plan pre w := hran.idle ((settle_idle t).trans hidle)
    obtain rfl | ⟨estimate,-,-,-,rfl⟩ := hcases
    · exact hw.next b
    · exact hw.executed hsplit estimate

theorem External.ran {t : Timeline} (h : External fl scenario plan t) (hmeters : SameMeters {} t) : Ran plan [] t := by
  refine ⟨?_,?_,fun d _ => ?_,fun d _ => ?_,fun _ d hd _ offset => ⟨fun hget => ?_,fun hfirst => ?_⟩⟩
  · rw [h.quanta]
    exact List.nil_sublist []
  · rw [h.quanta]
    rfl
  · rw [h.quanta,hmeters.1,Std.ExtTreeMap.getD_empty]
    rfl
  · rw [h.quanta,hmeters.2,Std.ExtTreeMap.getD_empty]
    rfl
  · obtain ⟨c,hc,-⟩ := completionOf_eq_some.mp hget
    have hplain := (h.completions hc).1
    rw [physical?_eq_some.mpr ⟨hd,rfl⟩] at hplain
    cases hplain
  · obtain ⟨pre,q,post,hsplit,-⟩ := hfirst
    rw [h.quanta] at hsplit
    exact absurd hsplit.symm (List.append_ne_nil_of_right_ne_nil pre (List.cons_ne_nil q post))

/-- At the end every invocation with tokens to process is completed by the batch that meets its demand. -/
theorem finalTimeline_ran {u : Timeline} (h : finalTimeline fl model scenario plan = .ok u) : Ran plan plan.batches u := by
  obtain ⟨_,-,h⟩ := bind_eq_ok.mp h
  obtain ⟨t,ht,h⟩ := bind_eq_ok.mp h
  cases h
  have hmeters : SameMeters {} (externalTimeline fl scenario plan) := foldl_meters startOutcome_meters _ _
  have hstart : Idle plan (externalTimeline fl scenario plan) (startTimeline fl scenario plan) :=
    (settle_idle _).trans (foldl_idle (fun x _ t => scheduleTransfer_idle x.transferId t) _)
  have hran : Ran plan plan.batches t :=
    runBatches_ran (List.nil_append _).symm ((externalTimeline_external.ran hmeters).idle hstart) ht
  exact hran.idle ((settle_idle t).trans (foldl_idle (fun o _ t => finishOutcome_idle t o) _))

end Served
end BeliefKV.CandidateTimeline
