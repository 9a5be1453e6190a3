import Mathlib.Logic.Relation
import BeliefKV.Timeline.Evaluation
import BeliefKV.WhatIf.Agreement

/-! The changes that an evaluation makes to its timeline, one at a time. -/
namespace BeliefKV.CandidateTimeline

/-! ## Lists of offsets -/

theorem le_foldl_max {l : List ℚ} : ∀ {a : ℚ}, a ≤ l.foldl max a := by
  induction l with
  | nil => exact le_rfl
  | cons b l ih =>
    intro a
    exact (le_max_left a b).trans ih

theorem mem_le_foldl_max {l : List ℚ} : ∀ {a b : ℚ}, b ∈ l → b ≤ l.foldl max a := by
  induction l with
  | nil => exact fun h => absurd h List.not_mem_nil
  | cons c l ih =>
    intro a b h
    obtain rfl | h := List.mem_cons.mp h
    · exact (le_max_right a b).trans le_foldl_max
    · exact ih h

/-! ## Steps -/

section Steps
variable (fl : ℚ → ℚ) (model : GPUServiceModel) (scenario : DemandScenario) (plan : CandidatePhysicalPlan)

/-- The timeline that knows the external segments only. -/
def externalTimeline : Timeline := scenario.outcomes.foldl (startOutcome fl plan) {}

/-- The tokens that a batch gives to an invocation. -/
def tokensOf (b : ScheduledBatchQuantum) (id : String) : ℕ :=
  ((b.requests.filter (·.invocationId = id)).map (·.tokenDelta)).sum

def prefillTokens (batches : List ScheduledBatchQuantum) (id : String) : ℕ :=
  (batches.map fun b => if b.phase = .prefill then tokensOf b id else 0).sum

def decodeTokens (batches : List ScheduledBatchQuantum) (id : String) : ℕ :=
  (batches.map fun b => if b.phase = .prefill then 0 else tokensOf b id).sum

/-- The invocation has tokens to process. -/
def PhysicalizedInvocationDemand.Works (d : PhysicalizedInvocationDemand) : Prop :=
  d.uncachedPrefillTokens ≠ 0 ∨ d.remainingDecodeTokens ≠ 0

/-- No batch serves an invocation whose demand the earlier batches meet. -/
def ServedOnce : Prop :=
  ∀ pre b post, plan.batches = pre ++ b :: post → ∀ d ∈ plan.invocationDemands,
    d.uncachedPrefillTokens ≤ prefillTokens pre d.invocationId →
    d.remainingDecodeTokens ≤ decodeTokens pre d.invocationId → ∀ r ∈ b.requests, r.invocationId ≠ d.invocationId

/-- One change of the timeline, with what the evaluation has checked before it. -/
inductive Step : Timeline → Timeline → Prop
  | release {t : Timeline} {o : FrontierDemandOutcome} {offset : ℚ} (ho : o ∈ scenario.outcomes)
      (hnew : o.invocationId ∉ t.dependencyRelease) (hresolved : resolved t o = some offset) :
      Step t (t.release o.invocationId offset)
  | zero {t : Timeline} {d : PhysicalizedInvocationDemand} (hd : d ∈ plan.invocationDemands)
      (hnone : ¬ d.Works)
      (hreleased : t.Released scenario d.invocationId) :
      Step t (t.complete d.invocationId (max 0 (t.dependencyRelease[d.invocationId]?.getD 0))
        "zero_physical_demand")
  | transfer {t : Timeline} {x : ScheduledTransfer} {waits : List ℚ} (hx : x ∈ plan.transfers)
      (hnew : x.transferId ∉ t.transferCompletion) (hwaits : t.waits x = some waits) :
      Step t (t.transferred fl x waits)
  | execute {t : Timeline} {b : ScheduledBatchQuantum} {estimate : GPUServiceEstimate} (hb : b ∈ plan.batches)
      (hreleased : ∀ r ∈ b.requests, t.Released scenario r.invocationId)
      (htransfers : ∀ id ∈ b.readyAfterTransferIds, id ∈ t.transferCompletion)
      (hestimate : model (batchFeatures b) = some estimate) : Step t (t.executed fl scenario plan b estimate)
  | consume (t : Timeline) (phase : DemandPhase) (r : ScheduledRequestQuantum) : Step t (t.consume phase r)
  | meet {t : Timeline} {d : PhysicalizedInvocationDemand} {q : TimedServiceQuantum}
      (hd : d ∈ plan.invocationDemands) (hmet : t.Met d) (hq : q ∈ t.serviceQuanta)
      (hnow : q.completionOffsetMs = t.nowMs)
      (hfresh : ServedOnce plan → d.Works ∧ d.invocationId ∉ t.completion) :
      Step t (t.complete d.invocationId t.nowMs "candidate_gpu_schedule")
  | finish {t : Timeline} {o : FrontierDemandOutcome} {offset : ℚ} (ho : o ∈ scenario.outcomes)
      (hplain : plan.physical? o.invocationId = none) (hnew : o.invocationId ∉ t.completion) (hrelease : t.dependencyRelease[o.invocationId]? = some offset) :
      Step t (t.complete o.invocationId offset ("dependency:" ++ o.dependencyMode.value))
  | fail (t : Timeline) (texts : List String) : Step t (t.fail texts)

abbrev Steps : Timeline → Timeline → Prop := Relation.ReflTransGen (Step fl model scenario plan)

end Steps

section Runs
variable {fl : ℚ → ℚ} {model : GPUServiceModel} {scenario : DemandScenario} {plan : CandidatePhysicalPlan}

theorem physical?_eq_some {id : String} {d : PhysicalizedInvocationDemand} :
    plan.physical? id = some d ↔ d ∈ plan.invocationDemands ∧ d.invocationId = id :=
  find?_eq_some_iff plan.demands_unique

theorem transfer?_eq_some {id : String} {x : ScheduledTransfer} :
    plan.transfer? id = some x ↔ x ∈ plan.transfers ∧ x.transferId = id :=
  find?_eq_some_iff plan.transfers_unique

theorem batch?_eq_some {id : String} {b : ScheduledBatchQuantum} :
    plan.batch? id = some b ↔ b ∈ plan.batches ∧ b.batchId = id :=
  find?_eq_some_iff plan.batches_unique

theorem foldl_steps {A : Type} {f : Timeline → A → Timeline} {l : List A}
    (h : ∀ a ∈ l, ∀ t, Steps fl model scenario plan t (f t a)) : ∀ t, Steps fl model scenario plan t (l.foldl f t) := by
  induction l with
  | nil => exact fun _ => .refl
  | cons a l ih =>
    intro t
    have hfirst := h a List.mem_cons_self t
    exact hfirst.trans (ih (fun b hb => h b (List.mem_cons_of_mem a hb)) (f t a))

theorem resolveOutcome_steps {o : FrontierDemandOutcome} (ho : o ∈ scenario.outcomes) (t : Timeline) :
    Steps fl model scenario plan t (resolveOutcome t o) := by
  unfold resolveOutcome
  split_ifs with hknown
  · exact .refl
  · cases hresolved : resolved t o with
    | none => exact .refl
    | some offset => exact .single (.release ho hknown hresolved)

theorem completeZero_steps {d : PhysicalizedInvocationDemand} (hd : d ∈ plan.invocationDemands) (t : Timeline) :
    Steps fl model scenario plan t (completeZero scenario t d) := by
  unfold completeZero
  split_ifs with hwork hwaiting
  · exact .refl
  · exact .refl
  · refine .single (.zero hd hwork ?_)
    by_contra hreleased
    exact hwaiting (not_or.mp hreleased)

theorem settleRound_steps (t : Timeline) : Steps fl model scenario plan t (settleRound scenario plan t) :=
  (foldl_steps (fun _ ho t => resolveOutcome_steps ho t) t).trans
    (foldl_steps (fun _ hd t => completeZero_steps hd t) _)

theorem settle_steps (t : Timeline) :
    Steps fl model scenario plan t (settleDependencyReleases scenario plan t) := by
  unfold settleDependencyReleases
  induction scenario.outcomes.length + 2 with
  | zero => exact .refl
  | succ n ih =>
    rw [Function.iterate_succ_apply']
    exact ih.trans (settleRound_steps _)

theorem scheduleTransfer_steps (id : String) (t : Timeline) :
    Steps fl model scenario plan t (scheduleTransfer fl plan t id) := by
  unfold scheduleTransfer
  split_ifs with hknown
  · exact .refl
  · cases hx : plan.transfer? id with
    | none => exact .refl
    | some x =>
      obtain ⟨hmem,rfl⟩ := transfer?_eq_some.mp hx
      cases hwaits : t.waits x with
      | none =>
        simp only [hwaits]
        exact .refl
      | some waits =>
        simp only [hwaits]
        exact .single (.transfer hmem hknown hwaits)

/-- The invocations are as they were. -/
structure SameDemand (t u : Timeline) : Prop where
  completion : u.completion = t.completion
  releases : u.dependencyRelease = t.dependencyRelease
  prefill : u.consumedPrefill = t.consumedPrefill
  decode : u.consumedDecode = t.consumedDecode

theorem scheduleTransfer_demand (id : String) (t : Timeline) : SameDemand t (scheduleTransfer fl plan t id) := by
  unfold scheduleTransfer
  split_ifs
  · exact ⟨rfl,rfl,rfl,rfl⟩
  · cases plan.transfer? id with
    | none => exact ⟨rfl,rfl,rfl,rfl⟩
    | some x =>
      cases hwaits : t.waits x with
      | none =>
        simp only [hwaits]
        exact ⟨rfl,rfl,rfl,rfl⟩
      | some waits =>
        simp only [hwaits]
        exact ⟨rfl,rfl,rfl,rfl⟩

theorem scheduleTransfers_demand (ids : List String) : ∀ t : Timeline,
    SameDemand t (ids.foldl (scheduleTransfer fl plan) t) := by
  induction ids with
  | nil => exact fun _ => ⟨rfl,rfl,rfl,rfl⟩
  | cons id ids ih =>
    intro t
    have hfirst : SameDemand t (scheduleTransfer fl plan t id) := scheduleTransfer_demand id t
    have hrest := ih (scheduleTransfer fl plan t id)
    exact ⟨hrest.completion.trans hfirst.completion,hrest.releases.trans hfirst.releases,
      hrest.prefill.trans hfirst.prefill,hrest.decode.trans hfirst.decode⟩

theorem consume_frame (t : Timeline) (phase : DemandPhase) (r : ScheduledRequestQuantum) :
    ∃ prefill decode, t.consume phase r = { t with consumedPrefill := prefill, consumedDecode := decode } := by
  unfold Timeline.consume
  split_ifs
  · exact ⟨_,_,rfl⟩
  · exact ⟨_,_,rfl⟩

/-- A request that is to be completed at most once has no completion yet. -/
def Fresh (plan : CandidatePhysicalPlan) (requests : List ScheduledRequestQuantum) (t : Timeline) : Prop :=
  ServedOnce plan → ∀ r ∈ requests, ∀ d, plan.physical? r.invocationId = some d →
    d.Works ∧ r.invocationId ∉ t.completion

/-- What serving a request changes of the completions, and that the time stays. -/
theorem serveRequest_frame (plan : CandidatePhysicalPlan) (phase : DemandPhase) (t : Timeline) (r : ScheduledRequestQuantum) :
    (serveRequest plan phase t r).serviceQuanta = t.serviceQuanta ∧
      (serveRequest plan phase t r).nowMs = t.nowMs ∧
      ∀ id, id ≠ r.invocationId → (id ∈ (serveRequest plan phase t r).completion ↔ id ∈ t.completion) := by
  unfold serveRequest
  cases htarget : plan.physical? r.invocationId with
  | none => exact ⟨rfl,rfl,fun _ _ => Iff.rfl⟩
  | some d =>
    obtain ⟨prefill,decode,heq⟩ := consume_frame t phase r
    simp only [heq]
    split_ifs
    · refine ⟨rfl,rfl,fun id hne => ?_⟩
      unfold Timeline.complete
      rw [Dict.mem_insert_iff]
      exact or_iff_right hne
    · exact ⟨rfl,rfl,fun _ _ => Iff.rfl⟩

theorem serveRequest_steps {phase : DemandPhase} {t : Timeline} {r : ScheduledRequestQuantum}
    (hquantum : ∃ q ∈ t.serviceQuanta, q.completionOffsetMs = t.nowMs) (hfresh : Fresh plan [r] t) :
    Steps fl model scenario plan t (serveRequest plan phase t r) := by
  obtain ⟨q,hq,hnow⟩ := hquantum
  unfold serveRequest
  cases htarget : plan.physical? r.invocationId with
  | none => exact .single (.fail t _)
  | some d =>
    obtain ⟨hd,hid⟩ := physical?_eq_some.mp htarget
    have hconsume : Steps fl model scenario plan t (t.consume phase r) := .single (.consume t phase r)
    obtain ⟨prefill,decode,heq⟩ := consume_frame t phase r
    simp only
    split_ifs with hmet
    · rw [← hid]
      refine hconsume.tail (.meet hd hmet (q := q) ?_ ?_ ?_)
      · rw [heq]
        exact hq
      · rw [heq]
        exact hnow
      · intro honce
        rw [heq,hid]
        exact hfresh honce r (List.mem_singleton_self r) d htarget
    · exact hconsume

theorem serveRequests_steps {phase : DemandPhase} (requests : List ScheduledRequestQuantum) :
    ∀ {t : Timeline}, (requests.map (·.invocationId)).Nodup →
      (∃ q ∈ t.serviceQuanta, q.completionOffsetMs = t.nowMs) → Fresh plan requests t →
      Steps fl model scenario plan t (requests.foldl (serveRequest plan phase) t) := by
  induction requests with
  | nil => exact fun _ _ _ => .refl
  | cons r requests ih =>
    intro t hunique hquantum hfresh
    rw [List.map_cons,List.nodup_cons] at hunique
    obtain ⟨hquanta,hnow,hothers⟩ := serveRequest_frame plan phase t r
    have hfirst : Steps fl model scenario plan t (serveRequest plan phase t r) := by
      apply serveRequest_steps hquantum
      intro honce q hq d hphysical
      rw [List.mem_singleton.mp hq] at hphysical ⊢
      exact hfresh honce r List.mem_cons_self d hphysical
    apply hfirst.trans
    apply ih hunique.2
    · rw [hquanta,hnow]
      exact hquantum
    · intro honce q hq d hphysical
      have hne : q.invocationId ≠ r.invocationId := by
        intro heq
        exact hunique.1 (heq ▸ List.mem_map_of_mem hq)
      rw [hothers q.invocationId hne]
      exact hfresh honce q (List.mem_cons_of_mem r hq) d hphysical

theorem scheduleTransfer_quanta (id : String) (t : Timeline) :
    (scheduleTransfer fl plan t id).serviceQuanta = t.serviceQuanta := by
  unfold scheduleTransfer
  split_ifs
  · rfl
  · cases plan.transfer? id with
    | none => rfl
    | some x =>
      cases hwaits : t.waits x with
      | none =>
        simp only [hwaits]
      | some waits =>
        simp only [hwaits]
        rfl

theorem scheduleTransfers_quanta (ids : List String) : ∀ t : Timeline,
    (ids.foldl (scheduleTransfer fl plan) t).serviceQuanta = t.serviceQuanta := by
  induction ids with
  | nil => exact fun _ => rfl
  | cons id ids ih => exact fun t => (ih _).trans (scheduleTransfer_quanta id t)

/-- A batch is either passed over or executed with everything that it waits for. -/
theorem executeBatch_cases {b : ScheduledBatchQuantum} {t u : Timeline}
    (h : executeBatch fl model scenario plan t b = .ok u) : ∃ v, Steps fl model scenario plan t v ∧ SameDemand t v ∧
      v.serviceQuanta = t.serviceQuanta ∧ (u = v ∨ ∃ estimate,
        (∀ r ∈ b.requests, v.Released scenario r.invocationId) ∧
        (∀ id ∈ b.readyAfterTransferIds, id ∈ v.transferCompletion) ∧ model (batchFeatures b) = some estimate ∧
        u = b.requests.foldl (serveRequest plan b.phase) (v.executed fl scenario plan b estimate)) := by
  unfold executeBatch at h
  set unreleased := b.requests.filter fun r => ¬ t.Released scenario r.invocationId with hunreleased
  set failed := t.fail (unreleased.map fun r =>
    "dependency_not_released_before_batch:" ++ b.batchId ++ ":" ++ r.invocationId) with hfailed
  set scheduled := b.readyAfterTransferIds.foldl (scheduleTransfer fl plan) failed with hscheduled
  have hdemand : SameDemand failed scheduled := scheduleTransfers_demand _ failed
  have hquanta : scheduled.serviceQuanta = t.serviceQuanta := scheduleTransfers_quanta _ failed
  have hsame : SameDemand t scheduled := ⟨hdemand.completion,hdemand.releases,hdemand.prefill,hdemand.decode⟩
  have hsteps : Steps fl model scenario plan t scheduled :=
    .head (.fail t _) (foldl_steps (fun id _ t => scheduleTransfer_steps id t) failed)
  have hfailure : ∀ texts : List String, SameDemand t (scheduled.fail texts) :=
    fun _ => ⟨hsame.completion,hsame.releases,hsame.prefill,hsame.decode⟩
  by_cases hmissing : b.readyAfterTransferIds.filter (· ∉ scheduled.transferCompletion) ≠ []
  · rw [if_pos hmissing] at h
    cases h
    exact ⟨_,hsteps.tail (.fail _ _),hfailure _,hquanta,.inl rfl⟩
  rw [if_neg hmissing] at h
  by_cases hwaiting : unreleased ≠ []
  · rw [if_pos hwaiting] at h
    cases h
    exact ⟨_,hsteps,hsame,hquanta,.inl rfl⟩
  rw [if_neg hwaiting] at h
  obtain ⟨_,-,h⟩ := bind_eq_ok.mp h
  cases hestimate : model (batchFeatures b) with
  | none =>
    rw [hestimate] at h
    cases h
    exact ⟨_,hsteps.tail (.fail _ _),hfailure _,hquanta,.inl rfl⟩
  | some estimate =>
    rw [hestimate] at h
    cases h
    refine ⟨_,hsteps,hsame,hquanta,.inr ⟨estimate,fun r hr => ?_,fun id hid => ?_,rfl,rfl⟩⟩
    · unfold Timeline.Released
      rw [hdemand.releases]
      by_contra hnot
      exact hwaiting (List.ne_nil_of_mem (List.mem_filter.mpr ⟨hr,decide_eq_true hnot⟩))
    · by_contra hnot
      exact hmissing (List.ne_nil_of_mem (List.mem_filter.mpr ⟨hid,decide_eq_true hnot⟩))

theorem executeBatch_steps {b : ScheduledBatchQuantum} (hb : b ∈ plan.batches) {t u : Timeline}
    (hfresh : Fresh plan b.requests t) (h : executeBatch fl model scenario plan t b = .ok u) : Steps fl model scenario plan t u := by
  obtain ⟨v,hsteps,hdemand,-,rfl | ⟨estimate,hreleased,htransfers,hestimate,rfl⟩⟩ := executeBatch_cases h
  · exact hsteps
  · refine (hsteps.tail (.execute hb hreleased htransfers hestimate)).trans
      (serveRequests_steps b.requests b.requests_unique ?_ ?_)
    · exact ⟨_,List.mem_append_right _ (List.mem_singleton_self _),rfl⟩
    · intro honce r hr d hphysical
      have hnew := hfresh honce r hr d hphysical
      unfold Timeline.executed
      rw [hdemand.completion]
      exact hnew

theorem startTimeline_steps :
    Steps fl model scenario plan (externalTimeline fl scenario plan) (startTimeline fl scenario plan) :=
  (settle_steps _).trans (foldl_steps (fun x _ t => scheduleTransfer_steps x.transferId t) _)

theorem finishOutcome_steps {o : FrontierDemandOutcome} (ho : o ∈ scenario.outcomes) (t : Timeline) :
    Steps fl model scenario plan t (finishOutcome plan t o) := by
  unfold finishOutcome
  by_cases hdone : (plan.physical? o.invocationId).isSome ∨ o.invocationId ∈ t.completion
  · rw [if_pos hdone]
  rw [if_neg hdone]
  cases hrelease : t.dependencyRelease[o.invocationId]? with
  | none => exact .refl
  | some offset =>
    simp only
    split_ifs
    · exact .refl
    · exact .single (.finish ho (Option.not_isSome_iff_eq_none.mp (not_or.mp hdone).1) (not_or.mp hdone).2 hrelease)

/-! ## What no step takes back -/

/-- Releases and completions of transfers stay as they are, and quanta are only added. -/
structure Kept (t u : Timeline) : Prop where
  releases : ∀ {id : String} {offset : ℚ}, t.dependencyRelease[id]? = some offset →
    u.dependencyRelease[id]? = some offset
  transfers : ∀ {id : String} {offset : ℚ}, t.transferCompletion[id]? = some offset →
    u.transferCompletion[id]? = some offset
  quanta : t.serviceQuanta <+: u.serviceQuanta

theorem Kept.refl (t : Timeline) : Kept t t := ⟨id,id,List.prefix_rfl⟩

theorem Kept.of_eq {t u : Timeline} (hreleases : u.dependencyRelease = t.dependencyRelease)
    (htransfers : u.transferCompletion = t.transferCompletion) (hquanta : u.serviceQuanta = t.serviceQuanta) :
    Kept t u :=
  ⟨fun h => hreleases ▸ h,fun h => htransfers ▸ h,hquanta ▸ List.prefix_rfl⟩

/-- A new key leaves the other entries as they are. -/
theorem get_insert_of_new {d : Dict String ℚ} {key : String} {value : ℚ} (hnew : key ∉ d) {id : String}
    {offset : ℚ} (h : d[id]? = some offset) : (d.insert key value)[id]? = some offset := by
  rw [Dict.get_insert]
  split_ifs with heq
  · subst heq
    rw [(Dict.notMem_iff_get d key).mp hnew] at h
    cases h
  · exact h

theorem Step.kept {t u : Timeline} (h : Step fl model scenario plan t u) : Kept t u := by
  cases h with
  | release ho hnew hresolved =>
    exact ⟨get_insert_of_new hnew,id,List.prefix_rfl⟩
  | zero => exact .of_eq rfl rfl rfl
  | transfer hx hnew hwaits => exact ⟨id,get_insert_of_new hnew,List.prefix_rfl⟩
  | execute => exact ⟨id,id,List.prefix_append _ _⟩
  | consume phase r =>
    obtain ⟨_,_,heq⟩ := consume_frame t phase r
    rw [heq]
    exact .of_eq rfl rfl rfl
  | meet => exact .of_eq rfl rfl rfl
  | finish => exact .of_eq rfl rfl rfl
  | fail => exact .of_eq rfl rfl rfl

theorem Steps.kept {t u : Timeline} (h : Steps fl model scenario plan t u) : Kept t u := by
  induction h with
  | refl => exact .refl t
  | tail _ hlast ih =>
    have hkept := hlast.kept
    exact ⟨fun h => hkept.releases (ih.releases h),fun h => hkept.transfers (ih.transfers h),
      ih.quanta.trans hkept.quanta⟩

/-- What every step keeps holds after every run. -/
theorem Steps.invariant {P : Timeline → Prop} (hstep : ∀ {t u}, Step fl model scenario plan t u → P t → P u)
    {t u : Timeline} (h : Steps fl model scenario plan t u) (hstart : P t) : P u := by
  induction h with
  | refl => exact hstart
  | tail _ hlast ih => exact hstep hlast ih

end Runs
end BeliefKV.CandidateTimeline
