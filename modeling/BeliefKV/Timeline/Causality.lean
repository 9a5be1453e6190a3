import Mathlib.Data.List.Sort
import BeliefKV.Timeline.Ledger
import BeliefKV.Timeline.Served
import BeliefKV.Timeline.Settling

/-! The causality of a predicted timeline. -/
namespace BeliefKV.CandidateTimeline

section Joins
variable {fl : ℚ → ℚ} {model : GPUServiceModel} {scenario : DemandScenario} {plan : CandidatePhysicalPlan}

/-! ## Releases of joins -/

/-- An external segment that uses no GPU. -/
def Segment (scenario : DemandScenario) (plan : CandidatePhysicalPlan) (id : String) : Prop :=
  plan.physical? id = none ∧ modeOf scenario id = some .external

/-- An invocation with tokens to process. -/
def Working (plan : CandidatePhysicalPlan) (id : String) : Prop :=
  ∃ d ∈ plan.invocationDemands, d.invocationId = id ∧ d.Works

def FrontierDemandOutcome.Alternative (o : FrontierDemandOutcome) : Prop :=
  o.dependencyMode = .joinAny ∨ o.dependencyMode = .producer

/-- A release at the least completion of those of its dependencies that were known. -/
structure Least (scenario : DemandScenario) (plan : CandidatePhysicalPlan) (completionOf : String → Option ℚ)
    (o : FrontierDemandOutcome) (known : List String) (v : ℚ) : Prop where
  members : ∀ id ∈ known, id ∈ o.dependencyInvocationIds
  least : ∀ id ∈ known, ∃ c, completionOf id = some c ∧ v ≤ c
  attained : ∃ id ∈ known, completionOf id = some v
  segments : ∀ id ∈ o.dependencyInvocationIds, Segment scenario plan id → id ∈ known
  working : (∃ id ∈ known, Working plan id) → ∀ id ∈ o.dependencyInvocationIds, Working plan id →
    ∀ c, completionOf id = some c → v ≤ c

/-- A release at the last completion of its dependencies. -/
structure Last (completionOf : String → Option ℚ) (o : FrontierDemandOutcome) (v : ℚ) : Prop where
  last : ∀ id ∈ o.dependencyInvocationIds, ∃ c, completionOf id = some c ∧ c ≤ v
  attained : ∃ id ∈ o.dependencyInvocationIds, completionOf id = some v

/-- A release at the completion of a dependency, no later than that of any external segment; the least one if all
dependencies work. -/
structure Earliest (scenario : DemandScenario) (plan : CandidatePhysicalPlan) (completionOf : String → Option ℚ)
    (o : FrontierDemandOutcome) (v : ℚ) : Prop where
  attained : ∃ id ∈ o.dependencyInvocationIds, completionOf id = some v
  segments : ∀ id ∈ o.dependencyInvocationIds, Segment scenario plan id → ∃ c, completionOf id = some c ∧ v ≤ c
  working : (∀ id ∈ o.dependencyInvocationIds, Working plan id) → ∀ id ∈ o.dependencyInvocationIds, ∀ c,
    completionOf id = some c → v ≤ c

theorem Least.earliest {completionOf : String → Option ℚ} {o : FrontierDemandOutcome} {known : List String} {v : ℚ}
    (h : Least scenario plan completionOf o known v) : Earliest scenario plan completionOf o v := by
  obtain ⟨first,hfirst,hattained⟩ := h.attained
  have hmem := h.members first hfirst
  exact ⟨⟨first,hmem,hattained⟩,fun id hid hsegment => h.least id (h.segments id hid hsegment),
    fun hall id hid c hc => h.working ⟨first,hfirst,hall first hmem⟩ id hid (hall id hid) c hc⟩

theorem mem_known {t : Timeline} {ids : List String} {c : ℚ} :
    c ∈ ids.filterMap t.completionOf ↔ ∃ id ∈ ids, t.completionOf id = some c :=
  List.mem_filterMap

theorem resolved_joinAll {t : Timeline} {o : FrontierDemandOutcome} {v : ℚ} (hmode : o.dependencyMode = .joinAll)
    (h : resolved t o = some v) : Last t.completionOf o v := by
  unfold resolved at h
  rw [hmode] at h
  simp only at h
  split_ifs at h with hlength
  obtain ⟨hmem,hmax⟩ := List.max?_eq_some_iff.mp h
  refine ⟨fun id hid => ?_,mem_known.mp hmem⟩
  have hsome := List.filterMap_length_eq_length.mp hlength id hid
  obtain ⟨c,hc⟩ := Option.isSome_iff_exists.mp hsome
  exact ⟨c,hc,hmax c (mem_known.mpr ⟨id,hid,hc⟩)⟩

theorem resolved_alternative {t : Timeline} {o : FrontierDemandOutcome} {v : ℚ} (hmode : o.Alternative)
    (h : resolved t o = some v) : (∃ id ∈ o.dependencyInvocationIds, t.completionOf id = some v) ∧
      ∀ id ∈ o.dependencyInvocationIds, ∀ c, t.completionOf id = some c → v ≤ c := by
  have hmin : (o.dependencyInvocationIds.filterMap t.completionOf).min? = some v := by
    unfold resolved at h
    obtain hany | hproducer := hmode
    · rw [hany] at h
      exact h
    · rw [hproducer] at h
      exact h
  obtain ⟨hmem,hle⟩ := List.min?_eq_some_iff.mp hmin
  exact ⟨mem_known.mp hmem,fun id hid c hc => hle c (mem_known.mpr ⟨id,hid,hc⟩)⟩

/-- What is known of the releases of joins while the timeline grows. -/
structure Joined (scenario : DemandScenario) (plan : CandidatePhysicalPlan) (t : Timeline) : Prop where
  zero : ZeroDone scenario plan t
  segments : ∀ id, Segment scenario plan id → ∃ c, t.completionOf id = some c
  clock : ∀ id, Working plan id → ∀ c, t.completionOf id = some c → c ≤ t.nowMs
  all : ∀ o ∈ scenario.outcomes, o.dependencyMode = .joinAll → ∀ v,
    t.dependencyRelease[o.invocationId]? = some v → Last t.completionOf o v
  any : ∀ o ∈ scenario.outcomes, o.Alternative → ∀ v, t.dependencyRelease[o.invocationId]? = some v →
    ∃ known, Least scenario plan t.completionOf o known v ∧ ((∃ id ∈ known, Working plan id) → v ≤ t.nowMs)

/-- A step adds at most one release, from what is completed. -/
theorem Step.release_cases {t u : Timeline} (h : Step fl model scenario plan t u) :
    u.dependencyRelease = t.dependencyRelease ∨ ∃ o ∈ scenario.outcomes, ∃ v, resolved t o = some v ∧
      u = t.release o.invocationId v := by
  cases h with
  | @release o offset ho hnew hresolved => exact .inr ⟨o,ho,offset,hresolved,rfl⟩
  | zero => exact .inl rfl
  | transfer => exact .inl rfl
  | execute => exact .inl rfl
  | consume phase r =>
    obtain ⟨_,_,heq⟩ := consume_frame t phase r
    rw [heq]
    exact .inl rfl
  | meet => exact .inl rfl
  | finish => exact .inl rfl
  | fail => exact .inl rfl

theorem Step.now_le (hfl : Rounding fl) (hplan : plan.Representable fl) {t u : Timeline}
    (h : Step fl model scenario plan t u) (ht : t.Representable fl) : t.nowMs ≤ u.nowMs := by
  obtain ⟨-,hnow⟩ | ⟨b,hb,estimate,hreleased,htransfers,rfl⟩ := h.quanta_cases
  · exact hnow.ge
  · obtain ⟨hlater,hcaused⟩ := executed_caused hfl hplan ht hb estimate hreleased htransfers
    exact hlater.trans hcaused.ordered

/-- An invocation that works is completed at the clock. -/
theorem Step.working {t u : Timeline} (h : Step fl model scenario plan t u) {id : String} (hworking : Working plan id)
    {c : ℚ} (hget : u.completionOf id = some c) : t.completionOf id = some c ∨ (c = t.nowMs ∧ u.nowMs = t.nowMs) := by
  obtain ⟨d,hd,hid,hworks⟩ := hworking
  cases h with
  | release => exact .inl hget
  | @zero e he hnone hreleased =>
    rw [completionOf_complete] at hget
    split_ifs at hget with heq
    · rw [demand_unique hd he (hid.trans heq.symm)] at hworks
      exact absurd hworks hnone
    · exact .inl hget
  | transfer => exact .inl hget
  | execute => exact .inl hget
  | consume phase r =>
    obtain ⟨_,_,heq⟩ := consume_frame t phase r
    rw [heq] at hget
    exact .inl hget
  | @meet e q he hmet hq hnow hfresh =>
    rw [completionOf_complete] at hget
    split_ifs at hget with heq
    · cases hget
      exact .inr ⟨rfl,rfl⟩
    · exact .inl hget
  | @finish o offset ho hplain hnew =>
    rw [completionOf_complete] at hget
    split_ifs at hget with heq
    · rw [heq,← hid,physical?_eq_some.mpr ⟨hd,rfl⟩] at hplain
      cases hplain
    · exact .inl hget
  | fail => exact .inl hget

theorem Last.kept {t u : Timeline} {o : FrontierDemandOutcome} {v : ℚ} (h : Last t.completionOf o v)
    (hkept : ∀ {id : String} {c : ℚ}, t.completionOf id = some c → u.completionOf id = some c) :
    Last u.completionOf o v := by
  refine ⟨fun id hid => ?_,?_⟩
  · obtain ⟨c,hc,hle⟩ := h.last id hid
    exact ⟨c,hkept hc,hle⟩
  · obtain ⟨id,hid,hget⟩ := h.attained
    exact ⟨id,hid,hkept hget⟩

/-- What works and completes later completes at the clock, and so not before the release. -/
theorem Least.kept {t u : Timeline} {o : FrontierDemandOutcome} {known : List String} {v : ℚ}
    (h : Least scenario plan t.completionOf o known v)
    (hkept : ∀ {id : String} {c : ℚ}, t.completionOf id = some c → u.completionOf id = some c)
    (hlater : ∀ {id : String}, Working plan id → ∀ {c : ℚ}, u.completionOf id = some c →
      t.completionOf id = some c ∨ c = t.nowMs)
    (hbefore : (∃ id ∈ known, Working plan id) → v ≤ t.nowMs) : Least scenario plan u.completionOf o known v := by
  refine ⟨h.members,fun id hid => ?_,?_,h.segments,fun hworks id hid hworking c hc => ?_⟩
  · obtain ⟨c,hc,hle⟩ := h.least id hid
    exact ⟨c,hkept hc,hle⟩
  · obtain ⟨id,hid,hc⟩ := h.attained
    exact ⟨id,hid,hkept hc⟩
  · obtain hold | rfl := hlater hworking hc
    · exact h.working hworks id hid hworking c hold
    · exact hbefore hworks

/-- A new release is the least of the completions that are known. -/
theorem Joined.resolved_least {t : Timeline} (h : Joined scenario plan t) {o : FrontierDemandOutcome} {v : ℚ}
    (hmode : o.Alternative) (hresolved : resolved t o = some v) :
    ∃ known, Least scenario plan t.completionOf o known v ∧ ((∃ id ∈ known, Working plan id) → v ≤ t.nowMs) := by
  obtain ⟨⟨first,hfirst,hattained⟩,hmin⟩ := resolved_alternative hmode hresolved
  have hknown : ∀ id, id ∈ o.dependencyInvocationIds.filter (fun id => (t.completionOf id).isSome) ↔
      id ∈ o.dependencyInvocationIds ∧ ∃ c, t.completionOf id = some c := by
    intro id
    rw [List.mem_filter,Option.isSome_iff_exists]
  refine ⟨o.dependencyInvocationIds.filter fun id => (t.completionOf id).isSome,
    ⟨fun id hid => ((hknown id).mp hid).1,fun id hid => ?_,⟨first,(hknown first).mpr ⟨hfirst,v,hattained⟩,hattained⟩,
      fun id hid hsegment => (hknown id).mpr ⟨hid,h.segments id hsegment⟩,fun _ id hid _ c hc => hmin id hid c hc⟩,?_⟩
  · obtain ⟨hmem,c,hc⟩ := (hknown id).mp hid
    exact ⟨c,hc,hmin id hmem c hc⟩
  · rintro ⟨id,hid,hworking⟩
    obtain ⟨hmem,c,hc⟩ := (hknown id).mp hid
    exact (hmin id hmem c hc).trans (h.clock id hworking c hc)

theorem Step.joined (hfl : Rounding fl) (hplan : plan.Representable fl) (honce : ServedOnce plan) {t u : Timeline}
    (h : Step fl model scenario plan t u) (ht : t.Representable fl) (hjoined : Joined scenario plan t) : Joined scenario plan u := by
  have hkept : ∀ {id : String} {c : ℚ}, t.completionOf id = some c → u.completionOf id = some c :=
    fun hget => h.completions honce hjoined.zero hget
  have hnow := h.now_le hfl hplan ht
  have hsegments : ∀ id, Segment scenario plan id → ∃ c, u.completionOf id = some c := by
    intro id hsegment
    obtain ⟨c,hc⟩ := hjoined.segments id hsegment
    exact ⟨c,hkept hc⟩
  have hclock : ∀ id, Working plan id → ∀ c, u.completionOf id = some c → c ≤ u.nowMs := by
    intro id hworking c hget
    obtain hold | ⟨rfl,-⟩ := h.working hworking hget
    · exact (hjoined.clock id hworking c hold).trans hnow
    · exact hnow
  have hreleased : ∀ o ∈ scenario.outcomes, ∀ v, u.dependencyRelease[o.invocationId]? = some v →
      t.dependencyRelease[o.invocationId]? = some v ∨
        (resolved t o = some v ∧ u.completionOf = t.completionOf ∧ u.nowMs = t.nowMs) := by
    intro o ho v hget
    obtain heq | ⟨p,hp,w,hresolved,rfl⟩ := h.release_cases
    · rw [heq] at hget
      exact .inl hget
    · change (t.dependencyRelease.insert p.invocationId w)[o.invocationId]? = some v at hget
      rw [Dict.get_insert] at hget
      split_ifs at hget with hid
      · cases hget
        rw [List.inj_on_of_nodup_map scenario.outcomes_unique hp ho hid] at hresolved
        exact .inr ⟨hresolved,rfl,rfl⟩
      · exact .inl hget
  refine ⟨h.zeroDone honce hjoined.zero,hsegments,hclock,fun o ho hmode v hget => ?_,fun o ho hmode v hget => ?_⟩
  · obtain hold | ⟨hresolved,hsame,-⟩ := hreleased o ho v hget
    · exact (hjoined.all o ho hmode v hold).kept hkept
    · rw [hsame]
      exact resolved_joinAll hmode hresolved
  · obtain hold | ⟨hresolved,hsame,htime⟩ := hreleased o ho v hget
    · obtain ⟨known,hleast,hbefore⟩ := hjoined.any o ho hmode v hold
      exact ⟨known,hleast.kept hkept (fun hworking _ hc => (h.working hworking hc).imp_right And.left) hbefore,
        fun hworks => (hbefore hworks).trans hnow⟩
    · rw [hsame,htime]
      exact hjoined.resolved_least hmode hresolved

theorem startOutcome_completions {t : Timeline} {o : FrontierDemandOutcome} {id : String}
    (h : ∃ c, t.completionOf id = some c) : ∃ c, (startOutcome fl plan t o).completionOf id = some c := by
  unfold startOutcome
  split_ifs
  · obtain ⟨c,hc⟩ := h
    simp only
    rw [completionOf_complete]
    split_ifs
    · exact ⟨_,rfl⟩
    · exact ⟨c,hc⟩
  · exact h
  · exact h

theorem startOutcome_segment {t : Timeline} {o : FrontierDemandOutcome} (hmode : o.dependencyMode = .external)
    (hplain : plan.physical? o.invocationId = none) :
    ∃ c, (startOutcome fl plan t o).completionOf o.invocationId = some c := by
  unfold startOutcome
  rw [if_pos ⟨o.delayed hmode,hmode⟩]
  simp only
  rw [hplain]
  exact ⟨_,(completionOf_complete _ _ _ _ _).trans (if_pos rfl)⟩

/-- The external segments are known from the start. -/
theorem externalTimeline_segments (id : String) (h : Segment scenario plan id) :
    ∃ c, (externalTimeline fl scenario plan).completionOf id = some c := by
  obtain ⟨hplain,hexternal⟩ := h
  obtain ⟨o,ho,rfl,hmode⟩ := modeOf_eq_some.mp hexternal
  have hfold : ∀ (l : List FrontierDemandOutcome) (t : Timeline),
      (o ∈ l ∨ ∃ c, t.completionOf o.invocationId = some c) →
      ∃ c, (l.foldl (startOutcome fl plan) t).completionOf o.invocationId = some c := by
    intro l
    induction l with
    | nil => exact fun t h => h.resolve_left List.not_mem_nil
    | cons p l ih =>
      intro t h
      apply ih
      obtain hmem | hknown := h
      · obtain rfl | hmem := List.mem_cons.mp hmem
        · exact .inr (startOutcome_segment hmode hplain)
        · exact .inl hmem
      · exact .inr (startOutcome_completions hknown)
  exact hfold scenario.outcomes {} (.inl ho)

theorem externalTimeline_joined : Joined scenario plan (externalTimeline fl scenario plan) := by
  have hexternal : External fl scenario plan (externalTimeline fl scenario plan) := externalTimeline_external
  have hmode : ∀ o ∈ scenario.outcomes, ∀ v,
      (externalTimeline fl scenario plan).dependencyRelease[o.invocationId]? = some v → o.dependencyMode = .external := by
    intro o ho v hget
    obtain ⟨p,hp,hid,hmode,-⟩ := hexternal.releases hget
    rw [← List.inj_on_of_nodup_map scenario.outcomes_unique hp ho hid]
    exact hmode
  refine ⟨hexternal.zeroDone,externalTimeline_segments,?_,fun o ho hall v hget => ?_,fun o ho hany v hget => ?_⟩
  · rintro id ⟨d,hd,rfl,-⟩ c hget
    obtain ⟨a,ha,-⟩ := completionOf_eq_some.mp hget
    have hplain := (hexternal.completions ha).1
    rw [physical?_eq_some.mpr ⟨hd,rfl⟩] at hplain
    cases hplain
  · rw [hmode o ho v hget] at hall
    cases hall
  · unfold FrontierDemandOutcome.Alternative at hany
    rw [hmode o ho v hget] at hany
    obtain h | h := hany
    · cases h
    · cases h

/-! ## The link -/

/-- The transfers have the link one after another, each from its start on. -/
structure OnLink (fl : ℚ → ℚ) (plan : CandidatePhysicalPlan) (completions : Dict String ℚ) (start : String → ℚ) :
    Prop where
  spans : ∀ x ∈ plan.transfers, ∀ c, completions[x.transferId]? = some c → x.startOffsetMs ≤ start x.transferId ∧
    start x.transferId ≤ c ∧ c = fl (start x.transferId + x.durationMs fl)
  apart : ∀ x ∈ plan.transfers, ∀ y ∈ plan.transfers, x ≠ y → ∀ c e, completions[x.transferId]? = some c →
    completions[y.transferId]? = some e → c ≤ start y.transferId ∨ e ≤ start x.transferId

/-- The cursor is behind the last transfer. -/
structure Linked (fl : ℚ → ℚ) (plan : CandidatePhysicalPlan) (t : Timeline) : Prop where
  cursor : ∀ x ∈ plan.transfers, ∀ c, t.transferCompletion[x.transferId]? = some c → c ≤ t.pcieCursorMs
  scheduled : ∃ start, OnLink fl plan t.transferCompletion start

theorem Step.linked (hfl : Rounding fl) (hplan : plan.Representable fl) {t u : Timeline}
    (h : Step fl model scenario plan t u) (ht : t.Representable fl) (hlinked : Linked fl plan t) :
    Linked fl plan u := by
  obtain ⟨start,hstart⟩ := hlinked.scheduled
  obtain ⟨htransfers,hcursor⟩ | ⟨z,hz,waits,hwaits,hnew,rfl⟩ := h.transfer_cases
  · refine ⟨fun x hx c hc => ?_,start,?_⟩
    · rw [hcursor]
      exact hlinked.cursor x hx c (htransfers ▸ hc)
    · rw [htransfers]
      exact hstart
  · obtain ⟨hbehind,hown,-⟩ := transferStart_le t z waits
    set first := t.transferStart z waits with hfirst
    have hend : first ≤ fl (first + z.durationMs fl) :=
      hfl.le_add (fl_transferStart hplan ht hz hwaits) (durationMs_nonneg hfl z)
    have hcases : ∀ x ∈ plan.transfers, ∀ c, (t.transferred fl z waits).transferCompletion[x.transferId]? = some c →
        (x = z ∧ c = fl (first + z.durationMs fl)) ∨
          (x.transferId ≠ z.transferId ∧ t.transferCompletion[x.transferId]? = some c) := by
      intro x hx c hc
      change (t.transferCompletion.insert z.transferId (fl (first + z.durationMs fl)))[x.transferId]? = some c at hc
      rw [Dict.get_insert] at hc
      split_ifs at hc with hid
      · cases hc
        exact .inl ⟨List.inj_on_of_nodup_map plan.transfers_unique hx hz hid.symm,rfl⟩
      · exact .inr ⟨Ne.symm hid,hc⟩
    -- The new transfer starts behind the cursor, and so behind all others.
    refine ⟨fun x hx c hc => ?_,Function.update start z.transferId first,fun x hx c hc => ?_,
      fun x hx y hy hne c e hc he => ?_⟩
    · change c ≤ fl (first + z.durationMs fl)
      obtain ⟨-,rfl⟩ | ⟨-,hold⟩ := hcases x hx c hc
      · exact le_rfl
      · exact ((hlinked.cursor x hx c hold).trans hbehind).trans hend
    · obtain ⟨rfl,rfl⟩ | ⟨hother,hold⟩ := hcases x hx c hc
      · rw [Function.update_self]
        exact ⟨hown,hend,rfl⟩
      · rw [Function.update_of_ne hother]
        exact hstart.spans x hx c hold
    · obtain ⟨rfl,rfl⟩ | ⟨hother,hold⟩ := hcases x hx c hc
      · obtain ⟨rfl,-⟩ | ⟨-,hold⟩ := hcases y hy e he
        · exact absurd rfl hne
        · rw [Function.update_self]
          exact .inr ((hlinked.cursor y hy e hold).trans hbehind)
      · obtain ⟨rfl,rfl⟩ | ⟨hother',hold'⟩ := hcases y hy e he
        · rw [Function.update_self]
          exact .inl ((hlinked.cursor x hx c hold).trans hbehind)
        · rw [Function.update_of_ne hother,Function.update_of_ne hother']
          exact hstart.apart x hx y hy hne c e hold hold'

theorem External.linked {t : Timeline} (h : External fl scenario plan t) : Linked fl plan t := by
  have hnone : ∀ x : ScheduledTransfer, ∀ c, t.transferCompletion[x.transferId]? ≠ some c := by
    intro x c hc
    rw [h.transfers,Std.ExtTreeMap.getElem?_empty] at hc
    cases hc
  exact ⟨fun x _ c hc => absurd hc (hnone x c),fun _ => 0,fun x _ c hc => absurd hc (hnone x c),
    fun x _ _ _ _ c _ hc => absurd hc (hnone x c)⟩

end Joins

/-! ## Reports -/

/-- What a report says of the causes of its times. -/
structure Causal (fl : ℚ → ℚ) (scenario : DemandScenario) (plan : CandidatePhysicalPlan) (r : TimedScenario) : Prop where
  order : (r.serviceQuanta.map (·.batchId)).Sublist (plan.batches.map (·.batchId))
  serial : r.serviceQuanta.Pairwise fun p q => p.completionOffsetMs ≤ q.startOffsetMs
  link : ∃ start, OnLink fl plan r.transferCompletionOffsetsMs start
  batches : ∀ q ∈ r.serviceQuanta, ∃ b ∈ plan.batches, b.batchId = q.batchId ∧
    q.startOffsetMs ≤ q.completionOffsetMs ∧
    (∀ id ∈ b.readyAfterTransferIds, ∃ c, r.transferCompletionOffsetsMs[id]? = some c ∧ c ≤ q.startOffsetMs) ∧
    ∀ s ∈ b.requests, modeOf scenario s.invocationId = some .none ∨
      ∃ v, r.dependencyReleaseOffsetsMs[s.invocationId]? = some v ∧ v ≤ q.startOffsetMs
  last : ServedOnce plan → ∀ o ∈ scenario.outcomes, o.dependencyMode = .joinAll → ∀ v,
    r.dependencyReleaseOffsetsMs[o.invocationId]? = some v → Last r.completionOf o v
  earliest : ServedOnce plan → ∀ o ∈ scenario.outcomes, o.Alternative → ∀ v,
    r.dependencyReleaseOffsetsMs[o.invocationId]? = some v → Earliest scenario plan r.completionOf o v
  working : ServedOnce plan → ∀ d ∈ plan.invocationDemands, d.Works → ∀ c,
    r.completionOf d.invocationId = some c ↔ FirstMet plan r.serviceQuanta d c
  idle : ServedOnce plan → ∀ d ∈ plan.invocationDemands, ¬ d.Works → ∀ c,
    r.completionOf d.invocationId = some c → c = max 0 (r.dependencyReleaseOffsetsMs[d.invocationId]?.getD 0)

section Reports
variable {fl : ℚ → ℚ} {model : GPUServiceModel} {scenario : DemandScenario} {plan : CandidatePhysicalPlan}

theorem evaluate_causal (hfl : Rounding fl) (hplan : plan.Representable fl) {r : TimedScenario}
    (h : evaluate fl model scenario plan = .ok r) : Causal fl scenario plan r := by
  obtain ⟨t,ht,rfl,hcompletion⟩ := evaluate_spec h
  have hreported : (report fl scenario plan t).completionOf = t.completionOf := funext hcompletion
  have hserial : Serial scenario plan t :=
    finalTimeline_keeps hfl (fun hstep => hstep.serial hfl hplan) (fun _ h => h.serial) ht
  have hlinked : Linked fl plan t :=
    finalTimeline_keeps hfl (fun hstep => hstep.linked hfl hplan) (fun _ h => h.linked) ht
  have hran : Ran plan plan.batches t := finalTimeline_ran ht
  have hjoined : ServedOnce plan → Joined scenario plan t := by
    intro honce
    have hsteps : Steps fl model scenario plan (externalTimeline fl scenario plan) t :=
      startTimeline_steps.trans (finalTimeline_steps ht)
    exact hsteps.keeps hfl (fun hstep ht => hstep.joined hfl hplan honce ht)
      (externalTimeline_external.representable hfl) externalTimeline_joined
  refine ⟨?_,hserial.ordered,hlinked.scheduled,fun q hq => ?_,fun honce o ho hmode v hget => ?_,
    fun honce o ho hmode v hget => ?_,fun honce d hd hworks c => ?_,fun honce d hd hidle c hget => ?_⟩
  · change (t.serviceQuanta.map (·.batchId)).Sublist _
    rw [hran.named]
    exact hran.order.map _
  · obtain ⟨b,hcaused⟩ := hserial.caused q hq
    exact ⟨b,hcaused.known,hcaused.named,hcaused.ordered,hcaused.transfers,hcaused.releases⟩
  · rw [hreported]
    exact (hjoined honce).all o ho hmode v hget
  · rw [hreported]
    obtain ⟨known,hleast,-⟩ := (hjoined honce).any o ho hmode v hget
    exact hleast.earliest
  · rw [hreported]
    exact hran.completed honce d hd hworks c
  · rw [hreported] at hget
    obtain ⟨a,ha,rfl⟩ := completionOf_eq_some.mp hget
    exact ((hjoined honce).zero d hd hidle a ha).2

/-- The times of a report. -/
def TimedScenario.times (r : TimedScenario) :
    List TimedInvocationOutcome × List TimedServiceQuantum × Dict String ℚ × Dict String ℚ :=
  (r.invocationOutcomes,r.serviceQuanta,r.transferCompletionOffsetsMs,r.dependencyReleaseOffsetsMs)

theorem report_perm {other : DemandScenario} (hperm : scenario.outcomes.Perm other.outcomes) (t : Timeline) :
    (report fl scenario plan t).times = (report fl other plan t).times := by
  have hsorted : (scenario.outcomes.map (·.invocationId)).mergeSort =
      (other.outcomes.map (·.invocationId)).mergeSort := by
    apply List.Perm.eq_of_sortedLE List.sortedLE_mergeSort List.sortedLE_mergeSort
    exact (List.mergeSort_perm _ _).trans ((hperm.map _).trans (List.mergeSort_perm _ _).symm)
  unfold TimedScenario.times report
  rw [hsorted]

theorem evaluate_perm {other : DemandScenario} (hperm : scenario.outcomes.Perm other.outcomes) :
    (evaluate fl model scenario plan).map TimedScenario.times = (evaluate fl model other plan).map TimedScenario.times := by
  unfold evaluate
  rw [finalTimeline_perm hperm]
  cases finalTimeline fl model other plan with
  | error e => rfl
  | ok t => exact congrArg Except.ok (report_perm hperm t)

end Reports

/-- The releases settle, every report keeps to the causes of its times, and the order in which the scenario lists
its outcomes does not matter. -/
theorem timeline_causal (fl : ℚ → ℚ) (hfl : Rounding fl) (model : GPUServiceModel) (scenario : DemandScenario)
    (plan : CandidatePhysicalPlan) (hplan : plan.Representable fl) :
    (∀ t, resolveDependencyReleases scenario (resolveDependencyReleases scenario t) =
        resolveDependencyReleases scenario t ∧
      settleRound scenario plan (settleDependencyReleases scenario plan t) =
        settleDependencyReleases scenario plan t) ∧
      (∀ r, evaluate fl model scenario plan = .ok r → Causal fl scenario plan r) ∧
      ∀ other : DemandScenario, scenario.outcomes.Perm other.outcomes →
        (evaluate fl model scenario plan).map TimedScenario.times =
          (evaluate fl model other plan).map TimedScenario.times :=
  ⟨fun t => ⟨resolve_again t,settle_settled t⟩,fun _ h => evaluate_causal hfl hplan h,fun _ hperm => evaluate_perm hperm⟩

/-! ## A race between a tool and the GPU -/

/-- An invocation that waits for the GPU and a tool. -/
def afterOutcome (mode : DependencyMode) (h : mode ≠ .external) : FrontierDemandOutcome where
  invocationId := "after"
  dependencyMode := mode
  residualDelaysMs := []
  dependencyInvocationIds := ["forward","tool"]
  joinId := none
  named := by decide
  delays_nonneg := undelayed
  dependencies_sorted := by decide
  dependencies_peers := by decide
  members := by simp
  delayed := fun heq => absurd heq h

def raceScenario (mode : DependencyMode) (h : mode ≠ .external) : DemandScenario where
  scenarioId := "scenario"
  outcomes := [afterOutcome mode h,gpuOutcome,toolOutcome]
  assigned := List.cons_ne_nil _ _
  outcomes_unique := by
    change ["after","forward","tool"].Nodup
    decide

/-- A plan for the GPU without transfers. -/
def gpuPlan (tokens : ℕ) (batches : List ScheduledBatchQuantum) (h : (batches.map (·.batchId)).Nodup)
    (hfree : ∀ b ∈ batches, b.readyAfterTransferIds = []) : CandidatePhysicalPlan where
  packageId := "package"
  physicalSnapshotId := "snapshot"
  invocationDemands := [{ invocationId := "forward", uncachedPrefillTokens := 0, remainingDecodeTokens := tokens, named := forward_named }]
  batches := batches
  transfers := []
  demands_unique := List.nodup_singleton _
  batches_unique := h
  transfers_unique := List.nodup_nil
  ledger := by simp
  committed_le := by simp
  growth_le := ungrown
  transfers_known := fun b hb id hid => by simp [hfree b hb] at hid

def onePlan : CandidatePhysicalPlan :=
  gpuPlan 1 [gpuBatch "forward-1" forward_1_named []] (List.nodup_singleton _) (by decide)

def twoPlan : CandidatePhysicalPlan :=
  gpuPlan 1 [gpuBatch "forward-1" forward_1_named [],gpuBatch "forward-2" (by decide) []] (by decide) (by decide)

def idlePlan : CandidatePhysicalPlan := gpuPlan 0 [] List.nodup_nil (by decide)

theorem restorePlan_once : ServedOnce restorePlan := by
  intro pre b post hsplit d hd hprefill hdecode
  obtain rfl := List.mem_singleton.mp hd
  have hpre : pre = [] := by
    have hlength := congrArg List.length hsplit
    rw [List.length_append,List.length_cons] at hlength
    apply List.eq_nil_of_length_eq_zero
    change 1 = _ at hlength
    omega
  rw [hpre] at hdecode
  exact absurd hdecode (by decide)

/-- The copies have the link one after another, and the join of the tool and the GPU is released by the later one. -/
theorem race_caused : ∃ r, evaluate id evenService (raceScenario .joinAll nofun) restorePlan = .ok r ∧
    Causal id (raceScenario .joinAll nofun) restorePlan r ∧ ServedOnce restorePlan ∧
    r.transferCompletionOffsetsMs["evict"]? = some 4 ∧ r.dependencyReleaseOffsetsMs["tool"]? = some 5 ∧
    r.dependencyReleaseOffsetsMs["after"]? = some 11 := by
  have hends : ends (fun t => t.transferCompletion["evict"]? = some 4 ∧ t.dependencyRelease["tool"]? = some 5 ∧
      t.dependencyRelease["after"]? = some 11)
      (finalTimeline id evenService (raceScenario .joinAll nofun) restorePlan) = true := by decide +kernel
  obtain ⟨t,hreport,-,hevict,htool,hafter⟩ := ends_reports hends
  obtain ⟨-,hcausal,-⟩ := timeline_causal id rounding_id evenService (raceScenario .joinAll nofun) restorePlan
    ⟨fun _ _ => rfl,fun _ _ => rfl⟩
  exact ⟨_,hreport,hcausal _ hreport,restorePlan_once,hevict,htool,hafter⟩

/-- The tool, which is known first, releases the alternatives though the GPU is done before it. An invocation without
tokens completes without a batch, and one that is served again completes again. -/
theorem tool_known_first :
    (∃ r, evaluate id evenService (raceScenario .joinAny nofun) onePlan = .ok r ∧
      r.dependencyReleaseOffsetsMs["after"]? = some 5 ∧ r.completionOf "forward" = some 4) ∧
    (∃ r, evaluate id evenService (raceScenario .joinAll nofun) idlePlan = .ok r ∧
      r.serviceQuanta = [] ∧ r.completionOf "forward" = some 0) ∧
    ∃ r, evaluate id evenService (raceScenario .joinAll nofun) twoPlan = .ok r ∧
      r.dependencyReleaseOffsetsMs["after"]? = some 5 ∧ r.completionOf "forward" = some 8 := by
  have hfirst : ends (fun t => t.dependencyRelease["after"]? = some 5 ∧ t.completionOf "forward" = some 4)
      (finalTimeline id evenService (raceScenario .joinAny nofun) onePlan) = true := by decide +kernel
  have hidle : ends (fun t => t.serviceQuanta = [] ∧ t.completionOf "forward" = some 0)
      (finalTimeline id evenService (raceScenario .joinAll nofun) idlePlan) = true := by decide +kernel
  have hagain : ends (fun t => t.dependencyRelease["after"]? = some 5 ∧ t.completionOf "forward" = some 8)
      (finalTimeline id evenService (raceScenario .joinAll nofun) twoPlan) = true := by decide +kernel
  refine ⟨?_,?_,?_⟩
  · obtain ⟨t,hreport,hreported,hrelease,hgpu⟩ := ends_reports hfirst
    exact ⟨_,hreport,hrelease,by rw [hreported]; exact hgpu⟩
  · obtain ⟨t,hreport,hreported,hquanta,hgpu⟩ := ends_reports hidle
    exact ⟨_,hreport,hquanta,by rw [hreported]; exact hgpu⟩
  · obtain ⟨t,hreport,hreported,hrelease,hgpu⟩ := ends_reports hagain
    exact ⟨_,hreport,hrelease,by rw [hreported]; exact hgpu⟩

end BeliefKV.CandidateTimeline
