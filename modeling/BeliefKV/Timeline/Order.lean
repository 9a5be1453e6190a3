import BeliefKV.Timeline.Runs

/-! What comes before what on the timeline. -/
namespace BeliefKV.CandidateTimeline

section Order
variable {fl : ℚ → ℚ} {model : GPUServiceModel} {scenario : DemandScenario} {plan : CandidatePhysicalPlan}

/-! ## Completions that stay -/

/-- An invocation without tokens to process is completed with its release. -/
def ZeroDone (scenario : DemandScenario) (plan : CandidatePhysicalPlan) (t : Timeline) : Prop :=
  ∀ d ∈ plan.invocationDemands, ¬ d.Works → ∀ c, t.completion[d.invocationId]? = some c →
    t.Released scenario d.invocationId ∧ c.offsetMs = max 0 (t.dependencyRelease[d.invocationId]?.getD 0)

theorem modeOf_eq_some {id : String} {mode : DependencyMode} :
    modeOf scenario id = some mode ↔ ∃ o ∈ scenario.outcomes, o.invocationId = id ∧ o.dependencyMode = mode := by
  unfold modeOf
  rw [Option.map_eq_some_iff]
  constructor
  · rintro ⟨o,hfind,hmode⟩
    obtain ⟨ho,hid⟩ := (find?_eq_some_iff scenario.outcomes_unique).mp hfind
    exact ⟨o,ho,hid,hmode⟩
  · rintro ⟨o,ho,hid,hmode⟩
    exact ⟨o,(find?_eq_some_iff scenario.outcomes_unique).mpr ⟨ho,hid⟩,hmode⟩

/-- The released outcome depends on other invocations. -/
theorem resolved_mode {t : Timeline} {o : FrontierDemandOutcome} {offset : ℚ} (h : resolved t o = some offset) :
    o.dependencyMode ≠ .none ∧ o.dependencyMode ≠ .external := by
  unfold resolved at h
  cases hmode : o.dependencyMode with
  | none =>
    rw [hmode] at h
    cases h
  | external =>
    rw [hmode] at h
    cases h
  | joinAll => exact ⟨nofun,nofun⟩
  | joinAny => exact ⟨nofun,nofun⟩
  | producer => exact ⟨nofun,nofun⟩

theorem Timeline.Released.kept {t u : Timeline} {id : String} (h : t.Released scenario id) (hkept : Kept t u) :
    u.Released scenario id := by
  refine h.imp_right fun hmem => ?_
  obtain ⟨offset,hget⟩ := (Dict.mem_iff_get _ _).mp hmem
  exact (Dict.mem_iff_get _ _).mpr ⟨offset,hkept.releases hget⟩

/-- A release that is there stays, and one that is not there is not resolved for an invocation without
dependencies. -/
theorem Step.release_of_released {t u : Timeline} (h : Step fl model scenario plan t u) {id : String}
    (hreleased : t.Released scenario id) : u.dependencyRelease[id]? = t.dependencyRelease[id]? := by
  cases h with
  | @release o offset ho hnew hresolved =>
    change (t.dependencyRelease.insert o.invocationId offset)[id]? = _
    rw [Dict.get_insert,if_neg]
    rintro rfl
    obtain hnone | hmem := hreleased
    · obtain ⟨p,hp,hid,hmode⟩ := modeOf_eq_some.mp hnone
      rw [List.inj_on_of_nodup_map scenario.outcomes_unique hp ho hid] at hmode
      exact (resolved_mode hresolved).1 hmode
    · exact hnew hmem
  | zero => rfl
  | transfer => rfl
  | execute => rfl
  | consume phase r =>
    obtain ⟨_,_,heq⟩ := consume_frame t phase r
    rw [heq]
  | meet => rfl
  | finish => rfl
  | fail => rfl

theorem Step.zeroDone (honce : ServedOnce plan) {t u : Timeline} (h : Step fl model scenario plan t u)
    (hzero : ZeroDone scenario plan t) : ZeroDone scenario plan u := by
  intro d hd hidle c hget
  have hfrom : t.completion[d.invocationId]? = some c → t.Released scenario d.invocationId ∧
      c.offsetMs = max 0 (t.dependencyRelease[d.invocationId]?.getD 0) := hzero d hd hidle c
  have hgoal : t.Released scenario d.invocationId ∧
      c.offsetMs = max 0 (t.dependencyRelease[d.invocationId]?.getD 0) := by
    cases h with
    | release => exact hfrom hget
    | @zero e he hnone hreleased =>
      change (t.completion.insert e.invocationId _)[d.invocationId]? = some c at hget
      rw [Dict.get_insert] at hget
      split_ifs at hget with heq
      · cases hget
        rw [← heq]
        exact ⟨hreleased,rfl⟩
      · exact hfrom hget
    | transfer => exact hfrom hget
    | execute => exact hfrom hget
    | consume phase r =>
      obtain ⟨_,_,heq⟩ := consume_frame t phase r
      rw [heq] at hget
      exact hfrom hget
    | @meet e q he hmet hq hnow hfresh =>
      change (t.completion.insert e.invocationId _)[d.invocationId]? = some c at hget
      rw [Dict.get_insert] at hget
      split_ifs at hget with heq
      · rw [demand_unique hd he heq.symm] at hidle
        exact absurd (hfresh honce).1 hidle
      · exact hfrom hget
    | @finish o offset ho hplain =>
      change (t.completion.insert o.invocationId _)[d.invocationId]? = some c at hget
      rw [Dict.get_insert] at hget
      split_ifs at hget with heq
      · rw [heq,physical?_eq_some.mpr ⟨hd,rfl⟩] at hplain
        cases hplain
      · exact hfrom hget
    | fail => exact hfrom hget
  rw [h.release_of_released hgoal.1]
  exact ⟨hgoal.1.kept h.kept,hgoal.2⟩

theorem External.zeroDone {t : Timeline} (h : External fl scenario plan t) : ZeroDone scenario plan t := by
  intro d hd _ c hget
  have hplain := (h.completions hget).1
  rw [physical?_eq_some.mpr ⟨hd,rfl⟩] at hplain
  cases hplain

theorem completionOf_eq_some {t : Timeline} {id : String} {offset : ℚ} :
    t.completionOf id = some offset ↔ ∃ c, t.completion[id]? = some c ∧ c.offsetMs = offset := by
  unfold Timeline.completionOf
  exact Option.map_eq_some_iff

theorem completionOf_complete (t : Timeline) (id other : String) (offset : ℚ) (source : String) :
    (t.complete id offset source).completionOf other = if id = other then some offset else t.completionOf other := by
  unfold Timeline.completionOf Timeline.complete
  rw [Dict.get_insert]
  split_ifs
  · rfl
  · rfl

theorem not_completed {t : Timeline} {id : String} (h : id ∉ t.completion) : t.completionOf id = none := by
  unfold Timeline.completionOf
  rw [(Dict.notMem_iff_get _ _).mp h]
  rfl

/-- Where no batch serves an invocation again, a completion stays as it is. -/
theorem Step.completions (honce : ServedOnce plan) {t u : Timeline} (h : Step fl model scenario plan t u)
    (hzero : ZeroDone scenario plan t) {id : String} {offset : ℚ} (hget : t.completionOf id = some offset) :
    u.completionOf id = some offset := by
  cases h with
  | release => exact hget
  | @zero d hd hnone hreleased =>
    rw [completionOf_complete]
    split_ifs with heq
    · subst heq
      obtain ⟨c,hc,hoffset⟩ := completionOf_eq_some.mp hget
      rw [← hoffset,(hzero d hd hnone c hc).2]
    · exact hget
  | transfer => exact hget
  | execute => exact hget
  | consume phase r =>
    obtain ⟨_,_,heq⟩ := consume_frame t phase r
    rw [heq]
    exact hget
  | @meet d q hd hmet hq hnow hfresh =>
    rw [completionOf_complete]
    split_ifs with heq
    · rw [← heq,not_completed (hfresh honce).2] at hget
      cases hget
    · exact hget
  | @finish o offset ho hplain hnew =>
    rw [completionOf_complete]
    split_ifs with heq
    · rw [← heq,not_completed hnew] at hget
      cases hget
    · exact hget
  | fail => exact hget

/-! ## Times of the format -/

/-- The times that a plan gives are numbers of the format. -/
structure CandidatePhysicalPlan.Representable (fl : ℚ → ℚ) (plan : CandidatePhysicalPlan) : Prop where
  batches : ∀ b ∈ plan.batches, fl b.earliestStartOffsetMs = b.earliestStartOffsetMs
  transfers : ∀ x ∈ plan.transfers, fl x.startOffsetMs = x.startOffsetMs

/-- The times of a timeline are numbers of the format. -/
structure Timeline.Representable (fl : ℚ → ℚ) (t : Timeline) : Prop where
  completions : ∀ {id : String} {offset : ℚ}, t.completionOf id = some offset → fl offset = offset
  releases : ∀ {id : String} {offset : ℚ}, t.dependencyRelease[id]? = some offset → fl offset = offset
  transfers : ∀ {id : String} {offset : ℚ}, t.transferCompletion[id]? = some offset → fl offset = offset
  clock : fl t.nowMs = t.nowMs
  cursor : fl t.pcieCursorMs = t.pcieCursorMs

/-- A release is the completion of a dependency. -/
theorem resolved_known {t : Timeline} {o : FrontierDemandOutcome} {offset : ℚ} (h : resolved t o = some offset) :
    ∃ id ∈ o.dependencyInvocationIds, t.completionOf id = some offset := by
  have hmem : offset ∈ o.dependencyInvocationIds.filterMap t.completionOf := by
    unfold resolved at h
    cases hmode : o.dependencyMode with
    | none =>
      rw [hmode] at h
      cases h
    | external =>
      rw [hmode] at h
      cases h
    | joinAll =>
      rw [hmode] at h
      simp only at h
      split_ifs at h
      exact (List.max?_eq_some_iff.mp h).1
    | joinAny =>
      rw [hmode] at h
      exact (List.min?_eq_some_iff.mp h).1
    | producer =>
      rw [hmode] at h
      exact (List.min?_eq_some_iff.mp h).1
  exact List.mem_filterMap.mp hmem

theorem mem_of_mapM {A : Type} {f : A → Option ℚ} {l : List A} : ∀ {values : List ℚ}, l.mapM f = some values →
    (∀ a ∈ l, ∃ v ∈ values, f a = some v) ∧ ∀ v ∈ values, ∃ a ∈ l, f a = some v := by
  induction l with
  | nil =>
    intro values h
    cases h
    exact ⟨fun _ ha => absurd ha List.not_mem_nil,fun _ hv => absurd hv List.not_mem_nil⟩
  | cons b l ih =>
    intro values h
    rw [List.mapM_cons,Option.bind_eq_bind,Option.bind_eq_some_iff] at h
    obtain ⟨v,hv,h⟩ := h
    rw [Option.bind_eq_bind,Option.bind_eq_some_iff] at h
    obtain ⟨vs,hvs,h⟩ := h
    cases h
    obtain ⟨hvalues,hkeys⟩ := ih hvs
    refine ⟨fun a ha => ?_,fun w hw => ?_⟩
    · obtain rfl | ha := List.mem_cons.mp ha
      · exact ⟨v,List.mem_cons_self,hv⟩
      · obtain ⟨w,hw,heq⟩ := hvalues a ha
        exact ⟨w,List.mem_cons_of_mem v hw,heq⟩
    · obtain rfl | hw := List.mem_cons.mp hw
      · exact ⟨b,List.mem_cons_self,hv⟩
      · obtain ⟨a,ha,heq⟩ := hkeys w hw
        exact ⟨a,List.mem_cons_of_mem b ha,heq⟩

theorem fl_waits {t : Timeline} (ht : t.Representable fl) {x : ScheduledTransfer} {waits : List ℚ}
    (h : t.waits x = some waits) : ∀ v ∈ waits, fl v = v := by
  unfold Timeline.waits at h
  rw [Option.bind_eq_bind,Option.bind_eq_some_iff] at h
  obtain ⟨completions,hcompletions,h⟩ := h
  rw [Option.bind_eq_some_iff] at h
  obtain ⟨releases,hreleases,h⟩ := h
  cases h
  intro v hv
  obtain hv | hv := List.mem_append.mp hv
  · obtain ⟨id,-,hget⟩ := (mem_of_mapM hcompletions).2 v hv
    exact ht.completions hget
  · obtain ⟨id,-,hget⟩ := (mem_of_mapM hreleases).2 v hv
    exact ht.releases hget

theorem fl_transferStart (hplan : plan.Representable fl) {t : Timeline} (ht : t.Representable fl)
    {x : ScheduledTransfer} (hx : x ∈ plan.transfers) {waits : List ℚ} (h : t.waits x = some waits) :
    fl (t.transferStart x waits) = t.transferStart x waits :=
  fl_foldl_max (fl_waits ht h) (fl_max ht.cursor (hplan.transfers x hx))

theorem fl_batchStart (hplan : plan.Representable fl) {t : Timeline} (ht : t.Representable fl)
    {b : ScheduledBatchQuantum} (hb : b ∈ plan.batches) :
    fl (t.batchStart scenario b) = t.batchStart scenario b := by
  apply fl_foldl_max _ (fl_max ht.clock (hplan.batches b hb))
  intro v hv
  obtain hv | hv := List.mem_append.mp hv
  · obtain ⟨r,-,hget⟩ := List.mem_filterMap.mp hv
    exact ht.releases hget
  · obtain ⟨id,-,hget⟩ := List.mem_filterMap.mp hv
    exact ht.transfers hget

theorem Timeline.Representable.complete {t : Timeline} (ht : t.Representable fl) (id : String) {offset : ℚ}
    (hoffset : fl offset = offset) (source : String) : (t.complete id offset source).Representable fl := by
  refine ⟨?_,ht.releases,ht.transfers,ht.clock,ht.cursor⟩
  intro other v hget
  rw [completionOf_complete] at hget
  split_ifs at hget
  · cases hget
    exact hoffset
  · exact ht.completions hget

theorem fl_insert {d : Dict String ℚ} (hd : ∀ {id : String} {offset : ℚ}, d[id]? = some offset → fl offset = offset)
    {key : String} {value : ℚ} (hvalue : fl value = value) {id : String} {offset : ℚ}
    (h : (d.insert key value)[id]? = some offset) : fl offset = offset := by
  rw [Dict.get_insert] at h
  split_ifs at h
  · cases h
    exact hvalue
  · exact hd h

/-- Every time is a number of the format before it is rounded, or has been rounded. -/
theorem Step.representable (hfl : Rounding fl) {t u : Timeline} (h : Step fl model scenario plan t u) (ht : t.Representable fl) : u.Representable fl := by
  cases h with
  | @release o offset ho hnew hresolved =>
    obtain ⟨id,-,hget⟩ := resolved_known hresolved
    exact ⟨ht.completions,fl_insert ht.releases (ht.completions hget),ht.transfers,ht.clock,ht.cursor⟩
  | @zero d =>
    apply ht.complete
    apply fl_max hfl.zero
    cases hget : t.dependencyRelease[d.invocationId]? with
    | none => exact hfl.zero
    | some offset => exact ht.releases hget
  | transfer =>
    exact ⟨ht.completions,ht.releases,fl_insert ht.transfers (hfl.idem _),ht.clock,hfl.idem _⟩
  | execute => exact ⟨ht.completions,ht.releases,ht.transfers,hfl.idem _,ht.cursor⟩
  | consume phase r =>
    obtain ⟨_,_,heq⟩ := consume_frame t phase r
    rw [heq]
    exact ⟨ht.completions,ht.releases,ht.transfers,ht.clock,ht.cursor⟩
  | meet => exact ht.complete _ ht.clock _
  | finish ho hplain hnew hrelease => exact ht.complete _ (ht.releases hrelease) _
  | fail => exact ⟨ht.completions,ht.releases,ht.transfers,ht.clock,ht.cursor⟩

theorem External.representable (hfl : Rounding fl) {t : Timeline} (h : External fl scenario plan t) :
    t.Representable fl := by
  refine ⟨?_,?_,?_,?_,?_⟩
  · intro id offset hget
    obtain ⟨c,hc,rfl⟩ := completionOf_eq_some.mp hget
    obtain ⟨-,o,-,-,-,hsum⟩ := h.completions hc
    rw [hsum]
    exact fl_roundedSum hfl _
  · intro id offset hget
    obtain ⟨o,-,-,-,rfl⟩ := h.releases hget
    exact fl_roundedSum hfl _
  · intro id offset hget
    rw [h.transfers,Std.ExtTreeMap.getElem?_empty] at hget
    cases hget
  · rw [h.clock.1]
    exact hfl.zero
  · rw [h.clock.2]
    exact hfl.zero

/-- What every step between such times keeps holds after every run from the start. -/
theorem Steps.keeps (hfl : Rounding fl) {P : Timeline → Prop}
    (hstep : ∀ {t u}, Step fl model scenario plan t u → t.Representable fl → P t → P u) {t u : Timeline}
    (h : Steps fl model scenario plan t u) (ht : t.Representable fl) (hstart : P t) : P u := by
  have hboth : ∀ {t u}, Step fl model scenario plan t u → t.Representable fl ∧ P t → u.Representable fl ∧ P u :=
    fun hone hold => ⟨hone.representable hfl hold.1,hstep hone hold.1 hold.2⟩
  have hend := h.invariant hboth ⟨ht,hstart⟩
  exact hend.2

theorem finalTimeline_keeps (hfl : Rounding fl) {P : Timeline → Prop}
    (hstep : ∀ {t u}, Step fl model scenario plan t u → t.Representable fl → P t → P u)
    (hstart : ∀ t, External fl scenario plan t → P t) {u : Timeline}
    (h : finalTimeline fl model scenario plan = .ok u) : P u := by
  have hsteps : Steps fl model scenario plan (externalTimeline fl scenario plan) u :=
    startTimeline_steps.trans (finalTimeline_steps h)
  exact hsteps.keeps hfl hstep (externalTimeline_external.representable hfl)
    (hstart _ externalTimeline_external)

/-! ## Transfers -/

theorem waits_spec {t : Timeline} {x : ScheduledTransfer} {waits : List ℚ} (h : t.waits x = some waits) :
    (∀ id ∈ x.readyAfterInvocationIds, ∃ v ∈ waits, t.completionOf id = some v) ∧
      ∀ id ∈ x.readyAfterDependencyReleaseIds, ∃ v ∈ waits, t.dependencyRelease[id]? = some v := by
  unfold Timeline.waits at h
  rw [Option.bind_eq_bind,Option.bind_eq_some_iff] at h
  obtain ⟨completions,hcompletions,h⟩ := h
  rw [Option.bind_eq_some_iff] at h
  obtain ⟨releases,hreleases,h⟩ := h
  cases h
  refine ⟨fun id hid => ?_,fun id hid => ?_⟩
  · obtain ⟨v,hv,heq⟩ := (mem_of_mapM hcompletions).1 id hid
    exact ⟨v,List.mem_append_left _ hv,heq⟩
  · obtain ⟨v,hv,heq⟩ := (mem_of_mapM hreleases).1 id hid
    exact ⟨v,List.mem_append_right _ hv,heq⟩

/-- A transfer takes its time after all that it waits for. -/
theorem transferStart_le (t : Timeline) (x : ScheduledTransfer) (waits : List ℚ) :
    t.pcieCursorMs ≤ t.transferStart x waits ∧ x.startOffsetMs ≤ t.transferStart x waits ∧
      ∀ v ∈ waits, v ≤ t.transferStart x waits :=
  ⟨(le_max_left _ _).trans le_foldl_max,(le_max_right _ _).trans le_foldl_max,fun _ hv => mem_le_foldl_max hv⟩

/-- A completed transfer is not earlier than what it waited for. -/
structure AfterWaits (scenario : DemandScenario) (plan : CandidatePhysicalPlan) (t : Timeline) : Prop where
  starts : ∀ x ∈ plan.transfers, ∀ c, t.transferCompletion[x.transferId]? = some c → x.startOffsetMs ≤ c
  releases : ∀ x ∈ plan.transfers, ∀ c, t.transferCompletion[x.transferId]? = some c →
    ∀ id ∈ x.readyAfterDependencyReleaseIds, ∃ v, t.dependencyRelease[id]? = some v ∧ v ≤ c
  invocations : ServedOnce plan → ZeroDone scenario plan t ∧
    ∀ x ∈ plan.transfers, ∀ c, t.transferCompletion[x.transferId]? = some c →
      ∀ id ∈ x.readyAfterInvocationIds, ∃ v, t.completionOf id = some v ∧ v ≤ c

theorem durationMs_nonneg (hfl : Rounding fl) (x : ScheduledTransfer) : 0 ≤ x.durationMs fl :=
  hfl.nonneg (sub_nonneg.mpr x.start_le)

/-- A step either leaves the completions of transfers or schedules one. -/
theorem Step.transfer_cases {t u : Timeline} (h : Step fl model scenario plan t u) :
    (u.transferCompletion = t.transferCompletion ∧ u.pcieCursorMs = t.pcieCursorMs) ∨
      ∃ x ∈ plan.transfers, ∃ waits, t.waits x = some waits ∧ x.transferId ∉ t.transferCompletion ∧
        u = t.transferred fl x waits := by
  cases h with
  | release => exact .inl ⟨rfl,rfl⟩
  | zero => exact .inl ⟨rfl,rfl⟩
  | @transfer x waits hx hnew hwaits => exact .inr ⟨x,hx,waits,hwaits,hnew,rfl⟩
  | execute => exact .inl ⟨rfl,rfl⟩
  | consume phase r =>
    obtain ⟨_,_,heq⟩ := consume_frame t phase r
    rw [heq]
    exact .inl ⟨rfl,rfl⟩
  | meet => exact .inl ⟨rfl,rfl⟩
  | finish => exact .inl ⟨rfl,rfl⟩
  | fail => exact .inl ⟨rfl,rfl⟩

theorem Step.afterWaits (hfl : Rounding fl) (hplan : plan.Representable fl) {t u : Timeline}
    (h : Step fl model scenario plan t u) (ht : t.Representable fl) (hafter : AfterWaits scenario plan t) :
    AfterWaits scenario plan u := by
  have hold : ∀ x ∈ plan.transfers, ∀ c, t.transferCompletion[x.transferId]? = some c →
      x.startOffsetMs ≤ c ∧
      (∀ id ∈ x.readyAfterDependencyReleaseIds, ∃ v, u.dependencyRelease[id]? = some v ∧ v ≤ c) ∧
      (ServedOnce plan → ∀ id ∈ x.readyAfterInvocationIds, ∃ v, u.completionOf id = some v ∧ v ≤ c) := by
    intro x hx c hc
    refine ⟨hafter.starts x hx c hc,fun id hid => ?_,fun honce id hid => ?_⟩
    · obtain ⟨v,hv,hle⟩ := hafter.releases x hx c hc id hid
      exact ⟨v,h.kept.releases hv,hle⟩
    · obtain ⟨hzero,hinvocations⟩ := hafter.invocations honce
      obtain ⟨v,hv,hle⟩ := hinvocations x hx c hc id hid
      exact ⟨v,h.completions honce hzero hv,hle⟩
  have hnew : ∀ x ∈ plan.transfers, ∀ c, u.transferCompletion[x.transferId]? = some c →
      x.startOffsetMs ≤ c ∧
      (∀ id ∈ x.readyAfterDependencyReleaseIds, ∃ v, u.dependencyRelease[id]? = some v ∧ v ≤ c) ∧
      (ServedOnce plan → ∀ id ∈ x.readyAfterInvocationIds, ∃ v, u.completionOf id = some v ∧ v ≤ c) := by
    intro x hx c hc
    obtain ⟨heq,-⟩ | ⟨y,hy,waits,hwaits,-,heq⟩ := h.transfer_cases
    · exact hold x hx c (heq ▸ hc)
    · by_cases hid : y.transferId = x.transferId
      · obtain rfl := List.inj_on_of_nodup_map plan.transfers_unique hy hx hid
        subst heq
        have hcompletion : (t.transferCompletion.insert y.transferId
            (fl (t.transferStart y waits + y.durationMs fl)))[y.transferId]? = some c := hc
        rw [Dict.get_insert,if_pos rfl] at hcompletion
        cases hcompletion
        obtain ⟨-,hstart,hwait⟩ := transferStart_le t y waits
        have hend : t.transferStart y waits ≤ fl (t.transferStart y waits + y.durationMs fl) :=
          hfl.le_add (fl_transferStart hplan ht hy hwaits) (durationMs_nonneg hfl y)
        obtain ⟨hinvocations,hreleases⟩ := waits_spec hwaits
        refine ⟨hstart.trans hend,fun id hid => ?_,fun _ id hid => ?_⟩
        · obtain ⟨v,hv,hget⟩ := hreleases id hid
          exact ⟨v,hget,(hwait v hv).trans hend⟩
        · obtain ⟨v,hv,hget⟩ := hinvocations id hid
          exact ⟨v,hget,(hwait v hv).trans hend⟩
      · refine hold x hx c ?_
        rw [heq] at hc
        have hcompletion : (t.transferCompletion.insert y.transferId
            (fl (t.transferStart y waits + y.durationMs fl)))[x.transferId]? = some c := hc
        rwa [Dict.get_insert,if_neg hid] at hcompletion
  exact ⟨fun x hx c hc => (hnew x hx c hc).1,fun x hx c hc => (hnew x hx c hc).2.1,
    fun honce => ⟨h.zeroDone honce (hafter.invocations honce).1,fun x hx c hc => (hnew x hx c hc).2.2 honce⟩⟩

theorem External.afterWaits {t : Timeline} (h : External fl scenario plan t) :
    AfterWaits scenario plan t := by
  have hnone : ∀ x : ScheduledTransfer, ∀ c, t.transferCompletion[x.transferId]? ≠ some c := by
    intro x c hc
    rw [h.transfers,Std.ExtTreeMap.getElem?_empty] at hc
    cases hc
  exact ⟨fun x _ c hc => absurd hc (hnone x c),fun x _ c hc => absurd hc (hnone x c),
    fun _ => ⟨h.zeroDone,fun x _ c hc => absurd hc (hnone x c)⟩⟩

/-! ## Batches -/

/-- A quantum is that of a batch, after all that the batch waits for. -/
structure Caused (scenario : DemandScenario) (plan : CandidatePhysicalPlan) (t : Timeline)
    (q : TimedServiceQuantum) (b : ScheduledBatchQuantum) : Prop where
  known : b ∈ plan.batches
  named : b.batchId = q.batchId
  ordered : q.startOffsetMs ≤ q.completionOffsetMs
  start : b.earliestStartOffsetMs ≤ q.startOffsetMs
  transfers : ∀ id ∈ b.readyAfterTransferIds, ∃ c, t.transferCompletion[id]? = some c ∧ c ≤ q.startOffsetMs
  releases : ∀ r ∈ b.requests, modeOf scenario r.invocationId = some .none ∨
    ∃ v, t.dependencyRelease[r.invocationId]? = some v ∧ v ≤ q.startOffsetMs

theorem Caused.kept {t u : Timeline} {q : TimedServiceQuantum} {b : ScheduledBatchQuantum}
    (h : Caused scenario plan t q b) (hkept : Kept t u) : Caused scenario plan u q b := by
  refine ⟨h.known,h.named,h.ordered,h.start,fun id hid => ?_,fun r hr => (h.releases r hr).imp_right ?_⟩
  · obtain ⟨c,hc,hle⟩ := h.transfers id hid
    exact ⟨c,hkept.transfers hc,hle⟩
  · rintro ⟨v,hv,hle⟩
    exact ⟨v,hkept.releases hv,hle⟩

/-- The quanta follow each other, and the clock is behind the last one. -/
structure Serial (scenario : DemandScenario) (plan : CandidatePhysicalPlan) (t : Timeline) : Prop where
  caused : ∀ q ∈ t.serviceQuanta, ∃ b, Caused scenario plan t q b
  past : ∀ q ∈ t.serviceQuanta, q.completionOffsetMs ≤ t.nowMs
  ordered : t.serviceQuanta.Pairwise fun p q => p.completionOffsetMs ≤ q.startOffsetMs

/-- A step either leaves the quanta and the clock or executes a batch. -/
theorem Step.quanta_cases {t u : Timeline} (h : Step fl model scenario plan t u) :
    (u.serviceQuanta = t.serviceQuanta ∧ u.nowMs = t.nowMs) ∨
      ∃ b ∈ plan.batches, ∃ estimate, (∀ r ∈ b.requests, t.Released scenario r.invocationId) ∧
        (∀ id ∈ b.readyAfterTransferIds, id ∈ t.transferCompletion) ∧ u = t.executed fl scenario plan b estimate := by
  cases h with
  | release => exact .inl ⟨rfl,rfl⟩
  | zero => exact .inl ⟨rfl,rfl⟩
  | transfer => exact .inl ⟨rfl,rfl⟩
  | @execute b estimate hb hreleased htransfers => exact .inr ⟨b,hb,estimate,hreleased,htransfers,rfl⟩
  | consume phase r =>
    obtain ⟨_,_,heq⟩ := consume_frame t phase r
    rw [heq]
    exact .inl ⟨rfl,rfl⟩
  | meet => exact .inl ⟨rfl,rfl⟩
  | finish => exact .inl ⟨rfl,rfl⟩
  | fail => exact .inl ⟨rfl,rfl⟩

/-- A batch starts after the clock and after all that it waits for. -/
theorem executed_caused (hfl : Rounding fl) (hplan : plan.Representable fl) {t : Timeline}
    (ht : t.Representable fl) {b : ScheduledBatchQuantum} (hb : b ∈ plan.batches) (estimate : GPUServiceEstimate) (hreleased : ∀ r ∈ b.requests, t.Released scenario r.invocationId)
    (htransfers : ∀ id ∈ b.readyAfterTransferIds, id ∈ t.transferCompletion) :
    t.nowMs ≤ t.batchStart scenario b ∧
      Caused scenario plan t ⟨b.batchId,t.batchStart scenario b,
        fl (t.batchStart scenario b + estimate.elapsedMs),estimate.source⟩ b := by
  refine ⟨(le_max_left _ _).trans le_foldl_max,hb,rfl,
    hfl.le_add (fl_batchStart hplan ht hb) estimate.nonneg,(le_max_right _ _).trans le_foldl_max,fun id hid => ?_,fun r hr => or_iff_not_imp_left.mpr fun hdepends => ?_⟩
  · obtain ⟨c,hc⟩ := (Dict.mem_iff_get _ _).mp (htransfers id hid)
    exact ⟨c,hc,mem_le_foldl_max (List.mem_append_right _ (List.mem_filterMap.mpr ⟨id,hid,hc⟩))⟩
  · obtain ⟨v,hv⟩ := (Dict.mem_iff_get _ _).mp ((hreleased r hr).resolve_left hdepends)
    refine ⟨v,hv,mem_le_foldl_max (List.mem_append_left _ (List.mem_filterMap.mpr ⟨r,?_,hv⟩))⟩
    exact List.mem_filter.mpr ⟨hr,decide_eq_true hdepends⟩

theorem Step.serial (hfl : Rounding fl) (hplan : plan.Representable fl) {t u : Timeline}
    (h : Step fl model scenario plan t u) (ht : t.Representable fl) (hserial : Serial scenario plan t) :
    Serial scenario plan u := by
  have hkept := h.kept
  obtain ⟨hquanta,hnow⟩ | ⟨b,hb,estimate,hreleased,htransfers,heq⟩ := h.quanta_cases
  · refine ⟨fun q hq => ?_,fun q hq => ?_,?_⟩
    · obtain ⟨b,hcaused⟩ := hserial.caused q (hquanta ▸ hq)
      exact ⟨b,hcaused.kept hkept⟩
    · rw [hnow]
      exact hserial.past q (hquanta ▸ hq)
    · rw [hquanta]
      exact hserial.ordered
  · obtain ⟨hlater,hcaused⟩ := executed_caused hfl hplan ht hb estimate hreleased htransfers
    subst heq
    refine ⟨fun q hq => ?_,fun q hq => ?_,?_⟩
    · obtain hq | hq := List.mem_append.mp hq
      · obtain ⟨b,hcaused⟩ := hserial.caused q hq
        exact ⟨b,hcaused.kept hkept⟩
      · rw [List.mem_singleton.mp hq]
        exact ⟨b,hcaused.kept hkept⟩
    · obtain hq | hq := List.mem_append.mp hq
      · exact ((hserial.past q hq).trans hlater).trans hcaused.ordered
      · rw [List.mem_singleton.mp hq]
        exact le_rfl
    · refine List.pairwise_append.mpr ⟨hserial.ordered,List.pairwise_singleton _ _,fun p hp q hq => ?_⟩
      rw [List.mem_singleton.mp hq]
      exact (hserial.past p hp).trans hlater

theorem External.serial {t : Timeline} (h : External fl scenario plan t) : Serial scenario plan t := by
  have hnone : ∀ q, q ∉ t.serviceQuanta := by
    intro q hq
    rw [h.quanta] at hq
    cases hq
  refine ⟨fun q hq => absurd hq (hnone q),fun q hq => absurd hq (hnone q),?_⟩
  rw [h.quanta]
  exact List.Pairwise.nil

end Order
end BeliefKV.CandidateTimeline
