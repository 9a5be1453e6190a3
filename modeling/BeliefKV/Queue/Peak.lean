import BeliefKV.Queue.Transitions

/-! The reported peak and final bytes of the HBM. -/
namespace BeliefKV.QueueService

/-! ## The transfers of a plan -/

section Transfers
variable {fl : ℚ → ℚ} {input : PolicyInput} {plan : ScenarioPlan}

/-- What an action takes from the GPU, at once or after a copy to the host. -/
def reclaimedBy (input : PolicyInput) (entry : String × ResidencyAction) : ℕ :=
  if entry.2 = .drop ∨ entry.2 = .recompute ∨ entry.2 = .commitCpu then
    (input.bundle? entry.1).elim 0 (·.marginalReclaimableBytes)
  else 0

def reclaimedBytes (input : PolicyInput) (plan : ScenarioPlan) : ℕ :=
  (plan.bundleActions.toList.map (reclaimedBy input)).sum

theorem act_reclaims (t : Transfers) (entry : String × ResidencyAction) : Yields (t.act input entry)
    fun u => u.hbmUsed - u.totalReclaim = t.hbmUsed - t.totalReclaim - reclaimedBy input entry := by
  intro u hu
  obtain ⟨id,action⟩ := entry
  unfold Transfers.act at hu
  cases hb : input.bundle? id with
  | none => simp [hb] at hu
  | some b =>
    cases ht : t.bundles[id]? with
    | none => simp [hb,ht] at hu
    | some state =>
      simp only [hb,ht] at hu
      by_cases hblocked : b.actionable = false ∧ action ≠ .keep
      · simp [hblocked] at hu
      · rw [if_neg hblocked] at hu
        cases action with
        | keep =>
          cases hu
          simp [reclaimedBy]
        | drop | recompute =>
          simp only at hu
          by_cases hle : state.gpuBytes < b.marginalReclaimableBytes
          · simp [hle] at hu
          · rw [if_neg hle] at hu
            cases hu
            simp [reclaimedBy,hb,Transfers.totalReclaim]
            ring
        | commitCpu | prepareHost =>
          simp only at hu
          by_cases hle : t.hostFree < (state.gpuBytes - state.cpuBytes).toNat
          · rw [if_pos hle] at hu
            cases hu
          · rw [if_neg hle] at hu
            cases hu
            simp [reclaimedBy,hb,Transfers.totalReclaim]
            try ring
        | prefetchGpu =>
          simp only at hu
          by_cases hle : state.cpuBytes < (state.sizeBytes - state.gpuBytes).toNat
          · rw [if_pos hle] at hu
            cases hu
          · rw [if_neg hle] at hu
            cases hu
            simp [reclaimedBy,Transfers.totalReclaim]

theorem acts_reclaim (entries : List (String × ResidencyAction)) : ∀ t : Transfers,
    Yields (entries.foldlM (Transfers.act input) t) fun u =>
      u.hbmUsed - u.totalReclaim = t.hbmUsed - t.totalReclaim - ((entries.map (reclaimedBy input)).sum : ℕ) := by
  induction entries with
  | nil => exact fun t => Yields.ok (by simp)
  | cons entry entries ih =>
    intro t
    rw [List.foldlM_cons]
    refine Yields.bind fun u hu => ?_
    intro v hv
    rw [ih u v hv,act_reclaims t entry u hu,List.map_cons,List.sum_cons]
    push_cast
    ring

theorem d2hEvents_sum (deferred : ℤ) (jobs : List D2hJob) : ∀ cursor,
    Yields (d2hEvents fl input deferred jobs cursor) fun r =>
      (r.1.map (·.gpuDeltaBytes)).sum = -((((jobs.filter (·.commit)).map (·.reclaim)).sum : ℕ) : ℤ) := by
  induction jobs with
  | nil => exact fun cursor => Yields.ok rfl
  | cons job rest ih =>
    intro cursor
    refine Yields.bind fun duration _ => Yields.bind fun r hr => Yields.ok ?_
    rw [List.map_cons,List.sum_cons,ih _ r hr]
    cases hcommit : job.commit
    · simp [hcommit]
    · simp [hcommit]
      ring

theorem h2dEvents_sum (jobs : List H2dJob) : ∀ cursor,
    Yields (h2dEvents fl input jobs cursor) fun r =>
      (r.1.map (·.gpuDeltaBytes)).sum = ((jobs.map (·.transfer)).sum : ℕ) := by
  induction jobs with
  | nil => exact fun cursor => Yields.ok rfl
  | cons job rest ih =>
    intro cursor
    refine Yields.bind fun duration _ => Yields.bind fun r hr => Yields.ok ?_
    rw [List.map_cons,List.sum_cons,ih _ r hr]
    simp

theorem checkAllocator_le {s : PhysicalSchedule} {reserved : ℤ}
    (h : checkAllocator input s reserved = .ok ()) :
    s.hbmUsedBytes + s.fixedReservedBytes + s.hbmTransferReservedBytes + reserved ≤
      input.resources.hbmCapacityBytes := by
  obtain ⟨_,hle,-⟩ := bind_eq_ok.mp h
  exact ensure_eq_ok.mp hle

/-- A schedule fits, and its events lead from the bytes in use to those that the plan leaves. -/
structure Planned (input : PolicyInput) (plan : ScenarioPlan) (s : PhysicalSchedule) : Prop where
  fixed : s.fixedReservedBytes = input.resources.hbmReservedBytes
  used : s.hbmUsedBytes + (s.events.map (·.gpuDeltaBytes)).sum =
    input.resources.hbmUsedBytes - reclaimedBytes input plan + s.h2dBytes
  fits : s.hbmUsedBytes + s.fixedReservedBytes + s.hbmTransferReservedBytes ≤
    input.resources.hbmCapacityBytes

theorem physicalSchedule_planned : Yields (physicalSchedule fl input plan) (Planned input plan) := by
  refine Yields.bind fun _ _ => Yields.bind fun t ht => Yields.bind fun d2h hd2h => Yields.bind fun h2d hh2d =>
    Yields.bind fun _ _ => Yields.bind fun _ hcheck => Yields.ok ?_
  have hreclaim := acts_reclaim _ _ t ht
  have hoff := d2hEvents_sum _ _ _ d2h hd2h
  have hrest := h2dEvents_sum _ _ h2d hh2d
  refine ⟨rfl,?_,?_⟩
  · simp only [Transfers.schedule,List.map_append,List.sum_append,hoff,hrest]
    simp only [Transfers.totalReclaim,List.filter_nil,List.map_nil,List.sum_nil] at hreclaim
    unfold reclaimedBytes Transfers.totalH2d
    push_cast at hreclaim ⊢
    linarith
  · have hle := checkAllocator_le hcheck
    simpa using hle

end Transfers

/-! ## The ledger -/

/-- The bytes that a request has kept since it finished. -/
def keptBytes (exact : Bool) (workload : FrozenCounterfactualWorkload) (r : RequestState) : ℤ :=
  if r.finishMs.isSome then
    if exact then r.uniqueCommitGrowthTokens * workload.kvBytesPerToken else r.demand.kvGrowthBytes
  else 0

namespace Simulation
variable {s : Simulation} {q r : RequestState}

/-- A changed request counts in place of the one it replaces. -/
theorem sum_put (g : RequestState → ℤ) (hid : q.id = r.id) : ∀ l : List RequestState,
    (l.map (·.id)).Nodup → q ∈ l →
      ((l.map fun p => if p.id = r.id then r else p).map g).sum = (l.map g).sum - g q + g r := by
  intro l
  induction l with
  | nil => simp
  | cons p l ih =>
    intro hnodup hq
    obtain ⟨hp,hnodup⟩ := List.nodup_cons.mp hnodup
    rcases List.mem_cons.mp hq with rfl | hq
    · have hrest : l.map (fun p => if p.id = r.id then r else p) = l := by
        refine (List.map_congr_left fun p' hp' => if_neg fun heq => hp ?_).trans l.map_id
        exact List.mem_map.mpr ⟨p',hp',heq.trans hid.symm⟩
      rw [List.map_cons,if_pos hid,hrest,List.map_cons,List.sum_cons,List.map_cons,List.sum_cons]
      ring
    · have hne : p.id ≠ r.id := fun heq => hp (List.mem_map.mpr ⟨q,hq,hid.trans heq.symm⟩)
      rw [List.map_cons,if_neg hne,List.map_cons,List.sum_cons,ih hnodup hq,List.map_cons,List.sum_cons]
      ring

theorem kept_put {exact : Bool} {workload : FrozenCounterfactualWorkload} (hids : s.ids.Nodup)
    (hq : q ∈ s.states) (hid : q.id = r.id) :
    ((s.put r).states.map (keptBytes exact workload)).sum = (s.states.map (keptBytes exact workload)).sum -
      keptBytes exact workload q + keptBytes exact workload r :=
  sum_put _ hid s.states hids hq

theorem sum_map {g : RequestState → ℤ} {f : RequestState → RequestState}
    (h : ∀ r ∈ s.states, g (f r) = g r) : ((s.states.map f).map g).sum = (s.states.map g).sum := by
  rw [List.map_map]
  exact congrArg List.sum (List.map_congr_left h)

theorem gauge_moved {t : Simulation} (hpeak : t.hbmPeak = s.hbmPeak) :
    (s.moved t).gauge = s.gauge.move t.occupied := by
  unfold gauge moved Gauge.move
  simp only [hpeak,Gauge.mk.injEq,and_true]
  rfl

end Simulation

/-- The ledger of a simulation that began at some level. -/
structure Ledger (input : PolicyInput) (workload : FrozenCounterfactualWorkload) (exact : Bool)
    (physical : PhysicalSchedule) (s : Simulation) : Prop where
  ids : s.ids.Nodup
  tracks : s.gauge.Tracks (physical.hbmUsedBytes + physical.fixedReservedBytes +
    physical.hbmTransferReservedBytes)
  fits : ∀ level ∈ s.gauge.levels (physical.hbmUsedBytes + physical.fixedReservedBytes +
    physical.hbmTransferReservedBytes), level ≤ input.resources.hbmCapacityBytes
  used : s.physical.hbmUsedBytes + (s.pending.map (·.gpuDeltaBytes)).sum =
    physical.hbmUsedBytes + (physical.events.map (·.gpuDeltaBytes)).sum +
      (s.states.map (keptBytes exact workload)).sum
  fixed : s.physical.fixedReservedBytes = physical.fixedReservedBytes
  restored : s.physical.h2dBytes = physical.h2dBytes
  radix : s.radix.isSome = exact

section Ledger
variable {fl : ℚ → ℚ} {order : Finset String → List String} {model : QueueServiceModel}
  {input : PolicyInput} {demand : ScenarioDemand} {plan : ScenarioPlan}
  {workload : FrozenCounterfactualWorkload} {exact : Bool} {physical : PhysicalSchedule} {s t : Simulation}

/-- An operation on the requests alone leaves the ledger as it is. -/
theorem Ledger.requests (h : Ledger input workload exact physical s) (hids : t.ids = s.ids)
    (hgauge : t.gauge = s.gauge) (hphysical : t.physical = s.physical) (hpending : t.pending = s.pending)
    (hradix : t.radix.isSome = s.radix.isSome)
    (hkept : (t.states.map (keptBytes exact workload)).sum = (s.states.map (keptBytes exact workload)).sum) :
    Ledger input workload exact physical t where
  ids := hids ▸ h.ids
  tracks := hgauge ▸ h.tracks
  fits := hgauge ▸ h.fits
  used := by rw [hphysical,hpending,hkept,h.used]
  fixed := by rw [hphysical,h.fixed]
  restored := by rw [hphysical,h.restored]
  radix := hradix.trans h.radix

/-- An operation that moves the level to one that fits. -/
theorem Ledger.moves (h : Ledger input workload exact physical s) (hids : t.ids = s.ids)
    (hpeak : t.hbmPeak = s.hbmPeak) (hfits : t.occupied ≤ input.resources.hbmCapacityBytes)
    (hused : t.physical.hbmUsedBytes + (t.pending.map (·.gpuDeltaBytes)).sum -
      (t.states.map (keptBytes exact workload)).sum = s.physical.hbmUsedBytes +
        (s.pending.map (·.gpuDeltaBytes)).sum - (s.states.map (keptBytes exact workload)).sum)
    (hfixed : t.physical.fixedReservedBytes = s.physical.fixedReservedBytes)
    (hrestored : t.physical.h2dBytes = s.physical.h2dBytes) (hradix : t.radix.isSome = s.radix.isSome) :
    Ledger input workload exact physical (s.moved t) where
  ids := (hids : (s.moved t).ids = s.ids) ▸ h.ids
  tracks := by
    rw [Simulation.gauge_moved hpeak]
    exact h.tracks.move _
  fits := by
    rw [Simulation.gauge_moved hpeak,Gauge.levels_move]
    rintro level (rfl | hlevel)
    · exact hfits
    · exact h.fits level hlevel
  used := by
    have hbefore := h.used
    have hafter : (s.moved t).physical.hbmUsedBytes + ((s.moved t).pending.map (·.gpuDeltaBytes)).sum -
      ((s.moved t).states.map (keptBytes exact workload)).sum = _ := hused
    linarith
  fixed := hfixed.trans h.fixed
  restored := hrestored.trans h.restored
  radix := hradix.trans h.radix

theorem completed_eq (s : Simulation) (r : RequestState) : completed workload s r =
    { s.put (finished s.nowMs (requestGrowth workload s.radix r).2.1) with
      radix := (requestGrowth workload s.radix r).1
      requestReservedBytes := s.requestReservedBytes - (requestGrowth workload s.radix r).2.1.startupReservedBytes
      physical := { s.physical with
        hbmUsedBytes := s.physical.hbmUsedBytes + (requestGrowth workload s.radix r).2.2 } } := rfl

/-- A finished request has kept what the ledger was charged. -/
theorem kept_finished (radix : Option TrieNode) (nowMs : ℚ) (r : RequestState) :
    keptBytes radix.isSome workload (finished nowMs (requestGrowth workload radix r).2.1) =
      (requestGrowth workload radix r).2.2 := by
  cases radix <;> rfl

theorem kept_of_active {r : RequestState} (h : r.finishMs = none) : keptBytes exact workload r = 0 := by
  simp [keptBytes,h]

theorem active_unfinished {r : RequestState} (h : r.active = true) : r.finishMs = none := by
  simp only [RequestState.active,Bool.and_eq_true,Option.isNone_iff_eq_none] at h
  exact h.2

theorem waiting_unfinished {r : RequestState} (h : r.waiting = true) : r.finishMs = none := by
  simp only [RequestState.waiting,Bool.and_eq_true,Option.isNone_iff_eq_none] at h
  exact h.2

/-- The changed request is as unfinished as the one it replaces. -/
theorem kept_replaced {q r : RequestState} (hids : s.ids.Nodup) (hq : q ∈ s.states) (hid : q.id = r.id)
    (hfinish : q.finishMs = none) (hfinish' : r.finishMs = none) :
    ((s.put r).states.map (keptBytes exact workload)).sum =
      (s.states.map (keptBytes exact workload)).sum := by
  rw [Simulation.kept_put hids hq hid,kept_of_active hfinish,kept_of_active hfinish']
  ring

theorem admissible_fits {r : RequestState} (h : admissible order input demand plan s r = .ok true) :
    s.occupied + r.startupReservedBytes ≤ input.resources.hbmCapacityBytes := by
  obtain ⟨ready,-,hready⟩ := bind_eq_ok.mp h
  simp only [Except.ok.injEq,Bool.and_eq_true,available] at hready
  have hle := of_decide_eq_true hready.2
  linarith

theorem releaseRequest_kept (s : Simulation) (r : RequestState) :
    keptBytes exact workload (releaseRequest fl workload s r) = keptBytes exact workload r := by
  unfold releaseRequest
  split
  · rfl
  · split_ifs <;> rfl

theorem initRadix_kept (radix : TrieNode) (r : RequestState) :
    keptBytes exact workload (initRadix workload radix r) = keptBytes exact workload r := by
  unfold initRadix
  split_ifs <;> rfl

theorem Step.ledger (hstep : Step fl order model input demand plan workload s t)
    (h : Ledger input workload exact physical s) : Ledger input workload exact physical t := by
  have hsame := hstep.ids
  cases hstep with
  | @event e rest hpending hdue hcheck =>
    refine h.moves hsame rfl (checkAllocator_le hcheck) ?_ rfl rfl rfl
    simp only [hpending,List.map_cons,List.sum_cons,PhysicalSchedule.apply]
    ring
  | release =>
    exact h.requests hsame rfl rfl rfl rfl (Simulation.sum_map fun r _ => releaseRequest_kept s r)
  | @init radix hradix =>
    exact h.requests hsame rfl rfl rfl rfl (Simulation.sum_map fun r _ => initRadix_kept radix r)
  | @admits r hr hwaiting hfits =>
    refine h.moves hsame rfl ?_ ?_ rfl rfl rfl
    · have hle := admissible_fits hfits
      simp only [Simulation.occupied,admitted,Simulation.put] at hle ⊢
      linarith
    · have hkept : ((s.put { r with admittedAtMs := some s.nowMs }).states.map
          (keptBytes exact workload)).sum = (s.states.map (keptBytes exact workload)).sum :=
        kept_replaced h.ids hr rfl (waiting_unfinished hwaiting) (waiting_unfinished (r := r) hwaiting)
      exact congrArg (s.physical.hbmUsedBytes + (s.pending.map (·.gpuDeltaBytes)).sum - ·) hkept
  | @mark r hr hactive =>
    exact h.requests hsame rfl rfl rfl rfl
      (kept_replaced h.ids hr rfl (active_unfinished hactive) (active_unfinished hactive))
  | @complete r hr hactive hdone hserved hcheck =>
    refine h.moves hsame rfl (checkAllocator_le hcheck) ?_ rfl rfl ?_
    · have hkept : ((s.put (finished s.nowMs (requestGrowth workload s.radix r).2.1)).states.map
          (keptBytes exact workload)).sum = _ := Simulation.kept_put h.ids hr
        (congrArg (·.requestId) (requestGrowth_demand workload r s.radix)).symm
      rw [kept_of_active (active_unfinished hactive),← h.radix,kept_finished] at hkept
      rw [completed_eq,← h.radix]
      simp only [Simulation.put] at hkept ⊢
      linarith
    · rw [completed_eq]
      cases s.radix <;> rfl
  | @prefill r elapsed hr hactive hremaining helapsed =>
    refine h.requests hsame rfl rfl rfl ?_ (kept_replaced h.ids hr ?_ (active_unfinished hactive) ?_)
    · unfold prefilled
      cases s.radix <;> rfl
    · exact (congrArg (·.requestId) (prefillChunk_demand model r s.radix s.nowMs)).symm
    · cases s.radix <;> exact active_unfinished hactive
  | decode =>
    refine h.requests hsame rfl rfl rfl rfl (Simulation.sum_map fun r _ => ?_)
    split_ifs <;> rfl
  | advance => exact h.requests hsame rfl rfl rfl rfl rfl
  | record =>
    exact ⟨h.ids,h.tracks.record,h.fits,h.used,h.fixed,h.restored,h.radix⟩

theorem Steps.ledger (hsteps : Steps fl order model input demand plan workload s t)
    (h : Ledger input workload exact physical s) : Ledger input workload exact physical t := by
  induction hsteps with
  | refl => exact h
  | tail _ hstep ih => exact hstep.ledger ih

end Ledger

/-! ## The report -/

section Report
variable (fl : ℚ → ℚ) (input : ReplayInput) (plan : ScenarioPlan) (workload : FrozenCounterfactualWorkload)
  (s : Simulation)

/-- The occupancy before the first iteration. -/
def startLevel : ℤ :=
  match physicalSchedule fl input.toPolicyInput plan with
  | .ok physical => physical.hbmUsedBytes + physical.fixedReservedBytes + physical.hbmTransferReservedBytes
  | .error _ => 0

/-- The occupancies of a simulation: at the start and after every event, admission and completion. -/
def occupancies : Set ℤ := s.gauge.levels (startLevel fl input plan)

structure PeakReported : Prop where
  greatest : IsGreatest (occupancies fl input plan s) (report fl input workload s).hbmPeakBytes
  fits : ∀ level ∈ occupancies fl input plan s, level ≤ input.resources.hbmCapacityBytes
  final : (report fl input workload s).hbmFinalBytes =
    input.resources.hbmUsedBytes + input.resources.hbmReservedBytes -
      reclaimedBytes input.toPolicyInput plan + (report fl input workload s).h2dBytes +
        ((report fl input workload s).recomputedUniqueGrowthBytes.map Prod.snd).sum

variable {fl input plan workload s} {order : Finset String → List String} {model : QueueServiceModel}
  {demand : ScenarioDemand} {fuel : ℕ}

theorem ledger_initial (physical : PhysicalSchedule)
    (hfits : physical.hbmUsedBytes + physical.fixedReservedBytes + physical.hbmTransferReservedBytes ≤
      input.resources.hbmCapacityBytes) :
    Ledger input.toPolicyInput workload (radixExact input workload) physical
      (Simulation.initial input workload physical) where
  ids := ids_initial input physical
  tracks := by
    have hgauge : (Simulation.initial input workload physical).gauge =
        ⟨physical.hbmUsedBytes + physical.fixedReservedBytes + physical.hbmTransferReservedBytes,
          physical.hbmUsedBytes + physical.fixedReservedBytes + physical.hbmTransferReservedBytes,[]⟩ := by
      simp [Simulation.gauge,Simulation.occupied,Simulation.initial]
    rw [hgauge]
    exact Gauge.Tracks.init _
  fits := by
    rintro level (rfl | ⟨m,hm,-⟩)
    · exact hfits
    · exact absurd hm List.not_mem_nil
  used := by
    have hkept : ((Simulation.initial input workload physical).states.map
        (keptBytes (radixExact input workload) workload)).sum = 0 := by
      refine List.sum_eq_zero fun n hn => ?_
      obtain ⟨r,hr,rfl⟩ := List.mem_map.mp hn
      obtain ⟨d,-,rfl⟩ := List.mem_map.mp hr
      rfl
    rw [hkept,add_zero]
    rfl
  fixed := rfl
  restored := rfl
  radix := by
    unfold Simulation.initial
    split_ifs with hexact <;> simp [hexact]

/-- The ledger after the last iteration. -/
theorem replay_ledger
    (h : replayWorkload fl order model input demand plan workload fuel = some (.ok s)) :
    ∃ physical, physicalSchedule fl input.toPolicyInput plan = .ok physical ∧
      Ledger input.toPolicyInput workload (radixExact input workload) physical s ∧
      s.occupied ≤ s.hbmPeak ∧ s.running = false := by
  unfold replayWorkload at h
  cases hvalid : validateRun input demand plan workload with
  | error e => simp [hvalid] at h
  | ok _ =>
    cases hphysical : physicalSchedule fl input.toPolicyInput plan with
    | error e => simp [hvalid,hphysical] at h
    | ok physical =>
      simp only [hvalid,hphysical] at h
      have hplanned := physicalSchedule_planned physical hphysical
      have hstart : Ledger input.toPolicyInput workload (radixExact input workload) physical
          (Simulation.initial input workload physical) ∧
          (Simulation.initial input workload physical).occupied ≤
            (Simulation.initial input workload physical).hbmPeak := by
        refine ⟨ledger_initial physical hplanned.fits,?_⟩
        simp [Simulation.occupied,Simulation.initial]
      obtain ⟨⟨hledger,hpeak⟩,hend⟩ := loop_keeps (I := fun t => Ledger input.toPolicyInput workload
        (radixExact input workload) physical t ∧ t.occupied ≤ t.hbmPeak) (fun t ht u hu =>
        ⟨(iterate_steps t ht.1.ids u hu).ledger ht.1,iterate_recorded t u hu⟩) fuel _ s hstart h
      exact ⟨physical,rfl,hledger,hpeak,hend⟩

theorem replay_finished
    (h : s.running = false) : (∀ r ∈ s.states, r.finishMs.isSome) ∧ s.pending = [] := by
  simp only [Simulation.running,Bool.or_eq_false_iff,List.any_eq_false,Bool.not_eq_false',
    List.isEmpty_iff] at h
  refine ⟨fun r hr => ?_,h.2⟩
  have hfinish := h.1 r hr
  rwa [Option.isNone_iff_eq_none,← ne_eq,Option.ne_none_iff_isSome] at hfinish

/-- The final bytes are those that the plan leaves, and what the requests have grown by. -/
theorem final_bytes
    (h : replayWorkload fl order model input demand plan workload fuel = some (.ok s)) :
    (report fl input workload s).hbmFinalBytes =
      input.resources.hbmUsedBytes + input.resources.hbmReservedBytes -
        reclaimedBytes input.toPolicyInput plan + (report fl input workload s).h2dBytes +
          ((report fl input workload s).recomputedUniqueGrowthBytes.map Prod.snd).sum := by
  obtain ⟨physical,hphysical,hledger,-,hend⟩ := replay_ledger h
  obtain ⟨hfinished,hpending⟩ := replay_finished hend
  have hplanned := physicalSchedule_planned physical hphysical
  have hkept : s.states.map (keptBytes (radixExact input workload) workload) =
      s.states.map (uniqueGrowthBytes input workload) := by
    refine List.map_congr_left fun r hr => ?_
    rw [keptBytes,if_pos (hfinished r hr),uniqueGrowthBytes]
  have hused := hledger.used
  rw [hpending,hkept,hplanned.used] at hused
  have hgrowth : ((report fl input workload s).recomputedUniqueGrowthBytes.map Prod.snd).sum =
      (s.states.map (uniqueGrowthBytes input workload)).sum := by
    rw [report,List.map_map]
    rfl
  have hfinal : (report fl input workload s).hbmFinalBytes =
      s.physical.hbmUsedBytes + s.physical.fixedReservedBytes := rfl
  have hh2d : (report fl input workload s).h2dBytes = physical.h2dBytes := hledger.restored
  rw [hgrowth,hfinal,hh2d,hledger.fixed,hplanned.fixed]
  simp only [List.map_nil,List.sum_nil] at hused
  linarith

end Report

/-- The reported peak is right in every run in which nothing is given back at an occupancy above the peak
recorded at the end of the last iteration. -/
theorem peak_reported (fl : ℚ → ℚ) (order : Finset String → List String) (model : QueueServiceModel)
    (input : ReplayInput) (demand : ScenarioDemand) (plan : ScenarioPlan)
    (workload : FrozenCounterfactualWorkload) (fuel : ℕ) (s : Simulation)
    (h : replayWorkload fl order model input demand plan workload fuel = some (.ok s))
    (hcovered : s.gauge.Covered) : PeakReported fl input plan workload s := by
  obtain ⟨physical,hphysical,hledger,hpeak,-⟩ := replay_ledger h
  have hstart : startLevel fl input plan = physical.hbmUsedBytes + physical.fixedReservedBytes +
      physical.hbmTransferReservedBytes := by
    rw [startLevel,hphysical]
  refine ⟨?_,?_,final_bytes h⟩
  · rw [occupancies,hstart]
    exact hledger.tracks.isGreatest hpeak hcovered
  · rw [occupancies,hstart]
    exact hledger.fits

/-! ## A request that is served at once -/

section Single
variable (outputTokens : ℕ)

/-- Nothing is delayed. -/
theorem undelayed : (0 : ℚ) ≤ 0 := le_rfl

def singleDemand : FrozenRequestDemand where
  requestId := "only"
  workflowId := "flow"
  predecessorRequestIds := []
  releaseDelayMs := 0
  uncachedPromptTokens := 1
  outputTokens := outputTokens
  startupBytes := 90
  kvGrowthBytes := 40
  named := by decide
  predecessors_unique := List.nodup_nil
  required_unique := List.nodup_nil
  delay_nonneg := undelayed
  growth_le := by decide
  boundary_le := by simp
  hit_le _ := Nat.zero_le _
  extends_prompt := .inl List.nil_prefix

def singleWorkload : FrozenCounterfactualWorkload where
  transitionHash := "hash"
  requests := [singleDemand outputTokens]
  workflows := [⟨"flow",0,["only"],0,by decide,by decide,List.nodup_singleton _,undelayed,undelayed⟩]
  requests_sorted := List.pairwise_singleton _ _
  workflows_sorted := List.pairwise_singleton _ _
  workflow_known := by simp [singleDemand]
  predecessors_known := by simp [singleDemand]
  terminals_known := by simp [singleDemand]
  paths_known := by simp
  acyclic := by
    have hids : ([singleDemand outputTokens].map (·.requestId)).toFinset = {"only"} := rfl
    have hedges : dependencyEdges [singleDemand outputTokens] = ∅ := rfl
    rw [hids,hedges,List.length_singleton]
    decide +kernel

end Single

def emptyInput : ReplayInput where
  snapshotId := "snapshot"
  runnableFrontier := []
  bundles := []
  resources := {
    tsMs := 17
    hbmCapacityBytes := 190
    hbmUsedBytes := 0
    hbmReservedBytes := 0
    hostFreeBytes := 0
    h2dServiceBytesPerMs := 100
    d2hServiceBytesPerMs := 100
    transferSetupP50Ms := 0
    unhiddenStallPerByte := 0
    ts_nonneg := by norm_num
    capacity_pos := by decide
    fits := by decide }
  requests_unique := List.nodup_nil
  requests_sorted := .nil
  bundles_unique := List.nodup_nil
  physicalGpuBytes := 0
  physicalCpuBytes := 0

def emptyDemand : ScenarioDemand where
  snapshotId := "snapshot"
  scenarioId := "scenario"
  transition := .blocking
  candidateRequestIds := ["only"]
  requiredGpuBundles := []
  optionalGpuBundles := []
  startupBytesByRequest := ∅
  projectedHbmPeakBytes := 0
  physicalAccountingExact := true
  blockerReasons := []

def emptyPlan : ScenarioPlan where
  snapshotId := "snapshot"
  scenarioId := "scenario"
  executionOrder := ["only"]
  admissionActions := ∅
  bundleActions := ∅
  feasible := true
  d2hBytes := 0
  h2dBytes := 0
  recomputeTokens := 0
  projectedHbmPeakBytes := 0
  reclaimedBytes := 0
  physicalAccountingExact := true
  blockerReasons := []

def unitService : QueueServiceModel where
  prefillTokensPerMs := 1
  decodeTokensPerMs := 1
  prefill_pos := by norm_num
  decode_pos := by norm_num
  batch_pos := by decide
  chunk_pos := by decide
  quantum_pos := by decide
  efficiency_ne := by decide
  efficiency_pos := by simp
  launch_nonneg := by simp
  curves_sorted := by simp
  curves_pos := by simp

def singleReplay (outputTokens : ℕ) : Option (Except Raised Simulation) :=
  replayWorkload id Dict.sorted unitService emptyInput emptyDemand emptyPlan (singleWorkload outputTokens) 3

/-- Whether a simulation returns in a state with a property. -/
def returns (P : Simulation → Prop) [DecidablePred P] : Option (Except Raised Simulation) → Bool
  | some (.ok s) => P s
  | _ => false

theorem returns_iff {P : Simulation → Prop} [DecidablePred P] {x : Option (Except Raised Simulation)} :
    returns P x = true ↔ ∃ s, x = some (.ok s) ∧ P s := by
  match x with
  | none => simp [returns]
  | some (.error e) => simp [returns]
  | some (.ok s) => simp [returns]

/-- A request that completes in a later iteration than the one that admits it is covered. -/
theorem later_peak_reported : ∃ s, singleReplay 1 = some (.ok s) ∧
    PeakReported id emptyInput emptyPlan (singleWorkload 1) s := by
  have hreturns : returns (fun s => s.gauge.Covered) (singleReplay 1) = true := by decide +kernel
  obtain ⟨s,hs,hcovered⟩ := returns_iff.mp hreturns
  exact ⟨s,hs,peak_reported id Dict.sorted unitService emptyInput emptyDemand emptyPlan
    (singleWorkload 1) 3 s hs hcovered⟩

/-- A request that completes in the iteration that admits it is missed. -/
theorem immediate_peak_missed : ∃ s, singleReplay 0 = some (.ok s) ∧
    ¬ PeakReported id emptyInput emptyPlan (singleWorkload 0) s := by
  have hreturns : returns (fun s => s.hbmPeak < 90 ∧ 90 ∈ s.moves.map (·.after)) (singleReplay 0) = true := by
    decide +kernel
  obtain ⟨s,hs,hpeak,hmove⟩ := returns_iff.mp hreturns
  refine ⟨s,hs,fun h => hpeak.not_ge ?_⟩
  obtain ⟨m,hm,hafter⟩ := List.mem_map.mp hmove
  exact h.greatest.2 (.inr ⟨m,hm,hafter.symm⟩)

end BeliefKV.QueueService
