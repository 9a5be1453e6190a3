import BeliefKV.Timeline.Order

/-! What the timeline says of its transfers, and the peak of the HBM on it. -/
namespace BeliefKV.CandidateTimeline

/-! ## The peak of a list of events -/

def growthOf (events : List HbmEvent) : ℤ :=
  (events.map fun e => match e.source with
    | .batch _ => e.deltaBytes
    | .transfer _ => 0).sum

def transfersOf (events : List HbmEvent) : ℤ :=
  (events.map fun e => match e.source with
    | .batch _ => 0
    | .transfer _ => e.deltaBytes).sum

/-- The bytes that are committed after some events. -/
def commitment (plan : CandidatePhysicalPlan) (growth transfers : ℤ) : ℤ :=
  (plan.initialHbmUsedBytes + plan.initialHbmReservedBytes : ℕ) + transfers +
    max 0 (growth - plan.modeledGrowthReservationBytes)

section Peak
variable {plan : CandidatePhysicalPlan}

/-- An event is counted and the peak raised; where the pressure begins does not matter for that. -/
theorem add_frame (plan : CandidatePhysicalPlan) (l : HbmLedger) (e : HbmEvent) : ∃ offset deficit, l.add plan e =
    { l.count e with
      peakBytes := max (l.count e).peakBytes ((l.count e).current plan)
      firstPressureOffsetMs := offset
      firstPressureDeficitBytes := deficit } := by
  simp only [HbmLedger.add]
  split_ifs
  · exact ⟨_,_,rfl⟩
  · exact ⟨_,_,rfl⟩

theorem add_growths (plan : CandidatePhysicalPlan) (l : HbmLedger) (e : HbmEvent) :
    (l.add plan e).cumulativeGrowth = l.cumulativeGrowth + growthOf [e] ∧
      (l.add plan e).transferGrowth = l.transferGrowth + transfersOf [e] := by
  obtain ⟨offset,deficit,heq⟩ := add_frame plan l e
  rw [heq]
  unfold HbmLedger.count growthOf transfersOf
  cases hsource : e.source with
  | batch id => simp [hsource]
  | transfer id => simp [hsource]

theorem add_peak (l : HbmLedger) (e : HbmEvent) :
    l.peakBytes ≤ (l.add plan e).peakBytes ∧ (l.add plan e).current plan ≤ (l.add plan e).peakBytes := by
  have hcount : (l.count e).peakBytes = l.peakBytes := by
    unfold HbmLedger.count
    cases e.source with
    | batch id => rfl
    | transfer id => rfl
  obtain ⟨offset,deficit,heq⟩ := add_frame plan l e
  rw [heq,← hcount]
  exact ⟨le_max_left _ _,le_max_right _ _⟩

theorem foldl_peak_le (events : List HbmEvent) : ∀ l : HbmLedger,
    l.peakBytes ≤ (events.foldl (HbmLedger.add plan) l).peakBytes := by
  induction events with
  | nil => exact fun _ => le_rfl
  | cons e events ih => exact fun l => (add_peak l e).1.trans (ih _)

/-- The ledger after some events counts them, and its peak covers what they commit. -/
theorem foldl_ledger (events : List HbmEvent) : ∀ l : HbmLedger, l.current plan ≤ l.peakBytes →
    (events.foldl (HbmLedger.add plan) l).cumulativeGrowth = l.cumulativeGrowth + growthOf events ∧
      (events.foldl (HbmLedger.add plan) l).transferGrowth = l.transferGrowth + transfersOf events ∧
      (events.foldl (HbmLedger.add plan) l).current plan ≤ (events.foldl (HbmLedger.add plan) l).peakBytes := by
  induction events with
  | nil =>
    intro l hpeak
    simp [growthOf,transfersOf,hpeak]
  | cons e events ih =>
    intro l hpeak
    obtain ⟨hgrowth,htransfers,hlast⟩ := ih (l.add plan e) (add_peak l e).2
    obtain ⟨hone,hother⟩ := add_growths plan l e
    refine ⟨?_,?_,hlast⟩
    · rw [List.foldl_cons,hgrowth,hone]
      simp only [growthOf,List.map_cons,List.map_nil,List.sum_cons,List.sum_nil]
      omega
    · rw [List.foldl_cons,htransfers,hother]
      simp only [transfersOf,List.map_cons,List.map_nil,List.sum_cons,List.sum_nil]
      omega

/-- In a sorted list the early events come first. -/
theorem early_first (T : ℚ) {events : List HbmEvent} (h : events.Pairwise fun a b => eventKey a ≤ eventKey b) :
    ∃ rest, events = events.filter (·.offsetMs ≤ T) ++ rest := by
  induction events with
  | nil => exact ⟨[],rfl⟩
  | cons e events ih =>
    obtain ⟨hfirst,hrest⟩ := List.pairwise_cons.mp h
    by_cases he : e.offsetMs ≤ T
    · obtain ⟨rest,hsplit⟩ := ih hrest
      refine ⟨rest,?_⟩
      rw [List.filter_cons_of_pos (by simpa using he),List.cons_append,← hsplit]
    · have hlate : events.filter (·.offsetMs ≤ T) = [] := by
        apply List.filter_eq_nil_iff.mpr
        intro a ha
        have hkey := (Prod.Lex.toLex_le_toLex.mp (hfirst a ha)).imp le_of_lt fun h => h.1.le
        have hle : e.offsetMs ≤ a.offsetMs := hkey.elim id id
        rw [decide_eq_true_eq]
        exact fun hT => he (hle.trans hT)
      refine ⟨e :: events,?_⟩
      rw [List.filter_cons_of_neg (by simpa using he),hlate]
      rfl

/-- The peak covers what the events up to any time commit. -/
theorem commitment_le_peak (hledger : plan.hbmCapacityBytes ≠ 0) (events : List HbmEvent) (T : ℚ) :
    commitment plan (growthOf (events.filter (·.offsetMs ≤ T))) (transfersOf (events.filter (·.offsetMs ≤ T))) ≤
      (futureHbmPeak plan events).peakBytes := by
  unfold futureHbmPeak
  rw [if_neg hledger]
  have hsorted : (sortedEvents events).Pairwise fun a b => eventKey a ≤ eventKey b := by
    have htrans : ∀ a b c : HbmEvent, decide (eventKey a ≤ eventKey b) = true →
        decide (eventKey b ≤ eventKey c) = true → decide (eventKey a ≤ eventKey c) = true := by
      intro a b c hab hbc
      exact decide_eq_true ((of_decide_eq_true hab).trans (of_decide_eq_true hbc))
    have htotal : ∀ a b : HbmEvent, (decide (eventKey a ≤ eventKey b) || decide (eventKey b ≤ eventKey a)) = true := by
      intro a b
      simpa using le_total (eventKey a) (eventKey b)
    exact (List.pairwise_mergeSort htrans htotal events).imp fun h => of_decide_eq_true h
  have hperm : ((sortedEvents events).filter (·.offsetMs ≤ T)).Perm (events.filter (·.offsetMs ≤ T)) :=
    (List.mergeSort_perm _ _).filter _
  have hgrowth : growthOf ((sortedEvents events).filter (·.offsetMs ≤ T)) =
      growthOf (events.filter (·.offsetMs ≤ T)) := (hperm.map _).sum_eq
  have htransfers : transfersOf ((sortedEvents events).filter (·.offsetMs ≤ T)) =
      transfersOf (events.filter (·.offsetMs ≤ T)) := (hperm.map _).sum_eq
  obtain ⟨rest,hsplit⟩ := early_first T hsorted
  rw [hsplit,List.foldl_append,← hgrowth,← htransfers]
  set start : HbmLedger := { peakBytes := (plan.initialHbmUsedBytes + plan.initialHbmReservedBytes : ℕ) }
    with hstart
  have hcurrent : start.current plan ≤ start.peakBytes := by
    simp [HbmLedger.current,hstart]
  obtain ⟨hg,ht,hpeak⟩ := foldl_ledger ((sortedEvents events).filter (·.offsetMs ≤ T)) start hcurrent
  refine le_trans (le_of_eq ?_) (hpeak.trans (foldl_peak_le rest _))
  unfold HbmLedger.current
  rw [hg,ht]
  simp [commitment,hstart]

end Peak

/-! ## The events of the timeline -/

section Report
variable (plan : CandidatePhysicalPlan) (quanta : List TimedServiceQuantum) (transfers : Dict String ℚ) (T : ℚ)

/-- The growth of the batches that are completed by a time. -/
def completedGrowth : ℤ :=
  ((quanta.filter (·.completionOffsetMs ≤ T)).map fun q =>
    (plan.batch? q.batchId).elim 0 (batchGrowthBytes plan)).sum

/-- What a transfer has changed by a time. -/
def transferredBy (x : ScheduledTransfer) : ℤ :=
  match transfers[x.transferId]? with
  | some offset => if offset ≤ T then x.hbmDeltaBytesOnCompletion else 0
  | none => 0

/-- The bytes that are committed at a time of a timeline. -/
def committedAt : ℤ :=
  commitment plan (completedGrowth plan quanta T) ((plan.transfers.map (transferredBy transfers T)).sum)

end Report

section Books
variable {fl : ℚ → ℚ} {model : GPUServiceModel} {scenario : DemandScenario} {plan : CandidatePhysicalPlan}

/-- The events are those of the quanta and of the completed transfers. -/
structure Booked (plan : CandidatePhysicalPlan) (t : Timeline) : Prop where
  growth : plan.kvBytesPerToken ≠ 0 → ∀ T, growthOf (t.hbmEvents.filter (·.offsetMs ≤ T)) =
    completedGrowth plan t.serviceQuanta T
  transfers : ∀ T, transfersOf (t.hbmEvents.filter (·.offsetMs ≤ T)) =
    (plan.transfers.map (transferredBy t.transferCompletion T)).sum

theorem growthOf_append (l m : List HbmEvent) : growthOf (l ++ m) = growthOf l + growthOf m := by
  simp [growthOf]

theorem transfersOf_append (l m : List HbmEvent) : transfersOf (l ++ m) = transfersOf l + transfersOf m := by
  simp [transfersOf]

/-- A sum over a list with unique keys in which one member changes. -/
theorem sum_map_changed {A : Type} {l : List A} {key : A → String} {f g : A → ℤ} (h : (l.map key).Nodup) {a : A}
    (ha : a ∈ l) (hsame : ∀ b ∈ l, key b ≠ key a → g b = f b) :
    (l.map g).sum = (l.map f).sum + (g a - f a) := by
  induction l with
  | nil => cases ha
  | cons b l ih =>
    rw [List.map_cons,List.nodup_cons] at h
    rw [List.map_cons,List.map_cons,List.sum_cons,List.sum_cons]
    obtain rfl | hrest := List.mem_cons.mp ha
    · have hkept : l.map g = l.map f := by
        apply List.map_congr_left
        intro c hc
        apply hsame c (List.mem_cons_of_mem a hc)
        intro hkey
        exact h.1 (hkey ▸ List.mem_map_of_mem hc)
      rw [hkept]
      omega
    · have hb : g b = f b := by
        apply hsame b List.mem_cons_self
        intro hkey
        exact h.1 (hkey ▸ List.mem_map_of_mem hrest)
      rw [ih h.2 hrest fun c hc => hsame c (List.mem_cons_of_mem b hc),hb]
      omega

theorem transferredBy_insert {transfers : Dict String ℚ} {x y : ScheduledTransfer} {offset T : ℚ} :
    transferredBy (transfers.insert x.transferId offset) T y =
      if x.transferId = y.transferId then (if offset ≤ T then y.hbmDeltaBytesOnCompletion else 0)
      else transferredBy transfers T y := by
  unfold transferredBy
  rw [Dict.get_insert]
  by_cases heq : x.transferId = y.transferId
  · rw [if_pos heq,if_pos heq]
  · rw [if_neg heq,if_neg heq]

theorem booked_transferred {t : Timeline} (h : Booked plan t) {x : ScheduledTransfer} {waits : List ℚ}
    (hx : x ∈ plan.transfers) (hnew : x.transferId ∉ t.transferCompletion) :
    Booked plan (t.transferred fl x waits) := by
  set offset := fl (t.transferStart x waits + x.durationMs fl) with hoffset
  have hevents : ∀ T, ∃ added : List HbmEvent, growthOf added = 0 ∧
      transfersOf added = (if offset ≤ T then x.hbmDeltaBytesOnCompletion else 0) ∧
      (t.transferred fl x waits).hbmEvents.filter (·.offsetMs ≤ T) = t.hbmEvents.filter (·.offsetMs ≤ T) ++ added := by
    intro T
    unfold Timeline.transferred
    by_cases hdelta : x.hbmDeltaBytesOnCompletion ≠ 0
    · refine ⟨[⟨offset,x.hbmDeltaBytesOnCompletion,.transfer x.transferId⟩].filter (·.offsetMs ≤ T),?_,?_,?_⟩
      · by_cases hearly : offset ≤ T <;> simp [growthOf,hearly]
      · by_cases hearly : offset ≤ T <;> simp [transfersOf,hearly]
      · simp only [if_pos hdelta,List.filter_append,← hoffset]
    · refine ⟨[],rfl,?_,?_⟩
      · rw [not_not.mp hdelta]
        simp [transfersOf]
      · simp only [if_neg hdelta,List.append_nil]
  refine ⟨fun hkv T => ?_,fun T => ?_⟩
  · obtain ⟨added,hgrowth,-,heq⟩ := hevents T
    rw [heq,growthOf_append,hgrowth,add_zero]
    exact h.growth hkv T
  · obtain ⟨added,-,htransfers,heq⟩ := hevents T
    have hnone : transferredBy t.transferCompletion T x = 0 := by
      unfold transferredBy
      rw [(Dict.notMem_iff_get _ _).mp hnew]
    have hchanged := sum_map_changed (f := transferredBy t.transferCompletion T)
      (g := transferredBy (t.transferCompletion.insert x.transferId offset) T) plan.transfers_unique hx
      fun y _ hkey => by rw [transferredBy_insert,if_neg (Ne.symm hkey)]
    rw [transferredBy_insert,if_pos rfl,hnone,sub_zero] at hchanged
    rw [heq,transfersOf_append,htransfers,h.transfers T]
    exact hchanged.symm

theorem booked_executed {t : Timeline} (h : Booked plan t) {b : ScheduledBatchQuantum} (hb : b ∈ plan.batches)
    (estimate : GPUServiceEstimate) : Booked plan (t.executed fl scenario plan b estimate) := by
  set offset := fl (t.batchStart scenario b + estimate.elapsedMs) with hoffset
  refine ⟨fun hkv T => ?_,fun T => ?_⟩
  · have hgrowth := h.growth hkv T
    have hbatch : plan.batch? b.batchId = some b := batch?_eq_some.mpr ⟨hb,rfl⟩
    unfold Timeline.executed completedGrowth
    simp only [if_pos hkv,List.filter_append,← hoffset,growthOf_append,List.map_append,List.sum_append]
    rw [hgrowth]
    by_cases hearly : offset ≤ T <;> simp [growthOf,completedGrowth,hearly,hbatch]
  · have htransfers := h.transfers T
    unfold Timeline.executed
    by_cases hkv : plan.kvBytesPerToken ≠ 0
    · simp only [if_pos hkv,List.filter_append,← hoffset,transfersOf_append]
      rw [htransfers]
      by_cases hearly : offset ≤ T <;> simp [transfersOf,hearly]
    · simp only [if_neg hkv]
      exact htransfers

theorem Step.booked {t u : Timeline} (h : Step fl model scenario plan t u) (hbooked : Booked plan t) :
    Booked plan u := by
  cases h with
  | release => exact ⟨hbooked.growth,hbooked.transfers⟩
  | zero => exact ⟨hbooked.growth,hbooked.transfers⟩
  | transfer hx hnew hwaits => exact booked_transferred hbooked hx hnew
  | execute hb => exact booked_executed hbooked hb _
  | consume phase r =>
    obtain ⟨_,_,heq⟩ := consume_frame t phase r
    rw [heq]
    exact ⟨hbooked.growth,hbooked.transfers⟩
  | meet => exact ⟨hbooked.growth,hbooked.transfers⟩
  | finish => exact ⟨hbooked.growth,hbooked.transfers⟩
  | fail => exact ⟨hbooked.growth,hbooked.transfers⟩

theorem External.booked {t : Timeline} (h : External fl scenario plan t) : Booked plan t := by
  refine ⟨fun _ T => ?_,fun T => ?_⟩
  · rw [h.events,h.quanta]
    rfl
  · have hnone : ∀ x ∈ plan.transfers, transferredBy t.transferCompletion T x = 0 := by
      intro x _
      unfold transferredBy
      rw [h.transfers,Std.ExtTreeMap.getElem?_empty]
    rw [h.events,List.map_congr_left hnone]
    simp [transfersOf]

end Books

/-! ## The report -/

/-- The reported completion of an invocation. -/
def TimedScenario.completionOf (r : TimedScenario) (id : String) : Option ℚ :=
  (r.invocationOutcomes.find? (·.invocationId = id)).bind (·.completionOffsetMs)

section Reported
variable {fl : ℚ → ℚ} {model : GPUServiceModel} {scenario : DemandScenario} {plan : CandidatePhysicalPlan}

/-- Only invocations of the scenario are completed. -/
def Assigned (scenario : DemandScenario) (t : Timeline) : Prop :=
  ∀ id ∈ t.completion, id ∈ scenario.outcomes.map (·.invocationId)

theorem mem_ids_of_mode {id : String} (h : modeOf scenario id ≠ none) :
    id ∈ scenario.outcomes.map (·.invocationId) := by
  obtain ⟨mode,hmode⟩ := Option.ne_none_iff_exists'.mp h
  obtain ⟨o,ho,rfl,-⟩ := modeOf_eq_some.mp hmode
  exact List.mem_map_of_mem ho

theorem Step.assigned (hknown : ∀ d ∈ plan.invocationDemands, modeOf scenario d.invocationId ≠ none)
    {t u : Timeline} (h : Step fl model scenario plan t u) (hassigned : Assigned scenario t) :
    Assigned scenario u := by
  intro id hid
  cases h with
  | release => exact hassigned id hid
  | @zero d hd =>
    obtain rfl | hold := (Dict.mem_insert_iff _ _ _ _).mp hid
    · exact mem_ids_of_mode (hknown d hd)
    · exact hassigned id hold
  | transfer => exact hassigned id hid
  | execute => exact hassigned id hid
  | consume phase r =>
    obtain ⟨_,_,heq⟩ := consume_frame t phase r
    rw [heq] at hid
    exact hassigned id hid
  | @meet d q hd =>
    obtain rfl | hold := (Dict.mem_insert_iff _ _ _ _).mp hid
    · exact mem_ids_of_mode (hknown d hd)
    · exact hassigned id hold
  | @finish o offset ho =>
    obtain rfl | hold := (Dict.mem_insert_iff _ _ _ _).mp hid
    · exact List.mem_map_of_mem ho
    · exact hassigned id hold
  | fail => exact hassigned id hid

theorem External.assigned {t : Timeline} (h : External fl scenario plan t) : Assigned scenario t := by
  intro id hid
  obtain ⟨c,hc⟩ := (Dict.mem_iff_get _ _).mp hid
  obtain ⟨-,o,ho,rfl,-⟩ := h.completions hc
  exact List.mem_map_of_mem ho

theorem find_mapped {g : String → Option ℚ} {f : String → String} (ids : List String) (id : String) :
    (ids.map fun i => (⟨i,g i,f i⟩ : TimedInvocationOutcome)).find? (·.invocationId = id) =
      if id ∈ ids then some ⟨id,g id,f id⟩ else none := by
  induction ids with
  | nil => rfl
  | cons i ids ih =>
    rw [List.map_cons,List.find?_cons]
    by_cases heq : i = id
    · simp [heq]
    · have hne : id ≠ i := Ne.symm heq
      simp [heq,ih,hne]

/-- What is reported is what the evaluation has found. -/
theorem evaluate_spec {r : TimedScenario} (h : evaluate fl model scenario plan = .ok r) :
    ∃ t, finalTimeline fl model scenario plan = .ok t ∧ r = report fl scenario plan t ∧
      ∀ id, r.completionOf id = t.completionOf id := by
  obtain ⟨t,ht,h⟩ := bind_eq_ok.mp h
  cases h
  refine ⟨t,ht,rfl,fun id => ?_⟩
  have hassigned : Assigned scenario t := by
    obtain ⟨u,hu,-⟩ := bind_eq_ok.mp ht
    have hknown : ∀ d ∈ plan.invocationDemands, modeOf scenario d.invocationId ≠ none := by
      intro d hd hnone
      have hmem := List.filter_eq_nil_iff.mp (ensure_eq_ok.mp hu) d.invocationId (List.mem_map_of_mem hd)
      exact hmem (Option.isNone_iff_eq_none.mpr hnone)
    exact finalTimeline_invariant (fun hstep => hstep.assigned hknown) (fun _ h => h.assigned) ht
  unfold TimedScenario.completionOf report
  simp only [find_mapped,List.mem_mergeSort]
  split_ifs with hid
  · rfl
  · exact (not_completed fun hmem => hid (hassigned id hmem)).symm

theorem independent_scheduled {x : ScheduledTransfer} (hx : x ∈ plan.transfers) (hfree : x.Independent)
    (t : Timeline) : x.transferId ∈ (scheduleTransfer fl plan t x.transferId).transferCompletion := by
  unfold scheduleTransfer
  split_ifs with hknown
  · exact hknown
  · rw [transfer?_eq_some.mpr ⟨hx,rfl⟩]
    have hwaits : t.waits x = some [] := by
      unfold Timeline.waits
      rw [hfree.1,hfree.2]
      rfl
    simp only [hwaits]
    exact (Dict.mem_insert_iff _ _ _ _).mpr (.inl rfl)

/-- Every independent transfer is scheduled at the start. -/
theorem startTimeline_scheduled {x : ScheduledTransfer} (hx : x ∈ plan.transfers) (hfree : x.Independent) :
    x.transferId ∈ (startTimeline fl scenario plan).transferCompletion := by
  have hfold : ∀ l : List ScheduledTransfer, x ∈ l → ∀ t : Timeline,
      x.transferId ∈ (l.foldl (fun t x => scheduleTransfer fl plan t x.transferId) t).transferCompletion := by
    intro l
    induction l with
    | nil => exact fun h => absurd h List.not_mem_nil
    | cons y l ih =>
      intro hmem t
      obtain rfl | hrest := List.mem_cons.mp hmem
      · have hsteps : Steps fl (fun _ => none) scenario plan (scheduleTransfer fl plan t x.transferId)
            (l.foldl (fun t x => scheduleTransfer fl plan t x.transferId) (scheduleTransfer fl plan t x.transferId)) :=
          foldl_steps (fun y _ t => scheduleTransfer_steps y.transferId t) _
        obtain ⟨c,hc⟩ := (Dict.mem_iff_get _ _).mp (independent_scheduled hx hfree t)
        exact (Dict.mem_iff_get _ _).mpr ⟨c,hsteps.kept.transfers hc⟩
      · exact ih hrest _
  exact hfold _ (List.mem_filter.mpr ⟨hx,decide_eq_true hfree⟩) _

end Reported

/-- What a report says of the transfers and of the HBM. -/
structure Accounts (plan : CandidatePhysicalPlan) (r : TimedScenario) : Prop where
  independent : ∀ x ∈ plan.transfers, x.Independent → x.transferId ∈ r.transferCompletionOffsetsMs
  awaited : ∀ q ∈ r.serviceQuanta, ∀ b ∈ plan.batches, b.batchId = q.batchId →
    ∀ id ∈ b.readyAfterTransferIds, ∃ c, r.transferCompletionOffsetsMs[id]? = some c ∧ c ≤ q.startOffsetMs
  starts : ∀ x ∈ plan.transfers, ∀ c, r.transferCompletionOffsetsMs[x.transferId]? = some c →
    x.startOffsetMs ≤ c
  releases : ∀ x ∈ plan.transfers, ∀ c, r.transferCompletionOffsetsMs[x.transferId]? = some c →
    ∀ id ∈ x.readyAfterDependencyReleaseIds, ∃ v, r.dependencyReleaseOffsetsMs[id]? = some v ∧ v ≤ c
  invocations : ServedOnce plan → ∀ x ∈ plan.transfers, ∀ c,
    r.transferCompletionOffsetsMs[x.transferId]? = some c →
      ∀ id ∈ x.readyAfterInvocationIds, ∃ v, r.completionOf id = some v ∧ v ≤ c
  peak : plan.hbmCapacityBytes ≠ 0 → ∀ T,
    committedAt plan r.serviceQuanta r.transferCompletionOffsetsMs T ≤ r.futureHbmPeakBytes
  feasible : plan.hbmCapacityBytes ≠ 0 → r.futureHbmFeasible = true → ∀ T,
    committedAt plan r.serviceQuanta r.transferCompletionOffsetsMs T ≤ plan.hbmCapacityBytes

/-- Every report accounts for the transfers that it schedules. -/
theorem timeline_accounts (fl : ℚ → ℚ) (hfl : Rounding fl) (model : GPUServiceModel) (scenario : DemandScenario)
    (plan : CandidatePhysicalPlan) (hplan : plan.Representable fl) (r : TimedScenario)
    (h : evaluate fl model scenario plan = .ok r) : Accounts plan r := by
  obtain ⟨t,ht,rfl,hcompletion⟩ := evaluate_spec h
  have hafter : AfterWaits scenario plan t :=
    finalTimeline_keeps hfl (fun hstep => hstep.afterWaits hfl hplan) (fun _ h => h.afterWaits) ht
  have hserial : Serial scenario plan t :=
    finalTimeline_keeps hfl (fun hstep => hstep.serial hfl hplan) (fun _ h => h.serial) ht
  have hbooked : Booked plan t := finalTimeline_invariant (fun hstep => hstep.booked) (fun _ h => h.booked) ht
  have hpeak : plan.hbmCapacityBytes ≠ 0 → ∀ T, committedAt plan t.serviceQuanta t.transferCompletion T ≤
      (futureHbmPeak plan t.hbmEvents).peakBytes := by
    intro hledger T
    have hkv : plan.kvBytesPerToken ≠ 0 := fun hzero => hledger (plan.ledger.mpr hzero)
    have hle := commitment_le_peak hledger t.hbmEvents T
    rwa [hbooked.growth hkv T,hbooked.transfers T] at hle
  refine ⟨fun x hx hfree => ?_,fun q hq b hb hid id hawaited => ?_,hafter.starts,hafter.releases,?_,hpeak,?_⟩
  · have hscheduled : x.transferId ∈ (startTimeline fl scenario plan).transferCompletion :=
      startTimeline_scheduled hx hfree
    obtain ⟨c,hc⟩ := (Dict.mem_iff_get _ _).mp hscheduled
    exact (Dict.mem_iff_get _ _).mpr ⟨c,(finalTimeline_steps ht).kept.transfers hc⟩
  · obtain ⟨a,hcaused⟩ := hserial.caused q hq
    obtain rfl := List.inj_on_of_nodup_map plan.batches_unique hcaused.known hb (hcaused.named.trans hid.symm)
    exact hcaused.transfers id hawaited
  · intro honce x hx c hc id hid
    rw [hcompletion]
    exact (hafter.invocations honce).2 x hx c hc id hid
  · intro hledger hfeasible T
    have hfits : overflowBytes plan (futureHbmPeak plan t.hbmEvents).peakBytes = 0 := of_decide_eq_true hfeasible
    have hle := hpeak hledger T
    unfold overflowBytes at hfits
    rw [if_neg hledger] at hfits
    change committedAt plan t.serviceQuanta t.transferCompletion T ≤ _
    omega

/-! ## A transfer after a tool -/

/-- A tool that runs for a while, and an invocation on the GPU. -/
def toolOutcome : FrontierDemandOutcome where
  invocationId := "tool"
  dependencyMode := .external
  residualDelaysMs := [5]
  dependencyInvocationIds := []
  joinId := none
  named := by decide
  delays_nonneg := by simp
  dependencies_sorted := List.Pairwise.nil
  dependencies_peers := by simp
  members := by simp
  delayed := by simp

def toolScenario : DemandScenario where
  scenarioId := "scenario"
  outcomes := [toolOutcome]
  assigned := List.cons_ne_nil _ _
  outcomes_unique := List.nodup_singleton _

/-- A copy that waits for some invocations and releases. -/
def copyTransfer (name : String) (h : name ≠ "") (deltaBytes : ℤ) (after released : List String) :
    ScheduledTransfer where
  transferId := name
  startOffsetMs := 0
  completionOffsetMs := 2
  pcieBusyMs := 2
  hbmDeltaBytesOnCompletion := deltaBytes
  readyAfterInvocationIds := after
  readyAfterDependencyReleaseIds := released
  named := h
  start_nonneg := by norm_num
  busy_nonneg := by norm_num
  start_le := by norm_num

theorem ungrown : (0 : ℕ) ≤ 0 := le_rfl

/-- A plan that only copies, with a ledger of the HBM or without one. -/
def copyPlan (after : List String) (ledger : Bool) : CandidatePhysicalPlan where
  packageId := "package"
  physicalSnapshotId := "snapshot"
  invocationDemands := []
  batches := []
  transfers := [copyTransfer "copy" (by decide) 60 after []]
  hbmCapacityBytes := if ledger then 50 else 0
  initialHbmUsedBytes := 10
  kvBytesPerToken := if ledger then 1 else 0
  demands_unique := List.nodup_nil
  batches_unique := List.nodup_nil
  transfers_unique := List.nodup_singleton _
  ledger := by cases ledger <;> simp
  committed_le := by cases ledger <;> simp
  growth_le := ungrown
  transfers_known := by simp

def noService : GPUServiceModel := fun _ => none

/-- Whether an evaluation reports something. -/
def reports (P : TimedScenario → Prop) [DecidablePred P] : Except Raised TimedScenario → Bool
  | .ok r => P r
  | .error _ => false

theorem reports_iff {P : TimedScenario → Prop} [DecidablePred P] {x : Except Raised TimedScenario} :
    reports P x = true ↔ ∃ r, x = .ok r ∧ P r := by
  cases x with
  | error e => simp [reports]
  | ok r => simp [reports]

theorem undelayed : ∀ d ∈ ([] : List ℚ), 0 ≤ d := by
  simp

theorem unpeered : ([] : List String).Pairwise (· < ·) := List.Pairwise.nil

theorem forward_named : "forward" ≠ "" := by decide

theorem forward_1_named : "forward-1" ≠ "" := by decide

/-- An invocation that waits for nothing. -/
def gpuOutcome : FrontierDemandOutcome where
  invocationId := "forward"
  dependencyMode := .none
  residualDelaysMs := []
  dependencyInvocationIds := []
  joinId := none
  named := forward_named
  delays_nonneg := undelayed
  dependencies_sorted := unpeered
  dependencies_peers := by simp
  members := by simp
  delayed := by simp

def restoreScenario : DemandScenario where
  scenarioId := "scenario"
  outcomes := [gpuOutcome,toolOutcome]
  assigned := List.cons_ne_nil _ _
  outcomes_unique := by
    change ["forward","tool"].Nodup
    decide

theorem unstarted : (0 : ℚ) ≤ 0 := le_rfl

/-- A batch that decodes one token after some transfers. -/
def gpuBatch (name : String) (h : name ≠ "") (transfers : List String) : ScheduledBatchQuantum where
  batchId := name
  phase := .decode
  requests := [{ invocationId := "forward", tokenDelta := 1, sequenceTokensBefore := 0, named := forward_named }]
  readyAfterTransferIds := transfers
  named := h
  composed := List.cons_ne_nil _ _
  requests_unique := List.nodup_singleton _
  submitted := nofun
  start_nonneg := unstarted

/-- Two independent copies, and one after the tool for which the batch waits. -/
def restorePlan : CandidatePhysicalPlan where
  packageId := "package"
  physicalSnapshotId := "snapshot"
  invocationDemands := [{ invocationId := "forward", uncachedPrefillTokens := 0, remainingDecodeTokens := 1, named := forward_named }]
  batches := [gpuBatch "forward-1" forward_1_named ["copy","restore"]]
  transfers := [copyTransfer "copy" (by decide) 60 [] [],copyTransfer "evict" (by decide) (-30) [] [],
    copyTransfer "restore" (by decide) 20 ["tool"] ["tool"]]
  hbmCapacityBytes := 100
  initialHbmUsedBytes := 10
  kvBytesPerToken := 1
  demands_unique := List.nodup_singleton _
  batches_unique := List.nodup_singleton _
  transfers_unique := by
    change ["copy","evict","restore"].Nodup
    decide
  ledger := by simp
  committed_le := by simp
  growth_le := ungrown
  transfers_known := by
    intro b hb id hid
    obtain rfl := List.mem_singleton.mp hb
    revert hid
    change id ∈ ["copy","restore"] → id ∈ ["copy","evict","restore"]
    simp only [List.mem_cons]
    tauto

def evenService : GPUServiceModel := fun _ => some ⟨4,"fitted",Nat.cast_nonneg 4⟩

/-- Whether an evaluation ends with something. -/
def ends (P : Timeline → Prop) [DecidablePred P] : Except Raised Timeline → Bool
  | .ok t => P t
  | .error _ => false

theorem ends_reports {P : Timeline → Prop} [DecidablePred P] {model : GPUServiceModel} {scenario : DemandScenario}
    {plan : CandidatePhysicalPlan} (h : ends P (finalTimeline fl model scenario plan) = true) :
    ∃ t, evaluate fl model scenario plan = .ok (report fl scenario plan t) ∧
      (report fl scenario plan t).completionOf = t.completionOf ∧ P t := by
  cases ht : finalTimeline fl model scenario plan with
  | error e =>
    rw [ht] at h
    cases h
  | ok t =>
    rw [ht] at h
    have hreport : evaluate fl model scenario plan = .ok (report fl scenario plan t) := by
      unfold evaluate
      rw [ht]
      rfl
    obtain ⟨u,hu,-,hcompletion⟩ := evaluate_spec hreport
    rw [ht] at hu
    cases hu
    exact ⟨t,hreport,funext hcompletion,of_decide_eq_true h⟩

/-- Events in their order are gone through as they are. -/
theorem futureHbmPeak_of_sorted {plan : CandidatePhysicalPlan} (hledger : plan.hbmCapacityBytes ≠ 0)
    {events : List HbmEvent} (h : events.Pairwise fun a b => eventKey a ≤ eventKey b) :
    futureHbmPeak plan events = events.foldl (HbmLedger.add plan)
      { peakBytes := (plan.initialHbmUsedBytes + plan.initialHbmReservedBytes : ℕ) } := by
  unfold futureHbmPeak sortedEvents
  rw [if_neg hledger,List.mergeSort_of_pairwise (by simpa using h)]

/-- Three copies follow each other on the link, and the batch waits for the last one. -/
theorem copy_accounted : ∃ r, evaluate id evenService restoreScenario restorePlan = .ok r ∧
    Accounts restorePlan r ∧ r.transferCompletionOffsetsMs["evict"]? = some 4 ∧
    r.transferCompletionOffsetsMs["restore"]? = some 7 ∧ r.completionOf "forward" = some 11 ∧
    r.futureHbmPeakBytes = 70 := by
  have hends : ends (fun t => (t.transferCompletion["evict"]? = some 4 ∧ t.transferCompletion["restore"]? = some 7 ∧
      t.completionOf "forward" = some 11) ∧ (t.hbmEvents.Pairwise fun a b => eventKey a ≤ eventKey b) ∧
      (t.hbmEvents.foldl (HbmLedger.add restorePlan) { peakBytes := 10 }).peakBytes = 70)
      (finalTimeline id evenService restoreScenario restorePlan) = true := by decide +kernel
  obtain ⟨t,hreport,hcompletion,⟨hevict,hrestore,hforward⟩,hsorted,hpeak⟩ := ends_reports hends
  refine ⟨_,hreport,timeline_accounts id rounding_id evenService restoreScenario restorePlan
    ⟨fun _ _ => rfl,fun _ _ => rfl⟩ _ hreport,hevict,hrestore,?_,?_⟩
  · rw [hcompletion]
    exact hforward
  · change (futureHbmPeak restorePlan t.hbmEvents).peakBytes = 70
    rw [futureHbmPeak_of_sorted (by decide) hsorted]
    exact hpeak

/-- A copy after the tool is forgotten, as no batch waits for it. Without a ledger the peak is zero. -/
theorem copy_forgotten : (∃ r, evaluate id noService toolScenario (copyPlan ["tool"] true) = .ok r ∧
    r.completionOf "tool" = some 5 ∧ "copy" ∉ r.transferCompletionOffsetsMs ∧ r.futureHbmFeasible = true) ∧
    ∃ r, evaluate id noService toolScenario (copyPlan [] false) = .ok r ∧ r.futureHbmPeakBytes < 10 := by
  have hforgotten : reports (fun r => r.completionOf "tool" = some 5 ∧ "copy" ∉ r.transferCompletionOffsetsMs ∧
      r.futureHbmFeasible = true) (evaluate id noService toolScenario (copyPlan ["tool"] true)) = true := by
    decide +kernel
  have hzero : reports (fun r => r.futureHbmPeakBytes < 10)
      (evaluate id noService toolScenario (copyPlan [] false)) = true := by decide +kernel
  exact ⟨reports_iff.mp hforgotten,reports_iff.mp hzero⟩

end BeliefKV.CandidateTimeline
