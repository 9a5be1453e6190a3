import BeliefKV.Lib.Load
import BeliefKV.WhatIf.Choice
import BeliefKV.WhatIf.Replay

/-! When the resimulator agrees with the packer about a plan. -/
namespace BeliefKV

theorem bind_of_ok {α β : Type} {x : Except Raised α} {a : α} {f : α → Except Raised β}
    (h : x = .ok a) : (x >>= f) = f a := by
  rw [h]
  rfl

/-! ## Transfers -/

section Transfers
variable (input : PolicyInput)

/-- The copy to the host of an action. -/
def d2hJob? (entry : String × ResidencyAction) : Option D2hJob :=
  (input.bundle? entry.1).bind fun b =>
    if entry.2 = .commitCpu then some ⟨entry.1,b.hostNeeded,b.marginalReclaimableBytes,true⟩
    else if entry.2 = .prepareHost then some ⟨entry.1,b.hostNeeded,0,false⟩
    else none

/-- The copy to the GPU of an action. -/
def h2dJob? (entry : String × ResidencyAction) : Option H2dJob :=
  (input.bundle? entry.1).bind fun b =>
    if entry.2 = .prefetchGpu then some ⟨entry.1,b.missingBytes⟩ else none

/-- The bytes that an action gives up at once. -/
def droppedBytes (entry : String × ResidencyAction) : ℕ :=
  if entry.2 = .drop ∨ entry.2 = .recompute then
    (input.bundle? entry.1).elim 0 (·.marginalReclaimableBytes)
  else 0

/-- An action that is carried out on a bundle as the snapshot has it. -/
structure Actionable (bundles : Dict String BundleState) (entry : String × ResidencyAction)
    (b : PhysicalBundleSnapshot) : Prop where
  snapshot : input.bundle? entry.1 = some b
  bundle : bundles[entry.1]? = some ⟨b.physicalUniqueBytes,b.gpuBytes,b.cpuBytes⟩
  actionable : entry.2 ≠ .keep → b.actionable = true
  source : entry.2 = .prefetchGpu → b.missingBytes ≤ b.cpuBytes

variable {input}

/-- One action adds its own transfers. -/
theorem act_eq_ok {t : Transfers} {entry : String × ResidencyAction} {b : PhysicalBundleSnapshot}
    (h : Actionable input t.bundles entry b)
    (hhost : (((d2hJob? input entry).elim 0 (·.transfer) : ℕ) : ℤ) ≤ t.hostFree) :
    ∃ bundles, (∀ k, k ≠ entry.1 → bundles[k]? = t.bundles[k]?) ∧ t.act input entry = .ok {
      bundles := bundles
      hbmUsed := t.hbmUsed - droppedBytes input entry
      hostFree := t.hostFree - ((d2hJob? input entry).elim 0 (·.transfer) : ℕ)
      d2hJobs := t.d2hJobs ++ (d2hJob? input entry).toList
      h2dJobs := t.h2dJobs ++ (h2dJob? input entry).toList } := by
  obtain ⟨k,action⟩ := entry
  have hneeded : ((b.gpuBytes : ℤ) - b.cpuBytes).toNat = b.hostNeeded := by
    unfold PhysicalBundleSnapshot.hostNeeded
    omega
  have hmissing : ((b.physicalUniqueBytes : ℤ) - b.gpuBytes).toNat = b.missingBytes := by
    unfold PhysicalBundleSnapshot.missingBytes
    omega
  have hact : ¬ (b.actionable = false ∧ action ≠ .keep) := by
    rintro ⟨hfalse,hne⟩
    rw [h.actionable hne] at hfalse
    cases hfalse
  have hgpu : ¬ ((b.gpuBytes : ℤ) < b.marginalReclaimableBytes) := by
    have hle := b.marginal_le
    omega
  unfold Transfers.act
  simp only [h.snapshot,h.bundle,if_neg hact]
  cases action with
  | keep => exact ⟨t.bundles,fun _ _ => rfl,by simp [droppedBytes,d2hJob?,h2dJob?,h.snapshot]⟩
  | drop =>
    refine ⟨_,?_,by simp [droppedBytes,d2hJob?,h2dJob?,h.snapshot,hgpu]; rfl⟩
    intro j hj
    rw [Dict.get_insert,if_neg (Ne.symm hj)]
  | recompute =>
    refine ⟨_,?_,by simp [droppedBytes,d2hJob?,h2dJob?,h.snapshot,hgpu]; rfl⟩
    intro j hj
    rw [Dict.get_insert,if_neg (Ne.symm hj)]
  | commitCpu =>
    refine ⟨t.bundles,fun _ _ => rfl,?_⟩
    simp only [d2hJob?,h.snapshot,Option.bind_some,if_true,Option.elim_some] at hhost
    simp [droppedBytes,d2hJob?,h2dJob?,h.snapshot,hneeded,not_lt.mpr hhost]
  | prepareHost =>
    refine ⟨t.bundles,fun _ _ => rfl,?_⟩
    simp only [d2hJob?,h.snapshot,Option.bind_some,reduceCtorEq,if_false,if_true,Option.elim_some] at hhost
    simp [droppedBytes,d2hJob?,h2dJob?,h.snapshot,hneeded,not_lt.mpr hhost]
  | prefetchGpu =>
    refine ⟨t.bundles,fun _ _ => rfl,?_⟩
    have hsource : ¬ ((b.cpuBytes : ℤ) < b.missingBytes) := by
      have hle := h.source rfl
      omega
    simp [droppedBytes,d2hJob?,h2dJob?,h.snapshot,hmissing,hsource]

/-- The copies to the host that a list of actions makes. -/
def d2hTotal (input : PolicyInput) (entries : List (String × ResidencyAction)) : ℕ :=
  ((entries.filterMap (d2hJob? input)).map (·.transfer)).sum

theorem d2hTotal_cons (entry : String × ResidencyAction) (entries : List (String × ResidencyAction)) :
    d2hTotal input (entry :: entries) =
      (d2hJob? input entry).elim 0 (·.transfer) + d2hTotal input entries := by
  unfold d2hTotal
  cases hjob : d2hJob? input entry <;> simp [hjob]

/-- Actions on different bundles add up. -/
theorem act_all {entries : List (String × ResidencyAction)} : ∀ {t : Transfers},
    (entries.map Prod.fst).Nodup → (∀ e ∈ entries, ∃ b, Actionable input t.bundles e b) →
    ((d2hTotal input entries : ℕ) : ℤ) ≤ t.hostFree →
    ∃ bundles, entries.foldlM (Transfers.act input) t = .ok {
      bundles := bundles
      hbmUsed := t.hbmUsed - (entries.map (droppedBytes input)).sum
      hostFree := t.hostFree - d2hTotal input entries
      d2hJobs := t.d2hJobs ++ entries.filterMap (d2hJob? input)
      h2dJobs := t.h2dJobs ++ entries.filterMap (h2dJob? input) } := by
  induction entries with
  | nil =>
    intro t _ _ _
    exact ⟨t.bundles,by simp [d2hTotal,pure,Except.pure]⟩
  | cons entry entries ih =>
    intro t hnodup hall hhost
    rw [List.map_cons,List.nodup_cons] at hnodup
    rw [d2hTotal_cons] at hhost
    obtain ⟨b,hb⟩ := hall entry (by simp)
    obtain ⟨bundles,hframe,hact⟩ := act_eq_ok hb (by omega)
    have hrest : ∀ e ∈ entries, ∃ b, Actionable input bundles e b := by
      intro e he
      obtain ⟨b,hb⟩ := hall e (List.mem_cons_of_mem _ he)
      have hne : e.1 ≠ entry.1 := fun heq => hnodup.1 (heq ▸ List.mem_map_of_mem he)
      exact ⟨b,hb.snapshot,(hframe _ hne).trans hb.bundle,hb.actionable,hb.source⟩
    rw [List.foldlM_cons,hact]
    obtain ⟨last,hlast⟩ := ih (t := ⟨bundles,t.hbmUsed - droppedBytes input entry,
      t.hostFree - ((d2hJob? input entry).elim 0 (·.transfer) : ℕ),_,_⟩) hnodup.2 hrest (by
        push_cast at hhost ⊢
        omega)
    refine ⟨last,hlast.trans ?_⟩
    congr 1
    have hd2h : (entry :: entries).filterMap (d2hJob? input) =
        (d2hJob? input entry).toList ++ entries.filterMap (d2hJob? input) := by
      cases hjob : d2hJob? input entry <;> simp [hjob]
    have hh2d : (entry :: entries).filterMap (h2dJob? input) =
        (h2dJob? input entry).toList ++ entries.filterMap (h2dJob? input) := by
      cases hjob : h2dJob? input entry <;> simp [hjob]
    rw [hd2h,hh2d,d2hTotal_cons]
    simp only [List.append_assoc,List.map_cons,List.sum_cons,Nat.cast_add,sub_sub]

end Transfers

/-! ## Events -/

section Events
variable {fl : ℚ → ℚ} {input : PolicyInput}

variable (fl) in
theorem transferMs_eq_ok (bytes : ℕ) {rate : ℚ} (setupMs : ℚ) (hrate : 0 < rate) :
    ∃ ms, transferMs fl bytes rate setupMs = .ok ms := by
  unfold transferMs
  split_ifs with hzero hle
  · exact ⟨_,rfl⟩
  · exact absurd hle (not_le.mpr hrate)
  · exact ⟨_,rfl⟩

/-- The events of copies to the host. -/
structure Offloads (deferred : ℤ) (jobs : List D2hJob) (events : List PhysicalEvent) : Prop where
  direction : ∀ e ∈ events, e.direction = .d2h
  gpu : (events.map (·.gpuDeltaBytes)).sum = -(((jobs.filter (·.commit)).map (·.reclaim)).sum : ℕ)
  reserved : (events.map (·.hbmReservationDeltaBytes)).sum = if jobs = [] then 0 else deferred
  still : deferred = 0 → ∀ e ∈ events, e.hbmReservationDeltaBytes = 0

variable (fl) in
theorem d2hEvents_eq_ok (hrate : 0 < input.resources.d2hServiceBytesPerMs) (deferred : ℤ)
    (jobs : List D2hJob) : ∀ cursor, ∃ events finish,
      d2hEvents fl input deferred jobs cursor = .ok (events,finish) ∧ Offloads deferred jobs events := by
  induction jobs with
  | nil =>
    intro cursor
    exact ⟨[],cursor,rfl,by simp,rfl,rfl,by simp⟩
  | cons job rest ih =>
    intro cursor
    obtain ⟨ms,hms⟩ := transferMs_eq_ok fl job.transfer input.resources.transferSetupP50Ms hrate
    obtain ⟨events,finish,hevents,hoff⟩ := ih (fl (cursor + ms))
    refine ⟨_,finish,bind_eq_ok.mpr ⟨ms,hms,bind_eq_ok.mpr ⟨_,hevents,rfl⟩⟩,?_,?_,?_,?_⟩
    · intro e he
      rcases List.mem_cons.mp he with rfl | he
      · rfl
      · exact hoff.direction e he
    · rw [List.map_cons,List.sum_cons,hoff.gpu]
      cases hcommit : job.commit
      · simp [hcommit]
      · simp [hcommit]
        ring
    · rw [List.map_cons,List.sum_cons,hoff.reserved]
      by_cases hrest : rest = []
      · simp [hrest]
      · simp [hrest]
    · intro hzero e he
      rcases List.mem_cons.mp he with rfl | he
      · simp [hzero]
      · exact hoff.still hzero e he

/-- The events of copies to the GPU. -/
structure Restores (jobs : List H2dJob) (events : List PhysicalEvent) : Prop where
  gpu : (events.map (·.gpuDeltaBytes)).sum = ((jobs.map (·.transfer)).sum : ℕ)
  reserved : (events.map (·.hbmReservationDeltaBytes)).sum = -((jobs.map (·.transfer)).sum : ℕ)
  still : (jobs.map (·.transfer)).sum = 0 → ∀ e ∈ events, e.hbmReservationDeltaBytes = 0

variable (fl) in
theorem h2dEvents_eq_ok (hrate : 0 < input.resources.h2dServiceBytesPerMs) (jobs : List H2dJob) :
    ∀ cursor, ∃ events finish, h2dEvents fl input jobs cursor = .ok (events,finish) ∧
      Restores jobs events := by
  induction jobs with
  | nil =>
    intro cursor
    exact ⟨[],cursor,rfl,rfl,rfl,by simp⟩
  | cons job rest ih =>
    intro cursor
    obtain ⟨ms,hms⟩ := transferMs_eq_ok fl job.transfer input.resources.transferSetupP50Ms hrate
    obtain ⟨events,finish,hevents,hrest⟩ := ih (fl (cursor + ms))
    refine ⟨_,finish,bind_eq_ok.mpr ⟨ms,hms,bind_eq_ok.mpr ⟨_,hevents,rfl⟩⟩,?_,?_,?_⟩
    · rw [List.map_cons,List.sum_cons,hrest.gpu]
      simp
    · rw [List.map_cons,List.sum_cons,hrest.reserved]
      simp
      ring
    · intro hzero e he
      rw [List.map_cons,List.sum_cons,Nat.add_eq_zero_iff] at hzero
      rcases List.mem_cons.mp he with rfl | he
      · simp [hzero.1]
      · exact hrest.still hzero.2 e he

theorem replay_hbmUsed (events : List PhysicalEvent) : ∀ s : PhysicalSchedule,
    (s.replay events).hbmUsedBytes = s.hbmUsedBytes + (events.map (·.gpuDeltaBytes)).sum := by
  induction events with
  | nil => simp [PhysicalSchedule.replay]
  | cons e events ih =>
    intro s
    have hrest := ih (s.apply e)
    simp only [PhysicalSchedule.replay,List.foldl_cons,List.map_cons,List.sum_cons] at hrest ⊢
    rw [hrest,PhysicalSchedule.apply]
    ring

theorem replay_reserved (events : List PhysicalEvent) : ∀ s : PhysicalSchedule,
    (s.replay events).hbmTransferReservedBytes =
      s.hbmTransferReservedBytes + (events.map (·.hbmReservationDeltaBytes)).sum := by
  induction events with
  | nil => simp [PhysicalSchedule.replay]
  | cons e events ih =>
    intro s
    have hrest := ih (s.apply e)
    simp only [PhysicalSchedule.replay,List.foldl_cons,List.map_cons,List.sum_cons] at hrest ⊢
    rw [hrest,PhysicalSchedule.apply]
    ring

end Events

/-! ## The plan -/

section Plan
variable {input : PolicyInput} {demand : ScenarioDemand}

/-- The actions of a plan, in the order they are decided. -/
def planEntries (input : PolicyInput) (demand : ScenarioDemand) (choice : VictimChoice) :
    List (String × ResidencyAction) :=
  (requiredBundles input demand).map (fun b => (b.bundleId,requiredAction b)) ++
    choice.actions.map fun a => (a.1.bundleId,a.2)

theorem settled_bundleActions (f : Frontier) (peak : ℕ) (choice : VictimChoice) :
    (settled input demand f peak choice).bundleActions =
      (planEntries input demand choice).foldl (fun d entry => d.insert entry.1 entry.2) ∅ := by
  rw [planEntries,List.foldl_append,List.foldl_map,List.foldl_map]
  rfl

/-- A demand that separates what it requires from the rest. -/
structure Separates (demand : ScenarioDemand) : Prop where
  nodup : demand.requiredGpuBundles.Nodup
  apart : ∀ id ∈ demand.optionalGpuBundles, id ∉ demand.requiredGpuBundles

theorem physicalize_separates {scenario : FrontierScenario} (h : physicalize input scenario = .ok demand) :
    Separates demand ∧ demand.requiredGpuBundles = Dict.sorted (requiredIds input scenario) := by
  unfold physicalize at h
  obtain ⟨_,-,h⟩ := bind_eq_ok.mp h
  cases h
  refine ⟨⟨Dict.nodup_sorted _,?_⟩,rfl⟩
  intro id hopt hreq
  rw [Dict.mem_sorted] at hreq
  split_ifs at hopt with hnone
  · rw [hnone] at hreq
    cases hreq
  · have hnot := (List.mem_filter.mp hopt).2
    simp [hreq] at hnot

theorem nodup_planEntries (hsep : Separates demand) {choice : VictimChoice}
    (hpacked : Packed input demand choice) :
    ((planEntries input demand choice).map Prod.fst).Nodup := by
  rw [planEntries,List.map_append,List.map_map,List.map_map]
  have hreq : ((requiredBundles input demand).map (·.bundleId)).Sublist demand.requiredGpuBundles :=
    requiredBundles_ids _
  refine List.nodup_append.mpr ⟨hsep.nodup.sublist hreq,hpacked.nodup,?_⟩
  intro id hid other hother heq
  subst heq
  obtain ⟨a,ha,rfl⟩ := List.mem_map.mp hother
  exact hsep.apart _ (hpacked.victims a ha).2.2 (hreq.subset hid)

theorem initialBundles_get {b : PhysicalBundleSnapshot} (hb : b ∈ input.bundles) :
    (initialBundles input)[b.bundleId]? = some ⟨b.physicalUniqueBytes,b.gpuBytes,b.cpuBytes⟩ := by
  have hfold : initialBundles input = (input.bundles.map fun b =>
      (b.bundleId,(⟨b.physicalUniqueBytes,b.gpuBytes,b.cpuBytes⟩ : BundleState))).foldl
        (fun d entry => d.insert entry.1 entry.2) ∅ := by
    rw [List.foldl_map]
    rfl
  rw [hfold]
  refine Dict.get_foldl_insert_of_mem ?_ (List.mem_map.mpr ⟨b,hb,rfl⟩)
  rw [List.map_map]
  exact input.bundles_unique

/-- Every action of a packed plan can be carried out. -/
theorem planEntries_actionable {choice : VictimChoice} (hpacked : Packed input demand choice)
    (hhost : ∀ b ∈ input.bundles, b.gpuBytes < b.physicalUniqueBytes → b.missingBytes ≤ b.cpuBytes) :
    ∀ e ∈ planEntries input demand choice, ∃ b, Actionable input (initialBundles input) e b := by
  intro e he
  rcases List.mem_append.mp he with he | he
  · obtain ⟨b,hb,rfl⟩ := List.mem_map.mp he
    obtain ⟨id,-,hid⟩ := List.mem_filterMap.mp hb
    have hin := (bundle?_eq_some.mp hid).1
    refine ⟨b,bundle?_eq_some.mpr ⟨hin,rfl⟩,initialBundles_get hin,?_,?_⟩
    · intro hkeep
      by_cases hmissing : b.missingBytes = 0
      · simp [requiredAction,hmissing] at hkeep
      · exact hpacked.restorable b hb hmissing
    · intro hprefetch
      by_cases hmissing : b.missingBytes = 0
      · simp [requiredAction,hmissing] at hprefetch
      · refine hhost b hin ?_
        unfold PhysicalBundleSnapshot.missingBytes at hmissing
        omega
  · obtain ⟨a,ha,rfl⟩ := List.mem_map.mp he
    obtain ⟨hin,hact,-⟩ := hpacked.victims a ha
    refine ⟨a.1,bundle?_eq_some.mpr ⟨hin,rfl⟩,initialBundles_get hin,fun _ => hact,?_⟩
    intro hprefetch
    rcases hpacked.chosen.acts a ha with h | h
    · exact absurd (h.symm.trans hprefetch) (by decide)
    · exact absurd (h.symm.trans hprefetch) (by decide)

/-! ## Totals -/

/-- The copies to the GPU that a list of actions makes. -/
def h2dTotal (input : PolicyInput) (entries : List (String × ResidencyAction)) : ℕ :=
  ((entries.filterMap (h2dJob? input)).map (·.transfer)).sum

/-- What the copies to the host of a list of actions free on the GPU. -/
def reclaimTotal (input : PolicyInput) (entries : List (String × ResidencyAction)) : ℕ :=
  (((entries.filterMap (d2hJob? input)).filter (·.commit)).map (·.reclaim)).sum

/-- What a list of actions gives up at once. -/
def droppedTotal (input : PolicyInput) (entries : List (String × ResidencyAction)) : ℕ :=
  (entries.map (droppedBytes input)).sum

theorem required_totals (bundles : List PhysicalBundleSnapshot) (h : ∀ b ∈ bundles, b ∈ input.bundles) :
    let entries := bundles.map fun b => (b.bundleId,requiredAction b)
    d2hTotal input entries = 0 ∧ h2dTotal input entries = (bundles.map (·.missingBytes)).sum ∧
      reclaimTotal input entries = 0 ∧ droppedTotal input entries = 0 := by
  induction bundles with
  | nil => exact ⟨rfl,rfl,rfl,rfl⟩
  | cons b bundles ih =>
    obtain ⟨hd2h,hh2d,hreclaim,hdropped⟩ := ih fun c hc => h c (List.mem_cons_of_mem _ hc)
    have hb : input.bundle? b.bundleId = some b := bundle?_eq_some.mpr ⟨h b (by simp),rfl⟩
    simp only [d2hTotal,h2dTotal,reclaimTotal,droppedTotal,requiredAction] at hd2h hh2d hreclaim hdropped ⊢
    by_cases hmissing : b.missingBytes = 0
    · refine ⟨?_,?_,?_,?_⟩ <;> simp_all [d2hJob?,h2dJob?,droppedBytes,requiredAction]
    · refine ⟨?_,?_,?_,?_⟩ <;> simp_all [d2hJob?,h2dJob?,droppedBytes,requiredAction]

theorem victims_totals (actions : List (PhysicalBundleSnapshot × ResidencyAction))
    (h : ∀ a ∈ actions, a.1 ∈ input.bundles ∧ (a.2 = .commitCpu ∨ a.2 = .drop)) :
    let entries := actions.map fun a => (a.1.bundleId,a.2)
    d2hTotal input entries = ((actions.filter (·.2 = .commitCpu)).map (·.1.hostNeeded)).sum ∧
      h2dTotal input entries = 0 ∧
      reclaimTotal input entries + droppedTotal input entries =
        (actions.map (·.1.marginalReclaimableBytes)).sum := by
  induction actions with
  | nil => exact ⟨rfl,rfl,rfl⟩
  | cons a actions ih =>
    obtain ⟨hd2h,hh2d,hreclaim⟩ := ih fun c hc => h c (List.mem_cons_of_mem _ hc)
    obtain ⟨hin,hact⟩ := h a (by simp)
    have hb : input.bundle? a.1.bundleId = some a.1 := bundle?_eq_some.mpr ⟨hin,rfl⟩
    simp only [d2hTotal,h2dTotal,reclaimTotal,droppedTotal] at hd2h hh2d hreclaim ⊢
    rcases hact with hact | hact
    · simp [d2hJob?,h2dJob?,droppedBytes,hb,hact] at hd2h hh2d hreclaim ⊢
      omega
    · simp [d2hJob?,h2dJob?,droppedBytes,hb,hact] at hd2h hh2d hreclaim ⊢
      omega

/-- The totals of a plan are those of its entries, in any order. -/
theorem packed_totals {choice : VictimChoice} (hpacked : Packed input demand choice)
    {entries : List (String × ResidencyAction)} (hperm : entries.Perm (planEntries input demand choice)) :
    d2hTotal input entries = choice.d2hBytes ∧
      h2dTotal input entries = ((requiredBundles input demand).map (·.missingBytes)).sum ∧
      reclaimTotal input entries + droppedTotal input entries = choice.reclaimedBytes := by
  have hd2h : d2hTotal input entries = d2hTotal input (planEntries input demand choice) :=
    ((hperm.filterMap _).map _).sum_eq
  have hh2d : h2dTotal input entries = h2dTotal input (planEntries input demand choice) :=
    ((hperm.filterMap _).map _).sum_eq
  have hreclaim : reclaimTotal input entries = reclaimTotal input (planEntries input demand choice) :=
    (((hperm.filterMap _).filter _).map _).sum_eq
  have hdropped : droppedTotal input entries = droppedTotal input (planEntries input demand choice) :=
    (hperm.map _).sum_eq
  have hmem : ∀ b ∈ requiredBundles input demand, b ∈ input.bundles := by
    intro b hb
    obtain ⟨id,-,hid⟩ := List.mem_filterMap.mp hb
    exact (bundle?_eq_some.mp hid).1
  obtain ⟨hr₁,hr₂,hr₃,hr₄⟩ := required_totals (requiredBundles input demand) hmem
  obtain ⟨hv₁,hv₂,hv₃⟩ := victims_totals choice.actions
    fun a ha => ⟨(hpacked.victims a ha).1,hpacked.chosen.acts a ha⟩
  rw [hd2h,hh2d,hreclaim,hdropped,hpacked.chosen.d2h,hpacked.chosen.reclaimed,← hv₁,← hv₃,← hr₂]
  simp only [d2hTotal,h2dTotal,reclaimTotal,droppedTotal,planEntries,List.filterMap_append,
    List.filter_append,List.map_append,List.sum_append] at hr₁ hr₃ hr₄ hv₂ ⊢
  omega

end Plan

/-! ## The schedule -/

/-- What the resimulator schedules for a plan. -/
structure Scheduled (input : PolicyInput) (plan : ScenarioPlan) (s : PhysicalSchedule) : Prop where
  d2h : s.d2hBytes = plan.d2hBytes
  h2d : s.h2dBytes = plan.h2dBytes
  used : s.hbmUsedBytes = input.resources.hbmUsedBytes - droppedTotal input plan.bundleActions.toList
  fixed : s.fixedReservedBytes = input.resources.hbmReservedBytes
  reserved : s.hbmTransferReservedBytes =
    ((plan.h2dBytes - reclaimTotal input plan.bundleActions.toList : ℕ) : ℤ) + plan.h2dBytes
  events : ∃ d2hJobs h2dJobs offloads restores, s.events = offloads ++ restores ∧
    Offloads ((plan.h2dBytes : ℤ) - (plan.h2dBytes - reclaimTotal input plan.bundleActions.toList : ℕ))
      d2hJobs offloads ∧
    ((d2hJobs.filter (·.commit)).map (·.reclaim)).sum = reclaimTotal input plan.bundleActions.toList ∧
    Restores h2dJobs restores ∧ (h2dJobs.map (·.transfer)).sum = plan.h2dBytes
  reclaimed : reclaimTotal input plan.bundleActions.toList +
    droppedTotal input plan.bundleActions.toList = plan.reclaimedBytes

section Schedule
variable {fl : ℚ → ℚ} {input : PolicyInput} {demand : ScenarioDemand}

/-- Up to its last check the resimulator accepts a packed plan. -/
theorem physicalSchedule_eq (hsep : Separates demand) {f : Frontier} {peak : ℕ} {choice : VictimChoice}
    (hpacked : Packed input demand choice) (hd2h : 0 < input.resources.d2hServiceBytesPerMs)
    (hh2d : 0 < input.resources.h2dServiceBytesPerMs)
    (hhost : ∀ b ∈ input.bundles, b.gpuBytes < b.physicalUniqueBytes → b.missingBytes ≤ b.cpuBytes) :
    ∃ s, physicalSchedule fl input (settled input demand f peak choice) =
        (checkAllocator input s 0 >>= fun _ => .ok s) ∧
      Scheduled input (settled input demand f peak choice) s := by
  set plan := settled input demand f peak choice with hplan
  have hnodup := nodup_planEntries hsep hpacked
  have hperm : plan.bundleActions.toList.Perm (planEntries input demand choice) := by
    rw [hplan,settled_bundleActions]
    exact Dict.toList_foldl_insert hnodup
  obtain ⟨ht₁,ht₂,ht₃⟩ := packed_totals hpacked hperm
  have hact : ∀ e ∈ plan.bundleActions.toList, ∃ b, Actionable input (initialBundles input) e b :=
    fun e he => planEntries_actionable hpacked hhost e (hperm.mem_iff.mp he)
  have hknown : ∀ e ∈ plan.bundleActions.toList, e.1 ∈ input.bundleIds := by
    intro e he
    obtain ⟨b,hb⟩ := hact e he
    obtain ⟨hin,hid⟩ := bundle?_eq_some.mp hb.snapshot
    exact hid ▸ List.mem_map_of_mem hin
  have hkeys : (plan.bundleActions.toList.map Prod.fst).Nodup := (hperm.map _).nodup_iff.mpr hnodup
  have hroom : ((d2hTotal input plan.bundleActions.toList : ℕ) : ℤ) ≤ input.resources.hostFreeBytes := by
    rw [ht₁]
    exact_mod_cast hpacked.chosen.host
  obtain ⟨bundles,hall⟩ := act_all (t := ⟨initialBundles input,input.resources.hbmUsedBytes,
    input.resources.hostFreeBytes,[],[]⟩) hkeys hact hroom
  obtain ⟨t,ht⟩ : ∃ t : Transfers, t = {
      bundles := bundles
      hbmUsed := input.resources.hbmUsedBytes - (plan.bundleActions.toList.map (droppedBytes input)).sum
      hostFree := input.resources.hostFreeBytes - d2hTotal input plan.bundleActions.toList
      d2hJobs := plan.bundleActions.toList.filterMap (d2hJob? input)
      h2dJobs := plan.bundleActions.toList.filterMap (h2dJob? input) } := ⟨_,rfl⟩
  simp only [List.nil_append] at hall
  rw [← ht] at hall
  have hsame : t.totalD2h = plan.d2hBytes ∧ t.totalH2d = plan.h2dBytes := by
    rw [ht]
    exact ⟨ht₁,ht₂⟩
  have hreclaim : t.totalReclaim = reclaimTotal input plan.bundleActions.toList := by
    rw [ht]
    rfl
  obtain ⟨offloads,cursor,hoff,hoffloads⟩ := d2hEvents_eq_ok fl hd2h t.deferredReservation t.d2hJobs 0
  obtain ⟨restores,finish,hrest,hrestores⟩ := h2dEvents_eq_ok fl hh2d t.h2dJobs cursor
  refine ⟨t.schedule input (offloads ++ restores) finish,?_,?_⟩
  · unfold physicalSchedule
    refine (bind_of_ok (a := ()) (ensure_eq_ok.mpr hknown)).trans ?_
    refine (bind_of_ok hall).trans ?_
    refine (bind_of_ok hoff).trans ?_
    refine (bind_of_ok hrest).trans ?_
    exact bind_of_ok (a := ()) (ensure_eq_ok.mpr hsame)
  · have hdeferred : t.deferredReservation = (plan.h2dBytes : ℤ) -
        (plan.h2dBytes - reclaimTotal input plan.bundleActions.toList : ℕ) := by
      rw [Transfers.deferredReservation,Transfers.initialReservation,hsame.2,hreclaim]
    refine ⟨hsame.1,hsame.2,?_,rfl,?_,⟨t.d2hJobs,t.h2dJobs,offloads,restores,rfl,hdeferred ▸ hoffloads,
      hreclaim,hrestores,hsame.2⟩,ht₃⟩
    · rw [Transfers.schedule,ht]
      rfl
    · rw [Transfers.schedule,Transfers.initialReservation,hsame.2,hreclaim]

/-- Up to its last check the resimulator accepts every feasible plan of the packer. -/
theorem pack_scheduled {config : WhatIfPackerConfig} {fairness : Option FairnessWindow}
    {scenario : FrontierScenario} {plan : ScenarioPlan} (hd2h : 0 < input.resources.d2hServiceBytesPerMs)
    (hh2d : 0 < input.resources.h2dServiceBytesPerMs)
    (hhost : ∀ b ∈ input.bundles, b.gpuBytes < b.physicalUniqueBytes → b.missingBytes ≤ b.cpuBytes)
    (hpack : (physicalize input scenario >>= pack fl config fairness input) = .ok plan)
    (hfeasible : plan.feasible = true) :
    (∃ s, physicalSchedule fl input plan = (checkAllocator input s 0 >>= fun _ => .ok s) ∧
      Scheduled input plan s) ∧
    plan.h2dBytes = (((Dict.sorted (requiredIds input scenario)).filterMap input.bundle?).map
      (·.missingBytes)).sum := by
  obtain ⟨demand,hdemand,hplan⟩ := bind_eq_ok.mp hpack
  obtain ⟨hsep,hrequired⟩ := physicalize_separates hdemand
  obtain ⟨_,-,hplan⟩ := bind_eq_ok.mp hplan
  cases hplan
  obtain ⟨f,peak,choice,heq,hpacked⟩ := packPlan_packed hfeasible
  rw [heq]
  refine ⟨physicalSchedule_eq hsep hpacked hd2h hh2d hhost,?_⟩
  rw [← hrequired]
  rfl

end Schedule

/-! ## Agreement -/

namespace Scheduled
variable {input : PolicyInput} {plan : ScenarioPlan} {s : PhysicalSchedule}

/-- What is still reserved in the end is what was restored. -/
theorem reserved_at_end (h : Scheduled input plan s) :
    (s.replay s.events).hbmTransferReservedBytes = plan.h2dBytes := by
  obtain ⟨jobs,_,offloads,restores,hevents,hoff,hreclaim,hrest,htotal⟩ := h.events
  rw [replay_reserved,h.reserved,hevents,List.map_append,List.sum_append,hoff.reserved,hrest.reserved,htotal]
  by_cases hjobs : jobs = []
  · rw [if_pos hjobs]
    rw [hjobs] at hreclaim
    have hnone : reclaimTotal input plan.bundleActions.toList = 0 := hreclaim.symm
    rw [hnone]
    simp
  · rw [if_neg hjobs]
    ring

theorem used_at_end (h : Scheduled input plan s) :
    (s.replay s.events).hbmUsedBytes =
      input.resources.hbmUsedBytes - plan.reclaimedBytes + plan.h2dBytes := by
  obtain ⟨_,_,offloads,restores,hevents,hoff,hreclaim,hrest,htotal⟩ := h.events
  rw [replay_hbmUsed,h.used,hevents,List.map_append,List.sum_append,hoff.gpu,hrest.gpu,htotal,hreclaim,
    ← h.reclaimed]
  push_cast
  ring

/-- Without a restore nothing is ever reserved. -/
theorem reserved_of_nothing (h : Scheduled input plan s) (hzero : plan.h2dBytes = 0) (k : ℕ) :
    (s.replay (s.events.take k)).hbmTransferReservedBytes = 0 := by
  obtain ⟨_,_,offloads,restores,hevents,hoff,-,hrest,htotal⟩ := h.events
  have hstill : ∀ e ∈ s.events, e.hbmReservationDeltaBytes = 0 := by
    intro e he
    rw [hevents] at he
    rcases List.mem_append.mp he with he | he
    · exact hoff.still (by simp [hzero]) e he
    · exact hrest.still (htotal.trans hzero) e he
  have hsum : ((s.events.take k).map (·.hbmReservationDeltaBytes)).sum = 0 := by
    refine List.sum_eq_zero ?_
    intro n hn
    obtain ⟨e,he,rfl⟩ := List.mem_map.mp hn
    exact hstill e (List.mem_of_mem_take he)
  rw [replay_reserved,h.reserved,hsum,hzero]
  simp

end Scheduled

/-- The resimulator's ledger of a plan: its totals are the plan's, what it reserves is still to land,
and in the end nothing is reserved and the bytes on the GPU are those the plan leaves there. -/
structure LedgerAgrees (input : PolicyInput) (plan : ScenarioPlan) (s : PhysicalSchedule) : Prop where
  d2h : s.d2hBytes = plan.d2hBytes
  h2d : s.h2dBytes = plan.h2dBytes
  ledger : ∀ k, 0 ≤ (s.replay (s.events.take k)).hbmTransferReservedBytes ∧
    (s.replay (s.events.take k)).hbmTransferReservedBytes ≤ landing (s.events.drop k)
  returned : (s.replay s.events).hbmTransferReservedBytes = 0
  used : (s.replay s.events).hbmUsedBytes =
    input.resources.hbmUsedBytes - plan.reclaimedBytes + plan.h2dBytes

section Agreement
variable {fl : ℚ → ℚ} {input : PolicyInput} {plan : ScenarioPlan} {s : PhysicalSchedule}

theorem checkAllocator_eq_ok : checkAllocator input s 0 = .ok () ↔
    s.hbmUsedBytes + s.fixedReservedBytes + s.hbmTransferReservedBytes ≤ input.resources.hbmCapacityBytes ∧
      0 ≤ s.hbmUsedBytes ∧ 0 ≤ s.hbmTransferReservedBytes := by
  unfold checkAllocator
  simp only [bind_eq_ok,ensure_eq_ok,add_zero]
  constructor
  · rintro ⟨_,hcap,hnonneg⟩
    exact ⟨hcap,hnonneg⟩
  · rintro ⟨hcap,hnonneg⟩
    exact ⟨(),hcap,hnonneg⟩

/-- A plan that restores nothing and drops no more than is used is replayed as it was packed. -/
theorem agrees_iff (hs : physicalSchedule fl input plan = (checkAllocator input s 0 >>= fun _ => .ok s))
    (h : Scheduled input plan s) :
    (∃ s, physicalSchedule fl input plan = .ok s ∧ LedgerAgrees input plan s) ↔
      plan.h2dBytes = 0 ∧
        droppedTotal input plan.bundleActions.toList ≤ input.resources.hbmUsedBytes := by
  constructor
  · rintro ⟨s',hs',hagrees⟩
    rw [hs] at hs'
    obtain ⟨_,hcheck,heq⟩ := bind_eq_ok.mp hs'
    cases heq
    obtain ⟨-,hused,-⟩ := checkAllocator_eq_ok.mp hcheck
    have hend := hagrees.returned
    rw [h.reserved_at_end] at hend
    rw [h.used] at hused
    omega
  · rintro ⟨hzero,hdropped⟩
    refine ⟨s,hs.trans (bind_of_ok (a := ()) (checkAllocator_eq_ok.mpr ?_)),?_⟩
    · have hfits := input.resources.fits
      rw [h.used,h.fixed,h.reserved,hzero]
      omega
    · refine ⟨h.d2h,h.h2d,?_,?_,h.used_at_end⟩
      · intro k
        rw [h.reserved_of_nothing hzero k]
        omega
      · rw [h.reserved_at_end,hzero]
        rfl

end Agreement

/-- The bundles that a scenario requires are on the GPU. -/
def AllResident (input : PolicyInput) (scenario : FrontierScenario) : Prop :=
  ∀ b ∈ input.bundles, b.bundleId ∈ requiredIds input scenario → b.gpuBytes = b.physicalUniqueBytes

/-- The resimulator agrees with the packer exactly on the plans that restore nothing, provided they do
not drop more than is used. -/
theorem resimulator_agrees_iff (fl : ℚ → ℚ) (config : WhatIfPackerConfig)
    (fairness : Option FairnessWindow) (input : PolicyInput) (scenario : FrontierScenario)
    (plan : ScenarioPlan) (hd2h : 0 < input.resources.d2hServiceBytesPerMs)
    (hh2d : 0 < input.resources.h2dServiceBytesPerMs)
    (hhost : ∀ b ∈ input.bundles, b.gpuBytes < b.physicalUniqueBytes → b.missingBytes ≤ b.cpuBytes)
    (hpack : (physicalize input scenario >>= pack fl config fairness input) = .ok plan)
    (hfeasible : plan.feasible = true) :
    (∃ s, physicalSchedule fl input plan = .ok s ∧ LedgerAgrees input plan s) ↔
      AllResident input scenario ∧
        droppedTotal input plan.bundleActions.toList ≤ input.resources.hbmUsedBytes := by
  obtain ⟨⟨s,hs,hscheduled⟩,htotal⟩ := pack_scheduled hd2h hh2d hhost hpack hfeasible
  rw [agrees_iff hs hscheduled,htotal]
  refine and_congr_left fun _ => ?_
  rw [List.sum_eq_zero_iff]
  constructor
  · intro hzero b hb hreq
    have hmem : b ∈ (Dict.sorted (requiredIds input scenario)).filterMap input.bundle? :=
      List.mem_filterMap.mpr ⟨b.bundleId,(Dict.mem_sorted _ _).mpr hreq,bundle?_eq_some.mpr ⟨hb,rfl⟩⟩
    have hmissing := hzero _ (List.mem_map_of_mem hmem)
    have hle := b.gpu_le
    unfold PhysicalBundleSnapshot.missingBytes at hmissing
    omega
  · intro hresident n hn
    obtain ⟨b,hb,rfl⟩ := List.mem_map.mp hn
    obtain ⟨id,hid,hfind⟩ := List.mem_filterMap.mp hb
    obtain ⟨hin,rfl⟩ := bundle?_eq_some.mp hfind
    unfold PhysicalBundleSnapshot.missingBytes
    rw [hresident b hin ((Dict.mem_sorted _ _).mp hid)]
    omega

/-! ## A scenario -/

/-- The bundle of a request, of which some bytes are on the GPU. -/
def neededBundle (gpuBytes : ℕ) (h : gpuBytes ≤ 200) : PhysicalBundleSnapshot where
  bundleId := "bundle"
  ownerContextIds := ["context"]
  scope := "exclusive_suffix"
  physicalUniqueBytes := 200
  gpuBytes := gpuBytes
  cpuBytes := 200
  marginalReclaimableBytes := 0
  lockedBytes := 0
  residency := "resident"
  generationFingerprint := "generation"
  lastAccessMs := 0
  extentIds := ["extent"]
  leaseKind := "dead"
  actionable := true
  blockerCodes := []
  named := by decide
  owners_unique := by decide
  gpu_le := h
  cpu_le := le_rfl
  marginal_le := Nat.zero_le _
  locked_le := Nat.zero_le _
  extents_unique := by decide

def loneRequest : RunnableInvocation :=
  ⟨"request","workflow","invocation","context",0,0,100,"foreground",none,by decide⟩

/-- A snapshot with one request and its bundle. -/
def loneInput (gpuBytes : ℕ) (h : gpuBytes ≤ 200) : PolicyInput where
  snapshotId := "snapshot"
  runnableFrontier := [loneRequest]
  bundles := [neededBundle gpuBytes h]
  resources := {
    tsMs := 0
    hbmCapacityBytes := 1000
    hbmUsedBytes := gpuBytes
    hbmReservedBytes := 0
    hostFreeBytes := 1000
    h2dServiceBytesPerMs := 100
    d2hServiceBytesPerMs := 100
    transferSetupP50Ms := 0
    unhiddenStallPerByte := 0
    ts_nonneg := Nat.cast_nonneg 0
    capacity_pos := by decide
    fits := by omega }
  requests_unique := by decide
  requests_sorted := by decide
  bundles_unique := List.nodup_singleton _

def loneScenario : FrontierScenario where
  scenarioId := "scenario"
  transition := .blocking
  candidateRequestIds := ["request"]
  consumerContextIds := []
  keepContextIds := []
  projectedGrowthBytes := ∅
  anonymousFreshBytes := 0
  candidates_unique := by decide

def lonePlan (gpuBytes : ℕ) (h : gpuBytes ≤ 200) : Except Raised ScenarioPlan :=
  physicalize (loneInput gpuBytes h) loneScenario >>= pack id {} none (loneInput gpuBytes h)

/-- A bundle without a copy on the host that nobody asks for. -/
def idleBundle : PhysicalBundleSnapshot where
  bundleId := "idle"
  ownerContextIds := ["parked"]
  scope := "exclusive_suffix"
  physicalUniqueBytes := 600
  gpuBytes := 600
  cpuBytes := 0
  marginalReclaimableBytes := 600
  lockedBytes := 0
  residency := "resident"
  generationFingerprint := "generation"
  lastAccessMs := 0
  extentIds := ["idle extent"]
  leaseKind := "dead"
  actionable := true
  blockerCodes := []
  named := by decide
  owners_unique := by decide
  gpu_le := le_rfl
  cpu_le := Nat.zero_le _
  marginal_le := le_rfl
  locked_le := Nat.zero_le _
  extents_unique := by decide

/-- Two requests of one workflow, and a GPU without room for both. -/
def crowdedInput (gpuBytes : ℕ) (h : gpuBytes ≤ 200) : PolicyInput :=
  { loneInput gpuBytes h with
    runnableFrontier := [loneRequest,⟨"slow","workflow","other","other",0,0,150,"foreground",none,by decide⟩]
    bundles := [neededBundle gpuBytes h,idleBundle]
    resources := { (loneInput gpuBytes h).resources with
      hbmUsedBytes := gpuBytes + 600
      fits := by
        change gpuBytes + 600 + 0 ≤ 1000
        omega }
    requests_unique := by decide
    requests_sorted := by decide
    bundles_unique := by
      change ["bundle","idle"].Nodup
      decide }

def crowdedScenario : FrontierScenario :=
  { loneScenario with
    candidateRequestIds := ["request","slow"]
    candidates_unique := by decide }

def crowdedPlan (gpuBytes : ℕ) (h : gpuBytes ≤ 200) : Except Raised ScenarioPlan :=
  physicalize (crowdedInput gpuBytes h) crowdedScenario >>= pack id {} none (crowdedInput gpuBytes h)

/-- The idle bundle is copied to the host, and the copy is replayed as it was packed. -/
theorem resident_plan_agrees : ∃ plan, crowdedPlan 200 le_rfl = .ok plan ∧ plan.feasible = true ∧
    plan.executionOrder = ["request","slow"] ∧ plan.d2hBytes = 600 ∧
    ∃ s, physicalSchedule id (crowdedInput 200 le_rfl) plan = .ok s ∧
      LedgerAgrees (crowdedInput 200 le_rfl) plan s := by
  have hhost : ∀ b ∈ (crowdedInput 200 le_rfl).bundles, b.gpuBytes < b.physicalUniqueBytes →
      b.missingBytes ≤ b.cpuBytes := by decide +kernel
  have hresident : AllResident (crowdedInput 200 le_rfl) crowdedScenario := by
    intro b hb _
    rcases List.mem_cons.mp hb with rfl | hb
    · rfl
    · rw [List.mem_singleton.mp hb]
      rfl
  refine ⟨_,rfl,?_,?_,?_,?_⟩
  · decide +kernel
  · decide +kernel
  · decide +kernel
  · refine (resimulator_agrees_iff id {} none (crowdedInput 200 le_rfl) crowdedScenario _ ?_ ?_ hhost rfl ?_).mpr
      ⟨hresident,?_⟩
    all_goals decide +kernel

/-- A restored bundle stays reserved. -/
theorem restored_plan_disagrees : ∃ plan, lonePlan 0 (Nat.zero_le _) = .ok plan ∧ plan.feasible = true ∧
    (∀ b ∈ (loneInput 0 (Nat.zero_le _)).bundles, b.gpuBytes < b.physicalUniqueBytes →
      b.missingBytes ≤ b.cpuBytes) ∧
    ¬ ∃ s, physicalSchedule id (loneInput 0 (Nat.zero_le _)) plan = .ok s ∧
      LedgerAgrees (loneInput 0 (Nat.zero_le _)) plan s := by
  have hhost : ∀ b ∈ (loneInput 0 (Nat.zero_le _)).bundles, b.gpuBytes < b.physicalUniqueBytes →
      b.missingBytes ≤ b.cpuBytes := by decide +kernel
  refine ⟨_,rfl,?_,hhost,?_⟩
  · decide +kernel
  · have hpack : lonePlan 0 (Nat.zero_le _) = .ok _ := rfl
    obtain ⟨⟨s,hs,hscheduled⟩,-⟩ := pack_scheduled (by decide +kernel) (by decide +kernel) hhost hpack
      (by decide +kernel)
    rw [agrees_iff hs hscheduled]
    rintro ⟨hzero,-⟩
    revert hzero
    decide +kernel

end BeliefKV
