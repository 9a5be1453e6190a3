import BeliefKV.WhatIf.Agreement

/-! What a feasible plan of a scenario may do to the bundles, the workflows and the memory. -/
namespace BeliefKV

/-! ## The frontier -/

section Frontier
variable {config : WhatIfPackerConfig} {fairness : Option FairnessWindow} {input : PolicyInput}

/-- The requests of a workflow among some requests. -/
def countOf (input : PolicyInput) (workflowId : String) (requests : List String) : ℕ :=
  requests.countP fun id => (input.request? id).map (·.workflowId) = some workflowId

/-- A request of the snapshot that the fairness window lets run. -/
structure Eligible (fairness : Option FairnessWindow) (input : PolicyInput) (requestId : String) : Prop where
  runnable : ∃ invocation ∈ input.runnableFrontier, invocation.requestId = requestId ∧
    ∀ window, fairness = some window → invocation.workflowId ∈ window.eligibleWorkflowIds

/-- What the walk has collected from some requests. -/
structure Walked (config : WhatIfPackerConfig) (fairness : Option FairnessWindow) (input : PolicyInput)
    (requests : List String) (f : Frontier) : Prop where
  executed : f.execution.Sublist requests
  eligible : ∀ id ∈ f.execution, Eligible fairness input id
  counted : ∀ w, f.perWorkflow.getD w 0 = countOf input w f.execution
  bounded : ∀ w, countOf input w f.execution ≤ config.maxFrontierPerWorkflow

theorem Walked.deferred {requests : List String} {f : Frontier} (h : Walked config fairness input requests f)
    (requestId blocker : String) :
    Walked config fairness input (requests ++ [requestId]) (f.deferred requestId blocker) where
  executed := h.executed.trans (List.sublist_append_left _ _)
  eligible := h.eligible
  counted := h.counted
  bounded := h.bounded

/-- A request is executed only if its workflow may run and has not reached its limit. -/
theorem Walked.visit {requests : List String} {f : Frontier} (h : Walked config fairness input requests f)
    (requestId : String) :
    Walked config fairness input (requests ++ [requestId]) (f.visit config fairness input requestId) := by
  unfold Frontier.visit
  cases hrequest : input.request? requestId with
  | none => exact h.deferred _ _
  | some invocation =>
    by_cases hunfair : fairness.any fun window => invocation.workflowId ∉ window.eligibleWorkflowIds
    · simp only [if_pos hunfair]
      exact h.deferred _ _
    by_cases hlimit : config.maxFrontierPerWorkflow ≤ f.perWorkflow.getD invocation.workflowId 0
    · simp only [if_neg hunfair,if_pos hlimit]
      exact h.deferred _ _
    simp only [if_neg hunfair,if_neg hlimit]
    have hmem := List.mem_of_find?_eq_some hrequest
    have hid : invocation.requestId = requestId := by simpa using List.find?_some hrequest
    have hcount : ∀ w, countOf input w (f.execution ++ [requestId]) =
        countOf input w f.execution + if invocation.workflowId = w then 1 else 0 := by
      intro w
      simp [countOf,List.countP_append,List.countP_cons,hrequest]
    refine ⟨h.executed.append (List.Sublist.refl _),?_,?_,?_⟩
    · intro id hexecuted
      obtain hexecuted | hlast := List.mem_append.mp hexecuted
      · exact h.eligible id hexecuted
      · obtain rfl := List.mem_singleton.mp hlast
        refine ⟨invocation,hmem,hid,fun window hwindow => ?_⟩
        by_contra hout
        rw [hwindow] at hunfair
        simp [hout] at hunfair
    · intro w
      rw [hcount]
      by_cases hw : invocation.workflowId = w
      · subst hw
        simp [h.counted]
      · rw [if_neg hw,Nat.add_zero,← h.counted w,Std.ExtTreeMap.getD_insert]
        simp [hw]
    · intro w
      rw [hcount]
      by_cases hw : invocation.workflowId = w
      · subst hw
        have hcounted := h.counted invocation.workflowId
        rw [if_pos rfl]
        omega
      · rw [if_neg hw]
        exact h.bounded w

theorem Walked.all {rest : List String} : ∀ {requests : List String} {f : Frontier},
    Walked config fairness input requests f →
      Walked config fairness input (requests ++ rest) (rest.foldl (Frontier.visit config fairness input) f) := by
  induction rest with
  | nil =>
    intro requests f h
    rw [List.append_nil]
    exact h
  | cons id rest ih =>
    intro requests f h
    have hrest := ih (h.visit id)
    rwa [List.append_assoc] at hrest

theorem walked_candidates (requests blockers : List String) : Walked config fairness input requests
    (requests.foldl (Frontier.visit config fairness input) { blockers := blockers }) := by
  have hstart : Walked config fairness input [] { blockers := blockers } :=
    ⟨List.Sublist.refl _,fun id hid => absurd hid List.not_mem_nil,fun w => by simp [countOf],
      fun w => Nat.zero_le _⟩
  exact hstart.all

end Frontier

/-! ## The victims -/

section Victims
variable {fl : ℚ → ℚ} {config : WhatIfPackerConfig} {fairness : Option FairnessWindow}
  {input : PolicyInput} {demand : ScenarioDemand}

/-- A bundle that nothing holds on the GPU. -/
structure Takeable (b : PhysicalBundleSnapshot) : Prop where
  unlocked : b.lockedBytes = 0
  actionable : b.actionable = true
  unleased : b.leaseKind ≠ "ready" ∧ b.leaseKind ≠ "running"

theorem takeable_of_potential {b : PhysicalBundleSnapshot} (h : b ∈ input.potentialVictims) : Takeable b := by
  have hfree := (List.mem_filter.mp h).2
  simp only [Bool.and_eq_true,decide_eq_true_eq] at hfree
  obtain ⟨⟨⟨⟨-,hunlocked⟩,hactionable⟩,hready⟩,hrunning⟩ := hfree
  exact ⟨hunlocked,hactionable,hready,hrunning⟩

/-- The demanded peak without the requests that are not executed. -/
def executedPeak (input : PolicyInput) (demand : ScenarioDemand) (execution : List String) : ℕ :=
  max (input.resources.hbmUsedBytes + input.resources.hbmReservedBytes)
    (demand.projectedHbmPeakBytes -
      ((demand.startupBytesByRequest.toList.filter fun e => e.1 ∉ execution).map Prod.snd).sum)

/-- How a feasible plan is settled. -/
structure Settles (config : WhatIfPackerConfig) (fairness : Option FairnessWindow) (input : PolicyInput)
    (demand : ScenarioDemand) (plan : ScenarioPlan) (f : Frontier) (choice : VictimChoice) : Prop where
  walked : Walked config fairness input demand.candidateRequestIds f
  plan_eq : plan = settled input demand f (executedPeak input demand f.execution) choice
  packed : Packed input demand choice
  takeable : ∀ a ∈ choice.actions, Takeable a.1
  fits : executedPeak input demand f.execution - choice.reclaimedBytes ≤ input.resources.hbmCapacityBytes

theorem makeRoom_settles {f : Frontier} (hwalked : Walked config fairness input demand.candidateRequestIds f)
    (hblocked : blockedRequired input demand = []) (h : (makeRoom fl config input demand f).feasible = true) :
    ∃ choice, Settles config fairness input demand (makeRoom fl config input demand f) f choice := by
  simp only [makeRoom] at h ⊢
  split_ifs at h ⊢ with hfits hshort hlocked
  · refine ⟨{},hwalked,rfl,nothing_packed hblocked,fun a ha => absurd ha List.not_mem_nil,?_⟩
    exact (Nat.sub_le _ _).trans (Nat.sub_eq_zero_iff_le.mp hfits)
  · cases h
  · cases h
  · have hchosen := chooseVictims_chosen fl config input (victimCandidates fl config input demand
      (executedPeak input demand f.execution - input.resources.hbmCapacityBytes))
      (executedPeak input demand f.execution - input.resources.hbmCapacityBytes)
    refine ⟨_,hwalked,rfl,chooseVictims_packed fl config hblocked _,fun a ha => ?_,?_⟩
    · have hcandidate := hchosen.bundles.subset (List.mem_map_of_mem ha)
      have hsorted := List.mem_mergeSort.mp (List.mem_of_mem_take hcandidate)
      exact takeable_of_potential (List.mem_filter.mp hsorted).1
    · have hcovered : executedPeak input demand f.execution - input.resources.hbmCapacityBytes ≤ _ := not_lt.mp hshort
      omega

theorem packPlan_settles (h : (packPlan fl config fairness input demand).feasible = true) :
    ∃ f choice, Settles config fairness input demand (packPlan fl config fairness input demand) f choice := by
  simp only [packPlan] at h ⊢
  split_ifs at h ⊢ with hexact hnone hmissing hblocked
  · cases h
  · cases h
  · cases h
  · cases h
  · exact ⟨_,makeRoom_settles (walked_candidates _ _) (not_ne_iff.mp hblocked) h⟩

end Victims

/-! ## The plan -/

section Plan
variable {fl : ℚ → ℚ} {config : WhatIfPackerConfig} {fairness : Option FairnessWindow}
  {input : PolicyInput} {scenario : FrontierScenario} {demand : ScenarioDemand} {plan : ScenarioPlan}

/-- A bundle of a context that the scenario is about. -/
structure Required (input : PolicyInput) (scenario : FrontierScenario) (b : PhysicalBundleSnapshot) : Prop where
  present : b ∈ input.bundles
  owned : ∃ c ∈ requiredContexts input scenario, c ∈ b.ownerContextIds

/-- A bundle that is copied to the host or dropped. -/
def ScenarioPlan.takes (plan : ScenarioPlan) (b : PhysicalBundleSnapshot) : Bool :=
  plan.bundleActions[b.bundleId]? = some .commitCpu || plan.bundleActions[b.bundleId]? = some .drop

/-- The safety of a plan. -/
structure SafePlan (config : WhatIfPackerConfig) (fairness : Option FairnessWindow) (input : PolicyInput)
    (scenario : FrontierScenario) (demand : ScenarioDemand) (plan : ScenarioPlan) : Prop where
  required : ∀ b, Required input scenario b → plan.bundleActions[b.bundleId]? =
    some (if b.gpuBytes < b.physicalUniqueBytes then .prefetchGpu else .keep)
  victims : ∀ id action, plan.bundleActions[id]? = some action → action ≠ .keep → action ≠ .prefetchGpu →
    (action = .commitCpu ∨ action = .drop) ∧ ∃ b ∈ input.bundles, b.bundleId = id ∧ Takeable b
  host : ((input.bundles.filter fun b => plan.bundleActions[b.bundleId]? = some .commitCpu).map (·.hostNeeded)).sum ≤
    input.resources.hostFreeBytes
  executed : plan.executionOrder.Sublist scenario.candidateRequestIds
  eligible : ∀ id ∈ plan.executionOrder, Eligible fairness input id
  limited : ∀ w, countOf input w plan.executionOrder ≤ config.maxFrontierPerWorkflow
  peak : plan.projectedHbmPeakBytes = executedPeak input demand plan.executionOrder -
    ((input.bundles.filter plan.takes).map (·.marginalReclaimableBytes)).sum
  fits : plan.projectedHbmPeakBytes ≤ input.resources.hbmCapacityBytes

theorem scenarioCandidates_ids (ids : List String) :
    ((ids.filterMap input.request?).map (·.requestId)).Sublist ids := by
  induction ids with
  | nil => exact List.Sublist.refl _
  | cons id ids ih =>
    cases hrequest : input.request? id with
    | none =>
      rw [List.filterMap_cons_none hrequest]
      exact ih.cons _
    | some r =>
      have hid : r.requestId = id := by simpa using List.find?_some hrequest
      rw [List.filterMap_cons_some hrequest,List.map_cons,hid]
      exact ih.cons_cons _

theorem physicalize_candidates (h : physicalize input scenario = .ok demand) :
    demand.candidateRequestIds.Sublist scenario.candidateRequestIds := by
  unfold physicalize at h
  obtain ⟨_,-,h⟩ := bind_eq_ok.mp h
  cases h
  exact scenarioCandidates_ids _

/-- The actions of a settled plan, bundle by bundle. -/
theorem settled_get (hsep : Separates demand) {choice : VictimChoice} (hpacked : Packed input demand choice)
    (f : Frontier) (peak : ℕ) (id : String) (action : ResidencyAction) :
    (settled input demand f peak choice).bundleActions[id]? = some action ↔
      (id,action) ∈ planEntries input demand choice := by
  rw [settled_bundleActions,← Std.ExtTreeMap.mem_toList_iff_getElem?_eq_some]
  exact (Dict.toList_foldl_insert (nodup_planEntries hsep hpacked)).mem_iff

theorem requiredAction_eq (b : PhysicalBundleSnapshot) :
    requiredAction b = if b.gpuBytes < b.physicalUniqueBytes then .prefetchGpu else .keep := by
  unfold requiredAction PhysicalBundleSnapshot.missingBytes
  by_cases h : b.gpuBytes < b.physicalUniqueBytes
  · rw [if_pos h,if_pos (by omega)]
  · rw [if_neg h,if_neg (by omega)]

/-- The entry of a victim is its action. -/
theorem victim_entry {choice : VictimChoice} (hpacked : Packed input demand choice)
    {b : PhysicalBundleSnapshot} (hb : b ∈ input.bundles) {action : ResidencyAction}
    (haction : action = .commitCpu ∨ action = .drop) :
    (b.bundleId,action) ∈ planEntries input demand choice ↔ (b,action) ∈ choice.actions := by
  constructor
  · intro h
    obtain h | h := List.mem_append.mp h
    · obtain ⟨c,-,hc⟩ := List.mem_map.mp h
      have hneeded : requiredAction c = action := congrArg Prod.snd hc
      unfold requiredAction at hneeded
      split_ifs at hneeded
      · obtain rfl | rfl := haction <;> cases hneeded
      · obtain rfl | rfl := haction <;> cases hneeded
    · obtain ⟨⟨c,act⟩,ha,heq⟩ := List.mem_map.mp h
      have hid : c.bundleId = b.bundleId := congrArg Prod.fst heq
      have hact : act = action := congrArg Prod.snd heq
      have hsame := List.inj_on_of_nodup_map input.bundles_unique (hpacked.victims _ ha).1 hb hid
      subst hsame hact
      exact ha
  · intro h
    exact List.mem_append.mpr (.inr (List.mem_map.mpr ⟨_,h,rfl⟩))

/-- The victims of a kind are those of the choice, in some order. -/
theorem victims_perm {choice : VictimChoice} (hpacked : Packed input demand choice)
    (kind : ResidencyAction → Bool) (taken : PhysicalBundleSnapshot → Bool)
    (htaken : ∀ b ∈ input.bundles, taken b = true ↔ ∃ action, kind action = true ∧ (b,action) ∈ choice.actions) :
    (input.bundles.filter taken).Perm ((choice.actions.filter fun a => kind a.2).map Prod.fst) := by
  have hnodup : (choice.actions.map Prod.fst).Nodup := by
    refine List.Nodup.of_map (·.bundleId) ?_
    rw [List.map_map]
    exact hpacked.nodup
  refine (List.perm_ext_iff_of_nodup (input.bundles_unique.of_map.filter _)
    (hnodup.sublist (List.filter_sublist.map _))).mpr fun b => ?_
  rw [List.mem_filter,List.mem_map]
  constructor
  · rintro ⟨hb,hb'⟩
    obtain ⟨action,hkind,hmem⟩ := (htaken b hb).mp hb'
    exact ⟨(b,action),List.mem_filter.mpr ⟨hmem,hkind⟩,rfl⟩
  · rintro ⟨⟨c,action⟩,hmem,rfl⟩
    obtain ⟨hmem,hkind⟩ := List.mem_filter.mp hmem
    have hb := (hpacked.victims _ hmem).1
    exact ⟨hb,(htaken c hb).mpr ⟨action,hkind,hmem⟩⟩

/-- A settled plan is safe. -/
theorem settles_safe (hdemand : physicalize input scenario = .ok demand) {f : Frontier} {choice : VictimChoice}
    (h : Settles config fairness input demand plan f choice) :
    SafePlan config fairness input scenario demand plan := by
  obtain ⟨hsep,hrequired⟩ := physicalize_separates hdemand
  obtain ⟨hwalked,hplan,hpacked,htakeable,hfits⟩ := h
  have hget : ∀ id action, plan.bundleActions[id]? = some action ↔ (id,action) ∈ planEntries input demand choice := by
    rw [hplan]
    exact settled_get hsep hpacked f (executedPeak input demand f.execution)
  have hvictim : ∀ b ∈ input.bundles, ∀ action, action = .commitCpu ∨ action = .drop →
      (plan.bundleActions[b.bundleId]? = some action ↔ (b,action) ∈ choice.actions) :=
    fun b hb action haction => (hget _ _).trans (victim_entry hpacked hb haction)
  have hreclaimed : choice.reclaimedBytes =
      ((input.bundles.filter plan.takes).map (·.marginalReclaimableBytes)).sum := by
    have hperm := victims_perm hpacked (fun a => a = .commitCpu || a = .drop) plan.takes fun b hb => by
      unfold ScenarioPlan.takes
      rw [Bool.or_eq_true,decide_eq_true_eq,decide_eq_true_eq,hvictim b hb _ (.inl rfl),hvictim b hb _ (.inr rfl)]
      constructor
      · rintro (h | h)
        · exact ⟨_,rfl,h⟩
        · exact ⟨_,rfl,h⟩
      · rintro ⟨action,hkind,h⟩
        simp only [Bool.or_eq_true,decide_eq_true_eq] at hkind
        obtain rfl | rfl := hkind
        · exact .inl h
        · exact .inr h
    have hall : (choice.actions.filter fun a => a.2 = .commitCpu || a.2 = .drop) = choice.actions :=
      List.filter_eq_self.mpr fun a ha => by simpa using hpacked.chosen.acts a ha
    rw [(hperm.map _).sum_eq,hall,hpacked.chosen.reclaimed,List.map_map]
    rfl
  have hcopied : ((input.bundles.filter fun b => plan.bundleActions[b.bundleId]? = some .commitCpu).map
      (·.hostNeeded)).sum = choice.d2hBytes := by
    have hperm := victims_perm hpacked (fun a => a = .commitCpu)
      (fun b => plan.bundleActions[b.bundleId]? = some .commitCpu) fun b hb => by
        rw [decide_eq_true_eq,hvictim b hb _ (.inl rfl)]
        simp
    rw [(hperm.map _).sum_eq,hpacked.chosen.d2h,List.map_map]
    rfl
  have hpeak : plan.projectedHbmPeakBytes =
      (executedPeak input demand plan.executionOrder : ℤ) - choice.reclaimedBytes := by
    rw [hplan]
    rfl
  have horder : plan.executionOrder = f.execution := by
    rw [hplan]
    rfl
  refine ⟨?_,?_,?_,?_,?_,?_,?_,?_⟩
  · rintro b ⟨hb,c,hc,howned⟩
    refine (hget _ _).mpr (List.mem_append.mpr (.inl (List.mem_map.mpr ⟨b,?_,?_⟩)))
    · refine List.mem_filterMap.mpr ⟨b.bundleId,?_,bundle?_eq_some.mpr ⟨hb,rfl⟩⟩
      rw [hrequired,Dict.mem_sorted]
      refine Finset.mem_biUnion.mpr ⟨c,hc,?_⟩
      simpa [PolicyInput.bundleIdsByContext] using ⟨b,⟨hb,howned⟩,rfl⟩
    · rw [requiredAction_eq]
  · intro id action haction hkeep hprefetch
    obtain hentry | hentry := List.mem_append.mp ((hget _ _).mp haction)
    · obtain ⟨b,-,hb⟩ := List.mem_map.mp hentry
      have hneeded : requiredAction b = action := congrArg Prod.snd hb
      rw [requiredAction_eq] at hneeded
      split_ifs at hneeded
      · exact absurd hneeded.symm hprefetch
      · exact absurd hneeded.symm hkeep
    · obtain ⟨a,ha,heq⟩ := List.mem_map.mp hentry
      cases heq
      exact ⟨hpacked.chosen.acts a ha,a.1,(hpacked.victims a ha).1,rfl,htakeable a ha⟩
  · rw [hcopied]
    exact hpacked.chosen.host
  · rw [horder]
    exact hwalked.executed.trans (physicalize_candidates hdemand)
  · rw [horder]
    exact hwalked.eligible
  · rw [horder]
    exact hwalked.bounded
  · rw [hpeak,hreclaimed]
  · rw [hpeak,horder]
    have hfits' : executedPeak input demand f.execution ≤
        input.resources.hbmCapacityBytes + choice.reclaimedBytes := by omega
    omega

/-- A feasible plan of a scenario is safe. -/
theorem feasible_plan_safe (hdemand : physicalize input scenario = .ok demand)
    (hpack : pack fl config fairness input demand = .ok plan) (hfeasible : plan.feasible = true) :
    SafePlan config fairness input scenario demand plan := by
  unfold pack at hpack
  obtain ⟨_,-,hpack⟩ := bind_eq_ok.mp hpack
  cases hpack
  obtain ⟨f,choice,h⟩ := packPlan_settles hfeasible
  exact settles_safe hdemand h

/-- The plan copies the idle bundle to the host to restore the bundle of the first request. -/
theorem restored_plan_safe : ∃ demand plan,
    physicalize (crowdedInput 0 (Nat.zero_le _)) crowdedScenario = .ok demand ∧
    pack id {} none (crowdedInput 0 (Nat.zero_le _)) demand = .ok plan ∧
    plan.executionOrder = ["request","slow"] ∧ plan.bundleActions["bundle"]? = some .prefetchGpu ∧
    plan.bundleActions["idle"]? = some .commitCpu ∧
    SafePlan {} none (crowdedInput 0 (Nat.zero_le _)) crowdedScenario demand plan := by
  refine ⟨_,_,rfl,rfl,?_,?_,?_,feasible_plan_safe rfl rfl ?_⟩
  · decide +kernel
  · decide +kernel
  · decide +kernel
  · decide +kernel

end Plan
end BeliefKV
