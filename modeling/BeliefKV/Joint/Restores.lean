import BeliefKV.Joint.Planned
import BeliefKV.Joint.Reactive

/-! No admission without its restores. -/
namespace BeliefKV.JointScheduler

/-! ## The package -/

section Package
variable {fl : ℚ → ℚ} {config : WhatIfPackerConfig} {fairness : Option FairnessWindow} {input : PolicyInput}
  {demand : ScenarioDemand} {scenario : FrontierScenario}

/-- The startup bytes of the requests that a package leaves out. -/
def deferredStartup (demand : ScenarioDemand) (f : Frontier) : ℕ :=
  ((demand.startupBytesByRequest.toList.filter fun e => e.1 ∉ f.execution).map Prod.snd).sum

/-- A feasible plan has room for its peak. -/
structure Roomy (input : PolicyInput) (demand : ScenarioDemand) (f : Frontier) (choice : VictimChoice) :
    Prop where
  packed : Packed input demand choice
  executes : f.execution.Sublist demand.candidateRequestIds
  room : demand.projectedHbmPeakBytes ≤
    input.resources.hbmCapacityBytes + choice.reclaimedBytes + deferredStartup demand f

theorem makeRoom_roomy {f : Frontier} (hblocked : blockedRequired input demand = [])
    (hexecutes : f.execution.Sublist demand.candidateRequestIds)
    (h : (makeRoom fl config input demand f).feasible = true) :
    ∃ peak choice, makeRoom fl config input demand f = settled input demand f peak choice ∧
      Roomy input demand f choice := by
  simp only [makeRoom] at h ⊢
  split_ifs at h ⊢ with hshort hcap hlocked
  · refine ⟨_,_,rfl,nothing_packed hblocked,hexecutes,?_⟩
    simp only [deferredStartup]
    omega
  · cases h
  · cases h
  · refine ⟨_,_,rfl,chooseVictims_packed fl config hblocked _,hexecutes,?_⟩
    simp only [deferredStartup]
    omega

theorem packPlan_roomy (h : (packPlan fl config fairness input demand).feasible = true) :
    ∃ f peak choice, packPlan fl config fairness input demand = settled input demand f peak choice ∧
      Roomy input demand f choice := by
  simp only [packPlan] at h ⊢
  split_ifs at h ⊢ with hexact hnone hmissing hblocked
  · cases h
  · cases h
  · cases h
  · cases h
  · have hexecutes := visits_execution config fairness input demand.candidateRequestIds
      { blockers := demand.blockerReasons }
    obtain ⟨peak,choice,heq,hroomy⟩ := makeRoom_roomy (not_ne_iff.mp hblocked) hexecutes h
    exact ⟨_,peak,choice,heq,hroomy⟩

/-- The demand of a scenario without growth. -/
structure Demanded (input : PolicyInput) (scenario : FrontierScenario) (demand : ScenarioDemand) : Prop where
  candidates : demand.candidateRequestIds = (scenarioCandidates input scenario).map (·.requestId)
  required : demand.requiredGpuBundles = Dict.sorted (requiredIds input scenario)
  startup : demand.startupBytesByRequest = startupByRequest input scenario
  peak : demand.projectedHbmPeakBytes = input.resources.hbmUsedBytes + input.resources.hbmReservedBytes +
    (demand.requiredGpuBundles.map (missingOf input)).sum + (startupByRequest input scenario).vals.sum

theorem physicalize_demanded (h : physicalize input scenario = .ok demand)
    (hgrowth : scenario.projectedGrowthBytes = ∅) (hfresh : scenario.anonymousFreshBytes = 0) :
    Demanded input scenario demand := by
  unfold physicalize at h
  obtain ⟨_,-,h⟩ := bind_eq_ok.mp h
  cases h
  refine ⟨rfl,rfl,rfl,?_⟩
  have hnone : (∅ : Dict String ℕ).vals.sum = 0 := rfl
  simp only [hgrowth,hfresh,hnone,Nat.zero_add,Nat.add_zero]
  rfl

theorem candidates_nodup : ((scenarioCandidates input scenario).map (·.requestId)).Nodup :=
  scenario.candidates_unique.sublist (requests_ids _)

/-- The startup bytes by request are those of the candidates. -/
theorem startup_perm : ((startupByRequest input scenario).toList).Perm
    ((scenarioCandidates input scenario).map fun r => (r.requestId,BeliefKV.unreservedStartupBytes r)) := by
  have hfold : startupByRequest input scenario = ((scenarioCandidates input scenario).map fun r =>
      (r.requestId,BeliefKV.unreservedStartupBytes r)).foldl (fun d e => d.insert e.1 e.2) ∅ := by
    rw [List.foldl_map]
    rfl
  rw [hfold]
  refine Dict.toList_foldl_insert ?_
  rw [List.map_map]
  exact candidates_nodup

theorem sum_filter_add (l : List RunnableInvocation) (p : RunnableInvocation → Bool)
    (g : RunnableInvocation → ℕ) :
    ((l.filter p).map g).sum + ((l.filter fun r => !p r).map g).sum = (l.map g).sum := by
  induction l with
  | nil => rfl
  | cons r l ih =>
    cases hp : p r
    · simp only [List.filter_cons,hp,Bool.not_false,if_true,List.map_cons,List.sum_cons]
      simp only [Bool.false_eq_true,if_false]
      omega
    · simp only [List.filter_cons,hp,Bool.not_true,if_true,List.map_cons,List.sum_cons]
      simp only [Bool.false_eq_true,if_false]
      omega

/-- The executed requests, the restores and what is in use fit after the reclaims. -/
theorem Roomy.fits {f : Frontier} {choice : VictimChoice} (h : Roomy input demand f choice)
    (hdemanded : Demanded input scenario demand) :
    input.resources.hbmUsedBytes + input.resources.hbmReservedBytes +
      (demand.requiredGpuBundles.map (missingOf input)).sum +
        (((scenarioCandidates input scenario).filter fun r => r.requestId ∈ f.execution).map
          BeliefKV.unreservedStartupBytes).sum ≤
      input.resources.hbmCapacityBytes + choice.reclaimedBytes := by
  have hroom := h.room
  have hsplit := sum_filter_add (scenarioCandidates input scenario) (fun r => r.requestId ∈ f.execution)
    BeliefKV.unreservedStartupBytes
  have hvals : (startupByRequest input scenario).vals.sum =
      ((scenarioCandidates input scenario).map BeliefKV.unreservedStartupBytes).sum := by
    rw [Dict.vals,(startup_perm.map Prod.snd).sum_eq,List.map_map]
    rfl
  have hdeferred : deferredStartup demand f = (((scenarioCandidates input scenario).filter fun r =>
      !decide (r.requestId ∈ f.execution)).map BeliefKV.unreservedStartupBytes).sum := by
    rw [deferredStartup,hdemanded.startup,((startup_perm.filter _).map Prod.snd).sum_eq,List.filter_map,
      List.map_map]
    simp [Function.comp_def]
  rw [hdemanded.peak,hvals,hdeferred] at hroom
  omega

end Package

/-! ## What a package reclaims -/

section Reclaims
variable {input : PolicyInput} {demand : ScenarioDemand}

def reclaimedByEntry (input : PolicyInput) (entry : String × ResidencyAction) : ℕ :=
  if Reclaims entry.2 then (input.bundle? entry.1).elim 0 (·.marginalReclaimableBytes) else 0

theorem reclaimed_package {J : Type} (source : ObservedInput J) (package : ScenarioPlan) :
    reclaimedMarginal source.toPolicyInput (packageResidency source package) =
      (package.bundleActions.toList.map (reclaimedByEntry source.toPolicyInput)).sum := by
  unfold packageResidency
  induction package.bundleActions.toList with
  | nil => rfl
  | cons entry entries ih =>
    rw [List.map_cons,List.sum_cons,← ih]
    cases hb : source.bundle? entry.1 with
    | none => simp [reclaimedMarginal,reclaimedByEntry,hb]
    | some b =>
      have hid := (bundle?_eq_some.mp hb).2
      by_cases hreclaims : Reclaims entry.2
      · simp [reclaimedMarginal,reclaimedByEntry,hb,hid,hreclaims]
      · simp [reclaimedMarginal,reclaimedByEntry,hb,hreclaims]

theorem reclaimed_entries {choice : VictimChoice} (h : Packed input demand choice) :
    ((planEntries input demand choice).map (reclaimedByEntry input)).sum = choice.reclaimedBytes := by
  have hrequired : ((requiredBundles input demand).map fun b =>
      reclaimedByEntry input (b.bundleId,requiredAction b)).sum = 0 := by
    refine List.sum_eq_zero fun n hn => ?_
    obtain ⟨b,-,rfl⟩ := List.mem_map.mp hn
    refine if_neg ?_
    unfold requiredAction
    split_ifs
    · rintro (hact | hact | hact) <;> cases hact
    · rintro (hact | hact | hact) <;> cases hact
  have hvictims : choice.actions.map (fun a => reclaimedByEntry input (a.1.bundleId,a.2)) =
      choice.actions.map (·.1.marginalReclaimableBytes) := by
    refine List.map_congr_left fun a ha => ?_
    have hreclaims : Reclaims a.2 := (h.chosen.acts a ha).imp_right .inl
    rw [reclaimedByEntry,if_pos hreclaims,bundle?_eq_some.mpr ⟨(h.victims a ha).1,rfl⟩]
    rfl
  rw [planEntries,List.map_append,List.sum_append,List.map_map,List.map_map]
  simp only [Function.comp_def]
  rw [hrequired,hvictims,h.chosen.reclaimed,Nat.zero_add]

end Reclaims

/-! ## The plan of a package -/

section Made
variable {J : Type} {fl : ℚ → ℚ} {config : JointPlannerConfig} {source : ObservedInput J}
  {order : CandidateOrder} {package : ScenarioPlan}

/-- A feasible package, with the demand that it settles. -/
structure Settles (source : ObservedInput J) (package : ScenarioPlan) (scenario : FrontierScenario)
    (demand : ScenarioDemand) (choice : VictimChoice) : Prop where
  demanded : Demanded source.toPolicyInput scenario demand
  separates : Separates demand
  packed : Packed source.toPolicyInput demand choice
  actions : package.bundleActions.toList.Perm (planEntries source.toPolicyInput demand choice)
  executes : package.executionOrder.Sublist demand.candidateRequestIds
  fits : source.resources.hbmUsedBytes + source.resources.hbmReservedBytes +
    (demand.requiredGpuBundles.map (missingOf source.toPolicyInput)).sum +
      (((scenarioCandidates source.toPolicyInput scenario).filter fun r =>
        r.requestId ∈ package.executionOrder).map BeliefKV.unreservedStartupBytes).sum ≤
    source.resources.hbmCapacityBytes + choice.reclaimedBytes

theorem package_settles {length : ℕ} (h : packageAt fl config source order length = .ok package)
    (hfeasible : package.feasible = true) :
    ∃ demand choice, Settles source package (packageScenario order length) demand choice := by
  obtain ⟨demand,hdemand,hplan⟩ := bind_eq_ok.mp h
  obtain ⟨hsep,-⟩ := physicalize_separates hdemand
  obtain ⟨_,-,hplan⟩ := bind_eq_ok.mp hplan
  cases hplan
  obtain ⟨f,peak,choice,heq,hroomy⟩ := packPlan_roomy hfeasible
  have hdemanded := physicalize_demanded hdemand rfl rfl
  refine ⟨demand,choice,hdemanded,hsep,hroomy.packed,?_,?_,?_⟩
  · rw [heq,settled_bundleActions]
    exact Dict.toList_foldl_insert (nodup_planEntries hsep hroomy.packed)
  · rw [heq]
    exact hroomy.executes
  · rw [heq]
    exact hroomy.fits hdemanded

namespace Settles
variable {scenario : FrontierScenario} {demand : ScenarioDemand} {choice : VictimChoice}

theorem candidate (h : Settles source package scenario demand choice) {r : RunnableInvocation}
    (hr : r ∈ source.runnableFrontier) (hin : r.requestId ∈ package.executionOrder) :
    r ∈ scenarioCandidates source.toPolicyInput scenario := by
  have hid := h.executes.subset hin
  rw [h.demanded.candidates] at hid
  obtain ⟨c,hc,heq⟩ := List.mem_map.mp hid
  obtain ⟨id,-,hget⟩ := List.mem_filterMap.mp hc
  obtain ⟨hc',-⟩ := request?_eq_some.mp hget
  rwa [List.inj_on_of_nodup_map source.requests_unique hc' hr heq] at hc

/-- What an executed request owns is required. -/
theorem required (h : Settles source package scenario demand choice) {r : RunnableInvocation}
    (hr : r ∈ source.runnableFrontier) (hin : r.requestId ∈ package.executionOrder)
    {b : PhysicalBundleSnapshot} (hb : b ∈ source.bundles) (howned : r.contextId ∈ b.ownerContextIds) :
    b.bundleId ∈ demand.requiredGpuBundles := by
  rw [h.demanded.required,Dict.mem_sorted,requiredIds,Finset.mem_biUnion]
  refine ⟨r.contextId,?_,?_⟩
  · refine Finset.mem_union_left _ (Finset.mem_union_left _ (List.mem_toFinset.mpr ?_))
    exact List.mem_map_of_mem (h.candidate hr hin)
  · refine List.mem_toFinset.mpr (List.mem_map_of_mem (List.mem_filter.mpr ⟨hb,?_⟩))
    simpa using howned

theorem prefetched (h : Settles source package scenario demand choice) {b : PhysicalBundleSnapshot}
    (hb : b ∈ source.bundles) (hreq : b.bundleId ∈ demand.requiredGpuBundles) (hmissing : b.missingBytes ≠ 0) :
    package.bundleActions[b.bundleId]? = some .prefetchGpu := by
  rw [← Std.ExtTreeMap.mem_toList_iff_getElem?_eq_some,h.actions.mem_iff]
  refine List.mem_append_left _ (List.mem_map.mpr ⟨b,?_,by rw [requiredAction,if_pos hmissing]⟩)
  exact List.mem_filterMap.mpr ⟨b.bundleId,hreq,bundle?_eq_some.mpr ⟨hb,rfl⟩⟩

/-- What is reclaimed is not required. -/
theorem reclaimed_optional (h : Settles source package scenario demand choice) {id : String}
    {action : ResidencyAction} (hget : package.bundleActions[id]? = some action) (haction : Reclaims action) :
    id ∉ demand.requiredGpuBundles := by
  rw [← Std.ExtTreeMap.mem_toList_iff_getElem?_eq_some,h.actions.mem_iff] at hget
  rcases List.mem_append.mp hget with hreq | hvictim
  · obtain ⟨b,-,hentry⟩ := List.mem_map.mp hreq
    obtain ⟨-,heq⟩ := Prod.mk.inj hentry
    rw [← heq,requiredAction] at haction
    split_ifs at haction
    · rcases haction with hact | hact | hact <;> cases hact
    · rcases haction with hact | hact | hact <;> cases hact
  · obtain ⟨a,ha,hentry⟩ := List.mem_map.mp hvictim
    obtain ⟨rfl,-⟩ := Prod.mk.inj hentry
    exact h.separates.apart _ (h.packed.victims a ha).2.2

/-- The bundles that an executed request restores are required. -/
theorem restored_required (h : Settles source package scenario demand choice) {r : RunnableInvocation}
    (hr : r ∈ source.runnableFrontier) (hin : r.requestId ∈ package.executionOrder) :
    ∀ b ∈ restoredBundles source package r, b.bundleId ∈ demand.requiredGpuBundles := by
  intro b hb
  obtain ⟨id,hid,hget⟩ := List.mem_filterMap.mp (List.mem_filter.mp hb).1
  obtain ⟨hmem,rfl⟩ := bundle?_eq_some.mp hget
  rw [Dict.mem_sorted] at hid
  obtain ⟨c,hc,heq⟩ := List.mem_map.mp (List.mem_toFinset.mp hid)
  obtain ⟨hc,howned⟩ := List.mem_filter.mp hc
  rw [← heq]
  exact h.required hr hin hc (by simpa using howned)

end Settles
/-- An intent of a package that runs is that of an executed request. -/
theorem packageAdmission_runs {charged : Finset String} {r : RunnableInvocation}
    (h : (packageAdmission source package charged r).Runs) : r.requestId ∈ package.executionOrder := by
  by_contra hin
  simp only [PlannedAdmission.Runs,packageAdmission,if_neg hin] at h
  rcases h with h | h <;> cases h

theorem runs_of_package {a : PlannedAdmission}
    (ha : a ∈ packageAdmissions source package source.runnableFrontier ∅) (hruns : a.Runs) :
    ∃ r ∈ source.runnableFrontier, r.requestId ∈ package.executionOrder ∧
      source.request? a.requestId = some r := by
  obtain ⟨pre,post,heq⟩ := List.append_of_mem ha
  obtain ⟨r,hr,hadmission⟩ := packageAdmissions_split _ heq
  subst hadmission
  exact ⟨r,hr,packageAdmission_runs hruns,request?_eq_some.mpr ⟨hr,rfl⟩⟩

theorem mem_packageResidency {intent : PlannedResidency}
    (h : intent ∈ packageResidency source package) : ∃ b, source.bundle? intent.bundleId = some b ∧
      package.bundleActions[intent.bundleId]? = some intent.action := by
  obtain ⟨⟨id,action⟩,hentry,hintent⟩ := List.mem_filterMap.mp h
  obtain ⟨b,hb,rfl⟩ := Option.map_eq_some_iff.mp hintent
  obtain ⟨hmem,hid⟩ := bundle?_eq_some.mp hb
  subst hid
  exact ⟨b,hb,Std.ExtTreeMap.mem_toList_iff_getElem?_eq_some.mp hentry⟩

/-- Every bundle that an executed request restores has a dependency. -/
theorem awaits_of_package {r : RunnableInvocation} (hr : r ∈ source.runnableFrontier)
    (hin : r.requestId ∈ package.executionOrder) {b : PhysicalBundleSnapshot}
    (hb : b ∈ restoredBundles source package r) :
    Awaits (packageResidency source package) (packageDependencies source package) r.requestId b := by
  obtain ⟨hget,haction⟩ := restoredBundles_get hb
  have hintent : ∃ intent ∈ packageResidency source package, intent.bundleId = b.bundleId :=
    ⟨_,List.mem_filterMap.mpr ⟨(b.bundleId,.prefetchGpu),
      Std.ExtTreeMap.mem_toList_iff_getElem?_eq_some.mpr haction,by rw [hget]; rfl⟩,rfl⟩
  have hlt : (packageResidency source package).findIdx (·.bundleId = b.bundleId) <
      (packageResidency source package).length := by
    rw [List.findIdx_lt_length]
    simpa using hintent
  refine ⟨⟨some r.requestId,(packageResidency source package).findIdx (·.bundleId = b.bundleId),true⟩,
    ?_,rfl,rfl,_,List.getElem?_eq_getElem hlt,?_,?_⟩
  · refine List.mem_flatMap.mpr ⟨r,List.mem_filter.mpr ⟨hr,by simpa using hin⟩,?_⟩
    exact List.mem_map_of_mem hb
  · simpa using List.findIdx_getElem (w := hlt)
  · obtain ⟨c,-,hact⟩ := mem_packageResidency (List.getElem_mem hlt)
    have hid : ((packageResidency source package)[(packageResidency source package).findIdx
        (·.bundleId = b.bundleId)]).bundleId = b.bundleId := by simpa using List.findIdx_getElem (w := hlt)
    rw [hid,haction,Option.some.injEq] at hact
    exact hact.symm

theorem sum_ids (l : List PhysicalBundleSnapshot) (hnodup : (l.map (·.bundleId)).Nodup)
    (h : ∀ b ∈ l, source.bundle? b.bundleId = some b) : (l.map (·.missingBytes)).sum =
      ∑ id ∈ (l.map (·.bundleId)).toFinset, missingOf source.toPolicyInput id := by
  rw [List.sum_toFinset _ hnodup,List.map_map]
  refine congrArg List.sum (List.map_congr_left fun b hb => ?_)
  simp [missingOf,h b hb]

/-- What a package reserves is the startup of its requests, and each restore at most once. -/
theorem package_reserved (T : Finset String) (frontier : List RunnableInvocation)
    (hT : ∀ r ∈ frontier, r.requestId ∈ package.executionOrder →
      ∀ b ∈ restoredBundles source package r, b.bundleId ∈ T) : ∀ charged : Finset String,
    ((packageAdmissions source package frontier charged).map (·.reservedBytes)).sum ≤
      ((frontier.filter fun r => r.requestId ∈ package.executionOrder).map unreservedStartupBytes).sum +
        ∑ id ∈ T \ charged, missingOf source.toPolicyInput id := by
  induction frontier with
  | nil => simp [packageAdmissions]
  | cons r frontier ih =>
    intro charged
    have hrest := ih (fun q hq => hT q (List.mem_cons_of_mem _ hq))
      (charged ∪ (packageAdmission source package charged r).requiredBundleIds.toFinset)
    rw [packageAdmissions,List.map_cons,List.sum_cons]
    by_cases hin : r.requestId ∈ package.executionOrder
    · set new := (restoredBundles source package r).filter (·.bundleId ∉ charged) with hnew
      have hreserved : (packageAdmission source package charged r).reservedBytes =
          unreservedStartupBytes r + (new.map (·.missingBytes)).sum := by
        simp only [packageAdmission,if_pos hin]
        rfl
      have hids : (packageAdmission source package charged r).requiredBundleIds =
          (restoredBundles source package r).map (·.bundleId) := by
        simp only [packageAdmission,if_pos hin]
      have hsum : (new.map (·.missingBytes)).sum =
          ∑ id ∈ (new.map (·.bundleId)).toFinset, missingOf source.toPolicyInput id := sum_ids new
        ((nodup_restoredBundles source package r).sublist (List.filter_sublist.map _))
        fun b hb => (restoredBundles_get (List.mem_filter.mp hb).1).1
      have hsubset : (new.map (·.bundleId)).toFinset ⊆ T \ charged := by
        intro id hid
        obtain ⟨b,hb,rfl⟩ := List.mem_map.mp (List.mem_toFinset.mp hid)
        obtain ⟨hb,hfree⟩ := List.mem_filter.mp hb
        exact Finset.mem_sdiff.mpr ⟨hT r List.mem_cons_self hin b hb,by simpa using hfree⟩
      have hcharged : T \ (charged ∪ ((restoredBundles source package r).map (·.bundleId)).toFinset) =
          (T \ charged) \ (new.map (·.bundleId)).toFinset := by
        ext id
        simp only [Finset.mem_sdiff,Finset.mem_union,List.mem_toFinset,List.mem_map,hnew,List.mem_filter,
          decide_eq_true_eq,not_or]
        constructor
        · rintro ⟨hmem,hfree,hnot⟩
          refine ⟨⟨hmem,hfree⟩,?_⟩
          rintro ⟨b,⟨hb,-⟩,hid⟩
          exact hnot ⟨b,hb,hid⟩
        · rintro ⟨⟨hmem,hfree⟩,hnot⟩
          refine ⟨hmem,hfree,?_⟩
          rintro ⟨b,hb,hid⟩
          exact hnot ⟨b,⟨hb,hid ▸ hfree⟩,hid⟩
      rw [hids,hcharged] at hrest
      have htotal := Finset.sum_sdiff (f := missingOf source.toPolicyInput) hsubset
      rw [List.filter_cons_of_pos (by simpa using hin),List.map_cons,List.sum_cons,hreserved,hsum,
        hids]
      omega
    · have hreserved : (packageAdmission source package charged r).reservedBytes = 0 := by
        simp only [packageAdmission,if_neg hin]
      have hids : (packageAdmission source package charged r).requiredBundleIds = [] := by
        simp only [packageAdmission,if_neg hin]
      rw [hids,List.toFinset_nil,Finset.union_empty] at hrest
      rw [List.filter_cons_of_neg (by simpa using hin),hreserved,Nat.zero_add,hids,List.toFinset_nil,
        Finset.union_empty]
      exact hrest

theorem unreserved_le (r : RunnableInvocation) :
    unreservedStartupBytes r ≤ BeliefKV.unreservedStartupBytes r := by
  unfold unreservedStartupBytes BeliefKV.unreservedStartupBytes
  split_ifs with hjoint hplain
  · exact le_rfl
  · exact Nat.zero_le _
  · simp_all
  · exact le_rfl

theorem sum_le_of_subset {A : Type} {l l' : List A} {g : A → ℕ} (hnodup : l.Nodup) (h : l ⊆ l') :
    (l.map g).sum ≤ (l'.map g).sum := by
  obtain ⟨k,hperm,hsub⟩ := hnodup.subperm h
  rw [← (hperm.map g).sum_eq]
  exact (hsub.map g).sum_le_sum fun _ _ => Nat.zero_le _

/-- The plan of a feasible package restores first. -/
theorem package_restores {length : ℕ} (h : packageAt fl config source order length = .ok package)
    (hfeasible : package.feasible = true) : RestoresFirst source.toPolicyInput
      (packageAdmissions source package source.runnableFrontier ∅) (packageResidency source package)
      (packageDependencies source package) := by
  obtain ⟨demand,choice,hsettles⟩ := package_settles h hfeasible
  refine ⟨?_,?_,?_⟩
  · intro a ha hruns
    obtain ⟨r,hr,hin,hget⟩ := runs_of_package ha hruns
    refine ⟨r,hget,fun b hb => ?_⟩
    have hmissing : b.missingBytes ≠ 0 := by
      have hlt := hb.missing
      unfold PhysicalBundleSnapshot.missingBytes
      omega
    have haction := hsettles.prefetched hb.known (hsettles.required hr hin hb.known hb.owned) hmissing
    have hrestored : b ∈ restoredBundles source package r := by
      refine List.mem_filter.mpr ⟨List.mem_filterMap.mpr ⟨b.bundleId,?_,bundle?_eq_some.mpr ⟨hb.known,rfl⟩⟩,
        by simpa using haction⟩
      rw [Dict.mem_sorted]
      refine List.mem_toFinset.mpr (List.mem_map_of_mem (List.mem_filter.mpr ⟨hb.known,?_⟩))
      simpa using hb.owned
    rw [← (request?_eq_some.mp hget).2]
    exact awaits_of_package hr hin hrestored
  · intro intent hintent haction a ha hruns r hget b hb howned
    obtain ⟨q,hq,hin,hget'⟩ := runs_of_package ha hruns
    rw [hget,Option.some.injEq] at hget'
    subst hget'
    obtain ⟨c,hc,hact⟩ := mem_packageResidency hintent
    obtain ⟨hmem,hid⟩ := bundle?_eq_some.mp hb
    exact hsettles.reclaimed_optional hact haction (hid ▸ hsettles.required hq hin hmem howned)
  · have hreserved : ((packageAdmissions source package source.runnableFrontier ∅).map (·.reservedBytes)).sum ≤
        ((source.runnableFrontier.filter fun r => r.requestId ∈ package.executionOrder).map
          unreservedStartupBytes).sum + ∑ id ∈ demand.requiredGpuBundles.toFinset \ ∅,
            missingOf source.toPolicyInput id :=
      package_reserved demand.requiredGpuBundles.toFinset source.runnableFrontier
      (fun r hr hin b hb => List.mem_toFinset.mpr (hsettles.restored_required hr hin b hb)) ∅
    rw [Finset.sdiff_empty,List.sum_toFinset _ hsettles.separates.nodup] at hreserved
    have hruns : (((packageAdmissions source package source.runnableFrontier ∅).filter fun a => a.Runs).map
        (·.reservedBytes)).sum ≤ ((packageAdmissions source package source.runnableFrontier ∅).map
          (·.reservedBytes)).sum :=
      (List.filter_sublist.map _).sum_le_sum fun _ _ => Nat.zero_le _
    have hstartup : ((source.runnableFrontier.filter fun r => r.requestId ∈ package.executionOrder).map
        unreservedStartupBytes).sum ≤ (((scenarioCandidates source.toPolicyInput
          (packageScenario order length)).filter fun r => r.requestId ∈ package.executionOrder).map
            BeliefKV.unreservedStartupBytes).sum := by
      refine le_trans (List.sum_le_sum fun r _ => unreserved_le r) ?_
      refine sum_le_of_subset (source.requests_unique.of_map.filter _) fun r hr => ?_
      obtain ⟨hr,hin⟩ := List.mem_filter.mp hr
      exact List.mem_filter.mpr ⟨hsettles.candidate hr (by simpa using hin),hin⟩
    have hpackage : ((packageAdmissions source package source.runnableFrontier ∅).map (·.reservedBytes)).sum ≤
        ((source.runnableFrontier.filter fun r => r.requestId ∈ package.executionOrder).map
          unreservedStartupBytes).sum + (demand.requiredGpuBundles.map (missingOf source.toPolicyInput)).sum :=
      hreserved
    have hfits := hsettles.fits
    rw [reclaimed_package,(hsettles.actions.map _).sum_eq,reclaimed_entries hsettles.packed]
    omega

end Made

/-! ## The planner -/

section Planner
variable {J : Type} {readers : Readers J} {fl : ℚ → ℚ} {config : JointPlannerConfig}
  {source : ObservedInput J}

theorem admitFitting_fits (cpuResident : String → Bool) (candidates : List RunnableInvocation) :
    ∀ available : ℕ, ((admitFitting cpuResident candidates available).map unreservedStartupBytes).sum ≤
      available ∧ ∀ r ∈ admitFitting cpuResident candidates available, cpuResident r.contextId = false := by
  induction candidates with
  | nil => simp [admitFitting]
  | cons r candidates ih =>
    intro available
    rw [admitFitting]
    by_cases hskip : (cpuResident r.contextId || available < unreservedStartupBytes r) = true
    · rw [if_pos hskip]
      exact ih available
    · rw [if_neg hskip]
      simp only [Bool.or_eq_true,decide_eq_true_eq,not_or,Bool.not_eq_true,not_lt] at hskip
      obtain ⟨hsum,hresident⟩ := ih (available - unreservedStartupBytes r)
      rw [List.map_cons,List.sum_cons]
      refine ⟨by omega,fun q hq => ?_⟩
      rcases List.mem_cons.mp hq with rfl | hq
      · exact hskip.1
      · exact hresident q hq

/-- A plan that restores nothing admits only requests that miss nothing. -/
theorem plain_restores {admitted : List RunnableInvocation}
    (hrunnable : ∀ r ∈ admitted, r ∈ source.runnableFrontier)
    (hresident : ∀ r ∈ admitted, cpuResidentContext source r.contextId = false)
    (hfits : (admitted.map unreservedStartupBytes).sum ≤ hbmAvailableBytes source) :
    RestoresFirst source.toPolicyInput
      (source.runnableFrontier.map (plainAdmission (admitted.map (·.requestId)))) [] [] := by
  refine ⟨?_,by simp,?_⟩
  · intro a ha hruns
    obtain ⟨r,hr,rfl⟩ := List.mem_map.mp ha
    refine ⟨r,request?_eq_some.mpr ⟨hr,rfl⟩,fun b hb => ?_⟩
    have hin : r.requestId ∈ admitted.map (·.requestId) := by
      by_contra hout
      simp only [PlannedAdmission.Runs,plainAdmission,if_neg hout] at hruns
      rcases hruns with h | h <;> cases h
    obtain ⟨q,hq,hid⟩ := List.mem_map.mp hin
    have hsame : q = r := List.inj_on_of_nodup_map source.requests_unique (hrunnable q hq) hr hid
    have hnone := hresident r (hsame ▸ hq)
    rw [cpuResidentContext,List.any_eq_false] at hnone
    have hpartial := hnone b hb.known
    simp [hb.missing,hb.owned] at hpartial
  · have hreserved : (((source.runnableFrontier.map (plainAdmission (admitted.map (·.requestId)))).filter
        fun a => a.Runs).map (·.reservedBytes)).sum ≤ ((source.runnableFrontier.filter fun r =>
          r.requestId ∈ admitted.map (·.requestId)).map unreservedStartupBytes).sum := by
      induction source.runnableFrontier with
      | nil => exact le_rfl
      | cons r frontier ih =>
        by_cases hin : r.requestId ∈ admitted.map (·.requestId)
        · have hruns : (plainAdmission (admitted.map (·.requestId)) r).Runs := .inl (if_pos hin)
          have hbytes : (plainAdmission (admitted.map (·.requestId)) r).reservedBytes =
              unreservedStartupBytes r := if_pos hin
          rw [List.map_cons,List.filter_cons_of_pos (by simpa using hruns),List.map_cons,List.sum_cons,
            List.filter_cons_of_pos (by simpa using hin),List.map_cons,List.sum_cons,hbytes]
          omega
        · have hruns : ¬ (plainAdmission (admitted.map (·.requestId)) r).Runs := by
            simp [PlannedAdmission.Runs,plainAdmission,hin]
          rw [List.map_cons,List.filter_cons_of_neg (by simpa using hruns),
            List.filter_cons_of_neg (by simpa using hin)]
          exact ih
    have hsubset : ((source.runnableFrontier.filter fun r => r.requestId ∈ admitted.map (·.requestId)).map
        unreservedStartupBytes).sum ≤ (admitted.map unreservedStartupBytes).sum := by
      refine sum_le_of_subset (source.requests_unique.of_map.filter _) fun r hr => ?_
      obtain ⟨hr,hin⟩ := List.mem_filter.mp hr
      obtain ⟨q,hq,hid⟩ := List.mem_map.mp (show r.requestId ∈ admitted.map (·.requestId) by simpa using hin)
      rwa [List.inj_on_of_nodup_map source.requests_unique (hrunnable q hq) hr hid] at hq
    unfold hbmAvailableBytes at hfits
    omega

theorem plainPlan_restores {admitted : List RunnableInvocation} {plan : PlannedJointPlan}
    (hrunnable : ∀ r ∈ admitted, r ∈ source.runnableFrontier)
    (hresident : ∀ r ∈ admitted, cpuResidentContext source r.contextId = false)
    (hfits : (admitted.map unreservedStartupBytes).sum ≤ hbmAvailableBytes source)
    (h : plainPlan readers fl config source admitted = .ok plan) :
    RestoresFirst source.toPolicyInput plan.admissions plan.residency plan.dependencies := by
  obtain ⟨_,-,h⟩ := bind_eq_ok.mp h
  cases h
  exact plain_restores hrunnable hresident hfits

/-- Every plan of the planner restores first. -/
theorem plan_restores {order : CandidateOrder} {interrupts : Interrupts} {plan : PlannedJointPlan}
    (hrunnable : ∀ r ∈ order.requests, r ∈ source.runnableFrontier)
    (h : JointScheduler.plan readers fl config source order interrupts = .ok plan) :
    RestoresFirst source.toPolicyInput plan.admissions plan.residency plan.dependencies := by
  unfold JointScheduler.plan at h
  by_cases hopen : (transitionOpen readers source || order.requests.isEmpty) = true
  · rw [if_pos hopen] at h
    exact plainPlan_restores (by simp) (by simp) (by simp) h
  rw [if_neg hopen] at h
  obtain ⟨seed,hseed,h⟩ := bind_eq_ok.mp h
  have hplain : RestoresFirst source.toPolicyInput seed.admissions seed.residency seed.dependencies := by
    obtain ⟨hfits,hresident⟩ := admitFitting_fits (cpuResidentContext source) order.requests
      (hbmAvailableBytes source)
    exact plainPlan_restores (fun r hr => hrunnable r ((admitFitting_sublist _ _ _).subset hr)) hresident
      hfits hseed
  by_cases hearly : interrupts.early = true
  · rw [if_pos hearly] at h
    cases h
    exact hplain
  rw [if_neg hearly] at h
  cases hsearch : search fl config source order interrupts config.maxPackageEvaluations
      { low := 1, high := order.requests.length } with
  | error e =>
    simp only [hsearch] at h
    cases h
    exact hplain
  | ok s =>
    simp only [hsearch] at h
    cases hselected : s.selected with
    | none =>
      simp only [hselected] at h
      cases h
      exact hplain
    | some package =>
      simp only [hselected] at h
      obtain ⟨hfeasible,n,hpack⟩ := search_selected (fun p hp => by cases hp) hsearch package hselected
      obtain ⟨_,-,h⟩ := bind_eq_ok.mp h
      cases h
      exact package_restores hpack hfeasible

end Planner

/-- The planner never admits a request without its restores. The reactive policy does not either exactly if
no restore serves two of the requests it admits. -/
theorem restores_first_iff {J : Type} (readers : Readers J) (fl : ℚ → ℚ) (config : JointPlannerConfig)
    (reactive : ReactivePolicyConfig) (source : ObservedInput J) (order : CandidateOrder)
    (interrupts : Interrupts) (hrunnable : ∀ r ∈ order.requests, r ∈ source.runnableFrontier) :
    (∀ plan, JointScheduler.plan readers fl config source order interrupts = .ok plan →
      RestoresFirst source.toPolicyInput plan.admissions plan.residency plan.dependencies) ∧
    ∃ out, reactiveDecide reactive source.toPolicyInput = .ok out ∧
      (RestoresFirst source.toPolicyInput out.admissions out.residency out.dependencies ↔
        Unshared reactive source.toPolicyInput) :=
  ⟨fun _ h => plan_restores hrunnable h,_,reactiveDecide_eq_ok reactive source.toPolicyInput,
    reactive_restores_iff⟩

/-! ## A shared restore -/

theorem fifo_of_sorted {input : PolicyInput}
    (h : input.runnableFrontier.Pairwise fun a b => fifoKey a ≤ fifoKey b) :
    fifoFrontier input = input.runnableFrontier :=
  List.mergeSort_of_pairwise (by simpa using h)

def reactiveShared (owners : List String) (h : owners.Nodup) : Except Raised PolicyOutput :=
  reactiveDecide {} (sharedInput owners h).toPolicyInput

/-- Where the first request alone owns the bundle, both policies restore first. -/
theorem own_restore_first : (∃ plan, sharedPlan ["one"] (by decide) = .ok plan ∧
    RestoresFirst (sharedInput ["one"] (by decide)).toPolicyInput plan.admissions plan.residency
      plan.dependencies) ∧
    ∃ out, reactiveShared ["one"] (by decide) = .ok out ∧
      RestoresFirst (sharedInput ["one"] (by decide)).toPolicyInput out.admissions out.residency
        out.dependencies := by
  have hboth := restores_first_iff stateReaders id {} {} (sharedInput ["one"] (by decide)) bothInOrder
    uninterrupted fun r hr => hr
  obtain ⟨hplan,out,hout,hiff⟩ := hboth
  refine ⟨⟨_,rfl,hplan _ rfl⟩,out,hout,hiff.mpr ?_⟩
  intro pre r post hsplit hgrants b hb
  have hfifo : fifoFrontier (sharedInput ["one"] (by decide)).toPolicyInput = [firstRequest,secondRequest] :=
    fifo_of_sorted (by decide +kernel)
  rw [hfifo] at hsplit
  rcases pre with _ | ⟨first,_ | ⟨second,pre⟩⟩
  · exact Finset.notMem_empty _
  · obtain ⟨-,hrest⟩ := List.cons.inj hsplit
    obtain ⟨rfl,-⟩ := List.cons.inj hrest
    have howned := hb.owned
    rw [List.mem_singleton.mp hb.known] at howned
    have hforeign : secondRequest.contextId ∉ (sharedBundle ["one"] (by decide)).ownerContextIds := by decide
    exact absurd howned hforeign
  · have hlength := congrArg List.length hsplit
    simp only [List.length_cons,List.length_append,List.length_nil] at hlength
    omega

/-- The second owner of a bundle that is restored for the first is admitted without a dependency. -/
theorem shared_restore_forgotten : ∃ out, reactiveShared ["one","two"] (by decide) = .ok out ∧
    ¬ RestoresFirst (sharedInput ["one","two"] (by decide)).toPolicyInput out.admissions out.residency
      out.dependencies := by
  refine ⟨_,reactiveDecide_eq_ok _ _,fun h => ?_⟩
  have hunshared := reactive_restores_iff.mp h [firstRequest] secondRequest []
    (fifo_of_sorted (by decide +kernel)) (by decide +kernel) (sharedBundle ["one","two"] (by decide))
    ⟨List.mem_singleton_self _,by decide,by decide,by decide⟩
  revert hunshared
  decide +kernel

end BeliefKV.JointScheduler
