import BeliefKV.WhatIf.Agreement
import BeliefKV.Joint.Planner

/-! What the planner promises of the plans it makes. -/
namespace BeliefKV.JointScheduler

/-! ## Dictionaries of lists -/

section Collect
variable {A V : Type} {l : List A} {key : A → String} {value : A → V}

theorem collect_get (l : List A) (k : String) :
    (collect l key value)[k]? = (l.reverse.find? (key · = k)).map value := by
  induction l using List.reverseRecOn with
  | nil => simp [collect]
  | append_singleton l a ih =>
    have hstep : collect (l ++ [a]) key value = (collect l key value).insert (key a) (value a) := by
      simp [collect,List.foldl_append]
    rw [hstep,Dict.get_insert,ih,List.reverse_append,List.reverse_singleton,List.singleton_append,
      List.find?_cons]
    by_cases hk : key a = k
    · simp [hk]
    · simp [hk]

theorem mem_of_collect {k : String} {v : V} (h : (collect l key value)[k]? = some v) :
    ∃ a ∈ l, key a = k ∧ value a = v := by
  rw [collect_get,Option.map_eq_some_iff] at h
  obtain ⟨a,hfind,hv⟩ := h
  exact ⟨a,List.mem_reverse.mp (List.mem_of_find?_eq_some hfind),by simpa using List.find?_some hfind,hv⟩

/-- A member's key has the value of a member with that key. -/
theorem collect_of_mem {a : A} (h : a ∈ l) :
    ∃ b ∈ l, key b = key a ∧ (collect l key value)[key a]? = some (value b) := by
  rw [collect_get]
  cases hfind : l.reverse.find? (key · = key a) with
  | none =>
    have hnone := List.find?_eq_none.mp hfind a (List.mem_reverse.mpr h)
    simp at hnone
  | some b =>
    exact ⟨b,List.mem_reverse.mp (List.mem_of_find?_eq_some hfind),by simpa using List.find?_some hfind,rfl⟩

theorem collect_of_nodup (hnodup : (l.map key).Nodup) {a : A} (h : a ∈ l) :
    (collect l key value)[key a]? = some (value a) := by
  obtain ⟨b,hb,hkey,hget⟩ := collect_of_mem h
  rw [hget,List.inj_on_of_nodup_map hnodup hb h hkey]

end Collect

/-! ## Requests -/

section Requests
variable {input : PolicyInput}

theorem request?_eq_some {id : String} {r : RunnableInvocation} :
    input.request? id = some r ↔ r ∈ input.runnableFrontier ∧ r.requestId = id := by
  unfold PolicyInput.request?
  constructor
  · intro h
    exact ⟨List.mem_of_find?_eq_some h,by simpa using List.find?_some h⟩
  · rintro ⟨hr,rfl⟩
    cases hfind : input.runnableFrontier.find? (·.requestId = r.requestId) with
    | none =>
      have hnone := List.find?_eq_none.mp hfind r hr
      simp at hnone
    | some c =>
      have hc := List.mem_of_find?_eq_some hfind
      have hid : c.requestId = r.requestId := by simpa using List.find?_some hfind
      rw [List.inj_on_of_nodup_map input.requests_unique hc hr hid]

theorem requests_ids (ids : List String) : ((ids.filterMap input.request?).map (·.requestId)).Sublist ids := by
  induction ids with
  | nil => exact List.Sublist.refl _
  | cons id ids ih =>
    cases hr : input.request? id with
    | none =>
      rw [List.filterMap_cons_none hr]
      exact ih.cons _
    | some r =>
      rw [List.filterMap_cons_some hr,List.map_cons,(request?_eq_some.mp hr).2]
      exact ih.cons_cons _

end Requests

/-! ## What a package executes -/

section Execution
variable (fl : ℚ → ℚ) (config : WhatIfPackerConfig) (fairness : Option FairnessWindow) (input : PolicyInput)
  (demand : ScenarioDemand)

theorem visit_execution (f : Frontier) (id : String) :
    (f.visit config fairness input id).execution = f.execution ∨
      (f.visit config fairness input id).execution = f.execution ++ [id] := by
  unfold Frontier.visit
  cases input.request? id with
  | none => exact .inl rfl
  | some r =>
    dsimp only
    split_ifs
    · exact .inl rfl
    · exact .inl rfl
    · exact .inr rfl

theorem visits_execution (ids : List String) : ∀ f : Frontier,
    (ids.foldl (Frontier.visit config fairness input) f).execution.Sublist (f.execution ++ ids) := by
  induction ids with
  | nil =>
    intro f
    rw [List.append_nil]
    exact List.Sublist.refl _
  | cons id ids ih =>
    intro f
    have hrest := ih (f.visit config fairness input id)
    rcases visit_execution config fairness input f id with heq | heq
    · rw [heq] at hrest
      exact hrest.trans ((List.sublist_cons_self id ids).append_left _)
    · rw [heq,List.append_assoc,List.singleton_append] at hrest
      exact hrest

theorem makeRoom_execution (f : Frontier) :
    (makeRoom fl config input demand f).executionOrder.Sublist f.execution := by
  simp only [makeRoom]
  split_ifs
  · exact List.Sublist.refl _
  · exact List.nil_sublist _
  · exact List.nil_sublist _
  · exact List.Sublist.refl _

theorem packPlan_execution :
    (packPlan fl config fairness input demand).executionOrder.Sublist demand.candidateRequestIds := by
  simp only [packPlan]
  split_ifs
  · exact List.nil_sublist _
  · exact List.nil_sublist _
  · exact List.nil_sublist _
  · exact List.nil_sublist _
  · exact (makeRoom_execution ..).trans (visits_execution config fairness input _ _)

end Execution

/-! ## What a plan is -/

/-- The bytes of a bundle that are not on the GPU. -/
def missingOf (input : PolicyInput) (id : String) : ℕ := (input.bundle? id).elim 0 (·.missingBytes)

/-- A plan that was made from a snapshot. A bundle is charged to the first request that requires it. -/
structure Planned {J : Type} (readers : Readers J) (fl : ℚ → ℚ) (config : JointPlannerConfig)
    (source : ObservedInput J) (plan : PlannedJointPlan) : Prop where
  readSet : plan.readSet = buildReadSet readers fl config source plan.orderedRequestIds plan.admissions
    plan.residency
  ids : plan.admissions.map (·.requestId) = source.runnableFrontier.map (·.requestId)
  ordered_unique : plan.orderedRequestIds.Nodup
  residency_unique : (plan.residency.map (·.bundleId)).Nodup
  charged : ∀ pre a post, plan.admissions = pre ++ a :: post → a.Runs →
    ∃ r, source.request? a.requestId = some r ∧ a.reservedBytes = unreservedStartupBytes r +
      ((a.requiredBundleIds.filter (· ∉ pre.flatMap (·.requiredBundleIds))).map
        (missingOf source.toPolicyInput)).sum
  restored : ∀ a ∈ plan.admissions, ∀ b ∈ a.requiredBundleIds, a.Runs ∧
    transitionOpen readers source = false ∧ ∃ bundle, source.bundle? b = some bundle ∧
      bundle.actionable = true ∧ bundle.missingBytes ≠ 0 ∧
      ∃ intent ∈ plan.residency, intent.bundleId = b ∧ intent.action = .prefetchGpu ∧
        intent.targetBytes = bundle.missingBytes

section Made
variable {J : Type} {readers : Readers J} {fl : ℚ → ℚ} {config : JointPlannerConfig}
  {source : ObservedInput J} {plan : PlannedJointPlan}

theorem plainPlan_planned {admitted : List RunnableInvocation}
    (hadmitted : (admitted.map (·.requestId)).Nodup)
    (h : plainPlan readers fl config source admitted = .ok plan) : Planned readers fl config source plan := by
  obtain ⟨_,-,h⟩ := bind_eq_ok.mp h
  cases h
  have hrequired : ∀ a ∈ source.runnableFrontier.map (plainAdmission (admitted.map (·.requestId))),
      a.requiredBundleIds = [] := by
    intro a ha
    obtain ⟨r,-,rfl⟩ := List.mem_map.mp ha
    rfl
  refine ⟨rfl,?_,hadmitted,List.nodup_nil,?_,?_⟩
  · simp [plainAdmission,Function.comp_def]
  · intro pre a post heq hruns
    have ha : a ∈ pre ++ a :: post := by simp
    rw [← heq] at ha
    obtain ⟨r,hr,rfl⟩ := List.mem_map.mp ha
    refine ⟨r,request?_eq_some.mpr ⟨hr,rfl⟩,?_⟩
    by_cases hin : r.requestId ∈ admitted.map (·.requestId)
    · simp [plainAdmission,hin]
    · simp only [PlannedAdmission.Runs,plainAdmission,if_neg hin] at hruns
      rcases hruns with hruns | hruns <;> cases hruns
  · intro a ha b hb
    rw [hrequired a ha] at hb
    cases hb

theorem admitFitting_sublist (cpuResident : String → Bool) (candidates : List RunnableInvocation) :
    ∀ available : ℕ, (admitFitting cpuResident candidates available).Sublist candidates := by
  induction candidates with
  | nil => exact fun _ => List.Sublist.refl _
  | cons r candidates ih =>
    intro available
    rw [admitFitting]
    split_ifs
    · exact (ih _).cons _
    · exact (ih _).cons_cons _

variable {order : CandidateOrder} {package : ScenarioPlan}

/-- What a feasible package brings to the GPU may be acted on. -/
theorem package_prefetch {length : ℕ} (h : packageAt fl config source order length = .ok package)
    (hfeasible : package.feasible = true) {id : String}
    (hid : package.bundleActions[id]? = some .prefetchGpu) :
    ∃ b, source.bundle? id = some b ∧ b.actionable = true ∧ b.missingBytes ≠ 0 := by
  obtain ⟨demand,hdemand,hplan⟩ := bind_eq_ok.mp h
  obtain ⟨hsep,-⟩ := physicalize_separates hdemand
  obtain ⟨_,-,hplan⟩ := bind_eq_ok.mp hplan
  cases hplan
  obtain ⟨f,peak,choice,heq,hpacked⟩ := packPlan_packed hfeasible
  rw [heq,settled_bundleActions,← Std.ExtTreeMap.mem_toList_iff_getElem?_eq_some,
    (Dict.toList_foldl_insert (nodup_planEntries hsep hpacked)).mem_iff] at hid
  rcases List.mem_append.mp hid with hreq | hvictim
  · obtain ⟨b,hb,hentry⟩ := List.mem_map.mp hreq
    obtain ⟨hname,haction⟩ := Prod.mk.inj hentry
    obtain ⟨other,-,hother⟩ := List.mem_filterMap.mp hb
    have hmissing : b.missingBytes ≠ 0 := by
      intro hzero
      simp [requiredAction,hzero] at haction
    exact ⟨b,bundle?_eq_some.mpr ⟨(bundle?_eq_some.mp hother).1,hname⟩,
      hpacked.restorable b hb hmissing,hmissing⟩
  · obtain ⟨a,ha,hentry⟩ := List.mem_map.mp hvictim
    have haction := (Prod.mk.inj hentry).2
    rcases hpacked.chosen.acts a ha with hact | hact
    · exact absurd (hact.symm.trans haction) (by decide)
    · exact absurd (hact.symm.trans haction) (by decide)

/-- A package executes candidates, each of them once. -/
theorem package_execution {length : ℕ} (h : packageAt fl config source order length = .ok package) :
    package.executionOrder.Nodup := by
  obtain ⟨demand,hdemand,hplan⟩ := bind_eq_ok.mp h
  obtain ⟨_,-,hplan⟩ := bind_eq_ok.mp hplan
  cases hplan
  unfold physicalize at hdemand
  obtain ⟨_,-,hdemand⟩ := bind_eq_ok.mp hdemand
  cases hdemand
  refine List.Nodup.sublist (packPlan_execution _ _ _ _ _) ?_
  exact (packageScenario order length).candidates_unique.sublist (requests_ids _)

theorem packageAdmissions_ids (frontier : List RunnableInvocation) : ∀ charged : Finset String,
    (packageAdmissions source package frontier charged).map (·.requestId) = frontier.map (·.requestId) := by
  induction frontier with
  | nil => exact fun _ => rfl
  | cons r frontier ih =>
    intro charged
    rw [packageAdmissions,List.map_cons,List.map_cons,ih]
    rfl

/-- An intent of the package is that of a request, with what was charged before it. -/
theorem packageAdmissions_split (frontier : List RunnableInvocation) :
    ∀ {charged : Finset String} {pre : List PlannedAdmission} {a : PlannedAdmission}
      {post : List PlannedAdmission}, packageAdmissions source package frontier charged = pre ++ a :: post →
      ∃ r ∈ frontier, a = packageAdmission source package
        (charged ∪ (pre.flatMap (·.requiredBundleIds)).toFinset) r := by
  induction frontier with
  | nil =>
    intro charged pre a post h
    simp [packageAdmissions] at h
  | cons r frontier ih =>
    intro charged pre a post h
    rw [packageAdmissions] at h
    cases pre with
    | nil =>
      obtain ⟨ha,-⟩ := List.cons.inj h
      exact ⟨r,by simp,by simp [← ha]⟩
    | cons first pre =>
      obtain ⟨hfirst,hrest⟩ := List.cons.inj h
      obtain ⟨s,hs,ha⟩ := ih hrest
      refine ⟨s,List.mem_cons_of_mem _ hs,?_⟩
      rw [ha,← hfirst,List.flatMap_cons,List.toFinset_append,Finset.union_assoc]

theorem restoredBundles_get {r : RunnableInvocation} {b : PhysicalBundleSnapshot}
    (hb : b ∈ restoredBundles source package r) : source.bundle? b.bundleId = some b ∧
      package.bundleActions[b.bundleId]? = some .prefetchGpu := by
  obtain ⟨hin,haction⟩ := List.mem_filter.mp hb
  obtain ⟨id,-,hid⟩ := List.mem_filterMap.mp hin
  obtain ⟨hmem,rfl⟩ := bundle?_eq_some.mp hid
  exact ⟨hid,by simpa using haction⟩

theorem packageResidency_ids : (packageResidency source package).map (·.bundleId) =
    (package.bundleActions.toList.map Prod.fst).filter fun id => (source.bundle? id).isSome := by
  unfold packageResidency
  induction package.bundleActions.toList with
  | nil => rfl
  | cons entry entries ih =>
    cases hb : source.bundle? entry.1 with
    | none => simpa [hb] using ih
    | some b => simpa [hb,(bundle?_eq_some.mp hb).2] using ih

theorem fromScenarioPlan_planned {length : ℕ} (hpack : packageAt fl config source order length = .ok package)
    (hfeasible : package.feasible = true) (hopen : transitionOpen readers source = false)
    (h : fromScenarioPlan readers fl config source package = .ok plan) :
    Planned readers fl config source plan := by
  obtain ⟨_,-,h⟩ := bind_eq_ok.mp h
  cases h
  refine ⟨rfl,packageAdmissions_ids _ _,package_execution hpack,?_,?_,?_⟩
  · change ((packageResidency source package).map (·.bundleId)).Nodup
    rw [packageResidency_ids,Std.ExtTreeMap.map_fst_toList_eq_keys]
    exact Std.ExtTreeMap.nodup_keys.filter _
  · intro pre a post heq hruns
    obtain ⟨r,hr,ha⟩ := packageAdmissions_split _ heq
    subst ha
    refine ⟨r,request?_eq_some.mpr ⟨hr,rfl⟩,?_⟩
    by_cases hin : r.requestId ∈ package.executionOrder
    · simp only [packageAdmission,if_pos hin,Finset.empty_union,List.mem_toFinset,List.filter_map,
        List.map_map]
      congr 2
      refine List.map_congr_left fun b hb => ?_
      have hget := (restoredBundles_get (List.mem_filter.mp hb).1).1
      simp [missingOf,hget]
    · simp only [PlannedAdmission.Runs,packageAdmission,if_neg hin] at hruns
      rcases hruns with hruns | hruns <;> cases hruns
  · intro a ha b hb
    obtain ⟨pre,post,heq⟩ := List.append_of_mem ha
    obtain ⟨r,hr,hadmission⟩ := packageAdmissions_split _ heq
    subst hadmission
    by_cases hin : r.requestId ∈ package.executionOrder
    · simp only [packageAdmission,if_pos hin,List.mem_map] at hb
      obtain ⟨bundle,hbundle,rfl⟩ := hb
      obtain ⟨hget,haction⟩ := restoredBundles_get hbundle
      obtain ⟨same,hsame,hact,hmissing⟩ := package_prefetch hpack hfeasible haction
      rw [hget] at hsame
      cases hsame
      refine ⟨?_,hopen,bundle,hget,hact,hmissing,?_⟩
      · simp only [PlannedAdmission.Runs,packageAdmission,if_pos hin]
        split_ifs
        · exact .inl rfl
        · exact .inr rfl
      · refine ⟨_,List.mem_filterMap.mpr ⟨(bundle.bundleId,.prefetchGpu),
          Std.ExtTreeMap.mem_toList_iff_getElem?_eq_some.mpr haction,by rw [hget]; rfl⟩,rfl,rfl,rfl⟩
    · simp [packageAdmission,if_neg hin] at hb

/-- What the search has selected is a feasible package. -/
theorem search_selected {interrupts : Interrupts} {fuel : ℕ} : ∀ {s t : Search},
    (∀ p, s.selected = some p → p.feasible = true ∧ ∃ n, packageAt fl config source order n = .ok p) →
    search fl config source order interrupts fuel s = .ok t →
    ∀ p, t.selected = some p → p.feasible = true ∧ ∃ n, packageAt fl config source order n = .ok p := by
  induction fuel with
  | zero =>
    intro s t hs h
    cases h
    exact hs
  | succ fuel ih =>
    intro s t hs h
    rw [search] at h
    by_cases hdone : s.high < s.low
    · rw [if_pos hdone] at h
      cases h
      exact hs
    rw [if_neg hdone] at h
    by_cases hstop : ((decide (s.evaluated ≠ 0) && interrupts.expired s.evaluated) ||
        interrupts.cancelled s.evaluated) = true
    · rw [if_pos hstop] at h
      cases h
      exact hs
    rw [if_neg hstop] at h
    obtain ⟨plan,hplan,h⟩ := bind_eq_ok.mp h
    by_cases hfeasible : plan.feasible = true
    · have hfound : ∀ p, some plan = some p → p.feasible = true ∧
          ∃ n, packageAt fl config source order n = .ok p := by
        rintro p ⟨⟩
        exact ⟨hfeasible,s.length,hplan⟩
      simp only [hfeasible,if_true] at h
      split_ifs at h with hall
      · cases h
        exact hfound
      · exact ih hfound h
    · rw [Bool.not_eq_true] at hfeasible
      simp only [hfeasible,Bool.false_eq_true,if_false] at h
      split_ifs at h with hone
      · cases h
        exact hs
      · exact ih (s := { s with
          evaluated := s.evaluated + 1
          probedMaximum := s.probedMaximum || s.evaluated ≠ 0
          high := s.length - 1 }) hs h

/-- Every plan of the planner was made from its snapshot. -/
theorem plan_planned {interrupts : Interrupts}
    (h : JointScheduler.plan readers fl config source order interrupts = .ok plan) :
    Planned readers fl config source plan := by
  unfold JointScheduler.plan at h
  by_cases hopen : (transitionOpen readers source || order.requests.isEmpty) = true
  · rw [if_pos hopen] at h
    have hnone : (([] : List RunnableInvocation).map (·.requestId)).Nodup := List.nodup_nil
    exact plainPlan_planned hnone h
  rw [if_neg hopen] at h
  obtain ⟨seed,hseed,h⟩ := bind_eq_ok.mp h
  have hplain : Planned readers fl config source seed :=
    plainPlan_planned (order.unique.sublist ((admitFitting_sublist _ _ _).map _)) hseed
  rw [Bool.or_eq_true,not_or,Bool.not_eq_true] at hopen
  by_cases hearly : interrupts.early = true
  · rw [if_pos hearly] at h
    cases h
    exact hplain
  rw [if_neg hearly] at h
  cases hsearch : search fl config source order interrupts config.maxPackageEvaluations
      { low := 1, high := order.requests.length } with
  | error e =>
    simp only [hsearch] at h
    cases h
    exact hplain
  | ok s =>
    simp only [hsearch] at h
    cases hselected : s.selected with
    | none =>
      simp only [hselected] at h
      cases h
      exact hplain
    | some package =>
      simp only [hselected] at h
      obtain ⟨hfeasible,n,hpack⟩ := search_selected (fun p hp => by cases hp) hsearch package hselected
      exact fromScenarioPlan_planned hpack hfeasible hopen.1 h

end Made

end BeliefKV.JointScheduler
