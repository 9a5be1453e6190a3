import BeliefKV.Joint.Freshness
import BeliefKV.Joint.Planned

/-! When the valid admissions of a plan fit together. -/
namespace BeliefKV.JointScheduler

/-! ## Sums -/

theorem sum_insert_le (a : String) (s : Finset String) (f : String → ℕ) :
    ∑ x ∈ insert a s, f x ≤ f a + ∑ x ∈ s, f x := by
  by_cases ha : a ∈ s
  · rw [Finset.insert_eq_of_mem ha]
    omega
  · rw [Finset.sum_insert ha]

theorem sum_toFinset_le (l : List String) (f : String → ℕ) : ∑ x ∈ l.toFinset, f x ≤ (l.map f).sum := by
  induction l with
  | nil => simp
  | cons a l ih =>
    rw [List.toFinset_cons,List.map_cons,List.sum_cons]
    exact (sum_insert_le a _ f).trans (Nat.add_le_add_left ih _)

theorem sum_flatMap_map {A : Type} (l : List A) (g : A → List String) (f : String → ℕ) :
    ((l.flatMap g).map f).sum = (l.map fun a => ((g a).map f).sum).sum := by
  induction l with
  | nil => rfl
  | cons a l ih => simp [ih]

theorem sum_filter_add_le {l : List String} {b : String} (hb : b ∈ l) {p : String → Bool} (hp : p b = false)
    (f : String → ℕ) : ((l.filter p).map f).sum + f b ≤ (l.map f).sum := by
  obtain ⟨s,t,rfl⟩ := List.append_of_mem hb
  have hle (l : List String) : ((l.filter p).map f).sum ≤ (l.map f).sum :=
    (List.filter_sublist.map f).sum_le_sum fun _ _ => Nat.zero_le _
  have hs := hle s
  have ht := hle t
  simp only [List.filter_append,List.filter_cons,hp,List.map_append,List.sum_append,List.map_cons,
    List.sum_cons,Bool.false_eq_true,if_false]
  omega

section Passes
variable {J : Type} {readers : Readers J} {plan : PlannedJointPlan} {source : ObservedInput J}
  {current : JointPlanCurrentState J}

theorem sum_filter_cons_le (id : String) (order : List String) (p : String → Bool) (f : String → ℕ) :
    ∑ x ∈ ((id :: order).filter p).toFinset, f x ≤
      (if p id then f id else 0) + ∑ x ∈ (order.filter p).toFinset, f x := by
  cases hp : p id
  · simp [hp]
  · rw [List.filter_cons_of_pos hp,List.toFinset_cons,if_pos rfl]
    exact sum_insert_le _ _ _

/-- The requests that are left fit into what was available. -/
theorem headroomPass_le (order : List String) : ∀ available : ℕ,
    ∑ id ∈ (order.filter fun id => id ∉ headroomPass readers plan source current order available).toFinset,
      (neededBytes? readers plan source current id).getD 0 ≤ available := by
  induction order with
  | nil => simp
  | cons id order ih =>
    intro available
    rw [headroomPass]
    refine (sum_filter_cons_le _ _ _ _).trans ?_
    cases hneeded : neededBytes? readers plan source current id with
    | none =>
      have hrest := ih available
      simp only [Option.getD_none,ite_self,Nat.zero_add]
      exact hrest
    | some needed =>
      by_cases hfits : available < needed
      · -- A request that is refused leaves what is available.
        simp only [hfits,if_true,List.mem_cons,true_or,not_true_eq_false,decide_false,Bool.false_eq_true,
          if_false,Nat.zero_add]
        refine (Finset.sum_le_sum_of_subset ?_).trans (ih available)
        intro x hx
        simp only [List.mem_toFinset,List.mem_filter,decide_eq_true_eq,not_or] at hx ⊢
        exact ⟨hx.1,hx.2.2⟩
      · have hrest := ih (available - needed)
        simp only [hfits,if_false,Option.getD_some]
        split_ifs <;> omega

theorem headroomPass_subset (order : List String) : ∀ available : ℕ,
    headroomPass readers plan source current order available ⊆ order := by
  induction order with
  | nil => exact fun _ => List.Subset.refl _
  | cons id order ih =>
    intro available
    rw [headroomPass]
    cases neededBytes? readers plan source current id with
    | none => exact List.subset_cons_of_subset _ (ih available)
    | some needed =>
      dsimp only
      split_ifs
      · exact List.cons_subset_cons _ (ih available)
      · exact List.subset_cons_of_subset _ (ih _)

/-- The only request that needs something is kept if it fits. -/
theorem not_mem_headroomPass {k : String} {available : ℕ} (order : List String) (hunique : order.Nodup)
    (hothers : ∀ id, id ≠ k → neededBytes? readers plan source current id = none)
    (hfits : ∀ needed, neededBytes? readers plan source current k = some needed → needed ≤ available) :
    k ∉ headroomPass readers plan source current order available := by
  induction order with
  | nil => simp [headroomPass]
  | cons id order ih =>
    obtain ⟨hid,hunique⟩ := List.nodup_cons.mp hunique
    rw [headroomPass]
    by_cases hk : id = k
    · subst hk
      cases hneeded : neededBytes? readers plan source current id with
      | none => exact fun h => hid (headroomPass_subset _ _ h)
      | some needed =>
        dsimp only
        rw [if_neg (Nat.not_lt.mpr (hfits needed hneeded))]
        exact fun h => hid (headroomPass_subset _ _ h)
    · rw [hothers id hk]
      exact ih hunique

theorem validation_valid {reasons : List String} : (validation reasons).valid = true ↔ reasons = [] := by
  rw [IntentValidation.valid,List.isEmpty_iff,validation]
  constructor
  · intro h
    rw [List.eq_nil_iff_forall_not_mem] at h ⊢
    intro a ha
    exact h a ((Dict.mem_sorted _ _).mpr (List.mem_toFinset.mpr ha))
  · rintro rfl
    rfl

/-! ## The host -/

variable (plan current) in
theorem hostPass_fst (intents : List PlannedResidency) : ∀ hostRemaining : ℕ,
    (hostPass plan current intents hostRemaining).map Prod.fst = intents := by
  induction intents with
  | nil => exact fun _ => rfl
  | cons intent intents ih =>
    intro hostRemaining
    rw [hostPass]
    dsimp only
    split_ifs <;> rw [List.map_cons,ih]

variable (plan current) in
theorem hostPass_le (intents : List PlannedResidency) : ∀ hostRemaining : ℕ,
    (((hostPass plan current intents hostRemaining).filter fun e =>
      e.1.action = .commitCpu ∧ e.2 = []).map fun e =>
        current.bundleSnapshots[e.1.bundleId]?.elim 0 (·.hostNeeded)).sum ≤ hostRemaining := by
  induction intents with
  | nil => simp [hostPass]
  | cons intent intents ih =>
    intro hostRemaining
    rw [hostPass]
    dsimp only
    split_ifs with hcommit hroom
    · rw [List.filter_cons_of_neg (by simp)]
      exact ih hostRemaining
    · rw [List.filter_cons_of_pos (by simp [hcommit.1]),List.map_cons,List.sum_cons]
      have hrest := ih (hostRemaining - current.bundleSnapshots[intent.bundleId]?.elim 0 (·.hostNeeded))
      dsimp only
      omega
    · rw [List.filter_cons_of_neg (by simpa using hcommit)]
      exact ih hostRemaining

/-- An intent that passes has nothing against it. -/
theorem reasons_of_hostPass (intents : List PlannedResidency) : ∀ {hostRemaining : ℕ}
    {intent : PlannedResidency}, (intent,[]) ∈ hostPass plan current intents hostRemaining →
      residencyReasons plan current intent = [] := by
  induction intents with
  | nil =>
    intro hostRemaining intent h
    cases h
  | cons first intents ih =>
    intro hostRemaining intent h
    rw [hostPass] at h
    dsimp only at h
    split_ifs at h with hcommit hroom
    · rcases List.mem_cons.mp h with heq | h
      · cases heq
      · exact ih h
    · rcases List.mem_cons.mp h with heq | h
      · cases heq
        exact hcommit.2
      · exact ih h
    · rcases List.mem_cons.mp h with heq | h
      · obtain ⟨rfl,hreasons⟩ := Prod.mk.inj heq
        exact hreasons.symm
      · exact ih h

theorem hostPass_of_reasons (intents : List PlannedResidency) : ∀ {hostRemaining : ℕ}
    {intent : PlannedResidency}, intent ∈ intents → intent.action ≠ .commitCpu →
      residencyReasons plan current intent = [] →
      (intent,[]) ∈ hostPass plan current intents hostRemaining := by
  induction intents with
  | nil =>
    intro hostRemaining intent h
    cases h
  | cons first intents ih =>
    intro hostRemaining intent h haction hreasons
    rw [hostPass]
    dsimp only
    rcases List.mem_cons.mp h with rfl | h
    · rw [if_neg (fun hcommit => haction hcommit.1),hreasons]
      exact List.mem_cons_self
    · split_ifs <;> exact List.mem_cons_of_mem _ (ih h haction hreasons)

theorem residency_valid_iff (hunique : (plan.residency.map (·.bundleId)).Nodup)
    {e : PlannedResidency × List String}
    (he : e ∈ hostPass plan current plan.residency current.hostFreeBytes) :
    (residencyValidation plan current)[e.1.bundleId]?.any IntentValidation.valid = true ↔ e.2 = [] := by
  have hkeys : ((hostPass plan current plan.residency current.hostFreeBytes).map
      (·.1.bundleId)).Nodup := by
    have hmap := congrArg (List.map (·.bundleId)) (hostPass_fst plan current plan.residency
      current.hostFreeBytes)
    rw [List.map_map] at hmap
    rw [← hmap] at hunique
    exact hunique
  have hget : (residencyValidation plan current)[e.1.bundleId]? = some (validation e.2) :=
    collect_of_nodup hkeys he
  rw [hget,Option.any_some,validation_valid]

/-- Valid copies to the host fit there. -/
theorem valid_host_le (hunique : (plan.residency.map (·.bundleId)).Nodup) :
    ((plan.residency.filter fun intent => intent.action = .commitCpu &&
      (residencyValidation plan current)[intent.bundleId]?.any IntentValidation.valid).map fun intent =>
        current.bundleSnapshots[intent.bundleId]?.elim 0 (·.hostNeeded)).sum ≤ current.hostFreeBytes := by
  have hpass := hostPass_le plan current plan.residency current.hostFreeBytes
  have hfst := hostPass_fst plan current plan.residency current.hostFreeBytes
  have hsame : (hostPass plan current plan.residency current.hostFreeBytes).filter
      (fun e => e.1.action = .commitCpu && (residencyValidation plan current)[e.1.bundleId]?.any
        IntentValidation.valid) =
      (hostPass plan current plan.residency current.hostFreeBytes).filter
        fun e => e.1.action = .commitCpu ∧ e.2 = [] := by
    refine List.filter_congr fun e he => ?_
    have hvalid := residency_valid_iff hunique he
    rw [Bool.eq_iff_iff,Bool.and_eq_true,hvalid]
    simp
  conv_lhs => rw [← hfst,List.filter_map,List.map_map]
  change (((hostPass plan current plan.residency current.hostFreeBytes).filter fun e =>
    e.1.action = .commitCpu && (residencyValidation plan current)[e.1.bundleId]?.any
      IntentValidation.valid).map _).sum ≤ _
  rw [hsame]
  exact hpass

/-! ## Admissions -/

theorem admission_valid_iff (hunique : (plan.admissions.map (·.requestId)).Nodup) {a : PlannedAdmission}
    (ha : a ∈ plan.admissions) :
    (admissionValidation readers plan source current)[a.requestId]?.any IntentValidation.valid = true ↔
      admissionReasons readers plan source current a = [] ∧
        a.requestId ∉ rejectedIds readers plan source current := by
  rw [admissionValidation,collect_of_nodup hunique ha,Option.any_some,validation_valid,
    List.append_eq_nil_iff]
  refine and_congr_right fun _ => ?_
  by_cases hin : a.requestId ∈ rejectedIds readers plan source current
  · simp [hin]
  · simp [hin]

theorem admission?_eq_some (hunique : (plan.admissions.map (·.requestId)).Nodup) {a : PlannedAdmission}
    (ha : a ∈ plan.admissions) : admission? plan a.requestId = some a := by
  unfold admission?
  cases hfind : plan.admissions.find? (·.requestId = a.requestId) with
  | none =>
    have hnone := List.find?_eq_none.mp hfind a ha
    simp at hnone
  | some b =>
    have hb := List.mem_of_find?_eq_some hfind
    have hid : b.requestId = a.requestId := by simpa using List.find?_some hfind
    rw [List.inj_on_of_nodup_map hunique hb ha hid]

/-- What the records of a plan say of a request that is still as it was read. -/
structure Recorded {J : Type} (readers : Readers J) (readSet : PlanReadSet) (r : RunnableInvocation) :
    Prop where
  fingerprint : expects readSet.requestFingerprints r.requestId (readers.requestDigest (requestPayload r)) =
    true
  epoch : expects readSet.contextEpochs r.contextId r.contextEpoch = true
  invocation : (readSet.invocationFingerprints[r.invocationId]?).isSome
  generation : (readSet.transitionGenerations[r.workflowId]?).isSome

theorem nil_or_singleton {c : Bool} {x : String} : (if c then [] else [x]) = [] ↔ c = true := by
  cases c <;> simp

theorem singleton_or_nil {c : Bool} {x : String} : (if c then [x] else []) = [] ↔ c = false := by
  cases c <;> simp

/-- A request has nothing against it exactly if it is current and everything it was read with is. -/
theorem requestReasons_eq_nil {id : String} : requestReasons readers plan source current id = [] ↔
    ∃ r, current.request? id = some r ∧ (source.request? id).isSome ∧
      (plan.readSet.requestFingerprints[id]?).isSome ∧
      expects plan.readSet.requestFingerprints id (readers.requestDigest (requestPayload r)) = true ∧
      expects plan.readSet.contextEpochs r.contextId r.contextEpoch = true ∧
      expects plan.readSet.invocationFingerprints r.invocationId
        (readers.digest (current.invocationSnapshots.getD r.invocationId readers.blank)) = true ∧
      expects plan.readSet.transitionGenerations r.workflowId
        (readers.generation (current.transitions.getD r.workflowId readers.blank)) = true ∧
      readers.isOpen (current.transitions.getD r.workflowId readers.blank) = false ∧
      readers.degraded (current.transitions.getD r.workflowId readers.blank) = false ∧
      ∀ e ∈ plan.readSet.joinFingerprints.toList,
        r.invocationId ∈ readers.members (source.graph.joins.getD e.1 readers.blank) ++
          readers.waiters (source.graph.joins.getD e.1 readers.blank) →
        readers.digest (current.joinSnapshots.getD e.1 readers.blank) = e.2 := by
  unfold requestReasons
  cases hr : current.request? id with
  | none => simp
  | some r =>
    by_cases hread : ((source.request? id).isNone || plan.readSet.requestFingerprints[id]?.isNone) = true
    · simp only [hread,if_true]
      refine iff_of_false (by simp) ?_
      rintro ⟨_,-,hsource,hfp,-⟩
      rcases (Bool.or_eq_true _ _).mp hread with hnone | hnone
      · simp [Option.isNone_iff_eq_none.mp hnone] at hsource
      · simp [Option.isNone_iff_eq_none.mp hnone] at hfp
    · have hboth : (source.request? id).isSome ∧ (plan.readSet.requestFingerprints[id]?).isSome := by
        simpa [not_or,Option.isSome_iff_ne_none] using hread
      dsimp only
      rw [if_neg hread]
      simp only [List.append_eq_nil_iff,nil_or_singleton,singleton_or_nil,List.map_eq_nil_iff,
        List.filter_eq_nil_iff,Option.some.injEq,exists_eq_left',hboth,true_and,and_assoc,Bool.and_eq_true,
        decide_eq_true_eq,not_and,not_not,ne_eq,decide_not,Bool.not_eq_true',decide_eq_false_iff_not]

theorem current_requestId {id : String} {r : RunnableInvocation} (h : current.request? id = some r) :
    r.requestId = id := by
  simpa using List.find?_some h

theorem recorded_of_reasons {id : String} {r : RunnableInvocation}
    (h : requestReasons readers plan source current id = []) (hr : current.request? id = some r) :
    Recorded readers plan.readSet r := by
  obtain ⟨r',hr',-,-,hfp,hepoch,hinv,hgen,-⟩ := requestReasons_eq_nil.mp h
  rw [hr] at hr'
  cases hr'
  have hid := current_requestId hr
  refine ⟨hid ▸ hfp,hepoch,?_,?_⟩
  · simp [of_decide_eq_true hinv]
  · simp [of_decide_eq_true hgen]

theorem bundleReasons_eq_nil {b : String} : bundleReasons plan current b = [] ↔
    (residencyValidation plan current)[b]?.any IntentValidation.valid = true := by
  unfold bundleReasons
  cases hv : (residencyValidation plan current)[b]? with
  | none => simp
  | some v => cases hvalid : v.valid <;> simp [hvalid]

/-- A restore with nothing against it brings what it was planned to bring. -/
theorem missing_of_reasons {intent : PlannedResidency} (haction : intent.action = .prefetchGpu)
    (h : residencyReasons plan current intent = []) :
    ∃ b, current.bundleSnapshots[intent.bundleId]? = some b ∧ b.missingBytes = intent.targetBytes := by
  unfold residencyReasons at h
  cases hb : current.bundleSnapshots[intent.bundleId]? with
  | none => simp [hb] at h
  | some b =>
    refine ⟨b,rfl,?_⟩
    simp only [hb] at h
    by_cases hgen : ¬ expects plan.readSet.touchedBundleGenerations intent.bundleId
        b.generationFingerprint = true
    · rw [if_pos hgen] at h
      cases h
    · rw [if_neg hgen,List.append_eq_nil_iff] at h
      by_contra hne
      simp [haction,residencyTargetBytes,hne] at h

end Passes

section Feasible
variable {J : Type} (readers : Readers J) (fl : ℚ → ℚ) (plan : PlannedJointPlan) (source : ObservedInput J)
  (current : JointPlanCurrentState J)

/-- The admissions that run and are reported valid. -/
def validRuns : List PlannedAdmission :=
  plan.admissions.filter fun a => a.Runs ∧ ((validateJointPlanComponents readers fl plan source
    current).admissions[a.requestId]?.any IntentValidation.valid) = true

/-- The valid admissions of a plan fit together. -/
structure JointlyFeasible : Prop where
  hbm : ((validRuns readers fl plan source current).map fun a =>
      (current.request? a.requestId).elim 0 unreservedStartupBytes).sum +
    ∑ b ∈ ((validRuns readers fl plan source current).flatMap (·.requiredBundleIds)).toFinset,
      current.bundleSnapshots[b]?.elim 0 (·.missingBytes) ≤
    current.hbmAvailableBytes + ((plan.residency.filter fun intent =>
      (intent.action = .commitCpu || intent.action = .drop) && (validateJointPlanComponents readers fl plan
        source current).residency[intent.bundleId]?.any IntentValidation.valid).map fun intent =>
          current.bundleSnapshots[intent.bundleId]?.elim 0 (·.marginalReclaimableBytes)).sum
  host : ((plan.residency.filter fun intent => intent.action = .commitCpu && (validateJointPlanComponents
    readers fl plan source current).residency[intent.bundleId]?.any IntentValidation.valid).map fun intent =>
      current.bundleSnapshots[intent.bundleId]?.elim 0 (·.hostNeeded)).sum ≤ current.hostFreeBytes
  residency : ∀ a ∈ validRuns readers fl plan source current, ∀ b ∈ a.requiredBundleIds,
    ∃ intent ∈ plan.residency, intent.bundleId = b ∧ (validateJointPlanComponents readers fl plan source
      current).residency[b]?.any IntentValidation.valid = true

/-- A request that may still be found as it was read shares its bundles with no earlier one. -/
def ChargedToItself : Prop :=
  ∀ pre a post, plan.admissions = pre ++ a :: post →
    (∃ r : RunnableInvocation, r.requestId = a.requestId ∧ Recorded readers plan.readSet r) →
    ∀ b ∈ a.requiredBundleIds, b ∉ pre.flatMap (·.requiredBundleIds)

end Feasible

/-- Requests that share nothing are charged for what they require. -/
theorem chargedToItself_of_nodup {J : Type} (readers : Readers J) {plan : PlannedJointPlan}
    (h : (plan.admissions.flatMap (·.requiredBundleIds)).Nodup) : ChargedToItself readers plan := by
  intro pre a post hsplit _ b hb hshared
  rw [hsplit,List.flatMap_append,List.flatMap_cons] at h
  exact List.disjoint_of_nodup_append h hshared (List.mem_append_left _ hb)

/-! ## Plans that charge every bundle where it is required -/

namespace Planned
variable {J : Type} {readers : Readers J} {fl : ℚ → ℚ} {config : JointPlannerConfig}
  {source : ObservedInput J} {plan : PlannedJointPlan} {current : JointPlanCurrentState J}

theorem admissions_unique (h : Planned readers fl config source plan) :
    (plan.admissions.map (·.requestId)).Nodup := by
  rw [h.ids]
  exact source.requests_unique

theorem nodup_readRequests (orderedRequestIds : List String) (admissions : List PlannedAdmission) :
    ((readRequests source orderedRequestIds admissions).map (·.requestId)).Nodup :=
  (Dict.nodup_sorted _).sublist (requests_ids _)

theorem mem_readRequests (h : Planned readers fl config source plan) {r : RunnableInvocation}
    (hr : r ∈ source.runnableFrontier) :
    r ∈ readRequests source plan.orderedRequestIds plan.admissions := by
  refine List.mem_filterMap.mpr ⟨r.requestId,?_,request?_eq_some.mpr ⟨hr,rfl⟩⟩
  rw [Dict.mem_sorted,Finset.mem_union,List.mem_toFinset,h.ids]
  exact .inl (List.mem_map_of_mem hr)

theorem startup (h : Planned readers fl config source plan) {id : String} {r : RunnableInvocation}
    (hr : source.request? id = some r) :
    plan.readSet.requestStartupBytes[id]? = some (unreservedStartupBytes r) := by
  obtain ⟨hin,rfl⟩ := request?_eq_some.mp hr
  rw [h.readSet]
  exact collect_of_nodup (nodup_readRequests _ _) (h.mem_readRequests hin)

theorem mem_validRuns (h : Planned readers fl config source plan) {a : PlannedAdmission} :
    a ∈ validRuns readers fl plan source current ↔ a ∈ plan.admissions ∧ a.Runs ∧
      admissionReasons readers plan source current a = [] ∧
      a.requestId ∉ rejectedIds readers plan source current := by
  rw [validRuns,List.mem_filter,decide_eq_true_eq]
  refine and_congr_right fun ha => and_congr_right fun _ => ?_
  exact admission_valid_iff h.admissions_unique ha

/-- What a valid admission needs is its startup and the bundles it is charged for. -/
theorem needed (h : Planned readers fl config source plan) (hcharged : ChargedToItself readers plan)
    {a : PlannedAdmission} (ha : a ∈ validRuns readers fl plan source current) :
    neededBytes? readers plan source current a.requestId =
      some ((current.request? a.requestId).elim 0 unreservedStartupBytes +
        (a.requiredBundleIds.map (missingOf source.toPolicyInput)).sum) := by
  obtain ⟨hin,hruns,hreasons,-⟩ := h.mem_validRuns.mp ha
  obtain ⟨pre,post,hsplit⟩ := List.append_of_mem hin
  obtain ⟨r,hr,hreserved⟩ := h.charged pre a post hsplit hruns
  have hrequest : requestReasons readers plan source current a.requestId = [] :=
    (List.append_eq_nil_iff.mp hreasons).1
  obtain ⟨now,hnow,-⟩ := requestReasons_eq_nil.mp hrequest
  have hown : a.requiredBundleIds.filter (· ∉ pre.flatMap (·.requiredBundleIds)) =
      a.requiredBundleIds := by
    rw [List.filter_eq_self]
    intro b hb
    exact decide_eq_true (hcharged pre a post hsplit
      ⟨now,current_requestId hnow,recorded_of_reasons hrequest hnow⟩ b hb)
  rw [hown] at hreserved
  rw [neededBytes?,admission?_eq_some h.admissions_unique hin,Option.bind_some,if_pos ⟨hruns,hreasons⟩,hnow,
    Option.bind_some,h.startup hr,Option.map_some,hreserved,Option.elim_some]
  congr 1
  omega

/-- A bundle that a valid admission requires still misses what it missed. -/
theorem missing_now (h : Planned readers fl config source plan) {a : PlannedAdmission}
    (ha : a ∈ validRuns readers fl plan source current) {b : String} (hb : b ∈ a.requiredBundleIds) :
    (∃ intent ∈ plan.residency, intent.bundleId = b ∧
      (residencyValidation plan current)[b]?.any IntentValidation.valid = true) ∧
    current.bundleSnapshots[b]?.elim 0 (·.missingBytes) = missingOf source.toPolicyInput b := by
  obtain ⟨hin,hruns,hreasons,-⟩ := h.mem_validRuns.mp ha
  have hbundles := List.flatMap_eq_nil_iff.mp (List.append_eq_nil_iff.mp hreasons).2 b hb
  have hvalid := bundleReasons_eq_nil.mp hbundles
  obtain ⟨-,-,bundle,hbundle,-,-,intent,hintent,rfl,haction,htarget⟩ := h.restored a hin b hb
  refine ⟨⟨intent,hintent,rfl,hvalid⟩,?_⟩
  obtain ⟨e,he,rfl⟩ : ∃ e ∈ hostPass plan current plan.residency current.hostFreeBytes, e.1 = intent := by
    rw [← hostPass_fst plan current plan.residency current.hostFreeBytes] at hintent
    exact List.mem_map.mp hintent
  have hnone := (residency_valid_iff h.residency_unique he).mp hvalid
  have hpass : (e.1,[]) ∈ hostPass plan current plan.residency current.hostFreeBytes := hnone ▸ he
  obtain ⟨now,hnow,hmissing⟩ := missing_of_reasons haction (reasons_of_hostPass _ hpass)
  rw [hnow,Option.elim_some,hmissing,htarget,missingOf,hbundle,Option.elim_some]

theorem feasible (h : Planned readers fl config source plan) (hcharged : ChargedToItself readers plan) :
    JointlyFeasible readers fl plan source current where
  hbm := by
    set runs := validRuns readers fl plan source current with hruns
    set f := fun id => (neededBytes? readers plan source current id).getD 0 with hf
    have hbundles : ∑ b ∈ (runs.flatMap (·.requiredBundleIds)).toFinset,
        current.bundleSnapshots[b]?.elim 0 (·.missingBytes) ≤
          (runs.map fun a => (a.requiredBundleIds.map (missingOf source.toPolicyInput)).sum).sum := by
      refine (sum_toFinset_le _ _).trans_eq ?_
      rw [sum_flatMap_map]
      congr 1
      refine List.map_congr_left fun a ha => ?_
      congr 1
      exact List.map_congr_left fun b hb => (h.missing_now ha hb).2
    have hneeded : (runs.map fun a => f a.requestId).sum =
        (runs.map fun a => (current.request? a.requestId).elim 0 unreservedStartupBytes).sum +
          (runs.map fun a => (a.requiredBundleIds.map (missingOf source.toPolicyInput)).sum).sum := by
      rw [← List.sum_map_add]
      congr 1
      refine List.map_congr_left fun a ha => ?_
      rw [hf]
      dsimp only
      rw [h.needed hcharged ha,Option.getD_some]
    have hunique : (runs.map (·.requestId)).Nodup :=
      h.admissions_unique.sublist (List.filter_sublist.map _)
    have hsum : (runs.map fun a => f a.requestId).sum = ∑ id ∈ (runs.map (·.requestId)).toFinset, f id := by
      rw [List.sum_toFinset f hunique,List.map_map]
      rfl
    have hsub : (runs.map (·.requestId)).toFinset ⊆ ((admissionOrder plan).filter fun id =>
        id ∉ rejectedIds readers plan source current).toFinset := by
      intro id hid
      obtain ⟨a,ha,rfl⟩ := List.mem_map.mp (List.mem_toFinset.mp hid)
      obtain ⟨hin,-,-,hkept⟩ := h.mem_validRuns.mp ha
      rw [List.mem_toFinset,List.mem_filter,admissionOrder,List.mem_append,List.mem_filter]
      refine ⟨?_,decide_eq_true hkept⟩
      by_cases hordered : a.requestId ∈ plan.orderedRequestIds
      · exact .inl hordered
      · exact .inr ⟨List.mem_map_of_mem hin,decide_eq_true hordered⟩
    have hpass : ∑ id ∈ ((admissionOrder plan).filter fun id =>
        id ∉ rejectedIds readers plan source current).toFinset, f id ≤
          current.hbmAvailableBytes + reclaimable plan current := headroomPass_le _ _
    calc _ ≤ (runs.map fun a => f a.requestId).sum := by rw [hneeded]; exact Nat.add_le_add_left hbundles _
      _ ≤ _ := hsum.trans_le ((Finset.sum_le_sum_of_subset hsub).trans hpass)
  host := valid_host_le h.residency_unique
  residency a ha b hb := (h.missing_now ha hb).1

end Planned
end BeliefKV.JointScheduler
