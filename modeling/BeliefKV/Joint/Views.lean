import BeliefKV.Joint.Groups

/-! The view that is compiled for an epoch is sound: what it orders may run, what it restores is
on its way, and its groups are the components of the dependencies. -/
namespace BeliefKV
open Relation

namespace JointPlan
variable (plan : JointPlan) (validation : JointPlanComponentValidation) (visible : Finset String)

/-- A dependency is valid, acknowledged, and restores its bundle by a valid prefetch. -/
structure RestoreReady (i : ℕ) (d : TransferDependency) : Prop where
  dependency : ∃ v, validation.dependencies[i]? = some v ∧ v.valid = true
  acknowledged : d.requireAck = true
  residency : ∃ r, plan.residency[d.residencyIntentIndex]? = some r ∧ r.action = .prefetchGpu ∧
    ∃ v, validation.residency[r.bundleId]? = some v ∧ v.valid = true

/-- `b` is the bundle of a dependency that the request waits for. -/
def Awaits (id b : String) : Prop :=
  ∃ d ∈ plan.dependencies, d.beforeRequestId = some id ∧
    ∃ r, plan.residency[d.residencyIntentIndex]? = some r ∧ r.bundleId = b

/-- The admission of a request is valid and fits its dependencies. -/
structure Admissible (id : String) (a : AdmissionIntent) : Prop where
  member : a ∈ plan.admissions
  named : a.requestId = id
  valid : ∃ v, validation.admissions[id]? = some v ∧ v.valid = true
  fits : a.action = .admits ∧ a.requiredBundleIds = [] ∧
      (∀ d ∈ plan.dependencies, d.beforeRequestId ≠ some id) ∨
    a.action = .restoreThenAdmit ∧ a.requiredBundleIds ≠ [] ∧
      ∀ b, b ∈ a.requiredBundleIds ↔ plan.Awaits id b

/-- A visible request with a valid runnable admission and fully valid dependencies. -/
structure Runnable (id : String) : Prop where
  visible : id ∈ visible
  admission : ∃ a, plan.Admissible validation id a
  dependencies : ∀ i d, plan.dependencies[i]? = some d → d.beforeRequestId = some id →
    plan.RestoreReady validation i d

variable {plan validation visible}

theorem admission_eq_some {id : String} {a : AdmissionIntent} :
    plan.admission id = some a ↔ a ∈ plan.admissions ∧ a.requestId = id := by
  unfold admission
  constructor
  · intro h
    exact ⟨List.mem_of_find?_eq_some h,by simpa using List.find?_some h⟩
  · rintro ⟨ha,rfl⟩
    cases hfind : plan.admissions.find? (·.requestId = a.requestId) with
    | none =>
      have hnone := List.find?_eq_none.mp hfind a ha
      simp at hnone
    | some b =>
      have hb := List.mem_of_find?_eq_some hfind
      have hid : b.requestId = a.requestId := by simpa using List.find?_some hfind
      rw [List.inj_on_of_nodup_map plan.admissions_unique hb ha hid]

theorem mem_dependencyIndices {id : String} {i : ℕ} : i ∈ plan.dependencyIndices id ↔
    ∃ d, plan.dependencies[i]? = some d ∧ d.beforeRequestId = some id := by
  unfold dependencyIndices
  rw [List.mem_filter,List.mem_range]
  constructor
  · rintro ⟨hi,hany⟩
    rw [List.getElem?_eq_getElem hi] at hany
    exact ⟨_,List.getElem?_eq_getElem hi,by simpa using hany⟩
  · rintro ⟨d,hd,hid⟩
    exact ⟨(List.getElem?_eq_some_iff.mp hd).1,by simp [hd,hid]⟩

theorem dependencyIndices_eq_nil {id : String} : plan.dependencyIndices id = [] ↔
    ∀ d ∈ plan.dependencies, d.beforeRequestId ≠ some id := by
  constructor
  · intro hnil d hd hid
    obtain ⟨i,hi⟩ := List.getElem?_of_mem hd
    have hmem := mem_dependencyIndices.mpr ⟨d,hi,hid⟩
    simp [hnil] at hmem
  · intro hnone
    rw [List.eq_nil_iff_forall_not_mem]
    intro i hi
    obtain ⟨d,hd,hid⟩ := mem_dependencyIndices.mp hi
    exact hnone d (List.mem_of_getElem? hd) hid

/-- Every dependency of a plan has its residency intent. -/
theorem residency_of_dependency {d : TransferDependency} (hd : d ∈ plan.dependencies) :
    ∃ r, plan.residency[d.residencyIntentIndex]? = some r :=
  ⟨_,List.getElem?_eq_getElem (plan.dependencies_bound d hd)⟩

theorem reasons_eq_nil {v : IntentValidation} : v.reasons = [] ↔ v.valid = true := by
  simp [IntentValidation.valid]

theorem judgeDependency_eq_nil {i : ℕ} {d : TransferDependency} (hd : plan.dependencies[i]? = some d) :
    (plan.judgeDependency validation i).1 = [] ↔ plan.RestoreReady validation i d := by
  obtain ⟨r,hr⟩ := residency_of_dependency (List.mem_of_getElem? hd)
  unfold judgeDependency
  cases hv : validation.dependencies[i]? with
  | none =>
    simp only [List.cons_ne_nil,false_iff]
    rintro ⟨⟨v,hv',-⟩,-,-⟩
    simp [hv] at hv'
  | some v =>
    cases hvalid : v.valid with
    | false =>
      have hne : v.reasons ≠ [] := fun h => by simp [reasons_eq_nil.mp h] at hvalid
      simp only [hvalid,if_true,List.map_eq_nil_iff,hne,false_iff]
      rintro ⟨⟨v',hv',htrue⟩,-,-⟩
      rw [hv] at hv'
      cases hv'
      simp [hvalid] at htrue
    | true =>
      simp only [hvalid,Bool.true_eq_false,if_false,hd,Option.bind_some,hr,Option.map_some]
      rw [List.append_eq_nil_iff,List.append_eq_nil_iff]
      constructor
      · rintro ⟨⟨hack,hprefetch⟩,hres⟩
        refine ⟨⟨v,hv,hvalid⟩,?_,r,hr,?_,?_⟩
        · by_contra hno
          simp [hno] at hack
        · by_contra hno
          simp [hno] at hprefetch
        · cases hx : validation.residency[r.bundleId]? with
          | none => simp [hx] at hres
          | some x =>
            refine ⟨x,rfl,?_⟩
            by_contra hno
            simp [hx,hno] at hres
      · rintro ⟨-,hack,r',hr',hprefetch,x,hx,hxv⟩
        rw [hr] at hr'
        cases hr'
        simp [hack,hprefetch,hx,hxv]

/-- The bundle of a dependency that is ready. -/
theorem judgeDependency_bundle {i : ℕ} {d : TransferDependency} {r : ResidencyIntent}
    (hd : plan.dependencies[i]? = some d) (hr : plan.residency[d.residencyIntentIndex]? = some r)
    (hready : plan.RestoreReady validation i d) :
    (plan.judgeDependency validation i).2 = some r.bundleId := by
  obtain ⟨v,hv,hvalid⟩ := hready.dependency
  simp [judgeDependency,hv,hvalid,hd,hr]

theorem admissionReasons_eq_nil {id : String} : plan.admissionReasons validation id = [] ↔
    ∃ a v, plan.admission id = some a ∧ validation.admissions[id]? = some v ∧ v.valid = true ∧
      (a.action = .admits ∨ a.action = .restoreThenAdmit) := by
  unfold admissionReasons
  cases ha : plan.admission id with
  | none => simp
  | some a =>
    cases hv : validation.admissions[id]? with
    | none => simp
    | some v =>
      cases hvalid : v.valid with
      | false =>
        have hne : v.reasons ≠ [] := fun h => by simp [reasons_eq_nil.mp h] at hvalid
        simp [hne,hvalid]
      | true =>
        by_cases hact : a.action = .admits ∨ a.action = .restoreThenAdmit
        · simp [hact,hvalid]
        · simp [hact,hvalid]

/-- The bundles that ready dependencies restore. -/
theorem mem_dependentBundleIds {id b : String}
    (hready : ∀ i d, plan.dependencies[i]? = some d → d.beforeRequestId = some id →
      plan.RestoreReady validation i d) :
    b ∈ plan.dependentBundleIds validation id ↔ plan.Awaits id b := by
  unfold dependentBundleIds
  rw [List.mem_filterMap]
  constructor
  · rintro ⟨i,hi,hb⟩
    obtain ⟨d,hd,hid⟩ := mem_dependencyIndices.mp hi
    obtain ⟨r,hr⟩ := residency_of_dependency (List.mem_of_getElem? hd)
    rw [judgeDependency_bundle hd hr (hready i d hd hid)] at hb
    exact ⟨d,List.mem_of_getElem? hd,hid,r,hr,Option.some.inj hb⟩
  · rintro ⟨d,hmem,hid,r,hr,rfl⟩
    obtain ⟨i,hd⟩ := List.getElem?_of_mem hmem
    exact ⟨i,mem_dependencyIndices.mpr ⟨d,hd,hid⟩,judgeDependency_bundle hd hr (hready i d hd hid)⟩

theorem shapeReasons_eq_nil {id : String} {a : AdmissionIntent} (ha : plan.admission id = some a)
    (hact : a.action = .admits ∨ a.action = .restoreThenAdmit)
    (hready : ∀ i d, plan.dependencies[i]? = some d → d.beforeRequestId = some id →
      plan.RestoreReady validation i d) :
    plan.shapeReasons validation id = [] ↔
      (a.action = .admits ∧ a.requiredBundleIds = [] ∧
          (∀ d ∈ plan.dependencies, d.beforeRequestId ≠ some id) ∨
        a.action = .restoreThenAdmit ∧ a.requiredBundleIds ≠ [] ∧
          ∀ b, b ∈ a.requiredBundleIds ↔ plan.Awaits id b) := by
  have hset : (plan.dependentBundleIds validation id).toFinset = a.requiredBundleIds.toFinset ↔
      ∀ b, b ∈ a.requiredBundleIds ↔ plan.Awaits id b := by
    simp only [Finset.ext_iff,List.mem_toFinset,mem_dependentBundleIds hready]
    exact forall_congr' fun b => Iff.comm
  simp only [shapeReasons,ha]
  rcases hact with hact | hact
  · simp only [hact,reduceCtorEq,if_false,false_and,or_false,true_and,← dependencyIndices_eq_nil]
    by_cases hcase : a.requiredBundleIds ≠ [] ∨ plan.dependencyIndices id ≠ []
    · rw [if_pos hcase]
      simp only [List.cons_ne_nil,false_iff]
      tauto
    · rw [if_neg hcase]
      simp only [true_iff]
      tauto
  · simp only [hact,reduceCtorEq,if_true,false_and,false_or,true_and,List.append_eq_nil_iff,← hset]
    constructor
    · rintro ⟨hmissing,hmatch⟩
      constructor
      · intro hnil
        simp [hnil] at hmissing
      · by_contra hne
        simp [hne] at hmatch
    · rintro ⟨hne,heq⟩
      -- A restore of some bundle has a dependency.
      have hdeps : plan.dependencyIndices id ≠ [] := by
        rw [Ne,dependencyIndices_eq_nil]
        intro hnone
        obtain ⟨b,hb⟩ := List.exists_mem_of_ne_nil _ hne
        obtain ⟨d,hd,hid,-⟩ := (hset.mp heq b).mp hb
        exact hnone d hd hid
      simp [hne,hdeps,heq]

/-- A request is committed exactly if it may run. -/
theorem requestReasons_eq_nil {id : String} : plan.requestReasons validation visible id = [] ↔
    plan.Runnable validation visible id := by
  unfold requestReasons
  rw [List.append_eq_nil_iff,List.append_eq_nil_iff,List.append_eq_nil_iff]
  have hvisible : (if id ∈ visible then [] else ["request_not_visible"]) = [] ↔ id ∈ visible := by
    split_ifs with h <;> simp [h]
  have hdeps : (plan.dependencyIndices id).flatMap (fun i => (plan.judgeDependency validation i).1) = [] ↔
      ∀ i d, plan.dependencies[i]? = some d → d.beforeRequestId = some id →
        plan.RestoreReady validation i d := by
    rw [List.flatMap_eq_nil_iff]
    constructor
    · intro h i d hd hid
      exact (judgeDependency_eq_nil hd).mp (h i (mem_dependencyIndices.mpr ⟨d,hd,hid⟩))
    · intro h i hi
      obtain ⟨d,hd,hid⟩ := mem_dependencyIndices.mp hi
      exact (judgeDependency_eq_nil hd).mpr (h i d hd hid)
  rw [hvisible,hdeps,admissionReasons_eq_nil]
  constructor
  · rintro ⟨⟨⟨hvis,a,v,ha,hv,hvalid,hact⟩,hready⟩,hshape⟩
    obtain ⟨hmem,hid⟩ := admission_eq_some.mp ha
    exact ⟨hvis,⟨a,hmem,hid,⟨v,hv,hvalid⟩,(shapeReasons_eq_nil ha hact hready).mp hshape⟩,hready⟩
  · rintro ⟨hvis,⟨a,hmem,hid,⟨v,hv,hvalid⟩,hfits⟩,hready⟩
    have ha := admission_eq_some.mpr ⟨hmem,hid⟩
    have hact : a.action = .admits ∨ a.action = .restoreThenAdmit := hfits.imp And.left And.left
    exact ⟨⟨⟨hvis,a,v,ha,hv,hvalid,hact⟩,hready⟩,(shapeReasons_eq_nil ha hact hready).mpr hfits⟩

theorem requestCommitted_iff {id : String} : plan.requestCommitted validation visible id = true ↔
    plan.Runnable validation visible id := by
  rw [requestCommitted,List.isEmpty_iff,requestReasons_eq_nil]

theorem mem_orderedRequests {id : String} : id ∈ plan.orderedRequests validation visible ↔
    id ∈ plan.execution.orderedRequestIds ∧ plan.Runnable validation visible id := by
  rw [orderedRequests,List.mem_filter,requestCommitted_iff]

theorem nodup_orderedRequests : (plan.orderedRequests validation visible).Nodup :=
  plan.execution.unique.filter _

/-! ## Restores -/

theorem restoreEntry_eq_some {id : String} {entry : String × List String} :
    plan.restoreEntry id = some entry ↔ entry.1 = id ∧ ∃ a ∈ plan.admissions, a.requestId = id ∧
      a.action = .restoreThenAdmit ∧ entry.2 = a.requiredBundleIds.mergeSort fun a b => decide (a ≤ b) := by
  unfold restoreEntry
  rw [Option.bind_eq_some_iff]
  constructor
  · rintro ⟨a,ha,hentry⟩
    obtain ⟨hmem,hid⟩ := admission_eq_some.mp ha
    by_cases hact : a.action = .restoreThenAdmit
    · rw [if_pos hact] at hentry
      cases hentry
      exact ⟨rfl,a,hmem,hid,hact,rfl⟩
    · rw [if_neg hact] at hentry
      cases hentry
  · rintro ⟨hfst,a,hmem,hid,hact,hsnd⟩
    refine ⟨a,admission_eq_some.mpr ⟨hmem,hid⟩,?_⟩
    rw [if_pos hact,← hfst,← hsnd]

theorem restoreRequirements_fst (ids : List String) : (ids.filterMap plan.restoreEntry).map Prod.fst =
    ids.filter fun id => (plan.restoreEntry id).isSome := by
  induction ids with
  | nil => rfl
  | cons id ids ih =>
    cases hentry : plan.restoreEntry id with
    | none => simp [hentry,ih]
    | some entry => simp [hentry,ih,(restoreEntry_eq_some.mp hentry).1]

/-- What an ordered restore waits for are the bundles of its admission. -/
theorem restore_of_mem {entry : String × List String}
    (h : entry ∈ (plan.orderedRequests validation visible).filterMap plan.restoreEntry) :
    entry.1 ∈ plan.orderedRequests validation visible ∧ ∃ a ∈ plan.admissions, a.requestId = entry.1 ∧
      entry.2.Perm a.requiredBundleIds ∧ a.requiredBundleIds ≠ [] ∧
      ∀ b, b ∈ a.requiredBundleIds ↔ plan.Awaits entry.1 b := by
  obtain ⟨id,hid,hentry⟩ := List.mem_filterMap.mp h
  obtain ⟨rfl,a,hmem,hname,hact,hsnd⟩ := restoreEntry_eq_some.mp hentry
  refine ⟨hid,a,hmem,hname,hsnd ▸ List.mergeSort_perm _ _,?_⟩
  obtain ⟨a',ha'⟩ := (mem_orderedRequests.mp hid).2.admission
  have hsame : a' = a :=
    List.inj_on_of_nodup_map plan.admissions_unique ha'.member hmem (ha'.named.trans hname.symm)
  subst hsame
  rcases ha'.fits with ⟨hadmits,-⟩ | ⟨-,hne,hall⟩
  · simp [hact] at hadmits
  · exact ⟨hne,hall⟩

theorem mem_requiredIndices {j : ℕ} : j ∈ plan.requiredIndices validation visible ↔
    ∃ id ∈ plan.orderedRequests validation visible, (plan.restoreEntry id).isSome ∧
      ∃ d ∈ plan.dependencies, d.beforeRequestId = some id ∧ d.residencyIntentIndex = j := by
  simp only [requiredIndices,Finset.mem_biUnion,List.mem_toFinset,List.mem_filter,List.mem_filterMap,
    Option.map_eq_some_iff]
  constructor
  · rintro ⟨id,⟨hid,hsome⟩,i,hi,d,hd,hj⟩
    obtain ⟨d',hd',hbefore⟩ := mem_dependencyIndices.mp hi
    rw [hd] at hd'
    cases hd'
    exact ⟨id,hid,hsome,d,List.mem_of_getElem? hd,hbefore,hj⟩
  · rintro ⟨id,hid,hsome,d,hmem,hbefore,hj⟩
    obtain ⟨i,hd⟩ := List.getElem?_of_mem hmem
    exact ⟨id,⟨hid,hsome⟩,i,mem_dependencyIndices.mpr ⟨d,hd,hbefore⟩,d,hd,hj⟩

/-- A prefetch is committed only for an ordered request. -/
theorem prefetch_serves {j : ℕ} {r : ResidencyIntent} (hj : j ∈ plan.residencyIndices validation visible)
    (hr : plan.residency[j]? = some r) (hact : r.action = .prefetchGpu) :
    ∃ id ∈ plan.orderedRequests validation visible, ∃ d ∈ plan.dependencies,
      d.beforeRequestId = some id ∧ d.residencyIntentIndex = j := by
  rcases Finset.mem_union.mp hj with hreq | hcommitted
  · obtain ⟨id,hid,-,hd⟩ := mem_requiredIndices.mp hreq
    exact ⟨id,hid,hd⟩
  · rw [List.mem_toFinset,List.mem_map] at hcommitted
    obtain ⟨⟨r',i⟩,hin,rfl⟩ := hcommitted
    obtain ⟨hacting,hcommit⟩ := List.mem_filter.mp hin
    have hsame : plan.residency[i]? = some r' :=
      List.mem_zipIdx_iff_getElem?.mp (List.mem_filter.mp hacting).1
    rw [hr] at hsame
    cases hsame
    have hreq : i ∈ plan.requiredIndices validation visible := by
      simpa [residencyCommitted,hact] using And.right (Bool.and_eq_true_iff.mp hcommit)
    obtain ⟨id,hid,-,hd⟩ := mem_requiredIndices.mp hreq
    exact ⟨id,hid,hd⟩

/-! ## The view -/

/-- What a view promises of the plan it was compiled from. -/
structure ViewSound (plan : JointPlan) (validation : JointPlanComponentValidation)
    (visible : Finset String) (view : OnlineJointPlanView) : Prop where
  ordered : view.orderedRequestIds.Sublist plan.execution.orderedRequestIds
  runnable : ∀ id, id ∈ view.orderedRequestIds ↔
    id ∈ plan.execution.orderedRequestIds ∧ plan.Runnable validation visible id
  nodup : (view.immediateRequestIds ++ view.restoreRequirements.map Prod.fst ++
    view.deferredRequestIds).Nodup
  cover : ∀ id, id ∈ visible ↔ id ∈ view.immediateRequestIds ++
    view.restoreRequirements.map Prod.fst ++ view.deferredRequestIds
  restores : ∀ entry ∈ view.restoreRequirements, ∃ a ∈ plan.admissions, a.requestId = entry.1 ∧
    entry.2.Perm a.requiredBundleIds
  prefetched : ∀ entry ∈ view.restoreRequirements, ∀ b ∈ entry.2, ∃ i d r,
    plan.dependencies[i]? = some d ∧ d.beforeRequestId = some entry.1 ∧
    plan.residency[d.residencyIntentIndex]? = some r ∧ r.bundleId = b ∧
    plan.RestoreReady validation i d ∧ d.residencyIntentIndex ∈ view.residencyIntentIndices
  serves : ∀ j ∈ view.residencyIntentIndices, ∀ r, plan.residency[j]? = some r →
    r.action = .prefetchGpu → ∃ id ∈ view.orderedRequestIds, ∃ d ∈ plan.dependencies,
      d.beforeRequestId = some id ∧ d.residencyIntentIndex = j

/-- An ordered request is either run at once or after a restore. -/
theorem immediate_or_restore (ids : List String) (id : String) :
    id ∈ ids ↔ id ∈ ids.filter (fun id => (plan.restoreEntry id).isNone) ∨
      id ∈ (ids.filterMap plan.restoreEntry).map Prod.fst := by
  rw [restoreRequirements_fst,List.mem_filter,List.mem_filter]
  cases plan.restoreEntry id <;> simp

theorem not_immediate_and_restore {ids : List String} {id : String}
    (h : id ∈ (ids.filterMap plan.restoreEntry).map Prod.fst) :
    id ∉ ids.filter fun id => (plan.restoreEntry id).isNone := by
  rw [restoreRequirements_fst,List.mem_filter] at h
  intro himm
  have hnone := (List.mem_filter.mp himm).2
  rw [Option.isNone_iff_eq_none] at hnone
  simp [hnone] at h

theorem nodup_restores :
    (((plan.orderedRequests validation visible).filterMap plan.restoreEntry).map Prod.fst).Nodup := by
  rw [restoreRequirements_fst]
  exact nodup_orderedRequests.filter _

theorem onlineView_sound : ViewSound plan validation visible (plan.onlineView validation visible) where
  ordered := List.filter_sublist
  runnable _ := mem_orderedRequests
  nodup := by
    rw [List.nodup_append,List.nodup_append]
    refine ⟨⟨nodup_orderedRequests.filter _,nodup_restores,?_⟩,Dict.nodup_sorted _,?_⟩
    · intro id himm _ hrest heq
      exact not_immediate_and_restore hrest (heq ▸ himm)
    · intro id hid other hother heq
      subst heq
      have hord := (immediate_or_restore _ _).mpr (List.mem_append.mp hid)
      rw [onlineView,Dict.mem_sorted,Finset.mem_sdiff,List.mem_toFinset] at hother
      exact hother.2 hord
  cover id := by
    rw [List.mem_append,List.mem_append]
    change _ ↔ (id ∈ (plan.orderedRequests validation visible).filter _ ∨
      id ∈ ((plan.orderedRequests validation visible).filterMap plan.restoreEntry).map Prod.fst) ∨
        id ∈ Dict.sorted (visible \ (plan.orderedRequests validation visible).toFinset)
    rw [← immediate_or_restore,Dict.mem_sorted,Finset.mem_sdiff,List.mem_toFinset]
    constructor
    · intro hvis
      by_cases hord : id ∈ plan.orderedRequests validation visible
      · exact .inl hord
      · exact .inr ⟨hvis,hord⟩
    · rintro (hord | ⟨hvis,-⟩)
      · exact (mem_orderedRequests.mp hord).2.visible
      · exact hvis
  restores entry hentry := by
    obtain ⟨-,a,ha,hid,hperm,-⟩ := restore_of_mem hentry
    exact ⟨a,ha,hid,hperm⟩
  prefetched entry hentry b hb := by
    obtain ⟨hord,a,ha,hid,hperm,hne,hall⟩ := restore_of_mem hentry
    obtain ⟨d,hmem,hbefore,r,hr,hbundle⟩ := (hall b).mp (hperm.mem_iff.mp hb)
    obtain ⟨i,hd⟩ := List.getElem?_of_mem hmem
    refine ⟨i,d,r,hd,hbefore,hr,hbundle,?_,?_⟩
    · exact (mem_orderedRequests.mp hord).2.dependencies i d hd hbefore
    · obtain ⟨id,-,hsome⟩ := List.mem_filterMap.mp hentry
      have hsame := (restoreEntry_eq_some.mp hsome).1
      rw [onlineView,Finset.mem_sort,residencyIndices,Finset.mem_union]
      refine .inl (mem_requiredIndices.mpr ⟨entry.1,hord,?_,d,hmem,hbefore,rfl⟩)
      rw [hsame,hsome]
      rfl
  serves j hj r hr hact := prefetch_serves ((Finset.mem_sort _).mp hj) hr hact

/-- The constructor accepts the view. -/
theorem onlineView_check : (plan.onlineView validation visible).check = .ok () := by
  unfold OnlineJointPlanView.check
  simp only [bind_eq_ok,ensure_eq_ok]
  refine ⟨(),plan.named,(),nodup_orderedRequests,(),nodup_orderedRequests.filter _,
    (),Dict.nodup_sorted _,(),Finset.sort_nodup _ _,(),?_,(),nodup_restores,(),?_,(),?_,?_⟩
  · intro id hid
    exact (immediate_or_restore _ id).mpr (.inl hid)
  · intro id hid
    exact (immediate_or_restore _ id).mpr (.inr hid)
  · intro id hid
    exact not_immediate_and_restore hid
  · intro entry hentry
    obtain ⟨-,a,-,-,hperm,hne,-⟩ := restore_of_mem hentry
    refine ⟨?_,hperm.nodup_iff.mpr a.unique⟩
    intro hnil
    rw [hnil] at hperm
    exact hne hperm.nil_eq.symm

/-! ## The slices -/

section Slices
variable (plan validation visible)

/-- The slice of a request. -/
def requestRecord (id : String) : ActionSlice where
  sliceId := "request:" ++ id
  kind := "request"
  actionKey := id
  dependencyKeys := Dict.sorted ((plan.dependencyIndices id).map fun i => "dependency:" ++ toString i).toFinset
  committed := plan.requestCommitted validation visible id
  reasons := Dict.sorted (plan.requestReasons validation visible id).toFinset

/-- The requests that a residency intent serves, by the ids of their slices. -/
def servedSlices (i : ℕ) : List String :=
  plan.dependencies.filterMap fun dependency =>
    if dependency.residencyIntentIndex = i then dependency.beforeRequestId.map ("request:" ++ ·)
    else none

def residencyRejections (i : ℕ) (residency : ResidencyIntent) : List String :=
  if plan.residencyCommitted validation visible i residency then []
  else if residencyReasons validation residency = [] then ["no_committed_consumer"]
  else residencyReasons validation residency

/-- The slice of a residency intent. -/
def residencyRecord (entry : ResidencyIntent × ℕ) : ActionSlice where
  sliceId := residencySliceId entry.2 entry.1.bundleId
  kind := "residency"
  actionKey := entry.1.bundleId
  dependencyKeys := Dict.sorted (plan.servedSlices entry.2).toFinset
  committed := plan.residencyCommitted validation visible entry.2 entry.1
  reasons := Dict.sorted (plan.residencyRejections validation visible entry.2 entry.1).toFinset

/-- The slices of an epoch. -/
def epochSlices : List ActionSlice :=
  plan.execution.orderedRequestIds.map (plan.requestRecord validation visible) ++
    plan.actingResidency.map (plan.residencyRecord validation visible)

end Slices

theorem make_eq_ok {sliceId kind actionKey : String} {dependencyKeys reasons : List String}
    {committed : Bool} (hid : sliceId ≠ "" ∧ kind ≠ "" ∧ actionKey ≠ "")
    (hreasons : committed = true → reasons = []) :
    ActionSlice.make sliceId kind actionKey dependencyKeys committed reasons =
      .ok ⟨sliceId,kind,actionKey,Dict.sorted dependencyKeys.toFinset,committed,
        Dict.sorted reasons.toFinset⟩ := by
  unfold ActionSlice.make
  simp only [bind_eq_ok,ensure_eq_ok]
  refine ⟨(),hid,(),?_,trivial⟩
  rintro ⟨hcommitted,hne⟩
  rw [hreasons hcommitted] at hne
  exact hne rfl

theorem requestSlice_eq_ok {id : String} (hid : id ≠ "") : plan.requestSlice validation visible id =
    .ok (plan.requestRecord validation visible id) :=
  make_eq_ok ⟨append_ne_empty (by decide) id,by decide,hid⟩ List.isEmpty_iff.mp

theorem residencySlice_eq_ok (entry : ResidencyIntent × ℕ) :
    plan.residencySlice validation visible entry.2 entry.1 =
      .ok (plan.residencyRecord validation visible entry) := by
  refine make_eq_ok ⟨?_,by decide,entry.1.named⟩ ?_
  · have hne := append_ne_empty (p := "residency:") (by decide) (toString entry.2 ++ ":" ++ entry.1.bundleId)
    rwa [← residencySliceId_eq] at hne
  · intro hcommitted
    rw [if_pos hcommitted]

theorem nodup_acting : (plan.actingResidency.map Prod.snd).Nodup := by
  have hsub : (plan.actingResidency.map Prod.snd).Sublist (plan.residency.zipIdx.map Prod.snd) :=
    List.filter_sublist.map _
  refine hsub.nodup ?_
  rw [List.zipIdx_map_snd]
  exact List.nodup_range'

theorem mem_actingResidency {r : ResidencyIntent} {i : ℕ} (h : (r,i) ∈ plan.actingResidency) :
    plan.residency[i]? = some r :=
  List.mem_zipIdx_iff_getElem?.mp (List.mem_filter.mp h).1

theorem epochSlices_tagged : SlicesTagged (plan.epochSlices validation visible) where
  nodup := by
    rw [epochSlices,List.map_append,List.map_map,List.map_map,List.nodup_append]
    refine ⟨?_,?_,?_⟩
    · exact plan.execution.unique.map fun a b h => (String.append_right_inj _).mp h
    · have hsnd : (plan.actingResidency.map Prod.snd).Nodup := nodup_acting
      rw [List.Nodup,List.pairwise_map] at hsnd ⊢
      exact hsnd.imp fun hne heq => hne (residencySliceId_inj heq)
    · intro a ha b hb heq
      obtain ⟨id,-,rfl⟩ := List.mem_map.mp ha
      obtain ⟨entry,-,rfl⟩ := List.mem_map.mp hb
      exact request_ne_residency _ _ (heq.trans (residencySliceId_eq _ _))
  tagged s hs := by
    rcases List.mem_append.mp hs with hs | hs
    · obtain ⟨id,-,rfl⟩ := List.mem_map.mp hs
      refine .inl ⟨id,rfl,?_⟩
      intro d hd
      rw [requestRecord,Dict.mem_sorted,List.mem_toFinset,List.mem_map] at hd
      obtain ⟨i,-,rfl⟩ := hd
      exact ⟨_,rfl⟩
    · obtain ⟨entry,-,rfl⟩ := List.mem_map.mp hs
      refine .inr ⟨entry.2,entry.1.bundleId,rfl,?_⟩
      intro d hd
      rw [residencyRecord,Dict.mem_sorted,List.mem_toFinset,servedSlices,List.mem_filterMap] at hd
      obtain ⟨dependency,-,hserved⟩ := hd
      by_cases hindex : dependency.residencyIntentIndex = entry.2
      · rw [if_pos hindex,Option.map_eq_some_iff] at hserved
        obtain ⟨id,-,rfl⟩ := hserved
        exact ⟨id,rfl⟩
      · rw [if_neg hindex] at hserved
        cases hserved

/-! ## The groups -/

/-- A dependency ties a request to a residency intent, by the ids of their slices. -/
def Tied (plan : JointPlan) (a b : String) : Prop :=
  ∃ d ∈ plan.dependencies, ∃ id r, d.beforeRequestId = some id ∧
    plan.residency[d.residencyIntentIndex]? = some r ∧ a = "request:" ++ id ∧
    b = residencySliceId d.residencyIntentIndex r.bundleId

theorem mem_servedSlices {i : ℕ} {a : String} : a ∈ plan.servedSlices i ↔
    ∃ d ∈ plan.dependencies, d.residencyIntentIndex = i ∧ ∃ id, d.beforeRequestId = some id ∧
      a = "request:" ++ id := by
  unfold servedSlices
  rw [List.mem_filterMap]
  refine exists_congr fun d => and_congr_right fun _ => ?_
  by_cases hindex : d.residencyIntentIndex = i
  · rw [if_pos hindex,Option.map_eq_some_iff]
    simp [hindex,eq_comm]
  · rw [if_neg hindex]
    simp [hindex]

/-- A slice depends on another exactly as its residency intent serves the request. -/
theorem mem_epochLinks {a b : String} : (a,b) ∈ sliceLinks (plan.epochSlices validation visible) ↔
    (a ∈ sliceIds (plan.epochSlices validation visible) ∧
      b ∈ sliceIds (plan.epochSlices validation visible)) ∧ plan.Tied b a := by
  rw [mem_sliceLinks]
  constructor
  · rintro ⟨⟨s,hs,rfl,hkey⟩,hb⟩
    refine ⟨⟨mem_sliceIds.mpr ⟨s,hs,rfl⟩,hb⟩,?_⟩
    rcases List.mem_append.mp hs with hreq | hres
    · -- The keys of a request's slice are no ids of slices.
      obtain ⟨id,-,rfl⟩ := List.mem_map.mp hreq
      rw [requestRecord,Dict.mem_sorted,List.mem_toFinset,List.mem_map] at hkey
      obtain ⟨i,-,rfl⟩ := hkey
      obtain ⟨t,ht,htid⟩ := mem_sliceIds.mp hb
      rcases epochSlices_tagged.tagged t ht with ⟨id',hid',-⟩ | ⟨j,c,hc,-⟩
      · exact absurd (htid.symm.trans hid') (dependency_ne_request _ _)
      · rw [residencySliceId_eq] at hc
        exact absurd (htid.symm.trans hc) (dependency_ne_residency _ _)
    · obtain ⟨⟨r,i⟩,hentry,rfl⟩ := List.mem_map.mp hres
      rw [residencyRecord,Dict.mem_sorted,List.mem_toFinset,mem_servedSlices] at hkey
      obtain ⟨d,hd,rfl,id,hbefore,rfl⟩ := hkey
      exact ⟨d,hd,id,r,hbefore,mem_actingResidency hentry,rfl,rfl⟩
  · rintro ⟨⟨ha,hb⟩,d,hd,id,r,hbefore,hr,rfl,rfl⟩
    obtain ⟨s,hs,hsid⟩ := mem_sliceIds.mp ha
    refine ⟨⟨s,hs,hsid,?_⟩,hb⟩
    rcases List.mem_append.mp hs with hreq | hres
    · obtain ⟨other,-,rfl⟩ := List.mem_map.mp hreq
      exact absurd (hsid.trans (residencySliceId_eq _ _)) (request_ne_residency _ _)
    · obtain ⟨entry,-,rfl⟩ := List.mem_map.mp hres
      have hindex : entry.2 = d.residencyIntentIndex := residencySliceId_inj hsid
      rw [residencyRecord,Dict.mem_sorted,List.mem_toFinset,mem_servedSlices]
      exact ⟨d,hd,hindex.symm,id,hbefore,rfl⟩

/-- The groups of an epoch are the components of its requests and residency intents. -/
structure EpochSound (plan : JointPlan) (epoch : JointPlanEpoch) : Prop where
  slices : epoch.actionSlices.map (·.sliceId) =
    plan.execution.orderedRequestIds.map ("request:" ++ ·) ++
      plan.actingResidency.map fun entry => residencySliceId entry.2 entry.1.bundleId
  actions : ∀ g ∈ epoch.actionGroups, ∀ s ∈ g.actions, s ∈ epoch.actionSlices
  nodup : (epoch.actionGroups.flatMap ActionGroup.actionIds).Nodup
  cover : ∀ s ∈ epoch.actionSlices, ∃ g ∈ epoch.actionGroups, s ∈ g.actions
  connected : ∀ g ∈ epoch.actionGroups, ∀ a ∈ g.actionIds, ∀ b, b ∈ g.actionIds ↔
    ReflTransGen (fun a b => (a ∈ epoch.actionSlices.map (·.sliceId) ∧
      b ∈ epoch.actionSlices.map (·.sliceId)) ∧ (plan.Tied a b ∨ plan.Tied b a)) a b

theorem reaches_iff {a b : String} :
    Components.Reaches (sliceAdjacency (plan.epochSlices validation visible)) a b ↔
      ReflTransGen (fun a b => (a ∈ (plan.epochSlices validation visible).map (·.sliceId) ∧
        b ∈ (plan.epochSlices validation visible).map (·.sliceId)) ∧
          (plan.Tied a b ∨ plan.Tied b a)) a b := by
  have hstep : (fun a b => b ∈ sliceAdjacency (plan.epochSlices validation visible) a) = fun a b =>
      (a ∈ (plan.epochSlices validation visible).map (·.sliceId) ∧
        b ∈ (plan.epochSlices validation visible).map (·.sliceId)) ∧
          (plan.Tied a b ∨ plan.Tied b a) := by
    funext a b
    rw [mem_sliceAdjacency,mem_epochLinks,mem_epochLinks]
    simp only [sliceIds,List.mem_toFinset]
    refine propext ⟨?_,?_⟩
    · rintro (⟨hin,htied⟩ | ⟨⟨hb,ha⟩,htied⟩)
      · exact ⟨hin,.inr htied⟩
      · exact ⟨⟨ha,hb⟩,.inl htied⟩
    · rintro ⟨hin,htied | htied⟩
      · exact .inr ⟨⟨hin.2,hin.1⟩,htied⟩
      · exact .inl ⟨hin,htied⟩
  rw [Components.Reaches,hstep]

theorem epochSlices_ids : (plan.epochSlices validation visible).map (·.sliceId) =
    plan.execution.orderedRequestIds.map ("request:" ++ ·) ++
      plan.actingResidency.map fun entry => residencySliceId entry.2 entry.1.bundleId := by
  rw [epochSlices,List.map_append,List.map_map,List.map_map]
  rfl

end JointPlan

open JointPlan

/-- Without the empty request id the compilation returns; a view it returns is sound, and so are
the groups of its epoch. -/
theorem compileOnlineJointView_sound (plan : JointPlan) (validation : JointPlanComponentValidation)
    (visible : Finset String) (epochSequence : ℕ) (hnamed : "" ∉ plan.execution.orderedRequestIds) :
    ∃ decision, compileOnlineJointView plan validation visible epochSequence = .ok decision ∧
      ∀ view, decision.view = some view → ViewSound plan validation visible view ∧
        ∃ epoch, decision.epoch = some epoch ∧ epoch.view = view ∧ EpochSound plan epoch := by
  unfold compileOnlineJointView
  by_cases hglobal : validation.globalReasons ≠ []
  · rw [if_pos hglobal]
    exact ⟨_,rfl,fun view hview => by cases hview⟩
  rw [if_neg hglobal]
  by_cases hnonlocal : nonlocalExecutionReasons validation ≠ []
  · rw [if_pos hnonlocal]
    exact ⟨_,rfl,fun view hview => by cases hview⟩
  rw [if_neg hnonlocal]
  have htagged : SlicesTagged (plan.epochSlices validation visible) := epochSlices_tagged
  obtain ⟨groups,hgroups,hsound⟩ := actionGroupsFromSlices_sound htagged
  have hrequests : plan.execution.orderedRequestIds.mapM (plan.requestSlice validation visible) =
      .ok (plan.execution.orderedRequestIds.map (plan.requestRecord validation visible)) :=
    mapM_eq_ok fun id hid => requestSlice_eq_ok fun heq => hnamed (heq ▸ hid)
  have hresidency : (plan.actingResidency.mapM fun entry =>
      plan.residencySlice validation visible entry.2 entry.1) =
      .ok (plan.actingResidency.map (plan.residencyRecord validation visible)) :=
    mapM_eq_ok fun entry _ => residencySlice_eq_ok entry
  refine ⟨_,bind_eq_ok.mpr ⟨_,hrequests,bind_eq_ok.mpr ⟨_,hresidency,bind_eq_ok.mpr ⟨(),onlineView_check,
    bind_eq_ok.mpr ⟨groups,hgroups,bind_eq_ok.mpr ⟨(),?_,bind_eq_ok.mpr ⟨(),?_,rfl⟩⟩⟩⟩⟩⟩,?_⟩
  · simp only [JointPlanEpoch.check,bind_eq_ok,ensure_eq_ok]
    refine ⟨(),⟨?_,plan.named⟩,(),List.countP_le_length,(),rfl,hsound.nodup⟩
    rw [String.append_assoc]
    exact append_ne_empty plan.named _
  · simp only [OnlineJointPlanDecision.check,bind_eq_ok,ensure_eq_ok]
    refine ⟨(),?_,(),?_,?_⟩
    · split_ifs <;> decide
    · intro _
      split_ifs <;> decide
    · simp
  · rintro view ⟨⟩
    refine ⟨onlineView_sound,_,rfl,rfl,epochSlices_ids,hsound.actions,hsound.nodup,hsound.cover,?_⟩
    intro g hg a ha b
    exact (hsound.connected g hg a ha b).trans reaches_iff

/-- A plan that runs one request and restores a bundle for another. -/
def restoringPlan : JointPlan where
  planId := "plan"
  execution := ⟨["r1","r2"],by decide⟩
  admissions := [⟨"r1",.admits,[],by decide,by decide⟩,⟨"r2",.restoreThenAdmit,["b"],by decide,by decide⟩]
  residency := [⟨"b",.prefetchGpu,by decide⟩]
  dependencies := [⟨some "r2",0,true⟩]
  named := by decide
  admissions_unique := by decide
  residency_unique := by decide
  dependencies_bound := by decide

def cleanValidation : JointPlanComponentValidation where
  globalReasons := []
  execution := {}
  admissions := ((∅ : Dict String IntentValidation).insert "r1" {}).insert "r2" {}
  residency := (∅ : Dict String IntentValidation).insert "b" {}
  dependencies := [{}]

theorem restoringPlan_compiles : "" ∉ restoringPlan.execution.orderedRequestIds ∧
    restoringPlan.orderedRequests cleanValidation {"r1","r2"} = ["r1","r2"] ∧
    ∃ decision, compileOnlineJointView restoringPlan cleanValidation {"r1","r2"} 1 = .ok decision ∧
      ∀ view, decision.view = some view → ViewSound restoringPlan cleanValidation {"r1","r2"} view ∧
        ∃ epoch, decision.epoch = some epoch ∧ epoch.view = view ∧ EpochSound restoringPlan epoch :=
  ⟨by decide,by decide +kernel,compileOnlineJointView_sound restoringPlan cleanValidation {"r1","r2"} 1
    (by decide)⟩

/-- A plan that orders the request without a name. -/
def namelessPlan : JointPlan where
  planId := "plan"
  execution := ⟨[""],by decide⟩
  admissions := []
  residency := []
  dependencies := []
  named := by decide
  admissions_unique := by decide
  residency_unique := by decide
  dependencies_bound := by decide

/-- The slice of a request without a name is refused. -/
theorem nameless_request_raises : compileOnlineJointView namelessPlan cleanValidation ∅ 1 =
    .error (.valueError "JointPlan action slice identity must be non-empty") := by
  rfl

end BeliefKV
