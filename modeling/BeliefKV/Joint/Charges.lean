import BeliefKV.Joint.Headroom

/-! When a plan fits into every state. -/
namespace BeliefKV.JointScheduler

namespace Planned
variable {J : Type} {readers : Readers J} {fl : ℚ → ℚ} {config : JointPlannerConfig}
  {source : ObservedInput J} {plan : PlannedJointPlan}

/-! ## The state that finds a request as it was read -/

theorem request_of_recorded (h : Planned readers fl config source plan) {w : String}
    (hgen : (plan.readSet.transitionGenerations[w]?).isSome) : ∃ r ∈ source.runnableFrontier,
      r.workflowId = w ∧ expects plan.readSet.transitionGenerations w
        (readers.generation (source.graph.transitions.getD w readers.blank)) = true := by
  obtain ⟨v,hv⟩ := Option.isSome_iff_exists.mp hgen
  have hread := hv
  rw [h.readSet] at hread
  obtain ⟨r,hr,rfl,rfl⟩ := mem_of_collect hread
  obtain ⟨id,-,hid⟩ := List.mem_filterMap.mp hr
  exact ⟨r,(request?_eq_some.mp hid).1,rfl,decide_eq_true hv⟩

theorem invocation_recorded (h : Planned readers fl config source plan) {i : String}
    (hinv : (plan.readSet.invocationFingerprints[i]?).isSome) :
    expects plan.readSet.invocationFingerprints i
      (readers.digest (source.graph.invocations.getD i readers.blank)) = true := by
  obtain ⟨v,hv⟩ := Option.isSome_iff_exists.mp hinv
  have hread := hv
  rw [h.readSet] at hread
  obtain ⟨i,-,rfl,rfl⟩ := mem_of_collect hread
  exact decide_eq_true hv

theorem join_recorded (h : Planned readers fl config source plan) {e : String × String}
    (he : e ∈ plan.readSet.joinFingerprints.toList) :
    readers.digest (source.graph.joins.getD e.1 readers.blank) = e.2 := by
  rw [Std.ExtTreeMap.mem_toList_iff_getElem?_eq_some,h.readSet] at he
  obtain ⟨entry,hentry,hkey,hvalue⟩ := mem_of_collect he
  have hget := Std.ExtTreeMap.mem_toList_iff_getElem?_eq_some.mp (List.mem_filter.mp hentry).1
  rw [← hkey,Std.ExtTreeMap.getD_eq_getD_getElem?,hget,Option.getD_some]
  exact hvalue

theorem generation_recorded (h : Planned readers fl config source plan) {intent : PlannedResidency}
    (hintent : intent ∈ plan.residency) {b : PhysicalBundleSnapshot}
    (hb : source.bundle? intent.bundleId = some b) :
    expects plan.readSet.touchedBundleGenerations intent.bundleId b.generationFingerprint = true := by
  have hkeys : ((plan.residency.filterMap fun r => source.bundle? r.bundleId).map (·.bundleId)).Nodup := by
    have hids : (((plan.residency.map (·.bundleId)).filterMap source.bundle?).map (·.bundleId)).Sublist
        (plan.residency.map (·.bundleId)) := requiredBundles_ids _
    rw [List.filterMap_map] at hids
    exact h.residency_unique.sublist hids
  rw [h.readSet,← (bundle?_eq_some.mp hb).2]
  exact decide_eq_true (collect_of_nodup hkeys (List.mem_filterMap.mpr ⟨intent,hintent,hb⟩))

/-- The state in which one request is found as it was read, with the bundles it requires. -/
def asRead (source : ObservedInput J) (a : PlannedAdmission) (r : RunnableInvocation) (available : ℕ) :
    JointPlanCurrentState J :=
  { projected source with
    runnableFrontier := [r]
    hbmAvailableBytes := available
    bundleSnapshots := collect (a.requiredBundleIds.filterMap source.bundle?) (·.bundleId) id
    frontier_sorted := List.pairwise_singleton _ r }

variable {a : PlannedAdmission} {r : RunnableInvocation} {available : ℕ}

theorem asRead_request? (hid : r.requestId = a.requestId) :
    (asRead source a r available).request? a.requestId = some r := by
  simp [JointPlanCurrentState.request?,asRead,hid]

theorem asRead_request?_none {id : String} (hid : r.requestId = a.requestId) (hne : id ≠ a.requestId) :
    (asRead source a r available).request? id = none := by
  simp [JointPlanCurrentState.request?,asRead,hid,hne.symm]

theorem asRead_bundle {b : PhysicalBundleSnapshot} {id : String} (hid : id ∈ a.requiredBundleIds)
    (hb : source.bundle? id = some b) : (asRead source a r available).bundleSnapshots[id]? = some b := by
  have hkeys : ((a.requiredBundleIds.filterMap source.bundle?).map (·.bundleId)).Nodup :=
    a.unique.sublist (requiredBundles_ids _)
  rw [← (bundle?_eq_some.mp hb).2]
  exact collect_of_nodup hkeys (List.mem_filterMap.mpr ⟨id,hid,hb⟩)

theorem asRead_bundle_required {b : PhysicalBundleSnapshot} {id : String}
    (h : (asRead source a r available).bundleSnapshots[id]? = some b) : id ∈ a.requiredBundleIds := by
  obtain ⟨bundle,hbundle,rfl,-⟩ := mem_of_collect h
  obtain ⟨id,hid,hget⟩ := List.mem_filterMap.mp hbundle
  rw [(bundle?_eq_some.mp hget).2]
  exact hid

/-- Nothing has changed for the request. -/
theorem asRead_requestReasons (h : Planned readers fl config source plan) (ha : a ∈ plan.admissions)
    (hopen : transitionOpen readers source = false) (hid : r.requestId = a.requestId)
    (hrecorded : Recorded readers plan.readSet r) :
    requestReasons readers plan source (asRead source a r available) a.requestId = [] := by
  obtain ⟨owner,howner,hworkflow,hgen⟩ := h.request_of_recorded hrecorded.generation
  have hfp := hrecorded.fingerprint
  rw [hid] at hfp
  obtain ⟨-,hnone⟩ := Bool.or_eq_false_iff.mp hopen
  have hclosed := List.any_eq_false.mp hnone owner howner
  rw [hworkflow,Bool.not_eq_true,Bool.or_eq_false_iff] at hclosed
  have hread : a.requestId ∈ source.runnableFrontier.map (·.requestId) := by
    rw [← h.ids]
    exact List.mem_map_of_mem ha
  obtain ⟨read,hreadmem,hreadid⟩ := List.mem_map.mp hread
  refine requestReasons_eq_nil.mpr ⟨r,asRead_request? hid,?_,?_,hfp,hrecorded.epoch,
    h.invocation_recorded hrecorded.invocation,hgen,hclosed.1,hclosed.2,fun e he _ => h.join_recorded he⟩
  · rw [request?_eq_some.mpr ⟨hreadmem,hreadid⟩]
    rfl
  · rw [of_decide_eq_true hfp]
    rfl

/-- The bundles of the request can still be brought to the GPU. -/
theorem asRead_bundleReasons (h : Planned readers fl config source plan) (ha : a ∈ plan.admissions)
    {b : String} (hb : b ∈ a.requiredBundleIds) :
    bundleReasons plan (asRead source a r available) b = [] := by
  obtain ⟨-,-,bundle,hbundle,hactionable,hmissing,intent,hintent,rfl,haction,htarget⟩ :=
    h.restored a ha b hb
  have hroom : ¬ bundle.physicalUniqueBytes ≤ bundle.gpuBytes := by
    unfold PhysicalBundleSnapshot.missingBytes at hmissing
    omega
  have hreasons : residencyReasons plan (asRead source a r available) intent = [] := by
    simp only [residencyReasons,asRead_bundle hb hbundle,h.generation_recorded hintent hbundle,haction,
      hactionable,residencyTargetBytes,htarget,hroom]
    simp
  have hpass : (intent,[]) ∈ hostPass plan (asRead source a r available) plan.residency
      (asRead source a r available).hostFreeBytes :=
    hostPass_of_reasons _ hintent (by rw [haction]; decide) hreasons
  exact bundleReasons_eq_nil.mpr ((residency_valid_iff h.residency_unique hpass).mpr rfl)

/-- There is nothing to give up. -/
theorem asRead_reclaimable (h : Planned readers fl config source plan) (ha : a ∈ plan.admissions)
    {intent : PlannedResidency} (hintent : intent ∈ plan.residency)
    (haction : intent.action = .commitCpu ∨ intent.action = .drop) :
    (asRead source a r available).bundleSnapshots[intent.bundleId]? = none := by
  rw [Option.eq_none_iff_forall_ne_some]
  intro bundle hbundle
  obtain ⟨-,-,_,-,-,-,restoring,hrestoring,hsame,hprefetch,-⟩ :=
    h.restored a ha intent.bundleId (asRead_bundle_required hbundle)
  rw [List.inj_on_of_nodup_map h.residency_unique hrestoring hintent hsame] at hprefetch
  rw [hprefetch] at haction
  rcases haction with haction | haction <;> cases haction

theorem nodup_admissionOrder (h : Planned readers fl config source plan) : (admissionOrder plan).Nodup := by
  refine h.ordered_unique.append (h.admissions_unique.filter _) ?_
  intro id hordered hrest
  exact of_decide_eq_true (List.mem_filter.mp hrest).2 hordered

/-- What the request needs in that state. -/
def neededAsRead (source : ObservedInput J) (a : PlannedAdmission) (r : RunnableInvocation) : ℕ :=
  a.reservedBytes + unreservedStartupBytes r - (source.request? a.requestId).elim 0 unreservedStartupBytes

theorem asRead_needed (h : Planned readers fl config source plan) (ha : a ∈ plan.admissions)
    (hid : r.requestId = a.requestId) {needed : ℕ}
    (hneeded : neededBytes? readers plan source (asRead source a r available) a.requestId = some needed) :
    needed = neededAsRead source a r := by
  rw [neededBytes?,admission?_eq_some h.admissions_unique ha,Option.bind_some,asRead_request? hid,
    Option.bind_some] at hneeded
  have hread : a.requestId ∈ source.runnableFrontier.map (·.requestId) := by
    rw [← h.ids]
    exact List.mem_map_of_mem ha
  obtain ⟨read,hreadmem,hreadid⟩ := List.mem_map.mp hread
  have hsource : source.request? a.requestId = some read := request?_eq_some.mpr ⟨hreadmem,hreadid⟩
  rw [h.startup hsource] at hneeded
  split_ifs at hneeded
  rw [neededAsRead,hsource]
  exact (Option.some.inj hneeded).symm

theorem asRead_not_needed (hid : r.requestId = a.requestId) {id : String} (hne : id ≠ a.requestId) :
    neededBytes? readers plan source (asRead source a r available) id = none := by
  unfold neededBytes?
  cases admission? plan id with
  | none => rfl
  | some b => simp [asRead_request?_none hid hne]

/-- A request that finds everything as it was read is valid. -/
theorem asRead_valid (h : Planned readers fl config source plan) (ha : a ∈ plan.admissions) (hruns : a.Runs)
    (hopen : transitionOpen readers source = false) (hid : r.requestId = a.requestId)
    (hrecorded : Recorded readers plan.readSet r) :
    a ∈ validRuns readers fl plan source (asRead source a r (neededAsRead source a r)) := by
  refine h.mem_validRuns.mpr ⟨ha,hruns,?_,?_⟩
  · rw [admissionReasons,List.append_eq_nil_iff,List.flatMap_eq_nil_iff]
    exact ⟨h.asRead_requestReasons ha hopen hid hrecorded,fun b hb => h.asRead_bundleReasons ha hb⟩
  · refine not_mem_headroomPass _ h.nodup_admissionOrder (fun id hne => asRead_not_needed hid hne) ?_
    intro needed hneeded
    rw [h.asRead_needed ha hid hneeded]
    exact Nat.le_add_right _ _

/-- Where every state is feasible, a bundle is charged wherever it is required. -/
theorem charged_of_feasible (h : Planned readers fl config source plan)
    (hall : ∀ current, JointlyFeasible readers fl plan source current) : ChargedToItself readers plan := by
  intro pre a post hsplit ⟨r,hid,hrecorded⟩ b hb hshared
  have ha : a ∈ plan.admissions := by simp [hsplit]
  obtain ⟨hruns,hopen,bundle,hbundle,-,hmissing,-⟩ := h.restored a ha b hb
  obtain ⟨read,hread,hreserved⟩ := h.charged pre a post hsplit hruns
  set current := asRead source a r (neededAsRead source a r) with hcurrent
  have hvalid : a ∈ validRuns readers fl plan source current := h.asRead_valid ha hruns hopen hid hrecorded
  have hhbm := (hall current).hbm
  -- The startup of the request is among the startups.
  have hstartup : unreservedStartupBytes r ≤ ((validRuns readers fl plan source current).map fun a =>
      (current.request? a.requestId).elim 0 unreservedStartupBytes).sum := by
    have hmem := List.mem_map_of_mem (f := fun a : PlannedAdmission =>
      (current.request? a.requestId).elim 0 unreservedStartupBytes) hvalid
    rw [hcurrent,asRead_request? hid] at hmem
    exact List.single_le_sum (fun _ _ => Nat.zero_le _) _ hmem
  -- Its bundles are among the bundles.
  have hbundles : (a.requiredBundleIds.map (missingOf source.toPolicyInput)).sum ≤
      ∑ b ∈ ((validRuns readers fl plan source current).flatMap (·.requiredBundleIds)).toFinset,
        current.bundleSnapshots[b]?.elim 0 (·.missingBytes) := by
    rw [← List.sum_toFinset _ a.unique]
    refine (Finset.sum_le_sum fun id hid => ?_).trans
      (Finset.sum_le_sum_of_subset (s := a.requiredBundleIds.toFinset) ?_)
    · obtain ⟨-,-,bundle,hbundle,-⟩ := h.restored a ha id (List.mem_toFinset.mp hid)
      rw [hcurrent,asRead_bundle (List.mem_toFinset.mp hid) hbundle,missingOf,hbundle]
    · intro id hid
      exact List.mem_toFinset.mpr (List.mem_flatMap.mpr ⟨a,hvalid,List.mem_toFinset.mp hid⟩)
  have hreclaimed : ((plan.residency.filter fun intent =>
      (intent.action = .commitCpu || intent.action = .drop) && (validateJointPlanComponents readers fl plan
        source current).residency[intent.bundleId]?.any IntentValidation.valid).map fun intent =>
          current.bundleSnapshots[intent.bundleId]?.elim 0 (·.marginalReclaimableBytes)).sum = 0 := by
    refine List.sum_eq_zero fun x hx => ?_
    obtain ⟨intent,hintent,rfl⟩ := List.mem_map.mp hx
    obtain ⟨hin,haction⟩ := List.mem_filter.mp hintent
    simp only [Bool.and_eq_true,Bool.or_eq_true,decide_eq_true_eq] at haction
    rw [hcurrent,h.asRead_reclaimable ha hin haction.1]
    rfl
  have hcharge := sum_filter_add_le hb (p := fun b => b ∉ pre.flatMap (·.requiredBundleIds))
    (decide_eq_false (not_not_intro hshared)) (missingOf source.toPolicyInput)
  have hmissed : missingOf source.toPolicyInput b ≠ 0 := by
    rw [missingOf,hbundle]
    exact hmissing
  have havailable : current.hbmAvailableBytes = neededAsRead source a r := rfl
  rw [hreclaimed,havailable,neededAsRead,hread,hreserved,Option.elim_some] at hhbm
  omega

end Planned

/-- A plan fits into every state exactly if it charges every bundle to each request that may be left alone
with it. -/
theorem plan_fits_iff {J : Type} (readers : Readers J) (fl : ℚ → ℚ) (config : JointPlannerConfig)
    (source : ObservedInput J) (order : CandidateOrder) (interrupts : Interrupts) (plan : PlannedJointPlan)
    (h : JointScheduler.plan readers fl config source order interrupts = .ok plan) :
    (∀ current, JointlyFeasible readers fl plan source current) ↔ ChargedToItself readers plan :=
  ⟨(plan_planned h).charged_of_feasible,fun hcharged _ => (plan_planned h).feasible hcharged⟩

/-! ## A shared bundle -/

/-- Readers of a graph whose records are the states of invocations. -/
def stateReaders : Readers String where
  blank := "unknown"
  state := id
  pendingMessages _ := 0
  members _ := []
  waiters _ := []
  generation _ := 0
  isOpen _ := false
  degraded _ := false
  virtualRuntimeMs _ := 0
  digest := id
  requestDigest p := String.intercalate "/" [p.requestId,p.workflowId,p.invocationId,p.contextId,
    toString p.contextEpoch,toString p.submittedTsMs,p.causalClass,p.programId.getD "none"]
  frontierDigest ps := String.intercalate "," (ps.map (·.requestId))

def readyGraph : GraphState String where
  invocations := collect ["first","second"] id fun _ => "ready"
  joins := ∅
  transitions := ∅
  accounts := ∅
  memoryCharges := ∅
  transitionOpen := false
  fairnessRevision := 0
  transferEpoch := 0

def firstRequest : RunnableInvocation :=
  ⟨"first","workflow","first","one",0,0,100,"foreground",none,by decide⟩

def secondRequest : RunnableInvocation :=
  ⟨"second","workflow","second","two",0,0,100,"foreground",none,by decide⟩

def sharedBundle (owners : List String) (h : owners.Nodup) : PhysicalBundleSnapshot where
  bundleId := "prefix"
  ownerContextIds := owners
  scope := "shared_prefix"
  physicalUniqueBytes := 240
  gpuBytes := 40
  cpuBytes := 240
  marginalReclaimableBytes := 0
  lockedBytes := 0
  residency := "partial"
  generationFingerprint := "generation"
  lastAccessMs := 0
  extentIds := ["page"]
  leaseKind := "ready"
  actionable := true
  blockerCodes := []
  named := by decide
  owners_unique := h
  gpu_le := by decide
  cpu_le := by decide
  marginal_le := by decide
  locked_le := by decide
  extents_unique := by decide

/-- A snapshot with two requests and one bundle. -/
def sharedInput (owners : List String) (h : owners.Nodup) : ObservedInput String where
  snapshotId := "snapshot"
  runnableFrontier := [firstRequest,secondRequest]
  bundles := [sharedBundle owners h]
  resources := {
    tsMs := 5
    hbmCapacityBytes := 1040
    hbmUsedBytes := 640
    hbmReservedBytes := 0
    hostFreeBytes := 1000
    h2dServiceBytesPerMs := 100
    d2hServiceBytesPerMs := 100
    transferSetupP50Ms := 0
    unhiddenStallPerByte := 0
    ts_nonneg := by decide
    capacity_pos := by decide
    fits := by decide }
  requests_unique := by decide
  requests_sorted := by decide
  bundles_unique := by simp
  graph := readyGraph

def bothInOrder : CandidateOrder where
  requests := [firstRequest,secondRequest]
  transition := .blocking
  fairness := ⟨{"workflow"}⟩
  unique := by decide

def uninterrupted : Interrupts where
  early := false
  expired _ := false
  cancelled _ := false

def sharedPlan (owners : List String) (h : owners.Nodup) : Except Raised PlannedJointPlan :=
  JointScheduler.plan stateReaders id {} (sharedInput owners h) bothInOrder uninterrupted

/-- A bundle of one request is charged where it is required. -/
theorem own_plan_fits : ∃ plan, sharedPlan ["one"] (by decide) = .ok plan ∧
    ∀ current, JointlyFeasible stateReaders id plan (sharedInput ["one"] (by decide)) current := by
  refine ⟨_,rfl,?_⟩
  refine (plan_fits_iff stateReaders id {} _ bothInOrder uninterrupted _ rfl).mpr ?_
  refine chargedToItself_of_nodup stateReaders ?_
  decide +kernel

/-- The request that was to restore the bundle is gone. -/
def secondAlone : JointPlanCurrentState String :=
  { projected (sharedInput ["one","two"] (by decide)) with
    runnableFrontier := [secondRequest]
    hbmAvailableBytes := 200
    frontier_sorted := List.pairwise_singleton _ secondRequest }

/-- The other request is still valid, and its startup and the bundle are more than there is. -/
theorem shared_plan_overcommits : ∃ plan current, sharedPlan ["one","two"] (by decide) = .ok plan ∧
    ¬ JointlyFeasible stateReaders id plan (sharedInput ["one","two"] (by decide)) current := by
  refine ⟨_,secondAlone,rfl,fun h => ?_⟩
  have hhbm := h.hbm
  revert hhbm
  decide +kernel

end BeliefKV.JointScheduler
