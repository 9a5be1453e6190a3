import BeliefKV.Joint.Charges

/-! The reactive reference policy: requests are admitted in the order of their submission, with the bundles
they miss, and bundles that no runnable request owns are reclaimed for those that wait. -/
namespace BeliefKV

open JointScheduler (PlannedAdmission PlannedResidency)

structure ReactivePolicyConfig where
  reserveBytes : ℕ := 0

structure PolicyOutput where
  orderedRequestIds : List String
  admissions : List PlannedAdmission
  residency : List PlannedResidency
  dependencies : List TransferDependency

/-- The checks of an output. -/
def PolicyOutput.check (out : PolicyOutput) : Except Raised Unit := do
  ensure (out.admissions.map (·.requestId)).Nodup
    (.valueError "a PolicyOutput cannot contain duplicate admission intents")
  ensure (out.residency.map (·.bundleId)).Nodup
    (.valueError "a PolicyOutput cannot contain duplicate residency intents")
  ensure (∀ d ∈ out.dependencies, d.residencyIntentIndex < out.residency.length)
    (.valueError "transfer dependency references a missing residency intent")

def fifoKey (r : RunnableInvocation) : ℚ ×ₗ String ×ₗ String ×ₗ String :=
  toLex (r.submittedTsMs,toLex (r.workflowId,toLex (r.invocationId,r.requestId)))

def fifoFrontier (input : PolicyInput) : List RunnableInvocation :=
  input.runnableFrontier.mergeSort fun a b => fifoKey a ≤ fifoKey b

/-- A bundle that is being restored, or has to be. -/
def restorable (b : PhysicalBundleSnapshot) : Bool :=
  b.residency = "prefetching" || (b.gpuBytes < b.physicalUniqueBytes &&
    (0 < b.cpuBytes || b.residency = "cpu_only" || b.residency = "host_only"))

def requiredRestoreBundles (input : PolicyInput) (contextId : String) : List PhysicalBundleSnapshot :=
  input.bundles.filter fun b => contextId ∈ b.ownerContextIds && restorable b

def blockedRestoreBundles (bundles : List PhysicalBundleSnapshot) : List PhysicalBundleSnapshot :=
  bundles.filter fun b => b.residency = "prefetching" || !b.actionable

/-- The state of the walk over the requests. -/
structure ReactiveWalk where
  available : ℕ
  admissions : List PlannedAdmission := []
  residency : List PlannedResidency := []
  dependencies : List TransferDependency := []
  restored : Finset String := ∅

section Walk
variable (input : PolicyInput) (w : ReactiveWalk) (r : RunnableInvocation)

/-- The bundles of a request that no earlier request restores. -/
def restoresOf : List PhysicalBundleSnapshot :=
  (requiredRestoreBundles input r.contextId).filter (·.bundleId ∉ w.restored)

theorem nodup_restoresOf : ((restoresOf input w r).map (·.bundleId)).Nodup :=
  input.bundles_unique.sublist ((List.filter_sublist.trans List.filter_sublist).map _)

def neededBytes : ℕ := r.startupBytes + ((restoresOf input w r).map (·.missingBytes)).sum

def prefetchIntent (b : PhysicalBundleSnapshot) : PlannedResidency where
  bundleId := b.bundleId
  action := .prefetchGpu
  named := b.named
  targetBytes := b.missingBytes

/-- The request is deferred, with the bundles it waits for. -/
def ReactiveWalk.defer (bundles : List PhysicalBundleSnapshot) (h : (bundles.map (·.bundleId)).Nodup) :
    ReactiveWalk :=
  { w with admissions := w.admissions ++ [{
      requestId := r.requestId
      action := .defer
      requiredBundleIds := bundles.map (·.bundleId)
      named := r.named
      unique := h
      reservedBytes := 0 }] }

def grantIntent : PlannedAdmission where
  requestId := r.requestId
  action := if restoresOf input w r = [] then .admits else .restoreThenAdmit
  requiredBundleIds := (restoresOf input w r).map (·.bundleId)
  named := r.named
  unique := nodup_restoresOf input w r
  reservedBytes := neededBytes input w r

/-- The request is admitted; every bundle it misses is restored before it runs. -/
def ReactiveWalk.grant : ReactiveWalk where
  available := w.available - neededBytes input w r
  admissions := w.admissions ++ [grantIntent input w r]
  residency := w.residency ++ (restoresOf input w r).map prefetchIntent
  dependencies := w.dependencies ++ (List.range (restoresOf input w r).length).map fun i =>
    ⟨some r.requestId,w.residency.length + i,true⟩
  restored := w.restored ∪ ((restoresOf input w r).map (·.bundleId)).toFinset

/-- Nothing blocks the request, and it fits. -/
def Grants : Prop :=
  blockedRestoreBundles (restoresOf input w r) = [] ∧ neededBytes input w r ≤ w.available

instance : Decidable (Grants input w r) := inferInstanceAs (Decidable (_ ∧ _))

def ReactiveWalk.visit : ReactiveWalk :=
  if blockedRestoreBundles (restoresOf input w r) ≠ [] then
    w.defer r (blockedRestoreBundles (restoresOf input w r))
      ((nodup_restoresOf input w r).sublist (List.filter_sublist.map _))
  else if neededBytes input w r ≤ w.available then w.grant input r
  else w.defer r (restoresOf input w r) (nodup_restoresOf input w r)

end Walk

/-! ## Victims -/

section Decide
variable (config : ReactivePolicyConfig) (input : PolicyInput)

def walkStart : ReactiveWalk where
  available := input.resources.hbmCapacityBytes - input.resources.hbmUsedBytes -
    input.resources.hbmReservedBytes - config.reserveBytes

def walkRequests : ReactiveWalk := (fifoFrontier input).foldl (ReactiveWalk.visit input) (walkStart config input)

def lruKey (b : PhysicalBundleSnapshot) : ℚ ×ₗ ℤ ×ₗ String :=
  toLex (b.lastAccessMs,toLex (-(b.marginalReclaimableBytes : ℤ),b.bundleId))

/-- The bundles that no runnable request owns, the least recently used one first. -/
def lruVictims : List PhysicalBundleSnapshot :=
  (input.bundles.filter fun b => 0 < b.gpuBytes && 0 < b.marginalReclaimableBytes && b.lockedBytes = 0 &&
    !(input.runnableFrontier.map (·.contextId)).any (· ∈ b.ownerContextIds)).mergeSort
      fun a b => lruKey a ≤ lruKey b

/-- The startup bytes of the requests that wait. -/
def deferredShortage (admissions : List PlannedAdmission) : ℕ :=
  ((admissions.filter (·.action = .defer)).map fun a => (input.request? a.requestId).elim 0 (·.startupBytes)).sum

def reclaimIntent (hostFree : ℕ) (b : PhysicalBundleSnapshot) : PlannedResidency where
  bundleId := b.bundleId
  action := if b.hostNeeded ≤ hostFree then .commitCpu else .drop
  named := b.named
  targetBytes := b.marginalReclaimableBytes

/-- Reclaim bundles until the shortage is covered. -/
def reclaimVictims (shortage : ℕ) (existing : List String) :
    List PhysicalBundleSnapshot → ℕ → ℕ → List PlannedResidency
  | [], _, _ => []
  | b :: rest, hostFree, reclaimed =>
    if shortage ≤ reclaimed || b.bundleId ∈ existing then []
    else reclaimIntent hostFree b :: reclaimVictims shortage existing rest
      (if b.hostNeeded ≤ hostFree then hostFree - b.hostNeeded else hostFree)
      (reclaimed + b.marginalReclaimableBytes)

def reactiveOutput : PolicyOutput :=
  let w := walkRequests config input
  { orderedRequestIds := (fifoFrontier input).map (·.requestId)
    admissions := w.admissions
    residency := w.residency ++ reclaimVictims (deferredShortage input w.admissions)
      (w.residency.map (·.bundleId)) (lruVictims input) input.resources.hostFreeBytes 0
    dependencies := w.dependencies }

def reactiveDecide : Except Raised PolicyOutput := do
  (reactiveOutput config input).check
  .ok (reactiveOutput config input)

end Decide

/-! ## What an output promises -/

def Reclaims (action : ResidencyAction) : Prop :=
  action = .commitCpu ∨ action = .drop ∨ action = .recompute

instance (action : ResidencyAction) : Decidable (Reclaims action) := inferInstanceAs (Decidable (_ ∨ _))

/-- A bundle of a request that is not on the GPU and has a copy on the host. -/
structure HostCopy (input : PolicyInput) (r : RunnableInvocation) (b : PhysicalBundleSnapshot) : Prop where
  known : b ∈ input.bundles
  owned : r.contextId ∈ b.ownerContextIds
  missing : b.gpuBytes < b.physicalUniqueBytes
  copied : 0 < b.cpuBytes

/-- The request waits until the bundle is on the GPU. -/
def Awaits (residency : List PlannedResidency) (dependencies : List TransferDependency) (requestId : String)
    (b : PhysicalBundleSnapshot) : Prop :=
  ∃ d ∈ dependencies, d.beforeRequestId = some requestId ∧ d.requireAck = true ∧
    ∃ intent, residency[d.residencyIntentIndex]? = some intent ∧ intent.bundleId = b.bundleId ∧
      intent.action = .prefetchGpu

def reclaimedMarginal (input : PolicyInput) (residency : List PlannedResidency) : ℕ :=
  ((residency.filter fun i => Reclaims i.action).map fun i =>
    (input.bundle? i.bundleId).elim 0 (·.marginalReclaimableBytes)).sum

/-- Nothing is admitted without its restores, nothing that an admitted request owns is reclaimed, and what
is reserved fits into what is free or reclaimed. -/
structure RestoresFirst (input : PolicyInput) (admissions : List PlannedAdmission)
    (residency : List PlannedResidency) (dependencies : List TransferDependency) : Prop where
  restored : ∀ a ∈ admissions, a.Runs → ∃ r, input.request? a.requestId = some r ∧
    ∀ b, HostCopy input r b → Awaits residency dependencies a.requestId b
  spared : ∀ intent ∈ residency, Reclaims intent.action → ∀ a ∈ admissions, a.Runs →
    ∀ r, input.request? a.requestId = some r → ∀ b, input.bundle? intent.bundleId = some b →
      r.contextId ∉ b.ownerContextIds
  fits : ((admissions.filter fun a => a.Runs).map (·.reservedBytes)).sum ≤
    (input.resources.hbmCapacityBytes - input.resources.hbmUsedBytes - input.resources.hbmReservedBytes) +
      reclaimedMarginal input residency

/-- No request that is admitted has a bundle that is restored for an earlier one. -/
def Unshared (config : ReactivePolicyConfig) (input : PolicyInput) : Prop :=
  ∀ pre r post, fifoFrontier input = pre ++ r :: post →
    Grants input (pre.foldl (ReactiveWalk.visit input) (walkStart config input)) r →
      ∀ b, HostCopy input r b →
        b.bundleId ∉ (pre.foldl (ReactiveWalk.visit input) (walkStart config input)).restored

/-! ## The walk -/

section Walked
variable {input : PolicyInput} {w : ReactiveWalk} {r : RunnableInvocation}

theorem visit_cases (input : PolicyInput) (w : ReactiveWalk) (r : RunnableInvocation) :
    (Grants input w r ∧ w.visit input r = w.grant input r) ∨
      ∃ bundles h, w.visit input r = w.defer r bundles h := by
  unfold ReactiveWalk.visit
  split_ifs with hblocked hfits
  · exact .inr ⟨_,(nodup_restoresOf input w r).sublist (List.filter_sublist.map _),rfl⟩
  · exact .inl ⟨⟨not_ne_iff.mp hblocked,hfits⟩,rfl⟩
  · exact .inr ⟨_,nodup_restoresOf input w r,rfl⟩

theorem grantIntent_runs : (grantIntent input w r).Runs := by
  unfold JointScheduler.PlannedAdmission.Runs grantIntent
  dsimp only
  split_ifs
  · exact .inl rfl
  · exact .inr rfl

/-- A later walk adds to what an earlier one has collected. -/
structure Extends (requests : List RunnableInvocation) (w w' : ReactiveWalk) : Prop where
  admissions : ∃ more, w'.admissions = w.admissions ++ more ∧
    more.map (·.requestId) = requests.map (·.requestId)
  residency : ∃ more, w'.residency = w.residency ++ more ∧ ∀ i ∈ more, i.action = .prefetchGpu
  dependencies : ∃ more, w'.dependencies = w.dependencies ++ more ∧
    ∀ d ∈ more, ∃ r ∈ requests, d.beforeRequestId = some r.requestId

theorem visit_extends (input : PolicyInput) (w : ReactiveWalk) (r : RunnableInvocation) :
    Extends [r] w (w.visit input r) := by
  rcases visit_cases input w r with ⟨-,heq⟩ | ⟨bundles,h,heq⟩
  · rw [heq]
    refine ⟨⟨_,rfl,rfl⟩,⟨_,rfl,?_⟩,⟨_,rfl,?_⟩⟩
    · intro i hi
      obtain ⟨b,-,rfl⟩ := List.mem_map.mp hi
      rfl
    · intro d hd
      obtain ⟨i,-,rfl⟩ := List.mem_map.mp hd
      exact ⟨r,List.mem_singleton_self r,rfl⟩
  · rw [heq]
    exact ⟨⟨_,rfl,rfl⟩,⟨[],(List.append_nil _).symm,by simp⟩,⟨[],(List.append_nil _).symm,by simp⟩⟩

theorem Extends.trans {l l' : List RunnableInvocation} {w w' w'' : ReactiveWalk} (h : Extends l w w')
    (h' : Extends l' w' w'') : Extends (l ++ l') w w'' := by
  obtain ⟨⟨as,has,hasids⟩,⟨is,his,hisact⟩,⟨ds,hds,hdsreq⟩⟩ := h
  obtain ⟨⟨as',has',hasids'⟩,⟨is',his',hisact'⟩,⟨ds',hds',hdsreq'⟩⟩ := h'
  refine ⟨⟨as ++ as',?_,?_⟩,⟨is ++ is',?_,?_⟩,⟨ds ++ ds',?_,?_⟩⟩
  · rw [has',has,List.append_assoc]
  · rw [List.map_append,List.map_append,hasids,hasids']
  · rw [his',his,List.append_assoc]
  · intro i hi
    exact (List.mem_append.mp hi).elim (hisact i) (hisact' i)
  · rw [hds',hds,List.append_assoc]
  · intro d hd
    rcases List.mem_append.mp hd with hd | hd
    · obtain ⟨r,hr,heq⟩ := hdsreq d hd
      exact ⟨r,List.mem_append_left _ hr,heq⟩
    · obtain ⟨r,hr,heq⟩ := hdsreq' d hd
      exact ⟨r,List.mem_append_right _ hr,heq⟩

theorem walk_extends (input : PolicyInput) (requests : List RunnableInvocation) : ∀ w : ReactiveWalk,
    Extends requests w (requests.foldl (ReactiveWalk.visit input) w) := by
  induction requests with
  | nil => exact fun w => ⟨⟨[],(List.append_nil _).symm,rfl⟩,⟨[],(List.append_nil _).symm,by simp⟩,
      ⟨[],(List.append_nil _).symm,by simp⟩⟩
  | cons r requests ih => exact fun w => (visit_extends input w r).trans (ih _)

/-- What the walk reserves it takes from what is available. -/
theorem visit_reserved (input : PolicyInput) (w : ReactiveWalk) (r : RunnableInvocation) :
    (((w.visit input r).admissions.filter fun a => a.Runs).map (·.reservedBytes)).sum +
      (w.visit input r).available =
        ((w.admissions.filter fun a => a.Runs).map (·.reservedBytes)).sum + w.available := by
  rcases visit_cases input w r with ⟨⟨-,hfits⟩,heq⟩ | ⟨bundles,h,heq⟩
  · rw [heq]
    have hreserved : (grantIntent input w r).reservedBytes = neededBytes input w r := rfl
    simp only [ReactiveWalk.grant,List.filter_append,List.filter_singleton,grantIntent_runs,decide_true,
      Bool.cond_true,List.map_append,List.sum_append,List.map_cons,List.map_nil,List.sum_cons,List.sum_nil,
      hreserved]
    omega
  · rw [heq]
    simp [ReactiveWalk.defer,JointScheduler.PlannedAdmission.Runs]

theorem walk_reserved (input : PolicyInput) (requests : List RunnableInvocation) : ∀ w : ReactiveWalk,
    ((((requests.foldl (ReactiveWalk.visit input) w).admissions).filter fun a => a.Runs).map
      (·.reservedBytes)).sum + (requests.foldl (ReactiveWalk.visit input) w).available =
        ((w.admissions.filter fun a => a.Runs).map (·.reservedBytes)).sum + w.available := by
  induction requests with
  | nil => exact fun w => rfl
  | cons r requests ih => exact fun w => (ih _).trans (visit_reserved input w r)

/-- Whoever runs was granted at its turn. -/
theorem granted_of_runs (start : ReactiveWalk) (hstart : start.admissions = [])
    (requests : List RunnableInvocation) : ∀ a ∈ (requests.foldl (ReactiveWalk.visit input) start).admissions,
      a.Runs → ∃ pre r post, requests = pre ++ r :: post ∧
        Grants input (pre.foldl (ReactiveWalk.visit input) start) r ∧ a.requestId = r.requestId := by
  induction requests using List.reverseRecOn with
  | nil =>
    intro a ha
    rw [List.foldl_nil,hstart] at ha
    cases ha
  | append_singleton l r ih =>
    intro a ha hruns
    rw [List.foldl_append,List.foldl_cons,List.foldl_nil] at ha
    have hold : a ∈ (l.foldl (ReactiveWalk.visit input) start).admissions → ∃ pre q post,
        l ++ [r] = pre ++ q :: post ∧ Grants input (pre.foldl (ReactiveWalk.visit input) start) q ∧
          a.requestId = q.requestId := by
      intro ha
      obtain ⟨pre,q,post,heq,hgrants,hid⟩ := ih a ha hruns
      exact ⟨pre,q,post ++ [r],by rw [heq]; simp,hgrants,hid⟩
    rcases visit_cases input (l.foldl (ReactiveWalk.visit input) start) r with ⟨hgrants,heq⟩ | ⟨bundles,h,heq⟩
    · rw [heq] at ha
      rcases List.mem_append.mp ha with ha | ha
      · exact hold ha
      · rw [List.mem_singleton.mp ha]
        exact ⟨l,r,[],rfl,hgrants,rfl⟩
    · rw [heq] at ha
      rcases List.mem_append.mp ha with ha | ha
      · exact hold ha
      · rw [List.mem_singleton.mp ha] at hruns
        rcases hruns with hruns | hruns <;> cases hruns

end Walked

/-! ## The output -/

section Output
variable {config : ReactivePolicyConfig} {input : PolicyInput}

theorem mem_fifoFrontier {r : RunnableInvocation} : r ∈ fifoFrontier input ↔ r ∈ input.runnableFrontier :=
  List.mem_mergeSort

theorem nodup_fifoFrontier : ((fifoFrontier input).map (·.requestId)).Nodup :=
  ((List.mergeSort_perm _ _).map _).nodup_iff.mpr input.requests_unique

theorem mem_reclaimVictims {shortage : ℕ} {existing : List String} (victims : List PhysicalBundleSnapshot) :
    ∀ {hostFree reclaimed : ℕ}, ∀ i ∈ reclaimVictims shortage existing victims hostFree reclaimed,
      ∃ b ∈ victims, i.bundleId = b.bundleId := by
  induction victims with
  | nil => simp [reclaimVictims]
  | cons b victims ih =>
    intro hostFree reclaimed i hi
    rw [reclaimVictims] at hi
    by_cases hstop : (decide (shortage ≤ reclaimed) || decide (b.bundleId ∈ existing)) = true
    · rw [if_pos hstop] at hi
      cases hi
    rw [if_neg hstop] at hi
    rcases List.mem_cons.mp hi with rfl | hi
    · exact ⟨b,List.mem_cons_self,rfl⟩
    · obtain ⟨c,hc,hid⟩ := ih i hi
      exact ⟨c,List.mem_cons_of_mem _ hc,hid⟩

/-- Only bundles that no runnable request owns are reclaimed. -/
theorem reclaimed_idle {intent : JointScheduler.PlannedResidency}
    (hin : intent ∈ (reactiveOutput config input).residency)
    (haction : Reclaims intent.action) {r : RunnableInvocation} (hr : r ∈ input.runnableFrontier)
    {b : PhysicalBundleSnapshot} (hb : input.bundle? intent.bundleId = some b) :
    r.contextId ∉ b.ownerContextIds := by
  obtain ⟨-,⟨more,hmore,hprefetch⟩,-⟩ := walk_extends input (fifoFrontier input) (walkStart config input)
  rcases List.mem_append.mp hin with hin | hin
  · change intent ∈ (walkRequests config input).residency at hin
    rw [walkRequests,hmore] at hin
    rw [hprefetch intent (by simpa [walkStart] using hin)] at haction
    rcases haction with h | h | h <;> cases h
  · obtain ⟨victim,hvictim,hid⟩ := mem_reclaimVictims _ intent hin
    obtain ⟨hmem,hidle⟩ := List.mem_filter.mp (List.mem_mergeSort.mp hvictim)
    have hsame : input.bundle? intent.bundleId = some victim := bundle?_eq_some.mpr ⟨hmem,hid.symm⟩
    rw [hb,Option.some.injEq] at hsame
    subst hsame
    intro howned
    simp only [Bool.and_eq_true,Bool.not_eq_true',List.any_eq_false] at hidle
    exact hidle.2 _ (List.mem_map_of_mem hr) (by simpa using howned)

theorem visit_of_grants {w : ReactiveWalk} {r : RunnableInvocation} (h : Grants input w r) :
    w.visit input r = w.grant input r := by
  unfold ReactiveWalk.visit
  rw [if_neg (not_ne_iff.mpr h.1),if_pos h.2]

theorem granted_admission {pre post : List RunnableInvocation} {r : RunnableInvocation}
    (hsplit : fifoFrontier input = pre ++ r :: post)
    (hgrants : Grants input (pre.foldl (ReactiveWalk.visit input) (walkStart config input)) r) :
    grantIntent input (pre.foldl (ReactiveWalk.visit input) (walkStart config input)) r ∈
      (reactiveOutput config input).admissions := by
  change _ ∈ (walkRequests config input).admissions
  obtain ⟨⟨more,hmore,-⟩,-,-⟩ := walk_extends input post
    ((pre.foldl (ReactiveWalk.visit input) (walkStart config input)).grant input r)
  rw [walkRequests,hsplit,List.foldl_append,List.foldl_cons,visit_of_grants hgrants,hmore]
  exact List.mem_append_left _ (List.mem_append_right _ (List.mem_singleton_self _))

/-- The dependencies of a request are those that were made at its turn. -/
theorem awaits_of_grant {pre post : List RunnableInvocation} {r : RunnableInvocation}
    (hsplit : fifoFrontier input = pre ++ r :: post) {w : ReactiveWalk}
    (hw : pre.foldl (ReactiveWalk.visit input) (walkStart config input) = w) (hgrants : Grants input w r)
    {b : PhysicalBundleSnapshot} (hb : HostCopy input r b) :
    Awaits (reactiveOutput config input).residency (reactiveOutput config input).dependencies r.requestId b ↔
      b.bundleId ∉ w.restored := by
  have hwalk : walkRequests config input = post.foldl (ReactiveWalk.visit input) (w.grant input r) := by
    rw [walkRequests,hsplit,List.foldl_append,List.foldl_cons,hw,visit_of_grants hgrants]
  obtain ⟨-,⟨laterIntents,hintents,-⟩,⟨laterDeps,hdeps,hlater⟩⟩ := walk_extends input post (w.grant input r)
  obtain ⟨-,-,⟨earlierDeps,hearlierDeps,hearlier⟩⟩ := walk_extends input pre (walkStart config input)
  rw [hw] at hearlierDeps
  have hresidency : ∃ rest, (reactiveOutput config input).residency =
      w.residency ++ (restoresOf input w r).map prefetchIntent ++ rest := by
    obtain ⟨reclaims,hreclaims⟩ : ∃ reclaims, (reactiveOutput config input).residency =
        (walkRequests config input).residency ++ reclaims := ⟨_,rfl⟩
    refine ⟨laterIntents ++ reclaims,?_⟩
    rw [hreclaims,hwalk,hintents,List.append_assoc]
    rfl
  obtain ⟨rest,hresidency⟩ := hresidency
  have hdependencies : (reactiveOutput config input).dependencies = w.dependencies ++
      (List.range (restoresOf input w r).length).map (fun i =>
        (⟨some r.requestId,w.residency.length + i,true⟩ : TransferDependency)) ++ laterDeps := by
    change (walkRequests config input).dependencies = _
    rw [hwalk,hdeps]
    rfl
  have hget : ∀ i, i < (restoresOf input w r).length → (reactiveOutput config input).residency[
      w.residency.length + i]? = ((restoresOf input w r).map prefetchIntent)[i]? := by
    intro i hi
    rw [hresidency,List.append_assoc,List.getElem?_append_right (Nat.le_add_right _ _),Nat.add_sub_cancel_left,
      List.getElem?_append_left (by simpa using hi)]
  have hids : ((fifoFrontier input).map (·.requestId)).Nodup := nodup_fifoFrontier
  rw [hsplit,List.map_append,List.map_cons] at hids
  obtain ⟨-,hlaterIds,hdisjoint⟩ := List.nodup_append.mp hids
  constructor
  · rintro ⟨d,hd,hbefore,-,intent,hintent,hid,-⟩ hrestored
    rw [hdependencies] at hd
    rcases List.mem_append.mp hd with hd | hd
    · rcases List.mem_append.mp hd with hd | hd
      · -- An earlier dependency belongs to an earlier request.
        rw [hearlierDeps] at hd
        obtain ⟨q,hq,heq⟩ := hearlier d (by simpa [walkStart] using hd)
        rw [hbefore,Option.some.injEq] at heq
        exact hdisjoint q.requestId (List.mem_map_of_mem hq) r.requestId List.mem_cons_self heq.symm
      · obtain ⟨i,hi,rfl⟩ := List.mem_map.mp hd
        rw [hget i (List.mem_range.mp hi),List.getElem?_map,Option.map_eq_some_iff] at hintent
        obtain ⟨c,hc,rfl⟩ := hintent
        have hnew : c.bundleId ∉ w.restored := by
          simpa using (List.mem_filter.mp (List.mem_of_getElem? hc)).2
        exact hnew ((show c.bundleId = b.bundleId from hid) ▸ hrestored)
    · obtain ⟨q,hq,heq⟩ := hlater d hd
      rw [hbefore,Option.some.injEq] at heq
      exact (List.nodup_cons.mp hlaterIds).1 (heq ▸ List.mem_map_of_mem hq)
  · intro hnew
    have hin : b ∈ restoresOf input w r := by
      refine List.mem_filter.mpr ⟨List.mem_filter.mpr ⟨hb.known,?_⟩,by simpa using hnew⟩
      simp [restorable,hb.owned,hb.missing,hb.copied]
    obtain ⟨i,hi,hbi⟩ := List.getElem_of_mem hin
    refine ⟨⟨some r.requestId,w.residency.length + i,true⟩,?_,rfl,rfl,prefetchIntent b,?_,rfl,rfl⟩
    · rw [hdependencies]
      exact List.mem_append_left _ (List.mem_append_right _ (List.mem_map_of_mem (List.mem_range.mpr hi)))
    · rw [hget i hi,List.getElem?_map,List.getElem?_eq_getElem hi,hbi]
      rfl

/-- What the walk restores is owned by runnable requests, each bundle once. -/
structure Collected (input : PolicyInput) (w : ReactiveWalk) : Prop where
  restored : w.restored = (w.residency.map (·.bundleId)).toFinset
  unique : (w.residency.map (·.bundleId)).Nodup
  owned : ∀ i ∈ w.residency, ∃ r ∈ input.runnableFrontier, ∃ b ∈ input.bundles,
    r.contextId ∈ b.ownerContextIds ∧ i.bundleId = b.bundleId
  bound : ∀ d ∈ w.dependencies, d.residencyIntentIndex < w.residency.length

theorem visit_collected {w : ReactiveWalk} {r : RunnableInvocation} (hr : r ∈ input.runnableFrontier)
    (h : Collected input w) : Collected input (w.visit input r) := by
  rcases visit_cases input w r with ⟨-,heq⟩ | ⟨bundles,hbundles,heq⟩
  · rw [heq]
    have hids : ((restoresOf input w r).map prefetchIntent).map (·.bundleId) =
        (restoresOf input w r).map (·.bundleId) := by
      rw [List.map_map]
      rfl
    refine ⟨?_,?_,?_,?_⟩
    · simp only [ReactiveWalk.grant,List.map_append,hids,List.toFinset_append,h.restored]
    · simp only [ReactiveWalk.grant,List.map_append,hids]
      refine List.nodup_append.mpr ⟨h.unique,nodup_restoresOf input w r,?_⟩
      intro id hid other hother heq
      subst heq
      obtain ⟨b,hb,rfl⟩ := List.mem_map.mp hother
      have hnew : b.bundleId ∉ w.restored := by simpa using (List.mem_filter.mp hb).2
      rw [h.restored,List.mem_toFinset] at hnew
      exact hnew hid
    · intro i hi
      rcases List.mem_append.mp hi with hi | hi
      · exact h.owned i hi
      · obtain ⟨b,hb,rfl⟩ := List.mem_map.mp hi
        obtain ⟨hb,howned⟩ := List.mem_filter.mp (List.mem_filter.mp hb).1
        rw [Bool.and_eq_true] at howned
        exact ⟨r,hr,b,hb,by simpa using howned.1,rfl⟩
    · intro d hd
      simp only [ReactiveWalk.grant,List.length_append,List.length_map]
      rcases List.mem_append.mp hd with hd | hd
      · exact Nat.lt_add_right _ (h.bound d hd)
      · obtain ⟨i,hi,rfl⟩ := List.mem_map.mp hd
        exact Nat.add_lt_add_left (List.mem_range.mp hi) _
  · rw [heq]
    exact ⟨h.restored,h.unique,h.owned,h.bound⟩

theorem walk_collected (requests : List RunnableInvocation) (hrequests : requests ⊆ input.runnableFrontier) :
    ∀ w : ReactiveWalk, Collected input w → Collected input (requests.foldl (ReactiveWalk.visit input) w) := by
  induction requests with
  | nil => exact fun w h => h
  | cons r requests ih =>
    intro w h
    obtain ⟨hr,hrest⟩ := List.cons_subset.mp hrequests
    exact ih hrest _ (visit_collected hr h)

theorem reclaimVictims_sublist {shortage : ℕ} {existing : List String}
    (victims : List PhysicalBundleSnapshot) : ∀ hostFree reclaimed : ℕ,
      ((reclaimVictims shortage existing victims hostFree reclaimed).map (·.bundleId)).Sublist
        (victims.map (·.bundleId)) := by
  induction victims with
  | nil => exact fun _ _ => List.Sublist.refl _
  | cons b victims ih =>
    intro hostFree reclaimed
    rw [reclaimVictims]
    by_cases hstop : (decide (shortage ≤ reclaimed) || decide (b.bundleId ∈ existing)) = true
    · rw [if_pos hstop]
      exact List.nil_sublist _
    · rw [if_neg hstop]
      exact (ih _ _).cons_cons _

variable (config input) in
/-- The checks of the output never fail. -/
theorem reactiveDecide_eq_ok : reactiveDecide config input = .ok (reactiveOutput config input) := by
  have hstart : Collected input (walkStart config input) := ⟨rfl,List.nodup_nil,by simp [walkStart],
    by simp [walkStart]⟩
  have hwalk : Collected input (walkRequests config input) :=
    walk_collected (fifoFrontier input) (fun r hr => mem_fifoFrontier.mp hr) _ hstart
  obtain ⟨⟨more,hmore,hids⟩,-,-⟩ := walk_extends input (fifoFrontier input) (walkStart config input)
  refine bind_of_ok (a := ()) (bind_eq_ok.mpr ⟨(),ensure_eq_ok.mpr ?_,bind_eq_ok.mpr
    ⟨(),ensure_eq_ok.mpr ?_,ensure_eq_ok.mpr ?_⟩⟩)
  · change ((walkRequests config input).admissions.map (·.requestId)).Nodup
    rw [walkRequests,hmore,List.map_append,hids]
    exact nodup_fifoFrontier
  · change (((walkRequests config input).residency ++ _).map (·.bundleId)).Nodup
    have hvictims : ((lruVictims input).map (·.bundleId)).Nodup :=
      ((List.mergeSort_perm _ _).map _).nodup_iff.mpr
        (input.bundles_unique.sublist (List.filter_sublist.map _))
    rw [List.map_append]
    refine List.nodup_append.mpr ⟨hwalk.unique,hvictims.sublist (reclaimVictims_sublist _ _ _),?_⟩
    intro id hid other hother heq
    subst heq
    obtain ⟨i,hi,rfl⟩ := List.mem_map.mp hid
    obtain ⟨r,hr,b,hb,howned,hib⟩ := hwalk.owned i hi
    obtain ⟨victim,hvictim,hid⟩ := List.mem_map.mp ((reclaimVictims_sublist _ _ _).subset hother)
    obtain ⟨hmem,hidle⟩ := List.mem_filter.mp (List.mem_mergeSort.mp hvictim)
    have hsame : victim = b := List.inj_on_of_nodup_map input.bundles_unique hmem hb (hid.trans hib)
    subst hsame
    simp only [Bool.and_eq_true,Bool.not_eq_true',List.any_eq_false] at hidle
    exact hidle.2 _ (List.mem_map_of_mem hr) (by simpa using howned)
  · intro d hd
    exact (hwalk.bound d hd).trans_le (by simp [reactiveOutput])

theorem request?_of_mem {r : RunnableInvocation} (hr : r ∈ input.runnableFrontier) {id : String}
    (hid : id = r.requestId) : input.request? id = some r :=
  JointScheduler.request?_eq_some.mpr ⟨hr,hid.symm⟩

/-- The reactive policy restores first exactly if no restore serves two admitted requests. -/
theorem reactive_restores_iff : RestoresFirst input (reactiveOutput config input).admissions
    (reactiveOutput config input).residency (reactiveOutput config input).dependencies ↔
      Unshared config input := by
  constructor
  · intro h pre r post hsplit hgrants b hb
    refine (awaits_of_grant hsplit rfl hgrants hb).mp ?_
    have hr : r ∈ input.runnableFrontier := mem_fifoFrontier.mp (by rw [hsplit]; simp)
    obtain ⟨q,hq,hawaits⟩ := h.restored _ (granted_admission hsplit hgrants) grantIntent_runs
    obtain rfl : q = r := Option.some.inj (hq.symm.trans (request?_of_mem hr rfl))
    exact hawaits b hb
  · intro h
    refine ⟨?_,?_,?_⟩
    · intro a ha hruns
      obtain ⟨pre,r,post,hsplit,hgrants,hid⟩ := granted_of_runs (walkStart config input) rfl _ a ha hruns
      have hr : r ∈ input.runnableFrontier := mem_fifoFrontier.mp (by rw [hsplit]; simp)
      refine ⟨r,request?_of_mem hr hid,fun b hb => ?_⟩
      rw [hid]
      exact (awaits_of_grant hsplit rfl hgrants hb).mpr (h pre r post hsplit hgrants b hb)
    · intro intent hin haction a ha hruns r hr b hb
      exact reclaimed_idle hin haction (JointScheduler.request?_eq_some.mp hr).1 hb
    · have hreserved := walk_reserved input (fifoFrontier input) (walkStart config input)
      change (((walkRequests config input).admissions.filter fun a => a.Runs).map (·.reservedBytes)).sum ≤ _
      have hstart : ((walkStart config input).admissions.filter fun a => a.Runs) = [] := rfl
      rw [hstart,List.map_nil,List.sum_nil,Nat.zero_add] at hreserved
      have havailable : (walkStart config input).available ≤ input.resources.hbmCapacityBytes -
          input.resources.hbmUsedBytes - input.resources.hbmReservedBytes := Nat.sub_le _ _
      unfold walkRequests
      omega

end Output
end BeliefKV
