import BeliefKV.Admission.Controller

/-! Whose request is admitted, and what the admission leaves of the memory. -/
namespace BeliefKV

namespace Dict
variable {K V : Type} [Ord K] [Std.TransOrd K] [Std.LawfulEqOrd K] [DecidableEq K]

/-- A sum over the values is a sum over the keys. -/
theorem sum_vals (d : Dict K V) (f : V → ℕ) : (d.vals.map f).sum = ∑ k ∈ d.keySet, (d[k]?).elim 0 f := by
  rw [sum_keySet]
  unfold vals
  rw [List.map_map]
  refine congrArg List.sum (List.map_congr_left fun e he => ?_)
  rw [Std.ExtTreeMap.mem_toList_iff_getElem?_eq_some.mp (show (e.1,e.2) ∈ d.toList from he)]
  rfl

theorem sum_vals_insert (d : Dict K V) (f : V → ℕ) {k : K} (v : V) (hk : k ∉ d) :
    ((vals (d.insert k v)).map f).sum = (d.vals.map f).sum + f v := by
  have hkeys : keySet (d.insert k v) = insert k d.keySet := by
    ext a
    rw [mem_keySet,mem_insert_iff,Finset.mem_insert,mem_keySet]
  have hnew : k ∉ d.keySet := fun h => hk ((mem_keySet d k).mp h)
  rw [sum_vals,sum_vals,hkeys,Finset.sum_insert hnew,get_insert,if_pos rfl,Nat.add_comm]
  refine congrArg (· + f v) (Finset.sum_congr rfl fun a ha => ?_)
  rw [get_insert,if_neg fun h : k = a => hnew (h ▸ ha)]

end Dict

namespace AdmissionController
open Least

/-! ## Pending and reserved requests -/

/-- Requests are kept under their ids, and none is both pending and reserved. -/
structure Separate (s : AdmissionController) : Prop where
  keyed : ∀ (id : String) (r : AdmissionRequest), s.pending[id]? = some r → r.requestId = id
  disjoint : ∀ id ∈ s.pending, id ∉ s.reserved

/-- What a decision does to the queue: nothing, or one pending request is reserved. -/
inductive Moved (s t : AdmissionController) : Prop
  | same (pending : t.pending = s.pending) (reserved : t.reserved = s.reserved)
  | reserved (r : AdmissionRequest) (mem : s.pending[r.requestId]? = some r)
      (pending : t.pending = s.pending.erase r.requestId) (reserved : t.reserved = s.reserved.insert r.requestId r)

section Queue
variable {fl : ℚ → ℚ} {s t : AdmissionController} {call : DecideCall}

namespace Separate

theorem fresh (fairness : WorkflowFairScheduler) (reserveHbmBytes : ℕ) (maxBorrowFraction : ℚ)
    (h : 0 ≤ maxBorrowFraction ∧ maxBorrowFraction ≤ 1) :
    (fresh fairness reserveHbmBytes maxBorrowFraction h).Separate := by
  refine ⟨fun id r hr => ?_,fun id hid => ?_⟩
  · simp [AdmissionController.fresh] at hr
  · simp [AdmissionController.fresh] at hid

/-- Every pending request is found under its own id. -/
theorem self (hs : s.Separate) {r : AdmissionRequest} (hr : r ∈ s.pending.vals) :
    s.pending[r.requestId]? = some r := by
  obtain ⟨id,hid⟩ := (Dict.mem_vals _ _).mp hr
  rw [hs.keyed id r hid]
  exact hid

theorem moved (hs : s.Separate) (h : Moved s t) : t.Separate := by
  cases h with
  | same hpending hreserved =>
    obtain ⟨hkeyed,hdisjoint⟩ := hs
    rw [← hpending] at hkeyed
    rw [← hpending,← hreserved] at hdisjoint
    exact ⟨hkeyed,hdisjoint⟩
  | reserved r hmem hpending hreserved =>
    refine ⟨fun id q hq => ?_,fun id hid => ?_⟩
    · rw [hpending,Dict.get_erase] at hq
      split_ifs at hq
      exact hs.keyed id q hq
    · rw [hpending,Dict.mem_erase_iff] at hid
      rw [hreserved,Dict.mem_insert_iff]
      exact not_or.mpr ⟨hid.1,hs.disjoint id hid.2⟩

theorem enqueue {request : AdmissionRequest} (hs : s.Separate) (h : s.enqueue request = .ok t) : t.Separate := by
  obtain ⟨_,hfree,hdone⟩ := bind_eq_ok.mp h
  obtain ⟨-,hreserved⟩ := ensure_eq_ok.mp hfree
  cases hdone
  refine ⟨fun id q hq => ?_,fun id hid => ?_⟩
  · rw [Dict.get_insert] at hq
    split_ifs at hq with hid
    · cases hq
      exact hid
    · exact hs.keyed id q hq
  · obtain rfl | hid := (Dict.mem_insert_iff _ _ _ _).mp hid
    · exact hreserved
    · exact hs.disjoint id hid

theorem cancel (hs : s.Separate) (requestId : String) : (s.cancel requestId).Separate := by
  unfold AdmissionController.cancel
  split_ifs
  · refine ⟨fun id q hq => ?_,fun id hid hres => ?_⟩
    · rw [Dict.get_erase] at hq
      split_ifs at hq
      exact hs.keyed id q hq
    · exact hs.disjoint id ((Dict.mem_erase_iff _ _ _).mp hid).2 ((Dict.mem_erase_iff _ _ _).mp hres).2
  · exact hs

theorem update {requestId : String} {tokens : ℤ} {u : AdmissionController × AdmissionRequest} (hs : s.Separate)
    (h : s.updatePendingEstimate requestId tokens = .ok u) : u.1.Separate := by
  obtain ⟨_,-,hdone⟩ := bind_eq_ok.mp h
  cases hget : s.pending[requestId]? with
  | none =>
    rw [hget] at hdone
    cases hdone
  | some request =>
    rw [hget] at hdone
    cases hdone
    refine ⟨fun id q hq => ?_,fun id hid => ?_⟩
    · rw [Dict.get_insert] at hq
      split_ifs at hq with hid
      · cases hq
        exact (hs.keyed requestId request hget).trans hid
      · exact hs.keyed id q hq
    · obtain rfl | hid := (Dict.mem_insert_iff _ _ _ _).mp hid
      · exact hs.disjoint id ((Dict.mem_iff_get _ _).mpr ⟨request,hget⟩)
      · exact hs.disjoint id hid

theorem acknowledge {requestId : String} {u : AdmissionController × ℕ} (hs : s.Separate)
    (h : s.acknowledge requestId = .ok u) : u.1.Separate := by
  unfold AdmissionController.acknowledge at h
  cases hget : s.reserved[requestId]? with
  | none =>
    rw [hget] at h
    cases h
  | some request =>
    rw [hget] at h
    cases h
    exact ⟨hs.keyed,fun id hid hres => hs.disjoint id hid ((Dict.mem_erase_iff _ _ _).mp hres).2⟩

end Separate

theorem reserve_moved {r : AdmissionRequest} (hr : s.pending[r.requestId]? = some r) : Moved s (s.reserve r) :=
  .reserved r hr rfl rfl

variable (s call) in
theorem decidePreferred_moved {preferred : AdmissionRequest} (h : s.pending[preferred.requestId]? = some preferred) :
    Moved s (s.decidePreferred call preferred).1 := by
  unfold decidePreferred
  cases call.nativeReclaimCapacityBytes with
  | none =>
    dsimp only
    split_ifs <;> first | exact .same rfl rfl | exact reserve_moved h
  | some native =>
    dsimp only
    split_ifs <;> first | exact .same rfl rfl | exact reserve_moved h

theorem mem_fittingRequests {available : ℤ} {r : AdmissionRequest} :
    r ∈ s.fittingRequests available ↔ r ∈ s.pending.vals ∧ (r.estimatedIncrementalBytes : ℤ) ≤ available := by
  unfold fittingRequests
  rw [List.mem_filter,decide_eq_true_eq]

theorem fitting_pending {r : AdmissionRequest} (h : r ∈ s.fitting call) : r ∈ s.pending.vals := by
  unfold fitting at h
  split_ifs at h
  · exact (mem_fittingRequests.mp h).1
  · exact (mem_fittingRequests.mp h).1

/-! ## The choice -/

theorem causallyBefore_iff (order : Dict String ℕ) (a b : AdmissionRequest) :
    causallyBefore order a b = true ↔ causalKey order a < causalKey order b :=
  decide_eq_true_iff

theorem submittedBefore_iff (a b : AdmissionRequest) :
    submittedBefore a b = true ↔ submissionKey a < submissionKey b :=
  decide_eq_true_iff

variable (s call) in
/-- Of a workflow that has requests, the first in the causal order is reserved. -/
theorem decideWithin_spec (borrowed : Bool) {requests : List AdmissionRequest} {w : String}
    (hw : ∃ q ∈ requests, q.workflowId = w) : ∃ r ∈ requests, r.workflowId = w ∧
      (∀ q ∈ requests, q.workflowId = w → causalKey (call.frontierOrder w) r ≤ causalKey (call.frontierOrder w) q) ∧
      ∃ reason, s.decideWithin call requests borrowed w = (s.reserve r,.ok (granted r reason 0)) := by
  unfold decideWithin
  cases hfirst : leastOf (causallyBefore (call.frontierOrder w)) (requests.filter (·.workflowId = w)) with
  | none =>
    obtain ⟨q,hq,hqw⟩ := hw
    have hnil := (leastOf_eq_none (causallyBefore_iff _) _).mp hfirst
    have hmem : q ∈ requests.filter (·.workflowId = w) := List.mem_filter.mpr ⟨hq,decide_eq_true hqw⟩
    rw [hnil] at hmem
    cases hmem
  | some r =>
    obtain ⟨hr,hleast⟩ := leastOf_spec (causallyBefore_iff _) hfirst
    obtain ⟨hr,hrw⟩ := List.mem_filter.mp hr
    exact ⟨r,hr,of_decide_eq_true hrw,fun q hq hqw => hleast q (List.mem_filter.mpr ⟨hq,decide_eq_true hqw⟩),_,rfl⟩

theorem mem_workflowsOf {requests : List AdmissionRequest} {w : String} :
    w ∈ workflowsOf requests ↔ ∃ q ∈ requests, q.workflowId = w := by
  unfold workflowsOf
  rw [List.mem_toFinset,List.mem_map]

theorem mem_workflowsOf_filter {requests : List AdmissionRequest} {p : AdmissionRequest → Bool} {w : String} :
    w ∈ workflowsOf (requests.filter p) ↔ ∃ q ∈ requests, q.workflowId = w ∧ p q = true := by
  rw [mem_workflowsOf]
  constructor
  · rintro ⟨q,hq,hw⟩
    obtain ⟨hq,hp⟩ := List.mem_filter.mp hq
    exact ⟨q,hq,hw,hp⟩
  · rintro ⟨q,hq,hw,hp⟩
    exact ⟨q,List.mem_filter.mpr ⟨hq,hp⟩,hw⟩

/-- A workflow may be chosen for the sake of one of its fitting requests. -/
structure Deserves (fl : ℚ → ℚ) (s : AdmissionController) (call : DecideCall) (w : String) : Prop where
  fits : ∃ q ∈ s.fitting call, q.workflowId = w
  share : (∃ q ∈ s.fitting call, s.withinShare fl call q = true) →
    ∃ q ∈ s.fitting call, q.workflowId = w ∧ s.withinShare fl call q = true
  borrow : (∀ q ∈ s.fitting call, ¬ s.withinShare fl call q = true) →
    (∃ q ∈ s.fitting call, s.withinBorrow fl call q = true) →
      ∃ q ∈ s.fitting call, q.workflowId = w ∧ s.withinBorrow fl call q = true

theorem eligible_deserves {w : String} (h : w ∈ s.eligibleWorkflows fl call) : Deserves fl s call w := by
  unfold eligibleWorkflows at h
  by_cases hshare : (s.fitting call).any (s.withinShare fl call) = true
  · rw [if_pos hshare] at h
    obtain ⟨q,hq,hw,hp⟩ := mem_workflowsOf_filter.mp h
    refine ⟨⟨q,hq,hw⟩,fun _ => ⟨q,hq,hw,hp⟩,fun hnone _ => ?_⟩
    exact absurd hp (hnone q hq)
  rw [if_neg hshare] at h
  have hnone : ¬ ∃ q ∈ s.fitting call, s.withinShare fl call q = true := fun h => hshare (List.any_eq_true.mpr h)
  by_cases hborrow : (s.fitting call).any (s.withinBorrow fl call) = true
  · rw [if_pos hborrow] at h
    obtain ⟨q,hq,hw,hp⟩ := mem_workflowsOf_filter.mp h
    exact ⟨⟨q,hq,hw⟩,fun h => absurd h hnone,fun _ _ => ⟨q,hq,hw,hp⟩⟩
  · rw [if_neg hborrow] at h
    exact ⟨mem_workflowsOf.mp h,fun h => absurd h hnone,fun _ h => absurd (List.any_eq_true.mpr h) hborrow⟩

theorem eligible_nonempty (h : s.fitting call ≠ []) : s.eligibleWorkflows fl call ≠ ∅ := by
  have hfilter : ∀ p : AdmissionRequest → Bool, (s.fitting call).any p = true →
      workflowsOf ((s.fitting call).filter p) ≠ ∅ := by
    intro p hp hempty
    obtain ⟨q,hq,hpq⟩ := List.any_eq_true.mp hp
    have hmem := mem_workflowsOf_filter.mpr ⟨q,hq,rfl,hpq⟩
    rw [hempty] at hmem
    exact absurd hmem (Finset.notMem_empty _)
  unfold eligibleWorkflows
  by_cases hshare : (s.fitting call).any (s.withinShare fl call) = true
  · rw [if_pos hshare]
    exact hfilter _ hshare
  rw [if_neg hshare]
  by_cases hborrow : (s.fitting call).any (s.withinBorrow fl call) = true
  · rw [if_pos hborrow]
    exact hfilter _ hborrow
  · rw [if_neg hborrow]
    intro hempty
    obtain ⟨q,hq⟩ := List.exists_mem_of_ne_nil _ h
    have hmem := mem_workflowsOf.mpr ⟨q,hq,rfl⟩
    rw [hempty] at hmem
    exact absurd hmem (Finset.notMem_empty _)

/-! ## The decision -/

/-- What is to be said of an admitted request. -/
structure Admitted (fl : ℚ → ℚ) (s : AdmissionController) (call : DecideCall) (t : AdmissionController)
    (r : AdmissionRequest) : Prop where
  fits : r ∈ s.fitting call
  pending : t.pending = s.pending.erase r.requestId
  reserved : t.reserved = s.reserved.insert r.requestId r
  deserved : Deserves fl s call r.workflowId
  first : ∀ q ∈ s.fitting call, q.workflowId = r.workflowId →
    causalKey (call.frontierOrder r.workflowId) r ≤ causalKey (call.frontierOrder r.workflowId) q

variable (fl) in
theorem decideAmong_spec (h : s.fitting call ≠ []) : ∃ t r reason,
    (s.registered fl call).decideAmong fl call (s.eligibleWorkflows fl call) (s.fitting call)
      (s.borrowedReserve call) = (t,.ok (granted r reason 0)) ∧ Admitted fl s call t r := by
  unfold decideAmong
  cases hchosen : ((s.registered fl call).fairness.select fl (s.eligibleWorkflows fl call) (call.charges fl)
      call.hbmCapacityBytes).2 with
  | none => exact absurd (WorkflowFairScheduler.select_eq_none fl hchosen) (eligible_nonempty h)
  | some w =>
    have hdeserves := eligible_deserves (WorkflowFairScheduler.select_mem fl hchosen)
    obtain ⟨r,hr,rfl,hfirst,reason,hdecided⟩ := decideWithin_spec
      ((s.registered fl call).withFairness ((s.registered fl call).fairness.select fl
        (s.eligibleWorkflows fl call) (call.charges fl) call.hbmCapacityBytes).1) call (s.borrowedReserve call)
      hdeserves.fits
    dsimp only
    rw [hchosen]
    exact ⟨_,r,reason,hdecided,hr,rfl,rfl,hdeserves,hfirst⟩

theorem decideOldest_spec (h : s.pending ≠ ∅) : ∃ r, s.decideOldest = .ok (denied r "insufficient_actual_hbm" 0) := by
  unfold decideOldest
  cases holdest : leastOf submittedBefore s.pending.vals with
  | none =>
    have hnil := (leastOf_eq_none submittedBefore_iff _).mp holdest
    refine absurd (Dict.ext_get fun id => ?_) h
    cases hid : s.pending[id]? with
    | none => simp
    | some r =>
      have hmem := (Dict.mem_vals s.pending r).mpr ⟨id,hid⟩
      rw [hnil] at hmem
      cases hmem
  | some r => exact ⟨r,rfl⟩

theorem mem_of_preferred (hs : s.Separate) {preferred : AdmissionRequest}
    (h : s.preferredRequest call = some preferred) : s.pending[preferred.requestId]? = some preferred := by
  unfold preferredRequest at h
  obtain ⟨id,-,hid⟩ := Option.bind_eq_some_iff.mp h
  rw [hs.keyed id preferred hid]
  exact hid

/-- A decision reserves one pending request, or none. -/
theorem decideNext_moved (hs : s.Separate) : Moved s (s.decideNext fl call).1 := by
  unfold decideNext
  by_cases hempty : s.pending = ∅
  · rw [if_pos hempty]
    exact .same rfl rfl
  rw [if_neg hempty]
  by_cases hnative : call.nativeReclaimCapacityBytes.any (· < 0) = true
  · rw [if_pos hnative]
    exact .same rfl rfl
  rw [if_neg hnative]
  cases hpreferred : s.preferredRequest call with
  | some preferred =>
    cases decidePreferred_moved (s.registered fl call) call (mem_of_preferred hs hpreferred) with
    | same hpending hreserved => exact .same hpending hreserved
    | reserved r hmem hpending hreserved => exact .reserved r hmem hpending hreserved
  | none =>
    dsimp only
    by_cases hfits : s.fitting call = []
    · rw [if_pos hfits]
      exact .same rfl rfl
    · obtain ⟨t,r,reason,hdecided,hadmitted⟩ := decideAmong_spec fl hfits
      rw [if_neg hfits,hdecided]
      exact .reserved r (hs.self (fitting_pending hadmitted.fits)) hadmitted.pending hadmitted.reserved

/-- Without a preferred request, a request is admitted whenever one fits. -/
theorem decideNext_fair (h : s.preferredRequest call = none) {d : AdmissionDecision}
    (hd : s.decideNext fl call = (t,.ok (some d))) : (d.admitted = true ↔ s.fitting call ≠ []) ∧
      (d.admitted = true → ∃ r, d.requestId = r.requestId ∧ Admitted fl s call t r) := by
  unfold decideNext at hd
  by_cases hempty : s.pending = ∅
  · rw [if_pos hempty] at hd
    cases hd
  rw [if_neg hempty] at hd
  by_cases hnative : call.nativeReclaimCapacityBytes.any (· < 0) = true
  · rw [if_pos hnative] at hd
    cases hd
  rw [if_neg hnative,h] at hd
  dsimp only at hd
  by_cases hfits : s.fitting call = []
  · obtain ⟨r,hr⟩ := decideOldest_spec hempty
    rw [if_pos hfits,hr] at hd
    cases hd
    refine ⟨⟨fun h => ?_,fun h => absurd hfits h⟩,fun h => ?_⟩
    · cases h
    · cases h
  · obtain ⟨u,r,reason,hdecided,hadmitted⟩ := decideAmong_spec fl hfits
    rw [if_neg hfits,hdecided] at hd
    cases hd
    exact ⟨⟨fun _ => hfits,fun _ => rfl⟩,fun _ => ⟨r,rfl,hadmitted⟩⟩

/-! ## Memory -/

/-- What a fitting request of some size leaves free. -/
theorem fitting_room {r : AdmissionRequest} (hr : r ∈ s.fitting call) (hsize : 0 < r.estimatedIncrementalBytes) :
    call.physicalUsed + s.reservedBytes + r.estimatedIncrementalBytes ≤
      if s.borrowedReserve call then call.hbmCapacityBytes else call.hbmCapacityBytes - s.reserveHbmBytes := by
  have hused : 0 ≤ call.physicalUsed := (Int.natCast_nonneg _).trans (le_max_left _ _)
  unfold fitting at hr
  by_cases hborrow : s.borrowedReserve call = true
  · rw [if_pos hborrow] at hr ⊢
    have hle := (mem_fittingRequests.mp hr).2
    unfold hardFree at hle
    omega
  · rw [if_neg hborrow] at hr ⊢
    have hle := (mem_fittingRequests.mp hr).2
    unfold free allocatable at hle
    omega

theorem Admitted.room {r : AdmissionRequest} (h : Admitted fl s call t r) (hs : s.Separate)
    (hsize : 0 < r.estimatedIncrementalBytes) : call.physicalUsed + t.reservedBytes ≤
      if s.borrowedReserve call then call.hbmCapacityBytes else call.hbmCapacityBytes - s.reserveHbmBytes := by
  have hfree : r.requestId ∉ s.reserved :=
    hs.disjoint _ ((Dict.mem_iff_get _ _).mpr ⟨r,hs.self (fitting_pending h.fits)⟩)
  have hsum : t.reservedBytes = s.reservedBytes + r.estimatedIncrementalBytes := by
    unfold reservedBytes
    rw [h.reserved]
    exact Dict.sum_vals_insert s.reserved (·.estimatedIncrementalBytes) r hfree
  have hroom := fitting_room h.fits hsize
  rw [hsum]
  push_cast
  omega

/-! ## Runs -/

theorem Separate.afterward {A : Type} {outcome : Except Raised A} {state : A → AdmissionController} (hs : s.Separate)
    (h : ∀ a, outcome = .ok a → (state a).Separate) : (s.afterward outcome state).Separate := by
  cases outcome with
  | error e => exact hs
  | ok a => exact h a rfl

theorem step_separate (hs : s.Separate) (c : Call) : (step fl s c).Separate := by
  cases c with
  | enqueue request => exact hs.afterward fun t h => hs.enqueue h
  | cancel requestId => exact hs.cancel requestId
  | update requestId tokens => exact hs.afterward fun u h => hs.update h
  | decideNext call => exact hs.moved (decideNext_moved hs)
  | acknowledge requestId => exact hs.afterward fun u h => hs.acknowledge h
  | register workflowId weight => exact hs.afterward fun t _ => hs.moved (.same rfl rfl)
  | chargeService workflowId serviceMs => exact hs.afterward fun t _ => hs.moved (.same rfl rfl)
  | select runnable charges capacity => exact hs.moved (.same rfl rfl)

variable (fl) in
theorem run_separate (hs : s.Separate) (calls : List Call) : (run fl s calls).Separate := by
  induction calls generalizing s with
  | nil => exact hs
  | cons c calls ih => exact ih (step_separate hs c)

/-- A state in some run of a controller from its construction on. -/
def Reached (fl : ℚ → ℚ) (s : AdmissionController) : Prop :=
  ∃ fairness reserveHbmBytes maxBorrowFraction h calls,
    s = run fl (fresh fairness reserveHbmBytes maxBorrowFraction h) calls

/-- In no state is a request both pending and reserved. Without a preferred request one is admitted whenever one
fits. The admitted request belongs to a workflow that has a fitting request within its share if any workflow has
one, and otherwise to one that has a fitting request within the borrow limit if any has one; among the fitting
requests of its workflow it is the first in the causal order. If it needs memory at all, the memory suffices. -/
theorem workflow_shares_respected (hs : Reached fl s) (call : DecideCall) : s.Separate ∧
    (s.preferredRequest call = none → ∀ t d, s.decideNext fl call = (t,.ok (some d)) →
      (d.admitted = true ↔ s.fitting call ≠ []) ∧
      (d.admitted = true → ∃ r, d.requestId = r.requestId ∧ Admitted fl s call t r ∧
        (0 < r.estimatedIncrementalBytes → call.physicalUsed + t.reservedBytes ≤
          if s.borrowedReserve call then call.hbmCapacityBytes else call.hbmCapacityBytes - s.reserveHbmBytes))) := by
  obtain ⟨fairness,reserveHbmBytes,maxBorrowFraction,h,calls,rfl⟩ := hs
  have hseparate := run_separate fl (Separate.fresh fairness reserveHbmBytes maxBorrowFraction h) calls
  refine ⟨hseparate,fun hpreferred t d hd => ?_⟩
  obtain ⟨hiff,hadmitted⟩ := decideNext_fair hpreferred hd
  refine ⟨hiff,fun hd => ?_⟩
  obtain ⟨r,hr,hsound⟩ := hadmitted hd
  exact ⟨r,hr,hsound,hsound.room hseparate⟩

end Queue

/-! ## A workflow with a large and a small request -/

def waiting (requestId workflowId : String) (submittedTsMs : ℚ) (uncachedPromptTokens : ℕ)
    (named : requestId ≠ "" ∧ workflowId ≠ "") (time : 0 ≤ submittedTsMs) : AdmissionRequest where
  requestId := requestId
  workflowId := workflowId
  invocationId := requestId
  contextId := requestId
  contextEpoch := 0
  submittedTsMs := submittedTsMs
  uncachedPromptTokens := uncachedPromptTokens
  expectedOutputTokens := 0
  kvBytesPerToken := 1
  ids_nonempty := ⟨named.1,named.2,named.1,named.1⟩
  submitted_nonneg := time
  kv_pos := Nat.one_pos

def sharedStart : AdmissionController := fresh {} 0 (11 / 47) (by norm_num)

/-- Two workflows; the first has an early request beyond its share and a later one within it. -/
def sharedState : AdmissionController := run id sharedStart [
  .enqueue (waiting "large" "first" 471 700 (by decide) (by norm_num)),
  .enqueue (waiting "small" "first" 473 100 (by decide) (by norm_num)),
  .enqueue (waiting "other" "second" 477 100 (by decide) (by norm_num))]

def sharedCall : DecideCall := { hbmCapacityBytes := 1000 }

/-- A request that needs no memory. -/
def emptyState : AdmissionController :=
  run id sharedStart [.enqueue (waiting "empty" "first" 479 0 (by decide) (by norm_num))]

/-- More memory is in use than there is. -/
def crowdedCall : DecideCall := { hbmCapacityBytes := 100, gpuBytes := 200 }

theorem admitted_of_join {x : Except Raised (Option AdmissionDecision)} {id : String}
    (h : x.toOption.join.map (fun d => (d.requestId,d.admitted)) = some (id,true)) :
    ∃ d, x = .ok (some d) ∧ d.requestId = id ∧ d.admitted = true := by
  cases x with
  | error e => cases h
  | ok o =>
    cases o with
    | none => cases h
    | some d =>
      have heq := Option.some.inj h
      exact ⟨d,rfl,congrArg Prod.fst heq,congrArg Prod.snd heq⟩

theorem sharedState_large : (sharedState.decideNext id sharedCall).2.toOption.join.map
    (fun d => (d.requestId,d.admitted)) = some ("large",true) := by
  decide +kernel

/-- The large request is admitted although the small one would stay within the share. A request that needs no
memory is admitted although there is none. -/
theorem large_request_admitted :
    (sharedState.preferredRequest sharedCall = none ∧
      (sharedState.decideNext id sharedCall).2.toOption.join.map (fun d => (d.requestId,d.admitted)) =
        some ("large",true) ∧
      (∃ q ∈ sharedState.fitting sharedCall, sharedState.withinShare id sharedCall q = true) ∧
      sharedState.pending["large"]?.map (sharedState.withinShare id sharedCall) = some false) ∧
    (emptyState.preferredRequest crowdedCall = none ∧
      (emptyState.decideNext id crowdedCall).2.toOption.join.map (fun d => (d.requestId,d.admitted)) =
        some ("empty",true) ∧
      crowdedCall.hbmCapacityBytes <
        crowdedCall.physicalUsed + (emptyState.decideNext id crowdedCall).1.reservedBytes) :=
  ⟨⟨rfl,sharedState_large,by decide +kernel,by decide +kernel⟩,⟨rfl,by decide +kernel,by decide +kernel⟩⟩

/-- The workflow of the large request has one within its share. -/
theorem large_request_deserved : ∃ r : AdmissionRequest, r.requestId = "large" ∧
    ∃ q ∈ sharedState.fitting sharedCall, q.workflowId = r.workflowId ∧
      sharedState.withinShare id sharedCall q = true := by
  obtain ⟨d,hd,hid,hadmitted⟩ := admitted_of_join sharedState_large
  have hreached : Reached id sharedState := ⟨_,_,_,_,_,rfl⟩
  obtain ⟨-,hfair⟩ := workflow_shares_respected hreached sharedCall
  obtain ⟨-,hsound⟩ := hfair rfl (sharedState.decideNext id sharedCall).1 d (Prod.ext rfl hd)
  obtain ⟨r,hr,hr',-⟩ := hsound hadmitted
  exact ⟨r,hr.symm.trans hid,hr'.deserved.share (by decide +kernel)⟩

end AdmissionController
end BeliefKV
