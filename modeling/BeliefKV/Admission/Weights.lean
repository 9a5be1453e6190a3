import BeliefKV.Admission.Rotation
import BeliefKV.Admission.SoftShare

/-! What becomes of the weights that workflows are registered under. -/
namespace BeliefKV

namespace WorkflowFairScheduler
variable {fl : ℚ → ℚ} {s t : WorkflowFairScheduler} {u w : String}

def weight (s : WorkflowFairScheduler) (u : String) : ℚ := (s.account u).weight

theorem weight_enroll (s : WorkflowFairScheduler) (workflowId : String) (weight : ℚ) (u : String) :
    (s.enroll workflowId weight).weight u = if u = workflowId then weight else s.weight u := by
  unfold WorkflowFairScheduler.weight
  rw [account_enroll]
  split_ifs <;> rfl

theorem weight_enrollAll (s : WorkflowFairScheduler) (workflows : Finset String) (u : String) :
    (s.enrollAll workflows).weight u = if u ∈ workflows then 1 else s.weight u := by
  unfold weight
  rw [account_enrollAll]
  split_ifs <;> rfl

theorem weight_charge {serviceMs : ℚ} (h : s.chargeService fl w serviceMs = .ok t) (u : String) :
    t.weight u = if u = w then 1 else s.weight u := by
  unfold weight
  rw [account_charge h]
  split_ifs <;> rfl

theorem weight_orderedLoop (charges : String → ℚ) (hbmCapacityBytes : ℤ) (u : String) :
    ∀ (rounds : ℕ) {s : WorkflowFairScheduler} {remaining : Finset String}, remaining.card = rounds →
    (orderedLoop fl charges hbmCapacityBytes rounds s remaining).1.weight u =
      if u ∈ remaining then 1 else s.weight u := by
  intro rounds
  induction rounds with
  | zero =>
    intro s remaining hcard
    obtain rfl := Finset.card_eq_zero.mp hcard
    rw [if_neg (Finset.notMem_empty u)]
    rfl
  | succ rounds ih =>
    intro s remaining hcard
    have hselect : (s.select fl remaining charges hbmCapacityBytes).1.weight u =
        if u ∈ remaining then 1 else s.weight u := weight_enrollAll s remaining u
    rw [orderedLoop]
    cases hchosen : (s.select fl remaining charges hbmCapacityBytes).2 with
    | none => exact hselect
    | some selected =>
      have hmem := select_mem fl hchosen
      have hless : (remaining.erase selected).card = rounds := by
        rw [Finset.card_erase_of_mem hmem,hcard,Nat.add_sub_cancel]
      refine (ih hless).trans ?_
      rw [hselect]
      by_cases hu : u ∈ remaining
      · rw [if_pos hu,ite_self]
      · rw [if_neg hu,if_neg fun h => hu (Finset.mem_of_mem_erase h)]

theorem foldl_weights (f : String → ℚ) (workflows : List String) :
    ∀ sum : ℚ, workflows.foldl (fun sum u => sum + f u) sum = sum + (workflows.map f).sum := by
  induction workflows with
  | nil => simp
  | cons u workflows ih =>
    intro sum
    rw [List.foldl_cons,ih,List.map_cons,List.sum_cons,add_assoc]

/-- Without rounding the bytes are divided in proportion to the weights as they are registered anew. -/
theorem fairMemoryShares_spec (s : WorkflowFairScheduler) (active : Finset String) (allocatableBytes : ℤ)
    (u : String) :
    (s.fairMemoryShares id active allocatableBytes).2 u =
      allocatableBytes * (s.enrollAll active).weight u / ∑ v ∈ active, (s.enrollAll active).weight v := by
  have hsum : ((Dict.sorted active).map fun v => (s.enrollAll active).weight v).sum =
      ∑ v ∈ active, (s.enrollAll active).weight v := by
    rw [← List.sum_toFinset _ (Dict.nodup_sorted active)]
    refine Finset.sum_congr ?_ fun _ _ => rfl
    ext v
    rw [List.mem_toFinset,Dict.mem_sorted]
  have hfold := foldl_weights (fun v => (s.enrollAll active).weight v) (Dict.sorted active) 0
  rw [← hsum,← zero_add (List.sum _),← hfold]
  rfl

end WorkflowFairScheduler

namespace AdmissionController
variable {fl : ℚ → ℚ} {s t : AdmissionController} {call : DecideCall} {u : String}

/-! ## Calls -/

/-- A call of the controller, or of the fair scheduler, which other components share. -/
inductive FairCall
  | call (c : Call)
  | ordered (runnable : Finset String) (charges : String → ℚ) (hbmCapacityBytes : ℤ)
  | fairMemoryShares (active : Finset String) (allocatableBytes : ℤ)

section Calls
variable (fl : ℚ → ℚ) (s : AdmissionController)

def fairStep : FairCall → AdmissionController
  | .call c => s.step fl c
  | .ordered runnable charges capacity => s.withFairness (s.fairness.ordered fl charges capacity runnable).1
  | .fairMemoryShares active allocatableBytes =>
    s.withFairness (s.fairness.fairMemoryShares fl active allocatableBytes).1

def fairRun (calls : List FairCall) : AdmissionController := calls.foldl (fairStep fl) s

/-- A decision gets as far as the shares. -/
def decides (call : DecideCall) : Prop :=
  s.pending ≠ ∅ ∧ ¬ call.nativeReclaimCapacityBytes.any (· < 0) = true

instance : Decidable (s.decides call) := inferInstanceAs (Decidable (_ ∧ _))

/-- The workflows that a call registers under the default weight. -/
def registeredAnew : FairCall → Finset String
  | .call (.enqueue r) => if r.requestId ∉ s.pending ∧ r.requestId ∉ s.reserved then {r.workflowId} else ∅
  | .call (.decideNext call) => if s.decides call then s.workflows else ∅
  | .call (.chargeService workflowId serviceMs) => if 0 ≤ serviceMs then {workflowId} else ∅
  | .call (.select runnable _ _) => runnable
  | .call _ => ∅
  | .ordered runnable _ _ => runnable
  | .fairMemoryShares active _ => active

/-- The workflows and the bytes that a call computes shares of. -/
def sharesOf : FairCall → Option (Finset String × ℤ)
  | .call (.decideNext call) => if s.decides call then some (s.workflows,s.allocatable call) else none
  | .call _ => none
  | .ordered _ _ _ => none
  | .fairMemoryShares active allocatableBytes => some (active,allocatableBytes)

end Calls

/-- The weight that a call registers a workflow under. -/
def FairCall.registers : FairCall → String → Option ℚ
  | .call (.register workflowId weight), u => if u = workflowId ∧ 0 < weight then some weight else none
  | _, _ => none

/-- The weight that a workflow has been registered under last. -/
def registeredWeight (calls : List FairCall) (u : String) : ℚ :=
  ((calls.reverse.findSome? fun c => c.registers u)).getD 1

/-! ## One call -/

theorem registeredWeight_concat (calls : List FairCall) (c : FairCall) (u : String) :
    registeredWeight (calls ++ [c]) u = (c.registers u).getD (registeredWeight calls u) := by
  unfold registeredWeight
  rw [List.reverse_concat,List.findSome?_cons]
  cases c.registers u with
  | none => rfl
  | some weight => rfl

theorem fairRun_concat (s : AdmissionController) (calls : List FairCall) (c : FairCall) :
    s.fairRun fl (calls ++ [c]) = (s.fairRun fl calls).fairStep fl c := by
  unfold fairRun
  rw [List.foldl_concat]

theorem decidePreferred_fairness (s : AdmissionController) (call : DecideCall) (preferred : AdmissionRequest) :
    (s.decidePreferred call preferred).1.fairness = s.fairness := by
  unfold decidePreferred
  cases call.nativeReclaimCapacityBytes with
  | none =>
    dsimp only
    split_ifs <;> rfl
  | some native =>
    dsimp only
    split_ifs <;> rfl

theorem eligible_workflows : s.eligibleWorkflows fl call ⊆ s.workflows := by
  intro w hw
  obtain ⟨q,hq,rfl⟩ := (eligible_deserves hw).fits
  exact List.mem_toFinset.mpr (List.mem_map_of_mem (fitting_pending hq))

theorem decideAmong_fairness (s : AdmissionController) (call : DecideCall) (eligible : Finset String)
    (requests : List AdmissionRequest) (borrowed : Bool) :
    (s.decideAmong fl call eligible requests borrowed).1.fairness = s.fairness.enrollAll eligible := by
  unfold decideAmong
  dsimp only
  cases (s.fairness.select fl eligible (call.charges fl) call.hbmCapacityBytes).2 with
  | none => rfl
  | some w =>
    dsimp only
    unfold decideWithin
    cases Least.leastOf (causallyBefore (call.frontierOrder w)) (requests.filter (·.workflowId = w)) with
    | none => rfl
    | some r => rfl

/-- A decision registers the workflows of the pending requests anew. -/
theorem decideNext_weight (s : AdmissionController) (call : DecideCall) (u : String) :
    (s.decideNext fl call).1.fairness.weight u =
      if u ∈ (if s.decides call then s.workflows else ∅) then 1 else s.fairness.weight u := by
  have hregistered : (s.registered fl call).fairness.weight u = if u ∈ s.workflows then 1 else s.fairness.weight u :=
    s.fairness.weight_enrollAll s.workflows u
  unfold decideNext
  by_cases hempty : s.pending = ∅
  · rw [if_pos hempty,if_neg fun h : s.decides call => h.1 hempty,if_neg (Finset.notMem_empty u)]
  rw [if_neg hempty]
  by_cases hnative : call.nativeReclaimCapacityBytes.any (· < 0) = true
  · rw [if_pos hnative,if_neg fun h : s.decides call => h.2 hnative,if_neg (Finset.notMem_empty u)]
  rw [if_neg hnative,if_pos (show s.decides call from ⟨hempty,hnative⟩),← hregistered]
  cases s.preferredRequest call with
  | some preferred =>
    dsimp only
    rw [decidePreferred_fairness]
  | none =>
    dsimp only
    by_cases hfits : s.fitting call = []
    · rw [if_pos hfits]
    · rw [if_neg hfits]
      dsimp only
      rw [decideAmong_fairness,WorkflowFairScheduler.weight_enrollAll,hregistered]
      by_cases hu : u ∈ s.workflows
      · rw [if_pos hu,ite_self]
      · rw [if_neg hu,if_neg fun h => hu (eligible_workflows h)]

theorem afterward_weight {A : Type} {outcome : Except Raised A} {state : A → AdmissionController}
    (h : ∀ a, outcome = .ok a → (state a).fairness = s.fairness) (u : String) :
    (s.afterward outcome state).fairness.weight u = s.fairness.weight u := by
  cases houtcome : outcome with
  | error e => rfl
  | ok a => exact congrArg (WorkflowFairScheduler.weight · u) (h a houtcome)

/-- A call sets the weight that it registers a workflow under; for the workflows that it registers anew this is the
default weight. -/
theorem fairStep_weight (s : AdmissionController) (c : FairCall) (u : String) :
    (s.fairStep fl c).fairness.weight u =
      (c.registers u).getD (if u ∈ s.registeredAnew c then 1 else s.fairness.weight u) := by
  have hsame : s.fairness.weight u = if u ∈ (∅ : Finset String) then 1 else s.fairness.weight u :=
    (if_neg (Finset.notMem_empty u)).symm
  cases c with
  | ordered runnable charges capacity =>
    exact WorkflowFairScheduler.weight_orderedLoop charges capacity u runnable.card rfl
  | fairMemoryShares active allocatableBytes => exact s.fairness.weight_enrollAll active u
  | call c =>
    cases c with
    | enqueue request =>
      change (s.afterward (s.enqueue request) id).fairness.weight u = _
      by_cases hnew : request.requestId ∉ s.pending ∧ request.requestId ∉ s.reserved
      · have hanew : s.registeredAnew (.call (.enqueue request)) = {request.workflowId} := if_pos hnew
        unfold enqueue
        rw [ensure_eq_ok (u := ()).mpr hnew,hanew]
        simp only [Finset.mem_singleton]
        exact s.fairness.weight_enroll request.workflowId 1 u
      · have hanew : s.registeredAnew (.call (.enqueue request)) = ∅ := if_neg hnew
        rw [hanew]
        refine (afterward_weight (fun a ha => ?_) u).trans hsame
        obtain ⟨_,hcheck,-⟩ := bind_eq_ok.mp ha
        exact absurd (ensure_eq_ok.mp hcheck) hnew
    | cancel requestId =>
      refine Eq.trans ?_ hsame
      change (s.cancel requestId).fairness.weight u = _
      unfold cancel
      split_ifs <;> rfl
    | update requestId tokens =>
      refine (afterward_weight (fun a ha => ?_) u).trans hsame
      obtain ⟨_,-,hdone⟩ := bind_eq_ok.mp ha
      cases hget : s.pending[requestId]? with
      | none =>
        rw [hget] at hdone
        cases hdone
      | some request =>
        rw [hget] at hdone
        cases hdone
        rfl
    | decideNext call => exact decideNext_weight s call u
    | acknowledge requestId =>
      refine (afterward_weight (fun a ha => ?_) u).trans hsame
      unfold acknowledge at ha
      cases hget : s.reserved[requestId]? with
      | none =>
        rw [hget] at ha
        cases ha
      | some request =>
        rw [hget] at ha
        cases ha
        rfl
    | register workflowId weight =>
      change (s.afterward (s.fairness.register workflowId weight) s.withFairness).fairness.weight u =
        (if u = workflowId ∧ 0 < weight then some weight else none).getD
          (if u ∈ (∅ : Finset String) then 1 else s.fairness.weight u)
      rw [← hsame]
      unfold WorkflowFairScheduler.register
      by_cases hweight : 0 < weight
      · rw [ensure_eq_ok (u := ()).mpr hweight]
        refine (s.fairness.weight_enroll workflowId weight u).trans ?_
        by_cases hu : u = workflowId
        · rw [if_pos hu,if_pos ⟨hu,hweight⟩,Option.getD_some]
        · rw [if_neg hu,if_neg fun h => hu h.1,Option.getD_none]
      · rw [if_neg fun h => hweight h.2,Option.getD_none]
        refine afterward_weight (fun a ha => ?_) u
        obtain ⟨_,hcheck,-⟩ := bind_eq_ok.mp ha
        exact absurd (ensure_eq_ok.mp hcheck) hweight
    | chargeService workflowId serviceMs =>
      change (s.afterward (s.fairness.chargeService fl workflowId serviceMs) s.withFairness).fairness.weight u = _
      by_cases hservice : 0 ≤ serviceMs
      · have hanew : s.registeredAnew (.call (.chargeService workflowId serviceMs)) = {workflowId} := if_pos hservice
        obtain ⟨t,hcharge⟩ := s.fairness.charge_returns fl workflowId hservice
        rw [hcharge,hanew]
        simp only [Finset.mem_singleton]
        exact WorkflowFairScheduler.weight_charge hcharge u
      · have hanew : s.registeredAnew (.call (.chargeService workflowId serviceMs)) = ∅ := if_neg hservice
        rw [hanew]
        refine (afterward_weight (fun a ha => ?_) u).trans hsame
        obtain ⟨_,hcheck,-⟩ := bind_eq_ok.mp ha
        exact absurd (ensure_eq_ok.mp hcheck) hservice
    | select runnable charges capacity => exact s.fairness.weight_enrollAll runnable u

/-! ## Runs -/

/-- Throughout some calls every workflow has the weight that it was registered under last, and the shares that are
computed without rounding are in proportion to these weights. -/
structure WeightsKept (fl : ℚ → ℚ) (start : AdmissionController) (calls : List FairCall) : Prop where
  weights : ∀ before after, calls = before ++ after →
    ∀ u, (start.fairRun fl before).fairness.weight u = registeredWeight before u
  shares : ∀ before c after, calls = before ++ c :: after → ∀ active allocatableBytes,
    (start.fairRun fl before).sharesOf c = some (active,allocatableBytes) → ∀ u ∈ active,
      ((start.fairRun fl before).fairness.fairMemoryShares id active allocatableBytes).2 u =
        allocatableBytes * registeredWeight before u / ∑ v ∈ active, registeredWeight before v

/-- No workflow is registered anew while it has a weight other than the default weight. -/
def OnlyDefaultsAnew (fl : ℚ → ℚ) (start : AdmissionController) (calls : List FairCall) : Prop :=
  ∀ before c after, calls = before ++ c :: after → ∀ u ∈ (start.fairRun fl before).registeredAnew c,
    (start.fairRun fl before).fairness.weight u = 1

theorem registers_of_anew {c : FairCall} (h : u ∈ s.registeredAnew c) : c.registers u = none := by
  cases c with
  | ordered => rfl
  | fairMemoryShares => rfl
  | call c =>
    cases c with
    | register => exact absurd h (Finset.notMem_empty u)
    | _ => rfl

theorem sharesOf_anew {c : FairCall} {active : Finset String} {allocatableBytes : ℤ}
    (h : s.sharesOf c = some (active,allocatableBytes)) : active = s.registeredAnew c := by
  cases c with
  | ordered => cases h
  | fairMemoryShares =>
    cases h
    rfl
  | call c =>
    cases c with
    | decideNext call =>
      change (if s.decides call then _ else _) = _ at h
      change active = if s.decides call then _ else _
      split_ifs at h with hdecides
      cases h
      rw [if_pos hdecides]
    | _ => cases h

theorem OnlyDefaultsAnew.weights {start : AdmissionController} (hstart : start.fairness.accounts = ∅)
    {calls : List FairCall} (h : OnlyDefaultsAnew fl start calls) : ∀ before after, calls = before ++ after →
    ∀ u, (start.fairRun fl before).fairness.weight u = registeredWeight before u := by
  intro before
  induction before using List.reverseRecOn with
  | nil =>
    intro after _ u
    change (start.fairness.accounts[u]?.getD _).weight = 1
    rw [hstart]
    rfl
  | append_singleton before c ih =>
    intro after hcalls u
    rw [List.append_assoc] at hcalls
    have hbefore := ih (c :: after) hcalls u
    rw [fairRun_concat,fairStep_weight,registeredWeight_concat,← hbefore]
    by_cases hu : u ∈ (start.fairRun fl before).registeredAnew c
    · rw [if_pos hu,h before c after hcalls u hu]
    · rw [if_neg hu]

/-- The weights of workflows last exactly as long as no workflow with another weight than the default one is
registered anew, which every call but an explicit registration does to the workflows that it names. -/
theorem weights_kept_iff (fl : ℚ → ℚ) (memoryPenaltyMs : ℚ) (reserveHbmBytes : ℕ) (maxBorrowFraction : ℚ)
    (hfraction : 0 ≤ maxBorrowFraction ∧ maxBorrowFraction ≤ 1) (calls : List FairCall) :
    WeightsKept fl (fresh { memoryPenaltyMs := memoryPenaltyMs } reserveHbmBytes maxBorrowFraction hfraction) calls ↔
      OnlyDefaultsAnew fl
        (fresh { memoryPenaltyMs := memoryPenaltyMs } reserveHbmBytes maxBorrowFraction hfraction) calls := by
  constructor
  · intro hkept before c after hcalls u hu
    have hafter := hkept.weights (before ++ [c]) after (by rw [hcalls,List.append_assoc,List.singleton_append]) u
    rw [fairRun_concat,fairStep_weight,registeredWeight_concat,registers_of_anew hu,if_pos hu] at hafter
    exact (hkept.weights before (c :: after) hcalls u).trans hafter.symm
  · intro honly
    have hweights := honly.weights rfl
    refine ⟨hweights,fun before c after hcalls active allocatableBytes hshares u hu => ?_⟩
    have hanew (v : String) (hv : v ∈ active) :
        ((fresh { memoryPenaltyMs := memoryPenaltyMs } reserveHbmBytes maxBorrowFraction hfraction).fairRun fl
          before).fairness.weight v = 1 := by
      rw [sharesOf_anew hshares] at hv
      exact honly before c after hcalls v hv
    have hregistered (v : String) (hv : v ∈ active) : registeredWeight before v = 1 :=
      (hweights before (c :: after) hcalls v).symm.trans (hanew v hv)
    rw [WorkflowFairScheduler.fairMemoryShares_spec,hregistered u hu,WorkflowFairScheduler.weight_enrollAll,if_pos hu]
    congr 1
    refine Finset.sum_congr rfl fun v hv => ?_
    rw [hregistered v hv,WorkflowFairScheduler.weight_enrollAll,if_pos hv]

/-- A workflow under the default weight may be charged. -/
theorem chargedDefault_kept : (0 ≤ (0 : ℚ) ∧ (0 : ℚ) ≤ 1) ∧
    WeightsKept id (fresh { memoryPenaltyMs := 5 } 0 0 ⟨le_refl 0,zero_le_one⟩) [.call (.chargeService "a" 1)] := by
  refine ⟨⟨le_refl 0,zero_le_one⟩,(weights_kept_iff id 5 0 0 ⟨le_refl 0,zero_le_one⟩ _).mpr ?_⟩
  intro before c after hcalls u _
  obtain ⟨rfl,-⟩ | ⟨_,-,hnil⟩ := List.cons_eq_append_iff.mp hcalls
  · rfl
  · exact absurd hnil.symm (List.append_ne_nil_of_right_ne_nil _ (List.cons_ne_nil c after))

/-- A charge of no service takes the weight of a workflow away. -/
theorem chargedWorkflow_loses : ¬ WeightsKept id (fresh {} 0 0 ⟨le_refl 0,zero_le_one⟩)
    [.call (.register "a" 2),.call (.chargeService "a" 0)] := by
  intro h
  have hweight := h.weights [.call (.register "a" 2),.call (.chargeService "a" 0)] [] rfl "a"
  exact absurd hweight (by decide +kernel)

end AdmissionController
end BeliefKV
