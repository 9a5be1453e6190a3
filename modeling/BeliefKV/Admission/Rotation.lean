import BeliefKV.Admission.Fairness
import Mathlib.Tactic

/-! How far workflows that take turns drift apart, and the order in which they would be selected. -/
namespace BeliefKV.WorkflowFairScheduler
open Least
variable {fl : ℚ → ℚ} {s t : WorkflowFairScheduler} {runnable : Finset String} {u w : String}

/-! ## Accounts -/

theorem account_enroll (s : WorkflowFairScheduler) (workflowId : String) (weight : ℚ) (u : String) :
    (s.enroll workflowId weight).account u =
      if u = workflowId then { s.account u with weight := weight } else s.account u := by
  unfold enroll
  by_cases hu : u = workflowId
  · subst hu
    rw [if_pos rfl]
    cases h : s.accounts[u]? with
    | none =>
      unfold account
      simp only [Dict.get_insert,h,if_true,Option.getD_some,Option.getD_none]
    | some a =>
      simp only
      split_ifs with hweight
      · unfold account
        rw [h,Option.getD_some,← hweight]
      · unfold account
        simp only [Dict.get_insert,h,if_true,Option.getD_some]
  · rw [if_neg hu]
    have hother (a : WorkflowAccount) : (s.accounts.insert workflowId a)[u]? = s.accounts[u]? := by
      rw [Dict.get_insert,if_neg (Ne.symm hu)]
    cases h : s.accounts[workflowId]? with
    | none =>
      unfold account
      simp only [hother]
    | some a =>
      simp only
      split_ifs
      · rfl
      · unfold account
        simp only [hother]

theorem enroll_penalty (s : WorkflowFairScheduler) (workflowId : String) (weight : ℚ) :
    (s.enroll workflowId weight).memoryPenaltyMs = s.memoryPenaltyMs := by
  unfold enroll
  cases s.accounts[workflowId]? with
  | none => rfl
  | some a =>
    simp only
    split_ifs <;> rfl

theorem foldl_enroll (workflows : List String) : ∀ s : WorkflowFairScheduler,
    (workflows.foldl (fun t workflowId => t.enroll workflowId 1) s).memoryPenaltyMs = s.memoryPenaltyMs ∧
      ∀ u, (workflows.foldl (fun t workflowId => t.enroll workflowId 1) s).account u =
        if u ∈ workflows then { s.account u with weight := 1 } else s.account u := by
  induction workflows with
  | nil => exact fun s => ⟨rfl,fun u => (if_neg List.not_mem_nil).symm⟩
  | cons w workflows ih =>
    intro s
    obtain ⟨hpenalty,haccount⟩ := ih (s.enroll w 1)
    refine ⟨hpenalty.trans (enroll_penalty s w 1),fun u => ?_⟩
    rw [List.foldl_cons,haccount,account_enroll]
    by_cases hu : u = w
    · simp [hu]
    · simp [hu]

theorem account_enrollAll (s : WorkflowFairScheduler) (workflows : Finset String) (u : String) :
    (s.enrollAll workflows).account u =
      if u ∈ workflows then { s.account u with weight := 1 } else s.account u := by
  have haccount := (foldl_enroll (Dict.sorted workflows) s).2 u
  simp only [Dict.mem_sorted] at haccount
  exact haccount

theorem enrollAll_penalty (s : WorkflowFairScheduler) (workflows : Finset String) :
    (s.enrollAll workflows).memoryPenaltyMs = s.memoryPenaltyMs := (foldl_enroll (Dict.sorted workflows) s).1

theorem account_charge {serviceMs : ℚ} (h : s.chargeService fl w serviceMs = .ok t) (u : String) :
    t.account u = if u = w then
      { s.account u with
        weight := 1
        attainedServiceMs := if serviceMs = 0 then (s.account u).attainedServiceMs
          else fl ((s.account u).attainedServiceMs + serviceMs)
        dispatchCount := if serviceMs = 0 then (s.account u).dispatchCount else (s.account u).dispatchCount + 1 }
      else s.account u := by
  obtain ⟨_,-,hdone⟩ := bind_eq_ok.mp h
  have henroll := account_enroll s w 1
  by_cases hzero : serviceMs = 0
  · rw [if_pos hzero] at hdone
    cases hdone
    rw [henroll]
    simp only [if_pos hzero]
  · rw [if_neg hzero] at hdone
    cases hdone
    by_cases hu : u = w
    · subst hu
      rw [if_pos rfl]
      change ((s.enroll u 1).accounts.insert u _)[u]?.getD _ = _
      rw [Dict.get_insert,if_pos rfl,Option.getD_some,henroll,if_pos rfl]
      simp only [if_neg hzero]
    · rw [if_neg hu]
      change ((s.enroll w 1).accounts.insert w _)[u]?.getD _ = _
      rw [Dict.get_insert,if_neg (Ne.symm hu)]
      exact (henroll u).trans (if_neg hu)

theorem charge_returns (s : WorkflowFairScheduler) (fl : ℚ → ℚ) (w : String) {serviceMs : ℚ} (h : 0 ≤ serviceMs) :
    ∃ t, s.chargeService fl w serviceMs = .ok t := by
  unfold chargeService
  rw [ensure_eq_ok (u := ()).mpr h]
  by_cases hzero : serviceMs = 0
  · exact ⟨_,if_pos hzero⟩
  · exact ⟨_,if_neg hzero⟩

/-! ## Selection -/

theorem selectionKey_injective {charges : String → ℚ} {hbmCapacityBytes : ℤ}
    (h : s.selectionKey fl charges hbmCapacityBytes u = s.selectionKey fl charges hbmCapacityBytes w) : u = w := by
  unfold selectionKey at h
  simp only [EmbeddingLike.apply_eq_iff_eq,Prod.mk.injEq] at h
  exact h.2.2.2

theorem select_eq_some_iff {charges : String → ℚ} {hbmCapacityBytes : ℤ} :
    (s.select fl runnable charges hbmCapacityBytes).2 = some w ↔ w ∈ runnable ∧ ∀ v ∈ runnable,
      (s.enrollAll runnable).selectionKey fl charges hbmCapacityBytes w ≤
        (s.enrollAll runnable).selectionKey fl charges hbmCapacityBytes v := by
  have hless := (s.enrollAll runnable).comesBefore_iff fl charges hbmCapacityBytes
  have hspec {c : String} (h : (s.select fl runnable charges hbmCapacityBytes).2 = some c) : c ∈ runnable ∧
      ∀ v ∈ runnable, (s.enrollAll runnable).selectionKey fl charges hbmCapacityBytes c ≤
        (s.enrollAll runnable).selectionKey fl charges hbmCapacityBytes v := by
    obtain ⟨hmem,hleast⟩ := leastOf_spec hless h
    exact ⟨(Dict.mem_sorted _ _).mp hmem,fun v hv => hleast v ((Dict.mem_sorted _ _).mpr hv)⟩
  refine ⟨hspec,fun ⟨hmem,hleast⟩ => ?_⟩
  cases hfound : (s.select fl runnable charges hbmCapacityBytes).2 with
  | none =>
    rw [select_eq_none fl hfound] at hmem
    exact absurd hmem (Finset.notMem_empty w)
  | some c =>
    obtain ⟨hc,hleast'⟩ := hspec hfound
    rw [selectionKey_injective (le_antisymm (hleast' w hmem) (hleast c hc))]

/-- Two schedulers under which every workflow has got the same. -/
structure SameService (s t : WorkflowFairScheduler) : Prop where
  penalty : t.memoryPenaltyMs = s.memoryPenaltyMs
  service : ∀ u, (t.account u).attainedServiceMs = (s.account u).attainedServiceMs
  dispatches : ∀ u, (t.account u).dispatchCount = (s.account u).dispatchCount

theorem SameService.refl (s : WorkflowFairScheduler) : SameService s s := ⟨rfl,fun _ => rfl,fun _ => rfl⟩

theorem SameService.trans {r : WorkflowFairScheduler} (h : SameService r s) (h' : SameService s t) :
    SameService r t :=
  ⟨h'.penalty.trans h.penalty,fun u => (h'.service u).trans (h.service u),
    fun u => (h'.dispatches u).trans (h.dispatches u)⟩

theorem sameService_enrollAll (s : WorkflowFairScheduler) (workflows : Finset String) :
    SameService s (s.enrollAll workflows) := by
  refine ⟨enrollAll_penalty s workflows,fun u => ?_,fun u => ?_⟩
  · rw [account_enrollAll]
    split_ifs <;> rfl
  · rw [account_enrollAll]
    split_ifs <;> rfl

/-- What is selected depends on what the workflows have got, not on their weights. -/
theorem SameService.select (h : SameService s t) (runnable : Finset String) (charges : String → ℚ)
    (hbmCapacityBytes : ℤ) :
    (t.select fl runnable charges hbmCapacityBytes).2 = (s.select fl runnable charges hbmCapacityBytes).2 := by
  have hkey (v : String) (hv : v ∈ runnable) : (t.enrollAll runnable).selectionKey fl charges hbmCapacityBytes v =
      (s.enrollAll runnable).selectionKey fl charges hbmCapacityBytes v := by
    unfold selectionKey virtualRuntime
    simp only [account_enrollAll,if_pos hv,enrollAll_penalty,h.penalty,h.service,h.dispatches]
  apply Option.ext
  intro w
  rw [select_eq_some_iff,select_eq_some_iff]
  refine and_congr_right fun hw => forall₂_congr fun v hv => ?_
  rw [hkey w hw,hkey v hv]

/-! ## The order of selection -/

section Order
variable (fl : ℚ → ℚ) (charges : String → ℚ) (hbmCapacityBytes : ℤ)

/-- The loop of `ordered`; each round takes one of the remaining workflows. -/
def orderedLoop : ℕ → WorkflowFairScheduler → Finset String → WorkflowFairScheduler × List String
  | 0, s, _ => (s,[])
  | rounds + 1, s, remaining =>
    let chosen := s.select fl remaining charges hbmCapacityBytes
    match chosen.2 with
    | none => (chosen.1,[])
    | some selected =>
      let rest := orderedLoop rounds chosen.1 (remaining.erase selected)
      (rest.1,selected :: rest.2)

def ordered (s : WorkflowFairScheduler) (runnable : Finset String) : WorkflowFairScheduler × List String :=
  orderedLoop fl charges hbmCapacityBytes runnable.card s runnable

/-- A scheduler after some selections without charges. -/
inductive Selecting (s : WorkflowFairScheduler) : WorkflowFairScheduler → Prop
  | start : Selecting s s
  | select {t : WorkflowFairScheduler} (h : Selecting s t) (runnable : Finset String) (charges : String → ℚ)
      (hbmCapacityBytes : ℤ) : Selecting s (t.select fl runnable charges hbmCapacityBytes).1

variable {fl charges hbmCapacityBytes}

theorem Selecting.sameService (h : Selecting fl s t) : SameService s t := by
  induction h with
  | start => exact .refl s
  | select h runnable charges hbmCapacityBytes ih => exact ih.trans (sameService_enrollAll _ runnable)

theorem orderedLoop_spec (fl : ℚ → ℚ) (charges : String → ℚ) (hbmCapacityBytes : ℤ) :
    ∀ (rounds : ℕ) {s : WorkflowFairScheduler} {remaining : Finset String},
    remaining.card = rounds →
    (orderedLoop fl charges hbmCapacityBytes rounds s remaining).2.Nodup ∧
    (∀ w, w ∈ (orderedLoop fl charges hbmCapacityBytes rounds s remaining).2 ↔ w ∈ remaining) ∧
    ∀ before w after, (orderedLoop fl charges hbmCapacityBytes rounds s remaining).2 = before ++ w :: after →
      (s.select fl (remaining \ before.toFinset) charges hbmCapacityBytes).2 = some w := by
  intro rounds
  induction rounds with
  | zero =>
    intro s remaining hcard
    obtain rfl := Finset.card_eq_zero.mp hcard
    refine ⟨List.nodup_nil,fun w => ?_,fun before w after h => ?_⟩
    · exact iff_of_false List.not_mem_nil (Finset.notMem_empty w)
    · exact absurd h.symm (List.append_ne_nil_of_right_ne_nil before (List.cons_ne_nil w after))
  | succ rounds ih =>
    intro s remaining hcard
    rw [orderedLoop]
    cases hchosen : (s.select fl remaining charges hbmCapacityBytes).2 with
    | none =>
      rw [select_eq_none fl hchosen,Finset.card_empty] at hcard
      exact absurd hcard (Nat.zero_ne_add_one rounds)
    | some selected =>
      have hmem := select_mem fl hchosen
      have hless : (remaining.erase selected).card = rounds := by
        rw [Finset.card_erase_of_mem hmem,hcard,Nat.add_sub_cancel]
      obtain ⟨hnodup,hall,hselect⟩ := ih (s := (s.select fl remaining charges hbmCapacityBytes).1) hless
      have hsame := sameService_enrollAll s remaining
      refine ⟨List.nodup_cons.mpr ⟨fun h => ?_,hnodup⟩,fun w => ?_,fun before w after h => ?_⟩
      · exact Finset.notMem_erase selected remaining ((hall selected).mp h)
      · rw [List.mem_cons,hall,Finset.mem_erase]
        by_cases hw : w = selected
        · simp [hw,hmem]
        · simp [hw]
      · cases before with
        | nil =>
          obtain ⟨rfl,-⟩ := List.cons.inj h
          rw [List.toFinset_nil,Finset.sdiff_empty]
          exact hchosen
        | cons first before =>
          obtain ⟨rfl,hrest⟩ := List.cons.inj h
          have hlater := hselect before w after hrest
          have hset : remaining \ (selected :: before).toFinset = remaining.erase selected \ before.toFinset := by
            ext v
            simp only [List.toFinset_cons,Finset.mem_sdiff,Finset.mem_insert,Finset.mem_erase]
            tauto
          rw [hset,← hsame.select]
          exact hlater

end Order

/-! ## Rounds of service -/

/-- A workflow is selected under some memory charges and gets some service. -/
structure ServiceRound where
  charges : String → ℚ
  hbmCapacityBytes : ℤ
  serviceMs : ℚ

def serve (s : WorkflowFairScheduler) (runnable : Finset String) (round : ServiceRound) : WorkflowFairScheduler :=
  let chosen := s.select id runnable round.charges round.hbmCapacityBytes
  match chosen.2 with
  | none => chosen.1
  | some selected =>
    match chosen.1.chargeService id selected round.serviceMs with
    | .ok t => t
    | .error _ => chosen.1

def serveAll (s : WorkflowFairScheduler) (runnable : Finset String) (rounds : List ServiceRound) :
    WorkflowFairScheduler :=
  rounds.foldl (fun s round => s.serve runnable round) s

/-- Where the memory charges are equal, the workflow with the least service is served. -/
theorem serve_spec {round : ServiceRound} (hsome : runnable.Nonempty)
    (hcharges : ∀ u ∈ runnable, ∀ v ∈ runnable, round.charges u = round.charges v) (hservice : 0 ≤ round.serviceMs) :
    ∃ w ∈ runnable, (∀ v ∈ runnable, (s.account w).attainedServiceMs ≤ (s.account v).attainedServiceMs) ∧
      ∀ u, ((s.serve runnable round).account u).attainedServiceMs =
        (s.account u).attainedServiceMs + if u = w then round.serviceMs else 0 := by
  unfold serve
  simp only
  cases hchosen : (s.select id runnable round.charges round.hbmCapacityBytes).2 with
  | none => exact absurd (select_eq_none id hchosen) hsome.ne_empty
  | some w =>
    obtain ⟨hw,hleast⟩ := select_eq_some_iff.mp hchosen
    have hsame := sameService_enrollAll s runnable
    refine ⟨w,hw,fun v hv => ?_,fun u => ?_⟩
    · have hkey := hleast v hv
      unfold selectionKey at hkey
      rw [Prod.Lex.toLex_le_toLex] at hkey
      have hshare : memoryShare id round.charges round.hbmCapacityBytes w =
          memoryShare id round.charges round.hbmCapacityBytes v := by
        unfold memoryShare
        rw [hcharges w hw v hv]
      have hfirst : virtualRuntime id ((s.enrollAll runnable).account w) +
            memoryShare id round.charges round.hbmCapacityBytes w * (s.enrollAll runnable).memoryPenaltyMs ≤
          virtualRuntime id ((s.enrollAll runnable).account v) +
            memoryShare id round.charges round.hbmCapacityBytes v * (s.enrollAll runnable).memoryPenaltyMs :=
        hkey.elim le_of_lt fun h => h.1.le
      rw [hshare] at hfirst
      have hruntime := le_of_add_le_add_right hfirst
      unfold virtualRuntime at hruntime
      simp only [account_enrollAll,if_pos hw,if_pos hv,div_one,id_eq] at hruntime
      exact hruntime
    · obtain ⟨t,hcharge⟩ := (s.select id runnable round.charges round.hbmCapacityBytes).1.charge_returns id w hservice
      simp only [hcharge]
      rw [account_charge hcharge]
      by_cases hu : u = w
      · rw [if_pos hu,if_pos hu]
        simp only
        split_ifs with hzero
        · rw [hzero,add_zero]
          exact hsame.service u
        · exact congrArg (· + round.serviceMs) (hsame.service u)
      · rw [if_neg hu,if_neg hu,add_zero]
        exact hsame.service u

/-- One round leaves two workflows no farther apart than its service, or than they were. -/
theorem serve_spread {round : ServiceRound} {bound : ℚ}
    (hcharges : ∀ u ∈ runnable, ∀ v ∈ runnable, round.charges u = round.charges v)
    (hservice : 0 ≤ round.serviceMs ∧ round.serviceMs ≤ bound) {v : String} (hu : u ∈ runnable) (hv : v ∈ runnable) :
    |((s.serve runnable round).account u).attainedServiceMs -
        ((s.serve runnable round).account v).attainedServiceMs| ≤
      max bound |(s.account u).attainedServiceMs - (s.account v).attainedServiceMs| := by
  obtain ⟨w,-,hleast,hserved⟩ := serve_spec (s := s) ⟨u,hu⟩ hcharges hservice.1
  rw [hserved,hserved]
  have hul := hleast u hu
  have hvl := hleast v hv
  have hfar := le_max_right bound |(s.account u).attainedServiceMs - (s.account v).attainedServiceMs|
  have hnear := le_max_left bound |(s.account u).attainedServiceMs - (s.account v).attainedServiceMs|
  obtain ⟨hlow,hhigh⟩ := abs_le.mp (le_refl |(s.account u).attainedServiceMs - (s.account v).attainedServiceMs|)
  by_cases huw : u = w
  · by_cases hvw : v = w
    · rw [huw,hvw,sub_self,abs_zero]
      exact (hservice.1.trans hservice.2).trans (le_max_left _ _)
    · rw [if_pos huw,if_neg hvw]
      rw [← huw] at hvl
      exact abs_le.mpr ⟨by linarith,by linarith⟩
  · by_cases hvw : v = w
    · rw [if_neg huw,if_pos hvw]
      rw [← hvw] at hul
      exact abs_le.mpr ⟨by linarith,by linarith⟩
    · rw [if_neg huw,if_neg hvw,add_zero,add_zero]
      exact hfar

theorem serveAll_spread {bound : ℚ} {v : String} (hu : u ∈ runnable) (hv : v ∈ runnable)
    (rounds : List ServiceRound) :
    ∀ s : WorkflowFairScheduler, (∀ round ∈ rounds, (0 ≤ round.serviceMs ∧ round.serviceMs ≤ bound) ∧
      ∀ u ∈ runnable, ∀ v ∈ runnable, round.charges u = round.charges v) →
    |((s.serveAll runnable rounds).account u).attainedServiceMs -
        ((s.serveAll runnable rounds).account v).attainedServiceMs| ≤
      max bound |(s.account u).attainedServiceMs - (s.account v).attainedServiceMs| := by
  induction rounds with
  | nil => exact fun s _ => le_max_right _ _
  | cons round rounds ih =>
    intro s hrounds
    obtain ⟨⟨hservice,hcharges⟩,hrest⟩ := List.forall_mem_cons.mp hrounds
    have hone := serve_spread (s := s) hcharges hservice hu hv
    calc _ ≤ max bound |((s.serve runnable round).account u).attainedServiceMs -
          ((s.serve runnable round).account v).attainedServiceMs| := ih (s.serve runnable round) hrest
      _ ≤ max bound |(s.account u).attainedServiceMs - (s.account v).attainedServiceMs| :=
        max_le (le_max_left _ _) hone

/-- Workflows that are served in turns never drift farther apart than the longest service, or than they were at
first; and the order of the runnable workflows is that of repeated selections. -/
theorem rotation_fair (s : WorkflowFairScheduler) (runnable : Finset String) (bound : ℚ) (rounds : List ServiceRound)
    (hrounds : ∀ round ∈ rounds, (0 ≤ round.serviceMs ∧ round.serviceMs ≤ bound) ∧
      ∀ u ∈ runnable, ∀ v ∈ runnable, round.charges u = round.charges v) :
    (∀ u ∈ runnable, ∀ v ∈ runnable,
      |((s.serveAll runnable rounds).account u).attainedServiceMs -
          ((s.serveAll runnable rounds).account v).attainedServiceMs| ≤
        max bound |(s.account u).attainedServiceMs - (s.account v).attainedServiceMs|) ∧
    ∀ (fl : ℚ → ℚ) (charges : String → ℚ) (hbmCapacityBytes : ℤ),
      (ordered fl charges hbmCapacityBytes s runnable).2.Nodup ∧
      (∀ w, w ∈ (ordered fl charges hbmCapacityBytes s runnable).2 ↔ w ∈ runnable) ∧
      ∀ before w after, (ordered fl charges hbmCapacityBytes s runnable).2 = before ++ w :: after →
        ∀ t, Selecting fl s t →
          (t.select fl (runnable \ before.toFinset) charges hbmCapacityBytes).2 = some w := by
  refine ⟨fun u hu v hv => serveAll_spread hu hv rounds s hrounds,fun fl charges hbmCapacityBytes => ?_⟩
  obtain ⟨hnodup,hall,hselect⟩ := orderedLoop_spec fl charges hbmCapacityBytes runnable.card (s := s)
    (rfl : runnable.card = _)
  refine ⟨hnodup,hall,fun before w after h t ht => ?_⟩
  rw [ht.sameService.select]
  exact hselect before w after h

def twoRounds : List ServiceRound := [⟨fun _ => 0,0,1⟩,⟨fun _ => 0,0,1⟩]

/-- Two workflows get one unit each in turn. -/
theorem twoWorkflows_fair : |((serveAll {} {"a","b"} twoRounds).account "a").attainedServiceMs -
      ((serveAll {} {"a","b"} twoRounds).account "b").attainedServiceMs| ≤ max 1 |0 - 0| ∧
    ((serveAll {} {"a","b"} twoRounds).account "b").attainedServiceMs = 1 := by
  refine ⟨(rotation_fair {} {"a","b"} 1 twoRounds ?_).1 "a" (by decide) "b" (by decide),by decide +kernel⟩
  intro round hround
  unfold twoRounds at hround
  simp only [List.mem_cons,List.not_mem_nil,or_false,or_self] at hround
  subst hround
  exact ⟨⟨by norm_num,le_refl 1⟩,fun _ _ _ _ => rfl⟩

end BeliefKV.WorkflowFairScheduler
