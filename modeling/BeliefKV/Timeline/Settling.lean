import Mathlib.Data.List.Perm.Basic
import BeliefKV.Timeline.Order

/-! The settling of the releases: it ends, and the order of the outcomes does not matter to it. -/
namespace BeliefKV.CandidateTimeline

/-! ## Rounds that end -/

/-- Rounds that change nothing unless they make something smaller stop changing after that many rounds. -/
theorem iterate_settles {A : Type} {f : A → A} (size : A → ℕ) (hless : ∀ a, size (f a) ≤ size a)
    (hstop : ∀ a, size (f (f a)) = size (f a) → f (f a) = f a) :
    ∀ (n : ℕ) (a : A), size (f a) ≤ n → f (f^[n] (f a)) = f^[n] (f a) := by
  intro n
  induction n with
  | zero =>
    intro a hsize
    apply hstop
    have hle := hless (f a)
    omega
  | succ n ih =>
    intro a hsize
    rw [Function.iterate_succ_apply]
    have hle := hless (f a)
    by_cases hsame : size (f (f a)) = size (f a)
    · have hfixed := hstop a hsame
      rw [hfixed]
      rw [Function.iterate_fixed hfixed n]
      exact hfixed
    · apply ih
      omega

/-- A pass whose members all change nothing changes nothing. -/
theorem foldl_stays {A B : Type} {f : B → A → B} {u : B} (l : List A) (h : ∀ a ∈ l, f u a = u) :
    l.foldl f u = u := by
  induction l with
  | nil => rfl
  | cons a l ih =>
    rw [List.foldl_cons,h a List.mem_cons_self]
    exact ih fun b hb => h b (List.mem_cons_of_mem a hb)

section Settling
variable {scenario : DemandScenario} {plan : CandidatePhysicalPlan}

/-- The invocations without a release. -/
def unreleased (scenario : DemandScenario) (t : Timeline) : Finset String :=
  ((scenario.outcomes.map (·.invocationId)).toFinset).filter (· ∉ t.dependencyRelease)

/-- Releases are only added. -/
def Grows (t u : Timeline) : Prop := ∀ id, id ∈ t.dependencyRelease → id ∈ u.dependencyRelease

theorem resolveOutcome_cases (t : Timeline) (o : FrontierDemandOutcome) :
    resolveOutcome t o = t ∨ (o.invocationId ∉ t.dependencyRelease ∧
      ∃ offset, resolveOutcome t o = t.release o.invocationId offset) := by
  unfold resolveOutcome
  split_ifs with hknown
  · exact .inl rfl
  · cases resolved t o with
    | none => exact .inl rfl
    | some offset => exact .inr ⟨hknown,offset,rfl⟩

theorem resolveOutcome_grows (t : Timeline) (o : FrontierDemandOutcome) : Grows t (resolveOutcome t o) := by
  intro id hid
  obtain heq | ⟨-,offset,heq⟩ := resolveOutcome_cases t o
  · rwa [heq]
  · rw [heq]
    exact (Dict.mem_insert_iff _ _ _ _).mpr (.inr hid)

theorem foldl_resolve (l : List FrontierDemandOutcome) : ∀ t : Timeline,
    Grows t (l.foldl resolveOutcome t) ∧ (l.foldl resolveOutcome t = t ∨
      ∃ o ∈ l, o.invocationId ∉ t.dependencyRelease ∧
        o.invocationId ∈ (l.foldl resolveOutcome t).dependencyRelease) := by
  induction l with
  | nil => exact fun t => ⟨fun _ h => h,.inl rfl⟩
  | cons o l ih =>
    intro t
    obtain ⟨hgrows,hcases⟩ := ih (resolveOutcome t o)
    refine ⟨fun id hid => hgrows id (resolveOutcome_grows t o id hid),?_⟩
    obtain heq | ⟨hnew,offset,heq⟩ := resolveOutcome_cases t o
    · rw [List.foldl_cons]
      rw [heq] at hcases ⊢
      exact hcases.imp_right fun ⟨p,hp,h⟩ => ⟨p,List.mem_cons_of_mem o hp,h⟩
    · refine .inr ⟨o,List.mem_cons_self,hnew,?_⟩
      apply hgrows
      rw [heq]
      exact (Dict.mem_insert_iff _ _ _ _).mpr (.inl rfl)

theorem resolveOutcome_completion (t : Timeline) (o : FrontierDemandOutcome) :
    (resolveOutcome t o).completion = t.completion := by
  obtain heq | ⟨-,offset,heq⟩ := resolveOutcome_cases t o
  · rw [heq]
  · rw [heq]
    rfl

theorem foldl_resolve_completion (l : List FrontierDemandOutcome) : ∀ t : Timeline,
    (l.foldl resolveOutcome t).completion = t.completion := by
  induction l with
  | nil => exact fun _ => rfl
  | cons o l ih => exact fun t => (ih _).trans (resolveOutcome_completion t o)

theorem resolved_congr {t u : Timeline} (h : u.completion = t.completion) (o : FrontierDemandOutcome) :
    resolved u o = resolved t o := by
  have hsame : u.completionOf = t.completionOf := by
    funext id
    unfold Timeline.completionOf
    rw [h]
  unfold resolved
  rw [hsame]

/-- A pass leaves nothing that the same completions resolve. -/
theorem foldl_resolve_done (l : List FrontierDemandOutcome) : ∀ t : Timeline, ∀ o ∈ l,
    resolveOutcome (l.foldl resolveOutcome t) o = l.foldl resolveOutcome t := by
  induction l with
  | nil => exact fun _ _ ho => absurd ho List.not_mem_nil
  | cons p l ih =>
    intro t o ho
    obtain rfl | ho := List.mem_cons.mp ho
    · rw [List.foldl_cons]
      have hgrows := (foldl_resolve l (resolveOutcome t o)).1
      have hcompletion : (l.foldl resolveOutcome (resolveOutcome t o)).completion = t.completion :=
        (foldl_resolve_completion l _).trans (resolveOutcome_completion t o)
      set u := l.foldl resolveOutcome (resolveOutcome t o) with hu
      by_cases hlater : o.invocationId ∈ u.dependencyRelease
      · exact if_pos hlater
      · have hnone : resolved t o = none := by
          cases hresolved : resolved t o with
          | none => rfl
          | some offset =>
            refine absurd (hgrows o.invocationId ?_) hlater
            unfold resolveOutcome
            split_ifs with hknown
            · exact hknown
            · rw [hresolved]
              exact (Dict.mem_insert_iff _ _ _ _).mpr (.inl rfl)
        unfold resolveOutcome
        rw [if_neg hlater,resolved_congr hcompletion,hnone]
    · exact ih (resolveOutcome t p) o ho

/-- A second pass over the outcomes resolves nothing. -/
theorem resolve_again (t : Timeline) : resolveDependencyReleases scenario (resolveDependencyReleases scenario t) =
    resolveDependencyReleases scenario t :=
  foldl_stays scenario.outcomes (foldl_resolve_done scenario.outcomes t)

theorem completeZero_releases (t : Timeline) (d : PhysicalizedInvocationDemand) :
    (completeZero scenario t d).dependencyRelease = t.dependencyRelease := by
  unfold completeZero
  split_ifs
  · rfl
  · rfl
  · rfl

theorem foldl_zero_releases (l : List PhysicalizedInvocationDemand) : ∀ t : Timeline,
    (l.foldl (completeZero scenario) t).dependencyRelease = t.dependencyRelease := by
  induction l with
  | nil => exact fun _ => rfl
  | cons d l ih => exact fun t => (ih _).trans (completeZero_releases t d)

/-- The invocation completes with its release. -/
def Zero (scenario : DemandScenario) (t : Timeline) (d : PhysicalizedInvocationDemand) : Prop :=
  ¬ d.Works ∧ t.Released scenario d.invocationId

def zeroCompletion (t : Timeline) (id : String) : Completion :=
  ⟨max 0 (t.dependencyRelease[id]?.getD 0),"zero_physical_demand"⟩

theorem completeZero_eq (scenario : DemandScenario) (t : Timeline) (d : PhysicalizedInvocationDemand) :
    (Zero scenario t d ∧ completeZero scenario t d =
      { t with completion := t.completion.insert d.invocationId (zeroCompletion t d.invocationId) }) ∨
      (¬ Zero scenario t d ∧ completeZero scenario t d = t) := by
  unfold completeZero
  split_ifs with hworks hwaits
  · exact .inr ⟨fun h => h.1 hworks,rfl⟩
  · refine .inr ⟨fun h => ?_,rfl⟩
    exact h.2.elim hwaits.1 hwaits.2
  · refine .inl ⟨⟨hworks,?_⟩,rfl⟩
    by_contra hnot
    exact hwaits (not_or.mp hnot)

/-- After the pass an invocation that completes with its release has its completion. -/
theorem foldl_zero_get (l : List PhysicalizedInvocationDemand) : ∀ (t : Timeline) (id : String),
    (t.completion[id]? = some (zeroCompletion t id) ∨ ∃ d ∈ l, d.invocationId = id ∧ Zero scenario t d) →
      (l.foldl (completeZero scenario) t).completion[id]? = some (zeroCompletion t id) := by
  induction l with
  | nil =>
    intro t id h
    exact h.resolve_right fun ⟨d,hd,_⟩ => List.not_mem_nil hd
  | cons d l ih =>
    intro t id h
    have hreleases : (completeZero scenario t d).dependencyRelease = t.dependencyRelease := completeZero_releases t d
    have hsame : zeroCompletion (completeZero scenario t d) id = zeroCompletion t id := by
      unfold zeroCompletion
      rw [hreleases]
    rw [List.foldl_cons,← hsame]
    apply ih
    rw [hsame]
    obtain ⟨hzero,heq⟩ | ⟨hnot,heq⟩ := completeZero_eq scenario t d
    · by_cases hid : d.invocationId = id
      · left
        rw [heq]
        change (t.completion.insert d.invocationId _)[id]? = _
        rw [Dict.get_insert,if_pos hid,hid]
      · refine h.imp (fun hget => ?_) ?_
        · rw [heq]
          change (t.completion.insert d.invocationId _)[id]? = _
          rw [Dict.get_insert,if_neg hid]
          exact hget
        · rintro ⟨e,he,heid,hezero⟩
          obtain rfl | he := List.mem_cons.mp he
          · exact absurd heid hid
          · refine ⟨e,he,heid,hezero.1,?_⟩
            unfold Timeline.Released
            rw [hreleases]
            exact hezero.2
    · rw [heq]
      refine h.imp_right ?_
      rintro ⟨e,he,heid,hezero⟩
      obtain rfl | he := List.mem_cons.mp he
      · exact absurd hezero hnot
      · exact ⟨e,he,heid,hezero⟩

theorem foldl_zero_again (t : Timeline) :
    completeZeroDemand scenario plan (completeZeroDemand scenario plan t) = completeZeroDemand scenario plan t := by
  set u := completeZeroDemand scenario plan t with hu
  have hreleases : u.dependencyRelease = t.dependencyRelease := foldl_zero_releases _ t
  have hfixed : ∀ d ∈ plan.invocationDemands, completeZero scenario u d = u := by
    intro d hd
    obtain ⟨hzero,heq⟩ | ⟨-,heq⟩ := completeZero_eq scenario u d
    · have hsame : zeroCompletion u d.invocationId = zeroCompletion t d.invocationId := by
        unfold zeroCompletion
        rw [hreleases]
      have hzero' : Zero scenario t d := by
        refine ⟨hzero.1,?_⟩
        unfold Timeline.Released
        rw [← hreleases]
        exact hzero.2
      have hget : u.completion[d.invocationId]? = some (zeroCompletion t d.invocationId) :=
        foldl_zero_get _ t d.invocationId (.inr ⟨d,hd,rfl,hzero'⟩)
      have hdict : u.completion.insert d.invocationId (zeroCompletion u d.invocationId) = u.completion := by
        apply Dict.ext_get
        intro id
        rw [Dict.get_insert]
        split_ifs with hid
        · rw [← hid,hget,hsame]
        · rfl
      rw [heq,hdict]
    · exact heq
  exact foldl_stays plan.invocationDemands hfixed

theorem settleRound_grows (t : Timeline) : Grows t (settleRound scenario plan t) := by
  intro id hid
  have hresolve := (foldl_resolve scenario.outcomes t).1 id hid
  unfold settleRound completeZeroDemand
  rw [foldl_zero_releases]
  exact hresolve

theorem unreleased_le (t : Timeline) :
    (unreleased scenario (settleRound scenario plan t)).card ≤ (unreleased scenario t).card := by
  apply Finset.card_le_card
  intro id hid
  obtain ⟨hmem,hnot⟩ := Finset.mem_filter.mp hid
  exact Finset.mem_filter.mpr ⟨hmem,fun h => hnot (settleRound_grows t id h)⟩

/-- A round that releases nothing after another one changes nothing. -/
theorem settleRound_stops (t : Timeline)
    (h : (unreleased scenario (settleRound scenario plan (settleRound scenario plan t))).card =
      (unreleased scenario (settleRound scenario plan t)).card) :
    settleRound scenario plan (settleRound scenario plan t) = settleRound scenario plan t := by
  set u := settleRound scenario plan t with hu
  obtain heq | ⟨o,ho,hnew,hreleased⟩ := (foldl_resolve scenario.outcomes u).2
  · unfold settleRound resolveDependencyReleases
    rw [heq,hu]
    exact foldl_zero_again _
  · have hin : o.invocationId ∈ (settleRound scenario plan u).dependencyRelease := by
      unfold settleRound completeZeroDemand
      rw [foldl_zero_releases]
      exact hreleased
    have hless : unreleased scenario (settleRound scenario plan u) ⊂ unreleased scenario u := by
      refine Finset.ssubset_iff_subset_ne.mpr ⟨fun id hid => ?_,fun heq => ?_⟩
      · obtain ⟨hmem,hnot⟩ := Finset.mem_filter.mp hid
        exact Finset.mem_filter.mpr ⟨hmem,fun h => hnot (settleRound_grows u id h)⟩
      · have hmem : o.invocationId ∈ unreleased scenario u :=
          Finset.mem_filter.mpr ⟨List.mem_toFinset.mpr (List.mem_map_of_mem ho),hnew⟩
        rw [← heq] at hmem
        exact (Finset.mem_filter.mp hmem).2 hin
    exact absurd h (Finset.card_lt_card hless).ne

/-- After the settling one more round changes nothing. -/
theorem settle_settled (t : Timeline) : settleRound scenario plan (settleDependencyReleases scenario plan t) =
    settleDependencyReleases scenario plan t := by
  unfold settleDependencyReleases
  rw [Function.iterate_succ_apply]
  apply iterate_settles (fun u => (unreleased scenario u).card) unreleased_le settleRound_stops
  have hle : (unreleased scenario (settleRound scenario plan t)).card ≤ scenario.outcomes.length := by
    refine (Finset.card_filter_le _ _).trans ((List.toFinset_card_le _).trans ?_)
    rw [List.length_map]
  exact hle.trans (Nat.le_succ _)

end Settling

/-! ## The order of the outcomes -/

/-- A value written at a key, if there is one. -/
def write {V : Type} (d : Dict String V) (key : String) : Option V → Dict String V
  | none => d
  | some v => d.insert key v

theorem get_write {V : Type} (d : Dict String V) (key : String) (v : Option V) (id : String) :
    (write d key v)[id]? = if key = id then v.or d[id]? else d[id]? := by
  cases v with
  | none =>
    change d[id]? = _
    split_ifs
    · rfl
    · rfl
  | some v => exact Dict.get_insert d key id v

theorem write_comm {V : Type} (d : Dict String V) {k l : String} (hne : k ≠ l) (v w : Option V) :
    write (write d k v) l w = write (write d l w) k v := by
  apply Dict.ext_get
  intro id
  rw [get_write,get_write,get_write,get_write]
  by_cases hk : k = id
  · have hl : l ≠ id := fun hl => hne (hk.trans hl.symm)
    rw [if_neg hl,if_pos hk,if_pos hk,if_neg hl]
  · rw [if_neg hk,if_neg hk]

/-- What is written for one invocation. -/
def Timeline.written (t : Timeline) (id : String) (offset : Option ℚ) (c : Option Completion) : Timeline :=
  { t with dependencyRelease := write t.dependencyRelease id offset, completion := write t.completion id c }

theorem written_comm (t : Timeline) {k l : String} (hne : k ≠ l) (v w : Option ℚ) (c e : Option Completion) :
    (t.written k v c).written l w e = (t.written l w e).written k v c := by
  unfold Timeline.written
  simp only
  rw [write_comm _ hne v w,write_comm _ hne c e]

/-- A pass that writes for each outcome, whatever it wrote for the others, is the same in every order. -/
theorem foldl_written {f : Timeline → FrontierDemandOutcome → Timeline}
    {offset : Timeline → FrontierDemandOutcome → Option ℚ} {c : Timeline → FrontierDemandOutcome → Option Completion}
    (hf : ∀ t o, f t o = t.written o.invocationId (offset t o) (c t o))
    (hothers : ∀ t o p, o.invocationId ≠ p.invocationId → offset (f t o) p = offset t p ∧ c (f t o) p = c t p)
    {l l' : List FrontierDemandOutcome} (hperm : l.Perm l') (hunique : (l.map (·.invocationId)).Nodup)
    (t : Timeline) : l.foldl f t = l'.foldl f t := by
  apply hperm.foldl_eq'
  intro o ho p hp t
  by_cases hid : o.invocationId = p.invocationId
  · rw [List.inj_on_of_nodup_map hunique ho hp hid]
  · obtain ⟨hoffset,hc⟩ := hothers t o p hid
    obtain ⟨hoffset',hc'⟩ := hothers t p o (Ne.symm hid)
    rw [hf (f t o) p,hoffset,hc,hf (f t p) o,hoffset',hc',hf t o,hf t p]
    exact written_comm t hid _ _ _ _

theorem startOutcome_written (fl : ℚ → ℚ) (plan : CandidatePhysicalPlan) (t : Timeline) (o : FrontierDemandOutcome) :
    startOutcome fl plan t o = t.written o.invocationId
      (if o.residualDelaysMs ≠ [] ∧ o.dependencyMode = .external then some (roundedSum fl o.residualDelaysMs) else none)
      (if o.residualDelaysMs ≠ [] ∧ o.dependencyMode = .external then
        if (plan.physical? o.invocationId).isNone then some ⟨roundedSum fl o.residualDelaysMs,"external_segment"⟩ else none
      else none) := by
  unfold startOutcome
  split_ifs
  · rfl
  · rfl
  · rfl

theorem resolveOutcome_written (t : Timeline) (o : FrontierDemandOutcome) :
    resolveOutcome t o = t.written o.invocationId
      (if o.invocationId ∈ t.dependencyRelease then none else resolved t o) none := by
  unfold resolveOutcome
  split_ifs
  · rfl
  · cases resolved t o with
    | none => rfl
    | some offset => rfl

def finishedAt (plan : CandidatePhysicalPlan) (t : Timeline) (o : FrontierDemandOutcome) : Option Completion :=
  if (plan.physical? o.invocationId).isSome ∨ o.invocationId ∈ t.completion ∨ o.dependencyMode = .none then none
  else t.dependencyRelease[o.invocationId]?.map fun offset => ⟨offset,"dependency:" ++ o.dependencyMode.value⟩

theorem finishOutcome_written (plan : CandidatePhysicalPlan) (t : Timeline) (o : FrontierDemandOutcome) :
    finishOutcome plan t o = t.written o.invocationId none (finishedAt plan t o) := by
  unfold finishOutcome finishedAt
  by_cases hdone : (plan.physical? o.invocationId).isSome ∨ o.invocationId ∈ t.completion
  · rw [if_pos hdone,if_pos (hdone.imp_right Or.inl)]
    rfl
  · rw [if_neg hdone]
    by_cases hmode : o.dependencyMode = .none
    · rw [if_pos (.inr (.inr hmode))]
      cases t.dependencyRelease[o.invocationId]? with
      | none => rfl
      | some offset =>
        simp only
        rw [if_pos hmode]
        rfl
    · rw [if_neg (fun h => hdone (h.imp_right fun h => h.resolve_right hmode))]
      cases t.dependencyRelease[o.invocationId]? with
      | none => rfl
      | some offset =>
        simp only
        rw [if_neg hmode]
        rfl

section Perm
variable {fl : ℚ → ℚ} {scenario other : DemandScenario} {plan : CandidatePhysicalPlan} {model : GPUServiceModel}
  (hperm : scenario.outcomes.Perm other.outcomes)
include hperm

theorem externalTimeline_perm : externalTimeline fl scenario plan = externalTimeline fl other plan := by
  apply foldl_written (startOutcome_written fl plan) _ hperm scenario.outcomes_unique
  exact fun t o p _ => ⟨rfl,rfl⟩

theorem resolve_perm : resolveDependencyReleases scenario = resolveDependencyReleases other := by
  funext t
  apply foldl_written resolveOutcome_written _ hperm scenario.outcomes_unique
  intro t o p hne
  refine ⟨?_,rfl⟩
  rw [resolved_congr (resolveOutcome_completion t o)]
  have hmem : p.invocationId ∈ (resolveOutcome t o).dependencyRelease ↔ p.invocationId ∈ t.dependencyRelease := by
    rw [Dict.mem_iff_get,Dict.mem_iff_get,resolveOutcome_written]
    unfold Timeline.written
    rw [get_write,if_neg hne]
  by_cases hknown : p.invocationId ∈ t.dependencyRelease
  · rw [if_pos (hmem.mpr hknown),if_pos hknown]
  · rw [if_neg (hmem.not.mpr hknown),if_neg hknown]

theorem finish_perm : completeReleasedNonphysical scenario plan = completeReleasedNonphysical other plan := by
  funext t
  apply foldl_written (finishOutcome_written plan) _ hperm scenario.outcomes_unique
  intro t o p hne
  refine ⟨rfl,?_⟩
  have hreleases : (finishOutcome plan t o).dependencyRelease = t.dependencyRelease := by
    rw [finishOutcome_written]
    rfl
  have hmem : p.invocationId ∈ (finishOutcome plan t o).completion ↔ p.invocationId ∈ t.completion := by
    rw [Dict.mem_iff_get,Dict.mem_iff_get,finishOutcome_written]
    unfold Timeline.written
    rw [get_write,if_neg hne]
  unfold finishedAt
  rw [hreleases]
  by_cases hknown : (plan.physical? p.invocationId).isSome ∨ p.invocationId ∈ t.completion ∨ p.dependencyMode = .none
  · rw [if_pos (hknown.imp_right (Or.imp_left hmem.mpr)),if_pos hknown]
  · rw [if_neg (fun h => hknown (h.imp_right (Or.imp_left hmem.mp))),if_neg hknown]

theorem modeOf_perm : modeOf scenario = modeOf other := by
  funext id
  ext mode
  rw [modeOf_eq_some,modeOf_eq_some]
  constructor
  · rintro ⟨o,ho,h⟩
    exact ⟨o,hperm.mem_iff.mp ho,h⟩
  · rintro ⟨o,ho,h⟩
    exact ⟨o,hperm.mem_iff.mpr ho,h⟩

theorem completeZero_perm : completeZero scenario = completeZero other := by
  funext t d
  unfold completeZero
  rw [modeOf_perm hperm]

theorem settle_perm : settleDependencyReleases scenario plan = settleDependencyReleases other plan := by
  have hround : settleRound scenario plan = settleRound other plan := by
    funext t
    unfold settleRound completeZeroDemand
    rw [resolve_perm hperm,completeZero_perm hperm]
  funext t
  unfold settleDependencyReleases
  rw [hround,hperm.length_eq]

theorem startTimeline_perm : startTimeline fl scenario plan = startTimeline fl other plan := by
  have hexternal : externalTimeline fl scenario plan = externalTimeline fl other plan := externalTimeline_perm hperm
  unfold externalTimeline at hexternal
  unfold startTimeline
  rw [hexternal,settle_perm hperm]

theorem executed_perm (t : Timeline) (b : ScheduledBatchQuantum) (estimate : GPUServiceEstimate) :
    t.executed fl scenario plan b estimate = t.executed fl other plan b estimate := by
  unfold Timeline.executed Timeline.batchStart releaseOffsets
  rw [modeOf_perm hperm]

theorem runBatch_perm : runBatch fl model scenario plan = runBatch fl model other plan := by
  funext t b
  have hunreleased : ∀ t : Timeline, (b.requests.filter fun r => ¬ t.Released scenario r.invocationId) =
      b.requests.filter fun r => ¬ t.Released other r.invocationId := by
    intro t
    apply List.filter_congr
    intro r hr
    apply decide_eq_decide.mpr
    unfold Timeline.Released
    rw [modeOf_perm hperm]
  unfold runBatch executeBatch
  rw [settle_perm hperm,modeOf_perm hperm]
  simp only [hunreleased,executed_perm hperm]

theorem finalTimeline_perm : finalTimeline fl model scenario plan = finalTimeline fl model other plan := by
  unfold finalTimeline
  rw [modeOf_perm hperm,startTimeline_perm hperm,runBatch_perm hperm,settle_perm hperm,finish_perm hperm]

end Perm
end BeliefKV.CandidateTimeline
