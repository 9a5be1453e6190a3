import BeliefKV.Risk.Planner

/-! The tail of the regrets is never understated, and the selected package passes every gate. -/
namespace BeliefKV
open Tail

namespace ScenarioRiskPlanner
variable {values values' : List (ℚ × ℚ)} {alpha : ℚ}

instance worse_total : Std.Total fun a b : ℚ × ℚ => toLex b ≤ toLex a := ⟨fun a b => le_total (toLex b) (toLex a)⟩

instance worse_trans : IsTrans (ℚ × ℚ) fun a b => toLex b ≤ toLex a := ⟨fun _ _ _ h h' => h'.trans h⟩

theorem worstFirst_perm (values : List (ℚ × ℚ)) : (worstFirst values).Perm values := List.perm_insertionSort _ values

theorem worstFirst_sorted (values : List (ℚ × ℚ)) : (worstFirst values).Pairwise fun a b => b.1 ≤ a.1 := by
  refine (List.pairwise_insertionSort _ values).imp fun {a b} h => ?_
  rw [Prod.Lex.toLex_le_toLex] at h
  exact h.elim le_of_lt fun h => h.1.le

/-- Values that are listed in another order are consumed in the same order. -/
theorem worstFirst_eq (h : values.Perm values') : worstFirst values = worstFirst values' := by
  refine List.Perm.eq_of_pairwise ?_ (List.pairwise_insertionSort _ values) (List.pairwise_insertionSort _ values') ?_
  · exact fun a b _ _ hab hba => toLex.injective (le_antisymm hba hab)
  · exact (worstFirst_perm values).trans (h.trans (worstFirst_perm values').symm)

/-- A number that does not understate the mean of the worst values of some mass, and stays below the largest value
that counts. -/
structure SoundTail (values : List (ℚ × ℚ)) (mass cvar : ℚ) : Prop where
  mean : ∃ mean, TailMean values mass mean ∧ mean ≤ cvar
  largest : ∀ bound, (∀ e ∈ values, 0 < e.2 → e.1 ≤ bound) → cvar ≤ bound
  expected : (values.map fun e => e.1 * e.2).sum ≤ cvar

theorem weightedCvar_sound (hnonneg : ∀ e ∈ values, 0 ≤ e.2) (hsum : (values.map Prod.snd).sum = 1)
    (halpha : 0 < alpha) (htail : 2 / 10 ^ 12 ≤ 1 - alpha) :
    SoundTail values (1 - alpha) (weightedCvar values alpha) := by
  have hperm := worstFirst_perm values
  have hmasses : ∀ e ∈ worstFirst values, 0 ≤ e.2 := fun e he => hnonneg e (hperm.mem_iff.mp he)
  have hall : ((worstFirst values).map Prod.snd).sum = 1 := (hperm.map Prod.snd).sum_eq.trans hsum
  have henough : 1 - alpha ≤ ((worstFirst values).map Prod.snd).sum := by
    rw [hall]
    linarith
  have hpos : 0 < 1 - alpha := lt_of_lt_of_le (by norm_num) htail
  have htolerance : (0 : ℚ) ≤ 1 / 10 ^ 12 := by norm_num
  obtain ⟨least,h⟩ := consume_spec htolerance _ (worstFirst_sorted values) hmasses 0 (1 - alpha)
    (lt_of_lt_of_le (by norm_num) htail) henough
  have hconsumed : 1 / 10 ^ 12 ≤ 1 - alpha - (consume (1 / 10 ^ 12) (worstFirst values) 0 (1 - alpha)).2 := by
    have hle := h.rest_le
    linarith
  have hsome : 0 < 1 - alpha - (consume (1 / 10 ^ 12) (worstFirst values) 0 (1 - alpha)).2 :=
    lt_of_lt_of_le (by norm_num) hconsumed
  have hcvar : weightedCvar values alpha = ((consume (1 / 10 ^ 12) (worstFirst values) 0 (1 - alpha)).1 - 0) /
      (1 - alpha - (consume (1 / 10 ^ 12) (worstFirst values) 0 (1 - alpha)).2) := by
    unfold weightedCvar
    rw [if_neg (not_le.mpr hpos),sub_zero]
    dsimp only
    rw [max_eq_left hconsumed]
  have hrest := h.rest_nonneg
  refine ⟨?_,fun bound hbound => ?_,?_⟩
  · obtain ⟨mean,hmean⟩ := exists_tailMean (worstFirst_sorted values) hmasses hpos henough
    refine ⟨mean,hmean.perm hperm,?_⟩
    obtain ⟨⟨total,htaken,rfl⟩,-⟩ := hmean
    rw [hcvar]
    exact h.mean htaken hsome (by linarith)
  · rw [hcvar,div_le_iff₀ hsome]
    exact h.taken.total_le fun e he => hbound e (hperm.mem_iff.mp he)
  · have hmean := h.mean (Taken.all hmasses) hsome (by rw [hall]; linarith)
    rw [hall,div_one,(hperm.map fun e : ℚ × ℚ => e.1 * e.2).sum_eq] at hmean
    rw [hcvar]
    exact hmean

/-! ## Regrets -/

section Regrets
variable {config : ScenarioRiskPlannerConfig} {belief : FrontierBelief}
  {baseline candidate : PackageScenarioEvaluation}

/-- The masses of the scenarios and the other mass are probabilities. -/
structure Probabilities (belief : FrontierBelief) : Prop where
  scenarios_nonneg : ∀ scenario ∈ belief.scenarios, 0 ≤ scenario.probabilityMass
  other_nonneg : 0 ≤ belief.otherProbabilityMass
  sum_eq_one : (belief.scenarios.map (·.probabilityMass)).sum + belief.otherProbabilityMass = 1

theorem regret_masses : (weightedRegrets config belief baseline candidate).map Prod.snd =
    belief.scenarios.map (·.probabilityMass) ++ [belief.otherProbabilityMass] := by
  unfold weightedRegrets outcomes
  simp

theorem cvar_sound (h : Probabilities belief) (htail : 2 / 10 ^ 12 ≤ 1 - config.cvarAlpha) :
    SoundTail (weightedRegrets config belief baseline candidate) (1 - config.cvarAlpha)
      (cvar config belief baseline candidate) := by
  refine weightedCvar_sound (fun e he => ?_) ?_ config.alpha_range.1 htail
  · have hmass := List.mem_map_of_mem (f := Prod.snd) he
    rw [regret_masses,List.mem_append,List.mem_map,List.mem_singleton] at hmass
    obtain ⟨scenario,hscenario,hmass⟩ | hmass := hmass
    · rw [← hmass]
      exact h.scenarios_nonneg scenario hscenario
    · rw [hmass]
      exact h.other_nonneg
  · rw [regret_masses,List.sum_append,List.sum_singleton]
    exact h.sum_eq_one

/-- The scenarios may be listed in any order. -/
theorem cvar_reordered {scenarios : List ScenarioMass} (h : scenarios.Perm belief.scenarios) :
    cvar config { belief with scenarios := scenarios } baseline candidate =
      cvar config belief baseline candidate := by
  have hregrets : (weightedRegrets config { belief with scenarios := scenarios } baseline candidate).Perm
      (weightedRegrets config belief baseline candidate) := by
    unfold weightedRegrets outcomes
    exact ((h.map _).append_right _).map _
  have htail : ¬ 1 - config.cvarAlpha ≤ 0 := not_le.mpr (sub_pos.mpr config.alpha_range.2)
  unfold cvar weightedCvar
  rw [if_neg htail,if_neg htail,worstFirst_eq hregrets]

theorem gates_open (h : (summarize config belief baseline candidate).eligible = true) :
    ∀ gate ∈ gates config belief baseline candidate, gate.1 = false := by
  have hnil : reasons config belief baseline candidate = [] := of_decide_eq_true h
  unfold reasons at hnil
  rw [List.map_eq_nil_iff,List.filter_eq_nil_iff] at hnil
  exact fun gate hgate => Bool.not_eq_true _ ▸ hnil gate hgate

theorem eligible_spec (h : (summarize config belief baseline candidate).eligible = true) :
    config.benefitMarginMs < expectedBenefit config belief baseline candidate ∧
      cvar config belief baseline candidate < config.riskBudgetMs := by
  have hopen := gates_open h
  constructor
  · have hgate : (decide (expectedBenefit config belief baseline candidate ≤ config.benefitMarginMs),
        "insufficient_expected_benefit") ∈ gates config belief baseline candidate := List.mem_of_getElem? (i := 6) rfl
    exact not_le.mp (of_decide_eq_false (hopen _ hgate))
  · have hgate : (decide (config.riskBudgetMs ≤ cvar config belief baseline candidate),"cvar_risk_budget") ∈
        gates config belief baseline candidate := List.mem_of_getElem? (i := 7) rfl
    exact not_le.mp (of_decide_eq_false (hopen _ hgate))

end Regrets

/-! ## The choice -/

section Choice
variable {config : ScenarioRiskPlannerConfig} {belief : FrontierBelief} {baseline : PackageScenarioEvaluation}

/-- The outcome of a search for a greater benefit: there is none, or the package with the greatest one is found, the
first of those that have it. -/
def Chosen (eligible : PackageScenarioEvaluation → Bool) (benefit : PackageScenarioEvaluation → ℚ)
    (candidates : List PackageScenarioEvaluation) (bestPackageId : String) (bestBenefit : ℚ) (selected : String) :
    Prop :=
  (selected = bestPackageId ∧ ∀ c ∈ candidates, eligible c = true → benefit c ≤ bestBenefit) ∨
    ∃ before c after, candidates = before ++ c :: after ∧ selected = c.packageId ∧ eligible c = true ∧
      bestBenefit < benefit c ∧ (∀ d ∈ before, eligible d = true → benefit d < benefit c) ∧
      ∀ d ∈ after, eligible d = true → benefit d ≤ benefit c

variable {eligible : PackageScenarioEvaluation → Bool} {benefit : PackageScenarioEvaluation → ℚ}
  {candidate : PackageScenarioEvaluation} {rest : List PackageScenarioEvaluation} {bestPackageId selected : String}
  {bestBenefit : ℚ}

/-- The first candidate is better than what there was. -/
theorem Chosen.better (heligible : eligible candidate = true) (hmore : bestBenefit < benefit candidate)
    (h : Chosen eligible benefit rest candidate.packageId (benefit candidate) selected) :
    Chosen eligible benefit (candidate :: rest) bestPackageId bestBenefit selected := by
  obtain ⟨hselected,hnone⟩ | ⟨before,c,after,rfl,hselected,hc,hbenefit,hbefore,hafter⟩ := h
  · refine .inr ⟨[],candidate,rest,rfl,hselected,heligible,hmore,fun d hd => absurd hd List.not_mem_nil,hnone⟩
  · refine .inr ⟨candidate :: before,c,after,rfl,hselected,hc,hmore.trans hbenefit,?_,hafter⟩
    exact List.forall_mem_cons.mpr ⟨fun _ => hbenefit,hbefore⟩

/-- The first candidate is no better. -/
theorem Chosen.worse (hno : eligible candidate = true → benefit candidate ≤ bestBenefit)
    (h : Chosen eligible benefit rest bestPackageId bestBenefit selected) :
    Chosen eligible benefit (candidate :: rest) bestPackageId bestBenefit selected := by
  obtain ⟨hselected,hnone⟩ | ⟨before,c,after,rfl,hselected,hc,hbenefit,hbefore,hafter⟩ := h
  · exact .inl ⟨hselected,List.forall_mem_cons.mpr ⟨hno,hnone⟩⟩
  · refine .inr ⟨candidate :: before,c,after,rfl,hselected,hc,hbenefit,?_,hafter⟩
    exact List.forall_mem_cons.mpr ⟨fun hd => (hno hd).trans_lt hbenefit,hbefore⟩

/-- Evaluations that the planner takes as candidates. -/
def Offered (belief : FrontierBelief) (candidate : PackageScenarioEvaluation) : Prop :=
  candidate.action ≠ .observedBaseline ∧ candidate.costsByScenario.keySet = scenarioIds belief

variable (config baseline) in
theorem selectFrom_spec (candidates : List PackageScenarioEvaluation)
    (hoffered : ∀ c ∈ candidates, Offered belief c) :
    ∀ bestPackageId bestBenefit summaries, ∃ selected,
      selectFrom config belief baseline candidates bestPackageId bestBenefit summaries =
        .ok (selected,summaries ++ candidates.map (summarize config belief baseline)) ∧
      Chosen (fun c => (summarize config belief baseline c).eligible) (expectedBenefit config belief baseline)
        candidates bestPackageId bestBenefit selected := by
  induction candidates with
  | nil =>
    intro bestPackageId bestBenefit summaries
    refine ⟨bestPackageId,?_,.inl ⟨rfl,fun c hc => absurd hc List.not_mem_nil⟩⟩
    rw [List.map_nil,List.append_nil]
    rfl
  | cons candidate rest ih =>
    intro bestPackageId bestBenefit summaries
    obtain ⟨hfirst,hrest⟩ := List.forall_mem_cons.mp hoffered
    have hstep : selectFrom config belief baseline (candidate :: rest) bestPackageId bestBenefit summaries =
        if (summarize config belief baseline candidate).eligible = true ∧
            bestBenefit < expectedBenefit config belief baseline candidate then
          selectFrom config belief baseline rest candidate.packageId
            (expectedBenefit config belief baseline candidate)
            (summaries ++ [summarize config belief baseline candidate])
        else selectFrom config belief baseline rest bestPackageId bestBenefit
          (summaries ++ [summarize config belief baseline candidate]) := by
      rw [selectFrom,validateScenarioCoverage,ensure_eq_ok (u := ()).mpr hfirst.1,ensure_eq_ok (u := ()).mpr hfirst.2]
      rfl
    have happend : summaries ++ (candidate :: rest).map (summarize config belief baseline) =
        summaries ++ [summarize config belief baseline candidate] ++ rest.map (summarize config belief baseline) :=
      List.append_cons _ _ _
    rw [hstep,happend]
    by_cases hbetter : (summarize config belief baseline candidate).eligible = true ∧
        bestBenefit < expectedBenefit config belief baseline candidate
    · obtain ⟨selected,hselected,hchosen⟩ := ih hrest candidate.packageId
        (expectedBenefit config belief baseline candidate) (summaries ++ [summarize config belief baseline candidate])
      rw [if_pos hbetter]
      exact ⟨selected,hselected,hchosen.better hbetter.1 hbetter.2⟩
    · obtain ⟨selected,hselected,hchosen⟩ := ih hrest bestPackageId bestBenefit
        (summaries ++ [summarize config belief baseline candidate])
      rw [if_neg hbetter]
      refine ⟨selected,hselected,hchosen.worse fun heligible => ?_⟩
      exact not_lt.mp fun hmore => hbetter ⟨heligible,hmore⟩

/-- A package that passes all gates has a benefit above the margin, and a tail below the budget. -/
structure Passing (config : ScenarioRiskPlannerConfig) (belief : FrontierBelief)
    (baseline c : PackageScenarioEvaluation) : Prop where
  eligible : (summarize config belief baseline c).eligible = true
  benefit : config.benefitMarginMs < expectedBenefit config belief baseline c
  tail : ∃ mean, TailMean (weightedRegrets config belief baseline c) (1 - config.cvarAlpha) mean ∧
    mean < config.riskBudgetMs

theorem passing_of_eligible (h : Probabilities belief) (htail : 2 / 10 ^ 12 ≤ 1 - config.cvarAlpha)
    (heligible : (summarize config belief baseline candidate).eligible = true) :
    Passing config belief baseline candidate := by
  obtain ⟨hbenefit,hcvar⟩ := eligible_spec heligible
  obtain ⟨mean,hmean,hle⟩ := (cvar_sound h htail).mean
  exact ⟨heligible,hbenefit,mean,hmean,hle.trans_lt hcvar⟩

/-- The tail is never understated, whatever the order of the scenarios; and the baseline is selected exactly if no
candidate passes all gates, else the first one of the greatest expected benefit among those that do. -/
theorem risk_selection (config : ScenarioRiskPlannerConfig) (belief : FrontierBelief)
    (baseline : PackageScenarioEvaluation) (candidates : List PackageScenarioEvaluation) (h : Probabilities belief)
    (htail : 2 / 10 ^ 12 ≤ 1 - config.cvarAlpha) (hbaseline : baseline.action = .observedBaseline)
    (hcovered : baseline.costsByScenario.keySet = scenarioIds belief)
    (hoffered : ∀ c ∈ candidates, Offered belief c) :
    (∀ c : PackageScenarioEvaluation,
      SoundTail (weightedRegrets config belief baseline c) (1 - config.cvarAlpha)
        (summarize config belief baseline c).cvarRegretMs ∧
      ∀ scenarios, scenarios.Perm belief.scenarios →
        (summarize config { belief with scenarios := scenarios } baseline c).cvarRegretMs =
          (summarize config belief baseline c).cvarRegretMs) ∧
    ∃ decision, select config belief baseline candidates = .ok decision ∧
      decision.baselinePackageId = baseline.packageId ∧
      decision.summaries = candidates.map (summarize config belief baseline) ∧
      ((∀ c ∈ candidates, (summarize config belief baseline c).eligible = false) ∧
          decision.selectedPackageId = baseline.packageId ∨
        ∃ before c after, candidates = before ++ c :: after ∧ decision.selectedPackageId = c.packageId ∧
          Passing config belief baseline c ∧
          (∀ d ∈ before, (summarize config belief baseline d).eligible = true →
            expectedBenefit config belief baseline d < expectedBenefit config belief baseline c) ∧
          ∀ d ∈ after, (summarize config belief baseline d).eligible = true →
            expectedBenefit config belief baseline d ≤ expectedBenefit config belief baseline c) := by
  refine ⟨fun c => ⟨cvar_sound h htail,fun scenarios hperm => cvar_reordered hperm⟩,?_⟩
  obtain ⟨selected,hselected,hchosen⟩ := selectFrom_spec config baseline candidates hoffered baseline.packageId 0 []
  refine ⟨⟨selected,baseline.packageId,candidates.map (summarize config belief baseline)⟩,?_,rfl,rfl,?_⟩
  · unfold select
    rw [ensure_eq_ok (u := ()).mpr hbaseline,validateScenarioCoverage,ensure_eq_ok (u := ()).mpr hcovered,hselected]
    rfl
  · obtain ⟨hbase,hnone⟩ | ⟨before,c,after,hcandidates,hc,heligible,-,hbefore,hafter⟩ := hchosen
    · refine .inl ⟨fun c hc => ?_,hbase⟩
      by_contra hpasses
      have heligible := Bool.eq_true_of_not_eq_false hpasses
      have hmargin := (eligible_spec heligible).1
      exact absurd (config.margin_nonneg.trans_lt hmargin) (not_lt.mpr (hnone c hc heligible))
    · exact .inr ⟨before,c,after,hcandidates,hc,passing_of_eligible h htail heligible,hbefore,hafter⟩

def plainConfig : ScenarioRiskPlannerConfig where
  benefitMarginMs := 1 / 2
  riskBudgetMs := 9
  margin_nonneg := by norm_num
  budget_nonneg := by norm_num
  alpha_range := by norm_num

/-- Two scenarios, in each of which a package may cost something. -/
def evenBelief : FrontierBelief := ⟨[⟨"s",1 / 2⟩,⟨"t",1 / 4⟩],1 / 4,true⟩

def evaluationOf (packageId : String) (action : PredictiveActionKind) (costS costT : ℚ) :
    PackageScenarioEvaluation where
  packageId := packageId
  action := action
  costsByScenario := (Std.ExtTreeMap.empty.insert "s" ⟨costS,0,0,0,0,0,0,0,0,true,true,true,true⟩).insert "t"
    ⟨costT,0,0,0,0,0,0,0,0,true,true,true,true⟩
  otherCost := ⟨0,0,0,0,0,0,0,0,0,true,true,true,true⟩

/-- A package that saves much in one scenario and costs little in the other. -/
theorem evenBelief_selection :
    (Probabilities evenBelief ∧ 2 / 10 ^ 12 ≤ 1 - plainConfig.cvarAlpha) ∧
    (∃ decision, select plainConfig evenBelief (evaluationOf "base" .observedBaseline 20 0)
      [evaluationOf "fetch" .prefetchGpu 0 4] = .ok decision ∧ decision.baselinePackageId = "base") ∧
    SoundTail (weightedRegrets plainConfig evenBelief (evaluationOf "base" .observedBaseline 20 0)
      (evaluationOf "fetch" .prefetchGpu 0 4)) (1 - plainConfig.cvarAlpha) 4 := by
  have hbelief : Probabilities evenBelief := ⟨by decide +kernel,by decide +kernel,by decide +kernel⟩
  have htail : 2 / 10 ^ 12 ≤ 1 - plainConfig.cvarAlpha := by decide +kernel
  obtain ⟨hsound,decision,hselect,hbase,-⟩ := risk_selection plainConfig evenBelief
    (evaluationOf "base" .observedBaseline 20 0) [evaluationOf "fetch" .prefetchGpu 0 4] hbelief htail rfl
    (by decide +kernel) (by
      intro c hc
      rw [List.mem_singleton] at hc
      subst hc
      exact ⟨by decide,by decide +kernel⟩)
  have hfour : (summarize plainConfig evenBelief (evaluationOf "base" .observedBaseline 20 0)
      (evaluationOf "fetch" .prefetchGpu 0 4)).cvarRegretMs = 4 := by decide +kernel
  have hfetch := (hsound (evaluationOf "fetch" .prefetchGpu 0 4)).1
  rw [hfour] at hfetch
  exact ⟨⟨hbelief,htail⟩,⟨decision,hselect,hbase⟩,hfetch⟩

end Choice
end ScenarioRiskPlanner
end BeliefKV
