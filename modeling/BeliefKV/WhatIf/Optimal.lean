import BeliefKV.WhatIf.Agreement
import BeliefKV.Lib.Least

/-! The search for victims finds the least key of all assignments of actions to the candidates. -/
namespace BeliefKV
open Least

/-! ## Assignments -/

/-- Each candidate is left, copied to the host or, where that may be, dropped. -/
inductive Assigns (drops : Bool) : List PhysicalBundleSnapshot → List (PhysicalBundleSnapshot × ResidencyAction) → Prop
  | nil : Assigns drops [] []
  | leave {b rest actions} : Assigns drops rest actions → Assigns drops (b :: rest) actions
  | commit {b rest actions} : Assigns drops rest actions → Assigns drops (b :: rest) ((b,.commitCpu) :: actions)
  | drop {b rest actions} : drops = true → Assigns drops rest actions → Assigns drops (b :: rest) ((b,.drop) :: actions)

theorem Assigns.subset {drops : Bool} {candidates : List PhysicalBundleSnapshot}
    {actions : List (PhysicalBundleSnapshot × ResidencyAction)} (h : Assigns drops candidates actions) :
    ∀ a ∈ actions, a.1 ∈ candidates := by
  induction h with
  | nil => exact fun a ha => absurd ha List.not_mem_nil
  | leave _ ih => exact fun a ha => List.mem_cons_of_mem _ (ih a ha)
  | commit _ ih =>
    intro a ha
    obtain rfl | ha := List.mem_cons.mp ha
    · exact List.mem_cons_self
    · exact List.mem_cons_of_mem _ (ih a ha)
  | drop _ _ ih =>
    intro a ha
    obtain rfl | ha := List.mem_cons.mp ha
    · exact List.mem_cons_self
    · exact List.mem_cons_of_mem _ (ih a ha)

/-- To do nothing is an assignment. -/
theorem Assigns.none {drops : Bool} (candidates : List PhysicalBundleSnapshot) : Assigns drops candidates [] := by
  induction candidates with
  | nil => exact .nil
  | cons b candidates ih => exact .leave ih

section Optimal
variable {config : WhatIfPackerConfig} {input : PolicyInput} {shortage : ℕ}

/-- One action with exact arithmetic. -/
def VictimChoice.act (config : WhatIfPackerConfig) (choice : VictimChoice) (a : PhysicalBundleSnapshot × ResidencyAction) :
    VictimChoice :=
  if a.2 = .drop then choice.dropping a.1 (recomputeTokensOf id config a.1) else choice.commit a.1

/-- What some actions come to. -/
def outcome (config : WhatIfPackerConfig) (choice : VictimChoice)
    (actions : List (PhysicalBundleSnapshot × ResidencyAction)) : VictimChoice :=
  actions.foldl (VictimChoice.act config) choice

/-- The exact key. -/
def exactKey (config : WhatIfPackerConfig) (input : PolicyInput) (shortage : ℕ) (choice : VictimChoice) : VictimKey :=
  victimKey id config input shortage choice

/-- Rates are costs. -/
structure Costs (config : WhatIfPackerConfig) (input : PolicyInput) : Prop where
  stall : 0 ≤ input.resources.unhiddenStallPerByte
  recompute : 0 ≤ config.recomputeMsPerToken

/-! ## Keys -/

theorem toLex_lt_of_le {A B : Type} [PartialOrder A] [Preorder B] {a a' : A} {b b' : B} (ha : a ≤ a') (hb : b < b') :
    toLex (a,b) < toLex (a',b') :=
  Prod.Lex.toLex_lt_toLex.mpr (ha.lt_or_eq.imp_right fun heq => ⟨heq,hb⟩)

/-- An action that reclaims more than is needed makes a choice worse. -/
theorem exactKey_act (hcosts : Costs config input) {choice : VictimChoice} (henough : shortage ≤ choice.reclaimedBytes)
    {a : PhysicalBundleSnapshot × ResidencyAction} (ha : 0 < a.1.marginalReclaimableBytes) :
    exactKey config input shortage choice < exactKey config input shortage (choice.act config a) := by
  obtain ⟨hstall,hrecompute⟩ := hcosts
  have hexcess : (choice.act config a).reclaimedBytes = choice.reclaimedBytes + a.1.marginalReclaimableBytes := by
    unfold VictimChoice.act
    split_ifs
    · rfl
    · rfl
  have htokens : choice.recomputeTokens ≤ (choice.act config a).recomputeTokens := by
    unfold VictimChoice.act
    split_ifs
    · exact Nat.le_add_right _ _
    · exact le_rfl
  have hd2h : choice.d2hBytes ≤ (choice.act config a).d2hBytes := by
    unfold VictimChoice.act
    split_ifs
    · exact le_rfl
    · exact Nat.le_add_right _ _
  refine toLex_lt_of_le ?_ (toLex_lt_of_le htokens (toLex_lt_of_le hd2h (Prod.Lex.toLex_lt_toLex.mpr (.inl ?_))))
  · change (choice.d2hBytes : ℚ) * _ + (choice.recomputeTokens : ℚ) * _ ≤
      ((choice.act config a).d2hBytes : ℚ) * _ + ((choice.act config a).recomputeTokens : ℚ) * _
    have hd : (choice.d2hBytes : ℚ) ≤ (choice.act config a).d2hBytes := by exact_mod_cast hd2h
    have ht : (choice.recomputeTokens : ℚ) ≤ (choice.act config a).recomputeTokens := by exact_mod_cast htokens
    exact add_le_add (mul_le_mul_of_nonneg_right hd hstall) (mul_le_mul_of_nonneg_right ht hrecompute)
  · change choice.reclaimedBytes - shortage < (choice.act config a).reclaimedBytes - shortage
    omega

variable (config) in
theorem reclaimed_outcome_le (choice : VictimChoice) (actions : List (PhysicalBundleSnapshot × ResidencyAction)) :
    choice.reclaimedBytes ≤ (outcome config choice actions).reclaimedBytes ∧
      choice.d2hBytes ≤ (outcome config choice actions).d2hBytes := by
  induction actions generalizing choice with
  | nil => exact ⟨le_rfl,le_rfl⟩
  | cons a actions ih =>
    obtain ⟨hreclaimed,hd2h⟩ := ih (choice.act config a)
    refine ⟨le_trans ?_ hreclaimed,le_trans ?_ hd2h⟩
    · unfold VictimChoice.act
      split_ifs
      · exact Nat.le_add_right _ _
      · exact Nat.le_add_right _ _
    · unfold VictimChoice.act
      split_ifs
      · exact le_rfl
      · exact Nat.le_add_right _ _

/-- Enough is never improved on by more actions. -/
theorem exactKey_outcome (hcosts : Costs config input) {actions : List (PhysicalBundleSnapshot × ResidencyAction)} :
    ∀ {choice : VictimChoice}, shortage ≤ choice.reclaimedBytes → (∀ a ∈ actions, 0 < a.1.marginalReclaimableBytes) →
      exactKey config input shortage choice ≤ exactKey config input shortage (outcome config choice actions) := by
  induction actions with
  | nil => exact fun _ _ => le_rfl
  | cons a actions ih =>
    intro choice henough hpos
    have hact := exactKey_act hcosts henough (hpos a List.mem_cons_self)
    have hmore := (reclaimed_outcome_le config choice [a]).1
    exact hact.le.trans (ih (henough.trans hmore) fun b hb => hpos b (List.mem_cons_of_mem a hb))

/-! ## The search -/

/-- The outcomes that reclaim enough, of the assignments whose copies the host has room for. -/
def Covers (drops : Bool) (config : WhatIfPackerConfig) (input : PolicyInput) (shortage : ℕ)
    (rest : List PhysicalBundleSnapshot) (choice d : VictimChoice) : Prop :=
  ∃ actions, Assigns drops rest actions ∧ d = outcome config choice actions ∧ shortage ≤ d.reclaimedBytes ∧
    d.d2hBytes ≤ input.resources.hostFreeBytes

/-- The first candidate is left, copied or dropped. -/
theorem covers_cons {drops : Bool} {b : PhysicalBundleSnapshot} {rest : List PhysicalBundleSnapshot}
    {choice d : VictimChoice} : Covers drops config input shortage (b :: rest) choice d ↔
      (Covers drops config input shortage rest choice d ∨ Covers drops config input shortage rest (choice.commit b) d) ∨
        drops = true ∧ Covers drops config input shortage rest (choice.dropping b (recomputeTokensOf id config b)) d := by
  constructor
  · rintro ⟨actions,hactions,rfl,hcover⟩
    cases hactions with
    | leave h => exact .inl (.inl ⟨_,h,rfl,hcover⟩)
    | commit h => exact .inl (.inr ⟨_,h,rfl,hcover⟩)
    | drop hdrops h => exact .inr ⟨hdrops,_,h,rfl,hcover⟩
  · rintro ((⟨actions,h,rfl,hcover⟩ | ⟨actions,h,rfl,hcover⟩) | ⟨hdrops,actions,h,rfl,hcover⟩)
    · exact ⟨actions,.leave h,rfl,hcover⟩
    · exact ⟨_,.commit h,rfl,hcover⟩
    · exact ⟨_,.drop hdrops h,rfl,hcover⟩

theorem offer_searched (choice : VictimChoice) (best : Option VictimChoice) :
    Searched (exactKey config input shortage) (· = choice) best (offer id config input shortage choice best) := by
  cases best with
  | none =>
    refine ⟨nofun,fun d hd => ⟨choice,rfl,hd ▸ le_rfl⟩,fun c hc => .inr ?_⟩
    cases hc
    rfl
  | some old =>
    simp only [offer]
    by_cases hlt : victimKey id config input shortage choice < victimKey id config input shortage old
    · rw [if_pos hlt]
      refine ⟨fun b hb => ⟨choice,rfl,?_⟩,fun d hd => ⟨choice,rfl,hd ▸ le_rfl⟩,fun c hc => .inr ?_⟩
      · cases hb
        exact hlt.le
      · cases hc
        rfl
    · rw [if_neg hlt]
      refine ⟨fun b hb => ⟨b,hb,le_rfl⟩,fun d hd => ⟨old,rfl,hd ▸ not_lt.mp hlt⟩,fun c hc => .inl hc⟩

/-- When enough is reclaimed, to stop is best. -/
theorem searched_enough (hcosts : Costs config input) {rest : List PhysicalBundleSnapshot} {choice : VictimChoice}
    (best : Option VictimChoice) (hpos : ∀ b ∈ rest, 0 < b.marginalReclaimableBytes)
    (henough : shortage ≤ choice.reclaimedBytes) (hhost : choice.d2hBytes ≤ input.resources.hostFreeBytes) :
    Searched (exactKey config input shortage) (Covers config.allowRecompute config input shortage rest choice) best
      (offer id config input shortage choice best) := by
  refine (offer_searched choice best).widen ?_ ?_
  · rintro c rfl
    exact ⟨[],.none rest,rfl,henough,hhost⟩
  · rintro d ⟨actions,hactions,rfl,-,-⟩
    exact ⟨choice,rfl,exactKey_outcome hcosts henough fun a ha => hpos a.1 (hactions.subset a ha)⟩

theorem visitVictims_searched (hcosts : Costs config input) {rest : List PhysicalBundleSnapshot} :
    ∀ (choice : VictimChoice) (best : Option VictimChoice), (∀ b ∈ rest, 0 < b.marginalReclaimableBytes) →
      choice.d2hBytes ≤ input.resources.hostFreeBytes →
      Searched (exactKey config input shortage) (Covers config.allowRecompute config input shortage rest choice) best
        (visitVictims id config input shortage rest choice choice.d2hBytes best) := by
  induction rest with
  | nil =>
    intro choice best hpos hhost
    rw [visitVictims]
    by_cases hshort : choice.reclaimedBytes < shortage
    · rw [if_pos hshort]
      refine (Searched.refl _ best).congr fun c => ⟨False.elim,?_⟩
      rintro ⟨actions,hactions,rfl,henough,-⟩
      cases hactions
      exact not_le.mpr hshort henough
    · rw [if_neg hshort]
      exact searched_enough hcosts best hpos (not_lt.mp hshort) hhost
  | cons b rest ih =>
    intro choice best hpos hhost
    rw [visitVictims]
    by_cases henough : shortage ≤ choice.reclaimedBytes
    · rw [if_pos henough]
      exact searched_enough hcosts best hpos henough hhost
    rw [if_neg henough]
    have hrest := fun d hd => hpos d (List.mem_cons_of_mem b hd)
    have hleave := ih choice best hrest hhost
    have hcopy : Searched (exactKey config input shortage)
        (Covers config.allowRecompute config input shortage rest (choice.commit b))
        (visitVictims id config input shortage rest choice choice.d2hBytes best)
        (if choice.d2hBytes + b.hostNeeded ≤ input.resources.hostFreeBytes then
          visitVictims id config input shortage rest (choice.commit b) (choice.d2hBytes + b.hostNeeded)
            (visitVictims id config input shortage rest choice choice.d2hBytes best)
        else visitVictims id config input shortage rest choice choice.d2hBytes best) := by
      by_cases hroom : choice.d2hBytes + b.hostNeeded ≤ input.resources.hostFreeBytes
      · rw [if_pos hroom]
        exact ih (choice.commit b) _ hrest hroom
      · rw [if_neg hroom]
        refine (Searched.refl _ _).congr fun c => ⟨False.elim,?_⟩
        rintro ⟨actions,-,rfl,-,hfits⟩
        exact hroom ((reclaimed_outcome_le config (choice.commit b) actions).2.trans hfits)
    have hboth := hleave.trans hcopy
    by_cases hdrops : config.allowRecompute = true
    · simp only [hdrops,if_true] at hboth ⊢
      have hdrop := ih (choice.dropping b (recomputeTokensOf id config b))
        (if choice.d2hBytes + b.hostNeeded ≤ input.resources.hostFreeBytes then
          visitVictims id config input shortage rest (choice.commit b) (choice.d2hBytes + b.hostNeeded)
            (visitVictims id config input shortage rest choice choice.d2hBytes best)
        else visitVictims id config input shortage rest choice choice.d2hBytes best) hrest hhost
      rw [hdrops] at hdrop
      refine (hboth.trans hdrop).congr fun c => ?_
      rw [covers_cons,and_iff_right rfl]
    · simp only [hdrops] at hboth ⊢
      refine hboth.congr fun c => ?_
      rw [covers_cons]
      simp

/-- The choice is empty iff no assignment covers the shortage, and else it has the least key of those
that do. -/
theorem chooseVictims_least (hcosts : Costs config input) {candidates : List PhysicalBundleSnapshot}
    (hpos : ∀ b ∈ candidates, 0 < b.marginalReclaimableBytes) (hshort : 0 < shortage) :
    (chooseVictims id config input candidates shortage = {} ↔
      ¬ ∃ d, Covers config.allowRecompute config input shortage candidates {} d) ∧
    (chooseVictims id config input candidates shortage ≠ {} →
      Covers config.allowRecompute config input shortage candidates {} (chooseVictims id config input candidates shortage) ∧
        ∀ d, Covers config.allowRecompute config input shortage candidates {} d →
          exactKey config input shortage (chooseVictims id config input candidates shortage) ≤
            exactKey config input shortage d) := by
  have hsearch : Searched (exactKey config input shortage)
      (Covers config.allowRecompute config input shortage candidates {}) none
      (visitVictims id config input shortage candidates {} 0 none) :=
    visitVictims_searched hcosts {} none hpos (Nat.zero_le _)
  unfold chooseVictims
  cases hfound : visitVictims id config input shortage candidates {} 0 none with
  | none =>
    rw [hfound] at hsearch
    have hnothing := hsearch.eq_none_iff.mp rfl
    exact ⟨⟨fun _ hd => hd.elim hnothing,fun _ => rfl⟩,fun hne => absurd rfl hne⟩
  | some c =>
    rw [hfound] at hsearch
    obtain ⟨hcovers,hleast⟩ := hsearch.spec
    simp only [Option.getD_some]
    refine ⟨⟨fun heq => ?_,fun hnone => absurd ⟨c,hcovers⟩ hnone⟩,fun _ => ⟨hcovers,hleast⟩⟩
    -- an empty choice reclaims nothing
    obtain ⟨-,-,-,henough,-⟩ := hcovers
    rw [heq] at henough
    exact absurd henough (not_le.mpr hshort)

/-! ## Scenarios -/

/-- A bundle that has no copy on the host. -/
def bulkyBundle : PhysicalBundleSnapshot where
  bundleId := "bulky bundle"
  ownerContextIds := ["bulky context"]
  scope := "exclusive_suffix"
  physicalUniqueBytes := 2048
  gpuBytes := 2048
  cpuBytes := 24
  marginalReclaimableBytes := 2012
  lockedBytes := 36
  residency := "resident"
  generationFingerprint := "generation"
  lastAccessMs := 0
  extentIds := ["bulky extent"]
  leaseKind := "dead"
  actionable := true
  blockerCodes := []
  named := by decide
  owners_unique := by decide
  gpu_le := by decide
  cpu_le := by decide
  marginal_le := by decide
  locked_le := by decide
  extents_unique := by decide

theorem loneInput_costs (config : WhatIfPackerConfig) (hrecompute : 0 ≤ config.recomputeMsPerToken) :
    Costs config (loneInput 200 le_rfl) :=
  ⟨le_rfl,hrecompute⟩

/-- A bundle with a copy on the host. -/
def copiedBundle : PhysicalBundleSnapshot :=
  { bulkyBundle with
    bundleId := "copied bundle"
    cpuBytes := 2048
    marginalReclaimableBytes := 500
    named := by decide
    cpu_le := by decide
    marginal_le := by decide }

/-- The bulky bundle, for which the host has no room, is dropped. The copied one gives up the rest without a transfer, so
that the idle one stays. -/
theorem bulkyBundle_dropped :
    (chooseVictims id {} (loneInput 200 le_rfl) [copiedBundle,bulkyBundle,idleBundle] 2500).actions.map
      (fun a => (a.1.bundleId,a.2)) = [("copied bundle",.commitCpu),("bulky bundle",.drop)] ∧
    ∀ d, Covers true {} (loneInput 200 le_rfl) 2500 [copiedBundle,bulkyBundle,idleBundle] {} d →
      exactKey {} (loneInput 200 le_rfl) 2500
          (chooseVictims id {} (loneInput 200 le_rfl) [copiedBundle,bulkyBundle,idleBundle] 2500) ≤
        exactKey {} (loneInput 200 le_rfl) 2500 d := by
  have hpos : ∀ b ∈ [copiedBundle,bulkyBundle,idleBundle], 0 < b.marginalReclaimableBytes := by decide
  have hleast := chooseVictims_least (loneInput_costs {} (by norm_num)) hpos (Nat.zero_lt_succ 2499)
  have hfound : (chooseVictims id {} (loneInput 200 le_rfl) [copiedBundle,bulkyBundle,idleBundle] 2500).actions.map
      (fun a => (a.1.bundleId,a.2)) = [("copied bundle",.commitCpu),("bulky bundle",.drop)] := by decide +kernel
  refine ⟨hfound,(hleast.2 fun hnone => ?_).2⟩
  rw [hnone] at hfound
  cases hfound

/-- Where recomputation is off, to drop is no option. -/
theorem bulkyBundle_kept :
    Costs { allowRecompute := false } (loneInput 200 le_rfl) ∧ (∀ b ∈ [bulkyBundle], 0 < b.marginalReclaimableBytes) ∧
    chooseVictims id { allowRecompute := false } (loneInput 200 le_rfl) [bulkyBundle] 7 = {} ∧
    ∃ d, Covers true { allowRecompute := false } (loneInput 200 le_rfl) 7 [bulkyBundle] {} d := by
  refine ⟨loneInput_costs _ (by norm_num),by decide,?_,?_⟩
  · have hnothing : visitVictims id { allowRecompute := false } (loneInput 200 le_rfl) 7 [bulkyBundle] {} 0 none =
      none := rfl
    unfold chooseVictims
    rw [hnothing]
    rfl
  · exact ⟨_,[(bulkyBundle,.drop)],.drop rfl .nil,rfl,by decide +kernel,by decide +kernel⟩

end Optimal
end BeliefKV
