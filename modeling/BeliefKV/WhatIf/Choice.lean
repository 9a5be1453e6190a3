import BeliefKV.WhatIf.Packer

/-! What a feasible plan does: it restores what the scenario requires and takes victims among the
other bundles. -/
namespace BeliefKV

/-! ## Bundles by id -/

section Bundles
variable {input : PolicyInput}

theorem bundle?_eq_some {id : String} {b : PhysicalBundleSnapshot} :
    input.bundle? id = some b ↔ b ∈ input.bundles ∧ b.bundleId = id := by
  unfold PolicyInput.bundle?
  constructor
  · intro h
    exact ⟨List.mem_of_find?_eq_some h,by simpa using List.find?_some h⟩
  · rintro ⟨hb,rfl⟩
    cases hfind : input.bundles.find? (·.bundleId = b.bundleId) with
    | none =>
      have hnone := List.find?_eq_none.mp hfind b hb
      simp at hnone
    | some c =>
      have hc := List.mem_of_find?_eq_some hfind
      have hid : c.bundleId = b.bundleId := by simpa using List.find?_some hfind
      rw [List.inj_on_of_nodup_map input.bundles_unique hc hb hid]

theorem requiredBundles_ids (ids : List String) :
    ((ids.filterMap input.bundle?).map (·.bundleId)).Sublist ids := by
  induction ids with
  | nil => exact List.Sublist.refl _
  | cons id ids ih =>
    cases hb : input.bundle? id with
    | none =>
      rw [List.filterMap_cons_none hb]
      exact ih.cons _
    | some b =>
      rw [List.filterMap_cons_some hb,List.map_cons,(bundle?_eq_some.mp hb).2]
      exact ih.cons_cons _

end Bundles

/-! ## Victims -/

/-- A choice among candidates, with the totals of its actions. -/
structure Chosen (candidates : List PhysicalBundleSnapshot) (hostFree : ℕ) (c : VictimChoice) : Prop where
  bundles : (c.actions.map Prod.fst).Sublist candidates
  acts : ∀ a ∈ c.actions, a.2 = .commitCpu ∨ a.2 = .drop
  reclaimed : c.reclaimedBytes = (c.actions.map (·.1.marginalReclaimableBytes)).sum
  d2h : c.d2hBytes = ((c.actions.filter (·.2 = .commitCpu)).map (·.1.hostNeeded)).sum
  host : c.d2hBytes ≤ hostFree

namespace Chosen
variable {pre rest : List PhysicalBundleSnapshot} {hostFree : ℕ} {c : VictimChoice}
  {b : PhysicalBundleSnapshot}

theorem nothing : Chosen pre hostFree {} where
  bundles := List.nil_sublist _
  acts a ha := by simp at ha
  reclaimed := rfl
  d2h := rfl
  host := Nat.zero_le _

theorem mono (h : Chosen pre hostFree c) (rest : List PhysicalBundleSnapshot) :
    Chosen (pre ++ rest) hostFree c where
  bundles := h.bundles.trans (List.sublist_append_left _ _)
  acts := h.acts
  reclaimed := h.reclaimed
  d2h := h.d2h
  host := h.host

theorem commit (h : Chosen pre hostFree c) (hhost : c.d2hBytes + b.hostNeeded ≤ hostFree) :
    Chosen (pre ++ [b]) hostFree (c.commit b) where
  bundles := by
    rw [VictimChoice.commit,List.map_append]
    exact h.bundles.append (List.Sublist.refl _)
  acts a ha := by
    rcases List.mem_append.mp ha with ha | ha
    · exact h.acts a ha
    · rw [List.mem_singleton.mp ha]
      exact .inl rfl
  reclaimed := by simp [VictimChoice.commit,h.reclaimed]
  d2h := by simp [VictimChoice.commit,h.d2h]
  host := hhost

theorem dropping (h : Chosen pre hostFree c) (tokens : ℕ) :
    Chosen (pre ++ [b]) hostFree (c.dropping b tokens) where
  bundles := by
    rw [VictimChoice.dropping,List.map_append]
    exact h.bundles.append (List.Sublist.refl _)
  acts a ha := by
    rcases List.mem_append.mp ha with ha | ha
    · exact h.acts a ha
    · rw [List.mem_singleton.mp ha]
      exact .inr rfl
  reclaimed := by simp [VictimChoice.dropping,h.reclaimed]
  d2h := by simp [VictimChoice.dropping,h.d2h]
  host := h.host

end Chosen

section Victims
variable {fl : ℚ → ℚ} {config : WhatIfPackerConfig} {input : PolicyInput} {demand : ScenarioDemand}

/-- What holds of the choice and of the best one holds of what is kept. -/
theorem offer_of {P : VictimChoice → Prop} {shortage : ℕ} {choice : VictimChoice}
    {best : Option VictimChoice} (hchoice : P choice) (hbest : ∀ c, best = some c → P c) :
    ∀ c, offer fl config input shortage choice best = some c → P c := by
  intro c hc
  cases best with
  | none =>
    cases hc
    exact hchoice
  | some old =>
    simp only [offer] at hc
    split_ifs at hc with hlt
    · cases hc
      exact hchoice
    · cases hc
      exact hbest _ rfl

/-- Every choice that is tried has the totals of its actions. -/
theorem visitVictims_chosen {shortage : ℕ} {rest : List PhysicalBundleSnapshot} :
    ∀ {pre : List PhysicalBundleSnapshot} {choice : VictimChoice} {best : Option VictimChoice},
      Chosen pre input.resources.hostFreeBytes choice →
      (∀ c, best = some c → Chosen (pre ++ rest) input.resources.hostFreeBytes c) →
      ∀ c, visitVictims fl config input shortage rest choice choice.d2hBytes best = some c →
        Chosen (pre ++ rest) input.resources.hostFreeBytes c := by
  induction rest with
  | nil =>
    intro pre choice best hchoice hbest c hc
    rw [visitVictims] at hc
    split_ifs at hc with hshort
    · exact hbest c hc
    · exact offer_of (hchoice.mono []) hbest c hc
  | cons b rest ih =>
    intro pre choice best hchoice hbest
    have hsplit : pre ++ b :: rest = (pre ++ [b]) ++ rest := by simp
    rw [hsplit] at hbest ⊢
    rw [visitVictims]
    by_cases henough : shortage ≤ choice.reclaimedBytes
    · rw [if_pos henough]
      exact offer_of ((hchoice.mono [b]).mono rest) hbest
    rw [if_neg henough]
    -- The candidate is left, then copied if the host has room, then dropped.
    have hleave := ih (hchoice.mono [b]) hbest
    have hcopy : ∀ c, (if choice.d2hBytes + b.hostNeeded ≤ input.resources.hostFreeBytes then
        visitVictims fl config input shortage rest (choice.commit b) (choice.d2hBytes + b.hostNeeded)
          (visitVictims fl config input shortage rest choice choice.d2hBytes best)
        else visitVictims fl config input shortage rest choice choice.d2hBytes best) = some c →
        Chosen ((pre ++ [b]) ++ rest) input.resources.hostFreeBytes c := by
      split_ifs with hhost
      · exact ih (hchoice.commit hhost) hleave
      · exact hleave
    intro c hc
    by_cases hdrop : config.allowRecompute = true
    · simp only [hdrop,if_true] at hc
      exact ih (hchoice.dropping _) hcopy c hc
    · simp only [hdrop] at hc
      exact hcopy c hc

variable (fl config input) in
theorem chooseVictims_chosen (candidates : List PhysicalBundleSnapshot) (shortage : ℕ) :
    Chosen candidates input.resources.hostFreeBytes (chooseVictims fl config input candidates shortage) := by
  unfold chooseVictims
  cases hvisit : visitVictims fl config input shortage candidates {} 0 none with
  | none => exact Chosen.nothing
  | some c =>
    have hchosen : Chosen ([] ++ candidates) input.resources.hostFreeBytes c :=
      visitVictims_chosen Chosen.nothing (fun c hc => by cases hc) c hvisit
    exact hchosen

/-- The candidates are optional bundles that may be acted on. -/
theorem mem_victimCandidates {shortage : ℕ} {b : PhysicalBundleSnapshot}
    (h : b ∈ victimCandidates fl config input demand shortage) :
    b ∈ input.bundles ∧ b.actionable = true ∧ b.bundleId ∈ demand.optionalGpuBundles := by
  have hsorted := List.mem_mergeSort.mp (List.mem_of_mem_take h)
  obtain ⟨hvictim,hopt⟩ := List.mem_filter.mp hsorted
  obtain ⟨hmem,hfree⟩ := List.mem_filter.mp hvictim
  simp only [Bool.and_eq_true,decide_eq_true_eq] at hfree hopt
  exact ⟨hmem,hfree.1.1.2,hopt.1⟩

theorem nodup_victimCandidates (shortage : ℕ) :
    ((victimCandidates fl config input demand shortage).map (·.bundleId)).Nodup := by
  have hfiltered : ((input.potentialVictims.filter fun b => b.bundleId ∈ demand.optionalGpuBundles &&
      !(spared fl config input demand.transition b)).map (·.bundleId)).Nodup :=
    input.bundles_unique.sublist ((List.filter_sublist.trans List.filter_sublist).map _)
  exact ((((List.mergeSort_perm _ _).map _).nodup_iff.mpr hfiltered).sublist
    ((List.take_sublist _ _).map _))

end Victims

/-! ## The plan -/

/-- What a feasible plan is made of. -/
structure Packed (input : PolicyInput) (demand : ScenarioDemand) (choice : VictimChoice) : Prop where
  chosen : Chosen (choice.actions.map Prod.fst) input.resources.hostFreeBytes choice
  victims : ∀ a ∈ choice.actions, a.1 ∈ input.bundles ∧ a.1.actionable = true ∧
    a.1.bundleId ∈ demand.optionalGpuBundles
  nodup : (choice.actions.map (·.1.bundleId)).Nodup
  restorable : ∀ b ∈ requiredBundles input demand, b.missingBytes ≠ 0 → b.actionable = true

section Pack
variable {fl : ℚ → ℚ} {config : WhatIfPackerConfig} {fairness : Option FairnessWindow}
  {input : PolicyInput} {demand : ScenarioDemand}

theorem restorable_of_blocked (h : blockedRequired input demand = []) {b : PhysicalBundleSnapshot}
    (hb : b ∈ requiredBundles input demand) (hmissing : b.missingBytes ≠ 0) : b.actionable = true := by
  by_contra hact
  have hlt : b.gpuBytes < b.physicalUniqueBytes := by
    unfold PhysicalBundleSnapshot.missingBytes at hmissing
    omega
  have hin : b ∈ blockedRequired input demand := by
    refine List.mem_filter.mpr ⟨hb,?_⟩
    simp [hlt,Bool.eq_false_iff.mpr hact]
  rw [h] at hin
  cases hin

theorem nothing_packed (hblocked : blockedRequired input demand = []) : Packed input demand {} := by
  refine ⟨Chosen.nothing,?_,List.nodup_nil,fun b hb => restorable_of_blocked hblocked hb⟩
  intro a ha
  cases ha

variable (fl config) in
theorem chooseVictims_packed (hblocked : blockedRequired input demand = []) (shortage : ℕ) :
    Packed input demand
      (chooseVictims fl config input (victimCandidates fl config input demand shortage) shortage) := by
  have hchosen := chooseVictims_chosen fl config input
    (victimCandidates fl config input demand shortage) shortage
  refine ⟨⟨List.Sublist.refl _,hchosen.acts,hchosen.reclaimed,hchosen.d2h,hchosen.host⟩,?_,?_,
    fun b hb => restorable_of_blocked hblocked hb⟩
  · intro a ha
    exact mem_victimCandidates (hchosen.bundles.subset (List.mem_map_of_mem ha))
  · have hsub := hchosen.bundles.map (·.bundleId)
    rw [List.map_map] at hsub
    exact (nodup_victimCandidates shortage).sublist hsub

theorem makeRoom_packed {f : Frontier} (hblocked : blockedRequired input demand = [])
    (h : (makeRoom fl config input demand f).feasible = true) :
    ∃ peak choice, makeRoom fl config input demand f = settled input demand f peak choice ∧
      Packed input demand choice := by
  simp only [makeRoom] at h ⊢
  split_ifs at h ⊢ with hshort hcap hlocked
  · exact ⟨_,_,rfl,nothing_packed hblocked⟩
  · cases h
  · cases h
  · exact ⟨_,_,rfl,chooseVictims_packed fl config hblocked _⟩

theorem packPlan_packed (h : (packPlan fl config fairness input demand).feasible = true) :
    ∃ f peak choice, packPlan fl config fairness input demand = settled input demand f peak choice ∧
      Packed input demand choice := by
  simp only [packPlan] at h ⊢
  split_ifs at h ⊢ with hexact hnone hmissing hblocked
  · cases h
  · cases h
  · cases h
  · cases h
  · obtain ⟨peak,choice,heq,hpacked⟩ := makeRoom_packed (not_ne_iff.mp hblocked) h
    exact ⟨_,peak,choice,heq,hpacked⟩

end Pack
end BeliefKV
