import BeliefKV.Joint.Charges
import BeliefKV.Lib.Probe

/-! Which package the search publishes. The first probe tries one candidate, the second all of them, and the
others bisect; a rejected prefix is taken to reject the longer ones. -/
namespace BeliefKV.JointScheduler

/-- The next length to try between two bounds. -/
def nextLength (i : ℕ) (b : Probe.Bounds) : ℕ :=
  if i = 0 then b.low else if i = 1 then b.high else (b.low + b.high) / 2

theorem nextLength_inRange : Probe.InRange nextLength := by
  intro i b hopen _
  unfold Probe.Bounds.Closed at hopen
  unfold nextLength
  split_ifs <;> omega

namespace Search
variable (s : Search)

/-- Both breaks of the loop leave the bounds crossed. -/
def SearchComplete : Prop := s.high < s.low

/-- The number of candidates in the selected package. -/
def chosenLength : ℕ := s.low - 1

def bounds : Probe.Bounds := ⟨s.low,s.high⟩

end Search

section Prefixes
variable {J : Type} (readers : Readers J) (fl : ℚ → ℚ) (config : JointPlannerConfig) (source : ObservedInput J)
  (order : CandidateOrder)

/-- The packer accepts the package of this many candidates. -/
def accepts (length : ℕ) : Bool :=
  match packageAt fl config source order length with
  | .ok plan => plan.feasible
  | .error _ => false

/-- The search of the whole order. -/
def fullSearch (fuel : ℕ) : Except Raised Search :=
  search fl config source order uninterrupted fuel { low := 1, high := order.requests.length }

/-- The lengths that are tried until no length is open, as the packer accepts some and rejects others. -/
def probes : List ℕ :=
  Probe.tried (accepts fl config source order) nextLength order.requests.length 0 ⟨1,order.requests.length⟩

/-- The published plan is that of the longest prefix that is accepted, and the seed if there is none. -/
structure PublishesLongest (s : Search) : Prop where
  published : JointScheduler.plan readers fl config source order uninterrupted =
    s.selected.elim (boundedSeed readers fl config source order.requests) (fromScenarioPlan readers fl config source)
  seed_iff : s.selected = none ↔ ∀ k, 0 < k → k ≤ order.requests.length → accepts fl config source order k = false
  longest : ∀ package, s.selected = some package →
    packageAt fl config source order s.chosenLength = .ok package ∧ package.feasible = true ∧
      0 < s.chosenLength ∧ s.chosenLength ≤ order.requests.length ∧
      ∀ k, s.chosenLength < k → k ≤ order.requests.length → accepts fl config source order k = false

/-- The search ends within the evaluations, and if it is complete the longest prefix is published. -/
def FindsLongest : Prop :=
  ∃ s, fullSearch fl config source order config.maxPackageEvaluations = .ok s ∧
    s.evaluated ≤ config.maxPackageEvaluations ∧
      (s.SearchComplete → PublishesLongest readers fl config source order s)

end Prefixes

section Found
variable {J : Type} {readers : Readers J} {fl : ℚ → ℚ} {config : JointPlannerConfig} {source : ObservedInput J}
  {order : CandidateOrder}

/-- The packer answers for every prefix of candidates that are in the frontier. -/
theorem packageAt_eq_ok (hrunnable : ∀ r ∈ order.requests, r ∈ source.runnableFrontier) (length : ℕ) :
    ∃ plan, packageAt fl config source order length = .ok plan := by
  have hknown : (packageScenario order length).candidateRequestIds.filter
      (· ∉ source.runnableFrontier.map (·.requestId)) = [] := by
    apply List.filter_eq_nil_iff.mpr
    intro id hid
    obtain ⟨r,hr,rfl⟩ := List.mem_map.mp hid
    have hmem := List.mem_map_of_mem (f := RunnableInvocation.requestId) (hrunnable r (List.mem_of_mem_take hr))
    simpa using hmem
  obtain ⟨demand,hdemand,hsnapshot⟩ : ∃ demand, physicalize source.toPolicyInput (packageScenario order length) =
      .ok demand ∧ demand.snapshotId = source.snapshotId := by
    unfold physicalize
    rw [bind_of_ok (a := ()) (ensure_eq_ok.mpr hknown)]
    exact ⟨_,rfl,rfl⟩
  refine ⟨packPlan fl config.packer (some order.fairness) source.toPolicyInput demand,?_⟩
  rw [packageAt,bind_of_ok hdemand,pack,bind_of_ok (a := ()) (ensure_eq_ok.mpr hsnapshot)]

theorem accepts_of_ok {length : ℕ} {plan : ScenarioPlan} (h : packageAt fl config source order length = .ok plan) :
    accepts fl config source order length = plan.feasible := by
  rw [accepts,h]

/-- What the search knows between two probes. -/
structure Tracks (fl : ℚ → ℚ) (config : JointPlannerConfig) (source : ObservedInput J) (order : CandidateOrder)
    (s : Search) : Prop where
  probed : s.probedMaximum = decide (1 < s.evaluated)
  first : s.evaluated = 0 → s.low = 1
  pos : 0 < s.low
  below : s.high ≤ order.requests.length
  unselected : s.selected = none → s.low = 1
  selected : ∀ package, s.selected = some package → 1 < s.low ∧ s.low ≤ order.requests.length + 1 ∧
    packageAt fl config source order s.chosenLength = .ok package ∧ package.feasible = true

theorem Tracks.length {s : Search} (h : Tracks fl config source order s) : s.length = nextLength s.evaluated s.bounds := by
  unfold Search.length nextLength
  by_cases hzero : s.evaluated = 0
  · rw [if_pos hzero,if_pos hzero]
    exact (h.first hzero).symm
  rw [if_neg hzero,if_neg hzero,h.probed]
  by_cases hone : s.evaluated = 1
  · rw [hone]
    rfl
  · have hlater : 1 < s.evaluated := by omega
    rw [if_neg hone,decide_eq_true hlater]
    rfl

theorem nextLength_low {s : Search} (h : Tracks fl config source order s) (hopen : ¬ s.bounds.Closed) :
    s.low ≤ s.length ∧ s.length ≤ s.high := by
  rw [h.length]
  exact nextLength_inRange s.evaluated s.bounds hopen h.pos

/-- The search after one more probe. -/
def Search.probe (s : Search) (plan : ScenarioPlan) : Search :=
  { s with
    evaluated := s.evaluated + 1
    probedMaximum := s.probedMaximum || s.evaluated ≠ 0
    selected := if plan.feasible then some plan else s.selected
    low := if plan.feasible then s.length + 1 else s.low
    high := if plan.feasible then s.high else s.length - 1 }

theorem Tracks.probe {s : Search} {plan : ScenarioPlan} (h : Tracks fl config source order s)
    (hopen : ¬ s.bounds.Closed) (hplan : packageAt fl config source order s.length = .ok plan) :
    Tracks fl config source order (s.probe plan) := by
  obtain ⟨hlow,hhigh⟩ := nextLength_low h hopen
  have hbelow := h.below
  have hpos := h.pos
  have hprobed : (s.probedMaximum || decide (s.evaluated ≠ 0)) = decide (1 < s.evaluated + 1) := by
    rw [h.probed,← Bool.decide_or]
    exact decide_eq_decide.mpr (by omega)
  unfold Search.probe
  by_cases hfeasible : plan.feasible = true
  · simp only [hfeasible,if_true]
    refine ⟨hprobed,nofun,Nat.succ_pos _,hbelow,nofun,?_⟩
    rintro package ⟨⟩
    refine ⟨?_,?_,hplan,hfeasible⟩
    · change 1 < s.length + 1
      omega
    · change s.length + 1 ≤ order.requests.length + 1
      omega
  · simp only [if_neg hfeasible]
    refine ⟨hprobed,nofun,hpos,?_,h.unselected,h.selected⟩
    change s.length - 1 ≤ order.requests.length
    omega

theorem Tracks.narrow {s : Search} {plan : ScenarioPlan} (h : Tracks fl config source order s)
    (hplan : packageAt fl config source order s.length = .ok plan) :
    (s.probe plan).bounds = s.bounds.narrow (accepts fl config source order) (nextLength s.evaluated s.bounds) := by
  rw [← h.length]
  unfold Search.probe Search.bounds Probe.Bounds.narrow
  rw [accepts_of_ok hplan]
  by_cases hfeasible : plan.feasible = true
  · simp only [hfeasible,if_true]
  · simp only [if_neg hfeasible]

/-- One turn of the loop. Where it breaks, the bounds are closed. -/
theorem search_turn (fuel : ℕ) {s : Search} {plan : ScenarioPlan} (h : Tracks fl config source order s)
    (hopen : ¬ s.bounds.Closed) (hplan : packageAt fl config source order s.length = .ok plan) :
    search fl config source order uninterrupted (fuel + 1) s = .ok (s.probe plan) ∧ (s.probe plan).bounds.Closed ∨
      search fl config source order uninterrupted (fuel + 1) s =
        search fl config source order uninterrupted fuel (s.probe plan) := by
  obtain ⟨hlow,hhigh⟩ := nextLength_low h hopen
  have hbelow := h.below
  have hpos := h.pos
  have hrunning : ¬ ((decide (s.evaluated ≠ 0) && uninterrupted.expired s.evaluated) ||
      uninterrupted.cancelled s.evaluated) = true := by
    simp [uninterrupted]
  rw [search,if_neg (show ¬ s.high < s.low from hopen),if_neg hrunning,bind_of_ok hplan]
  unfold Search.probe
  by_cases hfeasible : plan.feasible = true
  · simp only [hfeasible,if_true]
    by_cases hall : s.length = order.requests.length
    · refine .inl ⟨if_pos hall,?_⟩
      change s.high < s.length + 1
      omega
    · exact .inr (if_neg hall)
  · simp only [if_neg hfeasible]
    by_cases hone : s.length = 1
    · refine .inl ⟨if_pos hone,?_⟩
      change s.length - 1 < s.low
      omega
    · exact .inr (if_neg hone)

/-- The search is the search of the library, and keeps what it knows. -/
theorem search_final (hrunnable : ∀ r ∈ order.requests, r ∈ source.runnableFrontier) (fuel : ℕ) : ∀ {s : Search},
    Tracks fl config source order s →
      ∃ t, search fl config source order uninterrupted fuel s = .ok t ∧ t.evaluated ≤ s.evaluated + fuel ∧
        Tracks fl config source order t ∧
        t.bounds = Probe.final (accepts fl config source order) nextLength fuel s.evaluated s.bounds := by
  induction fuel with
  | zero =>
    intro s h
    exact ⟨s,rfl,le_rfl,h,rfl⟩
  | succ fuel ih =>
    intro s h
    by_cases hclosed : s.bounds.Closed
    · refine ⟨s,?_,Nat.le_add_right _ _,h,(Probe.final_of_closed hclosed _ _).symm⟩
      rw [search]
      exact if_pos hclosed
    obtain ⟨plan,hplan⟩ : ∃ plan, packageAt fl config source order s.length = .ok plan :=
      packageAt_eq_ok hrunnable s.length
    have hprobe := h.probe hclosed hplan
    rw [Probe.final,if_neg hclosed,← h.narrow hplan]
    obtain ⟨heq,hend⟩ | heq := search_turn fuel h hclosed hplan
    · refine ⟨s.probe plan,heq,?_,hprobe,(Probe.final_of_closed hend _ _).symm⟩
      change s.evaluated + 1 ≤ s.evaluated + (fuel + 1)
      omega
    · obtain ⟨t,ht,hle,htracks,hbounds⟩ := ih hprobe
      refine ⟨t,heq.trans ht,?_,htracks,hbounds⟩
      change t.evaluated ≤ s.evaluated + 1 + fuel at hle
      omega

theorem boundedSeed_eq_ok : ∃ seed, boundedSeed readers fl config source order.requests = .ok seed := by
  unfold boundedSeed plainPlan makePlan
  rw [bind_of_ok (a := ()) (ensure_eq_ok.mpr ?_)]
  · exact ⟨_,rfl⟩
  · positivity

theorem tracks_start : Tracks fl config source order { low := 1, high := order.requests.length } where
  probed := rfl
  first _ := rfl
  pos := Nat.one_pos
  below := le_rfl
  unselected _ := rfl
  selected := nofun

theorem Tracks.accepted {s : Search} (h : Tracks fl config source order s) {package : ScenarioPlan}
    (hselected : s.selected = some package) : accepts fl config source order s.chosenLength = true := by
  obtain ⟨-,-,hpack,hfeasible⟩ := h.selected package hselected
  rw [accepts_of_ok hpack,hfeasible]

theorem plan_published {s : Search} (hreached : (transitionOpen readers source || order.requests.isEmpty) = false)
    (hsearch : fullSearch fl config source order config.maxPackageEvaluations = .ok s) :
    JointScheduler.plan readers fl config source order uninterrupted = s.selected.elim
      (boundedSeed readers fl config source order.requests) (fromScenarioPlan readers fl config source) := by
  obtain ⟨seed,hseed⟩ : ∃ seed, boundedSeed readers fl config source order.requests = .ok seed :=
    boundedSeed_eq_ok
  unfold fullSearch at hsearch
  rw [JointScheduler.plan,if_neg (by simp [hreached]),hseed,bind_of_ok rfl,hsearch]
  cases hselected : s.selected with
  | none =>
    simp only [hselected]
    rfl
  | some package =>
    simp only [hselected]
    rfl

/-- The longest prefix is published exactly if nothing above the bounds is accepted. -/
theorem Tracks.publishes_iff {s : Search} (h : Tracks fl config source order s)
    (hreached : (transitionOpen readers source || order.requests.isEmpty) = false)
    (hsearch : fullSearch fl config source order config.maxPackageEvaluations = .ok s) :
    PublishesLongest readers fl config source order s ↔
      ∀ k, s.low ≤ k → k ≤ order.requests.length → accepts fl config source order k = false := by
  constructor
  · intro hpublishes k hlow hk
    cases hselected : s.selected with
    | none =>
      have hpos := h.pos
      exact hpublishes.seed_iff.mp hselected k (by omega) hk
    | some package =>
      obtain ⟨-,-,hpos,-,hnone⟩ := hpublishes.longest package hselected
      unfold Search.chosenLength at hpos hnone
      exact hnone k (by omega) hk
  · intro hnone
    refine ⟨plan_published hreached hsearch,?_,?_⟩
    · constructor
      · intro hselected k hpos hk
        exact hnone k (h.unselected hselected ▸ hpos) hk
      · intro hrejected
        cases hselected : s.selected with
        | none => rfl
        | some package =>
          obtain ⟨hlow,hhigh,-⟩ := h.selected package hselected
          have haccepted := h.accepted hselected
          unfold Search.chosenLength at haccepted
          rw [hrejected (s.low - 1) (by omega) (by omega)] at haccepted
          cases haccepted
    · intro package hselected
      obtain ⟨hlow,hhigh,hpack,hfeasible⟩ := h.selected package hselected
      refine ⟨hpack,hfeasible,?_,?_,?_⟩
      · unfold Search.chosenLength
        omega
      · unfold Search.chosenLength
        omega
      · intro k hk hkn
        unfold Search.chosenLength at hk
        exact hnone k (by omega) hkn

end Found

/-! ## When the longest prefix is published -/

section Longest
variable {J : Type} (readers : Readers J) (fl : ℚ → ℚ) (config : JointPlannerConfig) (source : ObservedInput J)
  (order : CandidateOrder)

/-- The search always ends within its evaluations. It publishes the longest accepted prefix exactly if it runs
out of evaluations, or no length that it tries is rejected below an accepted one. -/
theorem longest_published_iff (hreached : (transitionOpen readers source || order.requests.isEmpty) = false)
    (hrunnable : ∀ r ∈ order.requests, r ∈ source.runnableFrontier) :
    FindsLongest readers fl config source order ↔
      config.maxPackageEvaluations < (probes fl config source order).length ∨
        ∀ k ∈ probes fl config source order, accepts fl config source order k = false →
          ∀ m, k < m → m ≤ order.requests.length → accepts fl config source order m = false := by
  obtain ⟨s,hsearch,hle,htracks,hbounds⟩ : ∃ s, fullSearch fl config source order config.maxPackageEvaluations =
      .ok s ∧ s.evaluated ≤ 0 + config.maxPackageEvaluations ∧ Tracks fl config source order s ∧ s.bounds =
        Probe.final (accepts fl config source order) nextLength config.maxPackageEvaluations 0
          ⟨1,order.requests.length⟩ := search_final hrunnable config.maxPackageEvaluations tracks_start
  have hsize : (⟨1,order.requests.length⟩ : Probe.Bounds).size ≤ order.requests.length := by
    change order.requests.length + 1 - 1 ≤ order.requests.length
    rw [Nat.add_sub_cancel]
  have hcomplete : s.bounds.Closed ↔ (probes fl config source order).length ≤ config.maxPackageEvaluations := by
    rw [hbounds]
    exact Probe.closed_iff nextLength_inRange config.maxPackageEvaluations 0 Nat.one_pos hsize
  have hfinds : FindsLongest readers fl config source order ↔
      (s.SearchComplete → PublishesLongest readers fl config source order s) := by
    constructor
    · rintro ⟨t,ht,-,hpublishes⟩
      rw [hsearch] at ht
      cases ht
      exact hpublishes
    · intro hpublishes
      exact ⟨s,hsearch,by omega,hpublishes⟩
  rw [hfinds]
  by_cases hend : s.bounds.Closed
  · have hsound : Probe.Sound (accepts fl config source order) order.requests.length
        (probes fl config source order) s.bounds := by
      have hstart : Probe.Sound (accepts fl config source order) order.requests.length []
          ⟨1,order.requests.length⟩ := ⟨Nat.one_pos,Nat.le_add_left _ _,le_rfl,nofun,nofun,.inl rfl⟩
      have hfinal := hstart.final nextLength_inRange config.maxPackageEvaluations 0
      rw [hbounds] at hend ⊢
      rwa [List.nil_append,Probe.tried_eq nextLength_inRange Nat.one_pos hsize hend] at hfinal
    rw [or_iff_right (not_lt.mpr (hcomplete.mp hend)),← hsound.greatest_iff hend]
    exact (imp_iff_right hend).trans (htracks.publishes_iff hreached hsearch)
  · exact iff_of_true (fun h => absurd h hend) (.inl (not_le.mp (mt hcomplete.mpr hend)))

end Longest

/-- Where there is room for both requests, their package is published. -/
theorem whole_package_published : FindsLongest stateReaders id {} (sharedInput ["one"] (by decide)) bothInOrder := by
  refine (longest_published_iff stateReaders id {} _ bothInOrder rfl fun r hr => hr).mpr (.inr ?_)
  intro k hk hrejected
  have hprobes : probes id {} (sharedInput ["one"] (by decide)) bothInOrder = [1,2] := by decide +kernel
  have haccepts : ∀ k ∈ [1,2], accepts id {} (sharedInput ["one"] (by decide)) bothInOrder k = true := by
    decide +kernel
  rw [hprobes] at hk
  rw [haccepts k hk] at hrejected
  cases hrejected

/-! ## A victim behind the others -/

/-- Victims of one scope that were used one after another are tried in that order. -/
theorem victimCandidates_of_used {fl : ℚ → ℚ} {config : WhatIfPackerConfig} {input : PolicyInput}
    (hscope : ∀ b ∈ input.bundles, b.scope = "exclusive_suffix")
    (hused : input.bundles.Pairwise fun a b => a.lastAccessMs < b.lastAccessMs) (demand : ScenarioDemand)
    (shortage : ℕ) : victimCandidates fl config input demand shortage =
      (input.potentialVictims.filter fun b => b.bundleId ∈ demand.optionalGpuBundles &&
        !(spared fl config input demand.transition b)).take config.maxVictimCandidates := by
  unfold victimCandidates
  rw [List.mergeSort_of_pairwise]
  have hfrom : (input.potentialVictims.filter fun b => b.bundleId ∈ demand.optionalGpuBundles &&
      !(spared fl config input demand.transition b)).Sublist input.bundles :=
    List.filter_sublist.trans List.filter_sublist
  refine (hused.sublist hfrom).imp_of_mem fun {a b} ha hb hlt => decide_eq_true ?_
  have hkeys : a.scope = b.scope := by
    rw [hscope a (hfrom.subset ha),hscope b (hfrom.subset hb)]
  unfold candidateKey
  rw [Prod.Lex.toLex_le_toLex]
  right
  refine ⟨?_,?_⟩
  · simp only [hkeys]
  · rw [Prod.Lex.toLex_le_toLex]
    exact .inl hlt

/-- A bundle on a full GPU. The host has no room, so that it is a victim only with its copy there. -/
def idleBundle (name : String) (hname : name ≠ "") (owner : String) (lastAccessMs : ℚ) (bytes copied : ℕ)
    (h : copied ≤ bytes) : PhysicalBundleSnapshot where
  bundleId := name
  ownerContextIds := [owner]
  scope := "exclusive_suffix"
  physicalUniqueBytes := bytes
  gpuBytes := bytes
  cpuBytes := copied
  marginalReclaimableBytes := bytes
  lockedBytes := 0
  residency := "resident"
  generationFingerprint := "generation"
  lastAccessMs := lastAccessMs
  extentIds := [name]
  leaseKind := "dead"
  actionable := true
  blockerCodes := []
  named := hname
  owners_unique := List.nodup_singleton owner
  gpu_le := le_rfl
  cpu_le := h
  marginal_le := le_rfl
  locked_le := Nat.zero_le _
  extents_unique := List.nodup_singleton name

/-- Eight bundles that cannot be copied were used before the one that is on the host. The second request owns
the first of them. -/
def idleBundles : List PhysicalBundleSnapshot :=
  [idleBundle "idle 1" (by decide) "two" 0 10 0 (Nat.zero_le _),
    idleBundle "idle 2" (by decide) "parked" 1 10 0 (Nat.zero_le _),
    idleBundle "idle 3" (by decide) "parked" 2 10 0 (Nat.zero_le _),
    idleBundle "idle 4" (by decide) "parked" 3 10 0 (Nat.zero_le _),
    idleBundle "idle 5" (by decide) "parked" 4 10 0 (Nat.zero_le _),
    idleBundle "idle 6" (by decide) "parked" 5 10 0 (Nat.zero_le _),
    idleBundle "idle 7" (by decide) "parked" 6 10 0 (Nat.zero_le _),
    idleBundle "idle 8" (by decide) "parked" 7 10 0 (Nat.zero_le _),
    idleBundle "idle 9" (by decide) "parked" 8 300 300 (Nat.le_refl 300)]

theorem both_unique : ([firstRequest,secondRequest].map (·.requestId)).Nodup := bothInOrder.unique

theorem both_sorted : [firstRequest,secondRequest].Pairwise fun a b => a.requestId ≤ b.requestId := by decide

theorem crowded_bounds : (0 : ℚ) ≤ 9 ∧ 0 < 380 ∧ 380 + 0 ≤ 380 := by decide

def crowdedInput : ObservedInput String where
  snapshotId := "snapshot"
  runnableFrontier := [firstRequest,secondRequest]
  bundles := idleBundles
  resources := {
    tsMs := 9
    hbmCapacityBytes := 380
    hbmUsedBytes := 380
    hbmReservedBytes := 0
    hostFreeBytes := 0
    h2dServiceBytesPerMs := 100
    d2hServiceBytesPerMs := 100
    transferSetupP50Ms := 0
    unhiddenStallPerByte := 0
    ts_nonneg := crowded_bounds.1
    capacity_pos := crowded_bounds.2.1
    fits := crowded_bounds.2.2 }
  requests_unique := both_unique
  requests_sorted := both_sorted
  bundles_unique := by decide
  graph := readyGraph

theorem crowded_candidates {fl : ℚ → ℚ} {config : WhatIfPackerConfig} (demand : ScenarioDemand) (shortage : ℕ) :
    victimCandidates fl config crowdedInput.toPolicyInput demand shortage =
      (crowdedInput.potentialVictims.filter fun b => b.bundleId ∈ demand.optionalGpuBundles &&
        !(spared fl config crowdedInput.toPolicyInput demand.transition b)).take config.maxVictimCandidates :=
  victimCandidates_of_used (by decide) (by decide +kernel) demand shortage

theorem crowded_one_rejected : accepts id {} crowdedInput bothInOrder 1 = false := by
  unfold accepts packageAt pack packPlan makeRoom
  simp only [crowded_candidates]
  decide +kernel

theorem crowded_both_accepted : accepts id {} crowdedInput bothInOrder 2 = true := by
  unfold accepts packageAt pack packPlan makeRoom
  simp only [crowded_candidates]
  decide +kernel

/-- The first request alone is rejected, and the search is complete. Both together are accepted, as the last
bundle is then among the victims that are tried. -/
theorem longer_package_missed : ¬ FindsLongest stateReaders id {} crowdedInput bothInOrder := by
  rintro ⟨s,hsearch,-,hlongest⟩
  have hrejected := crowded_one_rejected
  obtain ⟨plan,hplan⟩ : ∃ plan, packageAt id {} crowdedInput bothInOrder 1 = .ok plan :=
    packageAt_eq_ok (fun r hr => hr) 1
  rw [accepts_of_ok hplan] at hrejected
  have hone : ¬ (bothInOrder.requests.length < 1) := by decide
  have hrunning : ¬ ((decide (0 ≠ 0) && uninterrupted.expired 0) || uninterrupted.cancelled 0) = true := by decide
  have hmissed : fullSearch id {} crowdedInput bothInOrder 8 =
      .ok { low := 1, high := 0, evaluated := 1 } := by
    rw [fullSearch,search,if_neg hone,if_neg hrunning]
    change (packageAt id {} crowdedInput bothInOrder 1 >>= _) = _
    rw [bind_of_ok hplan]
    simp only [hrejected]
    rfl
  have heq : s = { low := 1, high := 0, evaluated := 1 } := Except.ok.inj (hsearch.symm.trans hmissed)
  subst heq
  have hnone := (hlongest Nat.one_pos).seed_iff.mp rfl 2 (by decide) (by decide)
  rw [crowded_both_accepted] at hnone
  cases hnone

end BeliefKV.JointScheduler
