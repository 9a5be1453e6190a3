import Mathlib.Data.Rat.Floor
import BeliefKV.Lib.Fill
import BeliefKV.Lib.Rounding
import BeliefKV.Joint.Charges

/-! Semantic headroom targets. The bytes of a context are summed as floating point numbers and then cut to whole
bytes. -/
namespace BeliefKV.JointScheduler

/-- A residency goal of a context. -/
structure SemanticResidencyTarget where
  contextId : String
  contextEpoch : ℕ
  action : ResidencyAction
  targetBytesHint : ℕ
  deadlineMs : ℚ
  reason : String

/-- A snapshot with the epochs of its contexts. -/
structure SemanticInput (J : Type) extends ObservedInput J where
  contextEpochs : Dict String ℕ

structure ContextStats where
  missingGpuBytes : ℚ := 0
  reclaimableBytes : ℚ := 0
  lastAccessMs : ℚ := 0

namespace ContextStats

def missing (stats : ContextStats) : ℕ := ⌊stats.missingGpuBytes⌋.toNat

def reclaimable (stats : ContextStats) : ℕ := ⌊stats.reclaimableBytes⌋.toNat

def add (fl : ℚ → ℚ) (stats : ContextStats) (b : PhysicalBundleSnapshot) : ContextStats where
  missingGpuBytes := fl (stats.missingGpuBytes + fl b.missingBytes)
  reclaimableBytes := if b.actionable then fl (stats.reclaimableBytes + fl b.marginalReclaimableBytes)
    else stats.reclaimableBytes
  lastAccessMs := max stats.lastAccessMs b.lastAccessMs

end ContextStats

/-- A bundle is counted for each of its owners. -/
def addBundle (fl : ℚ → ℚ) (stats : Dict String ContextStats) (b : PhysicalBundleSnapshot) :
    Dict String ContextStats :=
  b.ownerContextIds.foldl (fun d id => d.insert id ((d.getD id {}).add fl b)) stats

def contextStats (fl : ℚ → ℚ) (input : PolicyInput) : Dict String ContextStats :=
  input.bundles.foldl (addBundle fl) ∅

section Targets
variable {J : Type} (fl : ℚ → ℚ) (config : JointPlannerConfig) (input : SemanticInput J)
  (candidates : List RunnableInvocation) (seed : PlannedJointPlan)

def deferred : List RunnableInvocation :=
  candidates.filter fun r => r.requestId ∉ seed.orderedRequestIds

/-- The bytes that the first deferred request lacks. -/
def deferredGoal : ℕ :=
  match deferred candidates seed with
  | [] => 0
  | first :: _ => unreservedStartupBytes first +
      ((contextStats fl input.toPolicyInput).getD first.contextId {}).missing -
        hbmAvailableBytes input.toObservedInput

/-- In an emergency the use of the HBM is brought below the ratio. -/
def reclaimGoal : ℕ :=
  if config.emergencyHbmRatio ≤ fl (input.resources.hbmUsedBytes / input.resources.hbmCapacityBytes) then
    let targetRatio := max 0 (fl (config.emergencyHbmRatio - fl (5 / 100)))
    max (deferredGoal fl input candidates seed)
      ⌊fl (fl input.resources.hbmUsedBytes - fl (fl input.resources.hbmCapacityBytes * targetRatio))⌋.toNat
  else deferredGoal fl input candidates seed

def runnableContexts : Finset String := (input.runnableFrontier.map (·.contextId)).toFinset

def selectedContexts : Finset String :=
  ((input.runnableFrontier.filter (·.requestId ∈ seed.orderedRequestIds)).map (·.contextId)).toFinset

/-- The context that was used longest ago comes first. -/
def victimOrder (entry : String × ContextStats) : ℚ ×ₗ ℤ ×ₗ String :=
  toLex (entry.2.lastAccessMs,toLex (-(entry.2.reclaimable : ℤ),entry.1))

/-- The parked contexts that have something to give up. -/
def parkedContexts : List (String × ContextStats) :=
  (contextStats fl input.toPolicyInput).toList.filter fun e => e.1 ∉ runnableContexts input &&
    e.1 ∉ selectedContexts input seed && 0 < e.2.reclaimable && (input.contextEpochs[e.1]?).isSome

def victims : List (String × ContextStats) :=
  (parkedContexts fl input seed).mergeSort fun a b => victimOrder a ≤ victimOrder b

def commitTarget (entry : String × ContextStats) : SemanticResidencyTarget where
  contextId := entry.1
  contextEpoch := input.contextEpochs.getD entry.1 0
  action := .commitCpu
  targetBytesHint := entry.2.reclaimable
  deadlineMs := input.resources.tsMs
  reason := "semantic headroom target for a parked context"

/-- Contexts are targeted until their bytes reach the goal. -/
def chosenVictims : List (String × ContextStats) :=
  fill (reclaimGoal fl config input candidates seed) (·.2.reclaimable) (victims fl input seed) 0

def prefetchTarget (request : RunnableInvocation) : SemanticResidencyTarget where
  contextId := request.contextId
  contextEpoch := request.contextEpoch
  action := .prefetchGpu
  targetBytesHint := ((contextStats fl input.toPolicyInput).getD request.contextId {}).missing
  deadlineMs := input.resources.tsMs
  reason := "semantic restore target for deferred causal work"

/-- The contexts of deferred requests that are not on the GPU, each once. -/
def prefetchTargets : List RunnableInvocation → List String → List SemanticResidencyTarget
  | [], _ => []
  | request :: rest, seen =>
    if ((contextStats fl input.toPolicyInput).getD request.contextId {}).missing = 0 ||
        request.contextId ∈ seen then
      prefetchTargets rest seen
    else prefetchTarget fl input request ::
      if config.maxWorkflowCandidates ≤ seen.length + 1 then []
      else prefetchTargets rest (request.contextId :: seen)

/-- The targets; a target of a context without a name is refused. -/
def semanticResidencyTargets : Except Raised (List SemanticResidencyTarget) := do
  let targets := (chosenVictims fl config input candidates seed).map (commitTarget input) ++
    prefetchTargets fl config input (deferred candidates seed) []
  ensure (∀ t ∈ targets, t.contextId ≠ "")
    (.valueError "semantic residency target identity must be non-empty")
  .ok targets

theorem semanticResidencyTargets_named (h : ∀ t ∈ (chosenVictims fl config input candidates seed).map
    (commitTarget input) ++ prefetchTargets fl config input (deferred candidates seed) [], t.contextId ≠ "") :
    semanticResidencyTargets fl config input candidates seed =
      .ok ((chosenVictims fl config input candidates seed).map (commitTarget input) ++
        prefetchTargets fl config input (deferred candidates seed) []) :=
  bind_of_ok (a := ()) (ensure_eq_ok.mpr h)

end Targets

/-! ## What a context owns -/

section Stats
variable {fl : ℚ → ℚ} {id : String}

theorem owners_get (b : PhysicalBundleSnapshot) (owners : List String) (hunique : owners.Nodup) :
    ∀ stats : Dict String ContextStats,
      (owners.foldl (fun d id => d.insert id ((d.getD id {}).add fl b)) stats)[id]? =
        if id ∈ owners then some ((stats.getD id {}).add fl b) else stats[id]? := by
  induction owners with
  | nil => simp
  | cons owner owners ih =>
    obtain ⟨hnew,hunique⟩ := List.nodup_cons.mp hunique
    intro stats
    rw [List.foldl_cons,ih hunique]
    by_cases hid : owner = id
    · subst hid
      simp [hnew]
    · by_cases hin : id ∈ owners
      · simp [hin,Ne.symm hid,Std.ExtTreeMap.getD_eq_getD_getElem?,Dict.get_insert,hid]
      · simp [hin,Ne.symm hid,Dict.get_insert,hid]

theorem addBundle_get (stats : Dict String ContextStats) (b : PhysicalBundleSnapshot) :
    (addBundle fl stats b)[id]? =
      if id ∈ b.ownerContextIds then some ((stats.getD id {}).add fl b) else stats[id]? :=
  owners_get b b.ownerContextIds b.owners_unique stats

def ownedBy (id : String) (b : PhysicalBundleSnapshot) : Bool := id ∈ b.ownerContextIds

theorem addBundles_getD (bundles : List PhysicalBundleSnapshot) : ∀ stats : Dict String ContextStats,
    (bundles.foldl (addBundle fl) stats).getD id {} =
      (bundles.filter (ownedBy id)).foldl (ContextStats.add fl) (stats.getD id {}) := by
  induction bundles with
  | nil => exact fun _ => rfl
  | cons b bundles ih =>
    intro stats
    have hstep : (addBundle fl stats b).getD id {} =
        if id ∈ b.ownerContextIds then (stats.getD id {}).add fl b else stats.getD id {} := by
      rw [Std.ExtTreeMap.getD_eq_getD_getElem?,addBundle_get]
      split_ifs
      · rfl
      · rw [Std.ExtTreeMap.getD_eq_getD_getElem?]
    rw [List.foldl_cons,ih,hstep]
    by_cases hown : id ∈ b.ownerContextIds
    · rw [if_pos hown,List.filter_cons_of_pos (by simpa [ownedBy] using hown),List.foldl_cons]
    · rw [if_neg hown,List.filter_cons_of_neg (by simpa [ownedBy] using hown)]

theorem mem_addBundles (bundles : List PhysicalBundleSnapshot) : ∀ stats : Dict String ContextStats,
    ((bundles.foldl (addBundle fl) stats)[id]?).isSome ↔ (stats[id]?).isSome ∨ ∃ b ∈ bundles, ownedBy id b := by
  induction bundles with
  | nil => simp
  | cons b bundles ih =>
    intro stats
    rw [List.foldl_cons,ih,addBundle_get]
    by_cases hown : id ∈ b.ownerContextIds
    · simp [hown,ownedBy]
    · simp [hown,ownedBy]

/-- The bytes of the actionable bundles of a context. -/
def bundleBytes (input : PolicyInput) (id : String) : List ℕ :=
  (input.bundles.filter fun b => ownedBy id b && b.actionable).map (·.marginalReclaimableBytes)

/-- The bytes that a context may give up, by itself. -/
def ownReclaimable (input : PolicyInput) (id : String) : ℕ := (bundleBytes input id).sum

/-- The bytes that the planner counts for a context. -/
def counted (fl : ℚ → ℚ) (input : PolicyInput) (id : String) : ℕ :=
  ⌊accumulate fl (bundleBytes input id) 0⌋.toNat

theorem add_reclaimable (bundles : List PhysicalBundleSnapshot) : ∀ stats : ContextStats,
    (bundles.foldl (ContextStats.add fl) stats).reclaimableBytes =
      accumulate fl ((bundles.filter (·.actionable)).map (·.marginalReclaimableBytes)) stats.reclaimableBytes := by
  induction bundles with
  | nil => exact fun _ => rfl
  | cons b bundles ih =>
    intro stats
    rw [List.foldl_cons,ih]
    cases hact : b.actionable
    · simp [ContextStats.add,hact]
    · simp [ContextStats.add,hact,accumulate]

variable {input : PolicyInput}

theorem contextStats_reclaimable {stats : ContextStats} (h : (contextStats fl input)[id]? = some stats) :
    stats.reclaimable = counted fl input id := by
  have hget : (contextStats fl input).getD id {} = stats := by
    rw [Std.ExtTreeMap.getD_eq_getD_getElem?,h,Option.getD_some]
  have hbytes : stats.reclaimableBytes = accumulate fl (bundleBytes input id) 0 := by
    rw [← hget,contextStats,addBundles_getD,add_reclaimable,List.filter_filter,bundleBytes]
    simp [Bool.and_comm]
  rw [ContextStats.reclaimable,hbytes,counted]

/-- A context can give up something if it owns an actionable bundle that frees something. -/
theorem counted_pos (hfl : Rounding fl) : 0 < counted fl input id ↔ ∃ b ∈ input.bundles,
    id ∈ b.ownerContextIds ∧ b.actionable = true ∧ 0 < b.marginalReclaimableBytes := by
  have hmem : ∀ n, n ∈ bundleBytes input id ↔ ∃ b ∈ input.bundles,
      (id ∈ b.ownerContextIds ∧ b.actionable = true) ∧ b.marginalReclaimableBytes = n := by
    intro n
    simp [bundleBytes,ownedBy,and_assoc]
  constructor
  · intro hpos
    by_contra hnone
    have hzero : ∀ n ∈ bundleBytes input id, n = 0 := by
      intro n hn
      obtain ⟨b,hb,⟨howned,hact⟩,rfl⟩ := (hmem n).mp hn
      by_contra hne
      exact hnone ⟨b,hb,howned,hact,Nat.pos_of_ne_zero hne⟩
    rw [counted,accumulate_zero hfl hzero] at hpos
    simp at hpos
  · rintro ⟨b,hb,howned,hact,hpos⟩
    have hone : (1 : ℚ) ≤ accumulate fl (bundleBytes input id) 0 :=
      one_le_accumulate hfl ((hmem _).mpr ⟨b,hb,⟨howned,hact⟩,rfl⟩) hpos le_rfl
    have hfloor : (1 : ℤ) ≤ ⌊accumulate fl (bundleBytes input id) 0⌋ :=
      Int.le_floor.mpr (by exact_mod_cast hone)
    unfold counted
    omega

/-- Where the bytes of a context are few enough they are counted exactly. -/
theorem counted_exact (hfl : Rounding fl) (h : ownReclaimable input id ≤ 2 ^ 53) :
    counted fl input id = ownReclaimable input id := by
  have hexact := accumulate_exact hfl (bundleBytes input id) (k := 0) (by rw [Nat.zero_add]; exact h)
  rw [Nat.cast_zero,Nat.zero_add] at hexact
  rw [counted,hexact,Int.floor_natCast,Int.toNat_natCast]
  rfl

end Stats

/-! ## Whether the targets suffice -/

section Sufficient
variable {J : Type} (fl : ℚ → ℚ) (config : JointPlannerConfig) (input : SemanticInput J)
  (candidates : List RunnableInvocation) (seed : PlannedJointPlan)

/-- The bytes of the actionable bundles that some of the contexts own, each bundle once. -/
def distinctReclaimable (contexts : List String) : ℕ :=
  ((input.bundles.filter fun b => b.actionable && b.ownerContextIds.any (· ∈ contexts)).map
    (·.marginalReclaimableBytes)).sum

/-- A parked context with a known epoch that can give up something. -/
structure Parked (id : String) : Prop where
  owns : ∃ b ∈ input.bundles, id ∈ b.ownerContextIds ∧ b.actionable = true ∧
    0 < b.marginalReclaimableBytes
  idle : id ∉ input.runnableFrontier.map (·.contextId)
  known : (input.contextEpochs[id]?).isSome

/-- The contexts that are told to leave the GPU. -/
def committed (targets : List SemanticResidencyTarget) : List String :=
  (targets.filter (·.action = .commitCpu)).map (·.contextId)

structure TargetsSuffice (targets : List SemanticResidencyTarget) : Prop where
  idle : ∀ t ∈ targets, t.action = .commitCpu → t.contextId ∉ input.runnableFrontier.map (·.contextId) ∧
    input.contextEpochs[t.contextId]? = some t.contextEpoch
  sufficient : reclaimGoal fl config input candidates seed ≤ distinctReclaimable input (committed targets) ∨
    ∀ id, Parked input id → id ∈ committed targets
  distinct : (targets.map fun t => (t.contextId,t.contextEpoch,t.action)).Nodup

/-- The bytes that some contexts count again: those of a bundle for each of its owners among them but one. -/
def repeatedReclaimable (contexts : List String) : ℕ :=
  ((input.bundles.filter (·.actionable)).map fun b =>
    b.marginalReclaimableBytes * (contexts.countP (· ∈ b.ownerContextIds) - 1)).sum

/-- Wherever the planner counts enough for the first contexts, without the last ones, their bytes cover the goal
together with what they count again. -/
def RepeatsCovered : Prop :=
  ∀ pre post, victims fl input seed = pre ++ post → post ≠ [] →
    reclaimGoal fl config input candidates seed ≤ (pre.map fun e => counted fl input.toPolicyInput e.1).sum →
      reclaimGoal fl config input candidates seed + repeatedReclaimable input (pre.map Prod.fst) ≤
        (pre.map fun e => ownReclaimable input.toPolicyInput e.1).sum

/-- Every owner of a bundle counts its bytes. -/
theorem sum_owned (contexts : List String) (b : PhysicalBundleSnapshot) :
    (contexts.map fun id => if id ∈ b.ownerContextIds then b.marginalReclaimableBytes else 0).sum =
      b.marginalReclaimableBytes * contexts.countP (· ∈ b.ownerContextIds) := by
  induction contexts with
  | nil => simp
  | cons id contexts ih =>
    rw [List.map_cons,List.sum_cons,ih]
    by_cases hown : id ∈ b.ownerContextIds
    · simp [hown,Nat.mul_add,Nat.add_comm]
    · simp [hown]

/-- The bytes of some contexts are those of their bundles and those that are counted again. -/
theorem own_eq_distinct_add_repeated (contexts : List String) :
    (contexts.map (ownReclaimable input.toPolicyInput)).sum =
      distinctReclaimable input contexts + repeatedReclaimable input contexts := by
  unfold ownReclaimable bundleBytes distinctReclaimable repeatedReclaimable
  induction input.bundles with
  | nil => simp
  | cons b bundles ih =>
    cases hact : b.actionable with
    | false => simpa [hact] using ih
    | true =>
      have hhead : (contexts.map fun id => (((b :: bundles).filter fun b => ownedBy id b && b.actionable).map
          (·.marginalReclaimableBytes)).sum).sum =
          (contexts.map fun id => if id ∈ b.ownerContextIds then b.marginalReclaimableBytes else 0).sum +
            (contexts.map fun id => ((bundles.filter fun b => ownedBy id b && b.actionable).map
              (·.marginalReclaimableBytes)).sum).sum := by
        rw [← List.sum_map_add]
        refine congrArg List.sum (List.map_congr_left fun id _ => ?_)
        by_cases hown : id ∈ b.ownerContextIds
        · simp [ownedBy,hown,hact]
        · simp [ownedBy,hown]
      have hany : (b.ownerContextIds.any (· ∈ contexts)) = true ↔
          0 < contexts.countP (· ∈ b.ownerContextIds) := by
        simp only [List.any_eq_true,decide_eq_true_eq,List.countP_pos_iff]
        exact exists_congr fun _ => and_comm
      rw [hhead,ih,sum_owned]
      -- The first owner is the one that the distinct bytes count.
      by_cases hpos : 0 < contexts.countP (· ∈ b.ownerContextIds)
      · obtain ⟨k,hk⟩ := Nat.exists_eq_succ_of_ne_zero hpos.ne'
        simp only [List.filter_cons,hact,hany.mpr hpos,Bool.true_and,if_true,List.map_cons,List.sum_cons,hk,
          Nat.succ_sub_one,Nat.mul_succ]
        omega
      · have hnone := Bool.eq_false_iff.mpr (mt hany.mp hpos)
        have hzero := Nat.eq_zero_of_not_pos hpos
        simp only [List.filter_cons,hact,hnone,Bool.true_and,if_true,List.map_cons,List.sum_cons,hzero,
          Nat.mul_zero,Nat.zero_sub,Bool.false_eq_true,if_false]
        omega

variable {fl config input candidates seed}

theorem mem_victims (hfl : Rounding fl) {e : String × ContextStats} : e ∈ victims fl input seed ↔
    (contextStats fl input.toPolicyInput)[e.1]? = some e.2 ∧ Parked input e.1 := by
  rw [victims,List.mem_mergeSort,parkedContexts,List.mem_filter,Std.ExtTreeMap.mem_toList_iff_getElem?_eq_some]
  refine and_congr_right fun hget => ?_
  have hselected : selectedContexts input seed ⊆ runnableContexts input := by
    intro id hid
    obtain ⟨r,hr,rfl⟩ := List.mem_map.mp (List.mem_toFinset.mp hid)
    exact List.mem_toFinset.mpr (List.mem_map_of_mem (List.mem_filter.mp hr).1)
  simp only [Bool.and_eq_true,decide_eq_true_eq,contextStats_reclaimable hget,counted_pos hfl]
  constructor
  · rintro ⟨⟨⟨hidle,-⟩,howns⟩,hknown⟩
    exact ⟨howns,fun h => hidle (List.mem_toFinset.mpr h),hknown⟩
  · rintro ⟨howns,hidle,hknown⟩
    have hout : e.1 ∉ runnableContexts input := fun h => hidle (List.mem_toFinset.mp h)
    exact ⟨⟨⟨hout,fun h => hout (hselected h)⟩,howns⟩,hknown⟩

theorem victims_of_sorted (h : (parkedContexts fl input seed).Pairwise fun a b =>
    victimOrder a ≤ victimOrder b) : victims fl input seed = parkedContexts fl input seed :=
  List.mergeSort_of_pairwise (by simpa using h)

theorem chosenVictims_of_sorted (h : (parkedContexts fl input seed).Pairwise fun a b =>
    victimOrder a ≤ victimOrder b) : chosenVictims fl config input candidates seed =
      fill (reclaimGoal fl config input candidates seed) (·.2.reclaimable)
        (parkedContexts fl input seed) 0 := by
  rw [chosenVictims,victims_of_sorted h]

theorem victims_ids (hfl : Rounding fl) {id : String} :
    id ∈ (victims fl input seed).map Prod.fst ↔ Parked input id := by
  constructor
  · intro h
    obtain ⟨e,he,rfl⟩ := List.mem_map.mp h
    exact ((mem_victims hfl).mp he).2
  · intro h
    obtain ⟨b,hb,howned,-⟩ := h.owns
    have hsome : ((contextStats fl input.toPolicyInput)[id]?).isSome := by
      rw [contextStats,mem_addBundles]
      exact .inr ⟨b,hb,by simpa [ownedBy] using howned⟩
    obtain ⟨stats,hget⟩ := Option.isSome_iff_exists.mp hsome
    exact List.mem_map.mpr ⟨(id,stats),(mem_victims hfl).mpr ⟨hget,h⟩,rfl⟩

variable (fl input seed) in
theorem nodup_victims : ((victims fl input seed).map Prod.fst).Nodup := by
  have hkeys : ((contextStats fl input.toPolicyInput).toList.map Prod.fst).Nodup := by
    rw [Std.ExtTreeMap.map_fst_toList_eq_keys]
    exact Std.ExtTreeMap.nodup_keys
  exact ((List.mergeSort_perm _ _).map Prod.fst).nodup_iff.mpr (hkeys.sublist (List.filter_sublist.map _))

variable (fl config input) in
/-- The prefetch targets name different contexts. -/
theorem prefetchTargets_nodup (requests : List RunnableInvocation) : ∀ seen : List String,
    ((prefetchTargets fl config input requests seen).map (·.contextId)).Nodup ∧
      ∀ t ∈ prefetchTargets fl config input requests seen, t.action = .prefetchGpu ∧ t.contextId ∉ seen := by
  induction requests with
  | nil => simp [prefetchTargets]
  | cons r requests ih =>
    intro seen
    rw [prefetchTargets]
    split_ifs with hskip hlimit
    · exact ih seen
    · rw [Bool.or_eq_true,not_or,decide_eq_true_eq,decide_eq_true_eq] at hskip
      simpa [prefetchTarget] using hskip.2
    · rw [Bool.or_eq_true,not_or,decide_eq_true_eq,decide_eq_true_eq] at hskip
      obtain ⟨hnodup,hrest⟩ := ih (r.contextId :: seen)
      refine ⟨List.nodup_cons.mpr ⟨fun hin => ?_,hnodup⟩,?_⟩
      · obtain ⟨t,ht,hid⟩ := List.mem_map.mp hin
        exact (hrest t ht).2 (by rw [hid]; exact List.mem_cons_self)
      · intro t ht
        rcases List.mem_cons.mp ht with rfl | ht
        · exact ⟨rfl,hskip.2⟩
        · exact ⟨(hrest t ht).1,fun hin => (hrest t ht).2 (List.mem_cons_of_mem _ hin)⟩

theorem committed_targets : committed ((chosenVictims fl config input candidates seed).map
    (commitTarget input) ++ prefetchTargets fl config input (deferred candidates seed) []) =
      (chosenVictims fl config input candidates seed).map Prod.fst := by
  obtain ⟨-,hprefetch⟩ := prefetchTargets_nodup fl config input (deferred candidates seed) []
  have hnone : (prefetchTargets fl config input (deferred candidates seed) []).filter
      (·.action = .commitCpu) = [] := by
    refine List.filter_eq_nil_iff.mpr fun t ht => ?_
    rw [(hprefetch t ht).1]
    decide
  rw [committed,List.filter_append,hnone,List.append_nil,List.filter_map,List.map_map]
  simp [Function.comp_def,commitTarget]

theorem distinctReclaimable_mono {xs ys : List String} (h : xs ⊆ ys) :
    distinctReclaimable input xs ≤ distinctReclaimable input ys := by
  refine ((List.monotone_filter_right _ fun b hb => ?_).map _).sum_le_sum fun _ _ => Nat.zero_le _
  rw [Bool.and_eq_true,List.any_eq_true] at hb ⊢
  obtain ⟨hact,id,hid,hin⟩ := hb
  exact ⟨hact,id,hid,by simpa using h (by simpa using hin)⟩

theorem weights_eq (hfl : Rounding fl) {l : List (String × ContextStats)} (h : l ⊆ victims fl input seed) :
    l.map (fun e => e.2.reclaimable) = l.map fun e => counted fl input.toPolicyInput e.1 :=
  List.map_congr_left fun _ he => contextStats_reclaimable ((mem_victims hfl).mp (h he)).1

variable (fl config input candidates seed) in
/-- The chosen contexts come first. They reach the goal, or nothing is left. -/
theorem chosenVictims_split (hfl : Rounding fl) : ∃ rest,
    victims fl input seed = chosenVictims fl config input candidates seed ++ rest ∧
      (rest = [] ∨ reclaimGoal fl config input candidates seed ≤
        ((chosenVictims fl config input candidates seed).map fun e =>
          counted fl input.toPolicyInput e.1).sum) := by
  obtain ⟨rest,heq,hrest⟩ := Fill.split (reclaimGoal fl config input candidates seed)
    (fun e : String × ContextStats => e.2.reclaimable) (victims fl input seed) 0
  refine ⟨rest,heq,hrest.imp_right fun hle => ?_⟩
  have hsub : chosenVictims fl config input candidates seed ⊆ victims fl input seed := by
    rw [heq]
    exact List.subset_append_left _ _
  rw [Nat.zero_add] at hle
  rw [← weights_eq hfl hsub]
  exact hle

theorem chosenVictims_length (hfl : Rounding fl) {pre post : List (String × ContextStats)}
    (heq : victims fl input seed = pre ++ post) (hgoal : reclaimGoal fl config input candidates seed ≤
      (pre.map fun e => counted fl input.toPolicyInput e.1).sum) :
    (chosenVictims fl config input candidates seed).length ≤ pre.length := by
  refine Fill.length_le _ heq ?_
  have hsub : pre ⊆ victims fl input seed := by
    rw [heq]
    exact List.subset_append_left _ _
  rw [Nat.zero_add,weights_eq hfl hsub]
  exact hgoal

variable (input) in
/-- Some contexts reach a goal with their bundles exactly if their bytes cover it with what they count again. -/
theorem distinct_reaches_iff (goal : ℕ) (pre : List (String × ContextStats)) :
    goal ≤ distinctReclaimable input (pre.map Prod.fst) ↔ goal + repeatedReclaimable input (pre.map Prod.fst) ≤
      (pre.map fun e => ownReclaimable input.toPolicyInput e.1).sum := by
  have hsum := own_eq_distinct_add_repeated input (pre.map Prod.fst)
  rw [List.map_map] at hsum
  change (pre.map fun e => ownReclaimable input.toPolicyInput e.1).sum = _ at hsum
  omega

/-- The targets reach the goal or leave no parked context out exactly if what is counted again is covered. -/
theorem sufficient_iff (hfl : Rounding fl) : (reclaimGoal fl config input candidates seed ≤
      distinctReclaimable input ((chosenVictims fl config input candidates seed).map Prod.fst) ∨
    ∀ id, Parked input id → id ∈ (chosenVictims fl config input candidates seed).map Prod.fst) ↔
      RepeatsCovered fl config input candidates seed := by
  obtain ⟨rest,hsplit,hrest⟩ := chosenVictims_split fl config input candidates seed hfl
  constructor
  · intro hsuff pre post heq hpost hgoal
    have hlength := chosenVictims_length hfl heq hgoal
    have hprefix : chosenVictims fl config input candidates seed <+: pre :=
      List.prefix_of_prefix_length_le ⟨rest,hsplit.symm⟩ ⟨post,heq.symm⟩ hlength
    rcases hsuff with hsuff | hall
    · exact (distinct_reaches_iff input _ pre).mp (hsuff.trans
        (distinctReclaimable_mono (List.map_subset _ hprefix.subset)))
    · -- Every parked context is chosen, so nothing is left after the longer beginning.
      exfalso
      have hrestnil : rest = [] := by
        rw [List.eq_nil_iff_forall_not_mem]
        intro e he
        have hin : e ∈ victims fl input seed := by
          rw [hsplit]
          exact List.mem_append_right _ he
        have hnodup := nodup_victims fl input seed
        rw [hsplit,List.map_append] at hnodup
        exact List.disjoint_of_nodup_append hnodup (hall e.1 ((mem_victims hfl).mp hin).2)
          (List.mem_map_of_mem he)
      have hlen := congrArg List.length (heq.symm.trans hsplit)
      have hpos := List.length_pos_of_ne_nil hpost
      rw [hrestnil,List.append_nil,List.length_append] at hlen
      omega
  · intro hcounted
    by_cases hnil : rest = []
    · right
      intro id hid
      have hin : id ∈ (victims fl input seed).map Prod.fst := (victims_ids hfl).mpr hid
      rw [hsplit,hnil,List.append_nil] at hin
      exact hin
    · exact .inl ((distinct_reaches_iff input _ _).mpr (hcounted _ rest hsplit hnil (hrest.resolve_left hnil)))

/-- A committed target names a context without a runnable request, under its epoch. -/
theorem targets_idle (hfl : Rounding fl) {t : SemanticResidencyTarget}
    (ht : t ∈ (chosenVictims fl config input candidates seed).map (commitTarget input) ++
      prefetchTargets fl config input (deferred candidates seed) []) (haction : t.action = .commitCpu) :
    t.contextId ∉ input.runnableFrontier.map (·.contextId) ∧ input.contextEpochs[t.contextId]? = some t.contextEpoch := by
  obtain ⟨-,hactions⟩ := prefetchTargets_nodup fl config input (deferred candidates seed) []
  obtain ⟨rest,hsplit,-⟩ := chosenVictims_split fl config input candidates seed hfl
  rcases List.mem_append.mp ht with hcommit | hfetch
  · obtain ⟨e,he,rfl⟩ := List.mem_map.mp hcommit
    have hin : e ∈ victims fl input seed := by
      rw [hsplit]
      exact List.mem_append_left _ he
    obtain ⟨-,hidle,hknown⟩ := ((mem_victims hfl).mp hin).2
    obtain ⟨epoch,hepoch⟩ := Option.isSome_iff_exists.mp hknown
    refine ⟨hidle,?_⟩
    simp [commitTarget,Std.ExtTreeMap.getD_eq_getD_getElem?,hepoch]
  · rw [(hactions t hfetch).1] at haction
    cases haction

/-- No context is committed or fetched twice. -/
theorem targets_distinct (hfl : Rounding fl) : (((chosenVictims fl config input candidates seed).map
    (commitTarget input) ++ prefetchTargets fl config input (deferred candidates seed) []).map
      fun t => (t.contextId,t.contextEpoch,t.action)).Nodup := by
  obtain ⟨hprefetch,hactions⟩ := prefetchTargets_nodup fl config input (deferred candidates seed) []
  obtain ⟨rest,hsplit,-⟩ := chosenVictims_split fl config input candidates seed hfl
  rw [List.map_append,List.nodup_append]
  refine ⟨?_,?_,?_⟩
  · have hnodup := nodup_victims fl input seed
    rw [hsplit,List.map_append] at hnodup
    rw [List.map_map]
    refine List.Nodup.of_map Prod.fst ?_
    rw [List.map_map]
    exact (List.nodup_append.mp hnodup).1
  · refine List.Nodup.of_map Prod.fst ?_
    rw [List.map_map]
    exact hprefetch
  · intro x hx y hy hxy
    subst hxy
    obtain ⟨t,ht,rfl⟩ := List.mem_map.mp hx
    obtain ⟨e,-,rfl⟩ := List.mem_map.mp ht
    obtain ⟨u,hu,heq⟩ := List.mem_map.mp hy
    have haction := congrArg (fun x => x.2.2) heq
    rw [(hactions u hu).1] at haction
    cases haction

/-- Parked contexts that share no actionable bundle count nothing again. -/
theorem repeated_eq_zero (hapart : ∀ b ∈ input.bundles, b.actionable = true → ∀ x ∈ b.ownerContextIds,
    ∀ y ∈ b.ownerContextIds, Parked input x → Parked input y → x = y) {contexts : List String}
    (hunique : contexts.Nodup) (hparked : ∀ id ∈ contexts, Parked input id) :
    repeatedReclaimable input contexts = 0 := by
  refine List.sum_eq_zero fun n hn => ?_
  obtain ⟨b,hb,rfl⟩ := List.mem_map.mp hn
  obtain ⟨hb,hact⟩ := List.mem_filter.mp hb
  have hone : contexts.countP (· ∈ b.ownerContextIds) ≤ 1 := by
    rw [List.countP_eq_length_filter,← List.toFinset_card_of_nodup (hunique.filter _)]
    refine Finset.card_le_one.mpr fun x hx y hy => ?_
    obtain ⟨hxin,hxown⟩ := List.mem_filter.mp (List.mem_toFinset.mp hx)
    obtain ⟨hyin,hyown⟩ := List.mem_filter.mp (List.mem_toFinset.mp hy)
    exact hapart b hb hact x (by simpa using hxown) y (by simpa using hyown) (hparked x hxin) (hparked y hyin)
  rw [Nat.sub_eq_zero_of_le hone,Nat.mul_zero]

/-- Where parked contexts share no actionable bundle and the bytes are few enough, what is counted is there. -/
theorem repeatsCovered_of_apart (hfl : Rounding fl)
    (hfew : (input.bundles.map (·.marginalReclaimableBytes)).sum ≤ 2 ^ 53)
    (hapart : ∀ b ∈ input.bundles, b.actionable = true → ∀ x ∈ b.ownerContextIds, ∀ y ∈ b.ownerContextIds,
      Parked input x → Parked input y → x = y) : RepeatsCovered fl config input candidates seed := by
  intro pre post heq _ hgoal
  have hsub : ∀ e ∈ pre, e ∈ victims fl input seed := by
    rw [heq]
    exact fun e he => List.mem_append_left _ he
  have hunique : (pre.map Prod.fst).Nodup := by
    have hnodup := nodup_victims fl input seed
    rw [heq,List.map_append] at hnodup
    exact (List.nodup_append.mp hnodup).1
  have hparked : ∀ id ∈ pre.map Prod.fst, Parked input id := by
    intro id hid
    obtain ⟨e,he,rfl⟩ := List.mem_map.mp hid
    exact ((mem_victims hfl).mp (hsub e he)).2
  have hexact : ∀ id, counted fl input.toPolicyInput id = ownReclaimable input.toPolicyInput id := by
    refine fun id => counted_exact hfl (le_trans ?_ hfew)
    exact (List.filter_sublist.map _).sum_le_sum fun _ _ => Nat.zero_le _
  rw [repeated_eq_zero hapart hunique hparked,Nat.add_zero]
  simpa only [hexact] using hgoal

end Sufficient

def parkedBundle (name : String) (hname : name ≠ "") (owners : List String) (howners : owners.Nodup)
    (lastAccessMs : ℚ) : PhysicalBundleSnapshot where
  bundleId := name
  ownerContextIds := owners
  scope := "shared_prefix"
  physicalUniqueBytes := 120
  gpuBytes := 120
  cpuBytes := 60
  marginalReclaimableBytes := 120
  lockedBytes := 0
  residency := "resident"
  generationFingerprint := "generation"
  lastAccessMs := lastAccessMs
  extentIds := [name]
  leaseKind := "dead"
  actionable := true
  blockerCodes := []
  named := hname
  owners_unique := howners
  gpu_le := le_rfl
  cpu_le := by decide
  marginal_le := le_rfl
  locked_le := by decide
  extents_unique := List.nodup_singleton name

def waitingRequest : RunnableInvocation :=
  ⟨"waiting","workflow","invocation","context",0,0,150,"foreground",none,by decide⟩

/-- A full GPU. The bundle that was used longest ago belongs to one or to two parked contexts. -/
def fullInput (owners : List String) (h : owners.Nodup) : SemanticInput String where
  snapshotId := "snapshot"
  runnableFrontier := [waitingRequest]
  bundles := [parkedBundle "old" (by decide) owners h 0,
    parkedBundle "recent" (by decide) ["third"] (List.nodup_singleton "third") 1]
  resources := {
    tsMs := 7
    hbmCapacityBytes := 360
    hbmUsedBytes := 360
    hbmReservedBytes := 0
    hostFreeBytes := 1000
    h2dServiceBytesPerMs := 100
    d2hServiceBytesPerMs := 100
    transferSetupP50Ms := 0
    unhiddenStallPerByte := 0
    ts_nonneg := by decide
    capacity_pos := by decide
    fits := by decide }
  requests_unique := by decide
  requests_sorted := by decide
  bundles_unique := by simp [parkedBundle]
  graph := readyGraph
  contextEpochs := collect ["one","second","third"] id fun _ => 0

def fullSeed (owners : List String) (h : owners.Nodup) : Except Raised PlannedJointPlan :=
  boundedSeed stateReaders id {} (fullInput owners h).toObservedInput [waitingRequest]

def fullTargets (owners : List String) (h : owners.Nodup) (seed : PlannedJointPlan) :
    Except Raised (List SemanticResidencyTarget) :=
  semanticResidencyTargets id {} (fullInput owners h) [waitingRequest] seed

end BeliefKV.JointScheduler
