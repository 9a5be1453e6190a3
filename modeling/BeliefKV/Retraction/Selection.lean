import Mathlib.Algebra.Order.BigOperators.Group.List
import BeliefKV.Retraction.Planner

/-! What the selection of packages keeps, and when it gets stuck. -/
namespace BeliefKV.Retraction
open Least Rounds

/-! ## What a selection is worth -/

section Worth
variable {candidates : List RunningRetractionCandidate} {extents : List RetractionLockedExtent}
  {S T : Finset String}

theorem mem_idsOf {id : String} : id ∈ idsOf candidates ↔ ∃ c ∈ candidates, c.requestId = id := by
  unfold idsOf
  rw [List.mem_toFinset,List.mem_map]

/-- A candidate counts if it is selected. -/
def privateShare (S : Finset String) (c : RunningRetractionCandidate) : ℕ :=
  if c.requestId ∈ S then c.privateKvBytes else 0

/-- An extent counts if all its blockers are selected. -/
def lockShare (S : Finset String) (e : RetractionLockedExtent) : ℕ :=
  if e.blockerRequestIds.toFinset ⊆ S then e.sizeBytes else 0

/-- The bytes that are reclaimed with a selection. -/
def worth (candidates : List RunningRetractionCandidate) (extents : List RetractionLockedExtent)
    (S : Finset String) : ℕ :=
  (candidates.map (privateShare S)).sum + (extents.map (lockShare S)).sum

theorem sum_map_filter {A : Type} (l : List A) (p : A → Bool) (f : A → ℕ) :
    ((l.filter p).map f).sum = (l.map fun a => if p a then f a else 0).sum := by
  induction l with
  | nil => rfl
  | cons a l ih =>
    by_cases hp : p a = true
    · rw [List.filter_cons_of_pos hp,List.map_cons,List.sum_cons,ih,List.map_cons,List.sum_cons,if_pos hp]
    · rw [List.filter_cons_of_neg hp,ih,List.map_cons,List.sum_cons,if_neg hp,Nat.zero_add]

theorem requireCandidates_eq (h : S ⊆ idsOf candidates) :
    requireCandidates candidates S = .ok (candidates.filter (·.requestId ∈ S)) :=
  bind_eq_ok.mpr ⟨(),ensure_eq_ok.mpr h,rfl⟩

variable (candidates) in
theorem private_sum (S : Finset String) : ((candidates.filter (·.requestId ∈ S)).map (·.privateKvBytes)).sum =
    (candidates.map (privateShare S)).sum := by
  rw [sum_map_filter]
  simp only [decide_eq_true_eq]
  rfl

theorem released_sum (S : Finset String) : ((releasedExtents extents S).map (·.sizeBytes)).sum =
    (extents.map (lockShare S)).sum := by
  unfold releasedExtents
  rw [sum_map_filter]
  simp only [decide_eq_true_eq]
  rfl

/-- The capacity is computed without a raise, and is what the selection is worth. -/
theorem reclaimCapacity_eq (h : S ⊆ idsOf candidates) :
    reclaimCapacity candidates extents S = .ok (worth candidates extents S) := by
  unfold reclaimCapacity
  rw [requireCandidates_eq h]
  exact congrArg Except.ok (congrArg₂ (· + ·) (private_sum candidates S) (released_sum S))

theorem privateShare_mono (h : S ⊆ T) (c : RunningRetractionCandidate) : privateShare S c ≤ privateShare T c := by
  unfold privateShare
  by_cases hc : c.requestId ∈ S
  · rw [if_pos hc,if_pos (h hc)]
  · rw [if_neg hc]
    exact Nat.zero_le _

theorem lockShare_mono (h : S ⊆ T) (e : RetractionLockedExtent) : lockShare S e ≤ lockShare T e := by
  unfold lockShare
  by_cases he : e.blockerRequestIds.toFinset ⊆ S
  · rw [if_pos he,if_pos (he.trans h)]
  · rw [if_neg he]
    exact Nat.zero_le _

theorem worth_mono (h : S ⊆ T) : worth candidates extents S ≤ worth candidates extents T :=
  Nat.add_le_add (List.sum_le_sum fun c _ => privateShare_mono h c) (List.sum_le_sum fun e _ => lockShare_mono h e)

/-- Nothing is reclaimed with nothing, where every extent has a blocker. -/
theorem worth_empty (hext : ∀ e ∈ extents, e.blockerRequestIds ≠ []) : worth candidates extents ∅ = 0 := by
  have hprivate : (candidates.map (privateShare ∅)).sum = 0 := by
    refine List.sum_eq_zero fun n hn => ?_
    obtain ⟨c,-,rfl⟩ := List.mem_map.mp hn
    exact if_neg (Finset.notMem_empty _)
  have hlocks : (extents.map (lockShare ∅)).sum = 0 := by
    refine List.sum_eq_zero fun n hn => ?_
    obtain ⟨e,he,rfl⟩ := List.mem_map.mp hn
    refine if_neg fun hsub => hext e he ?_
    exact List.toFinset_eq_empty_iff _ |>.mp (Finset.subset_empty.mp hsub)
  unfold worth
  rw [hprivate,hlocks]

/-- What is worth more than a selection has a candidate or an extent that counts more. -/
theorem exists_of_worth_lt (h : worth candidates extents S < worth candidates extents T) :
    (∃ c ∈ candidates, privateShare S c < privateShare T c) ∨ ∃ e ∈ extents, lockShare S e < lockShare T e := by
  by_contra hnone
  push Not at hnone
  obtain ⟨hprivate,hlock⟩ := hnone
  exact absurd h (not_lt.mpr (Nat.add_le_add (List.sum_le_sum hprivate) (List.sum_le_sum hlock)))

theorem worth_lt_of_private (hsub : S ⊆ T) {c : RunningRetractionCandidate} (hc : c ∈ candidates)
    (hlt : privateShare S c < privateShare T c) : worth candidates extents S < worth candidates extents T :=
  Nat.add_lt_add_of_lt_of_le (List.sum_lt_sum _ _ (fun c _ => privateShare_mono hsub c) ⟨c,hc,hlt⟩)
    (List.sum_le_sum fun e _ => lockShare_mono hsub e)

theorem worth_lt_of_lock (hsub : S ⊆ T) {e : RetractionLockedExtent} (he : e ∈ extents)
    (hlt : lockShare S e < lockShare T e) : worth candidates extents S < worth candidates extents T :=
  Nat.add_lt_add_of_le_of_lt (List.sum_le_sum fun c _ => privateShare_mono hsub c)
    (List.sum_lt_sum _ _ (fun e _ => lockShare_mono hsub e) ⟨e,he,hlt⟩)

/-! ## Packages -/

theorem mem_packages {P : Finset String} : P ∈ packages candidates extents ↔
    (∃ c ∈ candidates, P = {c.requestId}) ∨ ∃ e ∈ extents, P = e.blockerRequestIds.toFinset ∧ P ⊆ idsOf candidates := by
  unfold packages
  rw [List.mem_dedup,List.mem_append,List.mem_map,List.mem_filter,List.mem_map,decide_eq_true_eq]
  constructor
  · rintro (⟨c,hc,rfl⟩ | ⟨⟨e,he,rfl⟩,hsub⟩)
    · exact .inl ⟨c,hc,rfl⟩
    · exact .inr ⟨e,he,rfl,hsub⟩
  · rintro (⟨c,hc,rfl⟩ | ⟨e,he,rfl,hsub⟩)
    · exact .inl ⟨c,hc,rfl⟩
    · exact .inr ⟨⟨e,he,rfl⟩,hsub⟩

theorem packages_subset {P : Finset String} (h : P ∈ packages candidates extents) : P ⊆ idsOf candidates := by
  obtain ⟨c,hc,rfl⟩ | ⟨e,-,-,hsub⟩ := mem_packages.mp h
  · exact Finset.singleton_subset_iff.mpr (mem_idsOf.mpr ⟨c,hc,rfl⟩)
  · exact hsub

/-- As long as all candidates are worth more than the selection, some package adds to it. -/
theorem exists_package (h : worth candidates extents S < worth candidates extents (idsOf candidates)) :
    ∃ P ∈ packages candidates extents, worth candidates extents S < worth candidates extents (S ∪ P) := by
  obtain ⟨c,hc,hlt⟩ | ⟨e,he,hlt⟩ := exists_of_worth_lt h
  · refine ⟨{c.requestId},mem_packages.mpr (.inl ⟨c,hc,rfl⟩),worth_lt_of_private Finset.subset_union_left hc ?_⟩
    refine hlt.trans_le ?_
    unfold privateShare
    rw [if_pos (mem_idsOf.mpr ⟨c,hc,rfl⟩),if_pos (Finset.mem_union_right _ (Finset.mem_singleton_self _))]
  · have hall : e.blockerRequestIds.toFinset ⊆ idsOf candidates := by
      by_contra hnot
      unfold lockShare at hlt
      rw [if_neg hnot] at hlt
      exact absurd hlt (Nat.not_lt_zero _)
    refine ⟨_,mem_packages.mpr (.inr ⟨e,he,rfl,hall⟩),worth_lt_of_lock Finset.subset_union_left he ?_⟩
    refine hlt.trans_le ?_
    unfold lockShare
    rw [if_pos hall,if_pos Finset.subset_union_right]

end Worth

/-! ## A round -/

section Round
variable {fl : ℚ → ℚ} {config : ObservedRetractionConfig} {candidates : List RunningRetractionCandidate}
  {extents : List RetractionLockedExtent} {maxVictims : ℕ} {s : Selection}

theorem minOf_ok {A B : Type} [LinearOrder A] (f : B → A) {l : List B} (h : l ≠ []) : ∃ a, minOf (l.map f) = .ok a := by
  cases l with
  | nil => exact absurd rfl h
  | cons b l => exact ⟨_,rfl⟩

theorem maxOf_ok {A B : Type} [LinearOrder A] (f : B → A) {l : List B} (h : l ≠ []) : ∃ a, maxOf (l.map f) = .ok a := by
  cases l with
  | nil => exact absurd rfl h
  | cons b l => exact ⟨_,rfl⟩

/-- The last entry of a key. -/
def PackageKey.names (k : PackageKey) : List String := (ofLex (ofLex (ofLex (ofLex (ofLex (ofLex (ofLex (ofLex
  (ofLex (ofLex k).2).2).2).2).2).2).2).2).2).2

variable (fl config) in
/-- The key of some candidates is computed without a raise, and it names them. -/
theorem packageKey_ok (marginal : ℕ) {additions : Finset String} (hsub : additions ⊆ idsOf candidates)
    (hne : additions ≠ ∅) :
    ∃ key, packageKey fl config candidates marginal additions = .ok key ∧ key.names = Dict.sorted additions := by
  have hitems : candidates.filter (·.requestId ∈ additions) ≠ [] := by
    obtain ⟨id,hid⟩ := Finset.nonempty_iff_ne_empty.mpr hne
    obtain ⟨c,hc,rfl⟩ := mem_idsOf.mp (hsub hid)
    exact List.ne_nil_of_mem (List.mem_filter.mpr ⟨hc,by simpa using hid⟩)
  obtain ⟨causal,hcausal⟩ := minOf_ok (·.causalRank) hitems
  obtain ⟨depth,hdepth⟩ := maxOf_ok (·.unblockDepth) hitems
  obtain ⟨fair,hfair⟩ := minOf_ok (·.workflowFairRank) hitems
  obtain ⟨stale,hstale⟩ := minOf_ok (·.staleForMs) hitems
  obtain ⟨prior,hprior⟩ := maxOf_ok (·.priorRetractionCount) hitems
  obtain ⟨tier,htier⟩ : ∃ tier, frontierTier config (candidates.filter (·.requestId ∈ additions)) = .ok tier := by
    unfold frontierTier
    split_ifs
    · exact minOf_ok frontierVictimTier hitems
    · exact ⟨0,rfl⟩
  obtain ⟨distance,hdistance⟩ :
      ∃ distance, boundaryDistance config (candidates.filter (·.requestId ∈ additions)) = .ok distance := by
    unfold boundaryDistance
    split_ifs
    · exact minOf_ok (fun item => item.serviceToBoundaryTokens.getD 0) hitems
    · exact ⟨0,rfl⟩
  refine ⟨_,bind_eq_ok.mpr ⟨_,requireCandidates_eq hsub,bind_eq_ok.mpr ⟨causal,hcausal,bind_eq_ok.mpr ⟨depth,hdepth,
    bind_eq_ok.mpr ⟨fair,hfair,bind_eq_ok.mpr ⟨stale,hstale,bind_eq_ok.mpr ⟨prior,hprior,bind_eq_ok.mpr ⟨tier,htier,
      bind_eq_ok.mpr ⟨distance,hdistance,rfl⟩⟩⟩⟩⟩⟩⟩⟩,rfl⟩

/-- A package that is of use to a selection, as it is weighed. -/
structure Useful (fl : ℚ → ℚ) (config : ObservedRetractionConfig) (candidates : List RunningRetractionCandidate)
    (extents : List RetractionLockedExtent) (maxVictims : ℕ) (s : Selection) (P : Finset String)
    (c : PackageChoice) : Prop where
  additions : c.additions = P \ s.selected
  some_new : c.additions ≠ ∅
  room : (s.selected ∪ c.additions).card ≤ maxVictims
  reclaim : c.reclaim = worth candidates extents (s.selected ∪ c.additions)
  gain : s.currentReclaim < c.reclaim
  key : packageKey fl config candidates (c.reclaim - s.currentReclaim) c.additions = .ok c.key

variable (fl config extents maxVictims) in
/-- A package is weighed without a raise. -/
theorem weigh_ok {P : Finset String} (hP : P ⊆ idsOf candidates) (hs : s.selected ⊆ idsOf candidates) :
    ∃ t, weigh fl config candidates extents maxVictims s P = .ok t ∧
      ∀ c, t = some c ↔ Useful fl config candidates extents maxVictims s P c := by
  have hadd : P \ s.selected ⊆ idsOf candidates := Finset.sdiff_subset.trans hP
  have hall : s.selected ∪ P \ s.selected ⊆ idsOf candidates := Finset.union_subset hs hadd
  unfold weigh
  by_cases hskip : P \ s.selected = ∅ ∨ maxVictims < (s.selected ∪ P \ s.selected).card
  · refine ⟨none,by simp only [if_pos hskip],fun c => ⟨nofun,fun hc => ?_⟩⟩
    obtain ⟨hadditions,hnew,hroom,-,-,-⟩ := hc
    rw [hadditions] at hnew hroom
    exact absurd hskip (not_or.mpr ⟨hnew,not_lt.mpr hroom⟩)
  simp only [if_neg hskip,reclaimCapacity_eq hall]
  obtain ⟨hnew,hroom⟩ := not_or.mp hskip
  by_cases hgain : worth candidates extents (s.selected ∪ P \ s.selected) ≤ s.currentReclaim
  · refine ⟨none,bind_eq_ok.mpr ⟨_,rfl,if_pos hgain⟩,fun c => ⟨nofun,fun hc => ?_⟩⟩
    obtain ⟨hadditions,-,-,hreclaim,hlt,-⟩ := hc
    rw [hadditions] at hreclaim
    rw [hreclaim] at hlt
    exact absurd hgain (not_le.mpr hlt)
  · obtain ⟨key,hkey,-⟩ := packageKey_ok fl config
      (worth candidates extents (s.selected ∪ P \ s.selected) - s.currentReclaim) hadd hnew
    refine ⟨some ⟨P \ s.selected,key,worth candidates extents (s.selected ∪ P \ s.selected)⟩,
      bind_eq_ok.mpr ⟨_,rfl,(if_neg hgain).trans (bind_eq_ok.mpr ⟨key,hkey,rfl⟩)⟩,fun c => ⟨?_,?_⟩⟩
    · rintro ⟨⟩
      exact ⟨rfl,hnew,not_lt.mp hroom,rfl,not_le.mp hgain,hkey⟩
    · rintro ⟨hadditions,-,-,hreclaim,-,hkey'⟩
      rw [hadditions] at hreclaim hkey'
      rw [hreclaim,hkey] at hkey'
      obtain ⟨additions,key',reclaim⟩ := c
      cases hkey'
      exact congrArg some (congrArg₂ (fun a r => PackageChoice.mk a _ r) hadditions hreclaim).symm

/-- What a package stands for in the search. -/
def standsFor (fl : ℚ → ℚ) (config : ObservedRetractionConfig) (candidates : List RunningRetractionCandidate)
    (extents : List RetractionLockedExtent) (maxVictims : ℕ) (s : Selection) (P : Finset String) :
    Option PackageChoice :=
  match weigh fl config candidates extents maxVictims s P with
  | .ok t => t
  | .error _ => none

/-- The best package is found by a scan. -/
theorem bestPackage_eq (order : IterationOrder) (hs : s.selected ⊆ idsOf candidates) :
    bestPackage fl config candidates extents order maxVictims s =
      .ok (scan PackageChoice.before (standsFor fl config candidates extents maxVictims s)
        (order.order (packages candidates extents)) none) := by
  have hall : ∀ P ∈ order.order (packages candidates extents), P ⊆ idsOf candidates := fun P hP =>
    packages_subset ((order.perm _).mem_iff.mp hP)
  unfold bestPackage
  generalize order.order (packages candidates extents) = members at hall
  generalize (none : Option PackageChoice) = best
  induction members generalizing best with
  | nil => rfl
  | cons P members ih =>
    obtain ⟨t,ht,-⟩ := weigh_ok fl config extents maxVictims
      (hall P List.mem_cons_self) hs
    have hstands : standsFor fl config candidates extents maxVictims s P = t := by
      unfold standsFor
      rw [ht]
    rw [List.foldlM_cons,ht,scan,List.foldl_cons,hstands]
    exact ih (fun Q hQ => hall Q (List.mem_cons_of_mem P hQ)) _

theorem standsFor_eq {P : Finset String} (hP : P ⊆ idsOf candidates) (hs : s.selected ⊆ idsOf candidates)
    (c : PackageChoice) : standsFor fl config candidates extents maxVictims s P = some c ↔
      Useful fl config candidates extents maxVictims s P c := by
  obtain ⟨t,ht,huseful⟩ := weigh_ok fl config extents maxVictims hP hs
  unfold standsFor
  rw [ht]
  exact huseful c

variable (fl config extents maxVictims) in
/-- The search for the best package, in the order of the keys from the greatest down. -/
theorem bestPackage_searched (order : IterationOrder) (hs : s.selected ⊆ idsOf candidates) :
    ∃ best, bestPackage fl config candidates extents order maxVictims s = .ok best ∧
      Searched (fun c : PackageChoice => OrderDual.toDual c.key)
        (fun c => ∃ P ∈ packages candidates extents, Useful fl config candidates extents maxVictims s P c) none best := by
  refine ⟨_,bestPackage_eq order hs,(scan_searched (fun c d => ?_) _ _ _).congr fun c => ?_⟩
  · unfold PackageChoice.before
    rw [decide_eq_true_eq]
    exact OrderDual.toDual_lt_toDual.symm
  · constructor
    · rintro ⟨P,hP,hc⟩
      have hP' := (order.perm _).mem_iff.mp hP
      exact ⟨P,hP',(standsFor_eq (packages_subset hP') hs c).mp hc⟩
    · rintro ⟨P,hP,hc⟩
      exact ⟨P,(order.perm _).mem_iff.mpr hP,(standsFor_eq (packages_subset hP) hs c).mpr hc⟩

/-- Packages with one key are one package. -/
theorem Useful.eq_of_key {P Q : Finset String} {c d : PackageChoice} (hP : P ⊆ idsOf candidates)
    (hQ : Q ⊆ idsOf candidates) (hc : Useful fl config candidates extents maxVictims s P c)
    (hd : Useful fl config candidates extents maxVictims s Q d) (hkey : c.key = d.key) : c = d := by
  have hnames : ∀ {R : Finset String} {e : PackageChoice}, R ⊆ idsOf candidates →
      Useful fl config candidates extents maxVictims s R e → e.key.names = Dict.sorted e.additions := by
    intro R e hR he
    have hsub : e.additions ⊆ idsOf candidates := he.additions ▸ Finset.sdiff_subset.trans hR
    obtain ⟨key,hkey,hsorted⟩ := packageKey_ok fl config (e.reclaim - s.currentReclaim) hsub he.some_new
    rw [he.key] at hkey
    cases hkey
    exact hsorted
  have hadditions : c.additions = d.additions := by
    apply Dict.sorted_injective
    rw [← hnames hP hc,← hnames hQ hd,hkey]
  have hreclaim : c.reclaim = d.reclaim := by rw [hc.reclaim,hd.reclaim,hadditions]
  obtain ⟨a,k,r⟩ := c
  obtain ⟨a',k',r'⟩ := d
  subst hadditions hreclaim hkey
  rfl

/-- The best package does not depend on the order in which the packages are met. -/
theorem bestPackage_order (order order' : IterationOrder) (hs : s.selected ⊆ idsOf candidates) :
    bestPackage fl config candidates extents order' maxVictims s =
      bestPackage fl config candidates extents order maxVictims s := by
  obtain ⟨best,hbest,hsearch⟩ := bestPackage_searched fl config extents maxVictims order hs
  obtain ⟨best',hbest',hsearch'⟩ := bestPackage_searched fl config extents maxVictims order' hs
  rw [hbest,hbest']
  refine congrArg Except.ok (hsearch'.unique hsearch fun c d hc hd hkey => ?_)
  obtain ⟨P,hP,hc⟩ := hc
  obtain ⟨Q,hQ,hd⟩ := hd
  exact hc.eq_of_key (packages_subset hP) (packages_subset hQ) hd (OrderDual.toDual.injective hkey)

/-- What every round keeps. -/
structure Kept (candidates : List RunningRetractionCandidate) (extents : List RetractionLockedExtent)
    (maxVictims : ℕ) (s : Selection) : Prop where
  subset : s.selected ⊆ idsOf candidates
  room : s.selected.card ≤ maxVictims
  current : s.currentReclaim = worth candidates extents s.selected

variable (fl config) in
/-- A round raises nothing, keeps what is kept and selects a candidate more. -/
theorem extend_ok (order : IterationOrder) (hs : Kept candidates extents maxVictims s) :
    ∃ t, extend fl config candidates extents order maxVictims s = .ok t ∧
      (t = none ↔ ∀ P ∈ packages candidates extents, ∀ c, ¬ Useful fl config candidates extents maxVictims s P c) ∧
      ∀ u, t = some u → Kept candidates extents maxVictims u ∧ s.selected.card < u.selected.card := by
  obtain ⟨best,hbest,hsearch⟩ := bestPackage_searched fl config extents maxVictims order hs.subset
  refine ⟨_,bind_eq_ok.mpr ⟨best,hbest,rfl⟩,?_,fun u hu => ?_⟩
  · rw [Option.map_eq_none_iff,hsearch.eq_none_iff]
    constructor
    · exact fun hnone P hP c hc => hnone c ⟨P,hP,hc⟩
    · rintro hnone c ⟨P,hP,hc⟩
      exact hnone P hP c hc
  · obtain ⟨c,rfl,rfl⟩ := Option.map_eq_some_iff.mp hu
    obtain ⟨⟨P,hP,hc⟩,-⟩ := hsearch.spec
    have hsub : c.additions ⊆ idsOf candidates := by
      rw [hc.additions]
      exact Finset.sdiff_subset.trans (packages_subset hP)
    refine ⟨⟨Finset.union_subset hs.subset hsub,hc.room,hc.reclaim⟩,?_⟩
    have hdisjoint : Disjoint s.selected c.additions := by
      rw [hc.additions]
      exact Finset.disjoint_sdiff
    have hnew := Finset.card_pos.mpr (Finset.nonempty_iff_ne_empty.mpr hc.some_new)
    change s.selected.card < (s.selected ∪ c.additions).card
    rw [Finset.card_union_of_disjoint hdisjoint]
    omega

variable (fl config candidates maxVictims) in
/-- The selection comes to an end, in a state that keeps what every round keeps. -/
theorem selectVictims_ended (order : IterationOrder) (hext : ∀ e ∈ extents, e.blockerRequestIds ≠ []) (target : ℕ) :
    ∃ o, selectVictims fl config candidates extents order maxVictims target = .ok o ∧
      Ended (fun s : Selection => target ≤ s.currentReclaim)
        (extend fl config candidates extents order maxVictims) (Kept candidates extents maxVictims) o := by
  have hstart : Kept candidates extents maxVictims {} :=
    ⟨Finset.empty_subset _,Nat.zero_le _,(worth_empty hext).symm⟩
  have hcard : (idsOf candidates).card ≤ candidates.length := by
    unfold idsOf
    exact (List.toFinset_card_le _).trans (List.length_map _).le
  refine rounds_ended (fun s => (idsOf candidates).card - s.selected.card) (fun s hs _ => ?_) hstart
    ((Nat.sub_le _ _).trans hcard)
  obtain ⟨t,ht,-,hnext⟩ := extend_ok fl config order hs
  refine ⟨t,ht,fun u hu => ⟨(hnext u hu).1,?_⟩⟩
  have hless := (hnext u hu).2
  have hle := Finset.card_le_card (hnext u hu).1.subset
  omega

/-- The selection does not depend on the order in which the packages are met. -/
theorem selectVictims_order (order order' : IterationOrder) (hext : ∀ e ∈ extents, e.blockerRequestIds ≠ [])
    (target : ℕ) : selectVictims fl config candidates extents order' maxVictims target =
      selectVictims fl config candidates extents order maxVictims target := by
  refine rounds_congr (I := Kept candidates extents maxVictims) (fun s hs => ?_) (fun s t hs ht => ?_)
    ⟨Finset.empty_subset _,Nat.zero_le _,(worth_empty hext).symm⟩
  · unfold extend
    rw [bestPackage_order order order' hs.subset]
  · obtain ⟨u,hu,-,hnext⟩ := extend_ok fl config order hs
    rw [ht] at hu
    exact (hnext t (Except.ok.inj hu).symm).1

/-- A selection is stuck only when all candidates are worth no more, where there is room for all. -/
theorem stuck_worth (order : IterationOrder) (hroom : (idsOf candidates).card ≤ maxVictims)
    (hs : Kept candidates extents maxVictims s)
    (hstuck : extend fl config candidates extents order maxVictims s = .ok none) :
    worth candidates extents (idsOf candidates) ≤ s.currentReclaim := by
  obtain ⟨t,ht,hnone,-⟩ := extend_ok fl config order hs
  rw [hstuck] at ht
  have huseless := hnone.mp (Except.ok.inj ht).symm
  rw [hs.current]
  by_contra hlt
  obtain ⟨P,hP,hgain⟩ := exists_package (not_le.mp hlt)
  have hsub : P \ s.selected ⊆ idsOf candidates := Finset.sdiff_subset.trans (packages_subset hP)
  have hunion : s.selected ∪ P \ s.selected = s.selected ∪ P := Finset.union_sdiff_self_eq_union
  have hnew : P \ s.selected ≠ ∅ := by
    intro hempty
    rw [hempty,Finset.union_empty] at hunion
    rw [← hunion] at hgain
    exact absurd hgain (lt_irrefl _)
  obtain ⟨key,hkey,-⟩ := packageKey_ok fl config
    (worth candidates extents (s.selected ∪ P \ s.selected) - s.currentReclaim) hsub hnew
  refine huseless P hP ⟨P \ s.selected,key,worth candidates extents (s.selected ∪ P \ s.selected)⟩
    ⟨rfl,hnew,?_,rfl,?_,hkey⟩
  · exact (Finset.card_le_card (Finset.union_subset hs.subset hsub)).trans hroom
  · change s.currentReclaim < worth candidates extents (s.selected ∪ P \ s.selected)
    rw [hunion,hs.current]
    exact hgain

end Round

end BeliefKV.Retraction
