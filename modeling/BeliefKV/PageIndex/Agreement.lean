import BeliefKV.PageIndex.Delta

/-! A source index and a mirror that is fed its deltas: after every delta the two agree. -/
namespace BeliefKV.PageOwnershipIndex
open Evolves Relation

/-- A mirror agrees with its source on all records, both revisions and the accounting. -/
structure Agrees (s m : PageOwnershipIndex) : Prop extends SameRecords s m where
  revision : m.revision = s.revision
  topologyRevision : m.topologyRevision = s.topologyRevision
  breakdown : m.physicalKvStateBreakdown = s.physicalKvStateBreakdown

/-- A step that publishes nothing and changes no record. -/
def Still (s t : PageOwnershipIndex) : Prop := Silent s t ∧ SameRecords s t

/-- Consistent records, a valid cache and a journal within its bound. -/
structure Sound (s : PageOwnershipIndex) : Prop where
  inv : s.Inv
  epochs : s.EpochsCurrent
  cache : s.CacheValid
  journal : s.JournalOk

theorem empty_sound : empty.Sound :=
  ⟨empty_inv,empty_epochsCurrent,empty_cacheValid,empty_journalOk⟩

section
variable {s₀ s s' m : PageOwnershipIndex} {ms : List PageIndexMutation} {d k : Prop}

/-- A chain of effects extends a stretch of the journal. -/
theorem Evolves.effects (hev : Evolves Still s₀ ms s) (hs : s.Sound) (hd : d) (hk : k)
    (heff : ReflTransGen (Effect d k) s s') : (∃ ms', Evolves Still s₀ ms' s') ∧ s'.Sound := by
  induction heff with
  | refl => exact ⟨⟨ms,hev⟩,hs⟩
  | tail _ heff ih =>
    obtain ⟨⟨ms',hev'⟩,hs'⟩ := ih
    have hinv := heff.inv hs'.inv hd
    have hep := heff.epochsCurrent hs'.inv hs'.epochs hk
    have hcache := heff.cacheValid hs'.inv.toBase hs'.cache
    rcases heff.publishes hs'.inv.toBase with hsil | ⟨m,hm⟩
    · have hstep : Evolves Still _ [] _ :=
        .still .refl ⟨hsil,hsil.records hs'.inv.toOwned hs'.epochs⟩
      exact ⟨⟨ms',.still hev' ⟨hsil,hsil.records hs'.inv.toOwned hs'.epochs⟩⟩,hinv,hep,hcache,
        hstep.journalOk (fun _ _ h => h.1) hs'.journal⟩
    · have hstep : Evolves Still _ [m] _ := .emit .refl hm
      exact ⟨⟨ms' ++ [m],.emit hev' hm⟩,hinv,hep,hcache,
        hstep.journalOk (fun _ _ h => h.1) hs'.journal⟩

/-- A call that keeps the epochs and asks for no DEAD residency extends the journal. -/
theorem Evolves.step (hev : Evolves Still s₀ ms s) (hs : s.Sound) {op : Op} (hd : op.NoDead)
    (hk : op.KeepsEpochs s) : (∃ ms', Evolves Still s₀ ms' (s.step op)) ∧ (s.step op).Sound := by
  unfold PageOwnershipIndex.step
  cases hok : op.apply s with
  | error e => exact ⟨⟨ms,hev⟩,hs⟩
  | ok s' => exact hev.effects hs hd hk (Op.effects hs.inv.toBase op hok)

end

/-! ## One synchronisation -/

section Sync
variable {s m : PageOwnershipIndex} {δ : PageIndexReplicaDelta}

/-- The mirror agreed with some earlier state of the source, at its own revision. -/
structure Tracks (s m : PageOwnershipIndex) : Prop where
  past : ∃ s₀ ms, Evolves Still s₀ ms s ∧ s₀.Base ∧ s₀.JournalOk ∧ SameRecords s₀ m ∧
    m.revision = s₀.revision
  cache : m.CacheValid

theorem assertDeltaConsistent_eq_ok (hm : m.Inv) (he : m.EpochsCurrent)
    (hknown : ∀ c ∈ δ.changedContextIds, c ∈ m.contextEpoch) :
    m.assertDeltaConsistent δ = .ok () := by
  unfold assertDeltaConsistent
  dsimp only
  rw [raiseFirst_eq_ok,List.append_eq_nil_iff,List.append_eq_nil_iff,List.flatMap_eq_nil_iff,
    List.flatMap_eq_nil_iff]
  refine ⟨⟨if_neg ?_,fun c _ => contextErrors_eq_nil hm he c _⟩,fun p hp => ?_⟩
  · rintro ⟨c,hc,hn⟩
    apply hn
    rw [Std.ExtTreeMap.contains_iff_mem]
    rcases Finset.mem_union.mp hc with hc | hc
    · exact hknown c hc
    · obtain ⟨h,-,hc⟩ := Finset.mem_biUnion.mp hc
      cases hp : m.pages[h]? with
      | none => simp [hp] at hc
      | some p => exact hm.owner_known h p c hp (by simpa [hp] using hc)
  · obtain ⟨h,hh⟩ := (Dict.mem_vals _ p).mp hp
    rw [Dict.get_select,Option.filter_eq_some_iff] at hh
    exact pageErrors_eq_nil hm hh.1

theorem sameCache_installDelta (δ : PageIndexReplicaDelta) : SameCache m (m.installDelta δ) := by
  unfold installDelta deltaBase
  split_ifs <;> exact ⟨rfl,rfl,rfl,rfl,rfl⟩

theorem installDelta_physicalStateRevision (δ : PageIndexReplicaDelta) :
    (m.installDelta δ).physicalStateRevision =
      if δ.fullRebuildRequired ∨ δ.components ∩ Component.physical ≠ ∅ then
        m.physicalStateRevision + 1 else m.physicalStateRevision := by
  have hbase : (m.deltaBase δ).physicalStateRevision = m.physicalStateRevision := by
    unfold deltaBase
    split_ifs <;> rfl
  rw [← hbase]
  rfl

/-- A delta that makes the mirror a copy of a consistent index passes either kind of validation. -/
theorem CutAt.applies (hs : s.Inv) (he : s.EpochsCurrent) (hδ : CutAt s m.revision δ) (hle : m.revision ≤ s.revision)
    (hsame : SameRecords s (m.installDelta δ)) (hknown : ∀ c ∈ δ.changedContextIds, c ∈ s.contextEpoch)
    (hpatch : ∀ h ∈ δ.pageStates, h ∈ (m.deltaBase δ).pages ∨ h ∈ δ.pages) (v : Bool) :
    m.applyReplicaDelta δ v = (m.installDelta δ,.ok ()) := by
  have hinv := hsame.inv hs
  have hep := hsame.epochsCurrent he
  have hknown' : ∀ c ∈ δ.changedContextIds, c ∈ (m.installDelta δ).contextEpoch := by
    rw [hsame.contextEpoch]
    exact hknown
  rw [applyReplicaDelta_eq hδ.fromRevision (by rw [hδ.toRevision]; exact hle) hpatch v,
    assertConsistent_eq_ok hinv hep,assertDeltaConsistent_eq_ok hinv hep hknown']
  split_ifs <;> rfl

/-- A rebuild, whatever the mirror held. -/
theorem FullDelta.applies (hs : s.Inv) (he : s.EpochsCurrent) (hδ : FullDelta s m.revision δ)
    (hle : m.revision ≤ s.revision) (hm : LatestOf (fun h => h ∈ m.pages) m.latestGeneration) (v : Bool) :
    m.applyReplicaDelta δ v = (m.installDelta δ,.ok ()) ∧ SameRecords s (m.installDelta δ) := by
  have hsame := hδ.sameRecords hs.toBase hm
  exact ⟨hδ.toCutAt.applies hs he hle hsame (by simp [hδ.changedContextIds]) (by simp [hδ.pageStates]) v,hsame⟩

/-- A diff, for a mirror that agreed with the source where its entries begin. -/
theorem DiffDelta.applies {s₀ : PageOwnershipIndex} {ms : List PageIndexMutation} (hs : s.Inv) (he : s.EpochsCurrent)
    (hδ : DiffDelta s m.revision ms δ) (hle : m.revision ≤ s.revision) (hev : Evolves Still s₀ ms s) (h₀ : s₀.Base)
    (hrec : SameRecords s₀ m) (v : Bool) :
    m.applyReplicaDelta δ v = (m.installDelta δ,.ok ()) ∧ SameRecords s (m.installDelta δ) := by
  have hsame := hδ.sameRecords hs.toBase hev (fun _ _ h => h) h₀ hrec
  have hknown : ∀ c ∈ δ.changedContextIds, c ∈ s.contextEpoch := by
    rw [hδ.changedContextIds]
    exact hev.contexts_known fun _ _ h => h.1
  have hpatch : ∀ h ∈ δ.pageStates, h ∈ (m.deltaBase δ).pages ∨ h ∈ δ.pages := by
    intro h hh
    rw [← mem_installDelta,hsame.pages]
    obtain ⟨p,hp⟩ := (Dict.mem_iff_get _ _).mp hh
    rw [hδ.pageStates] at hp
    split_ifs at hp
    obtain ⟨q,hq,-⟩ := Option.map_eq_some_iff.mp hp
    exact (Dict.mem_iff_get _ _).mpr ⟨q,hq⟩
  exact ⟨hδ.toCutAt.applies hs he hle hsame hknown hpatch v,hsame⟩

/-- The mirror that a delta has made a copy of the source agrees with it. -/
theorem CutAt.agrees (hs : s.Sound) (hδ : CutAt s m.revision δ) (hsame : SameRecords s (m.installDelta δ))
    (hcache : (m.installDelta δ).CacheValid) : Agrees s (m.installDelta δ) := by
  have hcalc : (m.installDelta δ).calculatePhysicalKvState = s.calculatePhysicalKvState :=
    calculatePhysicalKvState_congr (fun h => by rw [hsame.pages]) _
  refine ⟨hsame,hδ.toRevision,hδ.topologyRevision,?_⟩
  rw [hcache.breakdown_eq,hs.cache.breakdown_eq,hcalc]

theorem FullDelta.cacheValid (hδ : FullDelta s m.revision δ) (hcache : m.CacheValid) :
    (m.installDelta δ).CacheValid := by
  refine hcache.of_sameCache (sameCache_installDelta δ) (.inl ?_)
  rw [installDelta_physicalStateRevision,if_pos (.inl hδ.full)]
  omega

theorem DiffDelta.cacheValid {s₀ : PageOwnershipIndex} {ms : List PageIndexMutation} (hδ : DiffDelta s m.revision ms δ)
    (hev : Evolves Still s₀ ms s) (hrec : SameRecords s₀ m) (hsame : SameRecords s (m.installDelta δ))
    (hcache : m.CacheValid) : (m.installDelta δ).CacheValid := by
  refine hcache.of_sameCache (sameCache_installDelta δ) ?_
  rw [installDelta_physicalStateRevision]
  by_cases hk : δ.fullRebuildRequired = true ∨ δ.components ∩ Component.physical ≠ ∅
  · exact .inl (by rw [if_pos hk]; omega)
  · -- No entry of the diff carries a physical tag, so the accounting inputs are old.
    rw [not_or,not_not] at hk
    refine .inr ⟨if_neg (by simp [hk]),fun h => ?_⟩
    rw [hsame.pages,hrec.pages]
    refine hev.pages_core (fun _ _ h => h.2) (fun m' hm' => ?_) h
    rw [← Finset.subset_empty,← hk.2,hδ.components]
    intro x hx
    rw [Finset.mem_inter,Journal.mem_collect]
    exact ⟨⟨m',hm',(Finset.mem_inter.mp hx).1⟩,(Finset.mem_inter.mp hx).2⟩

theorem FullDelta.sync (hs : s.Sound) (hδ : FullDelta s m.revision δ) (hle : m.revision ≤ s.revision)
    (hm : LatestOf (fun h => h ∈ m.pages) m.latestGeneration) (hcache : m.CacheValid) (v : Bool) :
    m.applyReplicaDelta δ v = (m.installDelta δ,.ok ()) ∧ Agrees s (m.installDelta δ) ∧
      (m.installDelta δ).CacheValid := by
  obtain ⟨happ,hsame⟩ := hδ.applies hs.inv hs.epochs hle hm v
  have hcache' := hδ.cacheValid hcache
  exact ⟨happ,hδ.toCutAt.agrees hs hsame hcache',hcache'⟩

theorem DiffDelta.sync {s₀ : PageOwnershipIndex} {ms : List PageIndexMutation} (hs : s.Sound)
    (hδ : DiffDelta s m.revision ms δ) (hle : m.revision ≤ s.revision)
    (hev : Evolves Still s₀ ms s) (h₀ : s₀.Base) (hrec : SameRecords s₀ m) (hcache : m.CacheValid)
    (v : Bool) : m.applyReplicaDelta δ v = (m.installDelta δ,.ok ()) ∧ Agrees s (m.installDelta δ) ∧
      (m.installDelta δ).CacheValid := by
  obtain ⟨happ,hsame⟩ := hδ.applies hs.inv hs.epochs hle hev h₀ hrec v
  have hcache' := hδ.cacheValid hev hrec hsame hcache
  exact ⟨happ,hδ.toCutAt.agrees hs hsame hcache',hcache'⟩

/-- One synchronisation: the delta is cut, applied without an error under either kind of
validation, and leaves the mirror equal to the source. -/
theorem Tracks.sync (hs : s.Sound) (ht : Tracks s m) (v : Bool) : ∃ δ,
    s.replicaDeltaSince m.revision = .ok δ ∧
      m.applyReplicaDelta δ v = (m.installDelta δ,.ok ()) ∧ Agrees s (m.installDelta δ) ∧
      (m.installDelta δ).CacheValid := by
  obtain ⟨s₀,ms,hev,h₀,hj,hrec,hrev⟩ := ht.past
  have hrem : Remembers s m.revision ms := hrev ▸ hev.remembers (fun _ _ h => h.1) hj
  have hle := hrem.chain.le
  obtain ⟨δ,hδ,hfull | hdiff⟩ := hrem.replicaDelta
  · exact ⟨δ,hδ,hfull.sync hs hle (hrec.base h₀).latest ht.cache v⟩
  · exact ⟨δ,hδ,hdiff.sync hs hle hev h₀ hrec ht.cache v⟩

end Sync

/-! ## Runs of a source and its mirror -/

/-- A source index and the mirror fed from it. -/
structure Pair where
  source : PageOwnershipIndex
  mirror : PageOwnershipIndex

namespace Pair

def empty : Pair := ⟨PageOwnershipIndex.empty,PageOwnershipIndex.empty⟩

inductive Input
  | call (op : Op)
  | sync (fullValidation : Bool)
  | readMirror

def step (p : Pair) : Input → Pair
  | .call op => { p with source := p.source.step op }
  | .sync v => match p.source.replicaDeltaSince p.mirror.revision with
    | .ok δ => { p with mirror := (p.mirror.applyReplicaDelta δ v).1 }
    | .error _ => p
  | .readMirror => { p with mirror := p.mirror.refreshPhysical }

/-- Calls ask for no DEAD residency and register only contexts that are not known yet. -/
def Admissible (p : Pair) : Input → Prop
  | .call op => op.NoDead ∧ match op with
    | .registerContext c _ _ => p.source.hasContext c = false
    | _ => True
  | .sync _ => True
  | .readMirror => True

instance (p : Pair) : DecidablePred p.Admissible
  | .call op => by
    unfold Admissible
    cases op <;> infer_instance
  | .sync _ => isTrue trivial
  | .readMirror => isTrue trivial

/-- The invariant of the pair. -/
def Good (p : Pair) : Prop := p.source.Sound ∧ Tracks p.source p.mirror

theorem empty_good : empty.Good :=
  ⟨empty_sound,⟨⟨_,[],.refl,empty_inv.toBase,empty_journalOk,.refl _,rfl⟩,empty_cacheValid⟩⟩

theorem Admissible.keepsEpochs {p : Pair} (hp : p.source.Base) {op : Op}
    (h : p.Admissible (.call op)) : op.KeepsEpochs p.source := by
  cases op with
  | registerContext c w e =>
    left
    apply pagesOf_none hp
    rw [← Dict.notMem_iff_get,← Std.ExtTreeMap.contains_iff_mem,Bool.not_eq_true]
    exact h.2
  | _ => trivial

theorem step_good {p : Pair} {i : Input} (hp : p.Good) (hi : p.Admissible i) : (p.step i).Good := by
  obtain ⟨hs,ht⟩ := hp
  cases i with
  | call op =>
    obtain ⟨s₀,ms,hev,h₀,hj,hrec,hrev⟩ := ht.past
    obtain ⟨⟨ms',hev'⟩,hs'⟩ := hev.step hs hi.1 (hi.keepsEpochs hs.inv.toBase)
    exact ⟨hs',⟨⟨s₀,ms',hev',h₀,hj,hrec,hrev⟩,ht.cache⟩⟩
  | sync v =>
    obtain ⟨δ,hδ,happ,hag,hcache⟩ := ht.sync hs v
    refine ⟨by simpa [step,hδ] using hs,?_⟩
    simp only [step,hδ,happ]
    exact ⟨⟨p.source,[],.refl,hs.inv.toBase,hs.journal,hag.toSameRecords,hag.revision⟩,hcache⟩
  | readMirror =>
    obtain ⟨s₀,ms,hev,h₀,hj,hrec,hrev⟩ := ht.past
    refine ⟨hs,⟨⟨s₀,ms,hev,h₀,hj,hrec.trans (sameRecords_refreshPhysical _),?_⟩,
      ht.cache.refreshPhysical⟩⟩
    rw [← hrev]
    simp only [step]
    unfold refreshPhysical
    split_ifs <;> rfl

/-- After every run of calls, reads and synchronisations, one more synchronisation succeeds
and leaves the mirror in agreement with the source. -/
theorem replica_agreement (ins : List Input) (hadm : Run.AllSteps step Admissible empty ins)
    (v : Bool) : ∃ δ m',
      (ins.foldl step empty).source.replicaDeltaSince (ins.foldl step empty).mirror.revision = .ok δ ∧
      (ins.foldl step empty).mirror.applyReplicaDelta δ v = (m',.ok ()) ∧
      Agrees (ins.foldl step empty).source m' := by
  have hgood : (ins.foldl step empty).Good :=
    Run.AllSteps.invariant (fun _ _ => step_good) empty_good hadm
  obtain ⟨δ,hδ,happ,hag,-⟩ := hgood.2.sync hgood.1 v
  exact ⟨δ,_,hδ,happ,hag⟩

/-- A context with a page is mirrored, the page is locked, and the lock is mirrored too. -/
def sampleInputs : List Input :=
  [.call (.registerContext "c" "w" 0),.call (.registerPage ⟨0,0⟩ 1 .gpuOnly 0 none true 0),
    .call (.bindPages "c" 0 [⟨0,0⟩] false),.sync true,.call (.setEngineLock ⟨0,0⟩ 1),.sync false,
    .call (.pinContext "c")]

theorem replica_agreement_sample : ∃ δ m',
    (sampleInputs.foldl step empty).source.replicaDeltaSince
      (sampleInputs.foldl step empty).mirror.revision = .ok δ ∧
    (sampleInputs.foldl step empty).mirror.applyReplicaDelta δ false = (m',.ok ()) ∧
    Agrees (sampleInputs.foldl step empty).source m' := by
  have hadm : Run.AllSteps step Admissible empty sampleInputs := by decide
  exact replica_agreement sampleInputs hadm false

end Pair
end BeliefKV.PageOwnershipIndex
