import BeliefKV.PageIndex.Relay

/-! Runs of a source, a mirror of it and a mirror of that mirror. -/
namespace BeliefKV.PageOwnershipIndex
open Evolves

attribute [local irreducible] journalBound

section
variable {s f : PageOwnershipIndex} {published : List PageIndexMutation} {op : Op}

/-- Reading the accounting only fills the cache. -/
theorem still_refreshPhysical (s : PageOwnershipIndex) : Still s s.refreshPhysical := by
  have hsame := sameRecords_refreshPhysical s
  refine ⟨.of_sameRecords hsame ?_ ?_ ?_ CacheValid.refreshPhysical,hsame⟩
  all_goals
    unfold refreshPhysical
    split_ifs <;> rfl

theorem Sound.still {t : PageOwnershipIndex} (hs : s.Sound) (h : Still s t) : t.Sound := by
  refine ⟨h.2.inv hs.inv,h.2.epochsCurrent hs.epochs,h.1.cacheValid hs.cache,?_⟩
  constructor <;> rw [h.1.journal]
  · exact hs.journal.length_le
  · rw [h.1.revision]
    exact hs.journal.revision_le

/-- The entries of one call all fit into the journal. -/
theorem Sound.step_published (hs : s.Sound) (hd : op.NoDead) (hk : op.KeepsEpochs s) :
    Evolves Still s ((s.step op).mutationsSince s.revision) (s.step op) ∧ (s.step op).Sound := by
  obtain ⟨⟨new,hev⟩,hs'⟩ := Evolves.step .refl hs hd hk
  have hlen := (hev.chain fun _ _ h => h.1).length_le
  have hshort := step_revision_le hs.inv.toBase op
  have hbound := two_le_journalBound
  rw [(hev.remembers (fun _ _ h => h.1) hs.journal).mutationsSince,
    Journal.rtake_of_length_le (by omega)]
  exact ⟨hev,hs'⟩

theorem Follows.revision_le (h : Follows published s f) : f.revision ≤ s.revision := by
  obtain ⟨s₀,ms,pre,-,-,hev,-,-,-,hrev,-⟩ := h
  exact hrev ▸ (hev.chain fun _ _ h => h.1).le

/-- Nothing published comes from the future. -/
theorem Follows.published_le (h : Follows published s f) : ∀ m ∈ published, m.revision ≤ s.revision := by
  obtain ⟨s₀,ms,pre,rfl,hpre,hev,-,-,-,hrev,-⟩ := h
  have hchain := hev.chain fun _ _ h => h.1
  intro m hm
  rcases List.mem_append.mp hm with hm | hm
  · exact (hpre m hm).trans hchain.le
  · exact (hchain.mem_rev hm).2

theorem Follows.publish {t : PageOwnershipIndex} {new : List PageIndexMutation}
    (h : Follows published s f) (hev : Evolves Still s new t) : Follows (published ++ new) t f := by
  obtain ⟨s₀,ms,pre,rfl,hpre,hold,h₀,hj,hrec,hrev,htop⟩ := h
  exact ⟨s₀,ms ++ new,pre,List.append_assoc _ _ _,hpre,hold.trans hev,h₀,hj,hrec,hrev,htop⟩

theorem Follows.still {t : PageOwnershipIndex} (h : Follows published s f) (hs : Still f t) :
    Follows published s t := by
  obtain ⟨s₀,ms,pre,hpub,hpre,hev,h₀,hj,hrec,hrev,htop⟩ := h
  exact ⟨s₀,ms,pre,hpub,hpre,hev,h₀,hj,hrec.trans hs.2,hs.1.revision.trans hrev,
    hs.1.topologyRevision.trans htop⟩

/-- A mirror in agreement follows. -/
theorem Agrees.follows (h : Agrees s f) (hs : s.Sound) (hpub : ∀ m ∈ published, m.revision ≤ s.revision) :
    Follows published s f :=
  ⟨s,[],published,(List.append_nil _).symm,hpub,.refl,hs.inv.toBase,hs.journal,h.toSameRecords,
    h.revision,h.topologyRevision⟩

end

section Locks
variable {s : PageOwnershipIndex} {h : PageHandle} {p : PhysicalPageRecord} {v : ℤ}

/-- A new lock value is published with the lock tag only. -/
theorem Sound.lock_step (hs : s.Sound) (hp : s.requirePage h = .ok p) (hne : p.engineLockRef ≠ v)
    (hv : 0 ≤ v) : ∃ e q, e.components = {.lock} ∧
      Evolves Still s [e] (s.step (.setEngineLock h v)) ∧ (s.step (.setEngineLock h v)).Sound ∧
      (s.step (.setEngineLock h v)).requirePage h = .ok q ∧ q.engineLockRef = v := by
  have hstep : s.step (.setEngineLock h v) =
      (s.updatePages {h} fun p => { p with engineLockRef := v }).touch false {h} ∅ {.lock} := by
    unfold step
    simp only [Op.apply,setEngineLock,if_neg (not_lt.mpr hv),hp]
    exact if_pos hne
  obtain ⟨hpage,hlive,hlatest⟩ := requirePage_eq_ok.mp hp
  obtain ⟨hev,hs'⟩ := hs.step_published (show Op.NoDead (.setEngineLock h v) from trivial) trivial
  rw [hstep] at hev hs' ⊢
  have hjournal : ((s.updatePages {h} fun p => { p with engineLockRef := v }).touch false {h} ∅
      {.lock}).mutationJournal = (s.mutationJournal ++
        [(⟨s.revision,s.revision + 1,s.topologyRevision,{h},∅,{.lock}⟩ : PageIndexMutation)]).rtake
          journalBound := rfl
  rw [mutationsSince_eq hjournal hs.journal.revision_le (by simp),
    Journal.rtake_of_length_le (Nat.succ_le_of_lt journalBound_pos)] at hev
  refine ⟨_,{ p with engineLockRef := v },rfl,hev,hs',requirePage_eq_ok.mpr ⟨?_,hlive,hlatest⟩,rfl⟩
  rw [touch_pages,get_updatePages,if_pos (Finset.mem_singleton_self h),hpage]
  rfl

/-- Counting a lock up. -/
def lockOps (h : PageHandle) (n : ℕ) : List Op :=
  (List.range n).map fun i => .setEngineLock h (i + 1)

theorem Sound.lock_run (hs : s.Sound) (hp : s.requirePage h = .ok p) (hzero : p.engineLockRef = 0)
    (n : ℕ) : ∃ es q, es.length = n ∧ (∀ e ∈ es, e.components = {.lock}) ∧
      Evolves Still s es (s.run (lockOps h n)) ∧ (s.run (lockOps h n)).Sound ∧
      (s.run (lockOps h n)).requirePage h = .ok q ∧ q.engineLockRef = n := by
  induction n with
  | zero => exact ⟨[],p,rfl,by simp,.refl,hs,hp,hzero⟩
  | succ n ih =>
    obtain ⟨es,q,hlen,htags,hev,hsn,hq,hval⟩ := ih
    have hrun : s.run (lockOps h (n + 1)) = (s.run (lockOps h n)).step (.setEngineLock h (n + 1)) := by
      simp [run,lockOps,List.range_succ]
    rw [hrun]
    obtain ⟨e,q',htag,hone,hs',hq',hval'⟩ := hsn.lock_step (v := n + 1) hq (by omega) (by omega)
    refine ⟨es ++ [e],q',by simp [hlen],fun x hx => ?_,hev.trans hone,hs',hq',by simpa using hval'⟩
    rcases List.mem_append.mp hx with hx | hx
    · exact htags x hx
    · rw [List.mem_singleton.mp hx,htag]

end Locks

/-- A source, a first mirror fed by the source and a second mirror fed by the first. `published`
lists all entries the source has journalled, also those its journal has dropped. -/
structure Relay where
  source : PageOwnershipIndex
  first : PageOwnershipIndex
  second : PageOwnershipIndex
  published : List PageIndexMutation

namespace Relay

def empty : Relay := ⟨PageOwnershipIndex.empty,PageOwnershipIndex.empty,PageOwnershipIndex.empty,[]⟩

inductive Input
  | call (op : Op)
  | syncFirst (fullValidation : Bool)
  | syncSecond (fullValidation : Bool)
  | readFirst
  | readSecond

/-- Feed a mirror with the next delta of its source. -/
def feed (source mirror : PageOwnershipIndex) (fullValidation : Bool) : PageOwnershipIndex :=
  match source.replicaDeltaSince mirror.revision with
  | .ok δ => (mirror.applyReplicaDelta δ fullValidation).1
  | .error _ => mirror

def step (p : Relay) : Input → Relay
  | .call op => { p with
      source := p.source.step op
      published := p.published ++ (p.source.step op).mutationsSince p.source.revision }
  | .syncFirst v => { p with first := feed p.source p.first v }
  | .syncSecond v => { p with second := feed p.first p.second v }
  | .readFirst => { p with first := p.first.refreshPhysical }
  | .readSecond => { p with second := p.second.refreshPhysical }

/-- The source keeps its records consistent, and a delta for the first mirror is cut while all
tags it stands for survive in the source's journal. -/
def Admissible (p : Relay) : Input → Prop
  | .call op => op.NoDead ∧ op.KeepsEpochs p.source
  | .syncFirst _ => TagsSurvive p.published p.source p.first
  | .syncSecond _ => True
  | .readFirst => True
  | .readSecond => True

instance (p : Relay) : DecidablePred p.Admissible
  | .call op => inferInstanceAs (Decidable (op.NoDead ∧ op.KeepsEpochs p.source))
  | .syncFirst _ => inferInstanceAs (Decidable (TagsSurvive p.published p.source p.first))
  | .syncSecond _ => isTrue trivial
  | .readFirst => isTrue trivial
  | .readSecond => isTrue trivial

/-- The invariant of the relay. -/
structure Good (p : Relay) : Prop where
  source : p.source.Sound
  first : p.first.Sound
  follows : Follows p.published p.source p.first
  second : ∃ f₀ : PageOwnershipIndex, f₀.Base ∧ Since p.published f₀.revision f₀ p.first ∧
    SameRecords f₀ p.second ∧ p.second.revision = f₀.revision
  cache : p.second.CacheValid

theorem empty_good : empty.Good :=
  ⟨empty_sound,empty_sound,
    Agrees.follows ⟨.refl _,rfl,rfl,rfl⟩ empty_sound (by simp [empty]),
    ⟨PageOwnershipIndex.empty,empty_inv.toBase,
      .again (.refl _) rfl empty_inv.toBase empty_journalOk,.refl _,rfl⟩,empty_cacheValid⟩

/-- One step keeps the invariant, and what the first mirror's journal says about its past. -/
theorem step_good {p : Relay} {i : Input} (hp : p.Good) (hi : p.Admissible i) :
    (p.step i).Good ∧ ∀ r f₀, Since p.published r f₀ p.first → f₀.revision ≤ r →
      (p.step i).first.revision ≤ f₀.revision ∨ r < (p.step i).first.revision →
      Since (p.step i).published r f₀ (p.step i).first := by
  obtain ⟨hs,hf,hfol,⟨g₀,hg₀,hsince,hrec,hrev⟩,hcache⟩ := hp
  cases i with
  | call op =>
    obtain ⟨hev,hs'⟩ := hs.step_published hi.1 hi.2
    have hnew (m : PageIndexMutation) (hm : m ∈ (p.source.step op).mutationsSince p.source.revision) :
        p.first.revision < m.revision :=
      hfol.revision_le.trans_lt ((hev.chain fun _ _ h => h.1).mem_rev hm).1
    exact ⟨⟨hs',hf,hfol.publish hev,⟨g₀,hg₀,hsince.publish hnew,hrec,hrev⟩,hcache⟩,
      fun _ _ h _ _ => h.publish hnew⟩
  | syncFirst v =>
    obtain ⟨δ,hδ,happ,hag,hf',hlater⟩ := hfol.sync hs hf hi v
    have hfeed : feed p.source p.first v = p.first.installDelta δ := by
      simp only [feed,hδ,happ]
    simp only [step,hfeed]
    exact ⟨⟨hs,hf',hag.follows hs hfol.published_le,
      ⟨g₀,hg₀,hlater _ g₀ hsince le_rfl (le_or_gt _ _),hrec,hrev⟩,hcache⟩,hlater⟩
  | syncSecond v =>
    obtain ⟨δ,hδ,happ,hag,hcache'⟩ := hsince.sync hf hg₀ hrec hrev hcache v
    have hfeed : feed p.first p.second v = p.second.installDelta δ := by
      simp only [feed,hδ,happ]
    simp only [step,hfeed]
    exact ⟨⟨hs,hf,hfol,⟨p.first,hf.inv.toBase,.again (.refl _) rfl hf.inv.toBase hf.journal,
      hag.toSameRecords,hag.revision⟩,hcache'⟩,fun _ _ h _ _ => h⟩
  | readFirst =>
    have hstill := still_refreshPhysical p.first
    exact ⟨⟨hs,hf.still hstill,hfol.still hstill,⟨g₀,hg₀,hsince.still hstill,hrec,hrev⟩,hcache⟩,
      fun _ _ h _ _ => h.still hstill⟩
  | readSecond =>
    have hstill := still_refreshPhysical p.second
    exact ⟨⟨hs,hf,hfol,⟨g₀,hg₀,hsince,hrec.trans hstill.2,hstill.1.revision.trans hrev⟩,
      hstill.1.cacheValid hcache⟩,fun _ _ h _ _ => h⟩

/-- From `p` on, the inputs `after` take the first mirror from the state it has at revision `r`,
the last one it has at or below `r`, to a state at `r` or beyond. -/
def StandsAt (p : Relay) (after : List Input) (r : ℕ) : Prop :=
  p.first.revision ≤ r ∧ r ≤ (after.foldl step p).first.revision ∧
    Run.AllSteps step (fun q i => (q.step i).first.revision ≤ p.first.revision ∨
      r < (q.step i).first.revision) p after

/-- After every run the second mirror can be brought to agreement with the first one, and a
reader of the first mirror that stands at any revision `r` of its past is told to start over or
learns of every change since. -/
theorem mirrors_relay (before after : List Input)
    (hadm : Run.AllSteps step Admissible empty (before ++ after)) (v : Bool) :
    (∃ δ g, ((before ++ after).foldl step empty).first.replicaDeltaSince
        ((before ++ after).foldl step empty).second.revision = .ok δ ∧
      ((before ++ after).foldl step empty).second.applyReplicaDelta δ v = (g,.ok ()) ∧
      Agrees ((before ++ after).foldl step empty).first g) ∧
    ∀ r, StandsAt (before.foldl step empty) after r →
      ∃ cs, ((before ++ after).foldl step empty).first.changesSince r = .ok cs ∧
        (cs.fullRebuildRequired = true ∨ CoversChanges ((before ++ after).foldl step empty).published r
          (before.foldl step empty).first ((before ++ after).foldl step empty).first cs) := by
  obtain ⟨hbefore,hafter⟩ := Run.AllSteps.append.mp hadm
  have hstep (p : Relay) (i : Input) (hp : p.Good) (hi : p.Admissible i) : (p.step i).Good :=
    (step_good hp hi).1
  have hearly : (before.foldl step empty).Good :=
    Run.AllSteps.invariant (I := Good) hstep empty_good hbefore
  have hlate : ((before ++ after).foldl step empty).Good :=
    Run.AllSteps.invariant (I := Good) hstep empty_good hadm
  constructor
  · obtain ⟨g₀,hg₀,hsecond,hrec,hrev⟩ := hlate.second
    obtain ⟨δ,hδ,happ,hag,-⟩ := hsecond.sync hlate.first hg₀ hrec hrev hlate.cache v
    exact ⟨δ,_,hδ,happ,hag⟩
  · rintro r ⟨hfrom,hto,hpast⟩
    have hrun := Run.AllSteps.invariant
      (I := fun p : Relay => p.Good ∧ Since p.published r (before.foldl step empty).first p.first)
      (fun p i hp hi => ⟨hstep p i hp.1 hi.1,(step_good hp.1 hi.1).2 r _ hp.2 hfrom hi.2⟩)
      ⟨hearly,.again (.refl _) rfl hearly.first.inv.toBase hearly.first.journal⟩ (hafter.and hpast)
    rw [← List.foldl_append] at hrun hto
    exact hrun.2.changes hfrom hto

/-- A context is mirrored twice; then the first mirror gets a page, its owner and a lock as one
delta. -/
def sampleOpening : List Input :=
  [.call (.registerContext "c" "w" 0),.syncFirst true,.syncSecond true]

def sampleDelta : List Input :=
  [.call (.registerPage ⟨0,0⟩ 1 .gpuOnly 0 none true 0),.call (.bindPages "c" 0 [⟨0,0⟩] false),
    .call (.setEngineLock ⟨0,0⟩ 1),.syncFirst false,.readFirst]

/-- A reader inside the delta, at revision 2. -/
theorem mirrors_relay_sample : (∃ δ g,
      ((sampleOpening ++ sampleDelta).foldl step empty).first.replicaDeltaSince
        ((sampleOpening ++ sampleDelta).foldl step empty).second.revision = .ok δ ∧
      ((sampleOpening ++ sampleDelta).foldl step empty).second.applyReplicaDelta δ false =
        (g,.ok ()) ∧ Agrees ((sampleOpening ++ sampleDelta).foldl step empty).first g) ∧
    ∃ cs, ((sampleOpening ++ sampleDelta).foldl step empty).first.changesSince 2 = .ok cs ∧
      (cs.fullRebuildRequired = true ∨
        CoversChanges ((sampleOpening ++ sampleDelta).foldl step empty).published 2
          (sampleOpening.foldl step empty).first
          ((sampleOpening ++ sampleDelta).foldl step empty).first cs) := by
  have hadm : Run.AllSteps step Admissible empty (sampleOpening ++ sampleDelta) := by decide +kernel
  have hstand : StandsAt (sampleOpening.foldl step empty) sampleDelta 2 := by
    unfold StandsAt
    decide +kernel
  obtain ⟨hsync,hread⟩ := mirrors_relay sampleOpening sampleDelta hadm false
  exact ⟨hsync,hread 2 hstand⟩

/-! ## A rebuild that forgets tags -/

/-- Calls to the source leave the mirrors alone. -/
theorem foldl_call (p : Relay) (ops : List Op) :
    ((ops.map Input.call).foldl step p).source = p.source.run ops ∧
      ((ops.map Input.call).foldl step p).first = p.first ∧
      ((ops.map Input.call).foldl step p).second = p.second := by
  induction ops generalizing p with
  | nil => exact ⟨rfl,rfl,rfl⟩
  | cons op ops ih => exact ih (p.step (.call op))

/-- A mirror whose only entry carries no structural tag sends a reader of that entry's start
nothing but patches. -/
theorem patches_only {f g : PageOwnershipIndex} {e : PageIndexMutation} {h : PageHandle}
    (hj : f.mutationJournal = [e].rtake journalBound) (hfrom : e.fromRevision = g.revision)
    (hlt : g.revision < e.revision) (hrev : f.revision = e.revision) (hpos : g.revision ≠ 0)
    (htags : e.components ∩ Component.structural = ∅) (hmem : h ∈ e.handles) (hpage : h ∈ f.pages)
    (hg : h ∉ g.pages) (v : Bool) : ∃ δ e', f.replicaDeltaSince g.revision = .ok δ ∧
      (g.applyReplicaDelta δ v).2 = .error e' := by
  have hrem : Remembers f g.revision [e] := by
    refine ⟨⟨[],by simp,by rw [hj,List.nil_append]⟩,.cons hfrom hlt ?_⟩
    rw [hrev]
    exact .nil _
  obtain ⟨δ,hδ,hcut⟩ := hrem.replicaDelta
  have hdiff : DiffDelta f g.revision [e] δ := by
    refine hcut.resolve_left fun hfull => ?_
    obtain ⟨cs,hcs,-,hflag⟩ := replicaDeltaSince_changes hδ
    obtain ⟨cs',hcs',-,-,-,hiff⟩ := hrem.changesSince
    cases hcs.symm.trans hcs'
    have hnot : ¬ cs.fullRebuildRequired = true := by
      rw [hiff,List.length_singleton,not_lt]
      exact journalBound_pos
    rw [hfull.full] at hflag
    simp [hnot,hpos] at hflag
  have hstruct : structuralHandles [e] = ∅ := by
    rw [Finset.eq_empty_iff_forall_notMem]
    intro a ha
    obtain ⟨m,hm,hk,-⟩ := mem_structuralHandles.mp ha
    exact hk (List.mem_singleton.mp hm ▸ htags)
  have hpages (a : PageHandle) : a ∉ δ.pages := by
    rw [Dict.notMem_iff_get,hdiff.pages,hstruct,if_neg (Finset.notMem_empty a)]
  have hpatch : h ∈ δ.pageStates := by
    obtain ⟨p,hp⟩ := (Dict.mem_iff_get _ _).mp hpage
    rw [Dict.mem_iff_get,hdiff.pageStates,hstruct,if_pos ⟨by simpa using hmem,Finset.notMem_empty h⟩,hp]
    exact ⟨_,rfl⟩
  have hbase : g.deltaBase δ = g := if_neg (by simp [hdiff.full])
  have hunknown : ((g.deltaBase δ).installPages δ.pages).pages.contains h = false := by
    rw [← Bool.not_eq_true,Std.ExtTreeMap.contains_iff_mem,hbase]
    exact fun hx => ((Dict.mem_overlay _ _ _).mp hx).elim hg (hpages h)
  refine ⟨δ,?_⟩
  cases hfind : δ.pageStates.keys.find? fun h =>
      !((g.deltaBase δ).installPages δ.pages).pages.contains h with
  | none =>
    have hall := List.find?_eq_none.mp hfind h (by simpa using hpatch)
    simp [hunknown] at hall
  | some a =>
    refine ⟨.pageIndexError ("physical-state patch references unknown page: " ++ a.render),hδ,?_⟩
    unfold applyReplicaDelta
    rw [if_neg (not_not.mpr hdiff.fromRevision),if_neg (by
      rw [hdiff.toRevision,hdiff.fromRevision,hrev]
      omega)]
    simp only [hfind]

/-- A page is registered, its lock changes until the journal has forgotten the page, and the
first mirror is rebuilt. -/
def overflow : List Input :=
  sampleOpening ++ (Op.registerPage ⟨0,0⟩ 1 .gpuOnly 0 none true 0 ::
    lockOps ⟨0,0⟩ journalBound).map Input.call ++ [.syncFirst true]

theorem sampleOpening_good : (sampleOpening.foldl step empty).Good := by
  have hadm : Run.AllSteps step Admissible empty sampleOpening := by decide +kernel
  exact Run.AllSteps.invariant (I := Good) (fun _ _ hp hi => (step_good hp hi).1) empty_good hadm

theorem sampleOpening_revision : (sampleOpening.foldl step empty).first.revision = 1 ∧
    (sampleOpening.foldl step empty).second.revision = 1 ∧
    (sampleOpening.foldl step empty).source.revision = 1 := by
  decide +kernel

theorem sampleOpening_pages : (⟨0,0⟩ : PageHandle) ∉ (sampleOpening.foldl step empty).second.pages := by
  decide +kernel

/-- The index once the page is registered. -/
def paged : PageOwnershipIndex := (sampleOpening.foldl step empty).source.step
  (.registerPage ⟨0,0⟩ 1 .gpuOnly 0 none true 0)

theorem paged_facts : (paged.mutationsSince 1).length = 1 ∧
    (paged.requirePage ⟨0,0⟩).toOption.map PhysicalPageRecord.engineLockRef = some 0 := by
  decide +kernel

/-- A rebuild of the first mirror while the source's journal holds lock entries only. -/
theorem rebuild_keeps_lock {s f g : PageOwnershipIndex} {ms es : List PageIndexMutation}
    {h : PageHandle} (hs : s.Sound) (hf : f.Sound) (hrem : Remembers s f.revision (ms ++ es))
    (hne : ms ≠ []) (hlen : es.length = journalBound) (htags : ∀ e ∈ es, e.components = {.lock})
    (hpage : h ∈ s.pages) (hg : h ∉ g.pages) (hrev : g.revision = f.revision)
    (hpos : f.revision ≠ 0) (v : Bool) : ∃ δ e, (feed s f v).replicaDeltaSince g.revision = .ok δ ∧
      (g.applyReplicaDelta δ v).2 = .error e := by
  obtain ⟨cs,hcs,-,-,hcomp,hfull⟩ := hrem.changesSince
  have hlong : journalBound < (ms ++ es).length := by
    have := List.length_pos_iff.mpr hne
    rw [List.length_append]
    omega
  have hlast : (ms ++ es).rtake journalBound = es := by
    rw [Journal.rtake_append,hlen,Nat.sub_self,List.rtake_zero,List.nil_append,
      Journal.rtake_of_length_le hlen.le]
  obtain ⟨δ,hδ,hcut⟩ := FullDelta.of_changes hcs (by simp [hfull.mpr hlong])
  obtain ⟨happ,hag,-⟩ := hcut.sync hs hrem.chain.le hf.inv.latest hf.cache v
  have hfeed : feed s f v = f.installDelta δ := by
    simp only [feed,hδ,happ]
  have hlt : f.revision < δ.toRevision := by
    have := hrem.chain.length_le
    rw [hcut.toRevision]
    omega
  have hjournal : (f.installDelta δ).mutationJournal = [f.intervalEntry δ].rtake journalBound := by
    rw [installDelta_mutationJournal,if_pos hlt,show f.deltaBase δ = f.clear from if_pos hcut.full,
      clear,Journal.push,List.nil_append]
  have hlock : (f.intervalEntry δ).components ∩ Component.structural = ∅ := by
    obtain ⟨cs',hcs',hδcomp,-⟩ := replicaDeltaSince_changes hδ
    cases hcs.symm.trans hcs'
    change δ.components ∩ _ = ∅
    rw [hδcomp,hcomp,hlast,Finset.eq_empty_iff_forall_notMem]
    intro k hk
    obtain ⟨hk,hstruct⟩ := Finset.mem_inter.mp hk
    obtain ⟨m,hm,hk⟩ := (Journal.mem_collect _ _ _).mp hk
    rw [htags m hm,Finset.mem_singleton] at hk
    rw [hk] at hstruct
    exact absurd hstruct (by decide)
  rw [hfeed]
  refine patches_only hjournal hrev.symm (hrev.trans_lt hlt) rfl (hrev.trans_ne hpos) hlock
    (?_ : h ∈ δ.changedHandles) (hag.pages ▸ hpage) hg v
  rw [hcut.changedHandles]
  simpa using hpage

/-- The run, input by input. -/
theorem foldl_overflow (ops : List Op) (p : Relay)
    (hp : p = (sampleOpening ++ (Op.registerPage ⟨0,0⟩ 1 .gpuOnly 0 none true 0 :: ops).map Input.call ++
      [Input.syncFirst true]).foldl step empty) :
    p.first = feed (paged.run ops) (sampleOpening.foldl step empty).first true ∧
      p.second = (sampleOpening.foldl step empty).second := by
  obtain ⟨hs,hf,hg⟩ := foldl_call (sampleOpening.foldl step empty)
    (Op.registerPage ⟨0,0⟩ 1 .gpuOnly 0 none true 0 :: ops)
  rw [List.foldl_append,List.foldl_append,List.foldl_cons,List.foldl_nil] at hp
  rw [hp]
  constructor
  · change feed _ _ _ = _
    rw [hs,hf]
    rfl
  · exact hg

/-- The entries of the source since the mirrors were fed: the page, then the locks. -/
theorem paged_locked (n : ℕ) : ∃ es q, es.length = n ∧ (∀ e ∈ es, e.components = {.lock}) ∧
    Remembers (paged.run (lockOps ⟨0,0⟩ n)) 1 (paged.mutationsSince 1 ++ es) ∧
    (paged.run (lockOps ⟨0,0⟩ n)).Sound ∧
    (paged.run (lockOps ⟨0,0⟩ n)).pages[(⟨0,0⟩ : PageHandle)]? = some q := by
  obtain ⟨-,-,hsource⟩ := sampleOpening_revision
  obtain ⟨-,hlock⟩ := paged_facts
  have hgood := sampleOpening_good
  obtain ⟨hreg,hpaged⟩ := hgood.source.step_published
    (show Op.NoDead (.registerPage ⟨0,0⟩ 1 .gpuOnly 0 none true 0) by decide) trivial
  change Evolves Still _ (paged.mutationsSince _) paged at hreg
  change paged.Sound at hpaged
  obtain ⟨p,hp,hzero⟩ : ∃ p, paged.requirePage ⟨0,0⟩ = .ok p ∧ p.engineLockRef = 0 := by
    cases hreq : paged.requirePage ⟨0,0⟩ with
    | error e => simp [hreq,Except.toOption] at hlock
    | ok p => exact ⟨p,rfl,by simpa [hreq,Except.toOption] using hlock⟩
  obtain ⟨es,q,hcount,htags,hlocks,hsound,hq,-⟩ := hpaged.lock_run hp hzero n
  have hrem := (hreg.trans hlocks).remembers (fun _ _ h => h.1) hgood.source.journal
  rw [hsource] at hrem
  exact ⟨es,q,hcount,htags,hrem,hsound,(requirePage_eq_ok.mp hq).1⟩

/-- The run leads to a second mirror that the next delta does not fit. -/
theorem overflow_breaks_relay : ¬ ∃ δ g, (overflow.foldl step empty).first.replicaDeltaSince
      (overflow.foldl step empty).second.revision = .ok δ ∧
    (overflow.foldl step empty).second.applyReplicaDelta δ true = (g,.ok ()) ∧
    Agrees (overflow.foldl step empty).first g := by
  obtain ⟨hfirst,hsecond,-⟩ := sampleOpening_revision
  have hgood := sampleOpening_good
  obtain ⟨es,q,hcount,htags,hrem,hsound,hq⟩ := paged_locked journalBound
  generalize hend : overflow.foldl step empty = p
  obtain ⟨hpfirst,hpsecond⟩ := foldl_overflow (lockOps ⟨0,0⟩ journalBound) p hend.symm
  rw [← hfirst] at hrem
  obtain ⟨δ,e,hδ,hfail⟩ := rebuild_keeps_lock hsound hgood.first hrem
    (List.ne_nil_of_length_eq_add_one (hfirst ▸ paged_facts.1)) hcount htags
    ((Dict.mem_iff_get _ _).mpr ⟨q,hq⟩) sampleOpening_pages (hsecond.trans hfirst.symm)
    (by rw [hfirst]; decide) true
  rintro ⟨δ',g,hδ',happ,-⟩
  rw [hpfirst,hpsecond,hδ] at hδ'
  cases hδ'
  rw [← hpsecond,happ] at hfail
  cases hfail

end Relay
end BeliefKV.PageOwnershipIndex
