import BeliefKV.PageIndex.Agreement

/-! A mirror as the source of further mirrors. One applied delta is one entry of the mirror's
journal; the entry promises what all the entries it stands for promised, as long as it carries
their tags. -/
namespace BeliefKV.PageOwnershipIndex
open Evolves

theorem two_le_journalBound : 2 ≤ journalBound := by decide

attribute [local irreducible] journalBound

variable {s₀ s f₀ f f' g : PageOwnershipIndex} {ms published : List PageIndexMutation}
  {e : PageIndexMutation} {δ : PageIndexReplicaDelta} {r : ℕ}

/-! ## One entry for a stretch of entries -/

/-- The entry `e` lists at least what changed along the entries `ms` that lead to `s`, with all
their tags. -/
structure Summarizes (ms : List PageIndexMutation) (s : PageOwnershipIndex) (e : PageIndexMutation) :
    Prop where
  handles : ∀ h ∈ Journal.collect PageIndexMutation.handles ms, h ∈ s.pages → h ∈ e.handles
  contexts : ∀ c ∈ contextualIds ms, c ∈ e.contextIds
  known : ∀ c ∈ e.contextIds, c ∈ s.contextEpoch
  components : Journal.collect PageIndexMutation.components ms ⊆ e.components

theorem Summarizes.tags_disjoint (he : Summarizes ms s e) {ks : Finset Component}
    (hks : e.components ∩ ks = ∅) {m : PageIndexMutation} (hm : m ∈ ms) : m.components ∩ ks = ∅ := by
  rw [← Finset.subset_empty,← hks]
  intro x hx
  rw [Finset.mem_inter] at hx ⊢
  exact ⟨he.components ((Journal.mem_collect _ _ _).mpr ⟨m,hm,hx.1⟩),hx.2⟩

/-- Records that follow a stretch of the source follow its summary. -/
theorem Evolves.emits (hev : Evolves Still s₀ ms s) (he : Summarizes ms s e)
    (hf : SameRecords s₀ f) (hf' : SameRecords s f') (hfrom : e.fromRevision = f.revision)
    (hlt : f.revision < e.revision) (hrev : f'.revision = e.revision)
    (hj : f'.mutationJournal = Journal.push journalBound f.mutationJournal e)
    (hcache : SameCache f f') (hphys : f.physicalStateRevision < f'.physicalStateRevision ∨
      e.components ∩ Component.physical = ∅ ∧ f'.physicalStateRevision = f.physicalStateRevision) :
    Emits f e f' := by
  have hsame (t u : PageOwnershipIndex) (h : Still t u) := h.2
  have hsilent (t u : PageOwnershipIndex) (h : Still t u) := h.1
  have hgrow := hev.pages_grow hsilent
  refine ⟨hfrom,hlt,hrev,hj,fun h hh => ?_,fun h hh => ?_,fun h hh hn => ?_,fun hk h p q hp hq => ?_,
    fun hk h => ?_,fun c hc => ?_,fun c hc => ?_,fun _ c hc => ?_,hcache,hphys⟩
  · rw [hf.pages,hf'.pages]
    by_cases hin : h ∈ Journal.collect PageIndexMutation.handles ms
    · -- listed by the stretch and yet not by the summary: there is no such page
      have hn : h ∉ s.pages := fun hs => hh (he.handles h hin hs)
      rw [(Dict.notMem_iff_get _ _).mp hn,(Dict.notMem_iff_get _ _).mp fun h₀ => hn (hgrow h h₀)]
    · exact hev.pages_frame hsame fun m hm hx => hin ((Journal.mem_collect _ _ _).mpr ⟨m,hm,hx⟩)
  · rw [hf'.pages]
    rw [hf.pages] at hh
    exact hgrow h hh
  · rw [hf'.pages] at hh
    rw [hf.pages] at hn
    obtain ⟨m,hm,hk,-⟩ := mem_structuralHandles.mp (hev.pages_new hsilent hh hn)
    exact fun hx => hk (he.tags_disjoint hx hm)
  · rw [hf.pages] at hp
    rw [hf'.pages] at hq
    refine hev.pages_static hsame (fun hx => ?_) hp hq
    obtain ⟨m,hm,hk',-⟩ := mem_structuralHandles.mp hx
    exact hk' (he.tags_disjoint hk hm)
  · rw [hf.pages,hf'.pages]
    exact hev.pages_core hsame (fun m hm => he.tags_disjoint hk hm) h
  · rw [hf.pagesOf,hf.contextEpoch,hf.contextWorkflow,hf'.pagesOf,hf'.contextEpoch,
      hf'.contextWorkflow]
    apply hev.contexts_frame hsame
    rcases hc with hc | hk
    · exact fun hx => hc (he.contexts c hx)
    · intro hx
      obtain ⟨m,hm,hk',-⟩ := mem_contextualIds.mp hx
      exact hk' (he.tags_disjoint hk hm)
  · rw [hf'.contextEpoch]
    rw [hf.contextEpoch] at hc
    exact hev.contexts_grow hsilent c hc
  · rw [hf'.contextEpoch]
    exact he.known c hc

/-- Without an entry nothing has changed. -/
theorem Evolves.eq_of_nil (hev : Evolves Still s₀ ms s) (hms : ms = []) :
    SameRecords s₀ s ∧ s.revision = s₀.revision ∧ s.topologyRevision = s₀.topologyRevision := by
  induction hev with
  | refl => exact ⟨.refl _,rfl,rfl⟩
  | still _ hs ih =>
    obtain ⟨hrec,hrev,htop⟩ := ih hms
    exact ⟨hrec.trans hs.2,hs.1.revision.trans hrev,hs.1.topologyRevision.trans htop⟩
  | emit _ _ _ => simp at hms

/-- The entry with which a mirror journals a delta. -/
def intervalEntry (m : PageOwnershipIndex) (δ : PageIndexReplicaDelta) : PageIndexMutation :=
  { fromRevision := m.revision
    revision := δ.toRevision
    topologyRevision := δ.topologyRevision
    handles := δ.changedHandles
    contextIds := δ.changedContextIds
    components := δ.components }

theorem deltaBase_revision (m : PageOwnershipIndex) (δ : PageIndexReplicaDelta) :
    (m.deltaBase δ).revision = m.revision := by
  unfold deltaBase
  split_ifs <;> rfl

theorem installDelta_mutationJournal (m : PageOwnershipIndex) (δ : PageIndexReplicaDelta) :
    (m.installDelta δ).mutationJournal = if m.revision < δ.toRevision then
      Journal.push journalBound (m.deltaBase δ).mutationJournal (m.intervalEntry δ)
    else (m.deltaBase δ).mutationJournal := by
  unfold intervalEntry
  rw [← deltaBase_revision m δ]
  rfl

/-- What a delta says about the change set it was cut from. -/
theorem replicaDeltaSince_changes (hδ : s.replicaDeltaSince r = .ok δ) : ∃ cs,
    s.changesSince r = .ok cs ∧ δ.components = cs.components ∧
      δ.fullRebuildRequired = (r = 0 || cs.fullRebuildRequired) := by
  obtain ⟨cs,hcs,hok⟩ := bind_eq_ok.mp hδ
  cases hok
  exact ⟨cs,hcs,rfl,rfl⟩

/-! ## From an earlier state of a mirror to the present -/

/-- What the journal of a mirror at `f` still says about the time since revision `r`, when `f₀` was
the state of the mirror: either its entries lead from the records of `f₀` to the present and
carry every tag that was published in between, or they begin after `r`. -/
inductive Since (published : List PageIndexMutation) (r : ℕ) (f₀ f : PageOwnershipIndex) : Prop
  | kept {b : PageOwnershipIndex} {ms : List PageIndexMutation} (hrec : SameRecords f₀ b)
      (hrev : b.revision = f₀.revision) (hbase : b.Base) (hj : b.JournalOk)
      (hev : Evolves Still b ms f) (hyoung : ∀ m ∈ ms, r < m.revision)
      (htags : ∀ m ∈ published, f₀.revision < m.revision → m.revision ≤ f.revision →
        m.components ⊆ Journal.collect PageIndexMutation.components ms)
  | lost {a : ℕ} {ms : List PageIndexMutation} (ha : r < a) (hne : ms ≠ [])
      (hchain : Journal.Chain PageIndexMutation.fromRevision PageIndexMutation.revision a ms
        f.revision)
      (hj : f.mutationJournal = ms.rtake journalBound)

namespace Since

/-- A mirror that has the records and the revision of `f₀` has nothing to say. -/
theorem again (hrec : SameRecords f₀ f) (hrev : f.revision = f₀.revision) (hf : f.Base)
    (hj : f.JournalOk) : Since published r f₀ f :=
  .kept hrec hrev hf hj .refl (by simp) fun m _ hlt hle => by omega

/-- The mirror stands where it stood, with the same records, or beyond `r`. -/
theorem moved (h : Since published r f₀ f) :
    f.revision = f₀.revision ∧ SameRecords f₀ f ∨ r < f.revision := by
  cases h with
  | @kept b ms hrec hrev _ _ hev hyoung _ =>
    cases ms with
    | nil =>
      obtain ⟨hsame,hstay,-⟩ := hev.eq_of_nil rfl
      exact .inl ⟨hstay.trans hrev,hrec.trans hsame⟩
    | cons m ms =>
      have hm := hyoung m (by simp)
      have hle := ((hev.chain fun _ _ h => h.1).mem_rev (List.mem_cons_self (l := ms))).2
      exact .inr (hm.trans_le hle)
  | lost ha _ hchain _ => exact .inr (ha.trans_le hchain.le)

theorem still (h : Since published r f₀ f) (hs : Still f f') : Since published r f₀ f' := by
  cases h with
  | kept hrec hrev hbase hj hev hyoung htags =>
    exact .kept hrec hrev hbase hj (.still hev hs) hyoung fun m hm hlt hle =>
      htags m hm hlt (hs.1.revision ▸ hle)
  | lost ha hne hchain hj => exact .lost ha hne (hs.1.revision ▸ hchain) (hs.1.journal.trans hj)

/-- The source goes on without the mirror. -/
theorem publish (h : Since published r f₀ f) {new : List PageIndexMutation}
    (hnew : ∀ m ∈ new, f.revision < m.revision) : Since (published ++ new) r f₀ f := by
  cases h with
  | kept hrec hrev hbase hj hev hyoung htags =>
    refine .kept hrec hrev hbase hj hev hyoung fun m hm hlt hle => ?_
    rcases List.mem_append.mp hm with hm | hm
    · exact htags m hm hlt hle
    · have := hnew m hm
      omega
  | lost ha hne hchain hj => exact .lost ha hne hchain hj

/-- The mirror journals a delta that brings it beyond `r`. -/
theorem emit (h : Since published r f₀ f) (he : Emits f e f') (hr : r < f'.revision)
    (htags : ∀ m ∈ published, f.revision < m.revision → m.revision ≤ f'.revision →
      m.components ⊆ e.components) : Since published r f₀ f' := by
  cases h with
  | @kept b ms hrec hrev hbase hj hev hyoung hold =>
    refine .kept hrec hrev hbase hj (.emit hev he) (fun m hm => ?_) fun m hm hlt hle k hk => ?_
    · rcases List.mem_append.mp hm with hm | hm
      · exact hyoung m hm
      · rw [List.mem_singleton.mp hm,← he.revision_eq]
        exact hr
    · rw [Journal.mem_collect]
      by_cases hcase : m.revision ≤ f.revision
      · obtain ⟨m',hm',hk'⟩ := (Journal.mem_collect _ _ _).mp (hold m hm hlt hcase hk)
        exact ⟨m',by simp [hm'],hk'⟩
      · exact ⟨e,by simp,htags m hm (not_le.mp hcase) hle hk⟩
  | @lost a ms ha hne hchain hj =>
    refine .lost ha (List.append_ne_nil_of_left_ne_nil hne [e])
      (hchain.append (.cons he.fromRevision he.revision_lt ?_)) ?_
    · rw [he.revision_eq]
      exact .nil _
    · rw [he.journal,hj]
      exact Journal.rtake_rtake_append _ _ _

/-- The mirror drops its journal and journals a rebuild. Only a reader that stands right before
the rebuild does not notice. -/
theorem rebuild (h : Since published r f₀ f) (hf : f.Base)
    (he : Emits { f with mutationJournal := [] } e f') (hr : r < f'.revision)
    (htags : ∀ m ∈ published, f.revision < m.revision → m.revision ≤ f'.revision →
      m.components ⊆ e.components) : Since published r f₀ f' := by
  have hfrom : e.fromRevision = f.revision := he.fromRevision
  have hlt : f.revision < e.revision := he.revision_lt
  have hblank : SameRecords f { f with mutationJournal := [] } := ⟨rfl,rfl,fun _ => rfl,rfl,rfl⟩
  rcases h.moved with ⟨heq,hsame⟩ | hbeyond
  · refine .kept (hsame.trans hblank) heq (hblank.base hf) ⟨Nat.zero_le _,by simp⟩
      (.emit .refl he) (fun m hm => ?_) fun m hm hlt hle k hk => ?_
    · rw [List.nil_append,List.mem_singleton] at hm
      rw [hm,← he.revision_eq]
      exact hr
    · rw [Journal.mem_collect]
      exact ⟨e,by simp,htags m hm (heq ▸ hlt) hle hk⟩
  · have hchain : Journal.Chain PageIndexMutation.fromRevision PageIndexMutation.revision f.revision
        [e] f'.revision := by
      rw [he.revision_eq]
      exact .cons hfrom hlt (.nil _)
    have hjournal : f'.mutationJournal = [e].rtake journalBound := by
      rw [he.journal,Journal.push,List.nil_append]
    exact .lost hbeyond (List.cons_ne_nil e []) hchain hjournal

end Since

/-! ## What a reader of the mirror is told -/

/-- The change set lists every page and every context that differ between the two states, and
every tag that the source published after `r`. -/
structure CoversChanges (published : List PageIndexMutation) (r : ℕ) (f₀ f : PageOwnershipIndex)
    (cs : ChangeSet) : Prop where
  handles : ∀ h : PageHandle, f.pages[h]? ≠ f₀.pages[h]? → h ∈ cs.handles
  contextIds : ∀ c : String, f.pagesOf c ≠ f₀.pagesOf c ∨ f.contextEpoch[c]? ≠ f₀.contextEpoch[c]? ∨
    f.contextWorkflow[c]? ≠ f₀.contextWorkflow[c]? → c ∈ cs.contextIds
  components : ∀ m ∈ published, r < m.revision → m.revision ≤ f.revision →
    m.components ⊆ cs.components

/-- A journal that begins after the reader's revision shows a gap. -/
theorem changesSince_gap {a : ℕ} (hlt : r < a) (hne : ms ≠ [])
    (hchain : Journal.Chain PageIndexMutation.fromRevision PageIndexMutation.revision a ms f.revision)
    (hj : f.mutationJournal = ms.rtake journalBound) :
    ∃ cs, f.changesSince r = .ok cs ∧ cs.fullRebuildRequired = true := by
  have hle := hchain.le
  obtain ⟨a',ha',hmove⟩ := hchain.drop (ms.length - journalBound) (Nat.sub_le _ _)
  have hne' : ms.rtake journalBound ≠ [] := by
    intro hnil
    have hlen := congrArg List.length hnil
    simp only [List.rtake,List.length_drop,List.length_nil] at hlen
    have := journalBound_pos
    have := List.length_pos_iff.mpr hne
    omega
  have hgap : Journal.cover PageIndexMutation.fromRevision PageIndexMutation.revision r
      (ms.rtake journalBound) = none := ha'.cover_gap (by omega) hne'
  have hsince : f.mutationsSince r = ms.rtake journalBound := by
    unfold mutationsSince
    rw [hj]
    have hyoung (m : PageIndexMutation) (hm : m ∈ ms.rtake journalBound) : r < m.revision :=
      hlt.trans (hchain.mem_rev (List.mem_of_mem_drop hm)).1
    have hall := Journal.since_append PageIndexMutation.revision r [] (ms.rtake journalBound)
      (by simp) hyoung
    rwa [List.nil_append] at hall
  unfold changesSince
  rw [if_neg (by omega),if_neg (by omega)]
  refine ⟨_,rfl,?_⟩
  simp only [hsince,hgap]
  simp

/-- A reader learns everything or is told to start over. -/
theorem Since.changes (h : Since published r f₀ f) (h₀ : f₀.revision ≤ r) (hr : r ≤ f.revision) :
    ∃ cs, f.changesSince r = .ok cs ∧
      (cs.fullRebuildRequired = true ∨ CoversChanges published r f₀ f cs) := by
  cases h with
  | lost ha hne hchain hj =>
    obtain ⟨cs,hcs,hfull⟩ := changesSince_gap ha hne hchain hj
    exact ⟨cs,hcs,.inl hfull⟩
  | @kept b ms hrec hrev _ hj hev hyoung htags =>
    have hsilent (t u : PageOwnershipIndex) (h : Still t u) := h.1
    have hold (m : PageIndexMutation) (hm : m ∈ b.mutationJournal) : m.revision ≤ r :=
      (hj.revision_le m hm).trans (hrev.trans_le h₀)
    obtain ⟨cs,hcs,hhandles,hcontexts,hcomponents,hfull⟩ := changesSince_eq
      (hev.journal_eq hsilent hj) hold hyoung (hev.chain hsilent) (hrev.trans_le h₀) hr
    refine ⟨cs,hcs,?_⟩
    by_cases hfit : journalBound < ms.length
    · exact .inl (hfull.mpr hfit)
    · rw [Journal.rtake_of_length_le (not_lt.mp hfit)] at hhandles hcontexts hcomponents
      refine .inr ⟨fun h hne => ?_,fun c hne => ?_,fun m hm hlt hle => ?_⟩
      · rw [hhandles]
        by_contra hin
        apply hne
        rw [← hrec.pages]
        exact hev.pages_frame (fun _ _ h => h.2) fun m hm hx =>
          hin ((Journal.mem_collect _ _ _).mpr ⟨m,hm,hx⟩)
      · rw [hcontexts]
        by_contra hin
        have hc : c ∉ contextualIds ms := by
          intro hx
          obtain ⟨m,hm,-,hc⟩ := mem_contextualIds.mp hx
          exact hin ((Journal.mem_collect _ _ _).mpr ⟨m,hm,hc⟩)
        obtain ⟨h₁,h₂,h₃⟩ := hev.contexts_frame (fun _ _ h => h.2) hc
        rw [hrec.pagesOf] at h₁
        rw [hrec.contextEpoch] at h₂
        rw [hrec.contextWorkflow] at h₃
        simp [h₁,h₂,h₃] at hne
      · rw [hcomponents]
        exact htags m hm (h₀.trans_lt hlt) hle

/-! ## One delta -/

/-- A mirror of the mirror that agreed with `f₀` is brought to the present. -/
theorem Since.sync (h : Since published f₀.revision f₀ f) (hf : f.Sound) (h₀ : f₀.Base)
    (hrec : SameRecords f₀ g) (hrev : g.revision = f₀.revision) (hcache : g.CacheValid) (v : Bool) :
    ∃ δ, f.replicaDeltaSince g.revision = .ok δ ∧
      g.applyReplicaDelta δ v = (g.installDelta δ,.ok ()) ∧ Agrees f (g.installDelta δ) ∧
      (g.installDelta δ).CacheValid := by
  cases h with
  | @kept b ms hb hbrev hbase hj hev _ _ =>
    exact Tracks.sync hf ⟨⟨b,ms,hev,hbase,hj,hb.symm.trans hrec,hrev.trans hbrev.symm⟩,hcache⟩ v
  | @lost a ms ha hne hchain hj =>
    have hle := hchain.le
    have hlt : g.revision < a := by omega
    obtain ⟨cs,hcs,hfull⟩ := changesSince_gap hlt hne hchain hj
    obtain ⟨δ,hδ,hcut⟩ := FullDelta.of_changes hcs (by simp [hfull])
    exact ⟨δ,hδ,hcut.sync hf (by omega) (hrec.base h₀).latest hcache v⟩

/-- The mirror agreed with an earlier state of the source, and `published` lists what the source
has published since, after older entries. -/
def Follows (published : List PageIndexMutation) (s f : PageOwnershipIndex) : Prop :=
  ∃ s₀ ms pre, published = pre ++ ms ∧ (∀ m ∈ pre, m.revision ≤ s₀.revision) ∧
    Evolves Still s₀ ms s ∧ s₀.Base ∧ s₀.JournalOk ∧ SameRecords s₀ f ∧
    f.revision = s₀.revision ∧ f.topologyRevision = s₀.topologyRevision

/-- Every tag published after the mirror's revision still stands in the source's journal, in an
entry after that revision. -/
def TagsSurvive (published : List PageIndexMutation) (s f : PageOwnershipIndex) : Prop :=
  ∀ m ∈ published, f.revision < m.revision → ∀ k ∈ m.components,
    ∃ m' ∈ s.mutationJournal, f.revision < m'.revision ∧ k ∈ m'.components

instance (published : List PageIndexMutation) (s f : PageOwnershipIndex) :
    Decidable (TagsSurvive published s f) :=
  inferInstanceAs (Decidable (∀ m ∈ published, f.revision < m.revision → ∀ k ∈ m.components,
    ∃ m' ∈ s.mutationJournal, f.revision < m'.revision ∧ k ∈ m'.components))

/-- The entries that fit into the journal are those a reader is shown. -/
theorem Remembers.mem_rtake (hrem : Remembers s r ms) {m : PageIndexMutation}
    (hm : m ∈ s.mutationJournal) (hlt : r < m.revision) : m ∈ ms.rtake journalBound := by
  obtain ⟨old,hold,hj⟩ := hrem.journal
  rw [hj,Journal.rtake_append,List.mem_append] at hm
  rcases hm with hm | hm
  · have := hold m (List.mem_of_mem_drop hm)
    omega
  · exact hm

/-- When the tags survive, the delta carries them all. -/
theorem Remembers.components_subset (hrem : Remembers s r ms) (hδ : s.replicaDeltaSince r = .ok δ)
    (htags : ∀ m ∈ ms, ∀ k ∈ m.components, ∃ m' ∈ s.mutationJournal, r < m'.revision ∧
      k ∈ m'.components) : Journal.collect PageIndexMutation.components ms ⊆ δ.components := by
  obtain ⟨cs,hcs,hcomponents,-⟩ := replicaDeltaSince_changes hδ
  obtain ⟨cs',hcs',-,-,hcollect,-⟩ := hrem.changesSince
  cases hcs.symm.trans hcs'
  rw [hcomponents,hcollect]
  intro k hk
  obtain ⟨m,hm,hk⟩ := (Journal.mem_collect _ _ _).mp hk
  obtain ⟨m',hm',hlt,hk'⟩ := htags m hm k hk
  exact (Journal.mem_collect _ _ _).mpr ⟨m',hrem.mem_rtake hm' hlt,hk'⟩

theorem installDelta_physical (f : PageOwnershipIndex) (δ : PageIndexReplicaDelta) :
    f.physicalStateRevision < (f.installDelta δ).physicalStateRevision ∨
      δ.components ∩ Component.physical = ∅ ∧
        (f.installDelta δ).physicalStateRevision = f.physicalStateRevision := by
  rw [installDelta_physicalStateRevision]
  by_cases hk : δ.fullRebuildRequired = true ∨ δ.components ∩ Component.physical ≠ ∅
  · exact .inl (by rw [if_pos hk]; omega)
  · rw [not_or,not_not] at hk
    exact .inr ⟨hk.2,if_neg (by simp [hk])⟩

section Apply
variable (hev : Evolves Still s₀ ms s) (hrec : SameRecords s₀ f)
  (hag : Agrees s (f.installDelta δ)) (hto : δ.toRevision = s.revision)
include hev hrec hag hto

/-- A rebuild that moves the mirror: one entry in an empty journal. -/
theorem FullDelta.emits (hδ : FullDelta s r δ) (hlt : f.revision < s.revision)
    (hcomp : Journal.collect PageIndexMutation.components ms ⊆ δ.components) :
    Emits { f with mutationJournal := [] } (f.intervalEntry δ) (f.installDelta δ) := by
  have hsum : Summarizes ms s (f.intervalEntry δ) := by
    refine ⟨fun h _ hh => ?_,fun c hc => ?_,fun c hc => ?_,hcomp⟩
    · change h ∈ δ.changedHandles
      rw [hδ.changedHandles]
      simpa using hh
    · change c ∈ δ.changedContextIds
      rw [hδ.changedContextIds]
      simpa using hev.contexts_known (fun _ _ h => h.1) c hc
    · change c ∈ δ.changedContextIds at hc
      rw [hδ.changedContextIds] at hc
      simpa using hc
  have hbase : f.deltaBase δ = f.clear := if_pos hδ.full
  have hj : (f.installDelta δ).mutationJournal = Journal.push journalBound [] (f.intervalEntry δ) := by
    rw [installDelta_mutationJournal,if_pos (hto ▸ hlt),hbase,clear]
  have hcache := sameCache_installDelta (m := f) δ
  exact hev.emits hsum ⟨hrec.pages,hrec.latestGeneration,hrec.pagesOf,hrec.contextEpoch,
    hrec.contextWorkflow⟩ hag.toSameRecords rfl (hlt.trans_eq hto.symm) (hag.revision.trans hto.symm) hj
    ⟨hcache.revision,hcache.breakdown,hcache.locked,hcache.handles,hcache.pages⟩
    (installDelta_physical f δ)

/-- A diff that moves the mirror: one more entry. -/
theorem DiffDelta.emits (hδ : DiffDelta s r ms δ) (hlt : f.revision < s.revision) :
    Emits f (f.intervalEntry δ) (f.installDelta δ) := by
  have hsum : Summarizes ms s (f.intervalEntry δ) := by
    refine ⟨fun h hh _ => ?_,fun c hc => ?_,fun c hc => ?_,?_⟩
    · change h ∈ δ.changedHandles
      rwa [hδ.changedHandles]
    · change c ∈ δ.changedContextIds
      rwa [hδ.changedContextIds]
    · change c ∈ δ.changedContextIds at hc
      rw [hδ.changedContextIds] at hc
      exact hev.contexts_known (fun _ _ h => h.1) c hc
    · change _ ⊆ δ.components
      rw [hδ.components]
  have hbase : f.deltaBase δ = f := if_neg (by simp [hδ.full])
  have hj : (f.installDelta δ).mutationJournal =
      Journal.push journalBound f.mutationJournal (f.intervalEntry δ) := by
    rw [installDelta_mutationJournal,if_pos (hto ▸ hlt),hbase]
  exact hev.emits hsum hrec hag.toSameRecords rfl (hlt.trans_eq hto.symm) (hag.revision.trans hto.symm) hj
    (sameCache_installDelta δ) (installDelta_physical f δ)

end Apply

/-- One delta for the mirror: it is applied, and what the mirror's journal says about earlier
states of the mirror stays true, unless the revision in question lies ahead. -/
theorem Follows.sync (hfol : Follows published s f) (hs : s.Sound) (hf : f.Sound)
    (htags : TagsSurvive published s f) (v : Bool) : ∃ δ, s.replicaDeltaSince f.revision = .ok δ ∧
      f.applyReplicaDelta δ v = (f.installDelta δ,.ok ()) ∧ Agrees s (f.installDelta δ) ∧
      (f.installDelta δ).Sound ∧
      ∀ r f₀, Since published r f₀ f → f₀.revision ≤ r →
        (f.installDelta δ).revision ≤ f₀.revision ∨ r < (f.installDelta δ).revision →
        Since published r f₀ (f.installDelta δ) := by
  obtain ⟨s₀,ms,pre,rfl,hpre,hev,h₀,hj,hrec,hrev,htop⟩ := hfol
  have hrem : Remembers s f.revision ms := hrev ▸ hev.remembers (fun _ _ h => h.1) hj
  have hle := hrem.chain.le
  obtain ⟨δ,hδ,hcut⟩ := hrem.replicaDelta
  have hcomp : Journal.collect PageIndexMutation.components ms ⊆ δ.components :=
    hrem.components_subset hδ fun m hm =>
      htags m (by simp [hm]) (hrem.chain.mem_rev hm).1
  have hpub (t : ℕ) (m : PageIndexMutation) (hm : m ∈ pre ++ ms) (hlt : f.revision < m.revision)
      (_ : m.revision ≤ t) : m.components ⊆ (f.intervalEntry δ).components := by
    rcases List.mem_append.mp hm with hm | hm
    · have := hpre m hm
      omega
    · exact fun k hk => hcomp ((Journal.mem_collect _ _ _).mpr ⟨m,hm,hk⟩)
  have hcutAt : CutAt s f.revision δ := hcut.elim (·.toCutAt) (·.toCutAt)
  obtain ⟨happ,hag,hcache⟩ : f.applyReplicaDelta δ v = (f.installDelta δ,.ok ()) ∧
      Agrees s (f.installDelta δ) ∧ (f.installDelta δ).CacheValid := by
    rcases hcut with hfull | hdiff
    · exact hfull.sync hs hle hf.inv.latest hf.cache v
    · exact hdiff.sync hs hle hev h₀ hrec hf.cache v
  have hsound (hjournal : (f.installDelta δ).JournalOk) : (f.installDelta δ).Sound :=
    ⟨hag.inv hs.inv,hag.epochsCurrent hs.epochs,hcache,hjournal⟩
  refine ⟨δ,hδ,happ,hag,?_⟩
  by_cases hlt : f.revision < s.revision
  · have hpass {r : ℕ} {f₀ : PageOwnershipIndex} (h : Since (pre ++ ms) r f₀ f)
        (h₀ : f₀.revision ≤ r) (hr : (f.installDelta δ).revision ≤ f₀.revision ∨
          r < (f.installDelta δ).revision) : r < (f.installDelta δ).revision := by
      have hnow := hag.revision
      rcases h.moved with ⟨heq,-⟩ | hbeyond <;> omega
    rcases hcut with hfull | hdiff
    · have he := hfull.emits hev hrec hag hcutAt.toRevision hlt hcomp
      have hone : Evolves Still { f with mutationJournal := [] } [f.intervalEntry δ]
        (f.installDelta δ) := .emit .refl he
      exact ⟨hsound (hone.journalOk (fun _ _ h => h.1) ⟨Nat.zero_le _,by simp⟩),
        fun r f₀ h h₀ hr => h.rebuild hf.inv.toBase he (hpass h h₀ hr) (hpub _)⟩
    · have he := hdiff.emits hev hrec hag hcutAt.toRevision hlt
      have hone : Evolves Still f [f.intervalEntry δ] (f.installDelta δ) := .emit .refl he
      exact ⟨hsound (hone.journalOk (fun _ _ h => h.1) hf.journal),
        fun r f₀ h h₀ hr => h.emit he (hpass h h₀ hr) (hpub _)⟩
  · -- The source has published nothing new.
    have heq : f.revision = s.revision := by omega
    have hms : ms = [] := by
      have hchain := hrem.chain
      rw [← heq] at hchain
      exact hchain.eq_nil_of_eq
    obtain ⟨hnil,-,hnilTop⟩ := hev.eq_of_nil hms
    have hsame : SameRecords f (f.installDelta δ) := hrec.symm.trans (hnil.trans hag.toSameRecords)
    have hstay : (f.installDelta δ).revision = f.revision := hag.revision.trans heq.symm
    have hjournal : (f.installDelta δ).mutationJournal = (f.deltaBase δ).mutationJournal := by
      rw [installDelta_mutationJournal,hcutAt.toRevision,if_neg hlt]
    rcases hcut with hfull | hdiff
    · -- Only an empty mirror is rebuilt for nothing.
      have hzero : f.revision = 0 := by
        obtain ⟨cs,hcs,-,hflag⟩ := replicaDeltaSince_changes hδ
        obtain ⟨cs',hcs',-,-,-,hiff⟩ := hrem.changesSince
        cases hcs.symm.trans hcs'
        have hnot : ¬ cs.fullRebuildRequired = true := by
          rw [hiff,hms]
          exact Nat.not_lt_zero _
        rw [hfull.full] at hflag
        simpa [hnot] using hflag
      have hclear : (f.installDelta δ).mutationJournal = [] := by
        rw [hjournal,show f.deltaBase δ = f.clear from if_pos hfull.full,clear]
      have hok : (f.installDelta δ).JournalOk := by
        constructor <;> rw [hclear]
        · exact Nat.zero_le _
        · simp
      refine ⟨hsound hok,fun r f₀ h _ _ => ?_⟩
      rcases h.moved with ⟨hstand,hsame₀⟩ | hbeyond
      · exact .again (hsame₀.trans hsame) (hstay.trans hstand) (hsame.base hf.inv.toBase) hok
      · omega
    · rw [show f.deltaBase δ = f from if_neg (by simp [hdiff.full])] at hjournal
      have hstill : Still f (f.installDelta δ) :=
        ⟨.of_sameRecords hsame hstay (by rw [hag.topologyRevision,hnilTop,htop]) hjournal
          fun _ => hcache,hsame⟩
      refine ⟨hsound ?_,fun r f₀ h _ _ => h.still hstill⟩
      constructor <;> rw [hjournal]
      · exact hf.journal.length_le
      · rw [hstay]
        exact hf.journal.revision_le

end BeliefKV.PageOwnershipIndex
