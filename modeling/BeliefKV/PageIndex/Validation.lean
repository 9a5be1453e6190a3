import BeliefKV.PageIndex.Delta

/-! What the check of a whole mirror and the check of a delta look at, and when they agree. -/
namespace BeliefKV.PageOwnershipIndex
variable {s t : PageOwnershipIndex} {δ : PageIndexReplicaDelta}

/-! ## What is checked -/

/-- Every page of a context names it as an owner, at its epoch. -/
def ContextFits (t : PageOwnershipIndex) (c : String) : Prop :=
  ∀ h ∈ t.pagesOf c, ∃ p, t.pages[h]? = some p ∧
    ∃ e, p.ownerContexts[c]? = some e ∧ t.contextEpoch[c]? = some e

/-- The owners of a page list it, and its Radix edges go both ways between live pages. -/
structure PageFits (t : PageOwnershipIndex) (p : PhysicalPageRecord) : Prop where
  owners : ∀ c ∈ p.ownerContexts, p.handle ∈ t.pagesOf c
  counts : 0 ≤ p.engineLockRef ∧ 0 ≤ p.activeReaderCount
  dead : p.residency = .dead → p.children = ∅
  parent : p.residency ≠ .dead → ∀ q ∈ p.parent, ∃ r, t.pages[q]? = some r ∧ r.residency ≠ .dead ∧
    p.handle ∈ r.children
  children : p.residency ≠ .dead → ∀ k ∈ p.children, ∃ r, t.pages[k]? = some r ∧
    r.residency ≠ .dead ∧ r.parent = some p.handle

theorem contextErrors_iff (c : String) (missing : Raised) :
    t.contextErrors c missing = [] ↔ t.ContextFits c := by
  unfold contextErrors
  rw [handleErrors_eq_nil]
  refine forall₂_congr fun h _ => exists_congr fun p => and_congr_right fun _ => ?_
  cases p.ownerContexts[c]? with
  | none => simp
  | some e =>
    cases t.contextEpoch[c]? with
    | none => simp
    | some current => simp [eq_comm]

theorem childErrors_iff (p r : PhysicalPageRecord) :
    (if r.residency = .dead then
        some (Raised.assertionError "Radix parent retains a missing or dead child")
      else if r.parent ≠ some p.handle then some (.assertionError "Radix parent/child edge diverged")
      else none) = none ↔ r.residency ≠ .dead ∧ r.parent = some p.handle := by
  split_ifs <;> simp_all

theorem pageErrors_iff (p : PhysicalPageRecord) : t.pageErrors p = [] ↔ t.PageFits p := by
  unfold pageErrors
  rw [List.append_eq_nil_iff,List.append_eq_nil_iff,List.filterMap_eq_nil_iff]
  have howners : (∀ c ∈ p.ownerContexts.keys, (if p.handle ∉ t.pagesOf c then
      some (Raised.assertionError "page owner lacks reverse context mapping") else none) = none) ↔
      ∀ c ∈ p.ownerContexts, p.handle ∈ t.pagesOf c := by
    simp
  have hcounts : (if p.engineLockRef < 0 ∨ p.activeReaderCount < 0 then
      [Raised.assertionError "negative page reference count"] else []) = [] ↔
      0 ≤ p.engineLockRef ∧ 0 ≤ p.activeReaderCount := by
    split_ifs with h
    · simp only [false_iff]
      omega
    · simp only [true_iff]
      omega
  rw [howners,hcounts]
  by_cases hdead : p.residency = .dead
  · rw [if_pos hdead]
    constructor
    · rintro ⟨⟨ho,hc⟩,hd⟩
      exact ⟨ho,hc,fun _ => by simpa using hd,fun h => absurd hdead h,fun h => absurd hdead h⟩
    · exact fun h => ⟨⟨h.owners,h.counts⟩,by simp [h.dead hdead]⟩
  · rw [if_neg hdead,List.append_eq_nil_iff,handleErrors_eq_nil]
    constructor
    · rintro ⟨⟨ho,hc⟩,hp,hk⟩
      refine ⟨ho,hc,fun h => absurd h hdead,fun _ q hq => ?_,fun _ k hk' => ?_⟩
      · rw [Option.mem_def] at hq
        cases hr : t.pages[q]? with
        | none => simp [hq,hr] at hp
        | some r =>
          simp only [hq,hr] at hp
          split_ifs at hp with hrdead hmem
          exact ⟨r,rfl,hrdead,hmem⟩
      · obtain ⟨r,hr,hcheck⟩ := hk k hk'
        exact ⟨r,hr,(childErrors_iff p r).mp hcheck⟩
    · refine fun h => ⟨⟨h.owners,h.counts⟩,?_,fun k hk => ?_⟩
      · cases hq : p.parent with
        | none => rfl
        | some q =>
          obtain ⟨r,hr,hlive,hmem⟩ := h.parent hdead q hq
          simp [hr,hlive,hmem]
      · obtain ⟨r,hr,hlive⟩ := h.children hdead k hk
        exact ⟨r,hr,(childErrors_iff p r).mpr hlive⟩

theorem assertConsistent_iff : t.assertConsistent = .ok () ↔
    (∀ c, t.ContextFits c) ∧ ∀ (h : PageHandle) p, t.pages[h]? = some p → t.PageFits p := by
  unfold assertConsistent
  rw [raiseFirst_eq_ok,List.append_eq_nil_iff,List.flatMap_eq_nil_iff,List.flatMap_eq_nil_iff]
  simp only [contextErrors_iff,pageErrors_iff]
  refine and_congr ⟨fun h c => ?_,fun h c _ => h c⟩ ?_
  · by_cases hc : c ∈ t.contextPages
    · exact h c (Std.ExtTreeMap.mem_keys.mpr hc)
    · intro k hk
      simp [pagesOf,(Dict.notMem_iff_get _ _).mp hc] at hk
  · constructor
    · exact fun h k p hp => h p ((Dict.mem_vals _ _).mpr ⟨k,hp⟩)
    · intro h p hp
      obtain ⟨k,hk⟩ := (Dict.mem_vals _ _).mp hp
      exact h k p hk

/-- The contexts the check of a delta looks at. -/
def ExaminesContext (t : PageOwnershipIndex) (δ : PageIndexReplicaDelta) (c : String) : Prop :=
  c ∈ δ.changedContextIds ∨ ∃ h ∈ δ.changedHandles, ∃ p, t.pages[h]? = some p ∧ c ∈ p.ownerContexts

/-- The handles the check of a delta looks at. -/
def ExaminesPage (t : PageOwnershipIndex) (δ : PageIndexReplicaDelta) (h : PageHandle) : Prop :=
  h ∈ δ.changedHandles ∨ ∃ k ∈ δ.changedHandles, ∃ p, t.pages[k]? = some p ∧
    (p.parent = some h ∨ h ∈ p.children)

theorem assertDeltaConsistent_iff : t.assertDeltaConsistent δ = .ok () ↔
    (∀ c, t.ExaminesContext δ c → c ∈ t.contextEpoch ∧ t.ContextFits c) ∧
      ∀ h p, t.ExaminesPage δ h → t.pages[h]? = some p → t.PageFits p := by
  have hcontexts (c : String) : c ∈ δ.changedContextIds ∪
      (δ.changedHandles.filter fun h => t.pages.contains h).biUnion (fun h =>
        ((t.pages[h]?).map fun p => p.ownerContexts.keySet).getD ∅) ↔ t.ExaminesContext δ c := by
    simp only [Finset.mem_union,Finset.mem_biUnion,Finset.mem_filter,ExaminesContext]
    refine or_congr_right (exists_congr fun h => ?_)
    cases hp : t.pages[h]? with
    | none => simp
    | some p =>
      have hmem : h ∈ t.pages := (Dict.mem_iff_get _ _).mpr ⟨p,hp⟩
      simp [hmem]
  have hpages (h : PageHandle) : h ∈ δ.changedHandles ∪
      (δ.changedHandles.filter fun h => t.pages.contains h).biUnion (fun h =>
        ((t.pages[h]?).map fun p => p.parent.toFinset ∪ p.children).getD ∅) ↔ t.ExaminesPage δ h := by
    simp only [Finset.mem_union,Finset.mem_biUnion,Finset.mem_filter,ExaminesPage]
    refine or_congr_right (exists_congr fun k => ?_)
    cases hp : t.pages[k]? with
    | none => simp
    | some p =>
      have hmem : k ∈ t.pages := (Dict.mem_iff_get _ _).mpr ⟨p,hp⟩
      simp [hmem]
  unfold assertDeltaConsistent
  dsimp only
  rw [raiseFirst_eq_ok,List.append_eq_nil_iff,List.append_eq_nil_iff,List.flatMap_eq_nil_iff,
    List.flatMap_eq_nil_iff]
  simp only [contextErrors_iff,pageErrors_iff]
  constructor
  · rintro ⟨⟨hknown,hfits⟩,hp⟩
    have hreg (c : String) (hc : t.ExaminesContext δ c) : c ∈ t.contextEpoch := by
      by_contra hn
      rw [if_pos ⟨c,(hcontexts c).mpr hc,by simpa using hn⟩] at hknown
      cases hknown
    refine ⟨fun c hc => ⟨hreg c hc,hfits c ?_⟩,fun h p hh hget => hp p ?_⟩
    · exact List.mem_filter.mpr
        ⟨Std.ExtTreeMap.mem_keys.mpr (hreg c hc),decide_eq_true ((hcontexts c).mpr hc)⟩
    · refine (Dict.mem_vals _ _).mpr ⟨h,?_⟩
      rw [Dict.get_select,hget]
      exact Option.filter_eq_some_iff.mpr ⟨rfl,decide_eq_true ((hpages h).mpr hh)⟩
  · rintro ⟨hc,hp⟩
    refine ⟨⟨if_neg ?_,fun c hmem => ?_⟩,fun p hmem => ?_⟩
    · rintro ⟨c,hexam,hn⟩
      exact hn (by simpa using (hc c ((hcontexts c).mp hexam)).1)
    · exact (hc c ((hcontexts c).mp (of_decide_eq_true (List.mem_filter.mp hmem).2))).2
    · obtain ⟨h,hh⟩ := (Dict.mem_vals _ _).mp hmem
      rw [Dict.get_select,Option.filter_eq_some_iff] at hh
      exact hp h p ((hpages h).mp (of_decide_eq_true hh.2)) hh.1

/-! ## What a delta leaves behind -/

/-- The records of a delta stand under their own handles, and it lists what it writes. -/
structure Listed (δ : PageIndexReplicaDelta) : Prop where
  diff : δ.fullRebuildRequired = false
  keyed : ∀ (h : PageHandle) (p : PhysicalPageRecord), δ.pages[h]? = some p → p.handle = h
  pages : ∀ h ∈ δ.pages, h ∈ δ.changedHandles
  states : ∀ h ∈ δ.pageStates, h ∈ δ.changedHandles
  contexts : ∀ c ∈ δ.contexts, c ∈ δ.changedContextIds

/-- A page that is not written refers to a record that is written and no longer refers to it. -/
def StrandsPage (s : PageOwnershipIndex) (δ : PageIndexReplicaDelta) (h : PageHandle) : Prop :=
  h ∉ δ.changedHandles ∧ ∃ p, s.pages[h]? = some p ∧
    ((∃ c ∈ p.ownerContexts, ∃ r, δ.contexts[c]? = some r ∧ h ∉ r.handles) ∨
      (p.residency ≠ .dead ∧ ∃ q ∈ p.parent, ∃ r, δ.pages[q]? = some r ∧ h ∉ r.children) ∨
      (p.residency ≠ .dead ∧ ∃ k ∈ p.children, ∃ r, δ.pages[k]? = some r ∧ r.parent ≠ some h))

/-- A context that is not written lists a page that is written and is not its own at its epoch. -/
def StrandsContext (s : PageOwnershipIndex) (δ : PageIndexReplicaDelta) (c : String) : Prop :=
  c ∉ δ.changedContextIds ∧ ∃ h ∈ s.pagesOf c, ∃ r, δ.pages[h]? = some r ∧
    r.ownerContexts[c]? ≠ s.contextEpoch[c]?

def Strands (s : PageOwnershipIndex) (δ : PageIndexReplicaDelta) : Prop :=
  (∃ h, s.StrandsPage δ h) ∨ ∃ c, s.StrandsContext δ c

/-- A context is listed as changed that is not registered. -/
def ListsUnknown (t : PageOwnershipIndex) (δ : PageIndexReplicaDelta) : Prop :=
  ∃ c ∈ δ.changedContextIds, c ∉ t.contextEpoch

/-- A record that the delta names, or one that its pages refer to, does not fit the others. -/
def Faulty (t : PageOwnershipIndex) (δ : PageIndexReplicaDelta) : Prop :=
  (∃ c, t.ExaminesContext δ c ∧ ¬ t.ContextFits c) ∨
    (∃ h ∈ δ.changedHandles, ∃ p, t.pages[h]? = some p ∧ ∃ c ∈ p.ownerContexts, c ∉ t.contextEpoch) ∨
    ∃ h p, t.ExaminesPage δ h ∧ t.pages[h]? = some p ∧ ¬ t.PageFits p

theorem delta_raises_iff : t.assertDeltaConsistent δ ≠ .ok () ↔ t.ListsUnknown δ ∨ t.Faulty δ := by
  rw [Ne,assertDeltaConsistent_iff]
  constructor
  · intro hbad
    by_contra hgood
    rw [not_or] at hgood
    obtain ⟨hknown,hfit⟩ := hgood
    refine hbad ⟨fun c hc => ⟨?_,?_⟩,fun h p hh hp => ?_⟩
    · by_contra hn
      rcases hc with hc | ⟨h,hh,p,hp,hc⟩
      · exact hknown ⟨c,hc,hn⟩
      · exact hfit (.inr (.inl ⟨h,hh,p,hp,c,hc,hn⟩))
    · by_contra hn
      exact hfit (.inl ⟨c,hc,hn⟩)
    · by_contra hn
      exact hfit (.inr (.inr ⟨h,p,hh,hp,hn⟩))
  · rintro (⟨c,hc,hn⟩ | ⟨c,hc,hn⟩ | ⟨h,hh,p,hp,c,hc,hn⟩ | ⟨h,p,hh,hp,hn⟩) ⟨hcontexts,hpages⟩
    · exact hn (hcontexts c (.inl hc)).1
    · exact hn (hcontexts c hc).2
    · exact hn (hcontexts c (.inr ⟨h,hh,p,hp,hc⟩)).1
    · exact hn (hpages h p hh hp)

/-! ## The mirror after a delta -/

section Installed
variable {h : PageHandle} {c : String}

/-- Two records of one page that agree on everything but its physical state. -/
structure SameEdges (q p : PhysicalPageRecord) : Prop where
  handle : p.handle = q.handle
  parent : p.parent = q.parent
  children : p.children = q.children
  owners : p.ownerContexts = q.ownerContexts

theorem Listed.base (hδ : Listed δ) (s : PageOwnershipIndex) : s.deltaBase δ = s := by
  rw [deltaBase,hδ.diff]
  rfl

/-- A page is as the delta writes it, or as it was, up to a patch of its physical state. -/
theorem Listed.get_page (hδ : Listed δ) {q : PhysicalPageRecord}
    (hq : (δ.pages[h]?.or s.pages[h]?) = some q) :
    ∃ p, (s.installDelta δ).pages[h]? = some p ∧ SameEdges q p := by
  rw [get_installDelta,hδ.base,hq]
  cases δ.pageStates[h]? with
  | none => exact ⟨q,rfl,rfl,rfl,rfl,rfl⟩
  | some r => exact ⟨patchState q r,rfl,rfl,rfl,rfl,rfl⟩

theorem Listed.written (hδ : Listed δ) {q : PhysicalPageRecord} (hq : δ.pages[h]? = some q) :
    ∃ p, (s.installDelta δ).pages[h]? = some p ∧ SameEdges q p :=
  hδ.get_page (by rw [hq]; rfl)

theorem Listed.page_frame (hδ : Listed δ) (hh : h ∉ δ.changedHandles) :
    (s.installDelta δ).pages[h]? = s.pages[h]? := by
  have hp : δ.pages[h]? = none := (Dict.notMem_iff_get _ _).mp fun hin => hh (hδ.pages h hin)
  have hst : δ.pageStates[h]? = none := (Dict.notMem_iff_get _ _).mp fun hin => hh (hδ.states h hin)
  rw [get_installDelta,hδ.base,hp,hst]
  cases s.pages[h]? <;> rfl

theorem Listed.context_frame (hδ : Listed δ) (hc : c ∉ δ.changedContextIds) :
    (s.installDelta δ).pagesOf c = s.pagesOf c ∧
      (s.installDelta δ).contextEpoch[c]? = s.contextEpoch[c]? := by
  have hn : δ.contexts[c]? = none := (Dict.notMem_iff_get _ _).mp fun hin => hc (hδ.contexts c hin)
  rw [pagesOf_installDelta,contextEpoch_installDelta,hδ.base,hn]
  exact ⟨rfl,rfl⟩

end Installed

/-! ## When the checks agree -/

section Verdicts
variable (hδ : Listed δ) (hs : s.assertConsistent = .ok ())
  (hk : ∀ (h : PageHandle) (p : PhysicalPageRecord), s.pages[h]? = some p → p.handle = h)
include hδ hk

/-- A page the check of the delta does not look at fits, unless it was left behind. -/
theorem pageFits_of_unexamined {h : PageHandle} {p : PhysicalPageRecord} (hfit : s.PageFits p)
    (hp : s.pages[h]? = some p) (hun : ¬ (s.installDelta δ).ExaminesPage δ h)
    (hstay : ¬ s.StrandsPage δ h) : (s.installDelta δ).PageFits p := by
  have hchanged : h ∉ δ.changedHandles := fun hh => hun (.inl hh)
  have hhandle := hk h p hp
  refine ⟨fun c hc => ?_,hfit.counts,hfit.dead,fun hlive q hq => ?_,fun hlive k hk' => ?_⟩
  · have hin := hfit.owners c hc
    rw [pagesOf_installDelta,hδ.base]
    cases hr : δ.contexts[c]? with
    | none => exact hin
    | some r =>
      by_contra hn
      exact hstay ⟨hchanged,p,hp,.inl ⟨c,hc,r,hr,hhandle ▸ hn⟩⟩
  · obtain ⟨r,hr,hrlive,hmem⟩ := hfit.parent hlive q hq
    rw [hhandle] at hmem ⊢
    -- The parent still lists the page, so it was not written at all.
    have hold (r' : PhysicalPageRecord) (hr' : (s.installDelta δ).pages[q]? = some r')
        (hmem' : h ∈ r'.children) : ∃ r, (s.installDelta δ).pages[q]? = some r ∧
          r.residency ≠ .dead ∧ h ∈ r.children := by
      by_cases hq' : q ∈ δ.changedHandles
      · exact absurd (.inr ⟨q,hq',r',hr',.inr hmem'⟩) hun
      · exact ⟨r,(hδ.page_frame hq').trans hr,hrlive,hmem⟩
    cases hw : δ.pages[q]? with
    | none =>
      obtain ⟨r',hr',hsame⟩ := hδ.get_page (s := s) (h := q) (q := r) (by rw [hw]; exact hr)
      exact hold r' hr' (hsame.children ▸ hmem)
    | some w =>
      obtain ⟨r',hr',hsame⟩ := hδ.written (s := s) hw
      refine hold r' hr' (hsame.children ▸ ?_)
      by_contra hn
      exact hstay ⟨hchanged,p,hp,.inr (.inl ⟨hlive,q,hq,w,hw,hn⟩)⟩
  · obtain ⟨r,hr,hrlive,hparent⟩ := hfit.children hlive k hk'
    rw [hhandle] at hparent ⊢
    have hold (r' : PhysicalPageRecord) (hr' : (s.installDelta δ).pages[k]? = some r')
        (hparent' : r'.parent = some h) : ∃ r, (s.installDelta δ).pages[k]? = some r ∧
          r.residency ≠ .dead ∧ r.parent = some h := by
      by_cases hq' : k ∈ δ.changedHandles
      · exact absurd (.inr ⟨k,hq',r',hr',.inl hparent'⟩) hun
      · exact ⟨r,(hδ.page_frame hq').trans hr,hrlive,hparent⟩
    cases hw : δ.pages[k]? with
    | none =>
      obtain ⟨r',hr',hsame⟩ := hδ.get_page (s := s) (h := k) (q := r) (by rw [hw]; exact hr)
      exact hold r' hr' (hsame.parent.trans hparent)
    | some w =>
      obtain ⟨r',hr',hsame⟩ := hδ.written (s := s) hw
      refine hold r' hr' (hsame.parent.trans ?_)
      by_contra hn
      exact hstay ⟨hchanged,p,hp,.inr (.inr ⟨hlive,k,hk',w,hw,hn⟩)⟩

omit hk in
/-- A context the check of the delta does not look at fits, unless it was left behind. -/
theorem contextFits_of_unexamined {c : String} (hfit : s.ContextFits c)
    (hun : c ∉ δ.changedContextIds) (hstay : ¬ s.StrandsContext δ c) :
    (s.installDelta δ).ContextFits c := by
  obtain ⟨hof,hepoch⟩ := hδ.context_frame (s := s) hun
  intro h hh
  rw [hof] at hh
  obtain ⟨p,hp,e,ho,he⟩ := hfit h hh
  rw [hepoch]
  cases hw : δ.pages[h]? with
  | none =>
    obtain ⟨p',hp',hsame⟩ := hδ.get_page (s := s) (h := h) (q := p) (by rw [hw]; exact hp)
    exact ⟨p',hp',e,by rw [hsame.owners]; exact ho,he⟩
  | some w =>
    obtain ⟨p',hp',hsame⟩ := hδ.written (s := s) hw
    refine ⟨p',hp',e,?_,he⟩
    rw [hsame.owners]
    by_contra hn
    exact hstay ⟨hun,h,hh,w,hw,fun heq => hn (heq.trans he)⟩

theorem StrandsPage.unfit {h : PageHandle} (hstrand : s.StrandsPage δ h) :
    ∃ p, (s.installDelta δ).pages[h]? = some p ∧ ¬ (s.installDelta δ).PageFits p := by
  obtain ⟨hchanged,p,hp,hcases⟩ := hstrand
  have hhandle := hk h p hp
  refine ⟨p,(hδ.page_frame hchanged).trans hp,fun hfit => ?_⟩
  rcases hcases with ⟨c,hc,r,hr,hn⟩ | ⟨hlive,q,hq,w,hw,hn⟩ | ⟨hlive,k,hk',w,hw,hn⟩
  · have hin := hfit.owners c hc
    rw [pagesOf_installDelta,hr,hhandle] at hin
    exact hn hin
  · obtain ⟨r,hr,-,hmem⟩ := hfit.parent hlive q hq
    obtain ⟨r',hr',hsame⟩ := hδ.written (s := s) hw
    rw [hr'] at hr
    cases hr
    rw [hsame.children,hhandle] at hmem
    exact hn hmem
  · obtain ⟨r,hr,-,hparent⟩ := hfit.children hlive k hk'
    obtain ⟨r',hr',hsame⟩ := hδ.written (s := s) hw
    rw [hr'] at hr
    cases hr
    rw [hsame.parent,hhandle] at hparent
    exact hn hparent

omit hk in
theorem StrandsContext.unfit {c : String} (hstrand : s.StrandsContext δ c) :
    ¬ (s.installDelta δ).ContextFits c := by
  obtain ⟨hchanged,h,hh,w,hw,hn⟩ := hstrand
  obtain ⟨hof,hepoch⟩ := hδ.context_frame (s := s) hchanged
  intro hfit
  obtain ⟨p,hp,e,ho,he⟩ := hfit h (hof.symm ▸ hh)
  obtain ⟨p',hp',hsame⟩ := hδ.written (s := s) hw
  rw [hp'] at hp
  cases hp
  rw [hsame.owners] at ho
  rw [hepoch] at he
  exact hn (ho.trans he.symm)

omit hδ hk in
/-- The check of the whole mirror sees every fault that the check of the delta looks at. -/
theorem Faulty.raises (hfault : t.Faulty δ) : t.assertConsistent ≠ .ok () := by
  rw [Ne,assertConsistent_iff]
  rintro ⟨hcontexts,hpages⟩
  rcases hfault with ⟨c,-,hn⟩ | ⟨h,-,p,hp,c,hc,hn⟩ | ⟨h,p,-,hp,hn⟩
  · exact hn (hcontexts c)
  · -- The page is among those of the context, which then has an epoch.
    obtain ⟨q,hq,e,-,he⟩ := hcontexts c p.handle ((hpages h p hp).owners c hc)
    exact hn ((Dict.mem_iff_get _ _).mpr ⟨e,he⟩)
  · exact hn (hpages h p hp)

include hs in
theorem full_raises_iff : (s.installDelta δ).assertConsistent ≠ .ok () ↔
    (s.installDelta δ).Faulty δ ∨ s.Strands δ := by
  obtain ⟨hcontexts,hpages⟩ := assertConsistent_iff.mp hs
  constructor
  · rw [Ne,assertConsistent_iff]
    intro hbad
    by_contra hgood
    rw [not_or] at hgood
    obtain ⟨hfit,hstay⟩ := hgood
    refine hbad ⟨fun c => ?_,fun h p hp => ?_⟩
    · by_cases hc : c ∈ δ.changedContextIds
      · by_contra hn
        exact hfit (.inl ⟨c,.inl hc,hn⟩)
      · exact contextFits_of_unexamined hδ (hcontexts c) hc fun h => hstay (.inr ⟨c,h⟩)
    · by_cases hh : (s.installDelta δ).ExaminesPage δ h
      · by_contra hn
        exact hfit (.inr (.inr ⟨h,p,hh,hp,hn⟩))
      · have hold : s.pages[h]? = some p := (hδ.page_frame fun hin => hh (.inl hin)).symm.trans hp
        exact pageFits_of_unexamined hδ hk (hpages h p hold) hold hh fun hx => hstay (.inl ⟨h,hx⟩)
  · rintro (hfault | ⟨h,hstrand⟩ | ⟨c,hstrand⟩)
    · exact hfault.raises
    · rw [Ne,assertConsistent_iff]
      rintro ⟨-,hpages'⟩
      obtain ⟨p,hp,hn⟩ := hstrand.unfit hδ hk
      exact hn (hpages' h p hp)
    · rw [Ne,assertConsistent_iff]
      rintro ⟨hcontexts',-⟩
      exact hstrand.unfit hδ (hcontexts' c)

end Verdicts

/-- On a consistent mirror the two checks agree after a delta exactly when a record that the delta
names or refers to is at fault, or the delta lists an unregistered context just when it leaves a
record behind. -/
theorem verdicts_agree_iff (s : PageOwnershipIndex) (δ : PageIndexReplicaDelta)
    (hs : s.assertConsistent = .ok ())
    (hk : ∀ (h : PageHandle) (p : PhysicalPageRecord), s.pages[h]? = some p → p.handle = h)
    (hδ : Listed δ) :
    ((s.installDelta δ).assertDeltaConsistent δ ≠ .ok () ↔
        (s.installDelta δ).assertConsistent ≠ .ok ()) ↔
      (s.installDelta δ).Faulty δ ∨ ((s.installDelta δ).ListsUnknown δ ↔ s.Strands δ) := by
  rw [delta_raises_iff,full_raises_iff hδ hs hk]
  by_cases hfault : (s.installDelta δ).Faulty δ
  · simp only [hfault,or_true,true_or]
  · simp only [hfault,or_false,false_or]

/-- A page with one child. -/
def sampleMirror : PageOwnershipIndex :=
  { pages := ((∅ : Dict PageHandle PhysicalPageRecord).insert ⟨0,0⟩
        { handle := ⟨0,0⟩, sizeBytes := 1, residency := .gpuOnly, children := {⟨1,0⟩} }).insert ⟨1,0⟩
      { handle := ⟨1,0⟩, sizeBytes := 1, residency := .gpuOnly, parent := some ⟨0,0⟩ } }

/-- The page is written again without its child. -/
def sampleDelta : PageIndexReplicaDelta :=
  { fromRevision := 0
    toRevision := 1
    topologyRevision := 1
    pages := (∅ : Dict PageHandle PhysicalPageRecord).insert ⟨0,0⟩
      { handle := ⟨0,0⟩, sizeBytes := 1, residency := .gpuOnly }
    pageStates := ∅
    contexts := ∅
    changedHandles := {⟨0,0⟩}
    changedContextIds := ∅
    components := {.topology} }

theorem sampleMirror_keyed (h : PageHandle) (p : PhysicalPageRecord)
    (hp : sampleMirror.pages[h]? = some p) : p.handle = h := by
  simp only [sampleMirror,Dict.get_insert] at hp
  split_ifs at hp with h₁ h₂
  · cases hp
    exact h₁
  · cases hp
    exact h₂
  · simp at hp

theorem sampleDelta_listed : Listed sampleDelta := by
  refine ⟨rfl,fun h p hp => ?_,fun h hh => ?_,fun h hh => ?_,fun c hc => ?_⟩
  · simp only [sampleDelta,Dict.get_insert] at hp
    split_ifs at hp with heq
    · cases hp
      exact heq
    · simp at hp
  · rw [sampleDelta,Dict.mem_insert_iff] at hh
    rcases hh with rfl | hh
    · exact Finset.mem_singleton_self _
    · simp at hh
  · simp [sampleDelta] at hh
  · simp [sampleDelta] at hc

theorem verdicts_agree_iff_sample :
    ((sampleMirror.installDelta sampleDelta).assertDeltaConsistent sampleDelta ≠ .ok () ↔
        (sampleMirror.installDelta sampleDelta).assertConsistent ≠ .ok ()) ↔
      (sampleMirror.installDelta sampleDelta).Faulty sampleDelta ∨
        ((sampleMirror.installDelta sampleDelta).ListsUnknown sampleDelta ↔
          sampleMirror.Strands sampleDelta) :=
  verdicts_agree_iff sampleMirror sampleDelta (by decide) sampleMirror_keyed sampleDelta_listed

theorem dropped_child_unnoticed :
    sampleMirror.assertConsistent = .ok () ∧
      (sampleMirror.installDelta sampleDelta).assertDeltaConsistent sampleDelta = .ok () ∧
      (sampleMirror.installDelta sampleDelta).assertConsistent =
        .error (.assertionError "Radix child lacks reverse parent edge") := by
  decide +kernel


end BeliefKV.PageOwnershipIndex
