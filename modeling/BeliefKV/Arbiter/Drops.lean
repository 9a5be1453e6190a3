import BeliefKV.Arbiter.Execution

/-! When drops free a page that still has live children, and when they do not. -/
namespace BeliefKV
open Relation PageOwnershipIndex

namespace RadixArbiter

/-! ## Drops one after the other -/

/-- A step frees only pages without live children, and no page that stays loses its parent. -/
structure NoOrphans (s t : PageOwnershipIndex) : Prop where
  childless : ∀ (h : PageHandle) (p : PhysicalPageRecord), s.pages[h]? = some p → p.live →
    (∀ q : PhysicalPageRecord, t.pages[h]? = some q → q.live = false) →
    ∀ c ∈ p.children, ∀ q : PhysicalPageRecord, s.pages[c]? = some q → q.live = false
  parents : ∀ (h : PageHandle) (q : PhysicalPageRecord), t.pages[h]? = some q → q.live →
    ∃ p : PhysicalPageRecord, s.pages[h]? = some p ∧ p.parent = q.parent

/-- No action of a list, up to the first that raises, leaves orphans. -/
def DropsSafely (command : ControlCommand) : PageOwnershipIndex → List ResolvedPageAction → Prop
  | _, [] => True
  | s, x :: rest => ∀ t, perform command s x = .ok t → NoOrphans s t ∧ DropsSafely command t rest

/-- An action of one of the two drops. -/
def IsDrop (x : ResolvedPageAction) : Prop := x.action = .drop ∨ x.action = .dropHost

/-- The action frees the page, rather than one of its two copies. -/
def Sheds : PhysicalPageAction → PhysicalPageRecord → Prop
  | .drop, p => p.residency = .gpuOnly ∨ p.residency = .cpuOnly
  | .dropHost, p => p.residency = .cpuOnly
  | _, _ => False

section Step
variable {command : ControlCommand} {s t : PageOwnershipIndex} {x : ResolvedPageAction}

/-- A drop that returns frees the page, or takes one of the two copies of a clean one. -/
theorem perform_drop (hx : IsDrop x)
    (hok : perform command s x = .ok t) : ∃ p, s.requirePage x.handle = .ok p ∧
      (Sheds x.action p ∧ t = s.retirePage x.handle p false ∨
        p.residency = .dualClean ∧ ∃ res, res ≠ .dead ∧
          t = s.moveResidency x.handle p res p.transferDirection {.residency}) := by
  have hfree {u : PageOwnershipIndex} {p : PhysicalPageRecord} (hp : s.requirePage x.handle = .ok p)
      (hu : s.freePage x.handle = .ok u) : u = s.retirePage x.handle p false := by
    obtain ⟨q,hq,-,-,-,rfl⟩ := freePage_eq_ok.mp hu
    rw [hp] at hq
    obtain rfl := Except.ok.inj hq
    rfl
  unfold perform at hok
  rcases hx with hx | hx <;> simp only [BeliefKVController.beginAction,
    BeliefKVController.settleAction,hx,Finset.mem_singleton,not_true_eq_false,if_false] at hok
  · obtain ⟨p,hp,-,⟨hres,rfl⟩ | ⟨hres,hu⟩⟩ := dropPage_eq_ok.mp hok
    · exact ⟨p,hp,.inr ⟨hres,.cpuOnly,by simp,rfl⟩⟩
    · exact ⟨p,hp,.inl ⟨by rw [hx]; exact hres,hfree hp hu⟩⟩
  · obtain ⟨p,hp,-,⟨hres,rfl⟩ | ⟨hres,hu⟩⟩ := dropHostCopy_eq_ok.mp hok
    · exact ⟨p,hp,.inr ⟨hres,.gpuOnly,by simp,rfl⟩⟩
    · exact ⟨p,hp,.inl ⟨by rw [hx]; exact hres,hfree hp hu⟩⟩

/-- Moving a copy orphans nothing. -/
theorem noOrphans_move {p : PhysicalPageRecord} {h : PageHandle} {res : PhysicalResidency}
    (hp : s.pages[h]? = some p) (hres : res ≠ .dead) (dir : Option TransferDirection) :
    NoOrphans s (s.moveResidency h p res dir {.residency}) := by
  constructor
  · intro k q hq hlive hdead
    have hk := hdead
    rw [get_moveResidency] at hk
    split_ifs at hk with heq
    · have hnow := hk _ (by rw [hp]; rfl)
      simp [PhysicalPageRecord.live,hres] at hnow
    · simp [hk q hq] at hlive
  · intro k q hq _
    rw [get_moveResidency] at hq
    split_ifs at hq with heq
    · subst heq
      rw [hp] at hq
      obtain rfl := Option.some.inj hq
      exact ⟨p,hp,rfl⟩
    · exact ⟨q,hq,rfl⟩

/-- Freeing a page without children orphans nothing. -/
theorem noOrphans_retire (hl : s.Linked) {p : PhysicalPageRecord} {h : PageHandle}
    (hp : s.pages[h]? = some p) (hleaf : p.children = ∅) :
    NoOrphans s (s.retirePage h p false) := by
  have hget := get_retirePage hl hp false
  constructor
  · intro k q hq hlive hdead c hc
    by_cases hk : k = h
    · subst hk
      rw [hp] at hq
      obtain rfl := Option.some.inj hq
      simp [hleaf] at hc
    · exfalso
      rw [hget,if_neg hk,hleaf,hq] at hdead
      split_ifs at hdead
      · simp_all
      · have hnow := hdead _ rfl
        simp_all [PhysicalPageRecord.live]
      · simp [hdead q rfl] at hlive
  · intro k q hq hlive
    rw [hget] at hq
    split_ifs at hq with h₁ h₂ h₃
    · obtain rfl := Option.some.inj hq
      simp [PhysicalPageRecord.live] at hlive
    · simp [hleaf] at h₂
    · obtain ⟨r,hr,rfl⟩ := Option.map_eq_some_iff.mp hq
      exact ⟨r,hr,rfl⟩
    · exact ⟨q,hq,rfl⟩

end Step

/-- What earlier drops left of an index: the pages they freed are dead, and the others have the
residency they had and no new children. -/
structure Trail (s t : PageOwnershipIndex) (done : List ResolvedPageAction) : Prop where
  inv : t.Inv
  freed : ∀ b ∈ done, ∀ p : PhysicalPageRecord, s.pages[b.handle]? = some p →
    p.residency ≠ .dualClean → ∀ q : PhysicalPageRecord, t.pages[b.handle]? = some q →
    q.residency = .dead
  kept : ∀ (k : PageHandle) (q : PhysicalPageRecord), k ∉ handles done → t.pages[k]? = some q →
    ∃ p : PhysicalPageRecord, s.pages[k]? = some p ∧ q.residency = p.residency ∧
      q.children ⊆ p.children

section Trail
variable {command : ControlCommand} {s t u : PageOwnershipIndex} {x : ResolvedPageAction}
  {done : List ResolvedPageAction}

theorem Trail.move (ht : Trail s t done) {p : PhysicalPageRecord} (hp : t.requirePage x.handle = .ok p)
    (hnew : x.handle ∉ handles done) (hdual : p.residency = .dualClean) {res : PhysicalResidency}
    (hres : res ≠ .dead) :
    Trail s (t.moveResidency x.handle p res p.transferDirection {.residency}) (done ++ [x]) := by
  have hpage := (requirePage_eq_ok.mp hp).1
  have heff : Effect True True t (t.moveResidency x.handle p res p.transferDirection {.residency}) :=
    moveResidency_effect hp res _ _ hres (.inl rfl)
  refine ⟨heff.inv ht.inv trivial,fun b hb q hq hne r hr => ?_,fun k q hk hq => ?_⟩
  · rw [get_moveResidency] at hr
    rcases List.mem_append.mp hb with hb | hb
    · rw [if_neg (by rintro heq; exact hnew (heq ▸ List.mem_map_of_mem hb))] at hr
      exact ht.freed b hb q hq hne r hr
    · rw [List.mem_singleton] at hb
      subst hb
      obtain ⟨p',hp',hsame,-⟩ := ht.kept b.handle p hnew hpage
      rw [hq] at hp'
      obtain rfl := Option.some.inj hp'
      exact absurd (hsame.symm.trans hdual) hne
  · rw [handles,List.map_append,List.mem_append,not_or] at hk
    rw [get_moveResidency,if_neg (by rintro rfl; simp at hk)] at hq
    exact ht.kept k q hk.1 hq

theorem Trail.retire (ht : Trail s t done) {p : PhysicalPageRecord}
    (hp : t.requirePage x.handle = .ok p) (hleaf : p.children = ∅) :
    Trail s (t.retirePage x.handle p false) (done ++ [x]) := by
  have hpage := (requirePage_eq_ok.mp hp).1
  have heff : Effect True True t (t.retirePage x.handle p false) := .retire hp false
  have hget := get_retirePage ht.inv.toLinked hpage false
  have hother (k : PageHandle) (hk : k ≠ x.handle) (r : PhysicalPageRecord)
      (hr : (t.retirePage x.handle p false).pages[k]? = some r) : ∃ q : PhysicalPageRecord,
      t.pages[k]? = some q ∧ r.residency = q.residency ∧ r.children ⊆ q.children := by
    rw [hget,if_neg hk,hleaf,if_neg (Finset.notMem_empty k)] at hr
    split_ifs at hr
    · obtain ⟨q,hq,rfl⟩ := Option.map_eq_some_iff.mp hr
      exact ⟨q,hq,rfl,Finset.erase_subset _ _⟩
    · exact ⟨r,hr,rfl,subset_rfl⟩
  refine ⟨heff.inv ht.inv trivial,fun b hb q hq hne r hr => ?_,fun k q hk hq => ?_⟩
  · by_cases hbx : b.handle = x.handle
    · rw [hbx,hget,if_pos rfl] at hr
      obtain rfl := Option.some.inj hr
      rfl
    · rcases List.mem_append.mp hb with hb | hb
      · obtain ⟨r',hr',hres,-⟩ := hother b.handle hbx r hr
        rw [hres]
        exact ht.freed b hb q hq hne r' hr'
      · simp at hb
        exact absurd (by rw [hb]) hbx
  · rw [handles,List.map_append,List.mem_append,not_or] at hk
    obtain ⟨q',hq',hres,hsub⟩ := hother k (by rintro rfl; simp at hk) q hq
    obtain ⟨r,hr,hres',hsub'⟩ := ht.kept k q' hk.1 hq'
    exact ⟨r,hr,hres.trans hres',hsub.trans hsub'⟩

/-- Drops that come to the children of a page, which they free, before they free the page. -/
theorem dropsSafely_of_children_first {done rest : List ResolvedPageAction} (ht : Trail s t done)
    (hn : (handles (done ++ rest)).Nodup)
    (hact : ∀ x ∈ rest, IsDrop x)
    (hfirst : ∀ before x after, done ++ rest = before ++ x :: after → ∀ p : PhysicalPageRecord,
      s.pages[x.handle]? = some p → Sheds x.action p → ∀ c ∈ p.children, ∃ b ∈ before, b.handle = c ∧
        ∃ q : PhysicalPageRecord, s.pages[c]? = some q ∧ q.residency ≠ .dualClean) :
    DropsSafely command t rest := by
  induction rest generalizing t done with
  | nil => trivial
  | cons x rest ih =>
    intro u hu
    have hnew : x.handle ∉ handles done := by
      rw [handles,List.map_append,List.map_cons] at hn
      intro hmem
      exact (List.nodup_append.mp hn).2.2 _ hmem _ (by simp) rfl
    have hassoc : done ++ [x] ++ rest = done ++ x :: rest := by simp
    obtain ⟨p,hp,hcase⟩ := perform_drop (hact x (by simp)) hu
    have hpage := (requirePage_eq_ok.mp hp).1
    have hnext (htrail : Trail s u (done ++ [x])) : DropsSafely command u rest :=
      ih htrail (hassoc ▸ hn) (fun y hy => hact y (by simp [hy])) (fun _ _ _ h => hfirst _ _ _
        (hassoc ▸ h))
    rcases hcase with ⟨hsheds,rfl⟩ | ⟨hdual,res,hres,rfl⟩
    · -- Every child was freed before, so none is left.
      have hleaf : p.children = ∅ := by
        rw [Finset.eq_empty_iff_forall_notMem]
        intro c hc
        obtain ⟨p',hp',hres,hsub⟩ := ht.kept x.handle p hnew hpage
        have hsheds' : Sheds x.action p' := by
          revert hsheds
          cases x.action <;> simp [Sheds,hres]
        obtain ⟨b,hb,rfl,q,hq,hne⟩ := hfirst done x rest rfl p' hp' hsheds' c (hsub hc)
        obtain ⟨r,hr,hlive,-⟩ := ht.inv.child_live x.handle p b.handle hpage hc
        exact hlive (ht.freed b hb q hq hne r hr)
      exact ⟨noOrphans_retire ht.inv.toLinked hpage hleaf,hnext (ht.retire hp hleaf)⟩
    · exact ⟨noOrphans_move hpage hres _,hnext (ht.move hp hnew hdual hres)⟩

end Trail

/-! ## Terminal pages -/

section Paths
variable {a : RadixArbiter} {graph : RuntimeCausalContextGraph} {s : PageOwnershipIndex}
  {command : ControlCommand}

theorem Trail.refl (hs : s.Inv) : Trail s s [] :=
  ⟨hs,fun b hb => by simp at hb,fun k q _ hq => ⟨q,hq,rfl,subset_rfl⟩⟩

/-- The scan keeps host copies of pages with children. -/
theorem scanTerminal_leaf (hl : s.Linked) {h : PageHandle} {p : PhysicalPageRecord}
    (hscan : (scanTerminal s h).2 = some p) (hres : p.residency = .cpuOnly) : p.children = ∅ := by
  unfold scanTerminal at hscan
  cases hp : s.pages[h]? with
  | none => simp [hp] at hscan
  | some page =>
    simp only [hp] at hscan
    split_ifs at hscan with h₁ h₂ h₃ h₄ h₅
    obtain rfl := Option.some.inj hscan
    rw [Finset.eq_empty_iff_forall_notMem]
    intro c hc
    obtain ⟨q,hq,hlive,-⟩ := hl.child_live h page c hp hc
    exact h₅ ⟨hres,c,hc,by simp [hq,PhysicalPageRecord.live,hlive]⟩

theorem resolveTerminalPrivateDrop_safe (hs : s.Inv) :
    (∀ x ∈ (a.resolveTerminalPrivateDrop s command).pageActions, IsDrop x) ∧
      DropsSafely command s (a.resolveTerminalPrivateDrop s command).pageActions := by
  obtain ⟨taken,hsub,hact,-,-⟩ := Selection.run_spec (P := fun _ _ => True)
    (fun _ _ => true) (a.limit command) (terminalCandidates s command) (fun _ _ _ _ => trivial) {}
  have hactions : (a.resolveTerminalPrivateDrop s command).pageActions =
      taken.map fun c => c.1.act c.2 := hact
  have hmem (x : ResolvedPageAction)
      (hx : x ∈ (a.resolveTerminalPrivateDrop s command).pageActions) :
      ∃ (c : Candidate) (h : PageHandle), (scanTerminal s h).2 = some c.1 ∧ s.pages[c.1.handle]? = some c.1 ∧
        x = PhysicalPageRecord.act c.1 .dropHost := by
    rw [hactions] at hx
    obtain ⟨c,hc,rfl⟩ := List.mem_map.mp hx
    obtain ⟨h,hscan,hpage,haction⟩ := mem_terminalCandidates hs.toBase (hsub.subset hc)
    exact ⟨c,h,hscan,hpage,by rw [haction]⟩
  have hdrops (x : ResolvedPageAction)
      (hx : x ∈ (a.resolveTerminalPrivateDrop s command).pageActions) : IsDrop x := by
    obtain ⟨c,h,-,-,rfl⟩ := hmem x hx
    exact .inr rfl
  refine ⟨hdrops,dropsSafely_of_children_first (.refl hs) ?_ hdrops ?_⟩
  · exact (resolveTerminalPrivateDrop_sound a command hs command.kind).prepared.nodup
  · intro before x after heq p hp hsheds c hc
    obtain ⟨d,h,hscan,hpage,rfl⟩ := hmem x (by rw [List.nil_append] at heq; rw [heq]; simp)
    rw [show (d.1.act PhysicalPageAction.dropHost).handle = d.1.handle from rfl,hpage] at hp
    obtain rfl := Option.some.inj hp
    rw [scanTerminal_leaf hs.toLinked hscan hsheds] at hc
    simp at hc

/-! ## Unowned pages -/

/-- A page comes before another one in the order of the drop loops. -/
def dropsBefore (p q : PhysicalPageRecord) : Bool := (compare (dropKey p) (dropKey q)).isLE

instance : Std.Total (fun p q : PhysicalPageRecord => (compare (dropKey p) (dropKey q)).isLE = true) where
  total p q := by
    rw [show compare (dropKey q) (dropKey p) = (compare (dropKey p) (dropKey q)).swap from
      Std.OrientedCmp.eq_swap]
    cases compare (dropKey p) (dropKey q) <;> simp

instance : IsTrans PhysicalPageRecord
    (fun p q => (compare (dropKey p) (dropKey q)).isLE = true) where
  trans _ _ _ := Std.TransCmp.isLE_trans

theorem dropsBefore_antisymm {p q : PhysicalPageRecord} (h : dropsBefore p q) (h' : dropsBefore q p) :
    p.handle = q.handle := by
  have hkey : dropKey p = dropKey q :=
    Std.LawfulEqOrd.eq_of_compare (Std.OrientedCmp.isLE_antisymm h h')
  simp only [dropKey,Prod.mk.injEq] at hkey
  exact hkey.2.2

theorem unownedCandidates_sorted (s : PageOwnershipIndex) :
    (unownedCandidates s).Pairwise fun c d => dropsBefore c.1 d.1 := by
  unfold unownedCandidates
  rw [List.pairwise_map]
  exact List.pairwise_insertionSort (fun p q => (compare (dropKey p) (dropKey q)).isLE = true) _

/-- A candidate that sorts before another one stands before it. -/
theorem mem_front {cs rest : List Candidate} {c d : Candidate}
    (hsorted : (cs ++ c :: rest).Pairwise fun c d => dropsBefore c.1 d.1) (hd : d ∈ cs ++ c :: rest)
    (hbefore : dropsBefore d.1 c.1) (hne : d.1.handle ≠ c.1.handle) : d ∈ cs := by
  rcases List.mem_append.mp hd with hd | hd
  · exact hd
  · rcases List.mem_cons.mp hd with rfl | hd
    · exact absurd rfl hne
    · have hafter := List.rel_of_pairwise_cons (List.pairwise_append.mp hsorted).2.1 hd
      exact absurd (dropsBefore_antisymm hbefore hafter) hne

/-- What unowned pages that may be freed need of their children: a clean copy among them stays,
because it may not be dropped, and pages only in host memory may be dropped too, before their
parent and after the GPU-resident pages below them. -/
def UnownedLeavesFirst (s : PageOwnershipIndex) : Prop :=
  ∀ (h : PageHandle) (x : PhysicalPageRecord), s.pages[h]? = some x → MayDrop x →
    (x.residency = .gpuOnly ∨ x.residency = .cpuOnly) →
    ∀ c ∈ x.children, ∀ q : PhysicalPageRecord, s.pages[c]? = some q →
      (q.residency = .dualClean → ¬ MayDrop q) ∧
      (q.residency = .cpuOnly → MayDrop q ∧ dropsBefore q x ∧
        ∀ (d : PageHandle) (r : PhysicalPageRecord), TransGen s.ParentEdge d c →
          s.pages[d]? = some r → r.gpuResident → dropsBefore r q)

/-- The handles a loop over the front of the candidates selects, seen from further on. -/
theorem selected_front {allows : PhysicalPageRecord → Finset PageHandle → Bool} {limit : ℕ}
    {cs rest : List Candidate} (hn : ((cs ++ rest).map (·.1.handle)).Nodup) {d : Candidate}
    (hd : d ∈ cs) (hsel : d.1.handle ∈ (Selection.run allows limit {} (cs ++ rest)).handles) :
    d.1.handle ∈ (Selection.run allows limit {} cs).handles := by
  rw [Selection.run_handles,List.mem_toFinset,Selection.run_append] at hsel
  obtain ⟨taken,hsub,hact,-,-⟩ := Selection.run_spec (P := fun _ _ => True) allows limit rest
    (fun _ _ _ _ => trivial) (Selection.run allows limit {} cs)
  rw [hact,List.map_append,List.mem_append] at hsel
  rw [Selection.run_handles,List.mem_toFinset]
  rcases hsel with hsel | hsel
  · exact hsel
  · obtain ⟨x,hx,heq⟩ := List.mem_map.mp hsel
    obtain ⟨e,he,rfl⟩ := List.mem_map.mp hx
    rw [List.map_append,List.nodup_append] at hn
    refine absurd heq.symm (hn.2.2 _ (List.mem_map_of_mem hd) _ ?_)
    exact List.mem_map.mpr ⟨e,hsub.subset he,rfl⟩

/-- Every child of a page the loop frees was taken before it. -/
theorem child_selected (hs : s.Inv) (hfirst : UnownedLeavesFirst s) {limit : ℕ}
    {cs rest : List Candidate} {x : Candidate} (hcs : unownedCandidates s = cs ++ x :: rest)
    (hallow : s.leafClosureAllows x.1 (Selection.run s.leafClosureAllows limit {} cs).handles)
    (hlimit : (Selection.run s.leafClosureAllows limit {} cs).bytes < limit)
    (hres : x.1.residency = .gpuOnly ∨ x.1.residency = .cpuOnly) {c : PageHandle}
    {q : PhysicalPageRecord} (hc : c ∈ x.1.children) (hq : s.pages[c]? = some q) :
    c ∈ (Selection.run s.leafClosureAllows limit {} cs).handles ∧ q.residency ≠ .dualClean := by
  obtain ⟨hx,hmay,-⟩ := (mem_unownedCandidates hs).mp (show x ∈ unownedCandidates s by simp [hcs])
  obtain ⟨hdual,hcpu⟩ := hfirst x.1.handle x.1 hx hmay hres c hc q hq
  obtain ⟨q',hq',hlive,hpar⟩ := hs.child_live x.1.handle x.1 c hx hc
  rw [hq] at hq'
  obtain rfl := Option.some.inj hq'
  have hedge : s.ParentEdge c x.1.handle := ⟨q,hq,hpar⟩
  have hn := unownedCandidates_nodup hs
  have hsorted := unownedCandidates_sorted s
  rw [hcs] at hn hsorted
  have hsel (d : PageHandle) (r : PhysicalPageRecord) (hd : TransGen s.ParentEdge d x.1.handle)
      (hr : s.pages[d]? = some r) (hg : r.gpuResident) :=
    leafClosureAllows_sound hs.toLinked hx hallow hd hr hg
  -- A selected page is a candidate.
  have hcand (d : PageHandle) (r : PhysicalPageRecord) (hr : s.pages[d]? = some r)
      (hd : d ∈ (Selection.run s.leafClosureAllows limit {} cs).handles) : (r,.drop) ∈ cs ∧ MayDrop r := by
    obtain ⟨taken,hsub,hact,-,-⟩ := Selection.run_spec (P := fun _ _ => True) s.leafClosureAllows
      limit cs (fun _ _ _ _ => trivial) {}
    have hactions : (Selection.run s.leafClosureAllows limit {} cs).actions =
        taken.map fun c => c.1.act c.2 := hact
    rw [Selection.run_handles,List.mem_toFinset,hactions] at hd
    obtain ⟨y,hy,rfl⟩ := List.mem_map.mp hd
    obtain ⟨e,he,rfl⟩ := List.mem_map.mp hy
    have hmem := hsub.subset he
    obtain ⟨hpage,hmay,hact⟩ := (mem_unownedCandidates hs).mp
      (show e ∈ unownedCandidates s by rw [hcs]; simp [hmem])
    rw [show (e.1.act e.2).handle = e.1.handle from rfl,hpage] at hr
    obtain rfl := Option.some.inj hr
    exact ⟨by rw [← hact]; exact hmem,hmay⟩
  by_cases hg : q.gpuResident
  · have hin := hsel c q (.single hedge) hq hg
    exact ⟨hin,fun hd => hdual hd (hcand c q hq hin).2⟩
  have hres' : q.residency = .cpuOnly := by
    cases hr : q.residency <;> simp_all [PhysicalPageRecord.gpuResident]
  refine ⟨?_,by simp [hres']⟩
  obtain ⟨hmay',hbefore,hbelow⟩ := hcpu hres'
  have hhandle : q.handle = c := hs.handle_eq c q hq
  have hne {d : PageHandle} (hd : TransGen s.ParentEdge d c) : d ≠ c := by
    rintro rfl
    exact hs.acyclic d hd
  have hmem : ((q,.drop) : Candidate) ∈ cs ++ x :: rest := by
    rw [← hcs,mem_unownedCandidates hs]
    exact ⟨by rw [hhandle]; exact hq,hmay',rfl⟩
  have hxc : c ≠ x.1.handle := by
    rintro rfl
    exact hs.acyclic _ (.single hedge)
  have hfront := mem_front hsorted hmem hbefore (by rw [hhandle]; exact hxc)
  obtain ⟨front,back,rfl⟩ := List.append_of_mem hfront
  -- The child was looked at with everything below it selected, and below the limit.
  have hall : s.leafClosureAllows q (Selection.run s.leafClosureAllows limit {} front).handles := by
    refine leafClosureAllows_of_selected hs.toLinked hq fun d r hd hr hg => ?_
    have hin := hsel d r (hd.tail hedge) hr hg
    obtain ⟨hdcs,-⟩ := hcand d r hr hin
    have hdh : r.handle = d := hs.handle_eq d r hr
    have hdfront : ((r,.drop) : Candidate) ∈ front := by
      refine mem_front (List.pairwise_append.mp hsorted).1 hdcs (hbelow d r hd hr hg) ?_
      rw [hdh,hhandle]
      exact hne hd
    rw [List.map_append] at hn
    have hkeep := selected_front (List.nodup_append.mp hn).1 hdfront (hdh.symm ▸ hin)
    rwa [hdh] at hkeep
  rw [Selection.run_append,Selection.run]
  have hle : (Selection.run s.leafClosureAllows limit {} front).bytes < limit := by
    refine lt_of_le_of_lt (Selection.run_bytes_mono s.leafClosureAllows limit _
      ((q,.drop) :: back)) ?_
    rw [← Selection.run_append]
    exact hlimit
  rw [if_neg (not_le.mpr hle),if_pos hall]
  refine Selection.run_handles_mono s.leafClosureAllows limit _ back ?_
  simp [Selection.take,hhandle]

theorem resolveDropUnowned_safe (hs : s.Inv) (hfirst : UnownedLeavesFirst s) :
    (∀ x ∈ (a.resolveDropUnowned s command).pageActions, IsDrop x) ∧
      DropsSafely command s (a.resolveDropUnowned s command).pageActions := by
  obtain ⟨taken,hsub,hact,-,-⟩ := Selection.run_spec (P := fun _ _ => True)
    s.leafClosureAllows (a.limit command) (unownedCandidates s) (fun _ _ _ _ => trivial) {}
  have hactions : (a.resolveDropUnowned s command).pageActions =
      taken.map fun c => c.1.act c.2 := hact
  have hdrop (c : Candidate) (hc : c ∈ taken) : c.2 = .drop :=
    ((mem_unownedCandidates hs).mp (hsub.subset hc)).2.2
  have hdrops (x : ResolvedPageAction) (hx : x ∈ (a.resolveDropUnowned s command).pageActions) :
      IsDrop x := by
    rw [hactions] at hx
    obtain ⟨c,hc,rfl⟩ := List.mem_map.mp hx
    exact .inl (hdrop c hc)
  refine ⟨hdrops,dropsSafely_of_children_first (.refl hs) ?_ hdrops ?_⟩
  · rw [List.nil_append,hactions]
    have heq : handles (taken.map fun c => c.1.act c.2) = taken.map (·.1.handle) := by
      simp [handles,Function.comp_def,PhysicalPageRecord.act]
    rw [heq]
    exact (unownedCandidates_nodup hs).sublist (hsub.map _)
  · intro before x after heq p hp hsheds c hc
    obtain ⟨cs,d,rest,hcs,rfl,hbefore,hallow,hlimit⟩ := Selection.run_split
      s.leafClosureAllows (a.limit command) heq
    obtain ⟨hpage,-,hd⟩ := (mem_unownedCandidates hs).mp (show d ∈ unownedCandidates s by simp [hcs])
    rw [show (d.1.act d.2).handle = d.1.handle from rfl,hpage] at hp
    obtain rfl := Option.some.inj hp
    obtain ⟨q,hq,-,-⟩ := hs.child_live _ _ c hpage hc
    have hres : d.1.residency = .gpuOnly ∨ d.1.residency = .cpuOnly := by
      rw [show (d.1.act d.2).action = d.2 from rfl,hd] at hsheds
      exact hsheds
    obtain ⟨hin,hne⟩ := child_selected hs hfirst hcs hallow hlimit hres hc hq
    rw [Selection.run_handles,List.mem_toFinset,hbefore] at hin
    obtain ⟨b,hb,rfl⟩ := List.mem_map.mp hin
    exact ⟨b,hb,rfl,q,hq,hne⟩

/-! ## Bundles -/

/-- What the pages of a drop bundle that are freed need of their children: all of them are only
on the GPU and come before their parent. -/
def BundleLeavesFirst (s : PageOwnershipIndex) (intent : PhysicalBundleIntent) : Prop :=
  ∀ h ∈ intent.closureHandles, ∀ x : PhysicalPageRecord, s.pages[h]? = some x →
    x.residency = .gpuOnly → ∀ c ∈ x.children, ∀ q : PhysicalPageRecord, s.pages[c]? = some q →
      q.gpuResident ∧ q.residency ≠ .dualClean ∧ deepestFirst q x

theorem resolvePhysicalBundle_safe (hs : s.Inv) {contextId : String} {epoch : ℤ}
    {intent : PhysicalBundleIntent} (hkind : command.kind = .dropContext)
    (hfirst : BundleLeavesFirst s intent)
    (hne : (a.resolvePhysicalBundle graph s command contextId epoch intent).pageActions ≠ []) :
    (∀ x ∈ (a.resolvePhysicalBundle graph s command contextId epoch intent).pageActions, IsDrop x) ∧
      DropsSafely command s
        (a.resolvePhysicalBundle graph s command contextId epoch intent).pageActions := by
  obtain ⟨p,hmem,-,-,-,hhandles,-,-,heq⟩ := resolvePhysicalBundle_some hne
  obtain ⟨-,-,horigin⟩ := PhysicalBundleBuilder.origin_of_mem hmem
  rw [hkind] at horigin
  rw [heq]
  cases horigin with
  | offload h => simp [PhysicalBundleBuilder.previewOffloadRoot] at h
  | @drop root hroot =>
    have hgpu : s.OnGpu root.handle := by
      unfold PhysicalBundleBuilder.gpuRoots at hroot
      rw [(List.perm_insertionSort _ _).mem_iff,List.mem_filter] at hroot
      exact ⟨root,(mem_contextRecords hs.toBase hroot.1).1,hroot.2⟩
    set pages := (s.gpuDescendantClosure root.handle).1.vals.insertionSort (deepestFirst · ·)
      with hpages
    have hsorted : pages.Pairwise (fun p q => deepestFirst p q = true) := passOrder_sorted _
    obtain ⟨hn,hrec⟩ := sorted_records hs.toBase
      (fun h _ => decide (h ∈ (s.gpuDescendantWalk root.handle).visited)) deepestFirst
    have hclosure (q : PhysicalPageRecord) : q ∈ pages ↔ s.pages[q.handle]? = some q ∧
        ReflTransGen s.GpuChild root.handle q.handle := by
      rw [hpages,(List.perm_insertionSort _ _).mem_iff,mem_closure_vals hs.toBase,
        mem_gpuDescendantWalk (gpuChildren_isSome.mpr hgpu)]
    have hactions : ((a.builder graph s).dropPreview contextId epoch root.handle
        (commandOptions command)).pageActions = pages.map (·.act .drop) := rfl
    have hdrops (x : ResolvedPageAction) (hx : x ∈ pages.map (·.act .drop)) : IsDrop x := by
      obtain ⟨q,-,rfl⟩ := List.mem_map.mp hx
      exact .inl rfl
    rw [hactions]
    refine ⟨hdrops,dropsSafely_of_children_first (.refl hs) ?_ hdrops ?_⟩
    · have hh : handles (pages.map (·.act .drop)) = pages.map PhysicalPageRecord.handle := by
        simp [handles,Function.comp_def,PhysicalPageRecord.act]
      rw [List.nil_append,hh]
      exact hn
    · intro before x after hsplit x' hx' hsheds c hc
      rw [List.nil_append] at hsplit
      obtain ⟨front,back,hfb,rfl,hback⟩ := List.map_eq_append_iff.mp hsplit
      obtain ⟨y,back,rfl,rfl,rfl⟩ := List.map_eq_cons_iff.mp hback
      have hy := (hclosure y).mp (by rw [hfb]; simp)
      rw [show (y.act PhysicalPageAction.drop).handle = y.handle from rfl,hy.1] at hx'
      obtain rfl := Option.some.inj hx'
      have hygpu := closure_gpuResident hs.toBase
        (show y ∈ (s.gpuDescendantClosure root.handle).1.vals from
          (hrec y (show y ∈ pages by rw [hfb]; simp)).1)
      have hres : y.residency = .gpuOnly := by
        rcases hsheds with h | h
        · exact h
        · simp [PhysicalPageRecord.gpuResident,h] at hygpu
      have hin : y.handle ∈ intent.closureHandles := by
        rw [← hhandles]
        change y.handle ∈ (s.gpuDescendantClosure root.handle).1.keys
        have hkeys := (handles_nodup (d := (s.gpuDescendantClosure root.handle).1) fun h r hr => by
          unfold gpuDescendantClosure at hr
          rw [Dict.get_select,Option.filter_eq_some_iff] at hr
          exact hs.handle_eq h r hr.1).1
        rw [← hkeys]
        exact List.mem_map_of_mem (hrec y (show y ∈ pages by rw [hfb]; simp)).1
      obtain ⟨q,hq,-,-⟩ := hs.child_live _ _ c hy.1 hc
      obtain ⟨hqgpu,hqdual,hqbefore⟩ := hfirst y.handle hin y hy.1 hres c hc q hq
      have hqh : q.handle = c := hs.handle_eq c q hq
      have hqmem : q ∈ pages := by
        rw [hclosure,hqh]
        exact ⟨hq,hy.2.tail (gpuChild_iff.mpr ⟨y,q,hy.1,hygpu,hc,hq,hqgpu⟩)⟩
      rw [hfb] at hqmem hsorted
      have hqfront : q ∈ front := by
        rcases List.mem_append.mp hqmem with h | h
        · exact h
        · exfalso
          have hself : c ≠ y.handle := by
            rintro rfl
            obtain ⟨r,hr,-,hpar⟩ := hs.child_live _ _ _ hy.1 hc
            exact hs.acyclic _ (.single ⟨r,hr,hpar⟩)
          rcases List.mem_cons.mp h with rfl | h
          · exact hself hqh.symm
          · have hafter := List.rel_of_pairwise_cons (List.pairwise_append.mp hsorted).2.1 h
            exact hself (hqh.symm.trans (deepestFirst_antisymm hqbefore hafter))
      exact ⟨q.act .drop,List.mem_map_of_mem hqfront,hqh,q,hq,hqdual⟩

/-! ## Runs -/

/-- The kinds of the three drop commands. -/
def dropKinds : List CommandKind := [.dropUnowned,.dropContext,.dropTerminalPrivate]

/-- What the state a drop command finds has to be like. -/
def LeavesFirst (s : PageOwnershipIndex) (command : ControlCommand) : Prop :=
  (command.kind = .dropUnowned → UnownedLeavesFirst s) ∧
    (command.kind = .dropContext → ∀ intent, command.physicalBundle = some intent →
      BundleLeavesFirst s intent)

theorem resolve_safe (hs : s.Inv) (hkind : command.kind ∈ dropKinds) (hfirst : LeavesFirst s command) :
    (∀ x ∈ (a.resolve graph s command).pageActions, IsDrop x) ∧
      DropsSafely command s (a.resolve graph s command).pageActions := by
  by_cases hne : (a.resolve graph s command).pageActions = []
  · rw [hne]
    exact ⟨by simp,trivial⟩
  rcases resolve_cases hne with ⟨hk,heq⟩ |
    ⟨contextId,epoch,context,-,-,-,-,-,⟨intent,hi,heq⟩ | ⟨-,heq⟩⟩
  · rw [heq]
    exact resolveDropUnowned_safe hs (hfirst.1 hk)
  · by_cases hk : command.kind = .dropUnowned
    · rw [resolve,if_pos hk]
      exact resolveDropUnowned_safe hs (hfirst.1 hk)
    · rw [heq] at hne ⊢
      by_cases hctx : command.kind = .dropContext
      · exact resolvePhysicalBundle_safe hs hctx (hfirst.2 hctx intent hi) hne
      · -- There are no previews of the third kind.
        obtain ⟨p,hmem,-⟩ := resolvePhysicalBundle_some hne
        have hterm : command.kind = .dropTerminalPrivate := by
          simp only [dropKinds,List.mem_cons,List.not_mem_nil,or_false] at hkind
          tauto
        obtain ⟨-,-,horigin⟩ := PhysicalBundleBuilder.origin_of_mem hmem
        rw [hterm] at horigin
        cases horigin with
        | offload h => simp [PhysicalBundleBuilder.previewOffloadRoot] at h
  · rw [heq] at hne ⊢
    simp only [dropKinds,List.mem_cons,List.not_mem_nil,or_false] at hkind
    rcases hkind with hk | hk | hk <;> simp only [resolveKind,hk] at hne ⊢
    · exact absurd trivial hne
    · exact absurd trivial hne
    · exact resolveTerminalPrivateDrop_safe hs

end Paths

/-- Carry out actions up to the first that raises. -/
def carryOut (command : ControlCommand) :
    PageOwnershipIndex → List ResolvedPageAction → PageOwnershipIndex
  | s, [] => s
  | s, x :: rest =>
    match perform command s x with
    | .ok t => carryOut command t rest
    | .error _ => s

theorem carryOut_inv {command : ControlCommand} {s : PageOwnershipIndex}
    {actions : List ResolvedPageAction} (hs : s.Inv) (hact : ∀ x ∈ actions, IsDrop x) :
    (carryOut command s actions).Inv := by
  induction actions generalizing s with
  | nil => exact hs
  | cons x rest ih =>
    unfold carryOut
    cases hok : perform command s x with
    | error e => exact hs
    | ok t =>
      refine ih ?_ fun y hy => hact y (by simp [hy])
      obtain ⟨p,hp,⟨-,rfl⟩ | ⟨-,res,hres,rfl⟩⟩ := perform_drop (hact x (by simp)) hok
      · exact (Effect.retire hp false : Effect True True s _).inv hs trivial
      · exact (moveResidency_effect hp res _ _ hres (.inl rfl) : Effect True True s _).inv hs trivial

/-- A call of the index, or a drop command that is resolved and carried out. -/
inductive Turn
  | call (op : Op)
  | policy (arbiter : RadixArbiter) (graph : RuntimeCausalContextGraph) (command : ControlCommand)
      (hkind : command.kind ∈ dropKinds)

def turn (s : PageOwnershipIndex) : Turn → PageOwnershipIndex
  | .call op => s.step op
  | .policy arbiter graph command _ =>
    carryOut command s (arbiter.resolve graph s command).pageActions

/-- The condition on the state a turn finds. -/
def Turn.Orderly (s : PageOwnershipIndex) : Turn → Prop
  | .call op => op.NoDead
  | .policy _ _ command _ => LeavesFirst s command

/-- What a turn that drops pages does not do. -/
def Turn.Safe (s : PageOwnershipIndex) : Turn → Prop
  | .call _ => True
  | .policy arbiter graph command _ =>
    DropsSafely command s (arbiter.resolve graph s command).pageActions

/-- In every run in which no drop command finds a page it may free with children in its way, every
page a drop frees is without live children at that moment, and no live page loses its parent. -/
theorem drops_never_orphan (turns : List Turn) (h : Run.AllSteps turn Turn.Orderly empty turns) :
    Run.AllSteps turn Turn.Safe empty turns := by
  refine Run.AllSteps.imp (I := Inv) (fun s x hs hx => ?_) (fun s x hs hx => ?_) empty_inv h
  · cases x with
    | call op => exact step_inv hs hx
    | policy arbiter graph command hkind =>
      exact carryOut_inv hs (resolve_safe hs hkind hx).1
  · cases x with
    | call op => trivial
    | policy arbiter graph command hkind => exact (resolve_safe hs hkind hx).2

/-! ## Two unowned pages -/

/-- A root and its child on the GPU. -/
def looseForest : List Op :=
  [.registerContext "c" "w" 0,.registerPage ⟨0,0⟩ 1 .gpuOnly 0 none true 0,
    .registerPage ⟨1,0⟩ 1 .gpuOnly 1 (some ⟨0,0⟩) true 0]

def dropUnownedPages : ControlCommand :=
  { commandId := "x", kind := .dropUnowned, targets_nodup := List.nodup_nil }

/-- Without owners both pages are dropped, the child first. -/
theorem drops_never_orphan_sample :
    let turns := looseForest.map Turn.call ++
      [.policy pageArbiter PhysicalBundleBuilder.idleGraph dropUnownedPages (by decide)]
    (turns.foldl turn empty).pages.vals.map (·.residency) = [.dead,.dead] ∧
      Run.AllSteps turn Turn.Safe empty turns := by
  refine ⟨by decide +kernel,drops_never_orphan _ (Run.AllSteps.append.mpr ⟨?_,?_,trivial⟩)⟩
  · refine Run.AllSteps.of_forall (fun x hx s => ?_) _
    obtain ⟨op,hop,rfl⟩ := List.mem_map.mp hx
    exact (by decide : ∀ op ∈ looseForest, op.NoDead) op hop
  · have hall : ∀ q ∈ ((looseForest.map Turn.call).foldl turn empty).pages.vals,
        q.residency = .gpuOnly := by decide
    refine ⟨fun _ h x hx hmay hres c hc q hq => ?_,fun hk => by cases hk⟩
    simp [hall q ((Dict.mem_vals _ _).mpr ⟨c,hq⟩)]

/-- The child belongs to a context, which was offloaded. -/
def ownedChild : List Op :=
  looseForest ++ [.bindPages "c" 0 [⟨1,0⟩] false,.beginTransfer ⟨1,0⟩ .d2h,
    .completeTransfer ⟨1,0⟩ .d2h false]

/-- The leaf check does not look at pages in host memory, so the root is dropped and the offloaded
page of the context loses its parent. -/
theorem drop_unowned_orphans :
    let s := empty.run ownedChild
    let r := pageArbiter.resolve PhysicalBundleBuilder.idleGraph s dropUnownedPages
    r.pageActions = [⟨⟨0,0⟩,.drop,1⟩] ∧
      s.pages[(⟨1,0⟩ : PageHandle)]?.map (fun p => (p.residency,p.parent)) =
        some (.cpuOnly,some ⟨0,0⟩) ∧
      (carryOut dropUnownedPages s r.pageActions).pages[(⟨1,0⟩ : PageHandle)]?.map
        (fun p => (p.residency,p.parent)) = some (.cpuOnly,none) ∧
      ¬ DropsSafely dropUnownedPages s r.pageActions := by
  dsimp only
  have hactions : (pageArbiter.resolve PhysicalBundleBuilder.idleGraph (empty.run ownedChild)
      dropUnownedPages).pageActions = [⟨⟨0,0⟩,.drop,1⟩] := by decide +kernel
  have hbefore : (empty.run ownedChild).pages[(⟨1,0⟩ : PageHandle)]?.map
      (fun p => (p.residency,p.parent)) = some (.cpuOnly,some ⟨0,0⟩) := by decide
  have hafter : (carryOut dropUnownedPages (empty.run ownedChild) [⟨⟨0,0⟩,.drop,1⟩]).pages[(⟨1,0⟩ :
      PageHandle)]?.map (fun p => (p.residency,p.parent)) = some (.cpuOnly,none) := by decide +kernel
  rw [hactions]
  refine ⟨rfl,hbefore,hafter,fun hsafe => ?_⟩
  obtain ⟨q,hq,hqeq⟩ := Option.map_eq_some_iff.mp hafter
  obtain ⟨p,hp,hpeq⟩ := Option.map_eq_some_iff.mp hbefore
  cases hok : perform dropUnownedPages (empty.run ownedChild) ⟨⟨0,0⟩,.drop,1⟩ with
  | error e =>
    rw [carryOut,hok] at hq
    rw [hp] at hq
    obtain rfl := Option.some.inj hq
    simp [hqeq] at hpeq
  | ok t =>
    rw [carryOut,hok] at hq
    have hlive : q.live := by simp [PhysicalPageRecord.live,(Prod.mk.inj hqeq).1]
    obtain ⟨p',hp',hpar⟩ := (hsafe t hok).1.parents ⟨1,0⟩ q hq hlive
    rw [hp] at hp'
    obtain rfl := Option.some.inj hp'
    rw [(Prod.mk.inj hpeq).2,(Prod.mk.inj hqeq).2] at hpar
    cases hpar

end RadixArbiter
end BeliefKV
