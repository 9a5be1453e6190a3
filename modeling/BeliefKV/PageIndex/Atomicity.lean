import BeliefKV.PageIndex.Stepwise

/-! A call that raises has changed nothing. -/
namespace BeliefKV.PageOwnershipIndex
open Mutation

/-- The end of a call that changes the state as a whole, or raises and leaves it. -/
def settled (s : PageOwnershipIndex) (outcome : Except Raised PageOwnershipIndex) :
    EStateM.Result Raised PageOwnershipIndex Unit :=
  match outcome with
  | .ok t => .ok () t
  | .error e => .error e s

section Statements
variable {A : Type} {s : PageOwnershipIndex} {m m' : Mutation Unit} {x y : Except Raised PageOwnershipIndex}

theorem bind_ok {m : Mutation A} {f : A → Mutation Unit} {a : A} {t : PageOwnershipIndex} (h : m s = .ok a t) :
    (m >>= f) s = f a t := by
  change EStateM.bind m f s = _
  unfold EStateM.bind
  rw [h]

theorem bind_error {m : Mutation A} {f : A → Mutation Unit} {e : Raised} {t : PageOwnershipIndex}
    (h : m s = .error e t) : (m >>= f) s = .error e t := by
  change EStateM.bind m f s = _
  unfold EStateM.bind
  rw [h]

theorem read_ok {f : PageOwnershipIndex → Except Raised A} {a : A} (h : f s = .ok a) : Mutation.read f s = .ok a s := by
  unfold Mutation.read
  rw [h]

theorem read_settled {f : PageOwnershipIndex → Except Raised A} {next : A → Mutation Unit}
    {k : A → Except Raised PageOwnershipIndex} (h : ∀ a, f s = .ok a → next a s = settled s (k a)) :
    (Mutation.read f >>= next) s = settled s (f s >>= k) := by
  cases hf : f s with
  | ok a => exact (bind_ok (read_ok hf)).trans (h a hf)
  | error e =>
    have hread : Mutation.read f s = .error e s := by
      unfold Mutation.read
      rw [hf]
    exact bind_error hread

theorem unless_settled {c : Prop} [Decidable c] {e : Raised} (h : ¬ c → m s = settled s x) :
    (if c then throw e else m) s = settled s (if c then .error e else x) := by
  by_cases hc : c
  · rw [if_pos hc,if_pos hc]
    rfl
  · rw [if_neg hc,if_neg hc]
    exact h hc

theorem ite_settled {c : Prop} [Decidable c] (h : c → m s = settled s x) (h' : ¬ c → m' s = settled s y) :
    (if c then m else m') s = settled s (if c then x else y) := by
  by_cases hc : c
  · rw [if_pos hc,if_pos hc]
    exact h hc
  · rw [if_neg hc,if_neg hc]
    exact h' hc

/-- A branch at the end of a call. -/
theorem last_settled {c : Prop} [Decidable c] {t t' : PageOwnershipIndex} (h : c → m s = .ok () t)
    (h' : ¬ c → m' s = .ok () t') : (if c then m else m') s = settled s (.ok (if c then t else t')) := by
  by_cases hc : c
  · rw [if_pos hc,if_pos hc]
    exact h hc
  · rw [if_neg hc,if_neg hc]
    exact h' hc

theorem updatePages_insert {f : PhysicalPageRecord → PhysicalPageRecord} {h : PageHandle} {hs : Finset PageHandle}
    (hnew : h ∉ hs) : (s.updatePages {h} f).updatePages hs f = s.updatePages (insert h hs) f := by
  unfold updatePages
  congr 1
  apply Dict.ext_get
  intro a
  simp only [Dict.get_updateAll,Finset.mem_singleton,Finset.mem_insert]
  by_cases ha : a = h
  · subst ha
    simp [hnew]
  · simp [ha]

/-- A loop that changes some records does not raise if all of them are there. -/
theorem forM_amend (f : PhysicalPageRecord → PhysicalPageRecord) {hs : List PageHandle} (hnodup : hs.Nodup)
    (hmem : ∀ h ∈ hs, h ∈ s.pages) : (hs.forM (amend f)) s = .ok () (s.updatePages hs.toFinset f) := by
  induction hs generalizing s with
  | nil =>
    rw [List.toFinset_nil,updatePages_empty]
    rfl
  | cons h hs ih =>
    obtain ⟨hnew,hnodup⟩ := List.nodup_cons.mp hnodup
    have hfirst : amend f h s = .ok () (s.updatePages {h} f) := if_pos (hmem h List.mem_cons_self)
    have hrest := ih (s := s.updatePages {h} f) hnodup fun a ha =>
      (mem_updatePages _ _ _).mpr (hmem a (List.mem_cons_of_mem h ha))
    refine (bind_ok hfirst).trans ?_
    rw [hrest,List.toFinset_cons,updatePages_insert fun h => hnew (List.mem_toFinset.mp h)]

theorem sorted_toFinset (hs : Finset PageHandle) : (Dict.sorted hs).toFinset = hs := by
  ext a
  rw [List.mem_toFinset,Dict.mem_sorted]

end Statements

section Calls
variable {s : PageOwnershipIndex}

theorem registerContext_settled (c w : String) (e : ℤ) :
    Mutation.registerContext c w e s = settled s (s.registerContext c w e) := by
  refine unless_settled fun _ => unless_settled fun _ => unless_settled fun _ => ?_
  rfl

theorem updateContextEpoch_settled (hs : s.Base) (c : String) (e : ℤ) :
    Mutation.updateContextEpoch c e s = settled s (s.updateContextEpoch c e) := by
  refine read_settled fun current _ => unless_settled fun _ => ?_
  have hloop := forM_amend (s := { s with contextEpoch := s.contextEpoch.insert c e })
    (fun p => { p with ownerContexts := p.ownerContexts.insert c e }) (Dict.nodup_sorted (s.pagesOf c)) fun h hh =>
      (hs.pagesOf_known c h ((Dict.mem_sorted _ _).mp hh)).2
  rw [sorted_toFinset] at hloop
  exact bind_ok hloop

theorem contextRecords_bind (hs : s.Base) (c : String) (next : Unit → Mutation Unit) :
    (Mutation.contextRecords c >>= next) s = next () s := by
  have hok : ensure (∀ h ∈ s.pagesOf c, h ∈ s.pages) (.keyError c) = .ok () :=
    ensure_eq_ok.mpr fun h hh => (hs.pagesOf_known c h hh).2
  exact bind_ok (read_ok hok)

theorem pinContext_settled (hs : s.Base) (c : String) :
    Mutation.pinContext c s = settled s (.ok (s.pinContext c)) := by
  refine (contextRecords_bind hs c _).trans (last_settled (fun _ => ?_) fun _ => rfl)
  have hs' : (s.repinPages (s.livePagesOf c) (insert c)).Base := hs.updatePages fun h _ p hp =>
    ⟨rfl,fun a ha => .inl ha⟩
  exact contextRecords_bind hs' c _

theorem unpinContext_settled (hs : s.Base) (c : String) :
    Mutation.unpinContext c s = settled s (.ok (s.unpinContext c)) := by
  refine (contextRecords_bind hs c _).trans (last_settled (fun _ => ?_) fun _ => rfl)
  have hs' : (s.repinPages (s.livePagesOf c) (·.erase c)).Base := hs.updatePages fun h _ p hp =>
    ⟨rfl,fun a ha => .inl ha⟩
  exact contextRecords_bind hs' c _

theorem bindPages_settled (hs : s.Base) (c : String) (e : ℤ) (handles : List PageHandle) (replace : Bool) :
    Mutation.bindPages c e handles replace s = settled s (s.bindPages c e handles replace) := by
  refine read_settled fun _ _ => read_settled fun resolved hresolved => ?_
  have hlive := requirePages_eq_ok hs hresolved
  have hloop : ∀ t : PageOwnershipIndex, (∀ h, h ∈ s.pages → h ∈ t.pages) →
      ((Dict.sorted resolved).forM (amend fun p => { p with ownerContexts := p.ownerContexts.insert c e })) t =
        .ok () (t.updatePages resolved fun p => { p with ownerContexts := p.ownerContexts.insert c e }) := by
    intro t ht
    have hall := forM_amend (s := t) (fun p => { p with ownerContexts := p.ownerContexts.insert c e })
      (Dict.nodup_sorted resolved) fun h hh => by
        obtain ⟨p,hp⟩ := hlive h ((Dict.mem_sorted _ _).mp hh)
        exact ht h ((Dict.mem_iff_get _ _).mpr ⟨p,(requirePage_eq_ok.mp hp).1⟩)
    rwa [sorted_toFinset] at hall
  have hlast : ∀ t : PageOwnershipIndex,
      ((do
        write fun s => { s with contextPages := s.contextPages.insert c (s.pagesOf c ∪ resolved) }
        if !replace ∧ ¬ resolved ⊆ s.pagesOf c then write (·.touch false (resolved ∪ s.pagesOf c) {c} {.owner})
        else touchIf (replace ∧ resolved ≠ ∅) false resolved {c} {.owner}) : Mutation Unit)
      (t.updatePages resolved fun p => { p with ownerContexts := p.ownerContexts.insert c e }) =
        settled s (if !replace ∧ ¬ resolved ⊆ s.pagesOf c then
          .ok ((t.claimPages c e resolved).touch false (resolved ∪ s.pagesOf c) {c} {.owner})
        else if replace ∧ resolved ≠ ∅ then .ok ((t.claimPages c e resolved).touch false resolved {c} {.owner})
        else .ok (t.claimPages c e resolved)) := by
    intro t
    refine (bind_ok rfl).trans ?_
    by_cases hmore : !replace ∧ ¬ resolved ⊆ s.pagesOf c
    · rw [if_pos hmore,if_pos hmore]
      rfl
    rw [if_neg hmore,if_neg hmore]
    unfold touchIf
    by_cases hsome : replace ∧ resolved ≠ ∅
    · simp only [if_pos hsome]
      rfl
    · simp only [if_neg hsome]
      rfl
  cases replace with
  | false => exact (bind_ok (hloop s fun h hh => hh)).trans (hlast s)
  | true =>
    have hkept : ∀ h, h ∈ s.pages → h ∈ (s.unbindContext c).pages := by
      intro h hh
      rw [(sameRecords_unbindContext c).pages]
      exact (mem_updatePages _ _ _).mpr hh
    exact (bind_ok (hloop (s.unbindContext c) hkept)).trans (hlast (s.unbindContext c))

/-- A loop over a parent that is given. -/
theorem parent_amend (f : PhysicalPageRecord → PhysicalPageRecord) {parent : Option PageHandle}
    (hmem : ∀ q, parent = some q → q ∈ s.pages) :
    (parent.toList.forM (amend f)) s = .ok () (s.updatePages parent.toFinset f) := by
  cases parent with
  | none => exact forM_amend f List.nodup_nil fun q hq => by cases hq
  | some q => exact forM_amend f (List.nodup_singleton q) fun a ha => List.mem_singleton.mp ha ▸ hmem q rfl

theorem registerPage_settled (handle : PageHandle) (sizeBytes : ℕ) (residency : PhysicalResidency) (radixDepth : ℤ)
    (parent : Option PageHandle) (isSealed : Bool) (lastAccessMs : ℚ) :
    Mutation.registerPage handle sizeBytes residency radixDepth parent isSealed lastAccessMs s =
      settled s (s.registerPage handle sizeBytes residency radixDepth parent isSealed lastAccessMs) := by
  refine unless_settled fun _ => unless_settled fun _ => unless_settled fun _ => unless_settled fun _ =>
    read_settled fun _ hparent => ?_
  refine (bind_ok (parent_amend _ fun q hq => ?_)).trans rfl
  obtain ⟨r,hr⟩ := requireParent_eq_ok.mp hparent q hq
  exact (Dict.mem_insert_iff _ _ _ _).mpr (.inr ((Dict.mem_iff_get _ _).mpr ⟨r,(requirePage_eq_ok.mp hr).1⟩))

theorem freePage_settled (handle : PageHandle) : Mutation.freePage handle s = settled s (s.freePage handle) :=
  read_settled fun _ _ => unless_settled fun _ => rfl

theorem invalidatePage_settled (handle : PageHandle) :
    Mutation.invalidatePage handle s = settled s (s.invalidatePage handle) :=
  read_settled fun _ _ => unless_settled fun _ => rfl

theorem restoreEdge_settled {handle q : PageHandle} {r : PhysicalPageRecord} (hr : s.pages[q]? = some r) :
    restoreEdge handle q s = settled s (.ok (if s.pages[q]?.any (fun r => handle ∉ r.children) then
      (s.updatePages {q} fun r => { r with children := insert handle r.children }).touch true {handle,q} ∅
        {.topology} else s)) := by
  unfold restoreEdge
  refine (bind_ok (a := decide (handle ∈ r.children)) (t := s) (read_ok ?_)).trans ?_
  · simp only [hr]
  have hmem : q ∈ s.pages := (Dict.mem_iff_get _ _).mpr ⟨r,hr⟩
  rw [hr]
  by_cases hedge : handle ∈ r.children
  · simp only [hedge,Option.any_some]
    rfl
  · simp only [hedge,Option.any_some]
    exact bind_ok (if_pos hmem)

theorem setParent_settled (handle : PageHandle) (parent : Option PageHandle) :
    Mutation.setParent handle parent s = settled s (s.setParent handle parent) := by
  refine read_settled fun page _ => unless_settled fun _ => read_settled fun _ hparent => read_settled fun _ _ => ?_
  have hlive : ∀ q, parent = some q → ∃ r, s.pages[q]? = some r := fun q hq => by
    obtain ⟨r,hr⟩ := requireParent_eq_ok.mp hparent q hq
    exact ⟨r,(requirePage_eq_ok.mp hr).1⟩
  refine ite_settled (fun _ => ?_) fun _ => ?_
  · cases parent with
    | none => rfl
    | some q =>
      obtain ⟨r,hr⟩ := hlive q rfl
      refine (restoreEdge_settled hr).trans ?_
      dsimp only
      split_ifs <;> rfl
  · refine (bind_ok (parent_amend _ fun q hq => ?_)).trans rfl
    obtain ⟨r,hr⟩ := hlive q hq
    exact (mem_updatePages _ _ _).mpr ((mem_updatePages _ _ _).mpr ((Dict.mem_iff_get _ _).mpr ⟨r,hr⟩))

theorem setEngineLock_settled (handle : PageHandle) (value : ℤ) :
    Mutation.setEngineLock handle value s = settled s (s.setEngineLock handle value) :=
  unless_settled fun _ => read_settled fun _ _ => last_settled (fun _ => rfl) fun _ => rfl

theorem setActiveReaders_settled (handle : PageHandle) (value : ℤ) :
    Mutation.setActiveReaders handle value s = settled s (s.setActiveReaders handle value) :=
  unless_settled fun _ => read_settled fun _ _ => last_settled (fun _ => rfl) fun _ => rfl

theorem updateRuntimeState_settled (handle : PageHandle) (residency : Option PhysicalResidency)
    (radixDepth engineLockRef : Option ℤ) (lastAccessMs : Option ℚ) :
    Mutation.updateRuntimeState handle residency radixDepth engineLockRef lastAccessMs s =
      settled s (s.updateRuntimeState handle residency radixDepth engineLockRef lastAccessMs) :=
  read_settled fun _ _ => unless_settled fun _ => unless_settled fun _ => unless_settled fun _ =>
    last_settled (fun _ => rfl) fun _ => rfl

theorem beginTransfer_settled (handle : PageHandle) (direction : TransferDirection) :
    Mutation.beginTransfer handle direction s = settled s (s.beginTransfer handle direction) := by
  refine read_settled fun page _ => unless_settled fun _ => ?_
  cases direction with
  | d2h => exact unless_settled fun _ => rfl
  | h2d => exact unless_settled fun _ => rfl

theorem completeTransfer_settled (handle : PageHandle) (direction : TransferDirection) (keepGpu : Bool) :
    Mutation.completeTransfer handle direction keepGpu s = settled s (s.completeTransfer handle direction keepGpu) :=
  read_settled fun _ _ => unless_settled fun _ => rfl

theorem abortTransfer_settled (handle : PageHandle) :
    Mutation.abortTransfer handle s = settled s (s.abortTransfer handle) := by
  refine read_settled fun page _ => ?_
  cases page.transferDirection with
  | none => rfl
  | some direction =>
    cases direction with
    | d2h => rfl
    | h2d => rfl

theorem commitCpu_settled (handle : PageHandle) : Mutation.commitCpu handle s = settled s (s.commitCpu handle) :=
  read_settled fun _ _ => ite_settled (fun _ => rfl) fun _ => unless_settled fun _ => rfl

theorem dropPage_settled (handle : PageHandle) : Mutation.dropPage handle s = settled s (s.dropPage handle) := by
  refine read_settled fun page _ => unless_settled fun _ => ?_
  cases page.residency with
  | gpuOnly => exact freePage_settled handle
  | cpuOnly => exact freePage_settled handle
  | dualClean => rfl
  | mirroring => rfl
  | prefetching => rfl
  | dead => rfl

theorem dropHostCopy_settled (handle : PageHandle) :
    Mutation.dropHostCopy handle s = settled s (s.dropHostCopy handle) := by
  refine read_settled fun page _ => unless_settled fun _ => ?_
  cases page.residency with
  | cpuOnly => exact freePage_settled handle
  | gpuOnly => rfl
  | dualClean => rfl
  | mirroring => rfl
  | prefetching => rfl
  | dead => rfl

/-- Statement by statement a call does what it does as a whole. -/
theorem perform_settled (hs : s.Base) (op : Op) : op.perform s = settled s (op.apply s) := by
  cases op with
  | registerContext c w e => exact registerContext_settled c w e
  | registerPage h size res depth parent isSealed access =>
    exact registerPage_settled h size res depth parent isSealed access
  | bindPages c e hs' replace => exact bindPages_settled hs c e hs' replace
  | unbindContext c => rfl
  | freePage h => exact freePage_settled h
  | invalidatePage h => exact invalidatePage_settled h
  | setParent h parent => exact setParent_settled h parent
  | updateContextEpoch c e => exact updateContextEpoch_settled hs c e
  | setEngineLock h value => exact setEngineLock_settled h value
  | setActiveReaders h value => exact setActiveReaders_settled h value
  | pinContext c => exact pinContext_settled hs c
  | unpinContext c => exact unpinContext_settled hs c
  | updateRuntimeState h res depth lock access => exact updateRuntimeState_settled h res depth lock access
  | beginTransfer h d => exact beginTransfer_settled h d
  | completeTransfer h d keepGpu => exact completeTransfer_settled h d keepGpu
  | abortTransfer h => exact abortTransfer_settled h
  | commitCpu h => exact commitCpu_settled h
  | dropPage h => exact dropPage_settled h
  | dropHostCopy h => exact dropHostCopy_settled h
  | readPhysical => rfl

/-- A call that raises has changed nothing. -/
theorem perform_error (hs : s.Base) {op : Op} {e : Raised} {t : PageOwnershipIndex}
    (h : op.perform s = .error e t) : t = s := by
  rw [perform_settled hs] at h
  unfold settled at h
  cases hop : op.apply s with
  | ok u =>
    rw [hop] at h
    cases h
  | error e =>
    rw [hop] at h
    cases h
    rfl

theorem perform_ok (hs : s.Base) {op : Op} {u : Unit} {t : PageOwnershipIndex} (h : op.perform s = .ok u t) :
    op.apply s = .ok t := by
  rw [perform_settled hs] at h
  unfold settled at h
  cases hop : op.apply s with
  | ok t' =>
    rw [hop] at h
    cases h
    rfl
  | error e =>
    rw [hop] at h
    cases h

end Calls
end BeliefKV.PageOwnershipIndex
