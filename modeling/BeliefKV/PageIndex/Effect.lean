import BeliefKV.Lib.Run
import BeliefKV.PageIndex.Invariant

/-! Runs of index calls, and the inversion of one call: a successful mutator is one of a few
effects on the records, each published with its journal entry. -/
namespace BeliefKV.PageOwnershipIndex
open Forest Relation

/-- A call on the index: a mutator with its arguments, or a read that may fill the cache. -/
inductive Op
  | registerContext (contextId workflowId : String) (epoch : ℤ)
  | registerPage (handle : PageHandle) (sizeBytes : ℕ) (residency : PhysicalResidency)
      (radixDepth : ℤ) (parent : Option PageHandle) (isSealed : Bool) (lastAccessMs : ℚ)
  | bindPages (contextId : String) (contextEpoch : ℤ) (handles : List PageHandle) (replace : Bool)
  | unbindContext (contextId : String)
  | freePage (handle : PageHandle)
  | invalidatePage (handle : PageHandle)
  | setParent (handle : PageHandle) (parent : Option PageHandle)
  | updateContextEpoch (contextId : String) (epoch : ℤ)
  | setEngineLock (handle : PageHandle) (value : ℤ)
  | setActiveReaders (handle : PageHandle) (value : ℤ)
  | pinContext (contextId : String)
  | unpinContext (contextId : String)
  | updateRuntimeState (handle : PageHandle) (residency : Option PhysicalResidency)
      (radixDepth engineLockRef : Option ℤ) (lastAccessMs : Option ℚ)
  | beginTransfer (handle : PageHandle) (direction : TransferDirection)
  | completeTransfer (handle : PageHandle) (direction : TransferDirection) (keepGpu : Bool)
  | abortTransfer (handle : PageHandle)
  | commitCpu (handle : PageHandle)
  | dropPage (handle : PageHandle)
  | dropHostCopy (handle : PageHandle)
  | readPhysical

namespace Op

def apply (s : PageOwnershipIndex) : Op → Except Raised PageOwnershipIndex
  | registerContext c w e => s.registerContext c w e
  | registerPage h size res depth parent isSealed access =>
    s.registerPage h size res depth parent isSealed access
  | bindPages c e hs replace => s.bindPages c e hs replace
  | unbindContext c => .ok (s.unbindContext c)
  | freePage h => s.freePage h
  | invalidatePage h => s.invalidatePage h
  | setParent h parent => s.setParent h parent
  | updateContextEpoch c e => s.updateContextEpoch c e
  | setEngineLock h value => s.setEngineLock h value
  | setActiveReaders h value => s.setActiveReaders h value
  | pinContext c => .ok (s.pinContext c)
  | unpinContext c => .ok (s.unpinContext c)
  | updateRuntimeState h res depth lock access => s.updateRuntimeState h res depth lock access
  | beginTransfer h d => s.beginTransfer h d
  | completeTransfer h d keepGpu => s.completeTransfer h d keepGpu
  | abortTransfer h => s.abortTransfer h
  | commitCpu h => s.commitCpu h
  | dropPage h => s.dropPage h
  | dropHostCopy h => s.dropHostCopy h
  | readPhysical => .ok s.refreshPhysical

/-- The call asks for no DEAD residency. -/
def NoDead : Op → Prop
  | registerPage _ _ res _ _ _ _ => res ≠ .dead
  | updateRuntimeState _ res _ _ _ => res ≠ some .dead
  | _ => True

instance : DecidablePred NoDead
  | registerPage _ _ res _ _ _ _ => inferInstanceAs (Decidable (res ≠ .dead))
  | updateRuntimeState _ res _ _ _ => inferInstanceAs (Decidable (res ≠ some .dead))
  | registerContext .. | bindPages .. | unbindContext .. | freePage .. | invalidatePage ..
  | setParent .. | updateContextEpoch .. | setEngineLock .. | setActiveReaders .. | pinContext ..
  | unpinContext .. | beginTransfer .. | completeTransfer .. | abortTransfer .. | commitCpu ..
  | dropPage .. | dropHostCopy .. | readPhysical => isTrue trivial

/-- The call does not re-register a known context that owns pages under a later epoch. -/
def KeepsEpochs (s : PageOwnershipIndex) : Op → Prop
  | registerContext c w e => s.pagesOf c = ∅ ∨ s.contextWorkflow[c]? ≠ some w ∨
      s.contextEpoch[c]?.any (e ≤ ·)
  | _ => True

instance (s : PageOwnershipIndex) : DecidablePred (KeepsEpochs s)
  | registerContext c w e => inferInstanceAs (Decidable (s.pagesOf c = ∅ ∨
      s.contextWorkflow[c]? ≠ some w ∨ s.contextEpoch[c]?.any (e ≤ ·)))
  | registerPage .. | updateRuntimeState .. | bindPages .. | unbindContext .. | freePage ..
  | invalidatePage .. | setParent .. | updateContextEpoch .. | setEngineLock ..
  | setActiveReaders .. | pinContext .. | unpinContext .. | beginTransfer .. | completeTransfer ..
  | abortTransfer .. | commitCpu .. | dropPage .. | dropHostCopy .. | readPhysical => isTrue trivial

end Op

/-- One call of a run; a call that raises is skipped. -/
def step (s : PageOwnershipIndex) (op : Op) : PageOwnershipIndex :=
  match op.apply s with
  | .ok s' => s'
  | .error _ => s

def run (s : PageOwnershipIndex) (ops : List Op) : PageOwnershipIndex := ops.foldl step s

/-! ## Effects -/

/-- What an in-place state change keeps of a record, under the tags it is journaled with. -/
structure Patched (p q : PhysicalPageRecord) (topology : Bool) (ks : Finset Component) : Prop where
  handle : q.handle = p.handle
  sizeBytes : q.sizeBytes = p.sizeBytes
  isSealed : q.isSealed = p.isSealed
  parent : q.parent = p.parent
  children : q.children = p.children
  ownerContexts : q.ownerContexts = p.ownerContexts
  semanticPinContexts : q.semanticPinContexts = p.semanticPinContexts
  refs_nonneg : 0 ≤ p.engineLockRef ∧ 0 ≤ p.activeReaderCount →
    0 ≤ q.engineLockRef ∧ 0 ≤ q.activeReaderCount
  radixDepth : q.radixDepth = p.radixDepth ∨ Component.topology ∈ ks ∧ topology
  core : core q = core p ∨ ks ∩ Component.physical ≠ ∅
  not_owner : Component.owner ∉ ks
  not_context : Component.context ∉ ks

/-- What one successful call can do. `noDead` and `keepsEpochs` stand for the promises of
the caller that the call asks for no DEAD residency and moves no epoch behind its pages. -/
inductive Effect (noDead keepsEpochs : Prop) (s : PageOwnershipIndex) : PageOwnershipIndex → Prop
  | quiet (d : Dict String (Finset PageHandle)) (hd : ∀ c : String, d[c]?.getD ∅ = s.pagesOf c) :
      Effect noDead keepsEpochs s { s with contextPages := d }
  | refresh : Effect noDead keepsEpochs s s.refreshPhysical
  | patch {h : PageHandle} {p : PhysicalPageRecord} (hp : s.requirePage h = .ok p)
      (q : PhysicalPageRecord) (t : Bool) (cs : Finset String) (ks : Finset Component)
      (hq : Patched p q t ks) (hdead : noDead → q.residency ≠ .dead) :
      Effect noDead keepsEpochs s ({ s with pages := s.pages.insert h q }.touch t {h} cs ks)
  | repin (c : String) (f : Finset String → Finset String) (hf : f = insert c ∨ f = (·.erase c)) :
      Effect noDead keepsEpochs s ((s.repinPages (s.livePagesOf c) f).touch false (s.livePagesOf c)
        {c} {.semanticPin})
  | retire {h : PageHandle} {p : PhysicalPageRecord} (hp : s.requirePage h = .ok p)
      (liveChildrenOnly : Bool) : Effect noDead keepsEpochs s (s.retirePage h p liveChildrenOnly)
  | register (p : PhysicalPageRecord) (hnew : p.handle ∉ s.pages)
      (hgen : ∀ g, s.latestGeneration[p.handle.pageId]? = some g →
        g < p.handle.allocationGeneration ∧
          ∀ r : PhysicalPageRecord, s.pages[(⟨p.handle.pageId,g⟩ : PageHandle)]? = some r →
            r.residency = .dead)
      (hparent : ∀ q, p.parent = some q → ∃ r, s.requirePage q = .ok r)
      (hbare : p.children = ∅ ∧ p.ownerContexts = ∅ ∧ p.semanticPinContexts = ∅)
      (hrefs : 0 ≤ p.engineLockRef ∧ 0 ≤ p.activeReaderCount) (hdead : noDead → p.residency ≠ .dead) :
      Effect noDead keepsEpochs s ((s.attachPage p).touch true (insert p.handle p.parent.toFinset) ∅
        {.topology,.residency})
  | relink {h : PageHandle} {p : PhysicalPageRecord} (hp : s.requirePage h = .ok p)
      (parent : Option PageHandle)
      (hparent : ∀ q, parent = some q → (∃ r, s.requirePage q = .ok r) ∧
        ¬ ReflTransGen s.ParentEdge q h) :
      Effect noDead keepsEpochs s ((s.relinkPage h p.parent parent).touch true
        (insert h (p.parent.toFinset ∪ parent.toFinset)) ∅ {.topology})
  | bind (c : String) (e : ℤ) (hs : Finset PageHandle) (he : s.contextEpoch[c]? = some e)
      (hlive : ∀ h ∈ hs, ∃ r, s.requirePage h = .ok r) (handles : Finset PageHandle)
      (hsub : hs ⊆ handles) :
      Effect noDead keepsEpochs s ((s.claimPages c e hs).touch false handles {c} {.owner})
  | rebind (c : String) (e : ℤ) (hs : Finset PageHandle) (he : s.contextEpoch[c]? = some e)
      (hsub : hs ⊆ s.pagesOf c) : Effect noDead keepsEpochs s (s.claimPages c e hs)
  | unbind (c : String) (hne : s.pagesOf c ≠ ∅) (ks : Finset Component) (howner : .owner ∈ ks)
      (hpins : .semanticPin ∈ ks ∨ ∀ h ∈ s.pagesOf c, ∀ p : PhysicalPageRecord,
        s.pages[h]? = some p → c ∉ p.semanticPinContexts) :
      Effect noDead keepsEpochs s ((s.disownPages c).touch false (s.pagesOf c) {c} ks)
  | advance (c : String) (e cur : ℤ) (hcur : s.contextEpoch[c]? = some cur) (hle : cur < e) :
      Effect noDead keepsEpochs s ((s.advanceEpoch c e).touch false (s.pagesOf c) {c}
        {.context,.owner})
  | readvance (c : String) (e : ℤ) (he : s.contextEpoch[c]? = some e) :
      Effect noDead keepsEpochs s (s.advanceEpoch c e)
  | enroll (c w : String) (e : ℤ) (hmono : ∀ old, s.contextEpoch[c]? = some old → old < e)
      (hw : ∀ old, s.contextWorkflow[c]? = some old → old = w)
      (hk : keepsEpochs → s.pagesOf c = ∅) :
      Effect noDead keepsEpochs s ((s.enrollContext c w e).touch false ∅ {c} {.context})

/-! ## Inversion of the mutators -/

section Inversion
variable {s s' : PageOwnershipIndex} {h : PageHandle} {p : PhysicalPageRecord} {d k : Prop}

theorem updatePages_singleton (hp : s.pages[h]? = some p)
    (f : PhysicalPageRecord → PhysicalPageRecord) :
    s.updatePages {h} f = { s with pages := s.pages.insert h (f p) } := by
  unfold updatePages
  congr 1
  apply Dict.ext_get
  grind

theorem updatePages_empty (f : PhysicalPageRecord → PhysicalPageRecord) :
    s.updatePages ∅ f = s := by
  have hpages : s.pages.updateAll ∅ f = s.pages := by
    apply Dict.ext_get
    grind
  rw [updatePages,hpages]

/-- A guarded rewrite of one live record is a patch. -/
theorem Effect.of_update (hp : s.requirePage h = .ok p) (f : PhysicalPageRecord → PhysicalPageRecord)
    (t : Bool) (cs : Finset String) (ks : Finset Component) (hq : Patched p (f p) t ks)
    (hdead : d → (f p).residency ≠ .dead) :
    Effect d k s ((s.updatePages {h} f).touch t {h} cs ks) := by
  rw [updatePages_singleton (requirePage_eq_ok.mp hp).1]
  exact .patch hp (f p) t cs ks hq hdead

theorem Effect.refl (s : PageOwnershipIndex) : Effect d k s s :=
  .quiet s.contextPages fun _ => rfl

theorem moveResidency_effect (hp : s.requirePage h = .ok p) (res : PhysicalResidency)
    (dir : Option TransferDirection) (ks : Finset Component) (hres : res ≠ .dead)
    (hk : ks = {.residency} ∨ ks = {.residency,.transfer}) :
    Effect d k s (s.moveResidency h p res dir ks) := by
  apply Effect.of_update hp
  · constructor <;> try rfl
    · exact id
    · exact .inl rfl
    · right
      rcases hk with rfl | rfl <;> decide
    · rcases hk with rfl | rfl <;> decide
    · rcases hk with rfl | rfl <;> decide
  · exact fun _ => hres

theorem freePage_effect (hok : s.freePage h = .ok s') : Effect d k s s' := by
  obtain ⟨p,hp,hok⟩ := bind_eq_ok.mp hok
  split at hok
  · cases hok
  · cases hok
    exact .retire hp false

theorem invalidatePage_effect (hok : s.invalidatePage h = .ok s') : Effect d k s s' := by
  obtain ⟨p,hp,hok⟩ := bind_eq_ok.mp hok
  split at hok
  · cases hok
  · cases hok
    exact .retire hp true

theorem setEngineLock_effect {value : ℤ} (hok : s.setEngineLock h value = .ok s') :
    Effect d k s s' := by
  unfold setEngineLock at hok
  split at hok
  · cases hok
  · rename_i hv
    obtain ⟨p,hp,hok⟩ := bind_eq_ok.mp hok
    cases hok
    split
    · apply Effect.of_update hp
      · constructor <;> try rfl
        · exact fun hr => ⟨not_lt.mp hv,hr.2⟩
        · exact .inl rfl
        · exact .inr (by decide)
        · decide
        · decide
      · exact fun _ => (requirePage_eq_ok.mp hp).2.1
    · exact Effect.refl s

theorem setActiveReaders_effect {value : ℤ} (hok : s.setActiveReaders h value = .ok s') :
    Effect d k s s' := by
  unfold setActiveReaders at hok
  split at hok
  · cases hok
  · rename_i hv
    obtain ⟨p,hp,hok⟩ := bind_eq_ok.mp hok
    cases hok
    split
    · apply Effect.of_update hp
      · constructor <;> try rfl
        · exact fun hr => ⟨hr.1,not_lt.mp hv⟩
        · exact .inl rfl
        · exact .inr (by decide)
        · decide
        · decide
      · exact fun _ => (requirePage_eq_ok.mp hp).2.1
    · exact Effect.refl s

theorem runtimeTags_physical (a b c e : Bool) (h : a || b || c) :
    runtimeTags a b c e ∩ Component.physical ≠ ∅ := by
  revert h
  revert a b c e
  decide

theorem runtimeTags_bookkeeping (a b c e : Bool) :
    Component.owner ∉ runtimeTags a b c e ∧ Component.context ∉ runtimeTags a b c e := by
  revert a b c e
  decide

theorem runtimeTags_topology (a c e : Bool) : Component.topology ∈ runtimeTags a true c e := by
  revert a c e
  decide

theorem updateRuntimeState_effect {res : Option PhysicalResidency} {depth lock : Option ℤ}
    {access : Option ℚ} (hok : s.updateRuntimeState h res depth lock access = .ok s') :
    Effect (res ≠ some .dead) k s s' := by
  obtain ⟨p,hp,hok⟩ := bind_eq_ok.mp hok
  split at hok
  · cases hok
  split at hok
  · cases hok
  split at hok
  · cases hok
  rename_i hdepth hlock haccess
  cases hok
  split
  · apply Effect.of_update hp
    · constructor <;> try rfl
      · intro hr
        cases lock <;> simp_all
      · cases depth with
        | none => exact .inl rfl
        | some x =>
          by_cases hx : p.radixDepth = x
          · exact .inl hx.symm
          · exact .inr ⟨runtimeTags_topology _ _ _,by simpa using hx⟩
      · -- Without a physical argument only the access time can differ.
        cases res <;> cases depth <;> cases lock <;>
          first | exact .inl rfl | exact .inr (runtimeTags_physical _ _ _ _ rfl)
      · exact (runtimeTags_bookkeeping _ _ _ _).1
      · exact (runtimeTags_bookkeeping _ _ _ _).2
    · intro hres
      have hlive := (requirePage_eq_ok.mp hp).2.1
      cases res <;> simp_all
  · exact Effect.refl s

theorem requireParent_eq_ok {parent : Option PageHandle} {u : Unit} :
    s.requireParent parent = .ok u ↔ ∀ q, parent = some q → ∃ r, s.requirePage q = .ok r := by
  cases parent with
  | none => simp [requireParent]
  | some q => simp [requireParent,bind_eq_ok]

theorem registerPage_effect {size : ℕ} {res : PhysicalResidency} {depth : ℤ}
    {parent : Option PageHandle} {isSealed : Bool} {access : ℚ} (hb : s.Base)
    (hok : s.registerPage h size res depth parent isSealed access = .ok s') :
    Effect (res ≠ .dead) k s s' := by
  simp only [registerPage] at hok
  split_ifs at hok with _ hstale hreuse hknown
  have hnew : h ∉ s.pages := by simpa using hknown
  obtain ⟨_,hparent,hok⟩ := bind_eq_ok.mp hok
  cases hok
  apply Effect.register (newPage h size res depth parent isSealed access) hnew
  · intro g hg
    change s.latestGeneration[h.pageId]? = some g at hg
    simp only [hg,Option.any_some,decide_eq_true_eq,not_and] at hstale hreuse
    have hne : g ≠ h.allocationGeneration := by
      rintro rfl
      exact hnew (hb.latest.some _ _ hg).1
    have hlt : g < h.allocationGeneration := by omega
    refine ⟨hlt,fun r hr => ?_⟩
    change s.pages[(⟨h.pageId,g⟩ : PageHandle)]? = some r at hr
    simpa [hr,PhysicalPageRecord.live] using hreuse hlt
  · exact requireParent_eq_ok.mp hparent
  · exact ⟨rfl,rfl,rfl⟩
  · exact ⟨le_rfl,le_rfl⟩
  · exact id

/-- A walk that ends at a root without meeting `h` shows that `h` is no ancestor. -/
theorem checkAncestors_sound {fuel : ℕ} {a : PageHandle} {seen : Finset PageHandle}
    (hok : s.checkAncestors h fuel (some a) seen = .ok ()) : ¬ ReflTransGen s.ParentEdge a h := by
  induction fuel generalizing a seen with
  | zero => cases hok
  | succ fuel ih =>
    unfold checkAncestors at hok
    split at hok
    · cases hok
    split at hok
    · cases hok
    rename_i hne _
    obtain ⟨p,hp,hok⟩ := bind_eq_ok.mp hok
    intro hreach
    rcases ReflTransGen.cases_head hreach with rfl | ⟨b,⟨q,hq,hb⟩,hrest⟩
    · exact hne rfl
    · rw [(requirePage_eq_ok.mp hp).1] at hq
      cases hq
      rw [hb] at hok
      exact ih hok hrest

/-- Detaching and attaching at the same parent only adds the missing edge. -/
theorem relinkPage_self {q : PageHandle} (hp : s.pages[h]? = some p) (hq : p.parent = some q)
    (hne : q ≠ h) : s.relinkPage h (some q) (some q) =
      s.updatePages {q} fun r => { r with children := insert h r.children } := by
  simp only [relinkPage,updatePages]
  congr 1
  apply Dict.ext_get
  intro a
  simp only [Option.toFinset_some,Dict.get_updateAll,Finset.mem_singleton]
  by_cases ha : a = h
  · subst ha
    simp [hp,← hq,Ne.symm hne]
  · have hins (cs : Finset PageHandle) : insert h (cs.erase h) = insert h cs := by grind
    by_cases haq : a = q <;> cases s.pages[a]? <;> simp [ha,haq,hne,hins]

theorem setParent_effect {parent : Option PageHandle} (hok : s.setParent h parent = .ok s') :
    Effect d k s s' := by
  obtain ⟨p,hp,hok⟩ := bind_eq_ok.mp hok
  split at hok
  · cases hok
  rename_i hself
  obtain ⟨_,hreq,hok⟩ := bind_eq_ok.mp hok
  obtain ⟨_,hwalk,hok⟩ := bind_eq_ok.mp hok
  have hparent : ∀ q, parent = some q → (∃ r, s.requirePage q = .ok r) ∧
      ¬ ReflTransGen s.ParentEdge q h := by
    rintro q rfl
    exact ⟨requireParent_eq_ok.mp hreq q rfl,checkAncestors_sound hwalk⟩
  split at hok
  · rename_i heq
    cases parent with
    | none =>
      cases hok
      exact Effect.refl s
    | some q =>
      dsimp only at hok
      split at hok
      · cases hok
        have heff : Effect d k s _ := .relink hp (some q) hparent
        rw [heq,relinkPage_self (requirePage_eq_ok.mp hp).1 heq (fun he => hself (he ▸ rfl))] at heff
        simpa using heff
      · cases hok
        exact Effect.refl s
  · cases hok
    exact .relink hp parent hparent

theorem pinContext_effect (c : String) : Effect d k s (s.pinContext c) := by
  simp only [pinContext]
  split_ifs
  · exact .repin c _ (.inl rfl)
  · exact Effect.refl s

theorem unpinContext_effect (c : String) : Effect d k s (s.unpinContext c) := by
  simp only [unpinContext]
  split_ifs
  · exact .repin c _ (.inr rfl)
  · exact Effect.refl s

theorem beginTransfer_effect {dir : TransferDirection} (hok : s.beginTransfer h dir = .ok s') :
    Effect d k s s' := by
  obtain ⟨p,hp,hok⟩ := bind_eq_ok.mp hok
  cases dir <;> dsimp only at hok <;> split_ifs at hok <;> cases hok <;>
    exact moveResidency_effect hp _ _ _ (by decide) (.inr rfl)

theorem completeTransfer_effect {dir : TransferDirection} {keepGpu : Bool}
    (hok : s.completeTransfer h dir keepGpu = .ok s') : Effect d k s s' := by
  obtain ⟨p,hp,hok⟩ := bind_eq_ok.mp hok
  split at hok
  · cases hok
  cases hok
  apply moveResidency_effect hp _ _ _ _ (.inr rfl)
  cases dir <;> cases keepGpu <;> decide

theorem abortTransfer_effect (hok : s.abortTransfer h = .ok s') : Effect d k s s' := by
  obtain ⟨p,hp,hok⟩ := bind_eq_ok.mp hok
  split at hok <;> cases hok <;> exact moveResidency_effect hp _ _ _ (by decide) (.inr rfl)

theorem commitCpu_effect (hok : s.commitCpu h = .ok s') : Effect d k s s' := by
  obtain ⟨p,hp,hok⟩ := bind_eq_ok.mp hok
  split_ifs at hok <;> cases hok
  · exact Effect.refl s
  · exact moveResidency_effect hp _ _ _ (by decide) (.inl rfl)

theorem dropPage_effect (hok : s.dropPage h = .ok s') : Effect d k s s' := by
  obtain ⟨p,hp,hok⟩ := bind_eq_ok.mp hok
  split_ifs at hok
  split at hok
  · cases hok
    exact moveResidency_effect hp _ _ _ (by decide) (.inl rfl)
  · exact freePage_effect hok
  · exact freePage_effect hok
  · cases hok

theorem dropHostCopy_effect (hok : s.dropHostCopy h = .ok s') : Effect d k s s' := by
  obtain ⟨p,hp,hok⟩ := bind_eq_ok.mp hok
  split_ifs at hok
  split at hok
  · cases hok
    exact moveResidency_effect hp _ _ _ (by decide) (.inl rfl)
  · exact freePage_effect hok
  · cases hok

theorem unbindContext_effect (c : String) : Effect d k s (s.unbindContext c) := by
  simp only [unbindContext]
  split_ifs with hne hpin
  · exact .unbind c hne _ (by decide) (.inl (by decide))
  · refine .unbind c hne _ (by decide) (.inr fun h hh p hp hc => hpin ?_)
    exact decide_eq_true ⟨h,hh,by simpa [hp] using hc⟩
  · have hempty := not_not.mp hne
    have heq : s.disownPages c = { s with contextPages := s.contextPages.insert c ∅ } := by
      rw [disownPages,hempty,updatePages_empty]
    rw [heq]
    apply Effect.quiet
    intro a
    rw [Dict.get_insert]
    split_ifs with ha
    · rw [← ha,hempty,Option.getD_some]
    · rfl

theorem requirePages_eq_ok (hb : s.Base) {hs : List PageHandle} {r : Finset PageHandle}
    (hok : s.requirePages hs = .ok r) : ∀ h ∈ r, ∃ p, s.requirePage h = .ok p := by
  induction hs generalizing r with
  | nil =>
    cases hok
    simp
  | cons h hs ih =>
    obtain ⟨p,hp,hok⟩ := bind_eq_ok.mp hok
    obtain ⟨rest,hrest,hok⟩ := bind_eq_ok.mp hok
    cases hok
    intro a ha
    rcases Finset.mem_insert.mp ha with rfl | ha
    · exact ⟨p,by rwa [hb.handle_eq h p (requirePage_eq_ok.mp hp).1]⟩
    · exact ih hrest a ha

theorem validateContextEpoch_eq_ok {c : String} {e : ℤ} {u : Unit}
    (hok : s.validateContextEpoch c e = .ok u) : s.contextEpoch[c]? = some e := by
  unfold validateContextEpoch contextEpochOf at hok
  cases hc : s.contextEpoch[c]? with
  | none => simp [hc] at hok
  | some cur =>
    simp only [hc] at hok
    split_ifs at hok with hne
    simpa using hne

theorem sameRecords_unbindContext (c : String) :
    SameRecords (s.disownPages c) (s.unbindContext c) := by
  simp only [unbindContext]
  split_ifs
  · exact sameRecords_touch _ _ _ _ _
  · exact sameRecords_touch _ _ _ _ _
  · exact .refl _

/-- Unbinding looks at no residency, so the pages stay as live as they were. -/
theorem requirePage_unbindContext {c : String} (hp : s.requirePage h = .ok p) :
    ∃ q, (s.unbindContext c).requirePage h = .ok q := by
  simp only [requirePage_eq_ok,(sameRecords_unbindContext c).pages,
    (sameRecords_unbindContext c).latestGeneration] at hp ⊢
  obtain ⟨hg,hl,hlatest⟩ := hp
  simp only [disownPages,updatePages,Dict.get_updateAll,hg]
  split_ifs
  · exact ⟨_,rfl,hl,hlatest⟩
  · exact ⟨p,rfl,hl,hlatest⟩

theorem bindPages_effects (hb : s.Base) {c : String} {e : ℤ} {hs : List PageHandle} {replace : Bool}
    (hok : s.bindPages c e hs replace = .ok s') :
    ∃ t, ReflGen (Effect d k) s t ∧ Effect d k t s' := by
  obtain ⟨_,hval,hok⟩ := bind_eq_ok.mp hok
  obtain ⟨resolved,hres,hok⟩ := bind_eq_ok.mp hok
  have he := validateContextEpoch_eq_ok hval
  have hlive := requirePages_eq_ok hb hres
  cases replace with
  | false =>
    simp only [Bool.not_false,true_and,Bool.false_eq_true,if_false,false_and] at hok
    split_ifs at hok with hsub <;> cases hok
    · exact ⟨s,.refl,.rebind c e resolved he hsub⟩
    · exact ⟨s,.refl,.bind c e resolved he hlive _ Finset.subset_union_left⟩
  | true =>
    simp only [Bool.not_true,Bool.false_eq_true,false_and,if_false,true_and,if_true] at hok
    refine ⟨_,.single (unbindContext_effect c),?_⟩
    have he' : (s.unbindContext c).contextEpoch[c]? = some e := by
      rwa [(sameRecords_unbindContext c).contextEpoch]
    split_ifs at hok with hne <;> cases hok
    · refine .bind c e resolved he' (fun h hh => ?_) _ subset_rfl
      obtain ⟨p,hp⟩ := hlive h hh
      exact requirePage_unbindContext hp
    · rw [not_not.mp hne]
      exact .rebind c e ∅ he' (Finset.empty_subset _)

theorem updateContextEpoch_effect {c : String} {e : ℤ} (hok : s.updateContextEpoch c e = .ok s') :
    Effect d k s s' := by
  obtain ⟨cur,hcur,hok⟩ := bind_eq_ok.mp hok
  have hc : s.contextEpoch[c]? = some cur := by
    unfold contextEpochOf at hcur
    cases hx : s.contextEpoch[c]? <;> simp_all
  split_ifs at hok with hlt hne <;> cases hok
  · exact .advance c e cur hc (by omega)
  · rw [not_not.mp hne]
    exact .readvance c cur hc

theorem registerContext_effect (hb : s.Base) {c w : String} {e : ℤ}
    (hok : s.registerContext c w e = .ok s') :
    Effect d (s.pagesOf c = ∅ ∨ s.contextWorkflow[c]? ≠ some w ∨ s.contextEpoch[c]?.any (e ≤ ·))
      s s' := by
  simp only [registerContext] at hok
  split_ifs at hok with _ hstale hmove hnew <;> cases hok
  all_goals
    have hw : ∀ old, s.contextWorkflow[c]? = some old → old = w := by
      intro old hold
      simpa [hold] using hmove
  · have hne : s.contextEpoch[c]? ≠ some e := by
      rcases hnew with hne | hnone
      · exact hne
      · intro hsome
        obtain ⟨x,hx⟩ := (Dict.mem_iff_get _ _).mp
          ((hb.workflow_known c).mp ((Dict.mem_iff_get _ _).mpr ⟨e,hsome⟩))
        simp [hx] at hnone
    have hmono : ∀ old, s.contextEpoch[c]? = some old → old < e := by
      intro old hold
      simp only [hold,Option.any_some,decide_eq_true_eq,not_lt] at hstale
      exact lt_of_le_of_ne hstale (fun h => hne (h ▸ hold))
    refine .enroll c w e hmono hw (fun hk => ?_)
    by_contra hpages
    obtain ⟨h,hh⟩ := Finset.nonempty_iff_ne_empty.mpr hpages
    have hknown := (hb.pagesOf_known c h hh).1
    obtain ⟨old,hold⟩ := (Dict.mem_iff_get _ _).mp hknown
    obtain ⟨x,hx⟩ := (Dict.mem_iff_get _ _).mp ((hb.workflow_known c).mp hknown)
    rcases hk with hk | hk | hk
    · exact hpages hk
    · exact hk (by rw [hx,hw x hx])
    · have := hmono old hold
      simp only [hold,Option.any_some,decide_eq_true_eq] at hk
      omega
  · push Not at hnew
    obtain ⟨hsame,hsome⟩ := hnew
    obtain ⟨x,hx⟩ := Option.ne_none_iff_exists'.mp hsome
    have heq : s.enrollContext c w e =
        { s with contextPages := s.contextPages.insert c (s.pagesOf c) } := by
      unfold enrollContext
      congr 1 <;> apply Dict.ext_get <;> grind
    rw [heq]
    refine .quiet _ (fun a => ?_)
    rw [Dict.get_insert]
    split_ifs with ha
    · rw [ha,Option.getD_some]
    · rfl

/-- Every successful call has one effect, or two: rebinding releases the old pages first. -/
theorem Op.effect_pair (hb : s.Base) (op : Op) (hok : op.apply s = .ok s') :
    ∃ t, ReflGen (Effect op.NoDead (op.KeepsEpochs s)) s t ∧
      Effect op.NoDead (op.KeepsEpochs s) t s' := by
  cases op with
  | registerContext c w e => exact ⟨s,.refl,registerContext_effect hb hok⟩
  | registerPage => exact ⟨s,.refl,registerPage_effect hb hok⟩
  | bindPages => exact bindPages_effects hb hok
  | unbindContext c =>
    cases hok
    exact ⟨s,.refl,unbindContext_effect c⟩
  | freePage => exact ⟨s,.refl,freePage_effect hok⟩
  | invalidatePage => exact ⟨s,.refl,invalidatePage_effect hok⟩
  | setParent => exact ⟨s,.refl,setParent_effect hok⟩
  | updateContextEpoch => exact ⟨s,.refl,updateContextEpoch_effect hok⟩
  | setEngineLock => exact ⟨s,.refl,setEngineLock_effect hok⟩
  | setActiveReaders => exact ⟨s,.refl,setActiveReaders_effect hok⟩
  | pinContext c =>
    cases hok
    exact ⟨s,.refl,pinContext_effect c⟩
  | unpinContext c =>
    cases hok
    exact ⟨s,.refl,unpinContext_effect c⟩
  | updateRuntimeState => exact ⟨s,.refl,updateRuntimeState_effect hok⟩
  | beginTransfer => exact ⟨s,.refl,beginTransfer_effect hok⟩
  | completeTransfer => exact ⟨s,.refl,completeTransfer_effect hok⟩
  | abortTransfer => exact ⟨s,.refl,abortTransfer_effect hok⟩
  | commitCpu => exact ⟨s,.refl,commitCpu_effect hok⟩
  | dropPage => exact ⟨s,.refl,dropPage_effect hok⟩
  | dropHostCopy => exact ⟨s,.refl,dropHostCopy_effect hok⟩
  | readPhysical =>
    cases hok
    exact ⟨s,.refl,.refresh⟩

/-- Every successful call is a short chain of effects. -/
theorem Op.effects (hb : s.Base) (op : Op) (hok : op.apply s = .ok s') :
    ReflTransGen (Effect op.NoDead (op.KeepsEpochs s)) s s' := by
  obtain ⟨t,hfirst,hlast⟩ := op.effect_pair hb hok
  exact hfirst.to_reflTransGen.tail hlast

theorem Effect.revision_le (heff : Effect d k s s') : s'.revision ≤ s.revision + 1 := by
  cases heff with
  | refresh =>
    unfold refreshPhysical
    split_ifs <;> exact Nat.le_succ _
  | quiet | rebind | readvance => exact Nat.le_succ _
  | _ => exact le_rfl

/-- A call publishes at most two entries. -/
theorem step_revision_le (hb : s.Base) (op : Op) : (s.step op).revision ≤ s.revision + 2 := by
  unfold step
  cases hok : op.apply s with
  | error e => exact Nat.le_add_right _ _
  | ok s' =>
    obtain ⟨t,hfirst,hlast⟩ := op.effect_pair hb hok
    have hle := hlast.revision_le
    cases hfirst with
    | refl => exact hle.trans (Nat.le_succ _)
    | single heff => exact hle.trans (Nat.succ_le_succ heff.revision_le)

end Inversion
end BeliefKV.PageOwnershipIndex
