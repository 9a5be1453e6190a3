import BeliefKV.PageIndex.Transfers
import BeliefKV.Arbiter.Completeness
import BeliefKV.Controller.Execution

/-! Resolved commands can be carried out, and the GPU memory they free or take is what was
resolved. -/
namespace BeliefKV
open BeliefKVController (beginAction settleAction writePins)

namespace PageOwnershipIndex
variable {s t u : PageOwnershipIndex} {h : PageHandle} {p : PhysicalPageRecord}

/-! ## One page moves -/

/-- What the transfer calls look at in a record. -/
def gateFacts (p : PhysicalPageRecord) :
    ℕ × PhysicalResidency × Option TransferDirection × ℤ × ℤ :=
  (p.sizeBytes,p.residency,p.transferDirection,p.engineLockRef,p.activeReaderCount)

/-- A consistent index in which only one page has other facts than before. -/
structure Moved (s t : PageOwnershipIndex) (h : PageHandle) : Prop where
  inv : t.Inv
  cache : t.CacheValid
  mem : ∀ k, k ∈ t.pages ↔ k ∈ s.pages
  others : ∀ k, k ≠ h → t.pages[k]?.map gateFacts = s.pages[k]?.map gateFacts

theorem Moved.trans (hst : Moved s t h) (htu : Moved t u h) : Moved s u h :=
  ⟨htu.inv,htu.cache,fun k => (htu.mem k).trans (hst.mem k),
    fun k hk => (htu.others k hk).trans (hst.others k hk)⟩

theorem gpuShare_congr {q : PhysicalPageRecord} (hf : gateFacts q = gateFacts p) :
    gpuShare q = gpuShare p := by
  simp only [gateFacts,Prod.mk.injEq] at hf
  unfold gpuShare PhysicalPageRecord.gpuResident
  rw [hf.1,hf.2.1]

theorem gpuSize_congr {k : PageHandle} (hf : t.pages[k]?.map gateFacts = s.pages[k]?.map gateFacts) :
    t.gpuSize k = s.gpuSize k := by
  unfold gpuSize
  cases hs : s.pages[k]? with
  | none =>
    rw [hs,Option.map_none,Option.map_eq_none_iff] at hf
    rw [hf]
  | some p =>
    rw [hs,Option.map_some,Option.map_eq_some_iff] at hf
    obtain ⟨q,hq,hfacts⟩ := hf
    rw [hq,Option.map_some,Option.map_some,gpuShare_congr hfacts]

theorem Moved.gpuTotal (hm : Moved s t h) : t.gpuTotal + s.gpuSize h = s.gpuTotal + t.gpuSize h :=
  gpuTotal_change hm.mem fun k hk => gpuSize_congr (hm.others k hk)

theorem move_spec (hs : s.Inv) (hv : s.CacheValid) (hp : s.requirePage h = .ok p)
    (res : PhysicalResidency) (hres : res ≠ .dead) (dir : Option TransferDirection)
    (ks : Finset Component) (hk : ks = {.residency} ∨ ks = {.residency,.transfer}) :
    Moved s (s.moveResidency h p res dir ks) h ∧ (s.moveResidency h p res dir ks).requirePage h =
      .ok { p with residency := res, transferDirection := dir } := by
  have heff : Effect True True s (s.moveResidency h p res dir ks) :=
    moveResidency_effect hp res dir ks hres hk
  have hpage := (requirePage_eq_ok.mp hp).1
  have hget := get_moveResidency (s := s) (h := h) p res dir ks
  have hinv := heff.inv hs trivial
  refine ⟨⟨hinv,heff.cacheValid hs.toBase hv,fun k => ?_,fun k hk => ?_⟩,?_⟩
  · rw [Dict.mem_iff_get,Dict.mem_iff_get,hget]
    split_ifs with hk
    · simp [hk,hpage]
    · rfl
  · rw [hget,if_neg hk]
  · refine hinv.toLinked.requirePage_ok ?_ hres
    rw [hget,if_pos rfl,hpage]
    rfl

theorem retire_spec (hs : s.Inv) (hv : s.CacheValid) (hp : s.requirePage h = .ok p) :
    Moved s (s.retirePage h p false) h ∧ (s.retirePage h p false).gpuSize h = 0 := by
  have heff : Effect True True s (s.retirePage h p false) := .retire hp false
  have hpage := (requirePage_eq_ok.mp hp).1
  have hget := get_retirePage hs.toLinked hpage false
  refine ⟨⟨heff.inv hs trivial,heff.cacheValid hs.toBase hv,fun k => ?_,fun k hk => ?_⟩,?_⟩
  · simp only [PageOwnershipIndex.retirePage,touch_pages,mem_updatePages]
  · rw [hget,if_neg hk]
    split_ifs
    · cases s.pages[k]? <;> rfl
    · cases s.pages[k]? <;> rfl
    · rfl
  · rw [gpuSize,hget,if_pos rfl]
    rfl

end PageOwnershipIndex

/-! ## One action -/

namespace RadixArbiter
open PageOwnershipIndex

/-- Start and complete one action. -/
def perform (command : ControlCommand) (s : PageOwnershipIndex) (action : ResolvedPageAction) :
    Except Raised PageOwnershipIndex := do
  let s ← beginAction s action
  settleAction { command := command, pageActions := [action], startedHandles := {action.handle} }
    {action.handle} s action

/-- Carry out actions one after the other. -/
def execute (command : ControlCommand) (s : PageOwnershipIndex) (actions : List ResolvedPageAction) :
    Except Raised PageOwnershipIndex :=
  actions.foldlM (perform command) s

/-- A page is as an action needs it. -/
def Fit : PhysicalPageAction → PhysicalPageRecord → Prop
  | .startD2h, p => p.residency = .gpuOnly ∧ p.transferDirection = none
  | .startH2d, p => p.residency = .cpuOnly ∧ p.transferDirection = none
  | .commitCpu, p => p.residency = .dualClean
  | .drop, p => p.transferDirection = none ∧ p.engineLockRef = 0 ∧ p.activeReaderCount = 0 ∧
      (p.residency = .gpuOnly ∨ p.residency = .dualClean ∨ p.residency = .cpuOnly)
  | .dropHost, p => p.transferDirection = none ∧ p.engineLockRef = 0 ∧ p.activeReaderCount = 0 ∧
      (p.residency = .dualClean ∨ p.residency = .cpuOnly)
  | .pin, _ | .unpin, _ => False

/-- The GPU memory an action takes; a negative number is memory it frees. -/
def gain (kind : CommandKind) (action : PhysicalPageAction) (p : PhysicalPageRecord) : ℤ :=
  match action with
  | .startD2h => if kind = .shadowContext then 0 else -p.sizeBytes
  | .startH2d => p.sizeBytes
  | .commitCpu => -p.sizeBytes
  | .drop => -gpuShare p
  | .dropHost | .pin | .unpin => 0

theorem fit_congr {action : PhysicalPageAction} {p q : PhysicalPageRecord}
    (hf : gateFacts q = gateFacts p) (hp : Fit action p) : Fit action q := by
  simp only [gateFacts,Prod.mk.injEq] at hf
  obtain ⟨-,h₂,h₃,h₄,h₅⟩ := hf
  cases action <;> simp only [Fit,h₂,h₃,h₄,h₅] at hp ⊢ <;> exact hp

theorem gain_congr {kind : CommandKind} {action : PhysicalPageAction} {p q : PhysicalPageRecord}
    (hf : gateFacts q = gateFacts p) : gain kind action q = gain kind action p := by
  have hshare := gpuShare_congr hf
  simp only [gateFacts,Prod.mk.injEq] at hf
  cases action <;> simp only [gain,hshare,hf.1]

section Perform
variable (command : ControlCommand) {s : PageOwnershipIndex} {action : ResolvedPageAction}
  {p : PhysicalPageRecord}

/-- A page that fits its action goes through with it. -/
theorem perform_ok (hs : s.Inv) (hv : s.CacheValid) (hp : s.pages[action.handle]? = some p)
    (hfit : Fit action.action p) : ∃ t, perform command s action = .ok t ∧
      Moved s t action.handle ∧ (t.gpuTotal : ℤ) = s.gpuTotal + gain command.kind action.action p := by
  have hlive : p.residency ≠ .dead := by
    intro hd
    cases ha : action.action <;> simp [ha,Fit,hd] at hfit
  have hreq := hs.toLinked.requirePage_ok hp hlive
  have hsize : s.gpuSize action.handle = gpuShare p := by simp [gpuSize,hp]
  -- The page ends in another residency, or is freed.
  have hmove {t : PageOwnershipIndex} {q : PhysicalPageRecord} (hm : Moved s t action.handle)
      (hq : t.requirePage action.handle = .ok q) :
      (t.gpuTotal : ℤ) = s.gpuTotal + (gpuShare q - gpuShare p) := by
    have htotal := hm.gpuTotal
    have hsize' : t.gpuSize action.handle = gpuShare q := by
      simp [gpuSize,(requirePage_eq_ok.mp hq).1]
    rw [hsize,hsize'] at htotal
    omega
  have hfree (hd : p.transferDirection = none) (hl : p.engineLockRef = 0)
      (hr : p.activeReaderCount = 0) : s.freePage action.handle = .ok (s.retirePage action.handle p false) ∧
      Moved s (s.retirePage action.handle p false) action.handle ∧
      ((s.retirePage action.handle p false).gpuTotal : ℤ) = s.gpuTotal - gpuShare p := by
    obtain ⟨hm,hzero⟩ := retire_spec hs hv hreq
    have htotal := hm.gpuTotal
    rw [hsize,hzero] at htotal
    exact ⟨freePage_eq_ok.mpr ⟨p,hreq,hl,hr,by simp [PhysicalPageRecord.transferIdle,hd],rfl⟩,hm,
      by omega⟩
  unfold perform
  cases ha : action.action <;> rw [ha] at hfit <;> simp only [beginAction,settleAction,ha,
    Finset.mem_singleton,not_true_eq_false,if_false]
  case startD2h =>
    obtain ⟨hm,hreq'⟩ := move_spec hs hv hreq .mirroring (by simp) (some .d2h)
      {.residency,.transfer} (.inr rfl)
    obtain ⟨hm',hreq''⟩ := move_spec hm.inv hm.cache hreq'
      (arrival .d2h (command.kind = .shadowContext)) (by unfold arrival; split_ifs <;> simp) none
      {.residency,.transfer} (.inr rfl)
    refine ⟨_,bind_eq_ok.mpr ⟨_,beginTransfer_eq_ok.mpr ⟨p,hreq,hfit.2,hfit.1,rfl⟩,
      completeTransfer_eq_ok.mpr ⟨_,hreq',rfl,rfl⟩⟩,hm.trans hm',?_⟩
    refine (hmove (hm.trans hm') hreq'').trans ?_
    by_cases hk : command.kind = .shadowContext <;>
      simp [gain,hk,arrival,gpuShare,PhysicalPageRecord.gpuResident,hfit.1]
  case startH2d =>
    obtain ⟨hm,hreq'⟩ := move_spec hs hv hreq .prefetching (by simp) (some .h2d)
      {.residency,.transfer} (.inr rfl)
    obtain ⟨hm',hreq''⟩ := move_spec hm.inv hm.cache hreq' .dualClean (by simp) none
      {.residency,.transfer} (.inr rfl)
    refine ⟨_,bind_eq_ok.mpr ⟨_,beginTransfer_eq_ok.mpr ⟨p,hreq,hfit.2,hfit.1,rfl⟩,
      completeTransfer_eq_ok.mpr ⟨_,hreq',rfl,rfl⟩⟩,hm.trans hm',?_⟩
    refine (hmove (hm.trans hm') hreq'').trans ?_
    simp [gain,gpuShare,PhysicalPageRecord.gpuResident,hfit.1]
  case commitCpu =>
    obtain ⟨hm,hreq'⟩ := move_spec hs hv hreq .cpuOnly (by simp) p.transferDirection
      {.residency} (.inl rfl)
    refine ⟨_,commitCpu_eq_ok.mpr ⟨p,hreq,.inr ⟨hfit,rfl⟩⟩,hm,?_⟩
    refine (hmove hm hreq').trans ?_
    have hres : p.residency = .dualClean := hfit
    simp [gain,gpuShare,PhysicalPageRecord.gpuResident,hres]
  case drop =>
    obtain ⟨hd,hl,hr,hres⟩ := hfit
    have hidle : p.transferIdle := by simp [PhysicalPageRecord.transferIdle,hd]
    by_cases hdual : p.residency = .dualClean
    · obtain ⟨hm,hreq'⟩ := move_spec hs hv hreq .cpuOnly (by simp) p.transferDirection
        {.residency} (.inl rfl)
      refine ⟨_,dropPage_eq_ok.mpr ⟨p,hreq,hidle,.inl ⟨hdual,rfl⟩⟩,hm,?_⟩
      refine (hmove hm hreq').trans ?_
      simp [gain,gpuShare,PhysicalPageRecord.gpuResident]
    · obtain ⟨hok,hm,htotal⟩ := hfree hd hl hr
      refine ⟨_,dropPage_eq_ok.mpr ⟨p,hreq,hidle,.inr ⟨by tauto,hok⟩⟩,hm,?_⟩
      rw [htotal,gain,sub_eq_add_neg]
  case dropHost =>
    obtain ⟨hd,hl,hr,hres⟩ := hfit
    have hidle : p.transferIdle := by simp [PhysicalPageRecord.transferIdle,hd]
    rcases hres with hdual | hcpu
    · obtain ⟨hm,hreq'⟩ := move_spec hs hv hreq .gpuOnly (by simp) p.transferDirection
        {.residency} (.inl rfl)
      refine ⟨_,dropHostCopy_eq_ok.mpr ⟨p,hreq,hidle,.inl ⟨hdual,rfl⟩⟩,hm,?_⟩
      refine (hmove hm hreq').trans ?_
      simp [gain,gpuShare,PhysicalPageRecord.gpuResident,hdual]
    · obtain ⟨hok,hm,htotal⟩ := hfree hd hl hr
      refine ⟨_,dropHostCopy_eq_ok.mpr ⟨p,hreq,hidle,.inr ⟨hcpu,hok⟩⟩,hm,?_⟩
      rw [htotal]
      simp [gain,gpuShare,PhysicalPageRecord.gpuResident,hcpu]
  all_goals exact absurd hfit id

end Perform

/-! ## All actions of a command -/

/-- The handles of a list of actions. -/
def handles (actions : List ResolvedPageAction) : List PageHandle :=
  actions.map ResolvedPageAction.handle

/-- Actions on distinct pages that are as the actions need them. -/
structure Prepared (s : PageOwnershipIndex) (actions : List ResolvedPageAction) : Prop where
  nodup : (handles actions).Nodup
  ready : ∀ a ∈ actions, ∃ p, s.pages[a.handle]? = some p ∧ a.sizeBytes = p.sizeBytes ∧
    Fit a.action p

/-- The GPU memory an action takes in a given index. -/
def gainAt (s : PageOwnershipIndex) (kind : CommandKind) (a : ResolvedPageAction) : ℤ :=
  (s.pages[a.handle]?.map (gain kind a.action)).getD 0

section Execute
variable {s t : PageOwnershipIndex}

theorem gainAt_congr {kind : CommandKind} {a : ResolvedPageAction}
    (hf : t.pages[a.handle]?.map gateFacts = s.pages[a.handle]?.map gateFacts) :
    gainAt t kind a = gainAt s kind a := by
  unfold gainAt
  cases hs : s.pages[a.handle]? with
  | none =>
    rw [hs,Option.map_none,Option.map_eq_none_iff] at hf
    rw [hf]
  | some p =>
    rw [hs,Option.map_some,Option.map_eq_some_iff] at hf
    obtain ⟨q,hq,hfacts⟩ := hf
    rw [hq,Option.map_some,Option.map_some,gain_congr hfacts]

/-- A step on one page leaves the other pages prepared. -/
theorem Prepared.tail {a : ResolvedPageAction} {actions : List ResolvedPageAction}
    (hp : Prepared s (a :: actions)) (hm : Moved s t a.handle) : Prepared t actions ∧
      ∀ b ∈ actions, ∀ kind, gainAt t kind b = gainAt s kind b := by
  have hn : a.handle ∉ handles actions ∧ (handles actions).Nodup := List.nodup_cons.mp hp.nodup
  have hne (b : ResolvedPageAction) (hb : b ∈ actions) : b.handle ≠ a.handle := by
    intro heq
    exact hn.1 (heq ▸ List.mem_map_of_mem hb)
  refine ⟨⟨hn.2,fun b hb => ?_⟩,fun b hb kind => gainAt_congr (hm.others b.handle (hne b hb))⟩
  obtain ⟨p,hpage,hsize,hfit⟩ := hp.ready b (by simp [hb])
  have hf := hm.others b.handle (hne b hb)
  rw [hpage,Option.map_some,Option.map_eq_some_iff] at hf
  obtain ⟨q,hq,hfacts⟩ := hf
  refine ⟨q,hq,?_,fit_congr hfacts hfit⟩
  rw [hsize]
  exact (Prod.mk.inj hfacts).1.symm

/-- Prepared actions go through, and the GPU memory changes by the sum of what they take. -/
theorem execute_ok (command : ControlCommand) {actions : List ResolvedPageAction} (hs : s.Inv) (hv : s.CacheValid)
    (hp : Prepared s actions) : ∃ t, execute command s actions = .ok t ∧ t.Inv ∧ t.CacheValid ∧
      (t.gpuTotal : ℤ) = s.gpuTotal + (actions.map (gainAt s command.kind)).sum := by
  induction actions generalizing s with
  | nil => exact ⟨s,rfl,hs,hv,by simp⟩
  | cons a actions ih =>
    obtain ⟨p,hpage,-,hfit⟩ := hp.ready a (by simp)
    obtain ⟨t,hok,hm,htotal⟩ := perform_ok command hs hv hpage hfit
    obtain ⟨hrest,hgain⟩ := hp.tail hm
    obtain ⟨u,hoks,hui,huv,hutotal⟩ := ih hm.inv hm.cache hrest
    refine ⟨u,?_,hui,huv,?_⟩
    · unfold execute
      rw [List.foldlM_cons,bind_eq_ok]
      exact ⟨t,hok,hoks⟩
    · have hhead : gainAt s command.kind a = gain command.kind a.action p := by
        simp [gainAt,hpage]
      rw [List.map_congr_left fun b hb => hgain b hb command.kind] at hutotal
      rw [hutotal,htotal,List.map_cons,List.sum_cons,hhead,add_assoc]

/-- Actions that all take or free their whole size. -/
theorem sum_gains {actions : List ResolvedPageAction} {kind : CommandKind} (c : ℤ)
    (h : ∀ a ∈ actions, gainAt s kind a = c * a.sizeBytes) :
    (actions.map (gainAt s kind)).sum = c * actionBytes actions := by
  induction actions with
  | nil => simp [actionBytes]
  | cons a actions ih =>
    rw [List.map_cons,List.sum_cons,h a (by simp),ih fun b hb => h b (by simp [hb])]
    simp only [actionBytes,List.map_cons,List.sum_cons]
    push_cast
    ring

end Execute

/-! ## Pins -/

section Pins
variable {s : PageOwnershipIndex}

/-- Pins are no GPU memory, with or without a current cache. -/
theorem gpuBytes_repinPages (hs : Finset PageHandle) (f : Finset String → Finset String) :
    (s.repinPages hs f).gpuBytes = s.gpuBytes := by
  have hsize (h : PageHandle) : (s.repinPages hs f).gpuSize h = s.gpuSize h := by
    unfold gpuSize repinPages
    rw [get_updatePages]
    split_ifs
    · cases s.pages[h]? <;> rfl
    · rfl
  have htotal : (s.repinPages hs f).gpuTotal = s.gpuTotal := by
    have hkeys : (s.repinPages hs f).pages.keySet = s.pages.keySet := by
      ext h
      simp [repinPages,mem_updatePages]
    rw [gpuTotal,gpuTotal,hkeys]
    exact Finset.sum_congr rfl fun h _ => hsize h
  unfold gpuBytes physicalKvStateBreakdown refreshPhysical
  by_cases hc : s.physicalBreakdownRevision = s.physicalStateRevision
  · have hc' : (s.repinPages hs f).physicalBreakdownRevision =
        (s.repinPages hs f).physicalStateRevision := hc
    rw [if_pos hc',if_pos hc]
    rfl
  · have hc' : ¬(s.repinPages hs f).physicalBreakdownRevision =
        (s.repinPages hs f).physicalStateRevision := hc
    rw [if_neg hc',if_neg hc]
    exact (calculate_gpuBytes _).trans (htotal.trans (calculate_gpuBytes s).symm)

theorem writePins_ok {h : PageHandle} (hmem : h ∈ s.pages) (contextId : Option String)
    (f : String → Finset String → Finset String) : ∃ t, writePins s h contextId f = .ok t ∧
      t.gpuBytes = s.gpuBytes ∧ ∀ k, k ∈ t.pages ↔ k ∈ s.pages := by
  cases contextId with
  | none => exact ⟨s,rfl,rfl,fun _ => Iff.rfl⟩
  | some c =>
    refine ⟨_,by simp [writePins,hmem]; rfl,gpuBytes_repinPages _ _,fun k => ?_⟩
    simp [repinPages,mem_updatePages]

/-- Pin actions go through on registered pages and leave the GPU memory alone. -/
theorem execute_pins (command : ControlCommand) {actions : List ResolvedPageAction}
    (hpin : ∀ a ∈ actions, a.action = .pin ∨ a.action = .unpin)
    (hmem : ∀ a ∈ actions, a.handle ∈ s.pages) :
    ∃ t, execute command s actions = .ok t ∧ t.gpuBytes = s.gpuBytes := by
  induction actions generalizing s with
  | nil => exact ⟨s,rfl,rfl⟩
  | cons a actions ih =>
    have hstep : ∃ t, perform command s a = .ok t ∧ t.gpuBytes = s.gpuBytes ∧
        ∀ k, k ∈ t.pages ↔ k ∈ s.pages := by
      unfold perform
      rcases hpin a (by simp) with hact | hact <;>
        simp only [beginAction,settleAction,hact,Finset.mem_singleton,not_true_eq_false,if_false]
      · exact writePins_ok (hmem a (by simp)) _ _
      · exact writePins_ok (hmem a (by simp)) _ _
    obtain ⟨t,hok,hbytes,hkeys⟩ := hstep
    obtain ⟨u,hoks,hbytes'⟩ := ih (s := t) (fun b hb => hpin b (by simp [hb]))
      (fun b hb => (hkeys b.handle).mpr (hmem b (by simp [hb])))
    refine ⟨u,?_,hbytes'.trans hbytes⟩
    unfold execute
    rw [List.foldlM_cons,bind_eq_ok]
    exact ⟨t,hok,hoks⟩

end Pins

/-! ## The resolve paths -/

/-- A page is in transfer exactly when its residency says so. -/
def Settled (s : PageOwnershipIndex) : Prop :=
  ∀ (h : PageHandle) (p : PhysicalPageRecord), s.pages[h]? = some p →
    (p.residency = .mirroring ↔ p.transferDirection = some .d2h) ∧
      (p.residency = .prefetching ↔ p.transferDirection = some .h2d)

section Paths
variable {a : RadixArbiter} {graph : RuntimeCausalContextGraph} {s : PageOwnershipIndex}
  {command : ControlCommand}

/-- An idle live page is in one of the three settled residencies. -/
theorem Settled.idle (hset : Settled s) {h : PageHandle} {p : PhysicalPageRecord}
    (hp : s.pages[h]? = some p) (hlive : p.live) (hidle : p.transferIdle) :
    p.transferDirection = none ∧
      (p.residency = .gpuOnly ∨ p.residency = .dualClean ∨ p.residency = .cpuOnly) := by
  have hdir : p.transferDirection = none := by simpa [PhysicalPageRecord.transferIdle] using hidle
  obtain ⟨h₁,h₂⟩ := hset h p hp
  rw [hdir] at h₁ h₂
  cases hres : p.residency <;> simp_all [PhysicalPageRecord.live]

/-- What a selection loop takes is prepared when its candidates are. -/
theorem prepared_taken {candidates taken : List Candidate} (hsub : List.Sublist taken candidates)
    (hn : (candidates.map (·.1.handle)).Nodup)
    (hfit : ∀ c ∈ candidates, s.pages[c.1.handle]? = some c.1 ∧ Fit c.2 c.1) :
    Prepared s (taken.map fun c => c.1.act c.2) := by
  constructor
  · have heq : handles (taken.map fun c => c.1.act c.2) = taken.map (·.1.handle) := by
      simp [handles,Function.comp_def,PhysicalPageRecord.act]
    rw [heq]
    exact hn.sublist (hsub.map _)
  · intro x hx
    obtain ⟨c,hc,rfl⟩ := List.mem_map.mp hx
    obtain ⟨hp,hf⟩ := hfit c (hsub.subset hc)
    exact ⟨c.1,hp,rfl,hf⟩

theorem actionBytes_taken (taken : List Candidate) :
    actionBytes (taken.map fun c => c.1.act c.2) = (taken.map (·.1.sizeBytes)).sum := by
  simp [actionBytes,Function.comp_def,PhysicalPageRecord.act]

/-- The page of a candidate that no transfer gate blocks. -/
theorem unblocked_refs (hs : s.Inv) {h : PageHandle} {p : PhysicalPageRecord}
    (hp : s.pages[h]? = some p) (hb : pageTransferBlockers p = []) :
    p.transferIdle ∧ p.engineLockRef = 0 ∧ p.activeReaderCount = 0 := by
  obtain ⟨-,hlock,hreaders,-,hidle⟩ := pageTransferBlockers_eq_nil.mp hb
  have hrefs := hs.refs_nonneg h p hp
  exact ⟨hidle,by omega,by omega⟩

/-- What a resolution promises about its execution. -/
structure Sound (s : PageOwnershipIndex) (kind : CommandKind) (r : ResolvedCommand) (c : ℤ) : Prop where
  prepared : Prepared s r.pageActions
  bytes : r.resolvedBytes = actionBytes r.pageActions
  gains : ∀ x ∈ r.pageActions, gainAt s kind x = c * x.sizeBytes

variable (a graph) in
theorem resolveOffload_sound (hs : s.Inv) (shadow : Bool) (contextId : String)
    (hkind : command.kind = if shadow then .shadowContext else .offloadContext) :
    Sound s command.kind (a.resolveOffload graph s command shadow contextId)
      (if shadow then 0 else -1) := by
  have hrec (c : Candidate) (hc : c ∈ offloadCandidates graph s command shadow contextId) :=
    (mem_contextRecords hs.toBase (mem_offloadCandidates hc).1).1
  obtain ⟨taken,hsub,hact,hbytes,-⟩ := Selection.run_spec (P := fun _ _ => True)
    s.leafClosureAllows (a.offloadLimit command shadow)
    (offloadCandidates graph s command shadow contextId) (fun _ _ _ _ => trivial) {}
  have hactions : (a.resolveOffload graph s command shadow contextId).pageActions =
      taken.map fun c => c.1.act c.2 := hact
  have hfit (c : Candidate) (hc : c ∈ offloadCandidates graph s command shadow contextId) :
      s.pages[c.1.handle]? = some c.1 ∧ Fit c.2 c.1 := by
    refine ⟨hrec c hc,?_⟩
    obtain ⟨hgates,hres⟩ := scanOffload_some (mem_offloadCandidates hc).2
    obtain ⟨hidle,-,-⟩ := unblocked_refs hs (hrec c hc) hgates
    rcases hres with ⟨hres,heq⟩ | ⟨hres,heq,-⟩ <;> rw [heq]
    · exact ⟨hres,by simpa [PhysicalPageRecord.transferIdle] using hidle⟩
    · exact hres
  refine ⟨?_,?_,?_⟩
  · rw [hactions]
    exact prepared_taken hsub (offloadCandidates_nodup hs.toBase shadow contextId) hfit
  · rw [hactions,actionBytes_taken]
    exact hbytes.trans (Nat.zero_add _)
  · rw [hactions]
    intro x hx
    obtain ⟨c,hc,rfl⟩ := List.mem_map.mp hx
    have hmem := hsub.subset hc
    have hg : gainAt s command.kind (c.1.act c.2) = gain command.kind c.2 c.1 := by
      simp [gainAt,PhysicalPageRecord.act,hrec c hmem]
    rw [hg]
    rcases (scanOffload_some (mem_offloadCandidates hmem).2).2 with ⟨-,heq⟩ | ⟨-,heq,hsh⟩ <;>
      cases shadow <;> simp_all [gain,PhysicalPageRecord.act]

variable (a command) in
theorem resolvePrefetch_sound (hs : s.Inv) (kind : CommandKind) (contextId : String) :
    Sound s kind (a.resolvePrefetch s command contextId) 1 := by
  have hrec (c : Candidate) (hc : c ∈ prefetchCandidates s contextId) :=
    (mem_contextRecords hs.toBase (mem_prefetchCandidates hc).1).1
  obtain ⟨taken,hsub,hact,hbytes,-⟩ := Selection.run_spec (P := fun _ _ => True)
    (fun page selected => s.prefetchClosureAllows selected (s.pages.size + 1) page.parent)
    (a.limit command) (prefetchCandidates s contextId) (fun _ _ _ _ => trivial) {}
  have hactions : (a.resolvePrefetch s command contextId).pageActions =
      taken.map fun c => c.1.act c.2 := hact
  have hfit (c : Candidate) (hc : c ∈ prefetchCandidates s contextId) :
      s.pages[c.1.handle]? = some c.1 ∧ Fit c.2 c.1 := by
    obtain ⟨-,hres,hidle,haction⟩ := mem_prefetchCandidates hc
    refine ⟨hrec c hc,?_⟩
    rw [haction]
    exact ⟨hres,by simpa [PhysicalPageRecord.transferIdle] using hidle⟩
  refine ⟨?_,?_,?_⟩
  · rw [hactions]
    exact prepared_taken hsub (prefetchCandidates_nodup hs.toBase contextId) hfit
  · rw [hactions,actionBytes_taken]
    exact hbytes.trans (Nat.zero_add _)
  · rw [hactions]
    intro x hx
    obtain ⟨c,hc,rfl⟩ := List.mem_map.mp hx
    obtain ⟨-,-,-,haction⟩ := mem_prefetchCandidates (hsub.subset hc)
    simp [gainAt,PhysicalPageRecord.act,hrec c (hsub.subset hc),haction,gain]

/-- The bytes some actions have on the GPU. -/
def residentBytes (s : PageOwnershipIndex) (actions : List ResolvedPageAction) : ℕ :=
  (actions.map fun x => s.gpuSize x.handle).sum

/-- The pages a command for unowned pages may take. -/
def MayDrop (p : PhysicalPageRecord) : Prop :=
  p.live ∧ p.ownerContexts.isEmpty ∧ transferEligible p

theorem mem_unownedCandidates (hs : s.Inv) {c : Candidate} : c ∈ unownedCandidates s ↔
    s.pages[c.1.handle]? = some c.1 ∧ MayDrop c.1 ∧ c.2 = .drop := by
  unfold unownedCandidates
  rw [List.mem_map]
  constructor
  · rintro ⟨p,hp,rfl⟩
    rw [(List.perm_insertionSort _ _).mem_iff,List.mem_filter] at hp
    obtain ⟨hval,hgate⟩ := hp
    obtain ⟨h,hpage⟩ := (Dict.mem_vals _ _).mp hval
    simp only [Bool.and_eq_true] at hgate
    refine ⟨?_,⟨hgate.1.1,hgate.1.2,hgate.2⟩,rfl⟩
    rw [hs.handle_eq h p hpage]
    exact hpage
  · rintro ⟨hpage,⟨hlive,howners,hel⟩,hact⟩
    refine ⟨c.1,?_,by rw [← hact]⟩
    rw [(List.perm_insertionSort _ _).mem_iff,List.mem_filter,Dict.mem_vals]
    exact ⟨⟨_,hpage⟩,by simp [hlive,howners,hel]⟩

theorem unownedCandidates_nodup (hs : s.Inv) : ((unownedCandidates s).map (·.1.handle)).Nodup := by
  unfold unownedCandidates
  rw [List.map_map]
  have hperm := (List.perm_insertionSort (fun p q => (compare (dropKey p) (dropKey q)).isLE)
    (s.pages.vals.filter fun page => page.live && page.ownerContexts.isEmpty &&
      transferEligible page)).map PhysicalPageRecord.handle
  refine hperm.nodup_iff.mpr ?_
  exact (vals_nodup hs.toBase).sublist (List.filter_sublist.map _)

variable (a command) in
theorem resolveDropUnowned_prepared (hs : s.Inv) (hset : Settled s) (kind : CommandKind) :
    Prepared s (a.resolveDropUnowned s command).pageActions ∧
      ∀ x ∈ (a.resolveDropUnowned s command).pageActions, gainAt s kind x = -s.gpuSize x.handle := by
  obtain ⟨taken,hsub,hact,-,-⟩ := Selection.run_spec (P := fun _ _ => True)
    s.leafClosureAllows (a.limit command) (unownedCandidates s)
    (fun _ _ _ _ => trivial) {}
  have hactions : (a.resolveDropUnowned s command).pageActions =
      taken.map fun c => c.1.act c.2 := hact
  rw [hactions]
  constructor
  · refine prepared_taken hsub (unownedCandidates_nodup hs) fun c hc => ?_
    obtain ⟨hpage,⟨hlive,-,hel⟩,haction⟩ := (mem_unownedCandidates hs).mp hc
    refine ⟨hpage,?_⟩
    rw [haction]
    simp only [transferEligible,Bool.and_eq_true,decide_eq_true_eq] at hel
    obtain ⟨hdir,hres⟩ := hset.idle hpage hlive hel.2
    exact ⟨hdir,hel.1.1.1.2,hel.1.2,hres⟩
  · intro x hx
    obtain ⟨c,hc,rfl⟩ := List.mem_map.mp hx
    obtain ⟨hpage,-,haction⟩ := (mem_unownedCandidates hs).mp (hsub.subset hc)
    simp [gainAt,gpuSize,PhysicalPageRecord.act,hpage,haction,gain]

/-- A target whose host copy can go. -/
theorem scanTerminal_some {h : PageHandle} {p : PhysicalPageRecord} (hb : s.Base)
    (hscan : (scanTerminal s h).2 = some p) : s.pages[h]? = some p ∧ p.handle = h ∧ p.live ∧
      (p.residency = .dualClean ∨ p.residency = .cpuOnly) ∧ pageTransferBlockers p = [] := by
  unfold scanTerminal at hscan
  cases hp : s.pages[h]? with
  | none => simp [hp] at hscan
  | some page =>
    simp only [hp] at hscan
    split_ifs at hscan with h₁ h₂ h₃ h₄ h₅
    obtain rfl := Option.some.inj hscan
    exact ⟨rfl,hb.handle_eq h page hp,by simpa using h₁,by tauto,not_not.mp h₄⟩

theorem mem_terminalCandidates (hb : s.Base) {c : Candidate} (hc : c ∈ terminalCandidates s command) :
    ∃ h, (scanTerminal s h).2 = some c.1 ∧ s.pages[c.1.handle]? = some c.1 ∧ c.2 = .dropHost := by
  obtain ⟨p,hp,rfl⟩ := List.mem_map.mp hc
  rw [(List.perm_insertionSort _ _).mem_iff] at hp
  obtain ⟨h,-,hscan⟩ := List.mem_filterMap.mp hp
  obtain ⟨hpage,heq,-⟩ := scanTerminal_some hb hscan
  refine ⟨h,hscan,?_,rfl⟩
  rw [heq]
  exact hpage

theorem terminalCandidates_nodup (hb : s.Base) (command : ControlCommand) :
    ((terminalCandidates s command).map (·.1.handle)).Nodup := by
  unfold terminalCandidates
  rw [List.map_map]
  have hperm := (List.perm_insertionSort (fun p q => (compare (dropKey p) (dropKey q)).isLE)
    (command.targetHandles.filterMap fun h => (scanTerminal s h).2)).map PhysicalPageRecord.handle
  refine hperm.nodup_iff.mpr ?_
  have hsub : ∀ hs : List PageHandle, List.Sublist ((hs.filterMap fun h =>
      (scanTerminal s h).2).map PhysicalPageRecord.handle) hs := by
    intro hs
    induction hs with
    | nil => simp
    | cons h hs ih =>
      cases hscan : (scanTerminal s h).2 with
      | none => simpa [hscan] using ih.cons h
      | some p => simpa [hscan,(scanTerminal_some hb hscan).2.1] using ih.cons_cons h
  exact command.targets_nodup.sublist (hsub _)

variable (a command) in
theorem resolveTerminalPrivateDrop_sound (hs : s.Inv) (kind : CommandKind) :
    Sound s kind (a.resolveTerminalPrivateDrop s command) 0 := by
  obtain ⟨taken,hsub,hact,hbytes,-⟩ := Selection.run_spec (P := fun _ _ => True)
    (fun _ _ => true) (a.limit command) (terminalCandidates s command)
    (fun _ _ _ _ => trivial) {}
  have hactions : (a.resolveTerminalPrivateDrop s command).pageActions =
      taken.map fun c => c.1.act c.2 := hact
  refine ⟨?_,?_,?_⟩
  · rw [hactions]
    refine prepared_taken hsub (terminalCandidates_nodup hs.toBase command) fun c hc => ?_
    obtain ⟨h,hscan,hpage,haction⟩ := mem_terminalCandidates hs.toBase hc
    obtain ⟨-,-,-,hres,hgates⟩ := scanTerminal_some hs.toBase hscan
    obtain ⟨hidle,hlock,hreaders⟩ := unblocked_refs hs hpage hgates
    refine ⟨hpage,?_⟩
    rw [haction]
    exact ⟨by simpa [PhysicalPageRecord.transferIdle] using hidle,hlock,hreaders,hres⟩
  · rw [hactions,actionBytes_taken]
    exact hbytes.trans (Nat.zero_add _)
  · rw [hactions]
    intro x hx
    obtain ⟨c,hc,rfl⟩ := List.mem_map.mp hx
    obtain ⟨-,-,hpage,haction⟩ := mem_terminalCandidates hs.toBase (hsub.subset hc)
    simp [gainAt,PhysicalPageRecord.act,hpage,haction,gain]

end Paths

/-! ## Bundles -/

section Bundles
open PhysicalBundleBuilder (Origin)
variable {b : PhysicalBundleBuilder} {kind : CommandKind} {contextId : String} {contextEpoch : ℤ}
  {options : PreviewOptions} {p : PhysicalBundlePreview}

/-- Actions made from some of the pages of a closure. -/
theorem prepared_pages {s : PageOwnershipIndex} {pages : List PhysicalPageRecord}
    {f : PhysicalPageRecord → Option PhysicalPageAction}
    (hn : (pages.map PhysicalPageRecord.handle).Nodup)
    (hrec : ∀ q ∈ pages, s.pages[q.handle]? = some q)
    (hfit : ∀ q ∈ pages, ∀ action, f q = some action → Fit action q) :
    Prepared s (pages.filterMap fun q => (f q).map q.act) := by
  constructor
  · have heq : handles (pages.filterMap fun q => (f q).map q.act) =
        (pages.filterMap fun q => (f q).map fun action => (q,action)).map (·.1.handle) := by
      unfold handles
      rw [List.map_filterMap,List.map_filterMap]
      congr 1
      funext q
      cases f q <;> rfl
    rw [heq]
    exact nodup_candidates f hn
  · intro x hx
    obtain ⟨q,hq,hx⟩ := List.mem_filterMap.mp hx
    obtain ⟨action,haction,rfl⟩ := Option.map_eq_some_iff.mp hx
    exact ⟨q,hrec q hq,rfl,hfit q hq action haction⟩

/-- What a preview promises about its execution. -/
structure SoundPreview (s : PageOwnershipIndex) (kind : CommandKind) (p : PhysicalBundlePreview)
    (c : ℤ) : Prop where
  prepared : Prepared s p.pageActions
  bytes : p.bundle.closureBytes = actionBytes p.pageActions
  gains : ∀ x ∈ p.pageActions, gainAt s kind x = c * x.sizeBytes

theorem soundPreview_of_pages {c : ℤ}
    {closure : Dict PageHandle PhysicalPageRecord} {pages : List PhysicalPageRecord}
    {f : PhysicalPageRecord → Option PhysicalPageAction} {blockers : List TransferBlocker}
    {blocked : Finset PageHandle}
    (hn : (pages.map PhysicalPageRecord.handle).Nodup)
    (hrec : ∀ q ∈ pages, b.pageIndex.pages[q.handle]? = some q)
    (hfit : ∀ q ∈ pages, ∀ action, f q = some action → Fit action q ∧
      gain kind action q = c * q.sizeBytes) :
    SoundPreview b.pageIndex kind (b.preview kind contextId contextEpoch closure
      (pages.filterMap fun q => (f q).map q.act) blockers blocked) c := by
  refine ⟨prepared_pages hn hrec fun q hq action ha => (hfit q hq action ha).1,rfl,?_⟩
  intro x hx
  obtain ⟨q,hq,hx⟩ := List.mem_filterMap.mp hx
  obtain ⟨action,haction,rfl⟩ := Option.map_eq_some_iff.mp hx
  simp [gainAt,PhysicalPageRecord.act,hrec q hq,(hfit q hq action haction).2]

/-- The GPU memory a bundle of a kind takes for each of its bytes. -/
def bundleSign : CommandKind → ℤ
  | .offloadContext | .dropContext => -1
  | .prefetchContext => 1
  | _ => 0

theorem offloadAction_eq (q : PhysicalPageRecord) : PhysicalBundleBuilder.offloadAction kind q =
    (match q.residency with
      | .dualClean => if kind = .offloadContext then some .commitCpu else none
      | .gpuOnly => some .startD2h
      | _ => none : Option PhysicalPageAction).map q.act := by
  unfold PhysicalBundleBuilder.offloadAction
  cases q.residency <;> simp

/-- Sorting records keeps them records under distinct handles. -/
theorem sorted_records {s : PageOwnershipIndex} (hb : s.Base)
    (f : PageHandle → PhysicalPageRecord → Bool) (r : PhysicalPageRecord → PhysicalPageRecord → Bool) :
    (((s.pages.select f).vals.insertionSort (r · ·)).map PhysicalPageRecord.handle).Nodup ∧
      ∀ q ∈ (s.pages.select f).vals.insertionSort (r · ·),
        q ∈ (s.pages.select f).vals ∧ s.pages[q.handle]? = some q := by
  obtain ⟨hrec,hn⟩ := select_records hb f
  have hperm := List.perm_insertionSort (fun p q => r p q) (s.pages.select f).vals
  refine ⟨((hperm.map _).nodup_iff).mpr hn,fun q hq => ?_⟩
  exact ⟨hperm.mem_iff.mp hq,hrec q (hperm.mem_iff.mp hq)⟩

/-- A preview without blockers can be carried out. -/
theorem Origin.sound (hs : b.pageIndex.Inv) (hset : Settled b.pageIndex)
    (h : Origin b contextId contextEpoch options kind p) (hb : p.blockers = []) :
    SoundPreview b.pageIndex kind p (bundleSign kind) := by
  cases h with
  | @offload kind root p h =>
    obtain ⟨hkind,-,-,-,-,-,-,-,after,blocked,heq⟩ := PhysicalBundleBuilder.previewOffloadRoot_some h
    dsimp only at heq
    rw [heq] at hb ⊢
    obtain ⟨-,hpages⟩ := flatMap_blockers_eq_nil hb
    obtain ⟨hn,hrec⟩ := sorted_records hs.toBase
      (fun h _ => decide (h ∈ (b.pageIndex.gpuDescendantWalk root).visited))
      PageOwnershipIndex.deepestFirst
    rw [show PhysicalBundleBuilder.offloadAction kind = _ from funext offloadAction_eq]
    refine soundPreview_of_pages hn (fun q hq => (hrec q hq).2) fun q hq action haction => ?_
    obtain ⟨hgates,-⟩ := PhysicalBundleBuilder.offloadBlockers_eq_nil (hpages q hq)
    obtain ⟨hidle,-,-⟩ := unblocked_refs hs (hrec q hq).2 hgates
    have hdir : q.transferDirection = none := by simpa [PhysicalPageRecord.transferIdle] using hidle
    rcases hkind with rfl | rfl <;> cases hres : q.residency <;> simp [hres] at haction <;>
      subst haction <;> simp [Fit,gain,bundleSign,hres,hdir]
  | @drop root hroot =>
    obtain ⟨hn,hrec⟩ := sorted_records hs.toBase
      (fun h _ => decide (h ∈ (b.pageIndex.gpuDescendantWalk root.handle).visited))
      PageOwnershipIndex.deepestFirst
    have hpages : ∀ q ∈ ((b.pageIndex.gpuDescendantClosure root.handle).1.vals.insertionSort
        (PageOwnershipIndex.deepestFirst · ·)), pageTransferBlockers q = [] := by
      intro q hq
      have hnil := deduplicateBlockers_eq_nil.mp hb
      exact (List.append_eq_nil_iff.mp
        (List.flatMap_eq_nil_iff.mp (List.append_eq_nil_iff.mp hnil).2 q hq)).1
    unfold PhysicalBundleBuilder.dropPreview
    dsimp only
    have hmap (pages : List PhysicalPageRecord) : pages.map (·.act .drop) =
        pages.filterMap fun q => (some PhysicalPageAction.drop).map q.act := by
      rw [← List.filterMap_eq_map]
      rfl
    rw [hmap]
    refine soundPreview_of_pages hn (fun q hq => (hrec q hq).2) ?_
    rintro q hq _ ⟨⟩
    have hgpu := closure_gpuResident hs.toBase
      (show q ∈ (b.pageIndex.gpuDescendantClosure root.handle).1.vals from (hrec q hq).1)
    obtain ⟨hidle,hlock,hreaders⟩ := unblocked_refs hs (hrec q hq).2 (hpages q hq)
    have hlive : q.live := by
      simpa [PhysicalPageRecord.live] using live_of_gpuResident hgpu
    obtain ⟨hdir,hres⟩ := hset.idle (hrec q hq).2 hlive hidle
    exact ⟨⟨hdir,hlock,hreaders,hres⟩,by simp [gain,gpuShare,hgpu,bundleSign]⟩
  | @prefetch target htarget htres =>
    unfold PhysicalBundleBuilder.prefetchPreview at hb ⊢
    dsimp only at hb ⊢
    obtain ⟨-,hpages⟩ := flatMap_blockers_eq_nil hb
    obtain ⟨hn,hrec⟩ := sorted_records hs.toBase (fun h _ => decide (h ∈
      (b.pageIndex.prefetchChain (b.pageIndex.pages.size + 2) target []).1)) shallowestFirst
    have hact : (fun q : PhysicalPageRecord => if q.residency = .cpuOnly then
        some (q.act .startH2d) else none) = fun q =>
          (if q.residency = .cpuOnly then some .startH2d else none).map q.act := by
      funext q
      split_ifs <;> rfl
    rw [hact]
    refine soundPreview_of_pages (hn.sublist (List.filter_sublist.map _))
      (fun q hq => (hrec q (List.mem_of_mem_filter hq)).2) fun q hq action haction => ?_
    split_ifs at haction with hres
    obtain rfl := Option.some.inj haction
    have hgates : pageTransferBlockers q = [] := by simpa [hres] using hpages q hq
    obtain ⟨hidle,-,-⟩ := unblocked_refs hs (hrec q (List.mem_of_mem_filter hq)).2 hgates
    exact ⟨⟨hres,by simpa [PhysicalPageRecord.transferIdle] using hidle⟩,
      by simp [gain,bundleSign]⟩

/-- The intent of a preview that was made for a kind, in whatever state. -/
def PreviewedIntent (kind : CommandKind) (intent : PhysicalBundleIntent) : Prop :=
  ∃ (b : PhysicalBundleBuilder) (contextId : String) (contextEpoch : ℤ) (options : PreviewOptions)
    (p : PhysicalBundlePreview), Origin b contextId contextEpoch options kind p ∧
      p.intent = .ok intent

/-- A previewed reclaim expects all bytes of its closure. -/
theorem PreviewedIntent.expected {intent : PhysicalBundleIntent} (h : PreviewedIntent kind intent)
    (hk : kind = .offloadContext ∨ kind = .dropContext) :
    intent.expectedReclaimableBytes = intent.closureBytes := by
  obtain ⟨b,contextId,contextEpoch,options,p,horigin,hintent⟩ := h
  unfold PhysicalBundlePreview.intent at hintent
  split_ifs at hintent with hel
  obtain rfl := Except.ok.inj hintent
  have hb : p.blockers = [] := by
    simp only [PhysicalBundlePreview.eligible,Bool.not_eq_false,Bool.and_eq_true,
      decide_eq_true_eq] at hel
    exact hel.2
  have hmem : kind ∈ [CommandKind.offloadContext,.dropContext] := by simpa using hk
  cases horigin with
  | offload h =>
    obtain ⟨-,-,-,-,-,-,-,-,after,blocked,heq⟩ := PhysicalBundleBuilder.previewOffloadRoot_some h
    dsimp only at heq
    rw [heq] at hb ⊢
    exact if_pos ⟨hmem,hb⟩
  | drop h => exact if_pos ⟨hmem,hb⟩
  | prefetch h => simp at hk

end Bundles

/-! ## Every command -/

section Main
variable {a : RadixArbiter} {graph : RuntimeCausalContextGraph} {s : PageOwnershipIndex}
  {command : ControlCommand}

/-- How the GPU memory changes when a resolution is carried out. -/
def expectedChange (s : PageOwnershipIndex) (kind : CommandKind) (r : ResolvedCommand) : ℤ :=
  match kind with
  | .offloadContext | .dropContext => -r.resolvedBytes
  | .dropUnowned => -residentBytes s r.pageActions
  | .prefetchContext => r.resolvedBytes
  | _ => 0

/-- A resolution can be carried out and changes the GPU memory as expected. -/
def Executable (s : PageOwnershipIndex) (command : ControlCommand) (r : ResolvedCommand) : Prop :=
  (handles r.pageActions).Nodup ∧ ∃ t, execute command s r.pageActions = .ok t ∧
    (t.gpuBytes : ℤ) = s.gpuBytes + expectedChange s command.kind r

theorem Prepared.executes (command : ControlCommand) {actions : List ResolvedPageAction} (hs : s.Inv) (hv : s.CacheValid)
    (h : Prepared s actions) : ∃ t, execute command s actions = .ok t ∧
      (t.gpuBytes : ℤ) = s.gpuBytes + (actions.map (gainAt s command.kind)).sum := by
  obtain ⟨t,hok,-,htv,htotal⟩ := execute_ok command hs hv h
  exact ⟨t,hok,by rw [htv.gpuBytes_eq,hv.gpuBytes_eq,htotal]⟩

theorem executable_of_gains (hs : s.Inv) (hv : s.CacheValid) {r : ResolvedCommand} {c : ℤ}
    (hp : Prepared s r.pageActions) (hb : r.resolvedBytes = actionBytes r.pageActions)
    (hg : ∀ x ∈ r.pageActions, gainAt s command.kind x = c * x.sizeBytes)
    (hc : c * r.resolvedBytes = expectedChange s command.kind r) : Executable s command r := by
  obtain ⟨t,hok,hbytes⟩ := hp.executes command hs hv
  refine ⟨hp.nodup,t,hok,?_⟩
  rw [hbytes,sum_gains c hg,← hb,hc]

theorem resolveDropUnowned_executable (hs : s.Inv) (hv : s.CacheValid) (hset : Settled s)
    (hkind : command.kind = .dropUnowned) :
    Executable s command (a.resolveDropUnowned s command) := by
  obtain ⟨hp,hg⟩ := resolveDropUnowned_prepared a command hs hset command.kind
  obtain ⟨t,hok,hbytes⟩ := hp.executes command hs hv
  refine ⟨hp.nodup,t,hok,?_⟩
  rw [hbytes,List.map_congr_left hg]
  simp only [expectedChange,hkind,residentBytes,Nat.cast_list_sum,List.map_map]
  congr 1
  generalize (a.resolveDropUnowned s command).pageActions = actions
  induction actions with
  | nil => simp
  | cons x actions ih =>
    simp only [List.map_cons,List.sum_cons,Function.comp_def] at ih ⊢
    rw [ih]
    ring

theorem resolvePins_executable (hs : s.Inv) {action : PhysicalPageAction} (contextId : String)
    (hact : action = .pin ∨ action = .unpin) (hkind : expectedChange s command.kind
      (resolvePins s action contextId) = 0) : Executable s command (resolvePins s action contextId) := by
  have hmem (x : ResolvedPageAction) (hx : x ∈ (resolvePins s action contextId).pageActions) :
      x.action = action ∧ x.handle ∈ s.pages := by
    obtain ⟨q,hq,rfl⟩ := List.mem_map.mp hx
    exact ⟨rfl,(Dict.mem_iff_get _ _).mpr ⟨q,(mem_contextRecords hs.toBase hq).1⟩⟩
  obtain ⟨t,hok,hbytes⟩ := execute_pins command (s := s)
    (fun x hx => (hmem x hx).1 ▸ hact) (fun x hx => (hmem x hx).2)
  refine ⟨?_,t,hok,by rw [hbytes,hkind,add_zero]⟩
  have heq : handles (resolvePins s action contextId).pageActions =
      (s.contextRecords contextId).map PhysicalPageRecord.handle := by
    simp [handles,resolvePins,Function.comp_def,PhysicalPageRecord.act]
  rw [heq]
  exact contextRecords_nodup hs.toBase contextId

theorem resolveKind_executable (hs : s.Inv) (hv : s.CacheValid) (contextId : String) :
    Executable s command (a.resolveKind graph s command contextId) := by
  unfold resolveKind
  cases hk : command.kind <;> dsimp only
  case offloadContext =>
    have h := resolveOffload_sound a graph hs false contextId (by simpa using hk)
    exact executable_of_gains hs hv h.prepared h.bytes h.gains (by simp [expectedChange,hk])
  case shadowContext =>
    have h := resolveOffload_sound a graph hs true contextId (by simpa using hk)
    exact executable_of_gains hs hv h.prepared h.bytes h.gains (by simp [expectedChange,hk])
  case prefetchContext =>
    have h := resolvePrefetch_sound a command hs command.kind contextId
    exact executable_of_gains hs hv h.prepared h.bytes h.gains (by simp [expectedChange,hk])
  case dropTerminalPrivate =>
    have h := resolveTerminalPrivateDrop_sound a command hs command.kind
    exact executable_of_gains hs hv h.prepared h.bytes h.gains (by simp [expectedChange,hk])
  case pinContext =>
    exact resolvePins_executable hs contextId (.inl rfl) (by simp [expectedChange,hk])
  case unpinContext =>
    exact resolvePins_executable hs contextId (.inr rfl) (by simp [expectedChange,hk])
  all_goals exact ⟨by simp [handles],s,rfl,by simp [expectedChange,hk,residentBytes]⟩

theorem resolvePhysicalBundle_executable (hs : s.Inv) (hv : s.CacheValid) (hset : Settled s)
    {contextId : String} {epoch : ℤ} {intent : PhysicalBundleIntent}
    (hdrop : command.kind ≠ .dropUnowned)
    (hne : (a.resolvePhysicalBundle graph s command contextId epoch intent).pageActions ≠ []) :
    Executable s command (a.resolvePhysicalBundle graph s command contextId epoch intent) ∧
      (a.resolvePhysicalBundle graph s command contextId epoch intent).resolvedBytes =
        intent.closureBytes := by
  obtain ⟨p,hmem,-,-,hb,-,-,hbytes,heq⟩ := resolvePhysicalBundle_some hne
  obtain ⟨-,-,horigin⟩ := PhysicalBundleBuilder.origin_of_mem hmem
  have h := Origin.sound (b := a.builder graph s) hs hset horigin hb
  rw [heq]
  refine ⟨executable_of_gains hs hv h.prepared h.bytes h.gains ?_,hbytes⟩
  cases hk : command.kind <;> simp_all [expectedChange,bundleSign]

/-- In every index a run reaches in which transfers are in flight exactly for the pages whose
residency says so, what a command resolves to can be carried out, touches no page twice and
changes the GPU memory as expected; a reclaim bundle made from a preview frees what its intent
expects. -/
theorem resolved_executable (ops : List Op) (hd : ∀ op ∈ ops, op.NoDead)
    (hset : Settled (empty.run ops)) (a : RadixArbiter) (graph : RuntimeCausalContextGraph)
    (command : ControlCommand)
    (hne : (a.resolve graph (empty.run ops) command).pageActions ≠ []) :
    Executable (empty.run ops) command (a.resolve graph (empty.run ops) command) ∧
    ∀ intent, command.physicalBundle = some intent →
      (command.kind = .offloadContext ∨ command.kind = .dropContext) →
      PreviewedIntent command.kind intent →
        (a.resolve graph (empty.run ops) command).resolvedBytes = intent.expectedReclaimableBytes := by
  have hs := run_inv ops hd
  have hv := run_cacheValid ops hd
  have hexec : Executable (empty.run ops) command (a.resolve graph (empty.run ops) command) ∧
      ∀ intent, command.physicalBundle = some intent → command.kind ≠ .dropUnowned →
        (a.resolve graph (empty.run ops) command).resolvedBytes = intent.closureBytes := by
    rcases resolve_cases hne with ⟨hk,heq⟩ |
      ⟨contextId,epoch,context,-,-,-,-,-,⟨intent,hi,heq⟩ | ⟨hnone,heq⟩⟩
    · rw [heq]
      exact ⟨resolveDropUnowned_executable hs hv hset hk,fun _ _ hk' => absurd hk hk'⟩
    · by_cases hk : command.kind = .dropUnowned
      · rw [resolve,if_pos hk]
        exact ⟨resolveDropUnowned_executable hs hv hset hk,fun _ _ hk' => absurd hk hk'⟩
      · rw [heq] at hne ⊢
        obtain ⟨hex,hbytes⟩ := resolvePhysicalBundle_executable hs hv hset hk hne
        refine ⟨hex,fun other ho _ => ?_⟩
        rw [hi] at ho
        obtain rfl := Option.some.inj ho
        exact hbytes
    · rw [heq]
      refine ⟨resolveKind_executable hs hv contextId,fun intent hi => ?_⟩
      simp [hnone] at hi
  refine ⟨hexec.1,fun intent hi hk hp => ?_⟩
  rw [hp.expected hk]
  exact hexec.2 intent hi (by rcases hk with h | h <;> simp [h])

end Main

/-! ## A bundle of one page -/

/-- One page on the GPU, owned by one context. -/
def onePage : List Op :=
  [.registerContext "c" "w" 0,.registerPage ⟨0,0⟩ 1 .gpuOnly 0 none true 0,
    .bindPages "c" 0 [⟨0,0⟩] false]

def pageArbiter : RadixArbiter := { digests := ⟨fun _ => "b",fun _ => "f"⟩ }

/-- The intent to offload the page, with some number of bytes expected from it. -/
def pageIntent (expected : ℕ) : PhysicalBundleIntent :=
  { bundleId := "b"
    closureHandles := [⟨0,0⟩]
    pageActions := [⟨⟨0,0⟩,.startD2h,1⟩]
    generationFingerprint := "f"
    closureBytes := 1
    expectedReclaimableBytes := expected }

def pageOffload (expected : ℕ) : ControlCommand :=
  { commandId := "x"
    kind := .offloadContext
    contextId := some "c"
    contextEpoch := some 0
    physicalBundle := some (pageIntent expected)
    targets_nodup := List.nodup_nil }

theorem pageOffload_resolve : ∀ expected < 2, (pageArbiter.resolve PhysicalBundleBuilder.idleGraph
    (empty.run onePage) (pageOffload expected)).pageActions = [⟨⟨0,0⟩,.startD2h,1⟩] := by
  decide +kernel

theorem onePage_settled : Settled (empty.run onePage) := by
  have hall : ∀ p ∈ (empty.run onePage).pages.vals, p.residency = .gpuOnly ∧
      p.transferDirection = none := by decide
  intro h p hp
  obtain ⟨hres,hdir⟩ := hall p ((Dict.mem_vals _ _).mpr ⟨h,hp⟩)
  simp [hres,hdir]

/-- The intent the builder makes of the page frees the one byte it expects. -/
theorem resolved_executable_sample :
    let r := pageArbiter.resolve PhysicalBundleBuilder.idleGraph (empty.run onePage) (pageOffload 1)
    Executable (empty.run onePage) (pageOffload 1) r ∧ r.resolvedBytes = 1 := by
  have hne : (pageArbiter.resolve PhysicalBundleBuilder.idleGraph (empty.run onePage)
      (pageOffload 1)).pageActions ≠ [] := by
    rw [pageOffload_resolve 1 (by decide)]
    simp
  obtain ⟨hex,hbytes⟩ := resolved_executable onePage (by decide) onePage_settled pageArbiter
    PhysicalBundleBuilder.idleGraph (pageOffload 1) hne
  have hsome : ((pageArbiter.builder PhysicalBundleBuilder.idleGraph (empty.run onePage)).previewOffloadRoot
      .offloadContext "c" 0 ⟨0,0⟩ {}).bind (fun p => p.intent.toOption) = some (pageIntent 1) := by
    decide +kernel
  obtain ⟨p,hp,hintent⟩ := Option.bind_eq_some_iff.mp hsome
  refine ⟨hex,hbytes (pageIntent 1) rfl (.inl rfl) ⟨_,"c",0,{},p,.offload hp,?_⟩⟩
  cases h : p.intent with
  | error e => simp [h,Except.toOption] at hintent
  | ok intent => simpa [h,Except.toOption] using hintent

/-- What an intent expects is not looked at: one that was not made from a preview can expect no
bytes and still free one. -/
theorem expected_bytes_unchecked :
    let r := pageArbiter.resolve PhysicalBundleBuilder.idleGraph (empty.run onePage) (pageOffload 0)
    r.pageActions ≠ [] ∧ (∃ t, execute (pageOffload 0) (empty.run onePage) r.pageActions = .ok t ∧
      (t.gpuBytes : ℤ) = (empty.run onePage).gpuBytes - 1) ∧
    (pageOffload 0).physicalBundle.map PhysicalBundleIntent.expectedReclaimableBytes = some 0 := by
  dsimp only
  rw [pageOffload_resolve 0 (by decide)]
  have hrun : ((execute (pageOffload 0) (empty.run onePage) [⟨⟨0,0⟩,.startD2h,1⟩]).toOption.map
      gpuBytes,(empty.run onePage).gpuBytes) = (some 0,1) := by decide +kernel
  obtain ⟨hok,hbefore⟩ := Prod.mk.inj hrun
  obtain ⟨t,ht,hbytes⟩ := Option.map_eq_some_iff.mp hok
  refine ⟨by simp,⟨t,?_,by rw [hbytes,hbefore]; rfl⟩,rfl⟩
  cases he : execute (pageOffload 0) (empty.run onePage) [⟨⟨0,0⟩,.startD2h,1⟩] with
  | error e => simp [he,Except.toOption] at ht
  | ok u => simpa [he,Except.toOption] using ht

end RadixArbiter
end BeliefKV
