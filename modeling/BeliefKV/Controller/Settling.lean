import BeliefKV.Lib.Atomic
import BeliefKV.PageIndex.OnePage
import BeliefKV.Controller.Execution

/-! The page actions of the command in flight: when each of them can be started or settled, and
that it then looks at its own page alone. -/
namespace BeliefKV.BeliefKVController
open Call PageOwnershipIndex

/-! ## The table of actions -/

section Table
variable {actions : List ResolvedPageAction} {a b : ResolvedPageAction}

theorem setAction_handles (actions : List ResolvedPageAction) (a : ResolvedPageAction) :
    (setAction actions a).map (·.handle) = if a.handle ∈ actions.map (·.handle) then
      actions.map (·.handle) else actions.map (·.handle) ++ [a.handle] := by
  induction actions with
  | nil => simp [setAction]
  | cons b actions ih =>
    rw [setAction]
    by_cases hb : b.handle = a.handle
    · simp [hb]
    · simp only [hb,if_false,List.map_cons,ih,List.mem_cons,Ne.symm hb,false_or]
      split_ifs <;> rfl

theorem foldl_setAction_nodup (actions table : List ResolvedPageAction)
    (h : (table.map (·.handle)).Nodup) : ((actions.foldl setAction table).map (·.handle)).Nodup := by
  induction actions generalizing table with
  | nil => exact h
  | cons a actions ih =>
    refine ih _ ?_
    rw [setAction_handles]
    split_ifs with hmem
    · exact h
    · exact List.nodup_append.mpr ⟨h,by simp,by simpa using fun b hb hab => hmem (by
        rw [← hab]; exact List.mem_map.mpr ⟨b,hb,rfl⟩)⟩

/-- The table has one action for each handle. -/
theorem actionTable_nodup (actions : List ResolvedPageAction) :
    ((actionTable actions).map (·.handle)).Nodup := foldl_setAction_nodup actions [] List.nodup_nil

theorem actionTable_unique (ha : a ∈ actionTable actions) (hb : b ∈ actionTable actions)
    (hab : a.handle = b.handle) : a = b :=
  List.inj_on_of_nodup_map (actionTable_nodup actions) ha hb hab

end Table

/-! ## Settling -/

/-- The action can be settled in an index. -/
def CanSettle (flight : InFlightCommand) (completed : Finset PageHandle)
    (pages : PageOwnershipIndex) (action : ResolvedPageAction) : Prop :=
  if action.handle ∉ completed then
    action.handle ∈ flight.startedHandles ∧ action.action ∈ [.startD2h,.startH2d] →
      ∃ p, pages.requirePage action.handle = .ok p ∧ p.transferDirection ≠ none
  else
    match action.action with
    | .startD2h => action.handle ∈ flight.startedHandles ∧
        ∃ p, pages.requirePage action.handle = .ok p ∧ p.transferDirection = some .d2h
    | .startH2d => action.handle ∈ flight.startedHandles ∧
        ∃ p, pages.requirePage action.handle = .ok p ∧ p.transferDirection = some .h2d
    | .commitCpu => ∃ p, pages.requirePage action.handle = .ok p ∧
        (p.residency = .cpuOnly ∨ p.residency = .dualClean)
    | .drop => ∃ p, pages.requirePage action.handle = .ok p ∧ p.transferIdle ∧
        (p.residency = .dualClean ∨ (p.residency = .gpuOnly ∨ p.residency = .cpuOnly) ∧
          p.engineLockRef = 0 ∧ p.activeReaderCount = 0)
    | .dropHost => ∃ p, pages.requirePage action.handle = .ok p ∧ p.transferIdle ∧
        (p.residency = .dualClean ∨ p.residency = .cpuOnly ∧
          p.engineLockRef = 0 ∧ p.activeReaderCount = 0)
    | .pin | .unpin => flight.command.contextId = none ∨ action.handle ∈ pages.pages

/-- Settling the action changes nothing. -/
def Moot (flight : InFlightCommand) (completed : Finset PageHandle)
    (pages : PageOwnershipIndex) (action : ResolvedPageAction) : Prop :=
  if action.handle ∉ completed then
    ¬ (action.handle ∈ flight.startedHandles ∧ action.action ∈ [.startD2h,.startH2d])
  else
    match action.action with
    | .startD2h | .startH2d | .drop | .dropHost => False
    | .commitCpu => ∃ p, pages.requirePage action.handle = .ok p ∧ p.residency = .cpuOnly
    | .pin => ∀ c, flight.command.contextId = some c →
        ∃ p : PhysicalPageRecord, pages.pages[action.handle]? = some p ∧ c ∈ p.semanticPinContexts
    | .unpin => ∀ c, flight.command.contextId = some c →
        ∃ p : PhysicalPageRecord, pages.pages[action.handle]? = some p ∧ c ∉ p.semanticPinContexts

section Settling
variable {flight : InFlightCommand} {completed : Finset PageHandle} {s s' t : PageOwnershipIndex}
  {a : ResolvedPageAction} {h : PageHandle} {contextId : Option String}
  {f : String → Finset String → Finset String}

theorem writePins_onlyAt (hok : writePins s h contextId f = .ok s') : OnlyAt h s s' := by
  unfold writePins at hok
  cases contextId with
  | none => exact .inl (Except.ok.inj hok).symm
  | some c =>
    dsimp only at hok
    split_ifs at hok
    cases hok
    exact repinPages_onlyAt _

theorem writePins_ok : (∃ s', writePins s h contextId f = .ok s') ↔ contextId = none ∨ h ∈ s.pages := by
  unfold writePins
  cases contextId with
  | none => simp
  | some c =>
    dsimp only
    split_ifs with hmem <;> simp [hmem]

theorem settleAction_onlyAt (hok : settleAction flight completed s a = .ok s') :
    OnlyAt a.handle s s' := by
  obtain ⟨handle,action,size⟩ := a
  by_cases hc : handle ∈ completed
  · cases action <;> simp only [settleAction,hc,not_true_eq_false,if_false] at hok
    · split_ifs at hok
      exact completeTransfer_onlyAt hok
    · exact commitCpu_onlyAt hok
    · split_ifs at hok
      exact completeTransfer_onlyAt hok
    · exact dropPage_onlyAt hok
    · exact dropHostCopy_onlyAt hok
    · exact writePins_onlyAt hok
    · exact writePins_onlyAt hok
  · simp only [settleAction,hc,not_false_eq_true,if_true] at hok
    split_ifs at hok
    · exact abortTransfer_onlyAt hok
    · exact .inl (Except.ok.inj hok).symm

/-! ### When the calls return -/

theorem abortTransfer_ok : (∃ s', s.abortTransfer h = .ok s') ↔
    ∃ p, s.requirePage h = .ok p ∧ p.transferDirection ≠ none := by
  constructor
  · rintro ⟨s',hok⟩
    obtain ⟨p,dir,hp,hdir,-⟩ := abortTransfer_eq_ok.mp hok
    exact ⟨p,hp,by rw [hdir]; simp⟩
  · rintro ⟨p,hp,hdir⟩
    obtain ⟨dir,hdir⟩ := Option.ne_none_iff_exists'.mp hdir
    exact ⟨_,abortTransfer_eq_ok.mpr ⟨p,dir,hp,hdir,rfl⟩⟩

theorem completeTransfer_ok {dir : TransferDirection} {keepGpu : Bool} :
    (∃ s', s.completeTransfer h dir keepGpu = .ok s') ↔
      ∃ p, s.requirePage h = .ok p ∧ p.transferDirection = some dir := by
  constructor
  · rintro ⟨s',hok⟩
    obtain ⟨p,hp,hdir,-⟩ := completeTransfer_eq_ok.mp hok
    exact ⟨p,hp,hdir⟩
  · rintro ⟨p,hp,hdir⟩
    exact ⟨_,completeTransfer_eq_ok.mpr ⟨p,hp,hdir,rfl⟩⟩

theorem commitCpu_ok : (∃ s', s.commitCpu h = .ok s') ↔ ∃ p, s.requirePage h = .ok p ∧
    (p.residency = .cpuOnly ∨ p.residency = .dualClean) := by
  constructor
  · rintro ⟨s',hok⟩
    obtain ⟨p,hp,hres⟩ := commitCpu_eq_ok.mp hok
    exact ⟨p,hp,hres.imp And.left And.left⟩
  · rintro ⟨p,hp,hres | hres⟩
    · exact ⟨_,commitCpu_eq_ok.mpr ⟨p,hp,.inl ⟨hres,rfl⟩⟩⟩
    · exact ⟨_,commitCpu_eq_ok.mpr ⟨p,hp,.inr ⟨hres,rfl⟩⟩⟩

/-- A live page that no transfer holds is freed when nobody locks or reads it. -/
theorem freePage_ok {p : PhysicalPageRecord} (hp : s.requirePage h = .ok p) (hi : p.transferIdle) :
    (∃ s', s.freePage h = .ok s') ↔ p.engineLockRef = 0 ∧ p.activeReaderCount = 0 := by
  constructor
  · rintro ⟨s',hok⟩
    obtain ⟨q,hq,hl,hr,-⟩ := freePage_eq_ok.mp hok
    rw [hp] at hq
    cases hq
    exact ⟨hl,hr⟩
  · rintro ⟨hl,hr⟩
    exact ⟨_,freePage_eq_ok.mpr ⟨p,hp,hl,hr,hi,rfl⟩⟩

theorem dropPage_ok : (∃ s', s.dropPage h = .ok s') ↔ ∃ p, s.requirePage h = .ok p ∧
    p.transferIdle ∧ (p.residency = .dualClean ∨ (p.residency = .gpuOnly ∨ p.residency = .cpuOnly) ∧
      p.engineLockRef = 0 ∧ p.activeReaderCount = 0) := by
  constructor
  · rintro ⟨s',hok⟩
    obtain ⟨p,hp,hi,⟨hres,-⟩ | ⟨hres,hfree⟩⟩ := dropPage_eq_ok.mp hok
    · exact ⟨p,hp,hi,.inl hres⟩
    · exact ⟨p,hp,hi,.inr ⟨hres,(freePage_ok hp hi).mp ⟨s',hfree⟩⟩⟩
  · rintro ⟨p,hp,hi,hres | ⟨hres,hrefs⟩⟩
    · exact ⟨_,dropPage_eq_ok.mpr ⟨p,hp,hi,.inl ⟨hres,rfl⟩⟩⟩
    · obtain ⟨s',hfree⟩ := (freePage_ok hp hi).mpr hrefs
      exact ⟨s',dropPage_eq_ok.mpr ⟨p,hp,hi,.inr ⟨hres,hfree⟩⟩⟩

theorem dropHostCopy_ok : (∃ s', s.dropHostCopy h = .ok s') ↔ ∃ p, s.requirePage h = .ok p ∧
    p.transferIdle ∧ (p.residency = .dualClean ∨ p.residency = .cpuOnly ∧
      p.engineLockRef = 0 ∧ p.activeReaderCount = 0) := by
  constructor
  · rintro ⟨s',hok⟩
    obtain ⟨p,hp,hi,⟨hres,-⟩ | ⟨hres,hfree⟩⟩ := dropHostCopy_eq_ok.mp hok
    · exact ⟨p,hp,hi,.inl hres⟩
    · exact ⟨p,hp,hi,.inr ⟨hres,(freePage_ok hp hi).mp ⟨s',hfree⟩⟩⟩
  · rintro ⟨p,hp,hi,hres | ⟨hres,hrefs⟩⟩
    · exact ⟨_,dropHostCopy_eq_ok.mpr ⟨p,hp,hi,.inl ⟨hres,rfl⟩⟩⟩
    · obtain ⟨s',hfree⟩ := (freePage_ok hp hi).mpr hrefs
      exact ⟨s',dropHostCopy_eq_ok.mpr ⟨p,hp,hi,.inr ⟨hres,hfree⟩⟩⟩

/-- An action is settled exactly when its page allows it. -/
theorem settleAction_ok : (∃ s', settleAction flight completed s a = .ok s') ↔
    CanSettle flight completed s a := by
  obtain ⟨handle,action,size⟩ := a
  by_cases hc : handle ∈ completed
  · cases action <;> simp only [settleAction,CanSettle,hc,not_true_eq_false,if_false]
    · split_ifs with hst
      · simpa [hst] using completeTransfer_ok
      · simp [hst]
    · exact commitCpu_ok
    · split_ifs with hst
      · simpa [hst] using completeTransfer_ok
      · simp [hst]
    · exact dropPage_ok
    · exact dropHostCopy_ok
    · exact writePins_ok
    · exact writePins_ok
  · simp only [settleAction,CanSettle,hc,not_false_eq_true,if_true]
    split_ifs with hst
    · rw [abortTransfer_ok]
      exact ⟨fun hp _ => hp,fun hp => hp hst⟩
    · exact ⟨fun _ h => absurd h hst,fun _ => ⟨s,rfl⟩⟩

/-- Whether an action can be settled depends on the standing of its page. -/
theorem CanSettle.depends (ht : t.standingOf a.handle = s.standingOf a.handle)
    (h : CanSettle flight completed s a) : CanSettle flight completed t a := by
  obtain ⟨handle,action,size⟩ := a
  have hreq {p : PhysicalPageRecord} (hp : s.requirePage handle = .ok p) :
      ∃ q, t.requirePage handle = .ok q ∧ q.residency = p.residency ∧
        q.transferDirection = p.transferDirection ∧ q.engineLockRef = p.engineLockRef ∧
        q.activeReaderCount = p.activeReaderCount ∧ q.transferIdle = p.transferIdle := by
    obtain ⟨q,hq,hst⟩ := requirePage_of_standing ht hp
    simp only [standing,Prod.mk.injEq] at hst
    refine ⟨q,hq,hst.1,hst.2.1,hst.2.2.1,hst.2.2.2.1,?_⟩
    rw [PhysicalPageRecord.transferIdle,PhysicalPageRecord.transferIdle,hst.2.1]
  have hmem (hm : handle ∈ s.pages) : handle ∈ t.pages := by
    obtain ⟨p,hp⟩ := (Dict.mem_iff_get _ _).mp hm
    have hrec := (Prod.mk.inj ht).1
    rw [hp,Option.map_some] at hrec
    obtain ⟨q,hq,-⟩ := Option.map_eq_some_iff.mp hrec
    exact (Dict.mem_iff_get _ _).mpr ⟨q,hq⟩
  by_cases hc : handle ∈ completed
  · cases action <;> simp only [CanSettle,hc,not_true_eq_false,if_false] at h ⊢
    · obtain ⟨hst,p,hp,hdir⟩ := h
      obtain ⟨q,hq,-,hd,-⟩ := hreq hp
      exact ⟨hst,q,hq,hd.trans hdir⟩
    · obtain ⟨p,hp,hres⟩ := h
      obtain ⟨q,hq,hr,-⟩ := hreq hp
      exact ⟨q,hq,by rwa [hr]⟩
    · obtain ⟨hst,p,hp,hdir⟩ := h
      obtain ⟨q,hq,-,hd,-⟩ := hreq hp
      exact ⟨hst,q,hq,hd.trans hdir⟩
    · obtain ⟨p,hp,hi,hres⟩ := h
      obtain ⟨q,hq,hr,-,hl,ha,hi'⟩ := hreq hp
      exact ⟨q,hq,hi'.trans hi,by rwa [hr,hl,ha]⟩
    · obtain ⟨p,hp,hi,hres⟩ := h
      obtain ⟨q,hq,hr,-,hl,ha,hi'⟩ := hreq hp
      exact ⟨q,hq,hi'.trans hi,by rwa [hr,hl,ha]⟩
    · exact h.imp_right hmem
    · exact h.imp_right hmem
  · simp only [CanSettle,hc,not_false_eq_true,if_true] at h ⊢
    intro hst
    obtain ⟨p,hp,hdir⟩ := h hst
    obtain ⟨q,hq,-,hd,-⟩ := hreq hp
    exact ⟨q,hq,by rwa [hd]⟩

/-- Settling one action is local to its page. -/
theorem settleAction_local (flight : InFlightCommand) (completed : Finset PageHandle) :
    Local (settleAction flight completed) (·.handle) standingOf where
  depends ht hok := settleAction_ok.mpr ((settleAction_ok.mp ⟨_,hok⟩).depends ht)
  frame hok hk := by
    rcases settleAction_onlyAt hok with rfl | ⟨-,hframe⟩
    · rfl
    · exact hframe _ hk
  moves hok := (settleAction_onlyAt hok).imp_right And.left

/-! ### When the calls change nothing -/

theorem moveResidency_ne (p : PhysicalPageRecord) (res : PhysicalResidency)
    (dir : Option TransferDirection) (ks : Finset Component) : s.moveResidency h p res dir ks ≠ s :=
  fun heq => Nat.succ_ne_self s.revision (congrArg PageOwnershipIndex.revision heq)

theorem freePage_ne (hok : s.freePage h = .ok s') : s' ≠ s := by
  obtain ⟨p,-,-,-,-,rfl⟩ := freePage_eq_ok.mp hok
  exact fun heq => Nat.succ_ne_self s.revision (congrArg PageOwnershipIndex.revision heq)

theorem commitCpu_same : s.commitCpu h = .ok s ↔
    ∃ p, s.requirePage h = .ok p ∧ p.residency = .cpuOnly := by
  rw [commitCpu_eq_ok]
  refine exists_congr fun p => and_congr_right fun _ => ?_
  constructor
  · rintro (⟨hres,-⟩ | ⟨-,heq⟩)
    · exact hres
    · exact absurd heq.symm (moveResidency_ne _ _ _ _)
  · exact fun hres => .inl ⟨hres,rfl⟩

theorem dropPage_ne (hok : s.dropPage h = .ok s') : s' ≠ s := by
  obtain ⟨p,-,-,⟨-,rfl⟩ | ⟨-,hfree⟩⟩ := dropPage_eq_ok.mp hok
  · exact moveResidency_ne _ _ _ _
  · exact freePage_ne hfree

theorem dropHostCopy_ne (hok : s.dropHostCopy h = .ok s') : s' ≠ s := by
  obtain ⟨p,-,-,⟨-,rfl⟩ | ⟨-,hfree⟩⟩ := dropHostCopy_eq_ok.mp hok
  · exact moveResidency_ne _ _ _ _
  · exact freePage_ne hfree

theorem completeTransfer_ne {dir : TransferDirection} {keepGpu : Bool}
    (hok : s.completeTransfer h dir keepGpu = .ok s') : s' ≠ s := by
  obtain ⟨p,-,-,rfl⟩ := completeTransfer_eq_ok.mp hok
  exact moveResidency_ne _ _ _ _

theorem abortTransfer_ne (hok : s.abortTransfer h = .ok s') : s' ≠ s := by
  obtain ⟨p,dir,-,-,rfl⟩ := abortTransfer_eq_ok.mp hok
  exact moveResidency_ne _ _ _ _

/-- A pin write changes nothing when the pins it asks for are there. -/
theorem writePins_same : writePins s h contextId f = .ok s ↔ ∀ c, contextId = some c →
    ∃ p : PhysicalPageRecord, s.pages[h]? = some p ∧
      f c p.semanticPinContexts = p.semanticPinContexts := by
  unfold writePins
  cases contextId with
  | none => simp
  | some c =>
    simp only [Option.some.injEq,forall_eq']
    constructor
    · intro hok
      split_ifs at hok with hmem
      obtain ⟨p,hp⟩ := (Dict.mem_iff_get _ _).mp hmem
      refine ⟨p,hp,?_⟩
      have hrec := congrArg (fun s : PageOwnershipIndex => s.pages[h]?) (Except.ok.inj hok)
      simp only [repinPages,get_updatePages,Finset.mem_singleton,if_true,hp,Option.map_some] at hrec
      exact congrArg PhysicalPageRecord.semanticPinContexts (Option.some.inj hrec)
    · rintro ⟨p,hp,hpins⟩
      rw [if_pos ((Dict.mem_iff_get _ _).mpr ⟨p,hp⟩),repinPages,updatePages_singleton hp,hpins]
      refine congrArg Except.ok ?_
      rw [show s.pages.insert h p = s.pages from Dict.ext_get fun k => by
        rw [Dict.get_insert]
        split_ifs with hk
        · rw [← hk,hp]
        · rfl]

/-- Settling an action changes nothing exactly when it is moot. -/
theorem settleAction_same : settleAction flight completed s a = .ok s ↔
    Moot flight completed s a := by
  obtain ⟨handle,action,size⟩ := a
  by_cases hc : handle ∈ completed
  · cases action <;> simp only [settleAction,Moot,hc,not_true_eq_false,if_false]
    · split_ifs
      · exact iff_of_false (fun hok => completeTransfer_ne hok rfl) not_false
      · simp
    · exact commitCpu_same
    · split_ifs
      · exact iff_of_false (fun hok => completeTransfer_ne hok rfl) not_false
      · simp
    · exact iff_of_false (fun hok => dropPage_ne hok rfl) not_false
    · exact iff_of_false (fun hok => dropHostCopy_ne hok rfl) not_false
    · simp only [writePins_same,Finset.insert_eq_self]
    · simp only [writePins_same,Finset.erase_eq_self]
  · simp only [settleAction,Moot,hc,not_false_eq_true,if_true]
    split_ifs with hst
    · exact iff_of_false (fun hok => abortTransfer_ne hok rfl) (not_not.mpr hst)
    · exact iff_of_true rfl hst

end Settling

/-! ## Starting -/

/-- The transfer of a started action can begin. -/
def CanBegin (pages : PageOwnershipIndex) (action : ResolvedPageAction) : Prop :=
  match action.action with
  | .startD2h => ∃ p, pages.requirePage action.handle = .ok p ∧ p.transferDirection = none ∧
      p.residency = .gpuOnly
  | .startH2d => ∃ p, pages.requirePage action.handle = .ok p ∧ p.transferDirection = none ∧
      p.residency = .cpuOnly
  | _ => True

/-- The handle is started, or it is part of the command and its action can begin. -/
def CanStart (commandId : String) (s : BeliefKVController) (handle : PageHandle) : Prop :=
  ∃ flight, s.inflight[commandId]? = some flight ∧ (handle ∈ flight.startedHandles ∨
    ∃ action ∈ actionTable flight.pageActions, action.handle = handle ∧ CanBegin s.pages action)

/-- The handle is started already. -/
def Started (commandId : String) (s : BeliefKVController) (handle : PageHandle) : Prop :=
  ∃ flight, s.inflight[commandId]? = some flight ∧ handle ∈ flight.startedHandles

/-- The call that starts one handle. -/
def startCall (commandId : String) (s : BeliefKVController) (handle : PageHandle) :
    Except Raised BeliefKVController :=
  match startHandle commandId s handle with
  | (s',.ok _) => .ok s'
  | (_,.error e) => .error e

/-- What starting a handle looks at. -/
def startView (commandId : String) (s : BeliefKVController) (handle : PageHandle) :=
  (s.pages.standingOf handle,s.inflight[commandId]?.map fun flight =>
    (actionTable flight.pageActions,decide (handle ∈ flight.startedHandles)))

section Starting
variable {commandId : String} {s s' t : BeliefKVController} {h : PageHandle}
  {pages pages' : PageOwnershipIndex} {a : ResolvedPageAction}

theorem beginAction_ok : (∃ pages', beginAction pages a = .ok pages') ↔ CanBegin pages a := by
  obtain ⟨handle,action,size⟩ := a
  cases action <;> simp [beginAction,CanBegin,beginTransfer_eq_ok,departure]

theorem beginAction_onlyAt (hok : beginAction pages a = .ok pages') : OnlyAt a.handle pages pages' := by
  obtain ⟨handle,action,size⟩ := a
  cases action <;> simp only [beginAction] at hok
  · exact beginTransfer_onlyAt hok
  · exact .inl (Except.ok.inj hok).symm
  · exact beginTransfer_onlyAt hok
  all_goals exact .inl (Except.ok.inj hok).symm

theorem CanBegin.depends {t s : PageOwnershipIndex} (ht : t.standingOf a.handle = s.standingOf a.handle)
    (h : CanBegin s a) : CanBegin t a := by
  obtain ⟨handle,action,size⟩ := a
  cases action <;> simp only [CanBegin] at h ⊢
  all_goals
    obtain ⟨p,hp,hdir,hres⟩ := h
    obtain ⟨q,hq,hst⟩ := requirePage_of_standing ht hp
    simp only [standing,Prod.mk.injEq] at hst
    exact ⟨q,hq,hst.2.1.trans hdir,hst.1.trans hres⟩

/-- What a call that starts a handle does. -/
theorem startCall_eq_ok : startCall commandId s h = .ok s' ↔
    ∃ flight, s.inflight[commandId]? = some flight ∧ (h ∈ flight.startedHandles ∧ s' = s ∨
      h ∉ flight.startedHandles ∧ ∃ a ∈ actionTable flight.pageActions, a.handle = h ∧
        ∃ pages', beginAction s.pages a = .ok pages' ∧ s' = { s with
          pages := pages'
          inflight := s.inflight.insert commandId { flight with
            startedHandles := insert h flight.startedHandles } }) := by
  unfold startCall startHandle
  cases hf : s.inflight[commandId]? with
  | none => simp
  | some flight =>
    simp only [Option.some.injEq,exists_eq_left']
    by_cases hst : h ∈ flight.startedHandles
    · simp [hst,eq_comm]
    · simp only [hst,if_false,not_false_eq_true,true_and,false_and,false_or]
      cases hfind : (actionTable flight.pageActions).find? (·.handle = h) with
      | none =>
        rw [List.find?_eq_none] at hfind
        refine iff_of_false (by simp) ?_
        rintro ⟨a,ha,hah,-⟩
        exact hfind a ha (by simpa using hah)
      | some a =>
        have hah : a.handle = h := by simpa using List.find?_some hfind
        have hmem := List.mem_of_find?_eq_some hfind
        have hone (b : ResolvedPageAction) (hb : b ∈ actionTable flight.pageActions)
            (hbh : b.handle = h) : b = a := actionTable_unique hb hmem (hbh.trans hah.symm)
        dsimp only
        cases hbegin : beginAction s.pages a with
        | error e =>
          refine iff_of_false (by simp [onPages]) ?_
          rintro ⟨b,hb,hbh,pages',hok,-⟩
          rw [hone b hb hbh,hbegin] at hok
          cases hok
        | ok pages' =>
          simp only [onPages,andThen_ok,Except.ok.injEq]
          constructor
          · rintro rfl
            exact ⟨a,hmem,hah,pages',hbegin,rfl⟩
          · rintro ⟨b,hb,hbh,pages'',hok,rfl⟩
            rw [hone b hb hbh,hbegin] at hok
            cases hok
            rfl

/-- A call that cannot start its handle changes nothing. -/
theorem startHandle_eq : startHandle commandId s h = attempt (startCall commandId) s h := by
  unfold attempt startCall startHandle
  cases s.inflight[commandId]? with
  | none => rfl
  | some flight =>
    dsimp only
    split_ifs
    · rfl
    · cases (actionTable flight.pageActions).find? (·.handle = h) with
      | none => rfl
      | some a =>
        dsimp only
        cases beginAction s.pages a with
        | error e => rfl
        | ok pages' => rfl

/-- A handle is started exactly when the state allows it. -/
theorem startCall_ok : (∃ s', startCall commandId s h = .ok s') ↔ CanStart commandId s h := by
  simp only [startCall_eq_ok,CanStart]
  constructor
  · rintro ⟨s',flight,hf,⟨hst,-⟩ | ⟨-,a,ha,hah,pages',hok,-⟩⟩
    · exact ⟨flight,hf,.inl hst⟩
    · exact ⟨flight,hf,.inr ⟨a,ha,hah,beginAction_ok.mp ⟨pages',hok⟩⟩⟩
  · rintro ⟨flight,hf,hcan⟩
    by_cases hst : h ∈ flight.startedHandles
    · exact ⟨s,flight,hf,.inl ⟨hst,rfl⟩⟩
    · obtain ⟨a,ha,hah,hbegin⟩ := hcan.resolve_left hst
      obtain ⟨pages',hok⟩ := beginAction_ok.mpr hbegin
      exact ⟨_,flight,hf,.inr ⟨hst,a,ha,hah,pages',hok,rfl⟩⟩

/-- A started handle is started in every state that shows it so. -/
theorem startView_started {flight : InFlightCommand} (hf : s.inflight[commandId]? = some flight)
    (ht : startView commandId t h = startView commandId s h) :
    ∃ flight', t.inflight[commandId]? = some flight' ∧
      actionTable flight'.pageActions = actionTable flight.pageActions ∧
      (h ∈ flight'.startedHandles ↔ h ∈ flight.startedHandles) := by
  have hflight := (Prod.mk.inj ht).2
  rw [hf,Option.map_some] at hflight
  obtain ⟨flight',hf',heq⟩ := Option.map_eq_some_iff.mp hflight
  obtain ⟨htable,hst⟩ := Prod.mk.inj heq
  exact ⟨flight',hf',htable,decide_eq_decide.mp hst⟩

theorem CanStart.depends (ht : startView commandId t h = startView commandId s h)
    (hcan : CanStart commandId s h) : CanStart commandId t h := by
  obtain ⟨flight,hf,hcan⟩ := hcan
  obtain ⟨flight',hf',htable,hst⟩ := startView_started hf ht
  refine ⟨flight',hf',hcan.imp hst.mpr ?_⟩
  rintro ⟨a,ha,rfl,hbegin⟩
  exact ⟨a,by rwa [htable],rfl,hbegin.depends (Prod.mk.inj ht).1⟩

/-- Starting one handle is local to it. -/
theorem startCall_local (commandId : String) :
    Local (startCall commandId) id (startView commandId) where
  depends ht hok := startCall_ok.mpr ((startCall_ok.mp ⟨_,hok⟩).depends ht)
  frame := by
    intro s h s' k hok hk
    obtain ⟨flight,hf,⟨-,rfl⟩ | ⟨-,a,-,rfl,pages',hbegin,rfl⟩⟩ := startCall_eq_ok.mp hok
    · rfl
    · have hpages : pages'.standingOf k = s.pages.standingOf k := by
        rcases beginAction_onlyAt hbegin with rfl | ⟨-,hframe⟩
        · rfl
        · exact hframe k hk
      simp only [startView,hpages,Dict.get_insert,if_true,hf,Option.map_some,Finset.mem_insert]
      simp [show k ≠ a.handle from hk]
  moves := by
    intro s h s' hok
    obtain ⟨flight,hf,⟨-,rfl⟩ | ⟨hst,a,-,rfl,pages',hbegin,rfl⟩⟩ := startCall_eq_ok.mp hok
    · exact .inl rfl
    · refine .inr fun heq => hst ?_
      have hflight := (Prod.mk.inj heq).2
      simp only [Dict.get_insert,if_true,hf,Option.map_some,Option.some.injEq,Prod.mk.injEq,
        true_and,id_eq,decide_eq_decide] at hflight
      exact hflight.mp (Finset.mem_insert_self _ _)

/-- A handle that is named twice is started once. -/
theorem startCall_repeats (commandId : String) (handles : List PageHandle) :
    Repeats (startCall commandId) id (startView commandId) handles := by
  refine List.pairwise_of_forall fun h k hk => ⟨hk,fun s s' t hok ht => ?_⟩
  have hstarted : ∃ flight, s'.inflight[commandId]? = some flight ∧ h ∈ flight.startedHandles := by
    obtain ⟨flight,hf,⟨hst,rfl⟩ | ⟨-,a,-,rfl,pages',-,rfl⟩⟩ := startCall_eq_ok.mp hok
    · exact ⟨flight,hf,hst⟩
    · exact ⟨_,by rw [Dict.get_insert,if_pos rfl],Finset.mem_insert_self _ _⟩
  obtain ⟨flight,hf,hst⟩ := hstarted
  obtain ⟨flight',hf',-,hst'⟩ := startView_started hf ht
  exact startCall_eq_ok.mpr ⟨flight',hf',.inl ⟨hst'.mpr hst,rfl⟩⟩

/-- Starting a handle changes nothing exactly when it is started already. -/
theorem startCall_same : startCall commandId s h = .ok s ↔ Started commandId s h := by
  constructor
  · intro hok
    obtain ⟨flight,hf,⟨hst,-⟩ | ⟨hst,a,-,rfl,pages',-,heq⟩⟩ := startCall_eq_ok.mp hok
    · exact ⟨flight,hf,hst⟩
    · have hi := congrArg (fun s : BeliefKVController => s.inflight[commandId]?) heq
      simp only [hf,Dict.get_insert,if_true,Option.some.injEq] at hi
      refine ⟨flight,hf,?_⟩
      rw [hi]
      exact Finset.mem_insert_self _ _
  · rintro ⟨flight,hf,hst⟩
    exact startCall_eq_ok.mpr ⟨flight,hf,.inl ⟨hst,rfl⟩⟩

end Starting
end BeliefKV.BeliefKVController
