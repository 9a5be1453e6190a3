import BeliefKV.Graph.Runs
import BeliefKV.PageIndex.Pins
import BeliefKV.Controller.Events
import BeliefKV.Controller.Settling

/-! Starts and acknowledgements of the command in flight: when a call that raises leaves the
controller as it found it, and that no transfer outlives its command. -/
namespace BeliefKV.BeliefKVController
open Call PageOwnershipIndex

/-- The index is coherent, one command is in flight at most, and every transfer under way is one
that the command in flight started. -/
structure Steady (s : BeliefKVController) : Prop where
  coherent : s.pages.Coherent
  slot : ∀ i j, i ∈ s.inflight → j ∈ s.inflight → i = j
  carried : ∀ h, s.pages.transferOf h ≠ none → ∃ (id : String) (flight : InFlightCommand),
    s.inflight[id]? = some flight ∧
    h ∈ flight.startedHandles ∧ ∃ a ∈ actionTable flight.pageActions, a.handle = h ∧
      a.action ∈ [.startD2h,.startH2d]

/-! ## Calls that leave the flight alone -/

/-- Neither the flight nor its transfers change. -/
structure Undisturbed (s t : BeliefKVController) : Prop where
  inflight : t.inflight = s.inflight
  coherent : s.pages.Coherent → t.pages.Coherent
  transfers : ∀ h, t.pages.transferOf h = s.pages.transferOf h

section Undisturbed
variable {s t u : BeliefKVController}

theorem Undisturbed.steady (h : Undisturbed s t) (hs : s.Steady) : t.Steady := by
  refine ⟨h.coherent hs.coherent,?_,fun k hk => ?_⟩
  · rw [h.inflight]
    exact hs.slot
  · rw [h.transfers] at hk
    rw [h.inflight]
    exact hs.carried k hk

theorem Undisturbed.of_eq (hi : t.inflight = s.inflight) (hp : t.pages = s.pages) :
    Undisturbed s t := ⟨hi,fun hc => by rwa [hp],fun _ => by rw [hp]⟩

theorem Undisturbed.trans (h : Undisturbed s t) (h' : Undisturbed t u) : Undisturbed s u :=
  ⟨h'.inflight.trans h.inflight,fun hc => h'.coherent (h.coherent hc),
    fun k => (h'.transfers k).trans (h.transfers k)⟩

/-- A call on the index that begins and ends no transfer. -/
theorem undisturbed_call (s : BeliefKVController) {op : Op} (hd : op.NoDead) (hstill : op.Still)
    (hk : s.pages.Coherent → op.KeepsEpochs s.pages) {pages : PageOwnershipIndex}
    (hok : op.apply s.pages = .ok pages) : Undisturbed s { s with pages := pages } :=
  ⟨rfl,fun hc => hc.apply hd (hk hc) hok,fun _ => hstill.transferOf hok⟩

theorem undisturbed_unbind (s : BeliefKVController) (c : String) :
    Undisturbed s { s with pages := s.pages.unbindContext c } :=
  undisturbed_call s (show Op.NoDead (.unbindContext c) from trivial) trivial (fun _ => trivial) rfl

/-- A context the index does not know has no pages there. -/
theorem followEpoch_undisturbed (s : BeliefKVController) (c : String) (context : ContextRecord) :
    Undisturbed s (s.onPages (followEpoch s.pages c context)).1 := by
  unfold onPages
  cases hcall : followEpoch s.pages c context with
  | error e => exact .of_eq rfl rfl
  | ok pages =>
    unfold followEpoch at hcall
    split_ifs at hcall with hknown
    · refine undisturbed_call s (show Op.NoDead (.registerContext c context.workflowId context.epoch) from trivial)
        trivial (fun hc => .inl ?_) hcall
      refine Finset.eq_empty_of_forall_notMem fun h hh => ?_
      have hmem := (hc.base.pagesOf_known c h hh).1
      simp only [hasContext] at hknown
      exact Bool.false_ne_true (hknown.symm.trans (Std.ExtTreeMap.contains_iff_mem.mpr hmem))
    · obtain ⟨epoch,-,hcall⟩ := bind_eq_ok.mp hcall
      split_ifs at hcall
      · exact undisturbed_call s (show Op.NoDead (.updateContextEpoch c context.epoch) from trivial) trivial
          (fun _ => trivial) hcall
      · cases hcall
        exact .of_eq rfl rfl

theorem followContext_undisturbed (s : BeliefKVController) (event : RuntimeEvent) (c : String) :
    Undisturbed s (s.followContext event c).1 := by
  unfold followContext
  cases s.graph.contexts[c]? with
  | none => exact .of_eq rfl rfl
  | some context =>
    dsimp only
    refine andThen_rel (R := Undisturbed) .trans ?_ fun _ _ => .of_eq rfl rfl
    refine Undisturbed.trans (t := { s with pages := s.releaseCompacted event c }) ?_
      (followEpoch_undisturbed _ c context)
    unfold releaseCompacted
    split_ifs
    · exact undisturbed_unbind s c
    · exact .of_eq rfl rfl

theorem cancelShadowForContext_undisturbed (s : BeliefKVController) (c : String) :
    Undisturbed s (s.cancelShadowForContext c) := by
  unfold cancelShadowForContext
  dsimp only
  split
  · exact .of_eq rfl rfl
  · split_ifs <;> exact .of_eq rfl rfl

theorem carries_undisturbed : Carries Undisturbed where
  refl _ := .of_eq rfl rfl
  trans := .trans
  side h := .of_eq h.inflight h.pages
  context := followContext_undisturbed
  wake := cancelShadowForContext_undisturbed

/-- The engine's own calls begin and end no transfer and move no epoch. -/
theorem engine_undisturbed (s : BeliefKVController) {op : Op} (hop : op.Engine) :
    Undisturbed s { s with pages := s.pages.step op } := by
  unfold PageOwnershipIndex.step
  cases hok : op.apply s.pages with
  | error e => exact .of_eq rfl rfl
  | ok pages =>
    refine undisturbed_call s ?_ ?_ (fun _ => ?_) hok
    all_goals cases op <;> first | exact hop | exact hop.elim | trivial

theorem release_undisturbed (s : BeliefKVController) (cs : List String) :
    Undisturbed s { s with pages := cs.foldl (·.unbindContext ·) s.pages } := by
  induction cs generalizing s with
  | nil => exact .of_eq rfl rfl
  | cons c cs ih => exact (undisturbed_unbind s c).trans (ih { s with pages := s.pages.unbindContext c })

theorem canonicalContextCommand_undisturbed (s : BeliefKVController) (c : String) :
    Undisturbed s (s.canonicalContextCommand c).2 := by
  unfold canonicalContextCommand
  dsimp only
  split
  · exact .of_eq rfl rfl
  · split <;> exact .of_eq rfl rfl

theorem preflightControlCommand_undisturbed (s : BeliefKVController) (command : ControlCommand)
    (eligible : Bool) : Undisturbed s (s.preflightControlCommand command eligible).2 := by
  unfold preflightControlCommand
  dsimp only
  split_ifs
  · exact .of_eq rfl rfl
  · split
    · exact .of_eq rfl rfl
    · rename_i c _
      have hcanon := canonicalContextCommand_undisturbed s c
      split
      · simp_all
      · split_ifs <;> simp_all

theorem enqueueIfNew_undisturbed (s : BeliefKVController) (command : ControlCommand) :
    Undisturbed s (s.enqueueIfNew command).1 := by
  unfold enqueueIfNew
  split_ifs
  · exact .of_eq rfl rfl
  · dsimp only
    cases command.contextId
    all_goals split <;> exact .of_eq rfl rfl

theorem enqueueControlCommand_undisturbed (s : BeliefKVController) (command : ControlCommand)
    (preflight : Option EnqueueOutcome) (eligible : Bool) :
    Undisturbed s (s.enqueueControlCommand command preflight eligible).1 := by
  have hchecked {t : BeliefKVController} (ht : t = s ∨ t = (s.preflightControlCommand command eligible).2) :
      Undisturbed s t := by
    rcases ht with rfl | rfl
    · exact .of_eq rfl rfl
    · exact preflightControlCommand_undisturbed s command eligible
  unfold enqueueControlCommand
  cases preflight
  all_goals
    dsimp only
    split_ifs
    · exact hchecked (by simp)
    · exact hchecked (by simp)
    · refine andThen_rel (R := Undisturbed) .trans
        ((hchecked (by simp)).trans (enqueueIfNew_undisturbed _ command)) fun queued _ => ?_
      split_ifs
      · exact .of_eq rfl rfl
      · exact preflightControlCommand_undisturbed _ command eligible

theorem rejectEmpty_undisturbed (s : BeliefKVController) (command : ControlCommand)
    (blockers : List TransferBlocker) : Undisturbed s (s.rejectEmpty command blockers).1 := by
  unfold rejectEmpty
  dsimp only
  refine andThen_rel (R := Undisturbed) .trans ?_ fun _ _ => .of_eq rfl rfl
  split_ifs <;> exact .of_eq rfl rfl

end Undisturbed

/-! ## The command in flight -/

section Flight
variable {s s' : BeliefKVController} {flight : InFlightCommand} {completed : Finset PageHandle}

theorem Steady.idle (hs : s.Steady) (hempty : s.inflight.isEmpty = true) (h : PageHandle) :
    s.pages.transferOf h = none := by
  by_contra hne
  obtain ⟨id,flight,hf,-⟩ := hs.carried h hne
  simp [Std.ExtTreeMap.isEmpty_iff.mp hempty] at hf

theorem Steady.dispatch (hs : s.Steady) (eligible : Bool) : (s.dispatchNext eligible).1.Steady := by
  unfold dispatchNext
  by_cases hempty : s.inflight.isEmpty = false
  · rw [if_pos hempty]
    exact hs
  · rw [if_neg hempty]
    dsimp only
    have hnil : s.inflight = ∅ := by simpa using hempty
    have hnone := hs.idle (by simpa using hempty)
    have hsame {t : BeliefKVController} (hi : t.inflight = s.inflight) (hp : t.pages = s.pages) :
        t.Steady := (Undisturbed.of_eq hi hp).steady hs
    split
    · exact hsame rfl rfl
    · rename_i command _
      by_cases hel : eligible = false
      · rw [if_pos hel]
        exact hsame rfl rfl
      · rw [if_neg hel]
        cases s.guard.beginAttempt command with
        | error e => exact hsame rfl rfl
        | ok guard =>
          dsimp only
          split_ifs
          · refine (rejectEmpty_undisturbed _ command _).steady ?_
            exact hsame rfl rfl
          · refine ⟨hs.coherent,fun i j hi hj => ?_,fun h hne => absurd (hnone h) hne⟩
            have hone (k : String) (hk : k = command.commandId ∨ k ∈ s.inflight) :
                k = command.commandId := by
              rcases hk with rfl | hk
              · rfl
              · simp [hnil] at hk
            rw [hone i ((Dict.mem_insert_iff _ _ _ _).mp hi),hone j ((Dict.mem_insert_iff _ _ _ _).mp hj)]

/-- A started action begins the transfer that the command then carries. -/
theorem beginAction_transferOf {pages pages' : PageOwnershipIndex} {a : ResolvedPageAction}
    (hok : beginAction pages a = .ok pages') (h : PageHandle)
    (hne : pages'.transferOf h ≠ pages.transferOf h) :
    a.handle = h ∧ a.action ∈ [.startD2h,.startH2d] := by
  obtain ⟨handle,action,size⟩ := a
  have hat (hact : action ∈ [.startD2h,.startH2d]) : handle = h ∧ action ∈ [.startD2h,.startH2d] := by
    refine ⟨?_,hact⟩
    by_contra hh
    rcases beginAction_onlyAt hok with rfl | ⟨-,hframe⟩
    · exact hne rfl
    · exact hne (by rw [transferOf_eq,transferOf_eq,hframe h (Ne.symm hh)])
  cases action <;> simp only [beginAction] at hok
  · exact hat (by simp)
  · exact absurd (by rw [Except.ok.inj hok]) hne
  · exact hat (by simp)
  all_goals exact absurd (by rw [Except.ok.inj hok]) hne

theorem beginAction_coherent {pages pages' : PageOwnershipIndex} {a : ResolvedPageAction}
    (hc : pages.Coherent) (hok : beginAction pages a = .ok pages') : pages'.Coherent := by
  obtain ⟨handle,action,size⟩ := a
  cases action <;> simp only [beginAction] at hok
  · exact hc.apply (show Op.NoDead (.beginTransfer handle .d2h) from trivial) trivial hok
  · rwa [← Except.ok.inj hok]
  · exact hc.apply (show Op.NoDead (.beginTransfer handle .h2d) from trivial) trivial hok
  all_goals rwa [← Except.ok.inj hok]

theorem Steady.startCall (hs : s.Steady) {commandId : String} {h : PageHandle}
    (hok : startCall commandId s h = .ok s') : s'.Steady := by
  obtain ⟨flight,hf,⟨-,rfl⟩ | ⟨-,a,ha,rfl,pages',hbegin,rfl⟩⟩ := startCall_eq_ok.mp hok
  · exact hs
  have hmem : commandId ∈ s.inflight := (Dict.mem_iff_get _ _).mpr ⟨flight,hf⟩
  refine ⟨beginAction_coherent hs.coherent hbegin,fun i j hi hj => ?_,fun k hk => ?_⟩
  · have hold (i : String) (hi : i ∈ s.inflight.insert commandId { flight with
        startedHandles := insert a.handle flight.startedHandles }) : i ∈ s.inflight := by
      rcases (Dict.mem_insert_iff _ _ _ _).mp hi with rfl | hi
      · exact hmem
      · exact hi
    exact hs.slot i j (hold i hi) (hold j hj)
  · refine ⟨commandId,_,by rw [Dict.get_insert,if_pos rfl],?_⟩
    by_cases hsame : pages'.transferOf k = s.pages.transferOf k
    · obtain ⟨id,flight',hf',hst,hact⟩ := hs.carried k (by rwa [← hsame])
      obtain rfl := hs.slot id commandId ((Dict.mem_iff_get _ _).mpr ⟨flight',hf'⟩) hmem
      rw [hf] at hf'
      cases hf'
      exact ⟨Finset.mem_insert_of_mem hst,hact⟩
    · obtain ⟨rfl,hact⟩ := beginAction_transferOf hbegin k hsame
      exact ⟨Finset.mem_insert_self _ _,a,ha,rfl,hact⟩

theorem markCommandStarted_eq (s : BeliefKVController) (commandId : String)
    (handles : List PageHandle) (hmem : commandId ∈ s.inflight) :
    s.markCommandStarted commandId handles = forEach (attempt (startCall commandId)) s handles := by
  rw [markCommandStarted,if_pos hmem]
  exact congrArg (fun body => forEach body s handles)
    (funext fun s => funext fun h => startHandle_eq)

theorem Steady.markStarted (hs : s.Steady) (commandId : String) (handles : List PageHandle) :
    (s.markCommandStarted commandId handles).1.Steady := by
  by_cases hmem : commandId ∈ s.inflight
  · rw [markCommandStarted_eq s commandId handles hmem]
    refine forEach_rel (R := fun s t : BeliefKVController => s.Steady → t.Steady) (fun _ => id)
      (fun h h' hs => h' (h hs)) (fun t h _ ht => ?_) s hs
    unfold attempt
    cases hok : BeliefKVController.startCall commandId t h with
    | error e => exact ht
    | ok t' => exact ht.startCall hok
  · rw [markCommandStarted,if_neg hmem]
    exact hs

/-! ## Settling the pages -/

theorem settleAction_coherent {pages pages' : PageOwnershipIndex} {a : ResolvedPageAction}
    (hc : pages.Coherent) (hok : settleAction flight completed pages a = .ok pages') :
    pages'.Coherent := by
  have hpins {f : String → Finset String → Finset String}
      (hok : writePins pages a.handle flight.command.contextId f = .ok pages') : pages'.Coherent := by
    unfold writePins at hok
    cases hctx : flight.command.contextId with
    | none =>
      rw [hctx] at hok
      rwa [← Except.ok.inj hok]
    | some c =>
      rw [hctx] at hok
      dsimp only at hok
      split_ifs at hok
      rw [← Except.ok.inj hok]
      exact hc.repin _ _
  obtain ⟨handle,action,size⟩ := a
  by_cases hcomp : handle ∈ completed
  · cases action <;> simp only [settleAction,hcomp,not_true_eq_false,if_false] at hok
    · split_ifs at hok
      exact hc.apply (show Op.NoDead (.completeTransfer handle .d2h _) from trivial) trivial hok
    · exact hc.apply (show Op.NoDead (.commitCpu handle) from trivial) trivial hok
    · split_ifs at hok
      exact hc.apply (show Op.NoDead (.completeTransfer handle .h2d true) from trivial) trivial hok
    · exact hc.apply (show Op.NoDead (.dropPage handle) from trivial) trivial hok
    · exact hc.apply (show Op.NoDead (.dropHostCopy handle) from trivial) trivial hok
    · exact hpins hok
    · exact hpins hok
  · simp only [settleAction,hcomp,not_false_eq_true,if_true] at hok
    split_ifs at hok
    · exact hc.apply (show Op.NoDead (.abortTransfer handle) from trivial) trivial hok
    · rwa [← Except.ok.inj hok]

/-- The transfer that is ended on one page, and the others. -/
theorem moveResidency_transferOf {pages : PageOwnershipIndex} {h : PageHandle}
    (p : PhysicalPageRecord) (res : PhysicalResidency) (ks : Finset Component) (k : PageHandle) :
    (pages.moveResidency h p res none ks).transferOf k =
      if k = h then none else pages.transferOf k := by
  unfold transferOf
  rw [get_moveResidency]
  split_ifs with hk
  · cases pages.pages[h]? <;> rfl
  · rfl

theorem completeTransfer_transferOf {pages pages' : PageOwnershipIndex} {h : PageHandle}
    {dir : TransferDirection} {keepGpu : Bool} (hok : pages.completeTransfer h dir keepGpu = .ok pages')
    (k : PageHandle) : pages'.transferOf k = if k = h then none else pages.transferOf k := by
  obtain ⟨p,-,-,rfl⟩ := completeTransfer_eq_ok.mp hok
  exact moveResidency_transferOf ..

theorem abortTransfer_transferOf {pages pages' : PageOwnershipIndex} {h : PageHandle}
    (hok : pages.abortTransfer h = .ok pages') (k : PageHandle) :
    pages'.transferOf k = if k = h then none else pages.transferOf k := by
  obtain ⟨p,dir,-,-,rfl⟩ := abortTransfer_eq_ok.mp hok
  exact moveResidency_transferOf ..

/-- Settling an action ends the transfer it started, and begins none. -/
theorem settleAction_transferOf {pages pages' : PageOwnershipIndex} {a : ResolvedPageAction}
    (hok : settleAction flight completed pages a = .ok pages') (k : PageHandle) :
    pages'.transferOf k = if k = a.handle ∧ a.handle ∈ flight.startedHandles ∧
      a.action ∈ [.startD2h,.startH2d] then none else pages.transferOf k := by
  have hpins {f : String → Finset String → Finset String}
      (hok : writePins pages a.handle flight.command.contextId f = .ok pages') :
      pages'.transferOf k = pages.transferOf k := by
    unfold writePins at hok
    cases hctx : flight.command.contextId with
    | none =>
      rw [hctx] at hok
      rw [Except.ok.inj hok]
    | some c =>
      rw [hctx] at hok
      dsimp only at hok
      split_ifs at hok
      rw [← Except.ok.inj hok]
      exact transferOf_updatePages (by intro _; rfl) _
  obtain ⟨handle,action,size⟩ := a
  by_cases hcomp : handle ∈ completed
  · cases action <;> simp only [settleAction,hcomp,not_true_eq_false,if_false] at hok
    · split_ifs at hok with hst
      rw [completeTransfer_transferOf hok]
      simp [hst]
    · rw [(show Op.Still (.commitCpu handle) from trivial).transferOf hok]
      simp
    · split_ifs at hok with hst
      rw [completeTransfer_transferOf hok]
      simp [hst]
    · rw [(show Op.Still (.dropPage handle) from trivial).transferOf hok]
      simp
    · rw [(show Op.Still (.dropHostCopy handle) from trivial).transferOf hok]
      simp
    · rw [hpins hok]
      simp
    · rw [hpins hok]
      simp
  · simp only [settleAction,hcomp,not_false_eq_true,if_true] at hok
    split_ifs at hok with hst
    · rw [abortTransfer_transferOf hok]
      simp only [hst,and_true]
    · rw [← Except.ok.inj hok,if_neg fun hk => hst hk.2]

/-- The pages after the actions of a command were settled, as far as that went. -/
def settleAll (flight : InFlightCommand) (completed : Finset PageHandle)
    (pages : PageOwnershipIndex) (actions : List ResolvedPageAction) :
    PageOwnershipIndex × Except Raised Unit :=
  forEach (attempt (settleAction flight completed)) pages actions

/-- The loop of an acknowledgement changes the pages only. -/
theorem settle_loop (s : BeliefKVController) (flight : InFlightCommand)
    (completed : Finset PageHandle) (actions : List ResolvedPageAction) :
    forEach (fun s action => onPages s (settleAction flight completed s.pages action)) s actions =
      ({ s with pages := (settleAll flight completed s.pages actions).1 },
        (settleAll flight completed s.pages actions).2) := by
  induction actions generalizing s with
  | nil => rfl
  | cons a actions ih =>
    cases hok : settleAction flight completed s.pages a with
    | error e => simp only [settleAll,forEach,attempt,hok,onPages,andThen_error]
    | ok pages' =>
      rw [settleAll,forEach_cons_ok hok,forEach,hok]
      exact ih { s with pages := pages' }

theorem settleAll_coherent (flight : InFlightCommand) (completed : Finset PageHandle)
    {pages : PageOwnershipIndex} (hc : pages.Coherent)
    (actions : List ResolvedPageAction) : (settleAll flight completed pages actions).1.Coherent := by
  refine forEach_rel (R := fun s t : PageOwnershipIndex => s.Coherent → t.Coherent) (fun _ => id)
    (fun h h' hs => h' (h hs)) (fun t a _ ht => ?_) pages hc
  unfold attempt
  cases hok : settleAction flight completed t a with
  | error e => exact ht
  | ok t' => exact settleAction_coherent ht hok

/-- No transfer begins while actions are settled. -/
theorem settleAll_transferOf (flight : InFlightCommand) (completed : Finset PageHandle)
    (pages : PageOwnershipIndex) (actions : List ResolvedPageAction)
    (k : PageHandle) : (settleAll flight completed pages actions).1.transferOf k =
      pages.transferOf k ∨ (settleAll flight completed pages actions).1.transferOf k = none := by
  refine forEach_rel (R := fun s t : PageOwnershipIndex => t.transferOf k = s.transferOf k ∨
    t.transferOf k = none) (fun _ => .inl rfl) (fun h h' => ?_) (fun t a _ => ?_) pages
  · rcases h' with heq | hnone
    · rw [heq]
      exact h
    · exact .inr hnone
  · unfold attempt
    cases hok : settleAction flight completed t a with
    | error e => exact .inl rfl
    | ok t' =>
      dsimp only
      rw [settleAction_transferOf hok]
      split_ifs
      · exact .inr rfl
      · exact .inl rfl

/-- When all actions were settled, the transfers they started are over. -/
theorem settleAll_ends {pages : PageOwnershipIndex} {actions : List ResolvedPageAction}
    (hok : (settleAll flight completed pages actions).2 = .ok ()) {a : ResolvedPageAction}
    (ha : a ∈ actions) (hst : a.handle ∈ flight.startedHandles)
    (hact : a.action ∈ [.startD2h,.startH2d]) :
    (settleAll flight completed pages actions).1.transferOf a.handle = none := by
  induction actions generalizing pages with
  | nil => simp at ha
  | cons b actions ih =>
    unfold settleAll at hok ⊢
    cases hb : settleAction flight completed pages b with
    | error e =>
      rw [forEach_cons_error hb] at hok
      cases hok
    | ok pages' =>
      rw [forEach_cons_ok hb] at hok ⊢
      rcases List.mem_cons.mp ha with rfl | ha
      · rcases settleAll_transferOf flight completed pages' actions a.handle with heq | hnone
        · refine heq.trans ?_
          rw [settleAction_transferOf hb,if_pos ⟨rfl,hst,hact⟩]
        · exact hnone
      · exact ih hok ha

/-! ## Acknowledging -/

/-- The controller once all pages of an acknowledged command are settled. -/
def retire (s : BeliefKVController) (flight : InFlightCommand) (ack : CommandAck)
    (pages : PageOwnershipIndex) : BeliefKVController :=
  (unreserve { s with
    pages := pages
    guard := settleGuard s.guard ack
    inflight := s.inflight.erase ack.commandId } flight.command.contextId).acknowledged ack.commandId

section Outcome
variable {ack : CommandAck} (hf : s.inflight[ack.commandId]? = some flight)
include hf

theorem acknowledgeCommand_unchecked {e : Raised} (hc : checkAck flight ack = .error e) :
    s.acknowledgeCommand ack = (s,.error e) := by
  unfold acknowledgeCommand
  rw [hf]
  dsimp only
  rw [hc,andThen_error]

variable (hc : checkAck flight ack = .ok completed)
include hc

theorem acknowledgeCommand_raised {e : Raised}
    (hr : (settleAll flight completed s.pages (actionTable flight.pageActions)).2 = .error e) :
    s.acknowledgeCommand ack = ({ s with
      pages := (settleAll flight completed s.pages (actionTable flight.pageActions)).1 },.error e) := by
  unfold acknowledgeCommand
  rw [hf]
  dsimp only
  rw [hc,andThen_ok,settle_loop,hr,andThen_error]

theorem acknowledgeCommand_settled
    (hr : (settleAll flight completed s.pages (actionTable flight.pageActions)).2 = .ok ()) :
    s.acknowledgeCommand ack =
      (s.retire flight ack (settleAll flight completed s.pages (actionTable flight.pageActions)).1,
        (settleAll flight completed s.pages
          (actionTable flight.pageActions)).1.assertConsistent) := by
  unfold acknowledgeCommand
  rw [hf]
  dsimp only
  rw [hc,andThen_ok,settle_loop,hr,andThen_ok]
  rfl

end Outcome

/-- Once the command in flight is settled, no transfer is under way. -/
theorem Steady.settled (hs : s.Steady) {id : String} (hf : s.inflight[id]? = some flight)
    (hok : (settleAll flight completed s.pages (actionTable flight.pageActions)).2 = .ok ())
    (k : PageHandle) : (settleAll flight completed s.pages
      (actionTable flight.pageActions)).1.transferOf k = none := by
  rcases settleAll_transferOf flight completed s.pages
    (actionTable flight.pageActions) k with heq | hnone
  · by_contra hne
    obtain ⟨id',flight',hf',hst,a,ha,rfl,hact⟩ := hs.carried k (by rwa [← heq])
    obtain rfl := hs.slot id' id ((Dict.mem_iff_get _ _).mpr ⟨_,hf'⟩) ((Dict.mem_iff_get _ _).mpr ⟨_,hf⟩)
    rw [hf] at hf'
    cases hf'
    exact hne (settleAll_ends hok ha hst hact)
  · exact hnone

theorem Steady.acknowledge (hs : s.Steady) (ack : CommandAck) : (s.acknowledgeCommand ack).1.Steady := by
  cases hf : s.inflight[ack.commandId]? with
  | none =>
    unfold acknowledgeCommand
    rw [hf]
    exact hs
  | some flight =>
    cases hc : checkAck flight ack with
    | error e =>
      rw [acknowledgeCommand_unchecked hf hc]
      exact hs
    | ok completed =>
      have hcoh := settleAll_coherent flight completed hs.coherent
        (actionTable flight.pageActions)
      cases hr : (settleAll flight completed s.pages (actionTable flight.pageActions)).2 with
      | error e =>
        rw [acknowledgeCommand_raised hf hc hr]
        refine ⟨hcoh,hs.slot,fun k hk => ?_⟩
        rcases settleAll_transferOf flight completed s.pages
          (actionTable flight.pageActions) k with heq | hnone
        · exact hs.carried k (by rwa [← heq])
        · exact absurd hnone hk
      | ok u =>
        rw [acknowledgeCommand_settled hf hc hr]
        refine ⟨hcoh,fun i j hi hj => ?_,fun k hk => absurd (hs.settled hf hr k) hk⟩
        exact hs.slot i j ((Dict.mem_erase_iff _ _ _).mp hi).2 ((Dict.mem_erase_iff _ _ _).mp hj).2

end Flight

/-! ## Runs -/

theorem Steady.step {s : BeliefKVController} (hs : s.Steady) (input : Input) : (s.step input).Steady := by
  cases input with
  | event e => exact (carries_undisturbed.processRuntimeEvent s e).steady hs
  | events es => exact (carries_undisturbed.processRuntimeEvents s es).steady hs
  | engine op hop => exact (engine_undisturbed s hop).steady hs
  | release cs => exact (release_undisturbed s cs).steady hs
  | enqueue command preflight eligible =>
    exact (enqueueControlCommand_undisturbed s command preflight eligible).steady hs
  | dispatch eligible => exact hs.dispatch eligible
  | markStarted id handles => exact hs.markStarted id handles
  | acknowledge ack => exact hs.acknowledge ack

theorem start_steady (arbiter : RadixArbiter) (predictorEnabled shadowEnabled guardEnabled : Bool) :
    (start arbiter predictorEnabled shadowEnabled guardEnabled).Steady :=
  ⟨empty_coherent,fun i j hi => by simp [start] at hi,fun h hne => absurd rfl hne⟩

theorem run_steady (arbiter : RadixArbiter) (predictorEnabled shadowEnabled guardEnabled : Bool)
    (ins : List Input) : (run (start arbiter predictorEnabled shadowEnabled guardEnabled) ins).Steady :=
  List.foldlRecOn ins step (start_steady ..) fun _ hs input _ => hs.step input

/-- What a call that raises must leave alone. -/
structure Untouched (s t : BeliefKVController) : Prop where
  pages : t.pages = s.pages
  inflight : t.inflight = s.inflight
  guard : t.guard = s.guard
  reserved : t.queuedByContext = s.queuedByContext

/-- An acknowledgement that raises leaves the controller as it found it, and one that does not
leaves no page of its command in transfer. -/
def AckSafe (s : BeliefKVController) (ack : CommandAck) : Prop :=
  (∀ e, (s.acknowledgeCommand ack).2 = .error e → Untouched s (s.acknowledgeCommand ack).1) ∧
  ((s.acknowledgeCommand ack).2 = .ok () → ∀ flight, s.inflight[ack.commandId]? = some flight →
    ∀ a ∈ flight.pageActions, (s.acknowledgeCommand ack).1.pages.transferOf a.handle = none)

/-- A start that raises leaves the controller as it found it. -/
def StartSafe (s : BeliefKVController) (commandId : String) (handles : List PageHandle) : Prop :=
  ∀ e, (s.markCommandStarted commandId handles).2 = .error e →
    Untouched s (s.markCommandStarted commandId handles).1

/-- All actions of the acknowledged command can be settled, or those before the first that cannot
are moot. -/
def Settleable (s : BeliefKVController) (ack : CommandAck) : Prop :=
  ∀ flight completed, s.inflight[ack.commandId]? = some flight → checkAck flight ack = .ok completed →
    Whole (CanSettle flight completed s.pages) (Moot flight completed s.pages)
      (actionTable flight.pageActions)

/-- All handles can be started, or those before the first that cannot are started already. -/
def Startable (s : BeliefKVController) (commandId : String) (handles : List PageHandle) : Prop :=
  commandId ∈ s.inflight → Whole (CanStart commandId s) (Started commandId s) handles

section Safety
variable {s : BeliefKVController}

theorem Untouched.refl (s : BeliefKVController) : Untouched s s := ⟨rfl,rfl,rfl,rfl⟩

theorem actionTable_repeats (flight : InFlightCommand) (completed : Finset PageHandle)
    (actions : List ResolvedPageAction) :
    Repeats (settleAction flight completed) (·.handle) standingOf (actionTable actions) := by
  refine (List.pairwise_map.mp (actionTable_nodup actions)).imp fun hne heq => ?_
  exact absurd heq.symm hne

theorem Steady.ackSafe_iff (hs : s.Steady) (ack : CommandAck) : s.AckSafe ack ↔ s.Settleable ack := by
  cases hf : s.inflight[ack.commandId]? with
  | none =>
    have hack : s.acknowledgeCommand ack =
        (s,.error (.keyError ("unknown in-flight command: " ++ ack.commandId))) := by
      unfold acknowledgeCommand
      rw [hf]
    refine iff_of_true ⟨fun e _ => ?_,fun hok => ?_⟩ fun flight _ hf' => ?_
    · rw [hack]
      exact .refl s
    · rw [hack] at hok
      cases hok
    · rw [hf] at hf'
      cases hf'
  | some flight =>
    cases hc : checkAck flight ack with
    | error e =>
      have hack := acknowledgeCommand_unchecked hf hc
      refine iff_of_true ⟨fun e _ => ?_,fun hok => ?_⟩ fun flight' completed hf' hc' => ?_
      · rw [hack]
        exact .refl s
      · rw [hack] at hok
        cases hok
      · rw [hf] at hf'
        cases hf'
        rw [hc] at hc'
        cases hc'
    | ok completed =>
      have hlocal := settleAction_local flight completed
      have hrep := actionTable_repeats flight completed flight.pageActions
      have hwhole : s.Settleable ack ↔ Undivided (settleAction flight completed) s.pages
          (actionTable flight.pageActions) := by
        rw [undivided_iff (fun _ => settleAction_ok) fun _ => settleAction_same]
        constructor
        · exact fun h => h flight completed hf hc
        · intro h flight' completed' hf' hc'
          rw [hf] at hf'
          cases hf'
          rw [hc] at hc'
          cases hc'
          exact h
      rw [hwhole]
      cases hr : (settleAll flight completed s.pages (actionTable flight.pageActions)).2 with
      | error e =>
        unfold AckSafe
        rw [acknowledgeCommand_raised hf hc hr]
        constructor
        · rintro ⟨hraise,-⟩
          refine undivided_of_unchanged hlocal hrep fun _ _ k => ?_
          exact congrArg (fun p : PageOwnershipIndex => p.standingOf k) (hraise e rfl).pages
        · exact fun hund => ⟨fun _ _ => ⟨hund.unchanged hlocal hrep hr,rfl,rfl,rfl⟩,
            fun hok => by cases hok⟩
      | ok u =>
        refine iff_of_true ?_ (.inl (hlocal.all_possible hrep hr))
        unfold AckSafe
        rw [acknowledgeCommand_settled hf hc hr]
        refine ⟨fun e he => ?_,fun _ flight' _ a _ => hs.settled hf hr a.handle⟩
        rw [(settleAll_coherent _ _ hs.coherent _).assertConsistent] at he
        cases he

theorem startSafe_iff (commandId : String) (handles : List PageHandle) :
    s.StartSafe commandId handles ↔ s.Startable commandId handles := by
  unfold StartSafe Startable
  by_cases hmem : commandId ∈ s.inflight
  · have hlocal := startCall_local commandId
    have hrep := startCall_repeats commandId handles
    rw [markCommandStarted_eq s commandId handles hmem,imp_iff_right hmem,
      ← undivided_iff (fun _ => startCall_ok) fun _ => startCall_same]
    constructor
    · intro hraise
      refine undivided_of_unchanged hlocal hrep fun e he k => ?_
      have hun := hraise e he
      unfold startView
      rw [hun.pages,hun.inflight]
    · intro hund e he
      rw [hund.unchanged hlocal hrep he]
      exact .refl s
  · refine iff_of_true (fun e _ => ?_) fun h => absurd h hmem
    rw [markCommandStarted,if_neg hmem]
    exact .refl s

end Safety

/-- In every state a controller reaches, an acknowledgement or a start is atomic exactly when the
pages it would settle or start can all be, or no page changes before the first that cannot. -/
theorem acknowledgements_atomic (arbiter : RadixArbiter)
    (predictorEnabled shadowEnabled guardEnabled : Bool) (ins : List Input) :
    let s := run (start arbiter predictorEnabled shadowEnabled guardEnabled) ins
    (∀ ack, s.AckSafe ack ↔ s.Settleable ack) ∧
      ∀ commandId handles, s.StartSafe commandId handles ↔ s.Startable commandId handles :=
  ⟨(run_steady ..).ackSafe_iff,startSafe_iff⟩

/-! ## A page that was not started -/

def twoPageOffload : ControlCommand :=
  { commandId := "x"
    kind := .offloadContext
    contextId := some "ca"
    contextEpoch := some 0
    allowReadyOwners := true
    targetBytes := 2
    targets_nodup := List.nodup_nil }

/-- A context with two pages is offloaded, and the copy of the first page has started. -/
def halfStarted : List Input :=
  RuntimeCausalContextGraph.sampleStart.map Input.event ++
    [.engine (.registerPage ⟨0,0⟩ 1 .gpuOnly 0 none true 0) PhysicalResidency.gpuOnly_ne_dead,
      .engine (.registerPage ⟨1,0⟩ 1 .gpuOnly 0 none true 0) PhysicalResidency.gpuOnly_ne_dead,
      .engine (.bindPages "ca" 0 [⟨0,0⟩,⟨1,0⟩] false) trivial,.enqueue twoPageOffload none true,
      .dispatch true,.markStarted "x" [⟨0,0⟩]]

/-- Both pages are reported as copied. -/
def earlyAck : CommandAck :=
  { commandId := "x"
    status := .completed
    actualBytes := 2
    pageHandles := [⟨0,0⟩,⟨1,0⟩] }

/-- The acknowledgement raises at the second page when it has settled the first, and a start
raises at a page of no command when it has begun the transfer of another. -/
theorem acknowledgement_torn :
    let s := run (start { digests := ⟨fun _ => "b",fun _ => "f"⟩ } false true true) halfStarted
    ¬ s.AckSafe earlyAck ∧ ¬ s.StartSafe "x" [⟨1,0⟩,⟨9,0⟩] := by
  intro s
  have hack : (s.acknowledgeCommand earlyAck).2.toOption = none ∧
      (s.acknowledgeCommand earlyAck).1.pages.revision ≠ s.pages.revision := by decide +kernel
  have hstart : (s.markCommandStarted "x" [⟨1,0⟩,⟨9,0⟩]).2.toOption = none ∧
      (s.markCommandStarted "x" [⟨1,0⟩,⟨9,0⟩]).1.pages.revision ≠ s.pages.revision := by decide +kernel
  have hraised {r : Except Raised Unit} (hr : r.toOption = none) : ∃ e, r = .error e := by
    cases r with
    | error e => exact ⟨e,rfl⟩
    | ok u => cases hr
  constructor
  · intro hsafe
    obtain ⟨e,he⟩ := hraised hack.1
    exact hack.2 (congrArg PageOwnershipIndex.revision (hsafe.1 e he).pages)
  · intro hsafe
    obtain ⟨e,he⟩ := hraised hstart.1
    exact hstart.2 (congrArg PageOwnershipIndex.revision (hsafe e he).pages)

end BeliefKV.BeliefKVController
