import BeliefKV.Lib.Run
import BeliefKV.Graph.Runs
import BeliefKV.Controller.Queue
import BeliefKV.Controller.Events

/-! Where the commands a controller accepted are: in the queue, in flight, cancelled or
acknowledged. -/
namespace BeliefKV
open Call

namespace BeliefKVController
variable {s t : BeliefKVController}

/-- A command waits or is in flight. -/
def Holds (s : BeliefKVController) (command : ControlCommand) : Prop :=
  s.commandQueue.Queued command ∨
    ∃ flight, s.inflight[command.commandId]? = some flight ∧ flight.command = command

/-- The places an id is in, counted. -/
def places (s : BeliefKVController) (cancelled : Finset String) (id : String) : ℕ :=
  (if id ∈ s.commandQueue.activeIds then 1 else 0) + (if id ∈ s.inflight then 1 else 0) +
    (if id ∈ cancelled then 1 else 0) + s.ackHistory.count id

/-- The books of a controller that accepted some commands of which some were cancelled. -/
structure Books (s : BeliefKVController) (accepted cancelled : Finset String) : Prop where
  queue : s.commandQueue.Ok
  slot : ∀ i j, i ∈ s.inflight → j ∈ s.inflight → i = j
  keyed : ∀ (id : String) (flight : InFlightCommand), s.inflight[id]? = some flight →
    flight.command.commandId = id
  marks : s.commandQueue.cancelledIds ⊆ accepted
  once : ∀ id, s.places cancelled id = if id ∈ accepted then 1 else 0
  reserved : ∀ (c id : String), s.queuedByContext[c]? = some id ↔
    ∃ command, s.Holds command ∧ command.commandId = id ∧ command.contextId = some c
  attempts : ∀ id, id ∈ s.guard.inflight → id ∈ s.inflight

section Books
variable {accepted cancelled : Finset String}

theorem Books.active_accepted (h : s.Books accepted cancelled) {id : String}
    (hid : id ∈ s.commandQueue.activeIds) : id ∈ accepted := by
  have hone := h.once id
  by_contra hn
  simp only [places,hid,if_true,hn,if_false] at hone
  omega

theorem Books.flying_accepted (h : s.Books accepted cancelled) {id : String}
    (hid : id ∈ s.inflight) : id ∈ accepted := by
  have hone := h.once id
  by_contra hn
  simp only [places,hid,if_true,hn,if_false] at hone
  omega

/-- A flight holds its command. -/
theorem Books.holds_flight (h : s.Books accepted cancelled) {id : String} {flight : InFlightCommand}
    (hf : s.inflight[id]? = some flight) : s.Holds flight.command :=
  .inr ⟨flight,by rw [h.keyed id flight hf]; exact hf,rfl⟩

/-- One id is held by one command. -/
theorem Books.holds_unique (h : s.Books accepted cancelled) {command command' : ControlCommand}
    (hh : s.Holds command) (hh' : s.Holds command') (hid : command.commandId = command'.commandId) :
    command = command' := by
  have happart (c : ControlCommand) (f : InFlightCommand) (hq : s.commandQueue.Queued c)
      (hf : s.inflight[c.commandId]? = some f) : False := by
    have hone := h.once c.commandId
    have hmem : c.commandId ∈ s.inflight := (Dict.mem_iff_get _ _).mpr ⟨f,hf⟩
    simp only [places,hq.1,if_true,hmem] at hone
    split_ifs at hone <;> omega
  rcases hh with hq | ⟨f,hf,rfl⟩ <;> rcases hh' with hq' | ⟨f',hf',rfl⟩
  · exact h.queue.waits_unique hq hq' hid
  · exact (happart command f' hq (hid ▸ hf')).elim
  · exact (happart command' f hq' (hid ▸ hf)).elim
  · rw [hid,hf'] at hf
    rw [Option.some.inj hf]

/-! ## Bookkeeping that stays -/

/-- Nothing of the books changed, except that the guard may have forgotten attempts. -/
structure SameBooks (s t : BeliefKVController) : Prop where
  queue : t.commandQueue = s.commandQueue
  reserved : t.queuedByContext = s.queuedByContext
  acks : t.ackHistory = s.ackHistory
  mem : ∀ id, id ∈ t.inflight ↔ id ∈ s.inflight
  command : ∀ (id : String) (flight : InFlightCommand), t.inflight[id]? = some flight →
    ∃ flight', s.inflight[id]? = some flight' ∧ flight'.command = flight.command
  attempts : ∀ id, id ∈ t.guard.inflight → id ∈ s.guard.inflight

theorem SameBooks.of_eq (hq : t.commandQueue = s.commandQueue)
    (hr : t.queuedByContext = s.queuedByContext) (ha : t.ackHistory = s.ackHistory)
    (hi : t.inflight = s.inflight) (hg : ∀ id, id ∈ t.guard.inflight → id ∈ s.guard.inflight) :
    SameBooks s t :=
  ⟨hq,hr,ha,fun id => by rw [hi],fun id f hf => ⟨f,by rw [← hi]; exact hf,rfl⟩,hg⟩

theorem SameBooks.holds (h : SameBooks s t) (command : ControlCommand) :
    t.Holds command ↔ s.Holds command := by
  unfold Holds
  rw [h.queue]
  refine or_congr_right ⟨?_,?_⟩
  · rintro ⟨f,hf,rfl⟩
    obtain ⟨f',hf',heq⟩ := h.command _ f hf
    exact ⟨f',hf',heq⟩
  · rintro ⟨f,hf,rfl⟩
    obtain ⟨f',hf'⟩ := (Dict.mem_iff_get _ _).mp ((h.mem _).mpr ((Dict.mem_iff_get _ _).mpr ⟨f,hf⟩))
    obtain ⟨f'',hf'',heq⟩ := h.command _ f' hf'
    rw [hf] at hf''
    obtain rfl := Option.some.inj hf''
    exact ⟨f',hf',heq.symm⟩

theorem Books.same (h : s.Books accepted cancelled) (hst : SameBooks s t) :
    t.Books accepted cancelled := by
  refine ⟨hst.queue ▸ h.queue,fun i j hi hj => ?_,fun id f hf => ?_,hst.queue ▸ h.marks,fun id => ?_,
    fun c id => ?_,fun id hid => ?_⟩
  · exact h.slot i j ((hst.mem i).mp hi) ((hst.mem j).mp hj)
  · obtain ⟨f',hf',heq⟩ := hst.command id f hf
    rw [← heq]
    exact h.keyed id f' hf'
  · rw [← h.once id]
    simp only [places,hst.queue,hst.acks,hst.mem]
  · rw [hst.reserved,h.reserved]
    simp only [hst.holds]
  · exact (hst.mem id).mpr (h.attempts id (hst.attempts id hid))

theorem unreserve_get (s : BeliefKVController) (contextId : Option String) (c : String) :
    (s.unreserve contextId).queuedByContext[c]? =
      if contextId = some c then none else s.queuedByContext[c]? := by
  cases contextId with
  | none => simp [unreserve]
  | some k =>
    simp only [unreserve,Dict.get_erase,Option.some.injEq,eq_comm]

/-- A held command goes, with the reservation of its context. -/
theorem Books.reserved_leave (h : s.Books accepted cancelled) {command : ControlCommand}
    (hh : s.Holds command)
    (hholds : ∀ other, t.Holds other ↔ s.Holds other ∧ other.commandId ≠ command.commandId)
    (hq : t.queuedByContext = (s.unreserve command.contextId).queuedByContext) (c id : String) :
    t.queuedByContext[c]? = some id ↔
      ∃ other, t.Holds other ∧ other.commandId = id ∧ other.contextId = some c := by
  rw [hq,unreserve_get]
  split_ifs with hc
  · constructor
    · simp
    · rintro ⟨other,ho,rfl,hctx⟩
      obtain ⟨ho,hne⟩ := (hholds other).mp ho
      have h₁ := (h.reserved c other.commandId).mpr ⟨other,ho,rfl,hctx⟩
      have h₂ := (h.reserved c command.commandId).mpr ⟨command,hh,rfl,hc⟩
      rw [h₁] at h₂
      exact absurd (Option.some.inj h₂) hne
  · rw [h.reserved]
    constructor
    · rintro ⟨other,ho,rfl,hctx⟩
      refine ⟨other,(hholds other).mpr ⟨ho,fun hid => ?_⟩,rfl,hctx⟩
      exact hc (h.holds_unique ho hh hid ▸ hctx)
    · rintro ⟨other,ho,rfl,hctx⟩
      exact ⟨other,((hholds other).mp ho).1,rfl,hctx⟩

/-! ## Cancelling on wake-up -/

theorem Books.cancel (h : s.Books accepted cancelled) (c : String) :
    (s.cancelShadowForContext c).commandQueue.activeIds ⊆ s.commandQueue.activeIds ∧
    (s.cancelShadowForContext c).Books accepted (cancelled ∪
      (s.commandQueue.activeIds \ (s.cancelShadowForContext c).commandQueue.activeIds)) := by
  have hsame {t : BeliefKVController} (hst : SameBooks s t) :
      t.commandQueue.activeIds ⊆ s.commandQueue.activeIds ∧
      t.Books accepted (cancelled ∪ (s.commandQueue.activeIds \ t.commandQueue.activeIds)) := by
    rw [hst.queue,sdiff_self,Finset.bot_eq_empty,Finset.union_empty]
    exact ⟨subset_rfl,h.same hst⟩
  unfold cancelShadowForContext
  dsimp only
  cases hq : s.queuedByContext[c]? with
  | none => exact hsame (.of_eq rfl rfl rfl rfl fun _ hid => hid)
  | some id =>
    obtain ⟨command,hh,rfl,hctx⟩ := (h.reserved c id).mp hq
    by_cases hactive : command.commandId ∈ s.commandQueue.activeIds
    · obtain ⟨hcancel,hok,ha,hm,hqueued⟩ := TransferCommandQueue.cancel_spec h.queue hactive
      have hdiff : s.commandQueue.activeIds \ s.commandQueue.activeIds.erase command.commandId =
          {command.commandId} := by
        ext k
        simp only [Finset.mem_sdiff,Finset.mem_erase,Finset.mem_singleton]
        by_cases hk : k = command.commandId
        · simp [hk,hactive]
        · simp [hk]
      have hone := h.once command.commandId
      simp only [places,hactive,if_true,h.active_accepted hactive] at hone
      have hfly : command.commandId ∉ s.inflight := by
        intro hmem
        simp only [hmem,if_true] at hone
        omega
      have htrue : (s.commandQueue.cancel command.commandId).1 = true := by rw [hcancel]
      simp only [htrue,if_true,ha,hdiff]
      refine ⟨Finset.erase_subset _ _,hok,h.slot,h.keyed,?_,fun k => ?_,fun k id => ?_,h.attempts⟩
      · rw [hm]
        exact Finset.insert_subset (h.active_accepted hactive) h.marks
      · have honek := h.once k
        simp only [places,ha,Finset.mem_erase,Finset.mem_union,Finset.mem_singleton] at honek ⊢
        by_cases hk : k = command.commandId
        · subst hk
          simp only [hfly,if_false] at hone
          have hzero : command.commandId ∉ cancelled := by
            intro hmem
            simp only [hmem,if_true] at hone
            omega
          simp only [hzero,if_false] at hone
          simp [hfly,h.active_accepted hactive]
          omega
        · simpa [hk] using honek
      · refine h.reserved_leave hh (fun other => ?_) ?_ k id
        · unfold Holds
          rw [hqueued]
          constructor
          · rintro (⟨hw,hne⟩ | ⟨f,hf,rfl⟩)
            · exact ⟨.inl hw,hne⟩
            · refine ⟨.inr ⟨f,hf,rfl⟩,fun heq => hfly ?_⟩
              rw [← heq]
              exact (Dict.mem_iff_get _ _).mpr ⟨f,hf⟩
          · rintro ⟨hw | hf,hne⟩
            · exact .inl ⟨hw,hne⟩
            · exact .inr hf
        · rw [hctx]
          rfl
    · have hfalse : (s.commandQueue.cancel command.commandId).1 = false := by
        simp [TransferCommandQueue.cancel,hactive]
      simp only [hfalse,Bool.false_eq_true,if_false]
      rw [sdiff_self,Finset.bot_eq_empty,Finset.union_empty]
      exact ⟨subset_rfl,h.same (.of_eq rfl rfl rfl rfl fun _ hid => hid)⟩

/-- What the work after an event can do to the books. -/
inductive Follows : BeliefKVController → BeliefKVController → Prop
  | same {s t : BeliefKVController} (h : SameBooks s t) : Follows s t
  | cancel (s : BeliefKVController) (c : String) : Follows s (s.cancelShadowForContext c)

theorem Books.follow (h : s.Books accepted cancelled) (hst : Relation.ReflTransGen Follows s t) :
    t.commandQueue.activeIds ⊆ s.commandQueue.activeIds ∧ t.Books accepted
      (cancelled ∪ (s.commandQueue.activeIds \ t.commandQueue.activeIds)) := by
  induction hst with
  | refl =>
    rw [sdiff_self,Finset.bot_eq_empty,Finset.union_empty]
    exact ⟨subset_rfl,h⟩
  | @tail t u _ hstep ih =>
    obtain ⟨hsub,hbooks⟩ := ih
    have hnext : u.commandQueue.activeIds ⊆ t.commandQueue.activeIds ∧ u.Books accepted
        (cancelled ∪ (s.commandQueue.activeIds \ t.commandQueue.activeIds) ∪
          (t.commandQueue.activeIds \ u.commandQueue.activeIds)) := by
      cases hstep with
      | same hst =>
        rw [hst.queue,sdiff_self,Finset.bot_eq_empty,Finset.union_empty]
        exact ⟨subset_rfl,hbooks.same hst⟩
      | cancel c => exact hbooks.cancel c
    refine ⟨hnext.1.trans hsub,?_⟩
    have hunion : cancelled ∪ (s.commandQueue.activeIds \ t.commandQueue.activeIds) ∪
        (t.commandQueue.activeIds \ u.commandQueue.activeIds) =
        cancelled ∪ (s.commandQueue.activeIds \ u.commandQueue.activeIds) := by
      ext k
      have h₁ := @hsub k
      have h₂ := @hnext.1 k
      simp only [Finset.mem_union,Finset.mem_sdiff]
      tauto
    exact hunion ▸ hnext.2

end Books

/-! ## Events -/

section Events
open Relation

theorem follows_same (hq : t.commandQueue = s.commandQueue)
    (hr : t.queuedByContext = s.queuedByContext) (ha : t.ackHistory = s.ackHistory)
    (hi : t.inflight = s.inflight) (hg : ∀ id, id ∈ t.guard.inflight → id ∈ s.guard.inflight) :
    ReflTransGen Follows s t := .single (.same (.of_eq hq hr ha hi hg))

theorem onPages_follows (s : BeliefKVController) (call : Except Raised PageOwnershipIndex) :
    ReflTransGen Follows s (s.onPages call).1 := by
  cases call with
  | error e => exact .refl
  | ok pages => exact follows_same rfl rfl rfl rfl fun _ hid => hid

theorem followContext_follows (s : BeliefKVController) (event : RuntimeEvent) (c : String) :
    ReflTransGen Follows s (s.followContext event c).1 := by
  unfold followContext
  cases s.graph.contexts[c]? with
  | none => exact .refl
  | some context =>
    dsimp only
    refine andThen_rel (R := ReflTransGen Follows) .trans ?_ fun _ _ => ?_
    · have hpages : ReflTransGen Follows s { s with pages := s.releaseCompacted event c } :=
        follows_same rfl rfl rfl rfl fun _ hid => hid
      exact hpages.trans (onPages_follows _ _)
    · refine follows_same rfl rfl rfl rfl fun id hid => ?_
      obtain ⟨attempt,hget⟩ := (Dict.mem_iff_get _ _).mp hid
      simp only [TransferAttemptGuard.invalidateContext,Dict.get_select,
        Option.filter_eq_some_iff] at hget
      exact (Dict.mem_iff_get _ _).mpr ⟨attempt,hget.1⟩

theorem carries_follows : Carries (ReflTransGen Follows) where
  refl _ := .refl
  trans := .trans
  side h := follows_same h.queue h.reserved h.acks h.inflight fun id hid => by
    rwa [h.guard] at hid
  context := followContext_follows
  wake s c := .single (.cancel s c)

end Events

/-! ## Enqueueing -/

section Calls
variable {accepted cancelled : Finset String} {command : ControlCommand}

/-- Under the books a reservation has its command, so looking for it changes nothing. -/
theorem Books.canonical (h : s.Books accepted cancelled) (c : String) :
    (s.canonicalContextCommand c).2 = s ∧
      ((s.canonicalContextCommand c).1.isSome ↔ c ∈ s.queuedByContext) := by
  have hfly : (s.inflight.vals.find? (·.command.contextId = some c)).isSome →
      c ∈ s.queuedByContext := by
    intro hsome
    rw [List.find?_isSome] at hsome
    obtain ⟨f,hf,hctx⟩ := hsome
    obtain ⟨id,hid⟩ := (Dict.mem_vals _ _).mp hf
    exact (Dict.mem_iff_get _ _).mpr ⟨_,(h.reserved c f.command.commandId).mpr
      ⟨f.command,h.holds_flight hid,rfl,by simpa using hctx⟩⟩
  unfold canonicalContextCommand
  dsimp only
  cases hq : s.queuedByContext[c]? with
  | none =>
    have hnot : c ∉ s.queuedByContext := (Dict.notMem_iff_get _ _).mpr hq
    refine ⟨rfl,?_⟩
    simp only [Option.isSome_map]
    exact ⟨hfly,fun hc => absurd hc hnot⟩
  | some id =>
    have hmem : c ∈ s.queuedByContext := (Dict.mem_iff_get _ _).mpr ⟨id,hq⟩
    dsimp only
    cases hget : s.commandQueue.get id with
    | some queued => simp [hmem]
    | none =>
      -- Then the command is in flight.
      obtain ⟨command,hw | ⟨f,hf,rfl⟩,rfl,hctx⟩ := (h.reserved c id).mp hq
      · have hsome := (TransferCommandQueue.get_spec h.queue command.commandId).2.1 hw.1
        simp [hget] at hsome
      · cases hfind : s.inflight.vals.find? (·.command.contextId = some c) with
        | some g => simp [hmem]
        | none =>
          rw [List.find?_eq_none] at hfind
          exact absurd (by simpa using hctx) (hfind f ((Dict.mem_vals _ _).mpr ⟨_,hf⟩))

theorem Books.preflight (h : s.Books accepted cancelled) (command : ControlCommand) (eligible : Bool) :
    (s.preflightControlCommand command eligible).2 = s ∧
      (command.contextId.any (· ∈ s.queuedByContext) →
        (s.preflightControlCommand command eligible).1.status ≠ .enqueued) := by
  unfold preflightControlCommand
  dsimp only
  split_ifs with he
  · simp
  · cases hc : command.contextId with
    | none => simp
    | some c =>
      obtain ⟨hstate,hsome⟩ := h.canonical c
      cases hcanon : s.canonicalContextCommand c with
      | mk existing t =>
        rw [hcanon] at hstate hsome
        dsimp only at hstate hsome
        subst hstate
        simp only [hcanon]
        cases existing with
        | none =>
          refine ⟨rfl,fun hmem => ?_⟩
          simp only [Option.any_some,decide_eq_true_eq] at hmem
          simpa using hsome.mpr hmem
        | some other =>
          dsimp only
          split_ifs <;> simp

/-- A new command enters the books. -/
theorem Books.enqueue (h : s.Books accepted cancelled) (hnew : command.commandId ∉ accepted)
    (hfree : ¬ command.contextId.any (· ∈ s.queuedByContext)) :
    (s.enqueueIfNew command).2 = .ok true ∧
      (s.enqueueIfNew command).1.Books (insert command.commandId accepted) cancelled := by
  have hactive : command.commandId ∉ s.commandQueue.activeIds := fun hid => hnew (h.active_accepted hid)
  have hmark : command.commandId ∉ s.commandQueue.cancelledIds := fun hid => hnew (h.marks hid)
  have hfly : command.commandId ∉ s.inflight := fun hid => hnew (h.flying_accepted hid)
  obtain ⟨q,hput,hok,ha,hm,hqueued⟩ := TransferCommandQueue.put_ok h.queue hactive hmark
  set map : Dict String String := command.contextId.elim s.queuedByContext fun c =>
    s.queuedByContext.insert c command.commandId with hmap
  have heq : s.enqueueIfNew command =
      ({ s with queuedByContext := map, commandQueue := q },.ok true) := by
    unfold enqueueIfNew
    rw [if_neg hfree]
    cases hc : command.contextId <;> simp [hc,hput,hmap]
  rw [heq]
  have hget (c : String) : map[c]? = if command.contextId = some c then some command.commandId
      else s.queuedByContext[c]? := by
    rw [hmap]
    cases command.contextId with
    | none => simp
    | some k => simp [Dict.get_insert,eq_comm]
  have hholds (other : ControlCommand) :
      Holds { s with queuedByContext := map, commandQueue := q } other ↔
        other = command ∨ s.Holds other := by
    unfold Holds
    rw [hqueued,or_assoc]
  refine ⟨rfl,hok,h.slot,h.keyed,?_,fun id => ?_,fun c id => ?_,h.attempts⟩
  · rw [hm]
    exact h.marks.trans (Finset.subset_insert _ _)
  · have hone := h.once id
    simp only [places,ha,Finset.mem_insert] at hone ⊢
    by_cases hid : id = command.commandId
    · subst hid
      simp only [hnew,if_false] at hone
      simp only [true_or,if_true]
      split_ifs at hone ⊢ <;> omega
    · simpa [hid] using hone
  · rw [hget]
    simp only [hholds]
    split_ifs with hc
    · constructor
      · rintro ⟨⟩
        exact ⟨command,.inl rfl,rfl,hc⟩
      · rintro ⟨other,rfl | ho,rfl,hctx⟩
        · rfl
        · refine absurd ?_ hfree
          rw [hc,Option.any_some,decide_eq_true_eq]
          exact (Dict.mem_iff_get _ _).mpr ⟨_,(h.reserved c _).mpr ⟨other,ho,rfl,hctx⟩⟩
    · rw [h.reserved]
      constructor
      · rintro ⟨other,ho,hid,hctx⟩
        exact ⟨other,.inr ho,hid,hctx⟩
      · rintro ⟨other,rfl | ho,hid,hctx⟩
        · exact absurd hctx hc
        · exact ⟨other,ho,hid,hctx⟩

/-- The ids accepted after a call of `enqueueControlCommand`. -/
def accept (accepted : Finset String) (command : ControlCommand)
    (result : Except Raised EnqueueOutcome) : Finset String :=
  match result with
  | .ok outcome => if outcome.status = .enqueued then insert command.commandId accepted else accepted
  | .error _ => accepted

theorem Books.enqueueControl (h : s.Books accepted cancelled) (hnew : command.commandId ∉ accepted)
    (preflight : Option EnqueueOutcome) (eligible : Bool) :
    (s.enqueueControlCommand command preflight eligible).1.Books
      (accept accepted command (s.enqueueControlCommand command preflight eligible).2) cancelled := by
  obtain ⟨hstate,hstatus⟩ := h.preflight command eligible
  have hcore (outcome : EnqueueOutcome) :
      (s.enqueueControlCommand command (some outcome) eligible).1.Books
        (accept accepted command (s.enqueueControlCommand command (some outcome) eligible).2)
        cancelled := by
    unfold enqueueControlCommand
    dsimp only
    split_ifs with h₁ h₂
    · simpa [accept,h₁] using h
    · simpa [accept] using h
    · rw [not_not] at h₁
      by_cases hfree : command.contextId.any (· ∈ s.queuedByContext)
      · -- The context is taken: the answer of the second look is not that it was queued.
        have hnone : s.enqueueIfNew command = (s,.ok false) := by
          unfold enqueueIfNew
          rw [if_pos hfree]
        rw [hnone]
        simp only [andThen_ok,Bool.false_eq_true,if_false,hstate,accept,hstatus hfree]
        exact h
      · obtain ⟨hok,hbooks⟩ := h.enqueue hnew hfree
        rw [show s.enqueueIfNew command = ((s.enqueueIfNew command).1,.ok true) from Prod.ext rfl hok]
        simp only [andThen_ok,if_true,accept,h₁]
        exact hbooks
  cases preflight with
  | some outcome => exact hcore outcome
  | none =>
    have heq : s.enqueueControlCommand command none eligible = s.enqueueControlCommand command
        (some (s.preflightControlCommand command eligible).1) eligible := by
      unfold enqueueControlCommand
      dsimp only
      rw [hstate]
    rw [heq]
    exact hcore _

/-! ## Dispatch -/

/-- The command that comes up, when it is dispatched and resolves to nothing, has an epoch if it
has a context, and a reason if the guard watches it. -/
def Explained (s : BeliefKVController) (eligible : Bool) : Prop :=
  s.inflight.isEmpty = true → eligible = true → ∀ command,
    (s.commandQueue.pop s.shadowEnabled).1 = some command →
    (s.arbiter.resolve s.graph s.pages command).pageActions = [] →
    (command.contextId.isSome → command.contextEpoch.isSome) ∧
    (s.guard.enabled → TransferAttemptGuard.guarded command.kind → command.contextId.isSome →
      command.contextEpoch.isSome → (s.arbiter.resolve s.graph s.pages command).blockers ≠ [])

/-- The popped command was counted in the queue only. -/
theorem Books.popped_places (h : s.Books accepted cancelled) (hw : s.commandQueue.Queued command) :
    command.commandId ∈ accepted ∧ command.commandId ∉ s.inflight ∧ command.commandId ∉ cancelled ∧
      s.ackHistory.count command.commandId = 0 := by
  have hone := h.once command.commandId
  have hacc := h.active_accepted hw.1
  simp only [places,hw.1,if_true,hacc] at hone
  refine ⟨hacc,fun hf => ?_,fun hc => ?_,by split_ifs at hone <;> omega⟩
  · simp only [hf,if_true] at hone
    omega
  · simp only [hc,if_true] at hone
    omega

/-- The popped command is acknowledged on the spot, and its context is free. -/
theorem Books.rejected (h : s.Books accepted cancelled)
    (hpop : (s.commandQueue.pop s.shadowEnabled).1 = some command)
    (hq : t.commandQueue = (s.commandQueue.pop s.shadowEnabled).2)
    (hr : t.queuedByContext = (s.unreserve command.contextId).queuedByContext)
    (hi : t.inflight = s.inflight) (ha : t.ackHistory = s.ackHistory ++ [command.commandId])
    (hg : ∀ id, id ∈ t.guard.inflight → id ∈ s.inflight) : t.Books accepted cancelled := by
  have hp := TransferCommandQueue.pop_spec h.queue s.shadowEnabled
  have hw := hp.was command hpop
  obtain ⟨hacc,hfly,hcan,hack⟩ := h.popped_places hw
  refine ⟨by rw [hq]; exact hp.tidy,by rw [hi]; exact h.slot,by rw [hi]; exact h.keyed,?_,fun id => ?_,
    h.reserved_leave (.inl hw) (fun other => ?_) hr,fun id hid => by rw [hi]; exact hg id hid⟩
  · rw [hq]
    exact hp.sub.trans h.marks
  · have hone := h.once id
    simp only [places,hq,hi,ha,hp.active_iff,hpop,Option.some.injEq,forall_eq',
      List.count_append] at hone ⊢
    by_cases hid : id = command.commandId
    · subst hid
      simp [hfly,hcan,hack,hacc]
    · simpa [hid,List.count_cons,Ne.symm hid] using hone
  · unfold Holds
    rw [hq,hi]
    refine (or_congr_left (hp.waits_iff other)).trans ?_
    rw [hpop]
    constructor
    · rintro (⟨hw',hne⟩ | ⟨f,hf,rfl⟩)
      · exact ⟨.inl hw',hne command rfl⟩
      · refine ⟨.inr ⟨f,hf,rfl⟩,fun heq => hfly ?_⟩
        rw [← heq]
        exact (Dict.mem_iff_get _ _).mpr ⟨f,hf⟩
    · rintro ⟨hw' | hf,hne⟩
      · exact .inl ⟨hw',by rintro _ ⟨⟩; exact hne⟩
      · exact .inr hf

/-- The popped command goes into the empty slot. -/
theorem Books.launched (h : s.Books accepted cancelled) (hempty : s.inflight = ∅)
    (hpop : (s.commandQueue.pop s.shadowEnabled).1 = some command)
    (hq : t.commandQueue = (s.commandQueue.pop s.shadowEnabled).2)
    (hr : t.queuedByContext = s.queuedByContext) {flight : InFlightCommand}
    (hf : flight.command = command) (hi : t.inflight = s.inflight.insert command.commandId flight)
    (ha : t.ackHistory = s.ackHistory)
    (hg : ∀ id, id ∈ t.guard.inflight → id = command.commandId) : t.Books accepted cancelled := by
  have hp := TransferCommandQueue.pop_spec h.queue s.shadowEnabled
  have hw := hp.was command hpop
  obtain ⟨hacc,hfly,hcan,hack⟩ := h.popped_places hw
  have hmem (id : String) : id ∈ t.inflight ↔ id = command.commandId := by
    rw [hi,hempty,Dict.mem_insert_iff]
    simp
  have hget (id : String) : t.inflight[id]? = if id = command.commandId then some flight else none := by
    rw [hi,hempty,Dict.get_insert]
    simp [eq_comm]
  refine ⟨by rw [hq]; exact hp.tidy,fun i j hi hj => ((hmem i).mp hi).trans ((hmem j).mp hj).symm,
    fun id f hf' => ?_,?_,fun id => ?_,fun c id => ?_,fun id hid => (hmem id).mpr (hg id hid)⟩
  · rw [hget] at hf'
    split_ifs at hf' with hid
    obtain rfl := Option.some.inj hf'
    rw [hf,hid]
  · rw [hq]
    exact hp.sub.trans h.marks
  · have hone := h.once id
    simp only [places,hq,hmem,ha,hp.active_iff,hpop,Option.some.injEq,forall_eq'] at hone ⊢
    by_cases hid : id = command.commandId
    · subst hid
      simp [hcan,hack,hacc]
    · have hnot : id ∉ s.inflight := by simp [hempty]
      simpa [hid,hnot] using hone
  · rw [hr,h.reserved]
    refine exists_congr fun other => and_congr_left fun _ => ?_
    unfold Holds
    rw [hq]
    refine Iff.symm ((or_congr_left (hp.waits_iff other)).trans ?_)
    rw [hpop]
    constructor
    · rintro (⟨hw',-⟩ | ⟨f,hf',rfl⟩)
      · exact .inl hw'
      · rw [hget] at hf'
        split_ifs at hf' with hid
        obtain rfl := Option.some.inj hf'
        rw [hf]
        exact .inl hw
    · rintro (hw' | ⟨f,hf',-⟩)
      · by_cases hid : other.commandId = command.commandId
        · obtain rfl := h.queue.waits_unique hw' hw hid
          exact .inr ⟨flight,by rw [hget,if_pos rfl],hf⟩
        · exact .inl ⟨hw',by rintro _ ⟨⟩; exact hid⟩
      · simp [hempty] at hf'

theorem Books.dispatch (h : s.Books accepted cancelled) {eligible : Bool}
    (hexp : s.Explained eligible) : (s.dispatchNext eligible).2 = .ok () ∧
      (s.dispatchNext eligible).1.Books accepted cancelled := by
  unfold dispatchNext
  by_cases hfull : s.inflight.isEmpty = false
  · rw [if_pos hfull]
    exact ⟨rfl,h⟩
  rw [if_neg hfull]
  have hempty : s.inflight = ∅ := Std.ExtTreeMap.isEmpty_iff.mp (by simpa using hfull)
  have hattempts (id : String) : id ∉ s.guard.inflight := by
    intro hid
    have hmem := h.attempts id hid
    simp [hempty] at hmem
  have hp := TransferCommandQueue.pop_spec h.queue s.shadowEnabled
  dsimp only
  cases hpop : (s.commandQueue.pop s.shadowEnabled).1 with
  | none =>
    refine ⟨rfl,hp.tidy,h.slot,h.keyed,hp.sub.trans h.marks,fun id => ?_,fun c id => ?_,h.attempts⟩
    · have hone := h.once id
      simp only [places,hp.active_iff,hpop] at hone ⊢
      simpa using hone
    · refine (h.reserved c id).trans (exists_congr fun other => and_congr_left fun _ => ?_)
      unfold Holds
      refine or_congr_left ?_
      refine Iff.symm ((hp.waits_iff other).trans ?_)
      simp [hpop,TransferCommandQueue.Queued]
  | some command =>
    dsimp only
    cases eligible with
    | false =>
      refine ⟨rfl,h.rejected hpop ?_ ?_ ?_ ?_ ?_⟩
      all_goals cases command.contextId <;> try rfl
      · exact fun id hid => absurd hid (hattempts id)
      · exact fun id hid => absurd hid (hattempts id)
    | true =>
      simp only [Bool.true_eq_false,if_false]
      have hbegin : ∃ guard, s.guard.beginAttempt command = .ok guard ∧
          guard.enabled = s.guard.enabled ∧
          (∀ id, id ∈ guard.inflight → id = command.commandId ∧ s.guard.enabled ∧
            TransferAttemptGuard.guarded command.kind ∧ command.contextId.isSome ∧
            command.contextEpoch.isSome) := by
        unfold TransferAttemptGuard.beginAttempt
        rw [if_neg (hattempts _)]
        split
        · rename_i c e hguard hc he
          rw [Bool.and_eq_true] at hguard
          refine ⟨_,rfl,rfl,fun id hid => ?_⟩
          rcases (Dict.mem_insert_iff _ _ _ _).mp hid with rfl | hid
          · exact ⟨rfl,hguard.1,hguard.2,by simp [hc],by simp [he]⟩
          · exact absurd hid (hattempts id)
        · exact ⟨_,rfl,rfl,fun id hid => absurd hid (hattempts id)⟩
      obtain ⟨guard,hok,henabled,hguard⟩ := hbegin
      simp only [hok]
      by_cases hnone : (s.arbiter.resolve s.graph s.pages command).pageActions = []
      · rw [if_pos hnone]
        obtain ⟨hepoch,hblock⟩ := hexp (by simp [hempty]) rfl command hpop hnone
        unfold rejectEmpty
        dsimp only
        set freed : BeliefKVController := if command.contextEpoch.isSome then
          unreserve { s with commandQueue := (s.commandQueue.pop s.shadowEnabled).2, guard := guard }
            command.contextId
          else { s with commandQueue := (s.commandQueue.pop s.shadowEnabled).2, guard := guard }
          with hfreed
        have hfields : freed.commandQueue = (s.commandQueue.pop s.shadowEnabled).2 ∧
            freed.queuedByContext = (s.unreserve command.contextId).queuedByContext ∧
            freed.inflight = s.inflight ∧ freed.ackHistory = s.ackHistory ∧ freed.guard = guard := by
          rw [hfreed]
          split_ifs with he
          · exact ⟨rfl,rfl,rfl,rfl,rfl⟩
          · have hctx : command.contextId = none := by
              rw [← Option.not_isSome_iff_eq_none]
              exact fun hc => he (hepoch hc)
            refine ⟨rfl,?_,rfl,rfl,rfl⟩
            rw [hctx]
            rfl
        obtain ⟨h₁,h₂,h₃,h₄,h₅⟩ := hfields
        have hrecord : (freed.guard.recordFailure command.commandId
            (s.arbiter.resolve s.graph s.pages command).blockers).2 = .ok () ∧
            ∀ id, id ∉ (freed.guard.recordFailure command.commandId
              (s.arbiter.resolve s.graph s.pages command).blockers).1.inflight := by
          rw [h₅]
          unfold TransferAttemptGuard.recordFailure
          have herase (id : String) : id ∉ guard.inflight.erase command.commandId := by
            rw [Dict.mem_erase_iff]
            rintro ⟨hne,hid⟩
            exact hne (hguard id hid).1
          dsimp only
          split_ifs with h₆ h₇
          · exact ⟨rfl,herase⟩
          · rw [not_or,not_not] at h₆
            obtain ⟨-,hen,hkind,hc,he⟩ := hguard _ h₆.2
            exact absurd h₇ (hblock hen hkind hc he)
          · exact ⟨rfl,herase⟩
        obtain ⟨hresult,hno⟩ := hrecord
        rw [hresult,andThen_ok]
        exact ⟨rfl,h.rejected hpop h₁ h₂ h₃ (by simp [acknowledged,h₄]) fun id hid =>
          absurd hid (hno id)⟩
      · rw [if_neg hnone]
        exact ⟨rfl,h.launched hempty hpop rfl rfl rfl rfl rfl fun id hid => (hguard id hid).1⟩

/-! ## Starting and acknowledging -/

theorem SameBooks.trans {u : BeliefKVController} (h : SameBooks s t) (h' : SameBooks t u) :
    SameBooks s u := by
  refine ⟨h'.queue.trans h.queue,h'.reserved.trans h.reserved,h'.acks.trans h.acks,
    fun id => (h'.mem id).trans (h.mem id),fun id f hf => ?_,fun id hid => h.attempts id (h'.attempts id hid)⟩
  obtain ⟨f',hf',heq⟩ := h'.command id f hf
  obtain ⟨f'',hf'',heq'⟩ := h.command id f' hf'
  exact ⟨f'',hf'',heq'.trans heq⟩

theorem SameBooks.refl (s : BeliefKVController) : SameBooks s s :=
  .of_eq rfl rfl rfl rfl fun _ hid => hid

theorem onPages_same (s : BeliefKVController) (call : Except Raised PageOwnershipIndex) :
    SameBooks s (s.onPages call).1 := by
  cases call with
  | error e => exact .refl s
  | ok pages => exact .of_eq rfl rfl rfl rfl fun _ hid => hid

theorem onPages_inflight (s : BeliefKVController) (call : Except Raised PageOwnershipIndex) :
    (s.onPages call).1.inflight = s.inflight := by
  cases call <;> rfl

theorem startHandle_same (commandId : String) (s : BeliefKVController) (handle : PageHandle) :
    SameBooks s (startHandle commandId s handle).1 := by
  unfold startHandle
  cases hf : s.inflight[commandId]? with
  | none => exact .refl s
  | some flight =>
    dsimp only
    split_ifs
    · exact .refl s
    · split
      · exact .refl s
      · rename_i action _
        refine andThen_rel (R := SameBooks) .trans (onPages_same s _) fun _ _ => ?_
        have hi := onPages_inflight s (beginAction s.pages action)
        refine ⟨rfl,rfl,rfl,fun id => ?_,fun id f hf' => ?_,fun _ hid => hid⟩
        · rw [Dict.mem_insert_iff,hi]
          refine ⟨?_,.inr⟩
          rintro (rfl | hid)
          · exact (Dict.mem_iff_get _ _).mpr ⟨flight,hf⟩
          · exact hid
        · rw [Dict.get_insert,hi] at hf'
          rw [hi]
          split_ifs at hf' with hid
          · obtain rfl := Option.some.inj hf'
            exact ⟨flight,by rw [← hid]; exact hf,rfl⟩
          · exact ⟨f,hf',rfl⟩

theorem markCommandStarted_same (s : BeliefKVController) (commandId : String)
    (handles : List PageHandle) : SameBooks s (s.markCommandStarted commandId handles).1 := by
  unfold markCommandStarted
  split_ifs
  · exact forEach_rel (R := SameBooks) .refl .trans (fun s h _ => startHandle_same commandId s h) s
  · exact .refl s

/-- Whatever an acknowledgement says, the attempt is over. -/
theorem settleGuard_inflight (guard : TransferAttemptGuard) (ack : CommandAck) {id : String}
    (hid : id ∈ (settleGuard guard ack).inflight) : id ∈ guard.inflight ∧ id ≠ ack.commandId := by
  have herase {d : Dict String (String × ℤ)} (hmem : id ∈ d.erase ack.commandId) :
      id ∈ d ∧ id ≠ ack.commandId := by
    rw [Dict.mem_erase_iff] at hmem
    exact hmem.symm
  have hfail (blockers : List TransferBlocker)
      (hmem : id ∈ (guard.recordFailure ack.commandId blockers).1.inflight) :
      id ∈ guard.inflight ∧ id ≠ ack.commandId := by
    unfold TransferAttemptGuard.recordFailure at hmem
    dsimp only at hmem
    split_ifs at hmem <;> exact herase hmem
  unfold settleGuard at hid
  cases hs : ack.status <;> simp only [hs] at hid
  case completed =>
    unfold TransferAttemptGuard.recordSuccess at hid
    split_ifs at hid with hmem
    · exact herase hid
    · exact ⟨hid,fun heq => hmem (heq ▸ hid)⟩
  case cancelled => exact herase hid
  all_goals exact hfail _ hid

theorem Books.acknowledge (h : s.Books accepted cancelled) (ack : CommandAck) :
    (s.acknowledgeCommand ack).1.Books accepted cancelled := by
  unfold acknowledgeCommand
  cases hf : s.inflight[ack.commandId]? with
  | none => exact h
  | some flight =>
    dsimp only
    cases hcheck : checkAck flight ack with
    | error e => exact h
    | ok completed =>
      rw [andThen_ok]
      have hloop : ∀ actions : List ResolvedPageAction,
          (forEach (fun s action => s.onPages (settleAction flight completed s.pages action)) s
            actions).1.inflight = s.inflight ∧
          SameBooks s (forEach (fun s action =>
            s.onPages (settleAction flight completed s.pages action)) s actions).1 := by
        intro actions
        refine forEach_rel (R := fun s t => t.inflight = s.inflight ∧ SameBooks s t)
          (fun s => ⟨rfl,.refl s⟩) ?_ (fun s x _ => ?_) s
        · intro a b c h h'
          exact ⟨h'.1.trans h.1,h.2.trans h'.2⟩
        · exact ⟨onPages_inflight s _,onPages_same s _⟩
      obtain ⟨hi,hsame⟩ := hloop (actionTable flight.pageActions)
      cases hend : forEach (fun s action => s.onPages (settleAction flight completed s.pages action))
          s (actionTable flight.pageActions) with
      | mk u result =>
        rw [hend] at hi hsame
        dsimp only at hi hsame
        cases result with
        | error e => exact h.same hsame
        | ok _ =>
          rw [andThen_ok]
          -- The command leaves the slot for the history.
          have hu := h.same hsame
          rw [← hi] at hf
          have hid := hu.keyed _ _ hf
          have hmem : ack.commandId ∈ u.inflight := (Dict.mem_iff_get _ _).mpr ⟨flight,hf⟩
          have hone := hu.once ack.commandId
          have hacc := hu.flying_accepted hmem
          simp only [places,hmem,if_true,hacc] at hone
          have hactive : ack.commandId ∉ u.commandQueue.activeIds := by
            intro ha
            simp only [ha,if_true] at hone
            omega
          have hcan : ack.commandId ∉ cancelled := by
            intro hc
            simp only [hc,if_true] at hone
            omega
          simp only [hactive,hcan,if_false] at hone
          refine ⟨hu.queue,fun i j hi hj => ?_,fun id f hf' => ?_,hu.marks,fun id => ?_,?_,
            fun id hid => ?_⟩
          · rw [show (acknowledged _ _).inflight = u.inflight.erase ack.commandId from rfl,
              Dict.mem_erase_iff] at hi hj
            exact hu.slot i j hi.2 hj.2
          · rw [show (acknowledged _ _).inflight = u.inflight.erase ack.commandId from rfl,
              Dict.get_erase] at hf'
            split_ifs at hf'
            exact hu.keyed id f hf'
          · have honek := hu.once id
            simp only [places] at honek ⊢
            rw [show (acknowledged _ _).inflight = u.inflight.erase ack.commandId from rfl]
            simp only [acknowledged,unreserve,Dict.mem_erase_iff,List.count_append]
            by_cases hk : id = ack.commandId
            · subst hk
              simp [hactive,hcan,hacc]
              omega
            · simp [hk,Ne.symm hk] at honek ⊢
              exact honek
          · refine hu.reserved_leave (hu.holds_flight hf) (fun other => ?_) ?_
            · unfold Holds
              rw [show (acknowledged _ _).inflight = u.inflight.erase ack.commandId from rfl]
              simp only [Dict.get_erase,hid]
              constructor
              · rintro (hw | ⟨f,hf',rfl⟩)
                · refine ⟨.inl hw,fun heq => hactive ?_⟩
                  rw [← heq]
                  exact hw.1
                · split_ifs at hf' with hk
                  exact ⟨.inr ⟨f,hf',rfl⟩,fun heq => hk heq.symm⟩
              · rintro ⟨hw | ⟨f,hf',rfl⟩,hne⟩
                · exact .inl hw
                · exact .inr ⟨f,by rw [if_neg (Ne.symm hne)]; exact hf',rfl⟩
            · rfl
          · obtain ⟨hmem',hne⟩ := settleGuard_inflight _ _ hid
            rw [show (acknowledged _ _).inflight = u.inflight.erase ack.commandId from rfl,
              Dict.mem_erase_iff]
            exact ⟨hne,hu.attempts id hmem'⟩

end Calls

/-! ## Runs -/

/-- A controller, the commands it accepted and those that were cancelled. -/
structure Ledger where
  controller : BeliefKVController
  accepted : Finset String := ∅
  cancelled : Finset String := ∅

namespace Ledger

/-- One call on the controller, entered into the ledger. Only the work after an event takes
commands out of the queue without an acknowledgement. -/
def step (l : Ledger) (input : Input) : Ledger :=
  let next := l.controller.step input
  { controller := next
    accepted := match input with
      | .enqueue command preflight eligible => accept l.accepted command
          (l.controller.enqueueControlCommand command preflight eligible).2
      | _ => l.accepted
    cancelled := match input with
      | .event _ | .events _ => l.cancelled ∪
          (l.controller.commandQueue.activeIds \ next.commandQueue.activeIds)
      | _ => l.cancelled }

def run (l : Ledger) (ins : List Input) : Ledger := ins.foldl step l

/-- Commands are enqueued under new ids, and a dispatched command that resolves to nothing has a
reason and the epoch of its context. -/
def Orderly (l : Ledger) : Input → Prop
  | .enqueue command _ _ => command.commandId ∉ l.accepted
  | .dispatch eligible => l.controller.Explained eligible
  | _ => True

/-- Every accepted command is in exactly one place, and a context is reserved for a command exactly
while that command waits or is in flight for it. -/
def Conserved (l : Ledger) : Prop :=
  (∀ id ∈ l.accepted, l.controller.places l.cancelled id = 1) ∧
  (∀ i j, i ∈ l.controller.inflight → j ∈ l.controller.inflight → i = j) ∧
  ∀ (c id : String), l.controller.queuedByContext[c]? = some id ↔
    ∃ command, l.controller.Holds command ∧ command.commandId = id ∧ command.contextId = some c

theorem step_books {l : Ledger} (h : l.controller.Books l.accepted l.cancelled) {input : Input}
    (hin : l.Orderly input) : (l.step input).controller.Books (l.step input).accepted
      (l.step input).cancelled := by
  cases input with
  | event e => exact (h.follow (carries_follows.processRuntimeEvent _ e)).2
  | events es => exact (h.follow (carries_follows.processRuntimeEvents _ es)).2
  | engine op hop => exact h.same (.of_eq rfl rfl rfl rfl fun _ hid => hid)
  | release cs => exact h.same (.of_eq rfl rfl rfl rfl fun _ hid => hid)
  | enqueue command preflight eligible => exact h.enqueueControl hin preflight eligible
  | dispatch eligible => exact (h.dispatch hin).2
  | markStarted id hs => exact h.same (markCommandStarted_same _ id hs)
  | acknowledge ack => exact h.acknowledge ack

theorem start_books (arbiter : RadixArbiter) (predictorEnabled shadowEnabled guardEnabled : Bool) :
    (start arbiter predictorEnabled shadowEnabled guardEnabled).Books ∅ ∅ := by
  refine ⟨⟨List.nodup_nil,fun id => ?_,fun id hid => ?_⟩,fun i j hi => ?_,fun id f hf => ?_,?_,
    fun id => ?_,fun c id => ?_,fun id hid => ?_⟩
  · simp [start,TransferCommandQueue.entries]
  · simp [start] at hid
  · simp [start] at hi
  · simp [start] at hf
  · simp [start]
  · simp [start,places]
  · simp [start,Holds,TransferCommandQueue.Queued,Waits]
  · simp [start] at hid

/-- The ledger of a new controller. -/
def fresh (arbiter : RadixArbiter) (predictorEnabled shadowEnabled guardEnabled : Bool) : Ledger :=
  { controller := start arbiter predictorEnabled shadowEnabled guardEnabled }

/-- In every run of events, commands, dispatches, starts and acknowledgements that are orderly,
commands are conserved, and the next orderly dispatch does not raise. -/
theorem commands_conserved (arbiter : RadixArbiter)
    (predictorEnabled shadowEnabled guardEnabled : Bool) (ins : List Input)
    (h : Run.AllSteps step Orderly
      (fresh arbiter predictorEnabled shadowEnabled guardEnabled) ins) :
    let l := run (fresh arbiter predictorEnabled shadowEnabled guardEnabled) ins
    l.Conserved ∧ ∀ eligible, l.Orderly (.dispatch eligible) →
      (l.controller.dispatchNext eligible).2 = .ok () := by
  intro l
  have hbooks : l.controller.Books l.accepted l.cancelled :=
    Run.AllSteps.invariant (I := fun l : Ledger => l.controller.Books l.accepted l.cancelled)
      (fun l input hl hin => step_books hl hin) (start_books ..) h
  refine ⟨⟨fun id hid => ?_,hbooks.slot,hbooks.reserved⟩,fun eligible hexp =>
    (hbooks.dispatch hexp).1⟩
  rw [hbooks.once id,if_pos hid]

def plainArbiter : RadixArbiter := { digests := ⟨fun _ => "b",fun _ => "f"⟩ }

/-- A command to offload a context. -/
def offloadCommand : ControlCommand :=
  { commandId := "x"
    kind := .offloadContext
    contextId := some "ca"
    contextEpoch := some 0
    allowReadyOwners := true
    targets_nodup := List.nodup_nil }

/-- The context gets a page, and the command is enqueued. -/
def offloadPage : List Input :=
  RuntimeCausalContextGraph.sampleStart.map Input.event ++
    [.engine (.registerPage ⟨0,0⟩ 1 .gpuOnly 0 none true 0) PhysicalResidency.gpuOnly_ne_dead,
      .engine (.bindPages "ca" 0 [⟨0,0⟩] false) trivial,.enqueue offloadCommand none true]

/-- The command is dispatched, its page is copied, and it is acknowledged. -/
def offloadOnce : List Input :=
  offloadPage ++ [.dispatch true,.markStarted "x" [⟨0,0⟩],
    .acknowledge { commandId := "x", status := .completed, actualBytes := 1, pageHandles := [⟨0,0⟩] }]

theorem commands_conserved_sample :
    (run (fresh plainArbiter false true true) offloadOnce).Conserved ∧
      (run (fresh plainArbiter false true true) offloadOnce).controller.ackHistory = ["x"] := by
  have hone : let s := (run (fresh plainArbiter false true true) offloadPage).controller
      ∀ command ∈ (s.commandQueue.pop true).1,
        (plainArbiter.resolve s.graph s.pages command).pageActions ≠ [] := by
    decide +kernel
  have hall : Run.AllSteps step Orderly (fresh plainArbiter false true true) offloadOnce := by
    refine Run.AllSteps.append.mpr ⟨⟨trivial,trivial,trivial,trivial,trivial,trivial,?_,trivial⟩,
      ?_,trivial,trivial,trivial⟩
    · exact Finset.notMem_empty _
    · intro _ _ command hpop hnil
      exact absurd hnil (hone command hpop)
  exact ⟨(commands_conserved plainArbiter false true true offloadOnce hall).1,by decide +kernel⟩

/-! ## A context without pages -/

def offloadEmpty : List Input :=
  RuntimeCausalContextGraph.sampleStart.map Input.event ++ [.enqueue offloadCommand none true]

/-- The dispatch of a command the guard does not suppress resolves to nothing, for no reason; it
raises, and the command is nowhere. -/
theorem dispatch_loses_command :
    let l := run (fresh plainArbiter false true true) offloadEmpty
    "x" ∈ l.accepted ∧ l.controller.places l.cancelled "x" = 1 ∧
      (l.controller.dispatchNext true).2.toOption = none ∧
      (l.step (.dispatch true)).controller.places (l.step (.dispatch true)).cancelled "x" = 0 := by
  decide +kernel

end Ledger
end BeliefKVController
end BeliefKV
