import BeliefKV.Graph.Deltas

/-! What the handlers write, as a few elementary writes: every call of `apply` is a sequence of
them, so that an invariant of the records is proved write by write. -/
namespace BeliefKV.RuntimeCausalContextGraph
open Relation
variable {g g' h : RuntimeCausalContextGraph} {e : RuntimeEvent} {i k : String}
  {r : InvocationRecord}

/-- An update in place keeps a record's place in the family; blocking children may be dropped. -/
structure KinKept (r r' : InvocationRecord) : Prop where
  invocationId : r'.invocationId = r.invocationId
  workflowId : r'.workflowId = r.workflowId
  contextId : r'.contextId = r.contextId
  parent : r'.parentInvocationId = r.parentInvocationId
  children : r'.childInvocationIds = r.childInvocationIds
  blocking : r'.blockingChildIds ⊆ r.blockingChildIds

/-- A context record is succeeded by a later one. -/
structure ContextKept (x y : ContextRecord) : Prop where
  workflowId : y.workflowId = x.workflowId
  contextId : y.contextId = x.contextId
  invocationIds : x.invocationIds ⊆ y.invocationIds
  epoch : x.epoch ≤ y.epoch

/-- The invocation is known in the workflow. -/
def KnownIn (g : RuntimeCausalContextGraph) (w k : String) : Prop :=
  ∃ q : InvocationRecord, g.invocations[k]? = some q ∧ q.workflowId = w

/-- What entering an invocation needs to know about the graph before. -/
structure Enters (g : RuntimeCausalContextGraph) (r : InvocationRecord) (x : WorkflowRecord)
    (y : ContextRecord) : Prop where
  fresh : r.invocationId ∉ g.invocations
  workflow : g.workflows[r.workflowId]? = some x
  parent : ∀ p, r.parentInvocationId = some p → g.KnownIn r.workflowId p
  children : r.childInvocationIds = ∅
  blocking : r.blockingChildIds = ∅
  listed : r.invocationId ∈ y.invocationIds
  opened : g.contexts[r.contextId]? = none → y.contextId = r.contextId
  context : ∀ c : ContextRecord, g.contexts[r.contextId]? = some c → ContextKept c y

def enter (g : RuntimeCausalContextGraph) (r : InvocationRecord) (x : WorkflowRecord)
    (y : ContextRecord) : RuntimeCausalContextGraph :=
  { g with
    invocations := g.invocations.insert r.invocationId r
    invocationOrder := g.invocationOrder ++ [r.invocationId]
    workflows := g.workflows.insert r.workflowId
      { x with invocationIds := insert r.invocationId x.invocationIds }
    contexts := g.contexts.insert r.contextId y }

/-- What linking a child to a parent needs to know about the graph before. -/
structure Links (g : RuntimeCausalContextGraph) (p c : InvocationRecord) : Prop where
  parent : g.invocations[p.invocationId]? = some p
  child : g.invocations[c.invocationId]? = some c
  workflow : c.workflowId = p.workflowId
  ne : p.invocationId ≠ c.invocationId
  below : g.isAncestor c.invocationId p.invocationId = .ok false
  free : c.parentInvocationId = none ∨ c.parentInvocationId = some p.invocationId

/-- One record of a join is succeeded by another; whoever waits anew is known in its workflow. -/
structure JoinKept (g : RuntimeCausalContextGraph) (q q' : JoinRecord) : Prop where
  workflowId : q'.workflowId = q.workflowId
  joinId : q'.joinId = q.joinId
  members : q'.memberInvocationIds = q.memberInvocationIds
  waiters : ∀ k ∈ q'.waiterInvocationIds, k ∈ q.waiterInvocationIds ∨ g.KnownIn q.workflowId k

/-- A join that is opened. -/
structure Opens (g : RuntimeCausalContextGraph) (q : JoinRecord) : Prop where
  fresh : q.joinId ∉ g.joins
  members : q.memberInvocationIds ≠ ∅
  known : ∀ k ∈ q.memberInvocationIds, g.KnownIn q.workflowId k
  waiters : q.waiterInvocationIds = ∅

/-- The elementary writes. -/
inductive Write : RuntimeCausalContextGraph → RuntimeCausalContextGraph → Prop
  | edit (g : RuntimeCausalContextGraph) (ids : Finset String)
      (f : InvocationRecord → InvocationRecord)
      (hf : ∀ k ∈ ids, ∀ r, g.invocations[k]? = some r → KinKept r (f r)) :
      Write g (g.editInvocations ids f)
  | touch (g : RuntimeCausalContextGraph) (c : String) (x y : ContextRecord)
      (hx : g.contexts[c]? = some x) (hy : ContextKept x y) :
      Write g { g with contexts := g.contexts.insert c y }
  | start (g : RuntimeCausalContextGraph) (x : WorkflowRecord) (hnew : x.workflowId ∉ g.workflows) :
      Write g { g with workflows := g.workflows.insert x.workflowId x }
  | close (g : RuntimeCausalContextGraph) (w : String) (x y : WorkflowRecord)
      (hx : g.workflows[w]? = some x) (hid : y.workflowId = x.workflowId)
      (hsame : y.invocationIds = x.invocationIds) :
      Write g { g with workflows := g.workflows.insert w y }
  | enter (g : RuntimeCausalContextGraph) (r : InvocationRecord) (x : WorkflowRecord)
      (y : ContextRecord) (hr : g.Enters r x y) : Write g (g.enter r x y)
  | link (g : RuntimeCausalContextGraph) (e : RuntimeEvent) (p c : InvocationRecord)
      (mode : ExecutionMode) (hl : g.Links p c) :
      Write g ((g.editInvocations {c.invocationId} (linkedChild e p mode)).editInvocations
        {p.invocationId} (linkedParent e c.invocationId mode))
  | message (g : RuntimeCausalContextGraph) (e : RuntimeEvent) (s t : String) :
      Write g { g with
        communicationEdges := g.communicationEdges.insert (s,t) (g.messageEdge e s t) }
  | plan (g : RuntimeCausalContextGraph) (q : JoinRecord) (hq : g.Opens q) :
      Write g { g with joins := g.joins.insert q.joinId q, joinOrder := g.joinOrder ++ [q.joinId] }
  | rejoin (g : RuntimeCausalContextGraph) (j : String) (q q' : JoinRecord)
      (hq : g.joins[j]? = some q) (hkept : g.JoinKept q q') :
      Write g { g with joins := g.joins.insert j q' }
  | commit (g : RuntimeCausalContextGraph) (e : RuntimeEvent) : Write g (g.commit e)

/-- A sequence of writes. -/
abbrev Writes : RuntimeCausalContextGraph → RuntimeCausalContextGraph → Prop := ReflTransGen Write

/-- What every write keeps, a sequence keeps. -/
theorem Writes.invariant {I : RuntimeCausalContextGraph → Prop}
    (hstep : ∀ g g', I g → Write g g' → I g') (hw : Writes g g') (hg : I g) : I g' := by
  induction hw with
  | refl => exact hg
  | tail _ hlast ih => exact hstep _ _ ih hlast

/-! ## The parts of the handlers -/

theorem Writes.edit {ids : Finset String} {f : InvocationRecord → InvocationRecord}
    (hf : ∀ r, KinKept r (f r)) : Writes g (g.editInvocations ids f) :=
  .single (.edit g ids f fun _ _ r _ => hf r)

theorem KinKept.refl (r : InvocationRecord) : KinKept r r := ⟨rfl,rfl,rfl,rfl,rfl,subset_rfl⟩

/-- An update of other fields. -/
theorem Writes.setState {state : InvocationState} {tsMs : ℚ} :
    Writes g (g.setState i state tsMs) := .edit fun _ => ⟨rfl,rfl,rfl,rfl,rfl,subset_rfl⟩

theorem Writes.touchContext {c : String} (ht : g.touchContext e c = .ok g') : Writes g g' := by
  obtain ⟨x,hx,hv,rfl⟩ := touchContext_eq_ok ht
  refine .single (.touch g c x _ hx ⟨rfl,rfl,subset_rfl,?_⟩)
  cases he : e.contextEpoch with
  | none => exact le_rfl
  | some epoch => exact validateContextEpoch_le (he ▸ hv)

theorem Writes.wakeJoinWaiters (q : JoinRecord) (tsMs : ℚ) : Writes g (g.wakeJoinWaiters q tsMs) := by
  refine .edit fun r => ?_
  split_ifs
  · exact ⟨rfl,rfl,rfl,rfl,rfl,subset_rfl⟩
  · exact .refl r

theorem Writes.releaseParent (r : InvocationRecord) (tsMs : ℚ) :
    Writes g (g.releaseParent r tsMs).1 := by
  unfold RuntimeCausalContextGraph.releaseParent
  cases orElse r.returnTargetId r.parentInvocationId with
  | none => exact .refl
  | some t =>
    cases hp : g.invocations[t]? with
    | none => simp only [hp]; exact .refl
    | some p =>
      have hedit {f : InvocationRecord → InvocationRecord} (hf : KinKept p (f p)) :
          Writes g (g.editInvocations {t} f) := by
        refine .single (.edit g {t} f fun k hk q hq => ?_)
        rw [Finset.mem_singleton] at hk
        subst hk
        cases hp.symm.trans hq
        exact hf
      simp only [hp]
      split_ifs
      · exact hedit ⟨rfl,rfl,rfl,rfl,rfl,Finset.erase_subset _ _⟩
      · exact hedit ⟨rfl,rfl,rfl,rfl,rfl,Finset.erase_subset _ _⟩

theorem Writes.completeJoin (i j : String) (tsMs : ℚ) (ws : Wakes) :
    Writes g (completeJoin i tsMs (g,ws) j).1 := by
  unfold RuntimeCausalContextGraph.completeJoin
  cases hj : g.joins[j]? with
  | none => exact .refl
  | some q =>
    simp only
    split_ifs
    · refine .trans ?_ (Writes.wakeJoinWaiters _ _)
      exact .single (.rejoin g j q _ hj ⟨rfl,rfl,rfl,fun k hk => .inl hk⟩)
    · exact .single (.rejoin g j q _ hj ⟨rfl,rfl,rfl,fun k hk => .inl hk⟩)
    · exact .refl

theorem Writes.completeJoins (i : String) (tsMs : ℚ) (order : List String) (ws : Wakes) :
    Writes g (order.foldl (RuntimeCausalContextGraph.completeJoin i tsMs) (g,ws)).1 := by
  induction order generalizing g ws with
  | nil => exact .refl
  | cons j order ih => exact (Writes.completeJoin i j tsMs ws).trans (ih _)

theorem Writes.finishInvocation (r : InvocationRecord) (st : InvocationState) :
    Writes g (g.finishInvocation e r st).1 :=
  (Writes.setState.trans (Writes.releaseParent r e.tsMs)).trans (Writes.completeJoins _ _ _ _)

/-! ## Handlers -/

abbrev WritesHandled (g : RuntimeCausalContextGraph) (x : Except Raised Handled) : Prop :=
  Yields x fun handled => Writes g handled.graph

abbrev WritesFiring (g : RuntimeCausalContextGraph) (x : Except Raised (Handled × Wakes)) : Prop :=
  Yields x fun fired => Writes g fired.1.graph

theorem onWorkflowStart_writes : WritesHandled g (g.onWorkflowStart e) :=
  .bind fun _ hnew => .ok (.single (.start g { workflowId := e.workflowId, startTsMs := e.tsMs }
    (ensure_eq_ok.mp hnew)))

theorem onWorkflowEnd_writes : WritesHandled g (g.onWorkflowEnd e) := by
  refine .bind fun x hx => .ok ?_
  refine .tail (b := g.editInvocations x.invocationIds fun r => if r.state.terminal then r
    else { r with state := .cancelled, updatedTsMs := e.tsMs }) (Writes.edit fun r => ?_)
    (.close _ e.workflowId x _ (workflow_eq_ok.mp hx) rfl rfl)
  split_ifs
  · exact .refl r
  · exact ⟨rfl,rfl,rfl,rfl,rfl,subset_rfl⟩

theorem parentContextOf_known {pc : Option String} (h : g.parentContextOf e = .ok pc) {p : String}
    (hp : e.parentInvocationId = some p) : g.KnownIn e.workflowId p := by
  simp only [parentContextOf,hp] at h
  obtain ⟨q,hq,-⟩ := bind_eq_ok.mp h
  exact ⟨q,invocation_eq_ok.mp hq⟩

/-- The context of a new invocation succeeds the one it had. -/
theorem enteredContext_kept {c : String} {pc : Option String} {y : ContextRecord}
    (h : g.enteredContext e c pc = .ok y) : (g.contexts[c]? = none → y.contextId = c) ∧
      ∀ x, g.contexts[c]? = some x → ContextKept x y := by
  unfold enteredContext at h
  cases hx : g.contexts[c]? with
  | none =>
    simp only [hx,Except.ok.injEq] at h
    subst h
    simp
  | some x =>
    simp only [hx] at h
    obtain ⟨u,-,h⟩ := bind_eq_ok.mp h
    obtain ⟨u',-,h⟩ := bind_eq_ok.mp h
    cases h
    simp only [reduceCtorEq,false_implies,Option.some.injEq,true_and]
    rintro x rfl
    exact ⟨rfl,rfl,subset_rfl,le_max_left _ _⟩

theorem onInvocationCreate_writes : WritesHandled g (g.onInvocationCreate e) := by
  refine .bind fun x hx => .bind fun i _ => .bind fun c _ => .bind fun u hnew => .bind fun pc hpc =>
    .bind fun y hy => .ok ?_
  obtain ⟨hopen,hkept⟩ := enteredContext_kept hy
  refine .single (.enter g (newInvocation e i c pc y.persistent) x _ ?_)
  refine ⟨ensure_eq_ok.mp hnew,workflow_eq_ok.mp hx,fun p hp => parentContextOf_known hpc hp,rfl,rfl,
    Finset.mem_insert_self _ _,hopen,fun z hz => ?_⟩
  obtain ⟨hw,hc,hi,he⟩ := hkept z hz
  exact ⟨hw,hc,hi.trans (Finset.subset_insert _ _),he⟩

theorem onInvocationCancel_writes : WritesFiring g (g.onInvocationCancel e) :=
  .bind fun r _ => .ite (fun _ => .ok .refl) fun _ => .ok (Writes.finishInvocation r _)

theorem onContextAdvance_writes : WritesHandled g (g.onContextAdvance e) :=
  .bind fun _ _ => .bind fun _ _ => .bind fun _ ht =>
    .ok ((Writes.touchContext ht).trans (Writes.edit fun _ => ⟨rfl,rfl,rfl,rfl,rfl,subset_rfl⟩))

theorem onContextCompact_writes : WritesHandled g (g.onContextCompact e) :=
  .bind fun _ _ => .bind fun _ _ => .bind fun _ _ => .bind fun _ _ => .bind fun _ _ =>
    .bind fun _ ht =>
      .ok ((Writes.touchContext ht).trans (Writes.edit fun _ => ⟨rfl,rfl,rfl,rfl,rfl,subset_rfl⟩))

theorem onStructuredAction_writes : WritesHandled g (g.onStructuredAction e) :=
  .bind fun _ _ => .bind fun _ _ => .bind fun _ _ => .ok .refl

theorem onCallCensored_writes : WritesHandled g (g.onCallCensored e) := by
  unfold onCallCensored
  split
  · exact .ok .refl
  · exact .bind fun _ _ => .ok .refl

theorem linkChild_writes (hg : g.WellFormed) (mode : ExecutionMode) :
    WritesHandled g (g.linkChild e mode) := by
  refine .bind fun p hp => .bind fun k hk => .bind fun c hc => .bind fun _ _ => .bind fun _ hne =>
    .bind fun a ha => .bind fun _ hfalse => .bind fun _ hfree => .ok ?_
  obtain ⟨i,-,-,hpi,hpw⟩ := eventInvocation_eq_ok.mp hp
  obtain ⟨hck,hcw⟩ := invocation_eq_ok.mp hc
  have hki := hg.keyed k c hck
  have hii := hg.keyed i p hpi
  subst hki hii
  rw [ensure_eq_ok] at hne hfalse hfree
  subst hfalse
  exact .single (.link g e p c _ ⟨hpi,hck,hcw.trans hpw.symm,hne,ha,hfree⟩)

theorem onReturn_writes : WritesFiring g (g.onReturn e) :=
  .bind fun r _ => .ite (fun _ => .ok .refl) fun _ => .ok (Writes.finishInvocation r _)

theorem deliverMessage_writes (handoff : Bool) : WritesHandled g (g.deliverMessage e handoff) := by
  refine .bind fun s _ => .bind fun t _ => .bind fun _ _ => .bind fun _ _ => .ok ?_
  have hsent : Writes g { g.editInvocations {t} (fun r => { r with
      pendingMessages := r.pendingMessages + 1, state := .ready, updatedTsMs := e.tsMs }) with
      communicationEdges := g.communicationEdges.insert (s.invocationId,t)
        (g.messageEdge e s.invocationId t) } := by
    refine .trans (.single (.message g e s.invocationId t)) ?_
    exact .single (.edit _ {t} _ fun _ _ _ _ => ⟨rfl,rfl,rfl,rfl,rfl,subset_rfl⟩)
  dsimp only
  split_ifs
  · exact hsent.trans Writes.setState
  · exact hsent

theorem onReactivate_writes : WritesHandled g (g.onReactivate e) :=
  .bind fun _ _ => .bind fun _ _ => .ok .setState

theorem checkMembers_known {members : List String} {u : Unit}
    (h : g.checkMembers e members = .ok u) : ∀ k ∈ members, g.KnownIn e.workflowId k := by
  intro k hk
  obtain ⟨q,hq,hw⟩ := checkMembers_eq_ok h k hk
  exact ⟨q,hq,hw⟩

theorem onJoinCreate_writes : WritesHandled g (g.onJoinCreate e) := by
  refine .bind fun _ _ => .bind fun j _ => .bind fun _ hnew => .bind fun _ hne => .bind fun _ hmem =>
    .bind fun mode _ => .ok ?_
  refine .single (.plan g (g.newJoin e j mode) ⟨ensure_eq_ok.mp hnew,ensure_eq_ok.mp hne,fun k hk => ?_,rfl⟩)
  exact checkMembers_known hmem k (List.mem_toFinset.mp hk)

theorem onJoinWait_writes (hg : g.WellFormed) : WritesHandled g (g.onJoinWait e) := by
  refine .bind fun r hr => .bind fun j _ => .bind fun q hq => .ok ?_
  obtain ⟨hget,hw⟩ := join_eq_ok.mp hq
  obtain ⟨i,-,-,hri,hrw⟩ := eventInvocation_eq_ok.mp hr
  have hii := hg.keyed i r hri
  subst hii
  refine .trans (.single (.rejoin g j q { q with
    waiterInvocationIds := insert r.invocationId q.waiterInvocationIds } hget ⟨rfl,rfl,rfl,?_⟩))
    (Writes.edit fun _ => ⟨rfl,rfl,rfl,rfl,rfl,subset_rfl⟩)
  intro k hk
  rcases Finset.mem_insert.mp hk with rfl | hk
  · exact .inr ⟨r,hri,hrw.trans hw.symm⟩
  · exact .inl hk

theorem fireJoin_writes (sat : Bool) : WritesFiring g (g.fireJoin e sat) := by
  refine .bind fun j _ => .bind fun q hq => .ok (.trans ?_ (Writes.wakeJoinWaiters _ _))
  exact .single (.rejoin g j q _ (join_eq_ok.mp hq).1 ⟨rfl,rfl,rfl,fun _ hk => .inl hk⟩)

theorem onToolStart_writes : WritesHandled g (g.onToolStart e) :=
  .bind fun _ _ => .ok (.edit fun _ => ⟨rfl,rfl,rfl,rfl,rfl,subset_rfl⟩)

theorem onToolEnd_writes : WritesHandled g (g.onToolEnd e) :=
  .bind fun _ _ => .ok (.edit fun _ => ⟨rfl,rfl,rfl,rfl,rfl,subset_rfl⟩)

theorem onLlmResult_writes : WritesFiring g (g.onLlmResult e) :=
  .bind fun r _ => .bind fun _ ht =>
    .ite (fun _ => .ok ((Writes.touchContext ht).trans (Writes.finishInvocation r _)))
      fun _ => .ok ((Writes.touchContext ht).trans Writes.setState)

theorem onLlmSubmit_writes : Writes g (g.onLlmSubmit e).graph := by
  unfold onLlmSubmit
  dsimp only
  split
  · exact .refl
  · rename_i invocation touched hopen
    obtain ⟨r,-,hopen⟩ := bind_eq_ok.mp hopen
    obtain ⟨t,ht,hopen⟩ := bind_eq_ok.mp hopen
    cases hopen
    have hstart : Writes g (touched.editInvocations {invocation.invocationId} fun r => { r with
        state := .runningLlm }) :=
      (Writes.touchContext ht).trans (Writes.edit fun _ => ⟨rfl,rfl,rfl,rfl,rfl,subset_rfl⟩)
    split
    · exact hstart
    · exact hstart.trans (Writes.edit fun _ => ⟨rfl,rfl,rfl,rfl,rfl,subset_rfl⟩)

theorem writes_ofHandled {x : Except Raised Handled} (hx : WritesHandled g x) :
    Writes g (Outcome.ofHandled g x).graph := by
  cases x with
  | error => exact .refl
  | ok handled => exact hx _ rfl

theorem writes_ofFiring {x : Except Raised (Handled × Wakes)} (hx : WritesFiring g x) :
    Writes g (Outcome.ofFiring g x).graph := by
  cases x with
  | error => exact .refl
  | ok fired => exact hx _ rfl

theorem handle_writes (hg : g.WellFormed) (e : RuntimeEvent) : Writes g (g.handle e).graph := by
  unfold handle
  split
  · exact writes_ofHandled onWorkflowStart_writes
  · exact writes_ofHandled onWorkflowEnd_writes
  · exact writes_ofHandled onInvocationCreate_writes
  · exact writes_ofFiring onInvocationCancel_writes
  · exact writes_ofHandled onContextAdvance_writes
  · exact writes_ofHandled onContextCompact_writes
  · exact writes_ofHandled (linkChild_writes hg _)
  · exact writes_ofHandled (linkChild_writes hg _)
  · exact writes_ofFiring onReturn_writes
  · exact writes_ofHandled (deliverMessage_writes _)
  · exact writes_ofHandled (deliverMessage_writes _)
  · exact writes_ofHandled onReactivate_writes
  · exact writes_ofHandled onJoinCreate_writes
  · exact writes_ofHandled (onJoinWait_writes hg)
  · exact writes_ofFiring (fireJoin_writes _)
  · exact writes_ofFiring (fireJoin_writes _)
  · exact writes_ofHandled onToolStart_writes
  · exact writes_ofHandled onToolEnd_writes
  · exact onLlmSubmit_writes
  · exact writes_ofFiring onLlmResult_writes
  · exact writes_ofHandled onCallCensored_writes
  · exact writes_ofHandled onStructuredAction_writes

/-- A call of `apply` is a sequence of writes. -/
theorem step_writes (hg : g.WellFormed) (e : RuntimeEvent) : Writes g (g.step e) := by
  unfold step apply
  dsimp only
  split_ifs
  · exact .refl
  · exact .refl
  · cases (g.handle e).result with
    | error => exact handle_writes hg e
    | ok delta => exact (handle_writes hg e).tail (.commit _ e)

/-- What holds of the empty graph and is kept by every write holds of every reachable graph. -/
theorem run_of_writes {I : RuntimeCausalContextGraph → Prop}
    (hstep : ∀ g g', I g → Write g g' → I g') (strict : Bool) (hstart : I (start strict))
    (events : List RuntimeEvent) : I ((start strict).run events) := by
  suffices hall : ∀ g : RuntimeCausalContextGraph, g.WellFormed → I g → I (g.run events) from
    hall _ (start_wellFormed strict) hstart
  induction events with
  | nil => exact fun g _ hg => hg
  | cons e events ih =>
    intro g hwf hg
    exact ih (g.step e) (apply_wellFormed hwf e) ((step_writes hwf e).invariant hstep hg)

end BeliefKV.RuntimeCausalContextGraph
