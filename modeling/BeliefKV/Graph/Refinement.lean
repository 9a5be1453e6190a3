import BeliefKV.Graph.Handlers
import BeliefKV.Graph.Lifecycle

/-! The causal graph implements the lifecycle: every call of `apply` leaves the records well
formed and makes one move. -/
namespace BeliefKV.RuntimeCausalContextGraph
open Classical

/-- The lifecycle part of a record. -/
def agentOf (r : InvocationRecord) : Agent :=
  { state := r.state
    workflow := r.workflowId
    joinId := r.joinId
    blocking := r.blockingChildIds
    target := orElse r.returnTargetId r.parentInvocationId }

def view (g : RuntimeCausalContextGraph) : Lifecycle :=
  { agent := fun i => g.invocations[i]?.map agentOf
    join := fun j => g.joins[j]? }

/-- Records are stored under their ids, workflows list exactly their invocations, every
invocation has its context, and the insertion order lists exactly the joins. -/
structure WellFormed (g : RuntimeCausalContextGraph) : Prop where
  keyed : ∀ (i : String) (r : InvocationRecord), g.invocations[i]? = some r → r.invocationId = i
  enrolled : ∀ (i : String) (r : InvocationRecord), g.invocations[i]? = some r →
    ∃ w : WorkflowRecord, g.workflows[r.workflowId]? = some w ∧ i ∈ w.invocationIds
  roster : ∀ (w : String) (x : WorkflowRecord), g.workflows[w]? = some x → ∀ i ∈ x.invocationIds,
    ∃ r : InvocationRecord, g.invocations[i]? = some r ∧ r.workflowId = w
  placed : ∀ (i : String) (r : InvocationRecord), g.invocations[i]? = some r →
    ∃ c : ContextRecord, g.contexts[r.contextId]? = some c ∧ c.workflowId = r.workflowId
  order_mem : ∀ j : String, j ∈ g.joinOrder ↔ j ∈ g.joins
  order_nodup : g.joinOrder.Nodup

theorem empty_wellFormed (strict : Bool) :
    WellFormed { strictTimestamps := strict } := by
  constructor <;> simp

variable {g g' : RuntimeCausalContextGraph} {e : RuntimeEvent} {i k : String}
  {r : InvocationRecord}

theorem view_agent (h : g.invocations[i]? = some r) : g.view.agent i = some (agentOf r) := by
  simp [view,h]

theorem view_agent_eq_some {a : Agent} : g.view.agent i = some a ↔
    ∃ r : InvocationRecord, g.invocations[i]? = some r ∧ agentOf r = a := by
  simp [view]

/-- A move, record by record. -/
theorem view_eq_next {m : Move}
    (hagent : ∀ (k : String) (r : InvocationRecord), g.invocations[k]? = some r →
      g'.invocations[k]?.map agentOf = some (g.view.act m k (agentOf r)))
    (hnew : ∀ k : String, g.invocations[k]? = none →
      g'.invocations[k]?.map agentOf = m.newcomer k)
    (hjoin : ∀ (j : String) (q : JoinRecord), g.joins[j]? = some q →
      g'.joins[j]? = some (Lifecycle.actJoin m j q))
    (hopen : ∀ j : String, g.joins[j]? = none → g'.joins[j]? = m.newJoin j) :
    g'.view = g.view.next m := by
  have h₁ : g'.view.agent = (g.view.next m).agent := by
    funext k
    change g'.invocations[k]?.map agentOf =
      ((g.invocations[k]?.map agentOf).map (g.view.act m k)).or (m.newcomer k)
    cases hk : g.invocations[k]? with
    | none => exact hnew k hk
    | some r => exact hagent k r hk
  have h₂ : g'.view.join = (g.view.next m).join := by
    funext j
    change g'.joins[j]? = (g.joins[j]?.map (Lifecycle.actJoin m j)).or (m.newJoin j)
    cases hj : g.joins[j]? with
    | none => exact hopen j hj
    | some q => exact hjoin j q hj
  change (⟨g'.view.agent,g'.view.join⟩ : Lifecycle) = ⟨(g.view.next m).agent,(g.view.next m).join⟩
  rw [h₁,h₂]

theorem view_edit_eq {ids : Finset String} {f : InvocationRecord → InvocationRecord}
    (hf : ∀ r, agentOf (f r) = agentOf r) : (g.editInvocations ids f).view = g.view := by
  simp only [view,editInvocations,Dict.get_updateAll,Lifecycle.mk.injEq,and_true]
  funext k
  split_ifs
  · simp [Function.comp_def,hf]
  · rfl

/-- A move that only updates records in place. -/
theorem view_eq_next_of_edit {m : Move} {ids : Finset String}
    {f : InvocationRecord → InvocationRecord}
    (hinv : g'.invocations = g.invocations.updateAll ids f) (hjoins : g'.joins = g.joins)
    (hagent : ∀ (k : String) (r : InvocationRecord), g.invocations[k]? = some r →
      agentOf (if k ∈ ids then f r else r) = g.view.act m k (agentOf r))
    (hnew : ∀ k, m.newcomer k = none) (hjoin : ∀ j q, Lifecycle.actJoin m j q = q)
    (hopen : ∀ j, m.newJoin j = none) : g'.view = g.view.next m := by
  refine view_eq_next (fun k r hk => ?_) (fun k hk => ?_) (fun j q hj => ?_) (fun j hj => ?_)
  · rw [← hagent k r hk,hinv,Dict.get_updateAll,hk]
    split_ifs <;> rfl
  · rw [hnew,hinv,Dict.get_updateAll,hk]
    split_ifs <;> rfl
  · rw [hjoin,hjoins,hj]
  · rw [hopen,hjoins,hj]

/-! ## Updates in place -/

/-- The update keeps the identity of every record. -/
def KeepsIdentity (f : InvocationRecord → InvocationRecord) : Prop :=
  ∀ r, (f r).invocationId = r.invocationId ∧ (f r).workflowId = r.workflowId ∧
    (f r).contextId = r.contextId

/-- Updates in place keep the records well formed, whatever they do to edges and revisions. -/
theorem WellFormed.of_map (hg : g.WellFormed) {f : String → InvocationRecord → InvocationRecord}
    (hf : ∀ k, KeepsIdentity (f k))
    (hinv : ∀ k : String, g'.invocations[k]? = g.invocations[k]?.map (f k))
    (hwf : g'.workflows = g.workflows)
    (hctx : ∀ (c : String) (x : ContextRecord), g.contexts[c]? = some x →
      ∃ y : ContextRecord, g'.contexts[c]? = some y ∧ y.workflowId = x.workflowId)
    (hjoins : ∀ j : String, j ∈ g'.joins ↔ j ∈ g.joins) (horder : g'.joinOrder = g.joinOrder) :
    g'.WellFormed := by
  refine ⟨fun i r h => ?_,fun i r h => ?_,fun w x hx i hi => ?_,fun i r h => ?_,fun j => ?_,?_⟩
  · rw [hinv] at h
    obtain ⟨q,hq,rfl⟩ := Option.map_eq_some_iff.mp h
    rw [(hf i q).1,hg.keyed i q hq]
  · rw [hinv] at h
    obtain ⟨q,hq,rfl⟩ := Option.map_eq_some_iff.mp h
    rw [(hf i q).2.1,hwf]
    exact hg.enrolled i q hq
  · rw [hwf] at hx
    obtain ⟨q,hq,rfl⟩ := hg.roster w x hx i hi
    exact ⟨f i q,by rw [hinv,hq]; rfl,(hf i q).2.1⟩
  · rw [hinv] at h
    obtain ⟨q,hq,rfl⟩ := Option.map_eq_some_iff.mp h
    obtain ⟨x,hx,hxw⟩ := hg.placed i q hq
    obtain ⟨y,hy,hyw⟩ := hctx _ x hx
    exact ⟨y,by rw [(hf i q).2.2,hy],by rw [hyw,hxw,(hf i q).2.1]⟩
  · rw [horder,hjoins]
    exact hg.order_mem j
  · rw [horder]
    exact hg.order_nodup

theorem WellFormed.of_edit (hg : g.WellFormed) {ids : Finset String}
    {f : InvocationRecord → InvocationRecord} (hf : KeepsIdentity f)
    (hinv : g'.invocations = g.invocations.updateAll ids f) (hwf : g'.workflows = g.workflows)
    (hctx : ∀ (c : String) (x : ContextRecord), g.contexts[c]? = some x →
      ∃ y : ContextRecord, g'.contexts[c]? = some y ∧ y.workflowId = x.workflowId)
    (hjoins : ∀ j : String, j ∈ g'.joins ↔ j ∈ g.joins) (horder : g'.joinOrder = g.joinOrder) :
    g'.WellFormed := by
  refine hg.of_map (f := fun k r => if k ∈ ids then f r else r) (fun k r => ?_) (fun k => ?_) hwf
    hctx hjoins horder
  · split_ifs
    · exact hf r
    · exact ⟨rfl,rfl,rfl⟩
  · rw [hinv,Dict.get_updateAll]
    split_ifs <;> simp

theorem WellFormed.edit (hg : g.WellFormed) {ids : Finset String}
    {f : InvocationRecord → InvocationRecord} (hf : KeepsIdentity f) :
    (g.editInvocations ids f).WellFormed :=
  hg.of_edit hf rfl rfl (fun _ x hx => ⟨x,hx,rfl⟩) (fun _ => Iff.rfl) rfl

theorem touchContext_eq_ok {c : String} (h : g.touchContext e c = .ok g') :
    ∃ x : ContextRecord, g.contexts[c]? = some x ∧ validateContextEpoch x e.contextEpoch = .ok () ∧
      g' = { g with contexts := g.contexts.insert c { x with
        epoch := e.contextEpoch.getD x.epoch, updatedTsMs := e.tsMs } } := by
  obtain ⟨x,hx,h⟩ := bind_eq_ok.mp h
  obtain ⟨u,hv,h⟩ := bind_eq_ok.mp h
  cases h
  exact ⟨x,context_eq_ok.mp hx,hv,rfl⟩

theorem WellFormed.touchContext (hg : g.WellFormed) {c : String}
    (h : g.touchContext e c = .ok g') : g'.WellFormed ∧ g'.joins = g.joins ∧
      g'.invocations = g.invocations := by
  obtain ⟨x,hx,-,rfl⟩ := touchContext_eq_ok h
  have hid : g.invocations = g.invocations.updateAll ∅ id := by
    apply Dict.ext_get
    intro k
    simp [Dict.get_updateAll]
  refine ⟨hg.of_edit (fun _ => ⟨rfl,rfl,rfl⟩) hid rfl (fun a y hy => ?_) (fun _ => Iff.rfl) rfl,rfl,
    rfl⟩
  simp only [Dict.get_insert]
  split_ifs with ha
  · subst ha
    cases hx.symm.trans hy
    exact ⟨_,rfl,rfl⟩
  · exact ⟨y,hy,rfl⟩

/-! ## Driving a live invocation -/

/-- The move that puts one agent in a state. -/
def driveOne (i : String) (state : InvocationState) : Move :=
  .drive fun k => if k = i then some state else none

theorem view_idle (hinv : g'.invocations = g.invocations) (hjoins : g'.joins = g.joins) :
    g'.view = g.view.next (.drive fun _ => none) := by
  refine view_eq_next (fun k r hk => ?_) (fun k hk => ?_) (fun j q hj => ?_) (fun j hj => ?_)
  · rw [hinv,hk]
    rfl
  · rw [hinv,hk]
    rfl
  · rw [hjoins,hj]
    rfl
  · rw [hjoins,hj]
    rfl

theorem enabled_idle (s : Lifecycle) : s.Enabled (.drive fun _ => none) := by
  simp [Lifecycle.Enabled]

theorem enabled_driveOne {state : InvocationState} (h : g.invocations[i]? = some r)
    (hlive : r.state.terminal = false) (hst : state.active = true) :
    g.view.Enabled (driveOne i state) := by
  intro k st hk
  change (if k = i then some state else none) = some st at hk
  split_ifs at hk with hki
  cases hk
  exact hki ▸ ⟨⟨_,view_agent h,hlive⟩,hst⟩

/-- An update that only changes the state of one record, as a move. -/
theorem view_driveOne {state : InvocationState} {f : InvocationRecord → InvocationRecord}
    (hinv : g'.invocations = g.invocations.updateAll {i} f) (hjoins : g'.joins = g.joins)
    (hf : ∀ r, agentOf (f r) = { agentOf r with state := state }) :
    g'.view = g.view.next (driveOne i state) := by
  refine view_eq_next_of_edit hinv hjoins (fun k r hk => ?_) (fun _ => rfl) (fun _ _ => rfl)
    (fun _ => rfl)
  simp only [driveOne,Lifecycle.act,Finset.mem_singleton]
  split_ifs
  · exact hf r
  · rfl

/-! ## One move for each handler -/

/-- The invocation whose end the event reports, when its handler gets to record it. -/
def finishing (g : RuntimeCausalContextGraph) (e : RuntimeEvent) : Option String :=
  match e.kind with
  | .return | .invocationCancel => (g.liveInvocation e).toOption.map (·.invocationId)
  | .llmResult =>
    if e.attributes.terminal then
      (g.liveInvocation e).toOption.bind fun r =>
        (g.contexts[r.contextId]?).bind fun c =>
          (validateContextEpoch c e.contextEpoch).toOption.map fun _ => r.invocationId
    else none
  | _ => none

/-- The invocation and the join of a wait. -/
def awaiting (g : RuntimeCausalContextGraph) (e : RuntimeEvent) : Option (String × String) :=
  match e.kind with
  | .joinWait =>
    (g.eventInvocation e).toOption.bind fun r =>
      (requireId e.joinId "join_id").toOption.bind fun j =>
        (g.join j e.workflowId).toOption.map fun _ => (r.invocationId,j)
  | _ => none

/-- The join an event fires by itself. -/
def firing (g : RuntimeCausalContextGraph) (e : RuntimeEvent) : Option String :=
  match e.kind with
  | .joinSatisfied | .joinTimeout =>
    (requireId e.joinId "join_id").toOption.bind fun j =>
      (g.join j e.workflowId).toOption.map fun _ => j
  | _ => none

/-- The workflow an event ends. -/
def ending (e : RuntimeEvent) : Option String :=
  match e.kind with
  | .workflowEnd => some e.workflowId
  | _ => none

/-- The moves with a meaning of their own are made by the events that stand for them. -/
def Fits (g : RuntimeCausalContextGraph) (e : RuntimeEvent) : Move → Prop
  | .enter i _ => isBlank i = false
  | .await i j => g.awaiting e = some (i,j)
  | .finish i _ => g.finishing e = some i
  | .fire j _ => g.firing e = some j
  | .close w => ending e = some w
  | _ => True

/-- One call: the records stay well formed and the lifecycle makes one move. -/
structure Simulates (e : RuntimeEvent) (g g' : RuntimeCausalContextGraph) : Prop where
  wellFormed : g'.WellFormed
  move : ∃ m, g.view.Enabled m ∧ g.Fits e m ∧ g'.view = g.view.next m

theorem Simulates.idle (hg : g'.WellFormed) (hinv : g'.invocations = g.invocations)
    (hjoins : g'.joins = g.joins) : Simulates e g g' :=
  ⟨hg,_,enabled_idle _,trivial,view_idle hinv hjoins⟩

/-- Bookkeeping that no view sees. -/
theorem Simulates.of_eq {h : RuntimeCausalContextGraph} (hs : Simulates e g h)
    (hwf : g'.WellFormed) (hview : g'.view = h.view) : Simulates e g g' := by
  obtain ⟨m,hm,hfit,hv⟩ := hs.move
  exact ⟨hwf,m,hm,hfit,hview.trans hv⟩

theorem liveInvocation_eq_ok (h : g.liveInvocation e = .ok r) : ∃ i, e.invocationId = some i ∧
    g.invocations[i]? = some r ∧ r.workflowId = e.workflowId ∧ r.state.terminal = false := by
  obtain ⟨r',hr,h⟩ := bind_eq_ok.mp h
  obtain ⟨u,hlive,h⟩ := bind_eq_ok.mp h
  cases h
  obtain ⟨i,hi,-,hget,hw⟩ := eventInvocation_eq_ok.mp hr
  exact ⟨i,hi,hget,hw,ensureNotTerminal_eq_ok.mp hlive⟩

theorem liveInvocation_of (h : g.eventInvocation e = .ok r) (hlive : r.state.terminal = false) :
    g.liveInvocation e = .ok r :=
  bind_eq_ok.mpr ⟨r,h,bind_eq_ok.mpr ⟨(),ensureNotTerminal_eq_ok.mpr hlive,rfl⟩⟩

/-- A handler that puts the live invocation of its event in another state. -/
theorem Simulates.drive (hg : g.WellFormed) {state : InvocationState}
    (hr : g.liveInvocation e = .ok r) (hst : state.active = true) {h : RuntimeCausalContextGraph}
    (hh : h.WellFormed) (hhinv : h.invocations = g.invocations) (hhjoins : h.joins = g.joins)
    {f : InvocationRecord → InvocationRecord} (hid : KeepsIdentity f)
    (hf : ∀ r, agentOf (f r) = { agentOf r with state := state }) :
    Simulates e g (h.editInvocations {r.invocationId} f) := by
  obtain ⟨i,hi,hget,hw,hlive⟩ := liveInvocation_eq_ok hr
  rw [hg.keyed i r hget]
  refine ⟨hh.edit hid,_,enabled_driveOne hget hlive hst,trivial,view_driveOne (f := f) ?_ hhjoins hf⟩
  rw [← hhinv]
  rfl

variable {x : Handled} {y : Handled × Wakes}

theorem onWorkflowStart_simulates (hg : g.WellFormed) (h : g.onWorkflowStart e = .ok x) :
    Simulates e g x.graph := by
  obtain ⟨u,hnew,h⟩ := bind_eq_ok.mp h
  cases h
  rw [ensure_eq_ok,Dict.notMem_iff_get] at hnew
  refine .idle ⟨hg.keyed,fun i r hr => ?_,fun w y hy i hi => ?_,hg.placed,hg.order_mem,
    hg.order_nodup⟩ rfl rfl
  · obtain ⟨w,hw,hmem⟩ := hg.enrolled i r hr
    have hne : e.workflowId ≠ r.workflowId := fun heq => by
      rw [heq,hw] at hnew
      cases hnew
    exact ⟨w,by rw [Dict.get_insert,if_neg hne,hw],hmem⟩
  · simp only [Dict.get_insert] at hy
    split_ifs at hy
    · cases hy
      simp at hi
    · exact hg.roster w y hy i hi

theorem onWorkflowEnd_simulates (hg : g.WellFormed) (h : g.onWorkflowEnd e = .ok x) (hk : e.kind = .workflowEnd) :
    Simulates e g x.graph := by
  obtain ⟨w,hw,h⟩ := bind_eq_ok.mp h
  cases h
  rw [workflow_eq_ok] at hw
  set f : InvocationRecord → InvocationRecord := fun r =>
    if r.state.terminal = true then r else { r with state := .cancelled, updatedTsMs := e.tsMs } with hf
  have hid : KeepsIdentity f := by
    intro r
    simp only [hf]
    split_ifs <;> exact ⟨rfl,rfl,rfl⟩
  have hwf : (g.editInvocations w.invocationIds f).WellFormed := hg.edit hid
  refine ⟨⟨hwf.keyed,fun i r hr => ?_,fun v y hy i hi => ?_,hwf.placed,hwf.order_mem,
    hwf.order_nodup⟩,.close e.workflowId,trivial,?_,?_⟩
  · obtain ⟨y,hy,hmem⟩ := hwf.enrolled i r hr
    simp only [Dict.get_insert]
    split_ifs with heq
    · cases (heq ▸ hw : g.workflows[r.workflowId]? = some w).symm.trans hy
      exact ⟨_,rfl,hmem⟩
    · exact ⟨y,hy,hmem⟩
  · simp only [Dict.get_insert] at hy
    split_ifs at hy with heq
    · cases hy
      exact heq ▸ hwf.roster _ w hw i hi
    · exact hwf.roster v y hy i hi
  · simp [Fits,ending,hk]
  · -- The roster of the workflow holds exactly its invocations.
    refine view_eq_next_of_edit rfl rfl (fun k r hr => ?_) (fun _ => rfl) (fun _ _ => rfl)
      (fun _ => rfl)
    have hmem : k ∈ w.invocationIds ↔ r.workflowId = e.workflowId := by
      constructor
      · intro hk
        obtain ⟨q,hq,hqw⟩ := hg.roster _ w hw k hk
        cases hr.symm.trans hq
        exact hqw
      · intro hrw
        obtain ⟨y,hy,hmem⟩ := hg.enrolled k r hr
        rw [hrw,hw] at hy
        cases hy
        exact hmem
    by_cases hrw : r.workflowId = e.workflowId <;> by_cases ht : r.state.terminal = true <;>
      simp [Lifecycle.act,hmem,hf,agentOf,hrw,ht]

theorem WellFormed.insertInvocation (hg : g.WellFormed) (hnew : i ∉ g.invocations)
    {w : WorkflowRecord} (hw : g.workflows[r.workflowId]? = some w) (hid : r.invocationId = i)
    {c : ContextRecord} (hc : c.workflowId = r.workflowId)
    (hold : ∀ y : ContextRecord, g.contexts[r.contextId]? = some y → y.workflowId = r.workflowId) :
    WellFormed { g with
      invocations := g.invocations.insert i r
      invocationOrder := g.invocationOrder ++ [i]
      workflows := g.workflows.insert r.workflowId { w with
        invocationIds := insert i w.invocationIds }
      contexts := g.contexts.insert r.contextId c } := by
  have hne {k : String} {q : InvocationRecord} (h : g.invocations[k]? = some q) : i ≠ k := by
    rintro rfl
    exact hnew ((Dict.mem_iff_get _ _).mpr ⟨q,h⟩)
  refine ⟨fun k q hq => ?_,fun k q hq => ?_,fun v y hy k hk => ?_,fun k q hq => ?_,hg.order_mem,
    hg.order_nodup⟩
  · simp only [Dict.get_insert] at hq
    split_ifs at hq with hk
    · cases hq
      exact hid.trans hk
    · exact hg.keyed k q hq
  · simp only [Dict.get_insert] at hq ⊢
    split_ifs at hq with hk
    · cases hq
      exact ⟨_,if_pos rfl,by simp [hk]⟩
    · obtain ⟨y,hy,hmem⟩ := hg.enrolled k q hq
      split_ifs with hwq
      · rw [← hwq,hw] at hy
        cases hy
        exact ⟨_,rfl,Finset.mem_insert_of_mem hmem⟩
      · exact ⟨y,hy,hmem⟩
  · simp only [Dict.get_insert] at hy ⊢
    split_ifs at hy with hv
    · cases hy
      rcases Finset.mem_insert.mp hk with rfl | hk
      · exact ⟨r,if_pos rfl,hv⟩
      · obtain ⟨q,hq,hqw⟩ := hg.roster _ w hw k hk
        exact ⟨q,by rw [if_neg (hne hq),hq],hqw.trans hv⟩
    · obtain ⟨q,hq,hqw⟩ := hg.roster v y hy k hk
      exact ⟨q,by rw [if_neg (hne hq),hq],hqw⟩
  · simp only [Dict.get_insert] at hq ⊢
    split_ifs at hq with hk
    · cases hq
      exact ⟨c,if_pos rfl,hc⟩
    · obtain ⟨y,hy,hyw⟩ := hg.placed k q hq
      split_ifs with hcq
      · rw [← hcq] at hy
        exact ⟨c,rfl,by rw [hc,← hold y hy,hyw]⟩
      · exact ⟨y,hy,hyw⟩

/-- The context a new invocation enters belongs to its workflow. -/
theorem enteredContext_eq_ok {c : String} {pc : Option String} {y : ContextRecord}
    (h : g.enteredContext e c pc = .ok y) : y.workflowId = e.workflowId ∧
      ∀ z : ContextRecord, g.contexts[c]? = some z → z.workflowId = e.workflowId := by
  unfold enteredContext at h
  cases hz : g.contexts[c]? with
  | none =>
    simp only [hz,Except.ok.injEq] at h
    subst h
    exact ⟨rfl,by simp⟩
  | some z =>
    simp only [hz] at h
    obtain ⟨u,-,h⟩ := bind_eq_ok.mp h
    obtain ⟨u',hw,h⟩ := bind_eq_ok.mp h
    cases h
    rw [ensure_eq_ok] at hw
    refine ⟨hw,fun z' hz' => ?_⟩
    cases hz'
    exact hw

theorem onInvocationCreate_simulates (hg : g.WellFormed) (h : g.onInvocationCreate e = .ok x) :
    Simulates e g x.graph := by
  obtain ⟨w,hw,h⟩ := bind_eq_ok.mp h
  obtain ⟨i,hi,h⟩ := bind_eq_ok.mp h
  obtain ⟨c,hc,h⟩ := bind_eq_ok.mp h
  obtain ⟨u,hnew,h⟩ := bind_eq_ok.mp h
  obtain ⟨pc,hpc,h⟩ := bind_eq_ok.mp h
  obtain ⟨y,hy,h⟩ := bind_eq_ok.mp h
  cases h
  rw [workflow_eq_ok] at hw
  rw [ensure_eq_ok] at hnew
  obtain ⟨hyw,hold⟩ := enteredContext_eq_ok hy
  set r := newInvocation e i c pc y.persistent with hr
  refine ⟨hg.insertInvocation (r := r) hnew hw rfl hyw hold,.enter i (agentOf r),⟨?_,rfl,rfl⟩,
    (requireId_eq_ok.mp hi).2,view_eq_next (fun k q hq => ?_) (fun k hk => ?_) (fun j q hj => hj) (fun j hj => hj)⟩
  · simp [view,(Dict.notMem_iff_get _ _).mp hnew]
  · have hne : i ≠ k := by
      rintro rfl
      exact hnew ((Dict.mem_iff_get _ _).mpr ⟨q,hq⟩)
    simp [Dict.get_insert,hne,hq,Lifecycle.act]
  · simp only [Dict.get_insert,Move.newcomer]
    by_cases hik : i = k
    · simp [hik]
    · simp [hik,Ne.symm hik,hk]

/-- A handler that changes nothing of any lifecycle. -/
theorem Simulates.quiet {h : RuntimeCausalContextGraph} (hh : h.WellFormed)
    (hinv : h.invocations = g.invocations) (hjoins : h.joins = g.joins) {ids : Finset String}
    {f : InvocationRecord → InvocationRecord} (hid : KeepsIdentity f)
    (hf : ∀ r, agentOf (f r) = agentOf r) : Simulates e g (h.editInvocations ids f) := by
  have hedit : (h.editInvocations ids f).invocations = g.invocations.updateAll ids f := by
    rw [← hinv]
    rfl
  refine ⟨hh.edit hid,_,enabled_idle _,trivial,view_eq_next_of_edit hedit hjoins
    (fun k r _ => ?_) (fun _ => rfl) (fun _ _ => rfl) (fun _ => rfl)⟩
  · split_ifs
    · exact hf r
    · rfl

theorem onContextAdvance_simulates (hg : g.WellFormed) (h : g.onContextAdvance e = .ok x) :
    Simulates e g x.graph := by
  obtain ⟨r,hr,h⟩ := bind_eq_ok.mp h
  obtain ⟨u,-,h⟩ := bind_eq_ok.mp h
  obtain ⟨t,ht,h⟩ := bind_eq_ok.mp h
  cases h
  obtain ⟨hwf,hjoins,hinv⟩ := hg.touchContext ht
  exact .quiet hwf hinv hjoins (fun _ => ⟨rfl,rfl,rfl⟩) (fun _ => rfl)

theorem onContextCompact_simulates (hg : g.WellFormed) (h : g.onContextCompact e = .ok x) :
    Simulates e g x.graph := by
  obtain ⟨r,hr,h⟩ := bind_eq_ok.mp h
  obtain ⟨u,-,h⟩ := bind_eq_ok.mp h
  obtain ⟨y,-,h⟩ := bind_eq_ok.mp h
  obtain ⟨u,-,h⟩ := bind_eq_ok.mp h
  obtain ⟨u,-,h⟩ := bind_eq_ok.mp h
  obtain ⟨t,ht,h⟩ := bind_eq_ok.mp h
  cases h
  obtain ⟨hwf,hjoins,hinv⟩ := hg.touchContext ht
  exact .quiet hwf hinv hjoins (fun _ => ⟨rfl,rfl,rfl⟩) (fun _ => rfl)

theorem onStructuredAction_simulates (hg : g.WellFormed) (h : g.onStructuredAction e = .ok x) :
    Simulates e g x.graph := by
  obtain ⟨r,hr,h⟩ := bind_eq_ok.mp h
  obtain ⟨y,-,h⟩ := bind_eq_ok.mp h
  obtain ⟨u,-,h⟩ := bind_eq_ok.mp h
  cases h
  exact .idle hg rfl rfl

theorem onCallCensored_simulates (hg : g.WellFormed) (h : g.onCallCensored e = .ok x) :
    Simulates e g x.graph := by
  unfold onCallCensored at h
  split at h
  · cases h
    exact .idle hg rfl rfl
  · obtain ⟨r,-,h⟩ := bind_eq_ok.mp h
    cases h
    exact .idle hg rfl rfl

theorem keepsIdentity_linkedChild (q : InvocationRecord) (mode : ExecutionMode) :
    KeepsIdentity (linkedChild e q mode) := fun _ => ⟨rfl,rfl,rfl⟩

theorem keepsIdentity_linkedParent (c : String) (mode : ExecutionMode) :
    KeepsIdentity (linkedParent e c mode) := by
  intro r
  unfold linkedParent
  dsimp only
  split_ifs <;> exact ⟨rfl,rfl,rfl⟩

theorem orElse_some (y : Option String) {s : String} : orElse (orElse y (some s)) (some s) =
    orElse y (some s) := by
  cases y with
  | none => simp [orElse]
  | some t => by_cases ht : t = "" <;> simp [orElse,ht]

theorem linkChild_simulates {mode : ExecutionMode} (hg : g.WellFormed)
    (h : g.linkChild e mode = .ok x) : Simulates e g x.graph := by
  obtain ⟨p,hp,h⟩ := bind_eq_ok.mp h
  obtain ⟨c,hc,h⟩ := bind_eq_ok.mp h
  obtain ⟨q,hq,h⟩ := bind_eq_ok.mp h
  obtain ⟨u,hlive,h⟩ := bind_eq_ok.mp h
  obtain ⟨u,hne,h⟩ := bind_eq_ok.mp h
  obtain ⟨b,-,h⟩ := bind_eq_ok.mp h
  obtain ⟨u,-,h⟩ := bind_eq_ok.mp h
  obtain ⟨u,-,h⟩ := bind_eq_ok.mp h
  cases h
  rw [ensure_eq_ok] at hlive hne
  obtain ⟨i,hi,-,hget,hpw⟩ := eventInvocation_eq_ok.mp hp
  obtain ⟨hcget,hqw⟩ := invocation_eq_ok.mp hq
  have hpid := hg.keyed i p hget
  have hqid := hg.keyed c q hcget
  rw [hpid,hqid] at hne
  rw [hpid]
  refine ⟨(hg.edit (keepsIdentity_linkedChild _ _)).edit (keepsIdentity_linkedParent _ _),
    .attach i c (orElse e.returnTargetId (some i)) (decide (e.executionMode.getD mode = .foreground)),
    ⟨hne,⟨_,view_agent hget,hlive.1⟩,⟨_,view_agent hcget,hlive.2⟩,?_⟩,trivial,
    view_eq_next (fun k r hk => ?_) (fun k hk => ?_) (fun j r hj => hj) (fun j hj => hj)⟩
  · simp [view_agent hget,view_agent hcget,agentOf,hpw,hqw]
  · simp only [editInvocations,Dict.get_updateAll,Finset.mem_singleton,hk,Lifecycle.act]
    by_cases hkc : k = c
    · subst hkc
      simp [Ne.symm hne,agentOf,linkedChild,hpid,orElse_some]
    · by_cases hki : k = i
      · subst hki
        by_cases hm : e.executionMode.getD mode = .foreground <;>
          simp [hne,agentOf,linkedParent,hm]
      · simp [hkc,hki]
  · simp [editInvocations,Dict.get_updateAll,hk,Move.newcomer]

theorem deliverMessage_simulates {handoff : Bool} (hg : g.WellFormed)
    (h : g.deliverMessage e handoff = .ok x) : Simulates e g x.graph := by
  obtain ⟨p,hp,h⟩ := bind_eq_ok.mp h
  obtain ⟨t,ht,h⟩ := bind_eq_ok.mp h
  obtain ⟨q,hq,h⟩ := bind_eq_ok.mp h
  obtain ⟨u,hlive,h⟩ := bind_eq_ok.mp h
  rw [ensure_eq_ok] at hlive
  obtain ⟨i,hi,-,hget,hpw⟩ := eventInvocation_eq_ok.mp hp
  obtain ⟨htget,hqw⟩ := invocation_eq_ok.mp hq
  have hpid := hg.keyed i p hget
  simp only [hpid] at h
  set f : InvocationRecord → InvocationRecord := fun r => { r with
    pendingMessages := r.pendingMessages + 1, state := .ready, updatedTsMs := e.tsMs } with hf
  set d : RuntimeCausalContextGraph := { g.editInvocations {t} f with
    communicationEdges := g.communicationEdges.insert (i,t) (g.messageEdge e i t) } with hd
  have hdwf : d.WellFormed := hg.of_edit (f := f) (fun _ => ⟨rfl,rfl,rfl⟩)
    (show d.invocations = g.invocations.updateAll {t} f from rfl) rfl
    (fun _ y hy => ⟨y,hy,rfl⟩) (fun _ => Iff.rfl) rfl
  have hdget (k : String) : d.invocations[k]? = if k = t then g.invocations[k]?.map f
      else g.invocations[k]? := by
    simp [hd,editInvocations,Dict.get_updateAll]
  cases h
  dsimp only
  split_ifs with hpark
  · -- A handoff is a delivery followed by the source parking itself.
    obtain ⟨-,hsrc⟩ := hpark
    have hsrclive : p.state.terminal = false ∨ i = t := by
      by_cases hit : i = t
      · exact .inr hit
      · rw [hdget,if_neg hit,hget] at hsrc
        exact .inl (by simpa using hsrc)
    refine ⟨hdwf.edit fun _ => ⟨rfl,rfl,rfl⟩,
      .drive (fun k => if k = i then some .waitMessage else if k = t then some .ready else none),
      fun k st hk => ?_,trivial,view_eq_next (fun k r hk => ?_) (fun k hk => ?_) (fun _ _ hj => hj)
      (fun _ hj => hj)⟩
    · dsimp only at hk
      split_ifs at hk with hki hkt
      · cases hk
        subst hki
        rcases hsrclive with hl | rfl
        · exact ⟨⟨_,view_agent hget,hl⟩,rfl⟩
        · exact ⟨⟨_,view_agent htget,hlive⟩,rfl⟩
      · cases hk
        subst hkt
        exact ⟨⟨_,view_agent htget,hlive⟩,rfl⟩
    · simp only [setState,editInvocations,Dict.get_updateAll,Finset.mem_singleton,hdget,hk,
        Lifecycle.act]
      split_ifs <;> rfl
    · simp [setState,editInvocations,Dict.get_updateAll,hdget,hk,Move.newcomer]
  · exact ⟨hdwf,_,enabled_driveOne htget hlive rfl,trivial,
      view_driveOne (f := f) rfl rfl fun _ => rfl⟩

theorem onReactivate_simulates (hg : g.WellFormed) (h : g.onReactivate e = .ok x) :
    Simulates e g x.graph := by
  obtain ⟨r,hr,h⟩ := bind_eq_ok.mp h
  obtain ⟨u,-,h⟩ := bind_eq_ok.mp h
  cases h
  exact .drive hg hr rfl hg rfl rfl (fun _ => ⟨rfl,rfl,rfl⟩) (fun _ => rfl)

theorem onToolStart_simulates (hg : g.WellFormed) (h : g.onToolStart e = .ok x) :
    Simulates e g x.graph := by
  obtain ⟨r,hr,h⟩ := bind_eq_ok.mp h
  cases h
  exact .drive hg hr rfl hg rfl rfl (fun _ => ⟨rfl,rfl,rfl⟩) (fun _ => rfl)

theorem onToolEnd_simulates (hg : g.WellFormed) (h : g.onToolEnd e = .ok x) :
    Simulates e g x.graph := by
  obtain ⟨r,hr,h⟩ := bind_eq_ok.mp h
  cases h
  exact .drive hg hr rfl hg rfl rfl (fun _ => ⟨rfl,rfl,rfl⟩) (fun _ => rfl)

/-! ## Completions -/

section Completion
variable {tsMs : ℚ} {ws : Wakes}

/-- A woken record. -/
def wokenRecord (tsMs : ℚ) (r : InvocationRecord) : InvocationRecord :=
  if r.state = .waitJoin then { r with state := .ready, updatedTsMs := tsMs } else r

/-- Join `j` fires when `i` completes, and has `k` as a waiter. -/
def FiresFor (g : RuntimeCausalContextGraph) (i j k : String) : Prop :=
  ∃ q : JoinRecord, g.joins[j]? = some q ∧ q.FiredBy i ∧ k ∈ q.waiterInvocationIds

/-- The graphs differ in their joins and invocations only. -/
def SameElsewhere (g g' : RuntimeCausalContextGraph) : Prop :=
  g' = { g with joins := g'.joins, invocations := g'.invocations }

/-- What one round of the loop over the joins does. -/
structure RoundSpec (g : RuntimeCausalContextGraph) (i j : String) (tsMs : ℚ)
    (ws : Wakes)
    (res : RuntimeCausalContextGraph × Wakes) : Prop where
  frame : SameElsewhere g res.1
  joins : ∀ k : String, res.1.joins[k]? =
    if k = j then g.joins[k]?.map (·.complete i) else g.joins[k]?
  invocations : ∀ k : String, res.1.invocations[k]? = g.invocations[k]?.map fun r =>
    if g.FiresFor i j k then wokenRecord tsMs r else r
  wakes : res.2 = ws ∨ ∃ q : JoinRecord, g.joins[j]? = some q ∧ q.FiredBy i ∧
    res.2 = ws ++ [(j,g.wakeable q)]

theorem completeJoin_spec (g : RuntimeCausalContextGraph) (i j : String) (tsMs : ℚ)
    (ws : Wakes) :
    RoundSpec g i j tsMs ws (completeJoin i tsMs (g,ws) j) := by
  unfold completeJoin
  cases hj : g.joins[j]? with
  | none =>
    have hno (k : String) : ¬ g.FiresFor i j k := by
      rintro ⟨q,hq,-⟩
      simp [hj] at hq
    refine ⟨rfl,fun k => ?_,fun k => by simp [hno],.inl rfl⟩
    split_ifs with hk
    · subst hk
      simp [hj]
    · rfl
  | some q =>
    have hfires (k : String) : g.FiresFor i j k ↔ q.FiredBy i ∧ k ∈ q.waiterInvocationIds := by
      simp [FiresFor,hj]
    dsimp only
    by_cases hi : i ∈ q.memberInvocationIds
    · rw [if_neg (not_not.mpr hi)]
      by_cases hsat : joinIsSatisfied { q with
          completedMemberIds := insert i q.completedMemberIds } = true
      · rw [if_pos hsat]
        have hcomplete : q.complete i = { q with
            completedMemberIds := insert i q.completedMemberIds, satisfied := true } := by
          simp [JoinRecord.complete,hi,hsat]
        refine ⟨rfl,fun k => ?_,fun k => ?_,.inr ⟨q,hj,⟨hi,hsat⟩,rfl⟩⟩
        · simp only [wakeJoinWaiters,editInvocations,Dict.get_insert]
          by_cases hk : k = j
          · simp [hk,hj,hcomplete]
          · simp [hk,Ne.symm hk]
        · simp only [wakeJoinWaiters,editInvocations,Dict.get_updateAll,hfires]
          by_cases hk : k ∈ q.waiterInvocationIds
          · simp only [show q.FiredBy i from ⟨hi,hsat⟩,and_self,if_true,hk]
            rfl
          · simp [hk]
      · rw [if_neg hsat]
        have hnot : ¬ q.FiredBy i := fun hf => hsat hf.2
        refine ⟨rfl,fun k => ?_,fun k => by simp [hfires,hnot],.inl rfl⟩
        simp only [Dict.get_insert]
        by_cases hk : k = j
        · simp [hk,hj,Lifecycle.complete_of_not_fired i hnot,hi]
        · simp [hk,Ne.symm hk]
    · rw [if_pos hi]
      have hnot : ¬ q.FiredBy i := fun hf => hi hf.1
      refine ⟨rfl,fun k => ?_,fun k => by simp [hfires,hnot],.inl rfl⟩
      split_ifs with hk
      · subst hk
        simp [hj,Lifecycle.complete_of_not_fired i hnot,hi]
      · rfl

/-- What the whole loop does, and in which order its joins wake their waiters. -/
structure LoopSpec (g : RuntimeCausalContextGraph) (i : String) (tsMs : ℚ) (order : List String)
    (ws : Wakes)
    (res : RuntimeCausalContextGraph × Wakes) : Prop where
  frame : SameElsewhere g res.1
  joins : ∀ k : String, res.1.joins[k]? =
    if k ∈ order then g.joins[k]?.map (·.complete i) else g.joins[k]?
  invocations : ∀ k : String, res.1.invocations[k]? = g.invocations[k]?.map fun r =>
    if ∃ j ∈ order, g.FiresFor i j k then wokenRecord tsMs r else r
  wakes : ∀ j awakened, (j,awakened) ∈ res.2 → (j,awakened) ∈ ws ∨
    ∃ before after, order = before ++ j :: after ∧ ∀ k ∈ awakened, g.FiresFor i j k ∧
      (∃ r : InvocationRecord, g.invocations[k]? = some r ∧ r.state = .waitJoin) ∧
      ∀ j' ∈ before, ¬ g.FiresFor i j' k

theorem keepsIdentity_wokenRecord (tsMs : ℚ) : KeepsIdentity (wokenRecord tsMs) := by
  intro r
  unfold wokenRecord
  split_ifs <;> exact ⟨rfl,rfl,rfl⟩

theorem wokenRecord_wokenRecord (tsMs : ℚ) (r : InvocationRecord) :
    wokenRecord tsMs (wokenRecord tsMs r) = wokenRecord tsMs r := by
  unfold wokenRecord
  split_ifs <;> simp_all

theorem completeJoins_spec {order : List String} (hnodup : order.Nodup)
    (g : RuntimeCausalContextGraph) (ws : Wakes) :
    LoopSpec g i tsMs order ws (order.foldl (completeJoin i tsMs) (g,ws)) := by
  induction order generalizing g ws with
  | nil => exact ⟨rfl,by simp,by simp,fun _ _ h => .inl h⟩
  | cons j order ih =>
    obtain ⟨hj,hnodup⟩ := List.nodup_cons.mp hnodup
    have hround := completeJoin_spec g i j tsMs ws
    set mid := completeJoin i tsMs (g,ws) j with hmid
    have hloop := ih hnodup mid.1 mid.2
    rw [List.foldl_cons,← hmid]
    -- The rest of the loop finds its joins as they were.
    have hsame (j' : String) (hj' : j' ∈ order) (k : String) :
        mid.1.FiresFor i j' k ↔ g.FiresFor i j' k := by
      have hne : j' ≠ j := fun h => hj (h ▸ hj')
      simp only [FiresFor,hround.joins,if_neg hne]
    refine ⟨?_,fun k => ?_,fun k => ?_,fun j' aw haw => ?_⟩
    · have h₁ := hround.frame
      have h₂ := hloop.frame
      unfold SameElsewhere at *
      rw [h₂,h₁]
    · rw [hloop.joins,hround.joins]
      by_cases hk : k = j
      · subst hk
        simp [hj]
      · simp [hk]
    · rw [hloop.invocations,hround.invocations,Option.map_map]
      congr 1
      funext r
      have hrest : (∃ j' ∈ order, mid.1.FiresFor i j' k) ↔ ∃ j' ∈ order, g.FiresFor i j' k := by
        constructor <;> rintro ⟨j',hj',hf⟩
        · exact ⟨j',hj',(hsame j' hj' k).mp hf⟩
        · exact ⟨j',hj',(hsame j' hj' k).mpr hf⟩
      simp only [Function.comp_apply,hrest,List.mem_cons,exists_eq_or_imp]
      by_cases h₁ : g.FiresFor i j k <;> by_cases h₂ : ∃ j' ∈ order, g.FiresFor i j' k <;>
        simp [h₁,h₂,wokenRecord_wokenRecord]
    · rcases hloop.wakes j' aw haw with haw | ⟨before,after,horder,hall⟩
      · rcases hround.wakes with heq | ⟨q,hq,hf,heq⟩
        · exact .inl (heq ▸ haw)
        · rw [heq,List.mem_append,List.mem_singleton] at haw
          rcases haw with haw | haw
          · exact .inl haw
          · right
            obtain ⟨rfl,rfl⟩ := Prod.mk.inj haw
            refine ⟨[],order,rfl,fun k hk => ?_⟩
            obtain ⟨hmem,hst⟩ := Finset.mem_filter.mp hk
            refine ⟨⟨q,hq,hf,hmem⟩,?_,by simp⟩
            cases hr : g.invocations[k]? with
            | none => simp [hr] at hst
            | some r => exact ⟨r,rfl,by simpa [hr] using hst⟩
      · right
        refine ⟨j :: before,after,by rw [horder]; rfl,fun k hk => ?_⟩
        obtain ⟨hfire,⟨r,hr,hst⟩,hbefore⟩ := hall k hk
        have hin : j' ∈ order := by simp [horder]
        rw [hround.invocations] at hr
        obtain ⟨r₀,hr₀,hrr⟩ := Option.map_eq_some_iff.mp hr
        have hfresh : ¬ g.FiresFor i j k := by
          intro hf
          rw [if_pos hf] at hrr
          subst hrr
          unfold wokenRecord at hst
          split_ifs at hst
          simp_all
        rw [if_neg hfresh] at hrr
        subst hrr
        refine ⟨(hsame j' hin k).mp hfire,⟨r₀,hr₀,hst⟩,?_⟩
        intro j'' hj''
        rcases List.mem_cons.mp hj'' with rfl | hj''
        · exact hfresh
        · exact fun hf => hbefore j'' hj'' ((hsame j'' (by simp [horder,hj'']) k).mpr hf)

theorem editInvocations_missing {f : InvocationRecord → InvocationRecord}
    (h : g.invocations[i]? = none) : g.editInvocations {i} f = g := by
  have hsame : g.invocations.updateAll {i} f = g.invocations := by
    apply Dict.ext_get
    intro k
    rw [Dict.get_updateAll]
    split_ifs with hk
    · rw [Finset.mem_singleton.mp hk,h]
      rfl
    · rfl
  rw [editInvocations,hsame]

/-- The return target drops the completed child. -/
theorem releaseParent_spec (g : RuntimeCausalContextGraph) (r : InvocationRecord) (tsMs : ℚ) :
    ∃ f, KeepsIdentity f ∧ (g.releaseParent r tsMs).1 =
        g.editInvocations (orElse r.returnTargetId r.parentInvocationId).toFinset f ∧
      ∀ (k : String) (q : InvocationRecord), orElse r.returnTargetId r.parentInvocationId = some k →
        g.invocations[k]? = some q → agentOf (f q) = Lifecycle.release r.invocationId (agentOf q) := by
  unfold releaseParent
  cases ht : orElse r.returnTargetId r.parentInvocationId with
  | none =>
    refine ⟨id,fun _ => ⟨rfl,rfl,rfl⟩,?_,by simp⟩
    have hsame : g.invocations.updateAll ∅ id = g.invocations := by
      apply Dict.ext_get
      simp [Dict.get_updateAll]
    simp [editInvocations,hsame]
  | some t =>
    simp only [Option.toFinset_some]
    cases hp : g.invocations[t]? with
    | none =>
      refine ⟨id,fun _ => ⟨rfl,rfl,rfl⟩,(editInvocations_missing hp).symm,fun k q hk hq => ?_⟩
      cases hk
      simp [hp] at hq
    | some p =>
      simp only
      split_ifs with hready
      · refine ⟨_,?_,rfl,fun k q hk hq => ?_⟩
        · exact fun _ => ⟨rfl,rfl,rfl⟩
        cases hk
        cases hp.symm.trans hq
        simp [agentOf,Lifecycle.release,hready.1,hready.2.1]
      · refine ⟨_,?_,rfl,fun k q hk hq => ?_⟩
        · exact fun _ => ⟨rfl,rfl,rfl⟩
        cases hk
        cases hp.symm.trans hq
        have hstay : ¬ (p.state = .waitChild ∧ p.blockingChildIds.erase r.invocationId = ∅) := by
          rintro ⟨h₁,h₂⟩
          exact hready ⟨h₁,h₂,by simp [h₁,InvocationState.terminal]⟩
        simp [agentOf,Lifecycle.release,hstay]

/-- The end of an invocation is one move, and its wakes come in the order of the joins. -/
theorem finishInvocation_spec (hg : g.WellFormed) (hget : g.invocations[i]? = some r)
    {st : InvocationState} (hst : st.terminal = true) :
    (g.finishInvocation e r st).1.WellFormed ∧
      (g.finishInvocation e r st).1.view = g.view.next (.finish i st) ∧
      ∀ j awakened, (j,awakened) ∈ (g.finishInvocation e r st).2.2 →
        ∃ before after, g.joinOrder = before ++ j :: after ∧ ∀ k ∈ awakened, g.FiresFor i j k ∧
          (∃ q : InvocationRecord, g.invocations[k]? = some q ∧ q.state = .waitJoin) ∧
          ∀ j' ∈ before, ¬ g.FiresFor i j' k := by
  have hid := hg.keyed i r hget
  obtain ⟨f,hf,hrel,hagent⟩ := releaseParent_spec (g.setState r.invocationId st e.tsMs) r e.tsMs
  rw [hid] at hrel hagent
  set t := orElse r.returnTargetId r.parentInvocationId with htdef
  set g₁ := g.setState i st e.tsMs with hg₁
  have hwf₁ : g₁.WellFormed := hg.edit fun _ => ⟨rfl,rfl,rfl⟩
  have hwf₂ : (g₁.editInvocations t.toFinset f).WellFormed := hwf₁.edit hf
  set g₂ := g₁.editInvocations t.toFinset f with hg₂
  have hloop : LoopSpec g₂ i e.tsMs g.joinOrder []
      (g.joinOrder.foldl (completeJoin i e.tsMs) (g₂,[])) := completeJoins_spec hg.order_nodup g₂ []
  have hfin : (g.finishInvocation e r st).1 =
      (g.joinOrder.foldl (completeJoin i e.tsMs) (g₂,[])).1 ∧
      (g.finishInvocation e r st).2.2 =
        (g.joinOrder.foldl (completeJoin i e.tsMs) (g₂,[])).2 := by
    simp only [finishInvocation,completeDependencies,hid,hrel,← hg₁]
    exact ⟨rfl,rfl⟩
  rw [hfin.1,hfin.2]
  set res := g.joinOrder.foldl (completeJoin i e.tsMs) (g₂,[])
  have hframe := hloop.frame
  have hfires (j k : String) : g₂.FiresFor i j k ↔ g.FiresFor i j k := Iff.rfl
  have hwoken (k : String) : (∃ j ∈ g.joinOrder, g₂.FiresFor i j k) ↔ g.view.WokenBy i k := by
    constructor
    · rintro ⟨j,-,q,hq,hfq,hk⟩
      exact ⟨j,q,hq,hfq,hk⟩
    · rintro ⟨j,q,hq,hfq,hk⟩
      exact ⟨j,(hg.order_mem j).mpr ((Dict.mem_iff_get _ _).mpr ⟨q,hq⟩),q,hq,hfq,hk⟩
  refine ⟨?_,view_eq_next (fun k q hk => ?_) (fun k hk => ?_) (fun j q hj => ?_) (fun j hj => ?_),?_⟩
  · refine hwf₂.of_map (f := fun k r => if ∃ j ∈ g.joinOrder, g₂.FiresFor i j k then
      wokenRecord e.tsMs r else r) (fun k q => ?_) hloop.invocations ?_ ?_ (fun j => ?_) ?_
    · dsimp only
      split_ifs
      · exact keepsIdentity_wokenRecord e.tsMs q
      · exact ⟨rfl,rfl,rfl⟩
    · rw [hframe]
    · rw [hframe]
      exact fun _ y hy => ⟨y,hy,rfl⟩
    · rw [Dict.mem_iff_get,Dict.mem_iff_get,hloop.joins]
      split_ifs <;> cases g₂.joins[j]? <;> simp
    · rw [hframe]
  · have htarget : g.view.targetOf i = t := by
      simp [Lifecycle.targetOf,view_agent hget,agentOf,htdef]
    have hk₁ : g₁.invocations[k]? = some (if k = i then { q with
        state := st, updatedTsMs := e.tsMs } else q) := by
      simp only [hg₁,setState,editInvocations,Dict.get_updateAll,Finset.mem_singleton,hk]
      split_ifs <;> rfl
    have hk₂ : g₂.invocations[k]?.map agentOf = some (if t = some k then
        Lifecycle.release i (if k = i then { agentOf q with state := st } else agentOf q)
        else if k = i then { agentOf q with state := st } else agentOf q) := by
      have hq₁ : agentOf (if k = i then { q with state := st, updatedTsMs := e.tsMs } else q) =
          if k = i then { agentOf q with state := st } else agentOf q := by
        split_ifs <;> rfl
      simp only [hg₂,editInvocations,Dict.get_updateAll,hk₁,Option.mem_toFinset,Option.mem_def]
      by_cases htk : t = some k
      · rw [if_pos htk,if_pos htk,Option.map_some,Option.map_some,hagent k _ htk hk₁,hq₁]
      · rw [if_neg htk,if_neg htk,Option.map_some,hq₁]
    rw [hloop.invocations,Option.map_map]
    obtain ⟨q₂,hq₂,hq₂'⟩ := Option.map_eq_some_iff.mp hk₂
    rw [hq₂,Option.map_some]
    simp only [Function.comp_apply,hwoken,Lifecycle.act,Lifecycle.settle,htarget,← hq₂']
    split_ifs
    · unfold wokenRecord Lifecycle.wake agentOf
      split_ifs <;> simp_all
    · rfl
  · rw [hloop.invocations]
    simp [hg₂,hg₁,setState,editInvocations,Dict.get_updateAll,hk,Move.newcomer]
  · rw [hloop.joins]
    have hmem : j ∈ g.joinOrder := (hg.order_mem j).mpr ((Dict.mem_iff_get _ _).mpr ⟨q,hj⟩)
    rw [if_pos hmem]
    change g.joins[j]?.map _ = _
    rw [hj]
    rfl
  · rw [hloop.joins]
    have hnone : g₂.joins[j]? = none := hj
    split_ifs <;> simp [hnone,Move.newJoin]
  · intro j aw haw
    rcases hloop.wakes j aw haw with h | ⟨before,after,horder,hall⟩
    · simp at h
    · refine ⟨before,after,horder,fun k hk => ?_⟩
      obtain ⟨hfire,⟨q₂,hq₂,hwait⟩,hbefore⟩ := hall k hk
      refine ⟨hfire,?_,hbefore⟩
      -- Neither the end of `i` nor the release of its target puts an invocation in WAIT_JOIN.
      have hq₁ : ∃ q₁ : InvocationRecord, g₁.invocations[k]? = some q₁ ∧ q₁.state = .waitJoin := by
        simp only [hg₂,editInvocations,Dict.get_updateAll,Option.mem_toFinset,Option.mem_def] at hq₂
        split_ifs at hq₂ with htk
        · obtain ⟨q₁,hq₁,rfl⟩ := Option.map_eq_some_iff.mp hq₂
          have hstate : (f q₁).state = (Lifecycle.release i (agentOf q₁)).state :=
            congrArg Agent.state (hagent k q₁ htk hq₁)
          refine ⟨q₁,hq₁,?_⟩
          rw [hwait,Lifecycle.release] at hstate
          by_cases hready : (agentOf q₁).state = .waitChild ∧ (agentOf q₁).blocking.erase i = ∅
          · simp [hready] at hstate
          · rw [if_neg hready] at hstate
            exact hstate.symm
        · exact ⟨q₂,hq₂,hwait⟩
      obtain ⟨q₁,hq₁,hwait₁⟩ := hq₁
      simp only [hg₁,setState,editInvocations,Dict.get_updateAll,Finset.mem_singleton] at hq₁
      split_ifs at hq₁
      · obtain ⟨q,hq,rfl⟩ := Option.map_eq_some_iff.mp hq₁
        simp only at hwait₁
        simp [hwait₁,InvocationState.terminal] at hst
      · exact ⟨q₁,hq₁,hwait₁⟩

end Completion

theorem Simulates.finish (hg : g.WellFormed) (hget : g.invocations[i]? = some r)
    (hlive : r.state.terminal = false) {st : InvocationState} (hst : st.terminal = true)
    (hc : g.finishing e = some i) : Simulates e g (g.finishInvocation e r st).1 := by
  obtain ⟨hwf,hview,-⟩ := finishInvocation_spec (e := e) hg hget hst
  exact ⟨hwf,.finish i st,⟨⟨_,view_agent hget,hlive⟩,hst⟩,hc,hview⟩

theorem onInvocationCancel_simulates (hg : g.WellFormed) (h : g.onInvocationCancel e = .ok y)
    (hk : e.kind = .invocationCancel) : Simulates e g y.1.graph := by
  obtain ⟨r,hr,h⟩ := bind_eq_ok.mp h
  obtain ⟨i,hi,-,hget,-⟩ := eventInvocation_eq_ok.mp hr
  split_ifs at h with hterm
  · cases h
    exact .idle hg rfl rfl
  · cases h
    have hlive := liveInvocation_of hr (by simpa using hterm)
    exact .finish hg hget (by simpa using hterm) rfl
      (by simp [finishing,hk,hlive,Except.toOption,hg.keyed i r hget])

theorem onReturn_simulates (hg : g.WellFormed) (h : g.onReturn e = .ok y)
    (hk : e.kind = .return) : Simulates e g y.1.graph := by
  obtain ⟨r,hr,h⟩ := bind_eq_ok.mp h
  obtain ⟨i,hi,-,hget,-⟩ := eventInvocation_eq_ok.mp hr
  split_ifs at h with hterm
  · cases h
    exact .idle hg rfl rfl
  · cases h
    have hlive := liveInvocation_of hr (by simpa using hterm)
    exact .finish hg hget (by simpa using hterm) rfl
      (by simp [finishing,hk,hlive,Except.toOption,hg.keyed i r hget])

theorem onLlmResult_simulates (hg : g.WellFormed) (h : g.onLlmResult e = .ok y)
    (hk : e.kind = .llmResult) : Simulates e g y.1.graph := by
  obtain ⟨r,hr,h⟩ := bind_eq_ok.mp h
  obtain ⟨t,ht,h⟩ := bind_eq_ok.mp h
  obtain ⟨hwf,hjoins,hinv⟩ := hg.touchContext ht
  split_ifs at h with hterm
  · cases h
    obtain ⟨i,hi,hget,-,hlive⟩ := liveInvocation_eq_ok hr
    have hview : t.view = g.view := by simp [view,hjoins,hinv]
    obtain ⟨hwf',hview',-⟩ := finishInvocation_spec (e := e) hwf (hinv ▸ hget)
      (show InvocationState.done.terminal = true from rfl)
    refine ⟨hwf',.finish i .done,⟨⟨_,view_agent hget,hlive⟩,rfl⟩,?_,hview ▸ hview'⟩
    obtain ⟨c,hc,hv,-⟩ := touchContext_eq_ok ht
    simp [Fits,finishing,hk,hterm,hr,Except.toOption,hc,hv,hg.keyed i r hget]
  · cases h
    exact .drive hg hr rfl hwf hinv hjoins (fun _ => ⟨rfl,rfl,rfl⟩) (fun _ => rfl)

theorem onLlmSubmit_simulates (hg : g.WellFormed) : Simulates e g (g.onLlmSubmit e).graph := by
  unfold onLlmSubmit
  dsimp only
  split
  · exact .idle hg rfl rfl
  · rename_i r t hopen
    obtain ⟨r',hr,hopen⟩ := bind_eq_ok.mp hopen
    obtain ⟨t',ht,hopen⟩ := bind_eq_ok.mp hopen
    cases hopen
    obtain ⟨hwf,hjoins,hinv⟩ := hg.touchContext ht
    have hstart : Simulates e g (t.editInvocations {r.invocationId} fun r => { r with
        state := .runningLlm }) :=
      .drive hg hr rfl hwf hinv hjoins (fun _ => ⟨rfl,rfl,rfl⟩) (fun _ => rfl)
    split
    · exact hstart
    · -- The second write changes nothing of the lifecycle.
      refine hstart.of_eq (hstart.wellFormed.edit fun _ => ⟨rfl,rfl,rfl⟩) ?_
      exact view_edit_eq fun _ => rfl

theorem checkMembers_eq_ok {members : List String} {u : Unit} (h : g.checkMembers e members = .ok u) :
    ∀ i ∈ members, ∃ r : InvocationRecord, g.invocations[i]? = some r ∧
      r.workflowId = e.workflowId := by
  induction members with
  | nil => simp
  | cons member members ih =>
    obtain ⟨r,hr,h⟩ := bind_eq_ok.mp h
    intro i hi
    rcases List.mem_cons.mp hi with rfl | hi
    · exact ⟨r,invocation_eq_ok.mp hr⟩
    · exact ih h i hi

theorem onJoinCreate_simulates (hg : g.WellFormed) (h : g.onJoinCreate e = .ok x) :
    Simulates e g x.graph := by
  obtain ⟨w,-,h⟩ := bind_eq_ok.mp h
  obtain ⟨j,hj,h⟩ := bind_eq_ok.mp h
  obtain ⟨u,hnew,h⟩ := bind_eq_ok.mp h
  obtain ⟨u,hne,h⟩ := bind_eq_ok.mp h
  obtain ⟨u,hmembers,h⟩ := bind_eq_ok.mp h
  obtain ⟨mode,-,h⟩ := bind_eq_ok.mp h
  cases h
  rw [ensure_eq_ok] at hnew hne
  have hmem := checkMembers_eq_ok hmembers
  have hnone : g.joins[j]? = none := (Dict.notMem_iff_get _ _).mp hnew
  refine ⟨⟨hg.keyed,hg.enrolled,hg.roster,hg.placed,fun k => ?_,?_⟩,.openJoin j (g.newJoin e j mode),
    ⟨hnone,hne,rfl,rfl,fun i hi => ?_⟩,trivial,view_eq_next (fun k r hk => ?_) (fun k hk => ?_)
    (fun k q hk => ?_) (fun k hk => ?_)⟩
  · simp only [List.mem_append,List.mem_singleton,Dict.mem_insert_iff,hg.order_mem]
    exact or_comm
  · rw [List.nodup_append]
    refine ⟨hg.order_nodup,List.nodup_singleton j,fun a ha b hb => ?_⟩
    rw [List.mem_singleton.mp hb]
    rintro rfl
    exact hnew ((hg.order_mem a).mp ha)
  · obtain ⟨r,hr,hrw⟩ := hmem i (List.mem_toFinset.mp hi)
    refine ⟨_,view_agent hr,hrw,fun ht => Finset.mem_filter.mpr ⟨hi,?_⟩⟩
    simpa [hr,agentOf] using ht
  · simp [hk,Lifecycle.act]
  · simp [hk,Move.newcomer]
  · have hkj : j ≠ k := by
      rintro rfl
      simp [hnone] at hk
    simp [Dict.get_insert,hkj,hk,Lifecycle.actJoin]
  · simp only [Dict.get_insert,Move.newJoin]
    by_cases hjk : j = k
    · simp [hjk]
    · simp [hjk,Ne.symm hjk,hk]

theorem onJoinWait_simulates (hg : g.WellFormed) (h : g.onJoinWait e = .ok x)
    (hk : e.kind = .joinWait) : Simulates e g x.graph := by
  obtain ⟨r,hr,h⟩ := bind_eq_ok.mp h
  obtain ⟨j,hj,h⟩ := bind_eq_ok.mp h
  obtain ⟨q,hq,h⟩ := bind_eq_ok.mp h
  cases h
  obtain ⟨i,hi,-,hget,-⟩ := eventInvocation_eq_ok.mp hr
  obtain ⟨hjoin,-⟩ := join_eq_ok.mp hq
  have hfit : g.awaiting e = some (i,j) := by
    simp [awaiting,hk,hr,hj,hq,Except.toOption,hg.keyed i r hget]
  rw [hg.keyed i r hget]
  refine ⟨?_,.await i j,⟨⟨_,view_agent hget⟩,q,hjoin⟩,hfit,view_eq_next (fun k p hp => ?_)
    (fun k hp => ?_) (fun k p hp => ?_) (fun k hp => ?_)⟩
  · refine hg.of_edit ?_ (show _ = g.invocations.updateAll {i} _ from rfl) rfl (fun _ y hy => ⟨y,hy,rfl⟩) (fun k => ?_) rfl
    · exact fun _ => ⟨rfl,rfl,rfl⟩
    · refine (Dict.mem_insert_iff _ _ _ _).trans ⟨fun hk => ?_,.inr⟩
      rcases hk with rfl | hk
      · exact (Dict.mem_iff_get _ _).mpr ⟨q,hjoin⟩
      · exact hk
  · simp only [editInvocations,Dict.get_updateAll,Finset.mem_singleton,hp,Lifecycle.act]
    have hsat : (g.view.join j).any JoinRecord.satisfied = q.satisfied := by simp [view,hjoin]
    rw [hsat]
    split_ifs <;> rfl
  · simp [editInvocations,Dict.get_updateAll,hp,Move.newcomer]
  · simp only [editInvocations,Dict.get_insert,Lifecycle.actJoin]
    by_cases hkj : k = j
    · subst hkj
      cases hp.symm.trans hjoin
      simp
    · simp [hkj,Ne.symm hkj,hp]
  · have hkj : j ≠ k := by
      rintro rfl
      simp [hjoin] at hp
    simp [editInvocations,Dict.get_insert,hkj,hp,Move.newJoin]

theorem fireJoin_simulates {sat : Bool} (hg : g.WellFormed) (h : g.fireJoin e sat = .ok y)
    (hk : e.kind = .joinSatisfied ∨ e.kind = .joinTimeout) : Simulates e g y.1.graph := by
  obtain ⟨j,hj,h⟩ := bind_eq_ok.mp h
  obtain ⟨q,hq,h⟩ := bind_eq_ok.mp h
  cases h
  obtain ⟨hjoin,-⟩ := join_eq_ok.mp hq
  have hfit : g.firing e = some j := by
    rcases hk with hk | hk <;> simp [firing,hk,hj,hq,Except.toOption]
  refine ⟨?_,.fire j sat,⟨q,hjoin⟩,hfit,view_eq_next (fun k p hp => ?_)
    (fun k hp => ?_) (fun k p hp => ?_) (fun k hp => ?_)⟩
  · refine hg.of_edit (keepsIdentity_wokenRecord e.tsMs)
      (show _ = g.invocations.updateAll q.waiterInvocationIds _ from rfl) rfl
      (fun _ y hy => ⟨y,hy,rfl⟩) (fun k => ?_) rfl
    refine (Dict.mem_insert_iff _ _ _ _).trans ⟨fun hk => ?_,.inr⟩
    rcases hk with rfl | hk
    · exact (Dict.mem_iff_get _ _).mpr ⟨q,hjoin⟩
    · exact hk
  · simp only [wakeJoinWaiters,editInvocations,Dict.get_updateAll,hp,Lifecycle.act]
    have hany : (g.view.join j).any (fun r => decide (k ∈ r.waiterInvocationIds)) =
        decide (k ∈ q.waiterInvocationIds) := by simp [view,hjoin]
    rw [hany]
    by_cases hw : k ∈ q.waiterInvocationIds
    · simp only [hw,decide_true,if_true,Option.map_some]
      unfold Lifecycle.wake agentOf
      split_ifs <;> simp_all
    · simp [hw]
  · simp [wakeJoinWaiters,editInvocations,Dict.get_updateAll,hp,Move.newcomer]
  · simp only [wakeJoinWaiters,editInvocations,Dict.get_insert,Lifecycle.actJoin]
    by_cases hkj : k = j
    · subst hkj
      cases hp.symm.trans hjoin
      simp
    · simp [hkj,Ne.symm hkj,hp]
  · have hkj : j ≠ k := by
      rintro rfl
      simp [hjoin] at hp
    simp [wakeJoinWaiters,editInvocations,Dict.get_insert,hkj,hp,Move.newJoin]

/-! ## Calls -/

theorem simulates_ofHandled (hg : g.WellFormed) {y : Except Raised Handled}
    (h : ∀ x, y = .ok x → Simulates e g x.graph) : Simulates e g (Outcome.ofHandled g y).graph := by
  cases y with
  | error _ => exact .idle hg rfl rfl
  | ok x => exact h x rfl

theorem simulates_ofFiring (hg : g.WellFormed) {z : Except Raised (Handled × Wakes)}
    (h : ∀ y, z = .ok y → Simulates e g y.1.graph) : Simulates e g (Outcome.ofFiring g z).graph := by
  cases z with
  | error _ => exact .idle hg rfl rfl
  | ok y => exact h y rfl

theorem handle_simulates (hg : g.WellFormed) (e : RuntimeEvent) :
    Simulates e g (g.handle e).graph := by
  unfold handle
  split
  case h_1 => exact simulates_ofHandled hg fun _ h => onWorkflowStart_simulates hg h
  case h_2 hk => exact simulates_ofHandled hg fun _ h => onWorkflowEnd_simulates hg h hk
  case h_3 => exact simulates_ofHandled hg fun _ h => onInvocationCreate_simulates hg h
  case h_4 hk => exact simulates_ofFiring hg fun _ h => onInvocationCancel_simulates hg h hk
  case h_5 => exact simulates_ofHandled hg fun _ h => onContextAdvance_simulates hg h
  case h_6 => exact simulates_ofHandled hg fun _ h => onContextCompact_simulates hg h
  case h_7 => exact simulates_ofHandled hg fun _ h => linkChild_simulates hg h
  case h_8 => exact simulates_ofHandled hg fun _ h => linkChild_simulates hg h
  case h_9 hk => exact simulates_ofFiring hg fun _ h => onReturn_simulates hg h hk
  case h_10 => exact simulates_ofHandled hg fun _ h => deliverMessage_simulates hg h
  case h_11 => exact simulates_ofHandled hg fun _ h => deliverMessage_simulates hg h
  case h_12 => exact simulates_ofHandled hg fun _ h => onReactivate_simulates hg h
  case h_13 => exact simulates_ofHandled hg fun _ h => onJoinCreate_simulates hg h
  case h_14 hk => exact simulates_ofHandled hg fun _ h => onJoinWait_simulates hg h hk
  case h_15 hk => exact simulates_ofFiring hg fun _ h => fireJoin_simulates hg h (.inl hk)
  case h_16 hk => exact simulates_ofFiring hg fun _ h => fireJoin_simulates hg h (.inr hk)
  case h_17 => exact simulates_ofHandled hg fun _ h => onToolStart_simulates hg h
  case h_18 => exact simulates_ofHandled hg fun _ h => onToolEnd_simulates hg h
  case h_19 => exact onLlmSubmit_simulates hg
  case h_20 hk => exact simulates_ofFiring hg fun _ h => onLlmResult_simulates hg h hk
  case h_21 => exact simulates_ofHandled hg fun _ h => onCallCensored_simulates hg h
  case h_22 => exact simulates_ofHandled hg fun _ h => onStructuredAction_simulates hg h

/-- The event gets to its handler. -/
def Reaches (g : RuntimeCausalContextGraph) (e : RuntimeEvent) : Prop :=
  ¬ g.Processed e ∧ ¬ g.OutOfOrder e

instance (g : RuntimeCausalContextGraph) (e : RuntimeEvent) : Decidable (g.Reaches e) :=
  inferInstanceAs (Decidable (_ ∧ _))

/-- A call that does not reach its handler leaves the graph alone. -/
theorem apply_of_not_reaches (h : ¬ g.Reaches e) : (g.apply e).graph = g ∧ (g.apply e).wakes = [] := by
  unfold apply
  by_cases hp : g.Processed e
  · simp [hp]
  · have ho : g.OutOfOrder e := by
      by_contra ho
      exact h ⟨hp,ho⟩
    simp [hp,ho]

/-- A call that reaches its handler adds bookkeeping to what the handler does. -/
theorem apply_of_reaches (h : g.Reaches e) :
    ((g.apply e).graph = (g.handle e).graph ∨ (g.apply e).graph = (g.handle e).graph.commit e) ∧
      ((g.apply e).wakes = [] ∨ (g.apply e).wakes = (g.handle e).wakes) := by
  unfold apply
  rw [if_neg h.1,if_neg h.2]
  dsimp only
  split
  · exact ⟨.inl rfl,.inl rfl⟩
  · exact ⟨.inr rfl,.inr rfl⟩

theorem WellFormed.commit (hg : g.WellFormed) : (g.commit e).WellFormed :=
  ⟨hg.keyed,hg.enrolled,hg.roster,hg.placed,hg.order_mem,hg.order_nodup⟩

theorem apply_simulates (hg : g.WellFormed) (e : RuntimeEvent) : (g.apply e).graph = g ∨
    g.Reaches e ∧ Simulates e g (g.apply e).graph := by
  by_cases h : g.Reaches e
  · right
    have hsim := handle_simulates hg e
    rcases (apply_of_reaches h).1 with heq | heq
    · exact ⟨h,heq ▸ hsim⟩
    · exact ⟨h,heq ▸ hsim.of_eq hsim.wellFormed.commit rfl⟩
  · exact .inl (apply_of_not_reaches h).1

theorem apply_wellFormed (hg : g.WellFormed) (e : RuntimeEvent) : (g.apply e).graph.WellFormed := by
  rcases apply_simulates hg e with h | ⟨-,h⟩
  · rw [h]
    exact hg
  · exact h.wellFormed

/-- What is known of an invocation that a join wakes: the join fires, the invocation waits
for some join, and no join that fires earlier has it as a waiter. -/
def WokenThrough (g : RuntimeCausalContextGraph) (e : RuntimeEvent) (j k : String) : Prop :=
  (∃ r : InvocationRecord, g.invocations[k]? = some r ∧ r.state = .waitJoin) ∧
    ((g.firing e = some j ∧ ∃ q : JoinRecord, g.joins[j]? = some q ∧ k ∈ q.waiterInvocationIds) ∨
    ∃ i before after, g.finishing e = some i ∧ g.joinOrder = before ++ j :: after ∧
      g.FiresFor i j k ∧ ∀ j' ∈ before, ¬ g.FiresFor i j' k)

theorem finishInvocation_wakes (hg : g.WellFormed) (hget : g.invocations[i]? = some r)
    {st : InvocationState} (hst : st.terminal = true) (hc : g.finishing e = some i) {j : String}
    {aw : Finset String} (haw : (j,aw) ∈ (g.finishInvocation e r st).2.2) (hk : k ∈ aw) :
    g.WokenThrough e j k := by
  obtain ⟨before,after,horder,hall⟩ := (finishInvocation_spec hg hget hst).2.2 j aw haw
  obtain ⟨hfire,hwait,hbefore⟩ := hall k hk
  exact ⟨hwait,.inr ⟨i,before,after,hc,horder,hfire,hbefore⟩⟩

theorem onInvocationCancel_wakes (hg : g.WellFormed) (h : g.onInvocationCancel e = .ok y)
    (hkind : e.kind = .invocationCancel) {j : String} {aw : Finset String} (haw : (j,aw) ∈ y.2)
    (hk : k ∈ aw) : g.WokenThrough e j k := by
  obtain ⟨r,hr,h⟩ := bind_eq_ok.mp h
  obtain ⟨i,hi,-,hget,-⟩ := eventInvocation_eq_ok.mp hr
  split_ifs at h with hterm
  · cases h
    simp at haw
  · cases h
    have hlive := liveInvocation_of hr (by simpa using hterm)
    exact finishInvocation_wakes hg hget rfl
      (by simp [finishing,hkind,hlive,Except.toOption,hg.keyed i r hget]) haw hk

theorem onReturn_wakes (hg : g.WellFormed) (h : g.onReturn e = .ok y)
    (hkind : e.kind = .return) {j : String} {aw : Finset String} (haw : (j,aw) ∈ y.2)
    (hk : k ∈ aw) : g.WokenThrough e j k := by
  obtain ⟨r,hr,h⟩ := bind_eq_ok.mp h
  obtain ⟨i,hi,-,hget,-⟩ := eventInvocation_eq_ok.mp hr
  split_ifs at h with hterm
  · cases h
    simp at haw
  · cases h
    have hlive := liveInvocation_of hr (by simpa using hterm)
    exact finishInvocation_wakes hg hget rfl
      (by simp [finishing,hkind,hlive,Except.toOption,hg.keyed i r hget]) haw hk

theorem onLlmResult_wakes (hg : g.WellFormed) (h : g.onLlmResult e = .ok y)
    (hkind : e.kind = .llmResult) {j : String} {aw : Finset String} (haw : (j,aw) ∈ y.2)
    (hk : k ∈ aw) : g.WokenThrough e j k := by
  obtain ⟨r,hr,h⟩ := bind_eq_ok.mp h
  obtain ⟨t,ht,h⟩ := bind_eq_ok.mp h
  split_ifs at h with hterm
  · cases h
    obtain ⟨i,hi,hget,-,hlive⟩ := liveInvocation_eq_ok hr
    obtain ⟨hwf,hjoins,hinv⟩ := hg.touchContext ht
    obtain ⟨c,hc,hv,rfl⟩ := touchContext_eq_ok ht
    obtain ⟨before,after,horder,hall⟩ := (finishInvocation_spec hwf hget
      (show InvocationState.done.terminal = true from rfl)).2.2 j aw haw
    obtain ⟨hfire,hwait,hbefore⟩ := hall k hk
    have hfin : g.finishing e = some i := by
      simp [finishing,hkind,hterm,hr,Except.toOption,hc,hv,hg.keyed i r hget]
    exact ⟨hwait,.inr ⟨i,before,after,hfin,horder,hfire,hbefore⟩⟩
  · cases h
    simp at haw

theorem fireJoin_wakes {sat : Bool} (h : g.fireJoin e sat = .ok y)
    (hkind : e.kind = .joinSatisfied ∨ e.kind = .joinTimeout) {j : String} {aw : Finset String}
    (haw : (j,aw) ∈ y.2) (hk : k ∈ aw) : g.WokenThrough e j k := by
  obtain ⟨j',hj,h⟩ := bind_eq_ok.mp h
  obtain ⟨q,hq,h⟩ := bind_eq_ok.mp h
  cases h
  obtain ⟨rfl,rfl⟩ := Prod.mk.inj (List.mem_singleton.mp haw)
  have hfit : g.firing e = some j := by
    rcases hkind with hkind | hkind <;> simp [firing,hkind,hj,hq,Except.toOption]
  obtain ⟨hmem,hst⟩ := Finset.mem_filter.mp hk
  refine ⟨?_,.inl ⟨hfit,q,(join_eq_ok.mp hq).1,hmem⟩⟩
  change (g.invocations[k]?).any _ = true at hst
  cases hr : g.invocations[k]? with
  | none => simp [hr] at hst
  | some r => exact ⟨r,rfl,by simpa [hr] using hst⟩

/-- Every wake-up through a join, in every call. -/
theorem apply_wakes (hg : g.WellFormed) {j : String} {aw : Finset String}
    (haw : (j,aw) ∈ (g.apply e).wakes) (hk : k ∈ aw) : g.Reaches e ∧ g.WokenThrough e j k := by
  have hreach : g.Reaches e := by
    by_contra h
    simp [(apply_of_not_reaches h).2] at haw
  refine ⟨hreach,?_⟩
  have hhandle : (j,aw) ∈ (g.handle e).wakes := by
    rcases (apply_of_reaches hreach).2 with h | h
    · simp [h] at haw
    · exact h ▸ haw
  have hplain (z : Except Raised Handled) : (j,aw) ∉ (Outcome.ofHandled g z).wakes := by
    cases z <;> simp [Outcome.ofHandled]
  have hfiring {z : Except Raised (Handled × Wakes)} (h : (j,aw) ∈ (Outcome.ofFiring g z).wakes) :
      ∃ y, z = .ok y ∧ (j,aw) ∈ y.2 := by
    cases z with
    | error _ => simp [Outcome.ofFiring] at h
    | ok y => exact ⟨y,rfl,h⟩
  unfold handle at hhandle
  split at hhandle
  case h_4 hkind =>
    obtain ⟨y,hy,haw⟩ := hfiring hhandle
    exact onInvocationCancel_wakes hg hy hkind haw hk
  case h_9 hkind =>
    obtain ⟨y,hy,haw⟩ := hfiring hhandle
    exact onReturn_wakes hg hy hkind haw hk
  case h_15 hkind =>
    obtain ⟨y,hy,haw⟩ := hfiring hhandle
    exact fireJoin_wakes hy (.inl hkind) haw hk
  case h_16 hkind =>
    obtain ⟨y,hy,haw⟩ := hfiring hhandle
    exact fireJoin_wakes hy (.inr hkind) haw hk
  case h_20 hkind =>
    obtain ⟨y,hy,haw⟩ := hfiring hhandle
    exact onLlmResult_wakes hg hy hkind haw hk
  case h_19 =>
    unfold onLlmSubmit at hhandle
    dsimp only at hhandle
    split at hhandle
    · simp at hhandle
    · split at hhandle <;> simp at hhandle
  all_goals exact absurd hhandle (hplain _)

end BeliefKV.RuntimeCausalContextGraph
