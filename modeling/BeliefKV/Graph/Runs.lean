import BeliefKV.Graph.Refinement
import BeliefKV.Lib.Run

/-! What holds in every graph that calls of `apply` can reach, whether or not they raise. -/
namespace BeliefKV.RuntimeCausalContextGraph
open Run

/-- One call of a run. -/
def step (g : RuntimeCausalContextGraph) (e : RuntimeEvent) : RuntimeCausalContextGraph :=
  (g.apply e).graph

/-- A new graph. -/
def start (strict : Bool) : RuntimeCausalContextGraph := { strictTimestamps := strict }

def run (g : RuntimeCausalContextGraph) (events : List RuntimeEvent) : RuntimeCausalContextGraph :=
  events.foldl step g

variable {g : RuntimeCausalContextGraph} {e : RuntimeEvent}

/-! Events of one workflow for the sample runs below. -/

def sampleEvent (id : String) (kind : RuntimeEventKind) (i target context : Option String)
    (h : isBlank id = false := by decide) : RuntimeEvent :=
  { eventId := id
    tsMs := 1
    kind := kind
    workflowId := "w"
    invocationId := i
    targetInvocationId := target
    contextId := context
    valid := ⟨h,(by decide : isBlank "w" = false),(by decide : (0 : ℚ) ≤ 1),by simp,by simp⟩ }

def sampleJoin (id : String) (kind : RuntimeEventKind) (i : Option String) (j : String)
    (members : List String) (h : isBlank id = false := by decide)
    (n : members.Nodup := by decide) : RuntimeEvent :=
  { eventId := id
    tsMs := 1
    kind := kind
    workflowId := "w"
    invocationId := i
    joinId := some j
    memberInvocationIds := members
    valid := ⟨h,(by decide : isBlank "w" = false),(by decide : (0 : ℚ) ≤ 1),by simp,n⟩ }

/-- Three invocations, each in its own context. -/
def sampleStart : List RuntimeEvent :=
  [sampleEvent "start" .workflowStart none none none,
    sampleEvent "create a" .invocationCreate (some "a") none (some "ca"),
    sampleEvent "create b" .invocationCreate (some "b") none (some "cb"),
    sampleEvent "create c" .invocationCreate (some "c") none (some "cc")]

theorem start_wellFormed (strict : Bool) : (start strict).WellFormed := empty_wellFormed strict

theorem run_wellFormed (strict : Bool) (events : List RuntimeEvent) :
    ((start strict).run events).WellFormed := by
  have hall : AllSteps step (fun _ _ => True) (start strict) events :=
    AllSteps.of_forall (fun _ _ _ => trivial) _
  have hstep (g : RuntimeCausalContextGraph) (e : RuntimeEvent) (hg : g.WellFormed) (_ : True) :
      (g.step e).WellFormed := apply_wellFormed hg e
  exact AllSteps.invariant hstep (start_wellFormed strict) hall

/-- What the moves of one call preserve under a condition on the event, runs preserve. -/
theorem run_preserves {P : RuntimeCausalContextGraph → RuntimeEvent → Prop} {I : Lifecycle → Prop}
    (hstep : ∀ g e m, g.WellFormed → I g.view → P g e → g.Reaches e → g.view.Enabled m →
      g.Fits e m → I (g.view.next m))
    (hg : g.WellFormed) (hi : I g.view) {events : List RuntimeEvent}
    (hall : AllSteps step P g events) : (g.run events).WellFormed ∧ I (g.run events).view := by
  refine AllSteps.invariant (I := fun g => g.WellFormed ∧ I g.view) (fun g e h hp => ?_) ⟨hg,hi⟩ hall
  refine ⟨apply_wellFormed h.1 e,?_⟩
  change I (g.apply e).graph.view
  rcases apply_simulates h.1 e with heq | ⟨hreach,hsim⟩
  · rw [heq]
    exact h.2
  · obtain ⟨m,hm,hfit,hview⟩ := hsim.move
    rw [hview]
    exact hstep g e m h.1 h.2 hp hreach hm hfit

/-! ## Ended invocations -/

/-- The event is no wait of an invocation that has ended. -/
def KeepsEnded (g : RuntimeCausalContextGraph) (e : RuntimeEvent) : Prop :=
  g.Reaches e → ∀ x ∈ g.awaiting e, ∀ r ∈ g.invocations[x.1]?, r.state.terminal = false

instance (g : RuntimeCausalContextGraph) (e : RuntimeEvent) : Decidable (g.KeepsEnded e) :=
  inferInstanceAs (Decidable (_ → _))

/-- In every reachable graph an ended invocation keeps its state, whatever events follow,
as long as none of them is a wait of an ended invocation. -/
theorem terminal_absorbing (strict : Bool) (before after : List RuntimeEvent)
    (h : AllSteps step KeepsEnded ((start strict).run before) after) (i : String)
    (r : InvocationRecord) (hr : ((start strict).run before).invocations[i]? = some r)
    (ht : r.state.terminal = true) :
    ∃ r' : InvocationRecord, ((start strict).run (before ++ after)).invocations[i]? = some r' ∧
      r'.state = r.state := by
  have hrun : (start strict).run (before ++ after) = ((start strict).run before).run after :=
    List.foldl_append
  rw [hrun]
  have hinv := run_preserves (P := KeepsEnded)
    (I := fun s => ∃ a, s.agent i = some a ∧ a.state = r.state)
    (fun g e m hg ⟨a,ha,hst⟩ hp hreach hm hfit => ?_) (run_wellFormed strict before)
    ⟨_,view_agent hr,rfl⟩ h
  · obtain ⟨-,a,ha,hst⟩ := hinv
    obtain ⟨r',hr',rfl⟩ := view_agent_eq_some.mp ha
    exact ⟨r',hr',hst⟩
  · have hta : a.state.terminal = true := by rw [hst,ht]
    refine ⟨_,Lifecycle.agent_stays m ha,?_⟩
    rw [Lifecycle.act_terminal hm (fun j hj => ?_) ha hta,hst]
    -- A wait of the ended invocation is what the condition excludes.
    subst hj
    obtain ⟨q,hq,rfl⟩ := view_agent_eq_some.mp ha
    have hlive := hp hreach (i,j) hfit q hq
    exact absurd hta (by simp [agentOf,hlive])

/-- An invocation that returned stays DONE when it is messaged and the workflow ends. -/
theorem terminal_absorbing_sample :
    ∃ r : InvocationRecord, ((start true).run ((sampleStart ++
      [sampleEvent "return" .return (some "a") none none]) ++
      [sampleEvent "message" .message (some "b") (some "a") none,
        sampleEvent "end" .workflowEnd none none none])).invocations["a"]? = some r ∧
      r.state.terminal = true := by
  have hall : AllSteps step KeepsEnded
      ((start true).run (sampleStart ++ [sampleEvent "return" .return (some "a") none none]))
      [sampleEvent "message" .message (some "b") (some "a") none,
        sampleEvent "end" .workflowEnd none none none] := by decide
  have hdone : ((start true).run (sampleStart ++
      [sampleEvent "return" .return (some "a") none none])).invocations["a"]?.map
      InvocationRecord.state = some .done := by decide
  obtain ⟨r,hr,hst⟩ := Option.map_eq_some_iff.mp hdone
  obtain ⟨r',hr',hst'⟩ := terminal_absorbing true _ _ hall "a" r hr (by rw [hst]; rfl)
  exact ⟨r',hr',by rw [hst',hst]; rfl⟩

/-- A wait for a join brings an invocation back that has returned. -/
theorem joinWait_revives :
    ((start true).run (sampleStart ++ [sampleJoin "join" .joinCreate none "j" ["b"],
      sampleEvent "return" .return (some "a") none none])).invocations["a"]?.map
        InvocationRecord.state = some .done ∧
    ((start true).run (sampleStart ++ [sampleJoin "join" .joinCreate none "j" ["b"],
      sampleEvent "return" .return (some "a") none none,
      sampleJoin "wait" .joinWait (some "a") "j" []])).invocations["a"]?.map
        InvocationRecord.state = some .waitJoin := by
  decide

/-! ## Blocking children -/

/-- The event ends no invocation that a live one other than its return target waits for, and
revives none that still has an ended child in its blocking set. -/
def DrainsParents (g : RuntimeCausalContextGraph) (e : RuntimeEvent) : Prop :=
  g.Reaches e →
    (∀ i ∈ g.finishing e, ∀ q ∈ g.invocations.vals, q.state.terminal = false →
      i ∈ q.blockingChildIds → (g.invocations[i]?.bind fun r =>
        orElse r.returnTargetId r.parentInvocationId) = some q.invocationId) ∧
    ∀ x ∈ g.awaiting e, ∀ r ∈ g.invocations[x.1]?, r.state.terminal = true →
      ∀ c ∈ r.blockingChildIds, ∀ b ∈ g.invocations[c]?, b.state.terminal = false

instance (g : RuntimeCausalContextGraph) (e : RuntimeEvent) : Decidable (g.DrainsParents e) :=
  inferInstanceAs (Decidable (_ → _ ∧ _))

theorem draining_of_drainsParents {m : Move} (hg : g.WellFormed) (hp : g.view.Parked)
    (h : g.DrainsParents e) (hreach : g.Reaches e) (hfit : g.Fits e m) : g.view.Draining m := by
  obtain ⟨hfin,hwait⟩ := h hreach
  cases m with
  | finish i st =>
    intro p a ha hlive hi
    obtain ⟨q,hq,rfl⟩ := view_agent_eq_some.mp ha
    have htarget := hfin i hfit q ((Dict.mem_vals _ _).mpr ⟨p,hq⟩) hlive hi
    rw [hg.keyed p q hq] at htarget
    rw [← htarget]
    cases hr : g.invocations[i]? <;> simp [Lifecycle.targetOf,view,hr,agentOf]
  | await i j =>
    intro a ha ht c hc
    obtain ⟨r,hr,rfl⟩ := view_agent_eq_some.mp ha
    obtain ⟨-,b,hb,-⟩ := hp.child i _ c ha hc
    obtain ⟨q,hq,rfl⟩ := view_agent_eq_some.mp hb
    exact ⟨_,hb,hwait (i,j) hfit r hr ht c hc q hq⟩
  | _ => trivial

theorem start_parked (strict : Bool) : (start strict).view.Parked :=
  ⟨fun p a c ha => by simp [view,start] at ha,fun p a ha => by simp [view,start] at ha⟩

/-- Along runs that drain their parents, every invocation in WAIT_CHILD has a blocking child
and all of them are live, and the completion of the last one makes it ready. -/
theorem parents_wake (strict : Bool) (events : List RuntimeEvent)
    (h : AllSteps step DrainsParents (start strict) events) :
    (∀ (p : String) (r : InvocationRecord),
      ((start strict).run events).invocations[p]? = some r → r.state = .waitChild →
      r.blockingChildIds ≠ ∅ ∧ ∀ c ∈ r.blockingChildIds, ∃ b : InvocationRecord,
        ((start strict).run events).invocations[c]? = some b ∧ b.state.terminal = false) ∧
    ∀ e, ((start strict).run events).DrainsParents e →
      (e.kind = .return ∨ e.kind = .invocationCancel ∨ e.kind = .llmResult) →
      ∀ (p c : String) (r b : InvocationRecord),
        ((start strict).run events).invocations[p]? = some r → r.state = .waitChild →
        r.blockingChildIds = {c} →
        (((start strict).run events).apply e).graph.invocations[c]? = some b →
        b.state.terminal = true →
        ∃ r' : InvocationRecord,
          (((start strict).run events).apply e).graph.invocations[p]? = some r' ∧
          r'.state = .ready := by
  obtain ⟨hwf,hp⟩ := run_preserves (P := DrainsParents) (I := Lifecycle.Parked)
    (fun g e m hg hp hd hreach hm hfit => hp.next hm (draining_of_drainsParents hg hp hd hreach hfit))
    (start_wellFormed strict) (start_parked strict) h
  set g := (start strict).run events
  have hlive {p c : String} {r : InvocationRecord} (hr : g.invocations[p]? = some r)
      (hst : r.state = .waitChild) (hc : c ∈ r.blockingChildIds) :
      ∃ b : InvocationRecord, g.invocations[c]? = some b ∧ b.state.terminal = false := by
    obtain ⟨-,a,ha,-,hend⟩ := hp.child p _ c (view_agent hr) hc
    obtain ⟨b,hb,rfl⟩ := view_agent_eq_some.mp ha
    refine ⟨b,hb,?_⟩
    by_contra ht
    have hpt := hend (by simpa [agentOf] using ht)
    simp [agentOf,hst,InvocationState.terminal] at hpt
  refine ⟨fun p r hr hst => ⟨hp.waits p _ (view_agent hr) hst,fun c hc => hlive hr hst hc⟩,?_⟩
  intro e hd hkind p c r b hr hst hlast hb hbt
  obtain ⟨b₀,hb₀,hb₀t⟩ := hlive hr hst (by simp [hlast] : c ∈ r.blockingChildIds)
  rcases apply_simulates hwf e with heq | ⟨hreach,hsim⟩
  · rw [heq] at hb
    cases hb₀.symm.trans hb
    simp [hbt] at hb₀t
  · obtain ⟨m,hm,hfit,hview⟩ := hsim.move
    have hdrain := draining_of_drainsParents hwf hp hd hreach hfit
    have hact : agentOf b = g.view.act m c (agentOf b₀) := by
      have hnext := Lifecycle.agent_stays m (view_agent hb₀)
      rw [← hview,view_agent hb] at hnext
      exact Option.some.inj hnext
    have hterm : (g.view.act m c (agentOf b₀)).state.terminal = true := by
      rw [← hact]
      exact hbt
    obtain hold | ⟨st,rfl⟩ | ⟨w,rfl,-⟩ := Lifecycle.act_terminal_imp hm hterm
    · simp [agentOf,hb₀t] at hold
    · have hready := hp.ready_of_finish hdrain (view_agent hr) hst hlast
      have hnext := Lifecycle.agent_stays (.finish c st) (view_agent hr)
      rw [← hview] at hnext
      obtain ⟨r',hr',heq⟩ := view_agent_eq_some.mp hnext
      exact ⟨r',hr',by rw [← hready,← heq]; rfl⟩
    · -- The end of a workflow is no completion.
      rcases hkind with hk | hk | hk <;> simp [Fits,ending,hk] at hfit

/-- A call, and the return of the called invocation. -/
theorem parents_wake_sample :
    ∃ r : InvocationRecord, (((start true).run (sampleStart ++
      [sampleEvent "call" .call (some "a") (some "b") none])).apply
      (sampleEvent "return" .return (some "b") none none)).graph.invocations["a"]? = some r ∧
      r.state = .ready := by
  have hall : AllSteps step DrainsParents (start true)
      (sampleStart ++ [sampleEvent "call" .call (some "a") (some "b") none]) := by decide
  have hwait : ((start true).run (sampleStart ++
      [sampleEvent "call" .call (some "a") (some "b") none])).invocations["a"]?.map
        (fun r => (r.state,r.blockingChildIds)) = some (.waitChild,{"b"}) := by decide
  have hdone : (((start true).run (sampleStart ++
      [sampleEvent "call" .call (some "a") (some "b") none])).apply
      (sampleEvent "return" .return (some "b") none none)).graph.invocations["b"]?.map
        InvocationRecord.state = some .done := by decide
  obtain ⟨r,hr,hst⟩ := Option.map_eq_some_iff.mp hwait
  obtain ⟨b,hb,hbst⟩ := Option.map_eq_some_iff.mp hdone
  obtain ⟨hst,hblock⟩ := Prod.mk.inj hst
  exact (parents_wake true _ hall).2 _ (by decide) (.inl rfl) "a" "b" r b hr hst hblock hb
    (by rw [hbst]; rfl)

/-- The call names another return target, which is told of the end of the child; the parent
that was parked on it is not. -/
def foreignCall : RuntimeEvent :=
  { eventId := "call"
    tsMs := 1
    kind := .call
    workflowId := "w"
    invocationId := some "a"
    targetInvocationId := some "b"
    returnTargetId := some "c"
    valid := ⟨by decide,by decide,by decide,by simp,by simp⟩ }

theorem foreign_return_target_strands :
    ((start true).run (sampleStart ++ [foreignCall,
      sampleEvent "return" .return (some "b") none none])).invocations["a"]?.map
        (fun r => (r.state,r.blockingChildIds)) = some (.waitChild,{"b"}) ∧
    ((start true).run (sampleStart ++ [foreignCall,
      sampleEvent "return" .return (some "b") none none])).invocations["b"]?.map
        InvocationRecord.state = some .done := by
  decide

/-! ## Joins -/

instance (q : JoinRecord) (i : String) : Decidable (q.FiredBy i) :=
  inferInstanceAs (Decidable (_ ∧ _))

/-- The event fires the join: by its own kind, or as the completion of a member. -/
def Fires (g : RuntimeCausalContextGraph) (e : RuntimeEvent) (j : String) (q : JoinRecord) : Prop :=
  g.firing e = some j ∨ ∃ i ∈ g.finishing e, q.FiredBy i

instance (g : RuntimeCausalContextGraph) (e : RuntimeEvent) (j : String) (q : JoinRecord) :
    Decidable (g.Fires e j q) := inferInstanceAs (Decidable (_ ∨ _))

/-- The event ends no workflow with an unsatisfied join, and no join it fires has a recorded
waiter that waits for another join, unless that one fires before it. -/
def SettlesJoins (g : RuntimeCausalContextGraph) (e : RuntimeEvent) : Prop :=
  g.Reaches e →
    (∀ w ∈ ending e, ∀ q ∈ g.joins.vals, q.workflowId = w → q.satisfied = true) ∧
    ∀ j ∈ g.joinOrder, ∀ q ∈ g.joins[j]?, g.Fires e j q → ∀ k ∈ q.waiterInvocationIds,
      ∀ r ∈ g.invocations[k]?, r.state = .waitJoin → r.joinId = some j ∨
        ∃ j' ∈ r.joinId, ∃ q' ∈ g.joins[j']?, g.Fires e j' q' ∧
          g.joinOrder.idxOf j' < g.joinOrder.idxOf j

instance (g : RuntimeCausalContextGraph) (e : RuntimeEvent) : Decidable (g.SettlesJoins e) :=
  inferInstanceAs (Decidable (_ → _ ∧ _))

theorem settled_of_settlesJoins {m : Move} (h : g.SettlesJoins e) (hreach : g.Reaches e)
    (hfit : g.Fits e m) : g.view.Settled m := by
  cases m with
  | close w => exact fun j q hq hw => (h hreach).1 w hfit q ((Dict.mem_vals _ _).mpr ⟨j,hq⟩) hw
  | _ => trivial

theorem start_joined (strict : Bool) : (start strict).view.Joined :=
  ⟨fun i a ha => by simp [view,start] at ha,fun j r hr => by simp [view,start] at hr,
    fun j r hr => by simp [view,start] at hr⟩

theorem finishing_of_firing {j : String} (h : g.firing e = some j) : g.finishing e = none := by
  unfold firing at h
  unfold finishing
  cases hk : e.kind <;> simp [hk] at h ⊢

/-- An invocation a join wakes waits for that join. -/
theorem wokenThrough_joinId {j k : String} {r : InvocationRecord} (hg : g.WellFormed)
    (hj : g.view.Joined) (h : g.SettlesJoins e) (hreach : g.Reaches e) (hw : g.WokenThrough e j k)
    (hr : g.invocations[k]? = some r) : r.joinId = some j := by
  obtain ⟨⟨r',hr',hwait⟩,hthrough⟩ := hw
  cases hr.symm.trans hr'
  obtain ⟨jn,q,hjn,hq,hkq,-⟩ := hj.waiter k _ (view_agent hr) hwait
  have hown := (h hreach).2
  have hmem {j : String} {q : JoinRecord} (hq : g.joins[j]? = some q) : j ∈ g.joinOrder :=
    (hg.order_mem j).mpr ((Dict.mem_iff_get _ _).mpr ⟨q,hq⟩)
  rcases hthrough with ⟨hfire,q',hq',hk⟩ | ⟨i,before,after,hfin,horder,⟨q',hq',hfired,hk⟩,hbefore⟩
  · rcases hown j (hmem hq') q' hq' (.inl hfire) k hk r hr hwait with hid | ⟨j',-,q'',-,hf,hlt⟩
    · exact hid
    · rcases hf with hf | ⟨i,hi,-⟩
      · rw [hfire] at hf
        cases hf
        exact absurd hlt (lt_irrefl _)
      · rw [finishing_of_firing hfire] at hi
        cases hi
  · rcases hown j (hmem hq') q' hq' (.inr ⟨i,hfin,hfired⟩) k hk r hr hwait with
      hid | ⟨j',hj',q'',hq'',hf,hlt⟩
    · exact hid
    · -- The join it waits for came earlier in the loop and would have woken it.
      have hjj : j' = jn := Option.some.inj ((Option.mem_def.mp hj').symm.trans hjn)
      subst hjj
      cases hq.symm.trans hq''
      have hfires : g.FiresFor i j' k := by
        rcases hf with hf | ⟨i',hi',hf⟩
        · rw [finishing_of_firing hf] at hfin
          cases hfin
        · rw [hfin] at hi'
          cases hi'
          exact ⟨q,hq,hf,hkq⟩
      have hjb : j ∉ before := by
        have hnodup := hg.order_nodup
        rw [horder,List.nodup_append] at hnodup
        exact fun hj => hnodup.2.2 j hj j (by simp) rfl
      have hin : j' ∈ before := by
        by_contra hnot
        rw [horder,List.idxOf_append_of_notMem hnot,List.idxOf_append_of_notMem hjb] at hlt
        simp at hlt
      exact absurd hfires (hbefore j' hin)

/-- Along runs that settle their joins: every invocation in WAIT_JOIN is a recorded waiter of
the unsatisfied join it names; a join is satisfied as soon as its ended members suffice for
its mode, so an unsatisfied one has a live member; and a join wakes only invocations that
name it. -/
theorem joins_live_and_precise (strict : Bool) (events : List RuntimeEvent)
    (h : AllSteps step SettlesJoins (start strict) events) :
    (∀ (i : String) (r : InvocationRecord),
      ((start strict).run events).invocations[i]? = some r → r.state = .waitJoin →
      ∃ (j : String) (q : JoinRecord), r.joinId = some j ∧
        ((start strict).run events).joins[j]? = some q ∧ i ∈ q.waiterInvocationIds ∧
        q.satisfied = false) ∧
    (∀ (j : String) (q : JoinRecord), ((start strict).run events).joins[j]? = some q →
      (((start strict).run events).view.Due q → q.satisfied = true) ∧
      (q.satisfied = false → ∃ i ∈ q.memberInvocationIds, ∃ r : InvocationRecord,
        ((start strict).run events).invocations[i]? = some r ∧ r.state.terminal = false)) ∧
    ∀ e, ((start strict).run events).SettlesJoins e →
      ∀ wake ∈ (((start strict).run events).apply e).wakes, ∀ k ∈ wake.2,
      ∃ r : InvocationRecord, ((start strict).run events).invocations[k]? = some r ∧
        r.state = .waitJoin ∧ r.joinId = some wake.1 := by
  obtain ⟨hwf,hj⟩ := run_preserves (P := SettlesJoins) (I := Lifecycle.Joined)
    (fun g e m hg hj hs hreach hm hfit => hj.next hm (settled_of_settlesJoins hs hreach hfit))
    (start_wellFormed strict) (start_joined strict) h
  set g := (start strict).run events
  refine ⟨fun i r hr hst => ?_,fun j q hq => ⟨fun hdue => hj.due_satisfied hq hdue,fun hno => ?_⟩,?_⟩
  · exact hj.waiter i _ (view_agent hr) hst
  · obtain ⟨i,hi,a,ha,hlive⟩ := hj.live_member hq hno
    obtain ⟨r,hr,rfl⟩ := view_agent_eq_some.mp ha
    exact ⟨i,hi,r,hr,hlive⟩
  · intro e hs wake hwake k hk
    obtain ⟨hreach,hw⟩ := apply_wakes hwf hwake hk
    obtain ⟨r,hr,hst⟩ := hw.1
    exact ⟨r,hr,hst,wokenThrough_joinId hwf hj hs hreach hw hr⟩

/-- A wait for a join whose only member then returns. -/
theorem joins_live_and_precise_sample :
    let g := (start true).run (sampleStart ++ [sampleJoin "join" .joinCreate none "j" ["b"],
      sampleJoin "wait" .joinWait (some "a") "j" []])
    (g.apply (sampleEvent "return" .return (some "b") none none)).wakes = [("j",{"a"})] ∧
      ∃ r : InvocationRecord, g.invocations["a"]? = some r ∧ r.state = .waitJoin ∧
        r.joinId = some "j" := by
  have hall : AllSteps step SettlesJoins (start true) (sampleStart ++
      [sampleJoin "join" .joinCreate none "j" ["b"],
      sampleJoin "wait" .joinWait (some "a") "j" []]) := by decide
  have hwakes : (((start true).run (sampleStart ++ [sampleJoin "join" .joinCreate none "j" ["b"],
      sampleJoin "wait" .joinWait (some "a") "j" []])).apply
      (sampleEvent "return" .return (some "b") none none)).wakes = [("j",{"a"})] := by decide
  refine ⟨hwakes,?_⟩
  exact (joins_live_and_precise true _ hall).2.2 (sampleEvent "return" .return (some "b") none none)
    (by decide) ("j",{"a"}) (by rw [hwakes]; simp) "a" (by simp)

/-- The end of a workflow cancels the members of a join and leaves it unsatisfied; and a join
an invocation gave up waiting for still wakes it from the next one. -/
theorem joins_missed_and_spurious :
    (((start true).run (sampleStart ++ [sampleJoin "join" .joinCreate none "j" ["b"],
      sampleEvent "end" .workflowEnd none none none])).joins["j"]?.map
        (fun q => (q.mode,q.memberInvocationIds,q.satisfied)) = some (.all,{"b"},false) ∧
    ((start true).run (sampleStart ++ [sampleJoin "join" .joinCreate none "j" ["b"],
      sampleEvent "end" .workflowEnd none none none])).invocations["b"]?.map
        InvocationRecord.state = some .cancelled) ∧
    (((start true).run (sampleStart ++ [sampleJoin "join" .joinCreate none "j" ["b"],
      sampleJoin "join 2" .joinCreate none "k" ["c"],sampleJoin "wait" .joinWait (some "a") "j" [],
      sampleJoin "timeout" .joinTimeout none "j" [],
      sampleJoin "wait 2" .joinWait (some "a") "k" []])).apply
        (sampleEvent "return" .return (some "b") none none)).wakes = [("j",{"a"})] ∧
    ((start true).run (sampleStart ++ [sampleJoin "join" .joinCreate none "j" ["b"],
      sampleJoin "join 2" .joinCreate none "k" ["c"],sampleJoin "wait" .joinWait (some "a") "j" [],
      sampleJoin "timeout" .joinTimeout none "j" [],
      sampleJoin "wait 2" .joinWait (some "a") "k" []])).invocations["a"]?.map
        InvocationRecord.joinId = some (some "k") := by
  decide

end BeliefKV.RuntimeCausalContextGraph
