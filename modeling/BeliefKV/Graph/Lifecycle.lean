import BeliefKV.Graph.Basic
import Mathlib.Logic.Function.Basic

/-! The lifecycle of invocations on its own: which moves there are, and what they keep. The
causal graph is one implementation of it. -/
namespace BeliefKV
open Classical RuntimeCausalContextGraph

/-- What of an invocation its lifecycle depends on. `target` is where its completion goes. -/
structure Agent where
  state : InvocationState
  workflow : String
  joinId : Option String
  blocking : Finset String
  target : Option String

structure Lifecycle where
  agent : String → Option Agent
  join : String → Option JoinRecord

/-- The states an event can put a live invocation in without parking it on another one. -/
def InvocationState.active : InvocationState → Bool
  | ready | runningLlm | waitTool | waitMessage => true
  | _ => false

/-- A completed member is recorded, and the join is satisfied when its mode asks no more. -/
def JoinRecord.complete (r : JoinRecord) (i : String) : JoinRecord :=
  if i ∈ r.memberInvocationIds then
    let recorded := { r with completedMemberIds := insert i r.completedMemberIds }
    if joinIsSatisfied recorded then { recorded with satisfied := true } else recorded
  else r

/-- The completion of a member fires the join. -/
def JoinRecord.FiredBy (r : JoinRecord) (i : String) : Prop :=
  i ∈ r.memberInvocationIds ∧
    joinIsSatisfied { r with completedMemberIds := insert i r.completedMemberIds }

inductive Move
  | drive (f : String → Option InvocationState)
  | enter (i : String) (a : Agent)
  | attach (parent child : String) (target : Option String) (foreground : Bool)
  | await (i j : String)
  | finish (i : String) (state : InvocationState)
  | fire (j : String) (satisfies : Bool)
  | openJoin (j : String) (r : JoinRecord)
  | close (w : String)

/-- The agent a move adds under an id. -/
def Move.newcomer : Move → String → Option Agent
  | .enter i a, k => if k = i then some a else none
  | _, _ => none

/-- The join a move adds under an id. -/
def Move.newJoin : Move → String → Option JoinRecord
  | .openJoin j r, k => if k = j then some r else none
  | _, _ => none

namespace Lifecycle
variable (s : Lifecycle)

/-- The agent exists and has not ended. -/
def LiveAt (i : String) : Prop := ∃ a, s.agent i = some a ∧ a.state.terminal = false

def targetOf (i : String) : Option String := (s.agent i).bind Agent.target

/-- Some join with this waiter fires when `i` completes. -/
def WokenBy (i k : String) : Prop :=
  ∃ j r, s.join j = some r ∧ r.FiredBy i ∧ k ∈ r.waiterInvocationIds

/-- The target of a completed agent drops it, and is ready when it waited for nobody else. -/
def release (i : String) (a : Agent) : Agent :=
  { a with
    blocking := a.blocking.erase i
    state := if a.state = .waitChild ∧ a.blocking.erase i = ∅ then .ready else a.state }

def wake (a : Agent) : Agent :=
  { a with state := if a.state = .waitJoin then .ready else a.state }

/-- The completion of `i`, seen by agent `k`. -/
noncomputable def settle (i : String) (state : InvocationState) (k : String) (a : Agent) : Agent :=
  let a := if k = i then { a with state := state } else a
  let a := if s.targetOf i = some k then release i a else a
  if s.WokenBy i k then wake a else a

/-- What a move does to agent `k`. -/
noncomputable def act (m : Move) (k : String) (a : Agent) : Agent :=
  match m with
  | .drive f => { a with state := (f k).getD a.state }
  | .enter _ _ => a
  | .attach parent child target foreground =>
    if k = child then { a with state := .ready, target := target }
    else if k = parent ∧ foreground then
      { a with blocking := insert child a.blocking, state := .waitChild }
    else a
  | .await i j =>
    if k = i then { a with
      joinId := some j
      state := if (s.join j).any JoinRecord.satisfied then .ready else .waitJoin }
    else a
  | .finish i state => s.settle i state k a
  | .fire j _ => if (s.join j).any (fun r => k ∈ r.waiterInvocationIds) then wake a else a
  | .openJoin _ _ => a
  | .close w =>
    if a.workflow = w ∧ a.state.terminal = false then { a with state := .cancelled } else a

/-- What a move does to join `k`. -/
def actJoin (m : Move) (k : String) (r : JoinRecord) : JoinRecord :=
  match m with
  | .await i j =>
    if k = j then { r with waiterInvocationIds := insert i r.waiterInvocationIds } else r
  | .finish i _ => r.complete i
  | .fire j satisfies => if k = j then { r with satisfied := satisfies || r.satisfied } else r
  | _ => r

noncomputable def next (m : Move) : Lifecycle :=
  { agent := fun k => ((s.agent k).map (s.act m k)).or (m.newcomer k)
    join := fun k => ((s.join k).map (actJoin m k)).or (m.newJoin k) }

/-- The moves the graph makes in a state. -/
def Enabled : Move → Prop
  | .drive f => ∀ i state, f i = some state → s.LiveAt i ∧ state.active
  | .enter i a => s.agent i = none ∧ a.state = .ready ∧ a.blocking = ∅
  | .attach parent child _ _ => parent ≠ child ∧ s.LiveAt parent ∧ s.LiveAt child ∧
      (s.agent parent).map Agent.workflow = (s.agent child).map Agent.workflow
  | .await i j => (∃ a, s.agent i = some a) ∧ ∃ r, s.join j = some r
  | .finish i state => s.LiveAt i ∧ state.terminal
  | .fire j _ => ∃ r, s.join j = some r
  | .openJoin j r => s.join j = none ∧ r.memberInvocationIds ≠ ∅ ∧
      r.satisfied = joinIsSatisfied r ∧ r.waiterInvocationIds = ∅ ∧
      ∀ i ∈ r.memberInvocationIds, ∃ a, s.agent i = some a ∧ a.workflow = r.workflowId ∧
        (a.state.terminal → i ∈ r.completedMemberIds)
  | .close _ => True

variable {s} {m : Move} {i k : String} {a b : Agent}

/-! ## Agents and joins after a move -/

theorem agent_next (hm : s.Enabled m) (hb : (s.next m).agent k = some b) :
    (∃ a, s.agent k = some a ∧ b = s.act m k a) ∨ m = .enter k b := by
  change ((s.agent k).map (s.act m k)).or (m.newcomer k) = some b at hb
  cases ha : s.agent k with
  | some a => exact .inl ⟨a,rfl,by simpa [ha] using hb.symm⟩
  | none =>
    right
    rw [ha,Option.map_none,Option.none_or] at hb
    cases m <;> simp only [Move.newcomer,reduceCtorEq] at hb
    split_ifs at hb with hk
    rw [hk,Option.some.inj hb]

theorem agent_stays (m : Move) (ha : s.agent k = some a) :
    (s.next m).agent k = some (s.act m k a) := by
  simp [next,ha]

theorem join_next {j : String} {r : JoinRecord} (hr : (s.next m).join j = some r) :
    (∃ q, s.join j = some q ∧ r = actJoin m j q) ∨ m = .openJoin j r := by
  change ((s.join j).map (actJoin m j)).or (m.newJoin j) = some r at hr
  cases hq : s.join j with
  | some q => exact .inl ⟨q,rfl,by simpa [hq] using hr.symm⟩
  | none =>
    right
    rw [hq,Option.map_none,Option.none_or] at hr
    cases m <;> simp only [Move.newJoin,reduceCtorEq] at hr
    split_ifs at hr with hk
    rw [hk,Option.some.inj hr]

theorem act_workflow (m : Move) (k : String) (a : Agent) : (s.act m k a).workflow = a.workflow := by
  unfold act settle release wake
  cases m <;> dsimp only <;> split_ifs <;> rfl

/-- A state that no release and no waking touches survives both. -/
theorem settle_of_ne {st : InvocationState} (hk : k ≠ i) (hc : a.state ≠ .waitChild)
    (hj : a.state ≠ .waitJoin) : (s.settle i st k a).state = a.state := by
  unfold settle release wake
  simp only [if_neg hk,hc,false_and,if_false]
  split_ifs <;> rfl

/-! ## Ended agents -/

/-- Only a wait for a join moves an agent that has ended. -/
theorem act_terminal (hm : s.Enabled m) (hwait : ∀ j, m ≠ .await k j) (ha : s.agent k = some a)
    (ht : a.state.terminal = true) : (s.act m k a).state = a.state := by
  have hlive : ¬ s.LiveAt k := by
    rintro ⟨a',ha',hl⟩
    cases ha.symm.trans ha'
    simp [ht] at hl
  have hjoin : a.state ≠ .waitJoin := fun h => by simp [h,InvocationState.terminal] at ht
  have hchild : a.state ≠ .waitChild := fun h => by simp [h,InvocationState.terminal] at ht
  cases m with
  | drive f =>
    have hf : f k = none := by
      by_contra hne
      obtain ⟨st,hst⟩ := Option.ne_none_iff_exists'.mp hne
      exact hlive (hm k st hst).1
    simp [act,hf]
  | attach p c t fg =>
    have hc : k ≠ c := fun h => hlive (h ▸ hm.2.2.1)
    have hp : k ≠ p := fun h => hlive (h ▸ hm.2.1)
    simp [act,hc,hp]
  | await i j => simp [act,show k ≠ i from fun h => hwait j (h ▸ rfl)]
  | finish i st => exact settle_of_ne (fun h => hlive (h ▸ hm.1)) hchild hjoin
  | fire j sat =>
    unfold act wake
    dsimp only
    split_ifs <;> rfl
  | close w => simp [act,ht]
  | enter i b => rfl
  | openJoin j r => rfl

/-! ## Blocking children -/

/-- Every blocking child exists in its parent's workflow and ends no earlier than the parent
stops waiting for it, and an agent that waits for children waits for one. -/
structure Parked (s : Lifecycle) : Prop where
  child : ∀ p a c, s.agent p = some a → c ∈ a.blocking → c ≠ p ∧ ∃ b, s.agent c = some b ∧
    b.workflow = a.workflow ∧ (b.state.terminal = true → a.state.terminal = true)
  waits : ∀ p a, s.agent p = some a → a.state = .waitChild → a.blocking ≠ ∅

/-- The move completes no blocking child behind the back of its parent, and revives no agent
with an ended blocking child. -/
def Draining (s : Lifecycle) : Move → Prop
  | .finish i _ => ∀ p a, s.agent p = some a → a.state.terminal = false → i ∈ a.blocking →
      s.targetOf i = some p
  | .await i _ => ∀ a, s.agent i = some a → a.state.terminal = true → ∀ c ∈ a.blocking,
      s.LiveAt c
  | _ => True

theorem settle_blocking (st : InvocationState) (k : String) (a : Agent) :
    (s.settle i st k a).blocking =
      if s.targetOf i = some k then a.blocking.erase i else a.blocking := by
  unfold settle release wake
  dsimp only
  split_ifs <;> rfl

/-- Which agents have ended after a move. -/
theorem act_terminal_imp (hm : s.Enabled m)
    (ht : (s.act m k a).state.terminal = true) :
    a.state.terminal = true ∨ (∃ st, m = .finish k st) ∨
      (∃ w, m = .close w ∧ a.workflow = w) := by
  by_contra hno
  rw [not_or,not_or,Bool.not_eq_true] at hno
  obtain ⟨hlive,hfin,hclose⟩ := hno
  cases m with
  | drive f =>
    cases hf : f k with
    | none => simp [act,hf,hlive] at ht
    | some st =>
      have hact := (hm k st hf).2
      simp only [act,hf,Option.getD_some] at ht
      cases st <;> simp_all [InvocationState.active,InvocationState.terminal]
  | enter i b => simp [act,hlive] at ht
  | attach p c t fg =>
    simp only [act] at ht
    split_ifs at ht <;> simp_all [InvocationState.terminal]
  | await i j =>
    simp only [act] at ht
    split_ifs at ht <;> simp_all [InvocationState.terminal]
  | finish i st =>
    have hk : k ≠ i := fun h => hfin ⟨st,h ▸ rfl⟩
    simp only [act,settle,release,wake,if_neg hk] at ht
    split_ifs at ht <;> simp_all [InvocationState.terminal]
  | fire j sat =>
    simp only [act,wake] at ht
    split_ifs at ht <;> simp_all [InvocationState.terminal]
  | openJoin j r => simp [act,hlive] at ht
  | close w =>
    have hw : a.workflow ≠ w := fun h => hclose ⟨w,rfl,h⟩
    simp [act,hw,hlive] at ht

/-- Blocking sets grow only by linking and shrink only at the target of a completion. -/
theorem act_blocking (m : Move) (k : String) (a : Agent) :
    (s.act m k a).blocking = a.blocking ∨
      (∃ c t, m = .attach k c t true ∧ k ≠ c ∧ (s.act m k a).blocking = insert c a.blocking) ∨
      ∃ i st, m = .finish i st ∧ s.targetOf i = some k ∧
        (s.act m k a).blocking = a.blocking.erase i := by
  cases m with
  | attach p c t fg =>
    by_cases hk : k = c
    · exact .inl (by simp [act,hk])
    by_cases hp : k = p ∧ fg = true
    · obtain ⟨rfl,rfl⟩ := hp
      exact .inr (.inl ⟨c,t,rfl,hk,by simp [act,hk]⟩)
    · exact .inl (by simp only [act,if_neg hk,if_neg hp])
  | finish i st =>
    have hset := s.settle_blocking (i := i) st k a
    split_ifs at hset with ht
    · exact .inr (.inr ⟨i,st,rfl,ht,hset⟩)
    · exact .inl hset
  | await i j =>
    left
    simp only [act]
    split_ifs <;> rfl
  | fire j sat =>
    left
    simp only [act,wake]
    split_ifs <;> rfl
  | close w =>
    left
    simp only [act]
    split_ifs <;> rfl
  | drive f => exact .inl rfl
  | enter i b => exact .inl rfl
  | openJoin j r => exact .inl rfl

/-- An old blocking child that stays one keeps its promise. -/
theorem Parked.old_child (hp : s.Parked) (hm : s.Enabled m) (hd : s.Draining m) {p c : String}
    (ha : s.agent p = some a) (hc : c ∈ a.blocking) (hc' : c ∈ (s.act m p a).blocking) :
    c ≠ p ∧ ∃ b, (s.next m).agent c = some b ∧ b.workflow = (s.act m p a).workflow ∧
      (b.state.terminal = true → (s.act m p a).state.terminal = true) := by
  obtain ⟨hne,b,hb,hw,hend⟩ := hp.child p a c ha hc
  refine ⟨hne,_,agent_stays m hb,by rw [act_workflow,act_workflow,hw],fun ht => ?_⟩
  have hkeep (hat : a.state.terminal = true) (hwait : ∀ j, m ≠ .await p j) :
      (s.act m p a).state.terminal = true := by
    rw [act_terminal hm hwait ha hat]
    exact hat
  rcases act_terminal_imp hm ht with hbt | ⟨st,rfl⟩ | ⟨w,rfl,hbw⟩
  · refine hkeep (hend hbt) fun j hj => ?_
    subst hj
    obtain ⟨b',hb',hl⟩ := hd a ha (hend hbt) c hc
    cases hb.symm.trans hb'
    simp [hbt] at hl
  · -- The child ends now: its target drops it, so another parent has ended already.
    cases hat : a.state.terminal with
    | true => exact hkeep hat (by simp)
    | false =>
      have htarget := hd p a ha hat hc
      change c ∈ (s.settle c st p a).blocking at hc'
      rw [settle_blocking,if_pos htarget] at hc'
      exact absurd hc' (Finset.notMem_erase c _)
  · cases hat : a.state.terminal with
    | true => exact hkeep hat (by simp)
    | false =>
      simp only [act]
      rw [if_pos ⟨hw.symm.trans hbw,hat⟩]
      rfl

theorem Parked.next (hp : s.Parked) (hm : s.Enabled m) (hd : s.Draining m) : (s.next m).Parked := by
  constructor
  · intro p a' c ha' hc
    rcases agent_next hm ha' with ⟨a,ha,rfl⟩ | rfl
    · rcases act_blocking (s := s) m p a with hb | ⟨c',t,rfl,hne,hb⟩ | ⟨i,st,rfl,-,hb⟩
      · exact hp.old_child hm hd ha (hb ▸ hc) hc
      · by_cases hcc : c = c'
        · subst hcc
          obtain ⟨-,-,⟨b,hlive,-⟩,hw⟩ := hm
          refine ⟨Ne.symm hne,_,agent_stays _ hlive,?_,?_⟩
          · rw [act_workflow,act_workflow]
            simpa [ha,hlive] using hw.symm
          · simp [act,InvocationState.terminal]
        · rw [hb,Finset.mem_insert] at hc
          exact hp.old_child hm hd ha (hc.resolve_left hcc) (hb ▸ Finset.mem_insert_of_mem
            (hc.resolve_left hcc))
      · exact hp.old_child hm hd ha (Finset.mem_of_mem_erase (hb ▸ hc)) hc
    · rw [hm.2.2] at hc
      simp at hc
  · intro p a' ha' hwait
    rcases agent_next hm ha' with ⟨a,ha,rfl⟩ | rfl
    · have hold := hp.waits p a ha
      cases m with
      | drive f =>
        cases hf : f p with
        | none => exact hold (by simpa [act,hf] using hwait)
        | some st =>
          have hact := (hm p st hf).2
          simp only [act,hf,Option.getD_some] at hwait
          simp [hwait,InvocationState.active] at hact
      | attach q c t fg =>
        simp only [act] at hwait ⊢
        split_ifs at hwait ⊢
        · simp
        · exact hold hwait
      | await i j =>
        simp only [act] at hwait ⊢
        split_ifs at hwait ⊢
        exact hold hwait
      | finish i st =>
        have hst : st ≠ .waitChild := fun h => by simp [h,Enabled,InvocationState.terminal] at hm
        simp only [act,settle,release,wake] at hwait ⊢
        split_ifs at hwait ⊢ <;> simp_all
      | fire j sat =>
        simp only [act,wake] at hwait ⊢
        split_ifs at hwait ⊢ <;> simp_all
      | close w =>
        simp only [act] at hwait ⊢
        split_ifs at hwait ⊢
        exact hold hwait
      | enter i b => exact hold hwait
      | openJoin j r => exact hold hwait
    · simp [hm.2.1] at hwait

/-- When its last blocking child completes, a waiting parent is ready. -/
theorem Parked.ready_of_finish {p i : String} {st : InvocationState} (hp : s.Parked)
    (hd : s.Draining (.finish i st)) (ha : s.agent p = some a) (hwait : a.state = .waitChild)
    (hlast : a.blocking = {i}) : (s.act (.finish i st) p a).state = .ready := by
  have hi : i ∈ a.blocking := by simp [hlast]
  have hne := (hp.child p a i ha hi).1
  have htarget := hd p a ha (by simp [hwait,InvocationState.terminal]) hi
  simp [act,settle,Ne.symm hne,htarget,release,wake,hwait,hlast]

/-! ## Joins -/

/-- The mode of the join asks no more than the members that have ended. -/
def Due (s : Lifecycle) (r : JoinRecord) : Prop :=
  match r.mode with
  | .all => ∀ i ∈ r.memberInvocationIds, ∃ a, s.agent i = some a ∧ a.state.terminal = true
  | .any => ∃ i ∈ r.memberInvocationIds, ∃ a, s.agent i = some a ∧ a.state.terminal = true

/-- Waiting agents are recorded at the unsatisfied join they name; an unsatisfied join has
recorded every member that ended, and asks for more. -/
structure Joined (s : Lifecycle) : Prop where
  waiter : ∀ i a, s.agent i = some a → a.state = .waitJoin → ∃ j r, a.joinId = some j ∧
    s.join j = some r ∧ i ∈ r.waiterInvocationIds ∧ r.satisfied = false
  pending : ∀ j r, s.join j = some r → r.satisfied = false → joinIsSatisfied r = false ∧
    ∀ i a, i ∈ r.memberInvocationIds → s.agent i = some a → a.state.terminal = true →
      i ∈ r.completedMemberIds
  member : ∀ j r, s.join j = some r → r.memberInvocationIds ≠ ∅ ∧
    ∀ i ∈ r.memberInvocationIds, ∃ a, s.agent i = some a ∧ a.workflow = r.workflowId

/-- The move ends no workflow with an unsatisfied join. -/
def Settled (s : Lifecycle) : Move → Prop
  | .close w => ∀ j r, s.join j = some r → r.workflowId = w → r.satisfied = true
  | _ => True

theorem Joined.due_satisfied (hs : s.Joined) {j : String} {r : JoinRecord} (hr : s.join j = some r)
    (hdue : s.Due r) : r.satisfied = true := by
  by_contra hno
  rw [Bool.not_eq_true] at hno
  obtain ⟨hopen,hrec⟩ := hs.pending j r hr hno
  unfold Due at hdue
  unfold joinIsSatisfied at hopen
  cases hmode : r.mode with
  | all =>
    simp only [hmode,decide_eq_false_iff_not] at hdue hopen
    apply hopen
    intro i hi
    obtain ⟨a,ha,ht⟩ := hdue i hi
    exact hrec i a hi ha ht
  | any =>
    simp only [hmode,ne_eq,decide_not,Bool.not_eq_false',decide_eq_true_eq] at hdue hopen
    obtain ⟨i,hi,a,ha,ht⟩ := hdue
    have := hrec i a hi ha ht
    simp [hopen] at this

/-- An unsatisfied join still has a live member. -/
theorem Joined.live_member (hs : s.Joined) {j : String} {r : JoinRecord} (hr : s.join j = some r)
    (hno : r.satisfied = false) : ∃ i ∈ r.memberInvocationIds, s.LiveAt i := by
  by_contra hdead
  have hended : ∀ i ∈ r.memberInvocationIds, ∃ a, s.agent i = some a ∧ a.state.terminal = true := by
    intro i hi
    obtain ⟨a,ha,-⟩ := (hs.member j r hr).2 i hi
    refine ⟨a,ha,?_⟩
    by_contra ht
    exact hdead ⟨i,hi,a,ha,by simpa using ht⟩
  have hdue : s.Due r := by
    unfold Due
    cases r.mode with
    | all => exact hended
    | any =>
      obtain ⟨i,hi⟩ := Finset.nonempty_iff_ne_empty.mpr (hs.member j r hr).1
      exact ⟨i,hi,hended i hi⟩
  simp [hs.due_satisfied hr hdue] at hno

section JoinRecords
variable {j : String} {r : JoinRecord}

theorem complete_of_not_fired (i : String) (h : ¬ r.FiredBy i) : r.complete i =
    if i ∈ r.memberInvocationIds then
      { r with completedMemberIds := insert i r.completedMemberIds } else r := by
  unfold JoinRecord.complete
  unfold JoinRecord.FiredBy at h
  split_ifs with hi <;> simp_all

theorem complete_of_fired (i : String) (h : r.FiredBy i) : (r.complete i).satisfied = true := by
  unfold JoinRecord.complete
  simp [h.1,h.2]

/-- A completion keeps the members, the workflow and the waiters of every join. -/
theorem complete_keeps (i : String) : (r.complete i).memberInvocationIds = r.memberInvocationIds ∧
    (r.complete i).workflowId = r.workflowId ∧
    (r.complete i).waiterInvocationIds = r.waiterInvocationIds := by
  unfold JoinRecord.complete
  dsimp only
  split_ifs <;> exact ⟨rfl,rfl,rfl⟩

theorem actJoin_keeps (m : Move) (j : String) (r : JoinRecord) :
    (actJoin m j r).memberInvocationIds = r.memberInvocationIds ∧
      (actJoin m j r).workflowId = r.workflowId ∧
      r.waiterInvocationIds ⊆ (actJoin m j r).waiterInvocationIds := by
  cases m with
  | await i k =>
    simp only [actJoin]
    split_ifs
    · exact ⟨rfl,rfl,Finset.subset_insert _ _⟩
    · exact ⟨rfl,rfl,subset_rfl⟩
  | finish i st =>
    obtain ⟨h₁,h₂,h₃⟩ := complete_keeps (r := r) i
    exact ⟨h₁,h₂,h₃ ▸ subset_rfl⟩
  | fire k sat =>
    simp only [actJoin]
    split_ifs <;> exact ⟨rfl,rfl,subset_rfl⟩
  | _ => exact ⟨rfl,rfl,subset_rfl⟩

/-- An unsatisfied join after a move was unsatisfied before it, and not fired by it. -/
theorem actJoin_unsatisfied (h : (actJoin m j r).satisfied = false) : r.satisfied = false ∧
    (∀ i st, m = .finish i st → ¬ r.FiredBy i) := by
  cases m with
  | await i k =>
    refine ⟨?_,by simp⟩
    simp only [actJoin] at h
    split_ifs at h <;> exact h
  | finish i st =>
    by_cases hf : r.FiredBy i
    · simp [actJoin,complete_of_fired i hf] at h
    · refine ⟨?_,fun i' st' he => by cases he; exact hf⟩
      simp only [actJoin,complete_of_not_fired i hf] at h
      split_ifs at h <;> exact h
  | fire k sat =>
    refine ⟨?_,by simp⟩
    simp only [actJoin] at h
    split_ifs at h
    · exact (Bool.or_eq_false_iff.mp h).2
    · exact h
  | _ => exact ⟨h,by simp⟩

/-- A move records completed members and changes nothing else a join is judged by. -/
theorem actJoin_completed (m : Move) (j : String) (r : JoinRecord) :
    (actJoin m j r).mode = r.mode ∧ r.completedMemberIds ⊆ (actJoin m j r).completedMemberIds ∧
      (∀ i st, m = .finish i st → i ∈ r.memberInvocationIds →
        i ∈ (actJoin m j r).completedMemberIds) ∧
      ((∀ i st, m = .finish i st → ¬ r.FiredBy i) → joinIsSatisfied r = false →
        joinIsSatisfied (actJoin m j r) = false) := by
  cases m with
  | await i k =>
    simp only [actJoin]
    split_ifs <;> exact ⟨rfl,subset_rfl,by simp,fun _ h => h⟩
  | finish i st =>
    by_cases hf : r.FiredBy i
    · have hc : r.complete i = { r with
          completedMemberIds := insert i r.completedMemberIds, satisfied := true } := by
        unfold JoinRecord.complete
        simp [hf.1,hf.2]
      refine ⟨by simp [actJoin,hc],by simp [actJoin,hc],fun i' st' he _ => ?_,
        fun hno => absurd hf (hno i st rfl)⟩
      cases he
      simp [actJoin,hc]
    · simp only [actJoin,complete_of_not_fired i hf]
      split_ifs with hi
      · refine ⟨rfl,Finset.subset_insert _ _,fun i' st' he _ => ?_,fun _ _ => ?_⟩
        · cases he
          exact Finset.mem_insert_self _ _
        · unfold JoinRecord.FiredBy at hf
          simpa [hi] using hf
      · refine ⟨rfl,subset_rfl,fun i' st' he hmem => ?_,fun _ h => h⟩
        cases he
        exact absurd hmem hi
  | fire k sat =>
    simp only [actJoin]
    split_ifs <;> exact ⟨rfl,subset_rfl,by simp,fun _ h => h⟩
  | _ => exact ⟨rfl,subset_rfl,by simp,fun _ h => h⟩

end JoinRecords

/-- An agent that waits for a join after a move starts to wait now, or waited for the same
join before and was not woken. -/
theorem act_waitJoin (hm : s.Enabled m) (h : (s.act m k a).state = .waitJoin) :
    (∃ j, m = .await k j ∧ (s.join j).any JoinRecord.satisfied = false ∧
      (s.act m k a).joinId = some j) ∨
    (a.state = .waitJoin ∧ (s.act m k a).joinId = a.joinId ∧
      (∀ i st, m = .finish i st → ¬ s.WokenBy i k) ∧
      ∀ j sat, m = .fire j sat → (s.join j).any (fun r => k ∈ r.waiterInvocationIds) = false) := by
  cases m with
  | drive f =>
    cases hf : f k with
    | none => exact .inr ⟨by simpa [act,hf] using h,rfl,by simp,by simp⟩
    | some st =>
      have hact := (hm k st hf).2
      simp only [act,hf,Option.getD_some] at h
      simp [h,InvocationState.active] at hact
  | attach p c t fg =>
    right
    simp only [act] at h ⊢
    split_ifs at h ⊢
    exact ⟨h,rfl,by simp,by simp⟩
  | await i j =>
    simp only [act] at h ⊢
    split_ifs at h ⊢ with hk hsat
    · left
      exact ⟨j,by rw [hk],by simpa using hsat,rfl⟩
    · exact .inr ⟨h,rfl,by simp,by simp⟩
  | finish i st =>
    right
    have hst : st ≠ .waitJoin := fun h => by simp [h,Enabled,InvocationState.terminal] at hm
    simp only [act,settle,release,wake] at h ⊢
    split_ifs at h ⊢ <;> simp_all
  | fire j sat =>
    right
    simp only [act,wake] at h ⊢
    split_ifs at h ⊢ <;> simp_all
  | close w =>
    right
    simp only [act] at h ⊢
    split_ifs at h ⊢
    exact ⟨h,rfl,by simp,by simp⟩
  | enter i b => exact .inr ⟨h,rfl,by simp,by simp⟩
  | openJoin j r => exact .inr ⟨h,rfl,by simp,by simp⟩

theorem join_stays {j : String} {r : JoinRecord} (m : Move) (hr : s.join j = some r) :
    (s.next m).join j = some (actJoin m j r) := by
  simp [Lifecycle.next,hr]

theorem Joined.next (hs : s.Joined) (hm : s.Enabled m) (hset : s.Settled m) :
    (s.next m).Joined := by
  refine ⟨fun k a' ha' hwait => ?_,fun j r' hr' hno => ?_,fun j r' hr' => ?_⟩
  · rcases agent_next hm ha' with ⟨a,ha,rfl⟩ | rfl
    · rcases act_waitJoin hm hwait with ⟨j,rfl,hunsat,hid⟩ | ⟨hold,hid,hfin,hfire⟩
      · obtain ⟨-,r,hr⟩ := hm
        refine ⟨j,_,hid,join_stays _ hr,by simp [actJoin],?_⟩
        simpa [actJoin,hr] using hunsat
      · obtain ⟨j,r,hj,hr,hmem,hunsat⟩ := hs.waiter k a ha hold
        refine ⟨j,_,hid.trans hj,join_stays m hr,(actJoin_keeps m j r).2.2 hmem,?_⟩
        cases m with
        | finish i st =>
          have hnot : ¬ r.FiredBy i := fun hf => hfin i st rfl ⟨j,r,hr,hf,hmem⟩
          simp only [actJoin,complete_of_not_fired i hnot]
          split_ifs <;> exact hunsat
        | fire j' sat =>
          have hne : j ≠ j' := by
            rintro rfl
            simpa [hr,hmem] using hfire j sat rfl
          simp [actJoin,hne,hunsat]
        | await i j' =>
          simp only [actJoin]
          split_ifs <;> exact hunsat
        | _ => exact hunsat
    · simp [hm.2.1] at hwait
  · rcases join_next hr' with ⟨r,hr,rfl⟩ | rfl
    · obtain ⟨hunsat,hfired⟩ := actJoin_unsatisfied hno
      obtain ⟨hopen,hrec⟩ := hs.pending j r hr hunsat
      obtain ⟨-,hsub,hself,hstill⟩ := actJoin_completed m j r
      refine ⟨hstill hfired hopen,fun i a' hi ha' ht => ?_⟩
      rw [(actJoin_keeps m j r).1] at hi
      rcases agent_next hm ha' with ⟨a,ha,rfl⟩ | rfl
      · rcases act_terminal_imp hm ht with hat | ⟨st,rfl⟩ | ⟨w,rfl,hw⟩
        · exact hsub (hrec i a hi ha hat)
        · exact hself i st rfl hi
        · obtain ⟨b,hb,hbw⟩ := (hs.member j r hr).2 i hi
          cases ha.symm.trans hb
          rw [hset j r hr (hbw.symm.trans hw)] at hunsat
          cases hunsat
      · simp [hm.2.1,InvocationState.terminal] at ht
    · obtain ⟨-,-,hsat,-,hmem⟩ := hm
      refine ⟨hsat ▸ hno,fun i a hi ha ht => ?_⟩
      obtain ⟨b,hb,-,hb'⟩ := hmem i hi
      have hab : a = b := by simpa [Lifecycle.next,act,Move.newcomer,hb] using ha.symm
      exact hb' (hab ▸ ht)
  · rcases join_next hr' with ⟨r,hr,rfl⟩ | rfl
    · obtain ⟨h₁,h₂,-⟩ := actJoin_keeps m j r
      obtain ⟨hne,hmem⟩ := hs.member j r hr
      refine ⟨h₁ ▸ hne,fun i hi => ?_⟩
      obtain ⟨a,ha,hw⟩ := hmem i (h₁ ▸ hi)
      exact ⟨_,agent_stays m ha,by rw [act_workflow,hw,h₂]⟩
    · obtain ⟨-,hne,-,-,hmem⟩ := hm
      refine ⟨hne,fun i hi => ?_⟩
      obtain ⟨a,ha,hw,-⟩ := hmem i hi
      exact ⟨_,agent_stays _ ha,hw⟩

end Lifecycle
end BeliefKV
