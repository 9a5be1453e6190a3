import BeliefKV.Lib.Run
import BeliefKV.JointShadow.Coalesce

/-! The capacity-one worker that plans from the newest publication. Deltas that wait are merged; a
snapshot replaces what waits. -/
namespace BeliefKV.JointShadow
variable {E T R I P : Type}

/-- What waits for the worker: a snapshot or a group of deltas. -/
structure WorkItem (E T R I : Type) where
  sequence : ℕ
  policyInput : Option I := none
  deltas : List (JointShadowDelta E T R) := []

/-- A result, without its times and its trigger. -/
structure JointShadowResult (I P : Type) where
  sequence : ℕ
  policyInput : Option I
  plan : Option P
  error : Option Raised

structure JointShadowSubmission where
  sequence : ℕ
  replacedSequence : Option ℕ

/-- What the assembler and the planner answer while the thread works on an item. -/
structure Answers (I P : Type) where
  apply : Except Raised Unit
  build : Except Raised I
  plan : Except Raised P

/-- The worker. `thread` is the item its thread has taken, and `applied` lists the deltas that were
handed to the assembler. -/
structure LatestWinsJointPlanWorker (E T R I P : Type) where
  hasAssembler : Bool := true
  pending : Option (WorkItem E T R I) := none
  latestResult : Option (JointShadowResult I P) := none
  closed : Bool := false
  busy : Bool := false
  nextSequence : ℕ := 0
  submittedCount : ℕ := 0
  startedCount : ℕ := 0
  completedCount : ℕ := 0
  failedCount : ℕ := 0
  droppedPendingCount : ℕ := 0
  coalescedPendingCount : ℕ := 0
  supersededResultCount : ℕ := 0
  thread : Option (WorkItem E T R I) := none
  applied : List (JointShadowDelta E T R) := []

namespace WorkItem
variable (item : WorkItem E T R I)

/-- The policy input of an item that brings deltas is assembled from them. -/
def assemble (answers : Answers I P) : Except Raised (Option I) :=
  if item.deltas.isEmpty then .ok item.policyInput
  else do
    let _ ← coalesceJointShadowDeltas item.deltas
    answers.apply
    return some (← answers.build)

def evaluate (answers : Answers I P) : JointShadowResult I P :=
  match item.assemble answers with
  | .error e => ⟨item.sequence,item.policyInput,none,some e⟩
  | .ok none =>
    ⟨item.sequence,none,none,some (.runtimeError "joint shadow work item has no policy input")⟩
  | .ok (some input) =>
    match answers.plan with
    | .error e => ⟨item.sequence,some input,none,some e⟩
    | .ok plan => ⟨item.sequence,some input,some plan,none⟩

@[simp] theorem evaluate_sequence (answers : Answers I P) :
    (item.evaluate answers).sequence = item.sequence := by
  unfold evaluate
  cases item.assemble answers with
  | error e => rfl
  | ok input =>
    cases input with
    | none => rfl
    | some input => cases answers.plan <;> rfl

/-- The delta the assembler gets for an item, if the group has no gap. -/
def handed : List (JointShadowDelta E T R) :=
  if item.deltas.isEmpty then [] else (coalesceJointShadowDeltas item.deltas).toOption.toList

end WorkItem

namespace LatestWinsJointPlanWorker
variable (w : LatestWinsJointPlanWorker E T R I P)

def submit (policyInput : I) :
    LatestWinsJointPlanWorker E T R I P × Except Raised JointShadowSubmission :=
  if w.closed then (w,.error (.runtimeError "joint shadow worker is closed"))
  else
    let sequence := w.nextSequence + 1
    ({ w with
        nextSequence := sequence
        droppedPendingCount := w.droppedPendingCount + w.pending.isSome.toNat
        pending := some { sequence := sequence, policyInput := some policyInput }
        submittedCount := w.submittedCount + 1 },
      .ok ⟨sequence,w.pending.map WorkItem.sequence⟩)

/-- The sequence is used up even when the delta is refused. -/
def submitDelta (delta : JointShadowDelta E T R) :
    LatestWinsJointPlanWorker E T R I P × Except Raised JointShadowSubmission :=
  if w.hasAssembler = false then
    (w,.error (.runtimeError "joint shadow worker has no incremental assembler"))
  else if w.closed then (w,.error (.runtimeError "joint shadow worker is closed"))
  else
    let sequence := w.nextSequence + 1
    if w.pending.any (·.policyInput.isSome) then
      ({ w with nextSequence := sequence },
        .error (.runtimeError "cannot mix legacy snapshots and incremental deltas"))
    else
      let pendingDeltas := (w.pending.map WorkItem.deltas).getD []
      ({ w with
          nextSequence := sequence
          coalescedPendingCount := w.coalescedPendingCount + w.pending.isSome.toNat
          pending := some { sequence := sequence, deltas := pendingDeltas ++ [delta] }
          submittedCount := w.submittedCount + 1 },
        .ok ⟨sequence,w.pending.map WorkItem.sequence⟩)

def latest (afterSequence : ℕ) : Option (JointShadowResult I P) :=
  w.latestResult.filter (afterSequence < ·.sequence)

/-- The waiting item is dropped. -/
def close : LatestWinsJointPlanWorker E T R I P :=
  if w.closed then w
  else { w with
    closed := true
    pending := none
    droppedPendingCount := w.droppedPendingCount + w.pending.isSome.toNat }

/-- The thread takes the waiting item, if it waits for one. -/
def start : LatestWinsJointPlanWorker E T R I P :=
  if w.closed ∨ w.thread.isSome ∨ w.pending = none then w
  else { w with
    thread := w.pending
    pending := none
    busy := true
    startedCount := w.startedCount + 1 }

/-- The end of an item: it is evaluated outside the lock, then its result is published unless
something newer waits. -/
def finish (item : WorkItem E T R I) (answers : Answers I P) : LatestWinsJointPlanWorker E T R I P :=
  let result := item.evaluate answers
  let superseded := w.pending.any (result.sequence < ·.sequence)
  { w with
    thread := none
    applied := w.applied ++ item.handed
    busy := false
    completedCount := w.completedCount + 1
    failedCount := w.failedCount + result.error.isSome.toNat
    supersededResultCount := w.supersededResultCount + superseded.toNat
    latestResult :=
      if superseded then w.latestResult
      else if w.latestResult.all (·.sequence < result.sequence) then some result
      else w.latestResult }

def complete (answers : Answers I P) : LatestWinsJointPlanWorker E T R I P :=
  match w.thread with
  | none => w
  | some item => w.finish item answers

end LatestWinsJointPlanWorker

/-! ## Interleavings -/

/-- The calls of the publisher and the sections of the thread, each under the lock. -/
inductive WorkerStep (E T R I P : Type)
  | submit (policyInput : I)
  | submitDelta (delta : JointShadowDelta E T R)
  | start
  | complete (answers : Answers I P)
  | close

namespace LatestWinsJointPlanWorker
variable {w : LatestWinsJointPlanWorker E T R I P}

def step (w : LatestWinsJointPlanWorker E T R I P) :
    WorkerStep E T R I P → LatestWinsJointPlanWorker E T R I P
  | .submit policyInput => (w.submit policyInput).1
  | .submitDelta delta => (w.submitDelta delta).1
  | .start => w.start
  | .complete answers => w.complete answers
  | .close => w.close

/-- The delta a step brings, if it is accepted. -/
def brought (w : LatestWinsJointPlanWorker E T R I P) :
    WorkerStep E T R I P → List (JointShadowDelta E T R)
  | .submitDelta delta => if (w.submitDelta delta).2.isOk then [delta] else []
  | .submit _ | .start | .complete _ | .close => []

/-- The deltas accepted along a run, in the order of their submission. -/
def accepted (w : LatestWinsJointPlanWorker E T R I P) :
    List (WorkerStep E T R I P) → List (JointShadowDelta E T R)
  | [] => []
  | s :: steps => w.brought s ++ accepted (w.step s) steps

/-- The deltas of an item that is worked on or waits. -/
def deltasOf (item : Option (WorkItem E T R I)) : List (JointShadowDelta E T R) :=
  (item.map WorkItem.deltas).getD []

/-- A snapshot does not replace deltas, and a delta continues the group that waits. -/
def Mergeable (w : LatestWinsJointPlanWorker E T R I P) : WorkerStep E T R I P → Prop
  | .submit _ => deltasOf w.pending = []
  | .submitDelta delta => ∀ last ∈ (deltasOf w.pending).getLast?, Follows last delta
  | .start => True
  | .complete _ => True
  | .close => False

/-- A delta is refused, or merged with what waits. -/
theorem submitDelta_cases (delta : JointShadowDelta E T R) :
    ((w.submitDelta delta).2.isOk = false ∧ (w.submitDelta delta).1.pending = w.pending ∧
      (w.submitDelta delta).1.thread = w.thread ∧ (w.submitDelta delta).1.applied = w.applied) ∨
    ((w.submitDelta delta).2.isOk = true ∧ (w.submitDelta delta).1 = { w with
      nextSequence := w.nextSequence + 1
      coalescedPendingCount := w.coalescedPendingCount + w.pending.isSome.toNat
      pending := some { sequence := w.nextSequence + 1, deltas := deltasOf w.pending ++ [delta] }
      submittedCount := w.submittedCount + 1 }) := by
  unfold submitDelta
  split_ifs
  · exact .inl ⟨rfl,rfl,rfl,rfl⟩
  · exact .inl ⟨rfl,rfl,rfl,rfl⟩
  · exact .inl ⟨rfl,rfl,rfl,rfl⟩
  · exact .inr ⟨rfl,rfl⟩

/-! ## The counts -/

/-- The counts fit together. -/
structure Counted (w : LatestWinsJointPlanWorker E T R I P) : Prop where
  submitted : w.submittedCount = w.startedCount + w.droppedPendingCount + w.coalescedPendingCount +
    w.pending.isSome.toNat
  started : w.startedCount = w.completedCount + w.busy.toNat
  busy : w.busy = w.thread.isSome

theorem Counted.step (h : w.Counted) (s : WorkerStep E T R I P) : (w.step s).Counted := by
  obtain ⟨hsub,hstart,hbusy⟩ := h
  cases s with
  | submit policyInput =>
    unfold LatestWinsJointPlanWorker.step submit
    split_ifs with hclosed
    · exact ⟨hsub,hstart,hbusy⟩
    · refine ⟨?_,hstart,hbusy⟩
      simp only [Option.isSome_some,Bool.toNat_true]
      omega
  | submitDelta delta =>
    unfold LatestWinsJointPlanWorker.step submitDelta
    split_ifs with hassembler hclosed hmixed
    · exact ⟨hsub,hstart,hbusy⟩
    · exact ⟨hsub,hstart,hbusy⟩
    · exact ⟨hsub,hstart,hbusy⟩
    · refine ⟨?_,hstart,hbusy⟩
      simp only [Option.isSome_some,Bool.toNat_true]
      omega
  | start =>
    unfold LatestWinsJointPlanWorker.step start
    split_ifs with hwait
    · exact ⟨hsub,hstart,hbusy⟩
    · rw [not_or,not_or] at hwait
      have hpending : w.pending.isSome = true := Option.isSome_iff_ne_none.mpr hwait.2.2
      have hidle : w.busy = false := by rw [hbusy,Bool.eq_false_iff]; exact hwait.2.1
      rw [hpending,Bool.toNat_true] at hsub
      rw [hidle,Bool.toNat_false] at hstart
      refine ⟨?_,?_,hpending.symm⟩
      · simp only [Option.isSome_none,Bool.toNat_false]
        omega
      · simp only [Bool.toNat_true]
        omega
  | complete answers =>
    unfold LatestWinsJointPlanWorker.step complete
    cases hthread : w.thread with
    | none => exact ⟨hsub,hstart,hbusy⟩
    | some item =>
      rw [hthread] at hbusy
      rw [hbusy,Option.isSome_some,Bool.toNat_true] at hstart
      refine ⟨hsub,?_,rfl⟩
      simp only [finish,Bool.toNat_false]
      omega
  | close =>
    unfold LatestWinsJointPlanWorker.step close
    split_ifs with hclosed
    · exact ⟨hsub,hstart,hbusy⟩
    · refine ⟨?_,hstart,hbusy⟩
      simp only [Option.isSome_none,Bool.toNat_false]
      omega

/-! ## The latest result -/

/-- The latest result is only replaced by a later one. -/
theorem latestResult_step (s : WorkerStep E T R I P) {r : JointShadowResult I P}
    (h : w.latestResult = some r) :
    ∃ r', (w.step s).latestResult = some r' ∧ r.sequence ≤ r'.sequence := by
  have hsame {w' : LatestWinsJointPlanWorker E T R I P} (heq : w'.latestResult = w.latestResult) :
      ∃ r', w'.latestResult = some r' ∧ r.sequence ≤ r'.sequence := ⟨r,heq.trans h,le_rfl⟩
  cases s with
  | submit policyInput =>
    unfold LatestWinsJointPlanWorker.step submit
    split_ifs
    · exact hsame rfl
    · exact hsame rfl
  | submitDelta delta =>
    unfold LatestWinsJointPlanWorker.step submitDelta
    split_ifs
    · exact hsame rfl
    · exact hsame rfl
    · exact hsame rfl
    · exact hsame rfl
  | start =>
    unfold LatestWinsJointPlanWorker.step start
    split_ifs
    · exact hsame rfl
    · exact hsame rfl
  | complete answers =>
    unfold LatestWinsJointPlanWorker.step complete
    cases hthread : w.thread with
    | none => exact hsame rfl
    | some item =>
      simp only [finish,h]
      split_ifs with hsuper hlater
      · exact ⟨r,rfl,le_rfl⟩
      · exact ⟨_,rfl,le_of_lt (by simpa using hlater)⟩
      · exact ⟨r,rfl,le_rfl⟩
  | close =>
    unfold LatestWinsJointPlanWorker.step close
    split_ifs
    · exact hsame rfl
    · exact hsame rfl

theorem latest_run (steps : List (WorkerStep E T R I P)) {after : ℕ} {r : JointShadowResult I P}
    (h : w.latest after = some r) :
    ∃ r', (steps.foldl step w).latest after = some r' ∧ r.sequence ≤ r'.sequence := by
  induction steps generalizing w r with
  | nil => exact ⟨r,h,le_rfl⟩
  | cons s steps ih =>
    obtain ⟨hr,hafter⟩ := Option.filter_eq_some_iff.mp h
    rw [decide_eq_true_eq] at hafter
    obtain ⟨r',hr',hle⟩ := latestResult_step s hr
    have hnext : (w.step s).latest after = some r' :=
      Option.filter_eq_some_iff.mpr ⟨hr',by simpa using hafter.trans_le hle⟩
    obtain ⟨r'',hr'',hle'⟩ := ih hnext
    exact ⟨r'',hr'',hle.trans hle'⟩

/-! ## The deltas -/

/-- The deltas were handed to the assembler once each and in order, in coalesced groups. -/
def HandsOver (w : LatestWinsJointPlanWorker E T R I P) (groups : List (List (JointShadowDelta E T R))) :
    Prop :=
  groups.map coalesceJointShadowDeltas = w.applied.map .ok

/-- What was accepted is with the assembler, in the hands of the thread, or waits. -/
structure Conserved (w : LatestWinsJointPlanWorker E T R I P)
    (accepted : List (JointShadowDelta E T R)) : Prop where
  groups : ∃ groups : List (List (JointShadowDelta E T R)), w.HandsOver groups ∧
    groups.flatten ++ deltasOf w.thread ++ deltasOf w.pending = accepted
  thread : (deltasOf w.thread).IsChain Follows
  pending : (deltasOf w.pending).IsChain Follows

theorem coalesce_of_chain {ds : List (JointShadowDelta E T R)} (hne : ds ≠ []) (h : ds.IsChain Follows) :
    ∃ D, coalesceJointShadowDeltas ds = .ok D := by
  cases hc : coalesceJointShadowDeltas ds with
  | error e => exact absurd h ((coalesce_error_iff ds hne).mp ⟨e,hc⟩)
  | ok D => exact ⟨D,rfl⟩

theorem Conserved.finish {accepted : List (JointShadowDelta E T R)} (h : w.Conserved accepted)
    {item : WorkItem E T R I} (hthread : w.thread = some item) (answers : Answers I P) :
    (w.finish item answers).Conserved accepted := by
  obtain ⟨⟨groups,happlied,hflat⟩,hchain,hpending⟩ := h
  have hof : deltasOf w.thread = item.deltas := by rw [hthread]; rfl
  rw [hof] at hflat hchain
  refine ⟨?_,List.isChain_nil,hpending⟩
  by_cases hempty : item.deltas = []
  · refine ⟨groups,?_,?_⟩
    · unfold HandsOver at happlied ⊢
      simp [LatestWinsJointPlanWorker.finish,WorkItem.handed,hempty,happlied]
    · rw [hempty] at hflat
      exact hflat
  · obtain ⟨D,hD⟩ := coalesce_of_chain hempty hchain
    refine ⟨groups ++ [item.deltas],?_,?_⟩
    · unfold HandsOver at happlied ⊢
      simp [LatestWinsJointPlanWorker.finish,WorkItem.handed,hempty,hD,happlied,Except.toOption]
    · rw [List.flatten_append,List.flatten_singleton]
      exact (congrArg (· ++ _) (List.append_nil _)).trans hflat

theorem Conserved.step {accepted : List (JointShadowDelta E T R)} (h : w.Conserved accepted)
    (s : WorkerStep E T R I P) (hs : w.Mergeable s) :
    (w.step s).Conserved (accepted ++ w.brought s) := by
  cases s with
  | submit policyInput =>
    rw [brought,List.append_nil]
    unfold LatestWinsJointPlanWorker.step submit
    split_ifs
    · exact h
    · -- Nothing but a snapshot is replaced.
      obtain ⟨⟨groups,happlied,hflat⟩,hchain,-⟩ := h
      rw [show deltasOf w.pending = [] from hs] at hflat
      exact ⟨⟨groups,happlied,hflat⟩,hchain,List.isChain_nil⟩
  | submitDelta delta =>
    simp only [LatestWinsJointPlanWorker.step,brought]
    rcases submitDelta_cases (w := w) delta with ⟨hno,hpending,hthread,happlied⟩ | ⟨hyes,heq⟩
    · rw [if_neg (by simp [hno]),List.append_nil]
      obtain ⟨hgroups,hchain,hwait⟩ := h
      unfold HandsOver at hgroups
      rw [← hthread,← hpending,← happlied] at hgroups
      exact ⟨hgroups,hthread ▸ hchain,hpending ▸ hwait⟩
    · rw [if_pos hyes,heq]
      obtain ⟨⟨groups,happlied,hflat⟩,hchain,hpending⟩ := h
      refine ⟨⟨groups,happlied,?_⟩,hchain,?_⟩
      · rw [← hflat,List.append_assoc _ _ [delta]]
        rfl
      · refine List.IsChain.append hpending (List.isChain_singleton delta) fun last hlast x hx => ?_
        rw [List.head?_cons,Option.mem_some_iff] at hx
        subst hx
        exact hs last hlast
  | start =>
    rw [brought,List.append_nil]
    unfold LatestWinsJointPlanWorker.step start
    split_ifs with hwait
    · exact h
    · rw [not_or,not_or] at hwait
      obtain ⟨⟨groups,happlied,hflat⟩,-,hpending⟩ := h
      have hidle : deltasOf w.thread = [] := by
        rw [Option.not_isSome_iff_eq_none.mp hwait.2.1]
        rfl
      rw [hidle,List.append_nil] at hflat
      refine ⟨⟨groups,happlied,?_⟩,hpending,List.isChain_nil⟩
      exact (List.append_nil _).trans hflat
  | complete answers =>
    rw [brought,List.append_nil]
    unfold LatestWinsJointPlanWorker.step complete
    cases hthread : w.thread with
    | none => exact h
    | some item => exact h.finish hthread answers
  | close => exact hs.elim

theorem Conserved.run {before : List (JointShadowDelta E T R)} (h : w.Conserved before)
    (steps : List (WorkerStep E T R I P)) (hall : Run.AllSteps LatestWinsJointPlanWorker.step Mergeable w steps) :
    (steps.foldl LatestWinsJointPlanWorker.step w).Conserved (before ++ w.accepted steps) := by
  induction steps generalizing w before with
  | nil =>
    rw [accepted,List.append_nil]
    exact h
  | cons s steps ih =>
    have hrun := ih (h.step s hall.1) hall.2
    rw [accepted,← List.append_assoc]
    exact hrun

/-- The thread ends its item, takes what waits and ends that. -/
def drain (first second : Answers I P) : List (WorkerStep E T R I P) :=
  [.complete first,.start,.complete second]

theorem thread_complete (answers : Answers I P) : (w.complete answers).thread = none := by
  unfold complete
  cases hthread : w.thread with
  | none => exact hthread
  | some item => rfl

theorem closed_step (s : WorkerStep E T R I P) (hs : w.Mergeable s) : (w.step s).closed = w.closed := by
  cases s with
  | submit policyInput =>
    unfold step submit
    split_ifs <;> rfl
  | submitDelta delta =>
    unfold step submitDelta
    split_ifs <;> rfl
  | start =>
    unfold step start
    split_ifs <;> rfl
  | complete answers =>
    unfold step complete
    cases w.thread <;> rfl
  | close => exact hs.elim

/-- Once the thread has come round, nothing is left outside the assembler. -/
theorem drain_empty (hopen : w.closed = false) (first second : Answers I P) :
    ((drain first second).foldl step w).thread = none ∧
      ((drain first second).foldl step w).pending = none := by
  set w₁ := w.complete first with hw₁
  have hthread : w₁.thread = none := thread_complete first
  have hclosed : w₁.closed = false := by
    rw [← hopen]
    exact closed_step (.complete first) trivial
  have hpending : w₁.start.pending = none := by
    unfold start
    split_ifs with hwait
    · simpa [hclosed,hthread] using hwait
    · rfl
  refine ⟨thread_complete second,?_⟩
  change (w₁.start.complete second).pending = none
  unfold complete
  cases w₁.start.thread with
  | none => exact hpending
  | some item => exact hpending

/-- A new worker after some steps. -/
def run (hasAssembler : Bool) (steps : List (WorkerStep E T R I P)) :
    LatestWinsJointPlanWorker E T R I P :=
  steps.foldl step { hasAssembler := hasAssembler }

/-- As long as no snapshot is submitted over waiting deltas and every delta continues the group it
is merged with, the accepted deltas reach the assembler once each and in order, those apart that the
thread holds or that wait; the counts fit, and the latest result only moves on. -/
theorem deltas_handed_once (hasAssembler : Bool) (steps : List (WorkerStep E T R I P))
    (h : Run.AllSteps step Mergeable { hasAssembler := hasAssembler } steps) :
    (∃ groups : List (List (JointShadowDelta E T R)), (run hasAssembler steps).HandsOver groups ∧
        groups.flatten ++ deltasOf (run hasAssembler steps).thread ++
          deltasOf (run hasAssembler steps).pending = accepted { hasAssembler := hasAssembler } steps) ∧
      (∀ first second : Answers I P, ∃ groups : List (List (JointShadowDelta E T R)),
        (run hasAssembler (steps ++ drain first second)).HandsOver groups ∧
          groups.flatten = accepted { hasAssembler := hasAssembler } steps) ∧
      (run hasAssembler steps).Counted ∧
      ∀ (more : List (WorkerStep E T R I P)) (after : ℕ) (r : JointShadowResult I P),
        (run hasAssembler steps).latest after = some r →
          ∃ r', (run hasAssembler (steps ++ more)).latest after = some r' ∧ r.sequence ≤ r'.sequence := by
  have hempty : Conserved ({ hasAssembler := hasAssembler } : LatestWinsJointPlanWorker E T R I P) [] :=
    ⟨⟨[],rfl,rfl⟩,List.isChain_nil,List.isChain_nil⟩
  have hconserved := hempty.run steps h
  have hopen : (run hasAssembler steps).closed = false :=
    Run.AllSteps.invariant (I := fun w => w.closed = false)
      (fun w s hw hs => (closed_step s hs).trans hw) rfl h
  have hcounted : (run hasAssembler steps).Counted :=
    Run.AllSteps.invariant (I := Counted) (fun w s hw _ => hw.step s) ⟨rfl,rfl,rfl⟩ h
  refine ⟨hconserved.groups,fun first second => ?_,hcounted,fun more after r hr => ?_⟩
  · have hdrained := hconserved.run (drain first second) ⟨trivial,trivial,trivial,trivial⟩
    obtain ⟨hthread,hpending⟩ := drain_empty hopen first second
    obtain ⟨groups,hover,hflat⟩ := hdrained.groups
    unfold run at hthread hpending ⊢
    rw [hthread,hpending] at hflat
    rw [List.foldl_append]
    refine ⟨groups,hover,?_⟩
    simpa [deltasOf,drain,accepted,brought] using hflat
  · rw [run,List.foldl_append]
    exact latest_run more hr

/-- A publication of nothing. -/
def sampleDelta : JointShadowDelta Unit Unit Unit :=
  { eventFromSequence := 0
    eventToSequence := 0
    runtimeEvents := []
    pageDelta := ⟨0,0,0,∅,∅,∅,∅,∅,∅,false⟩
    transferTelemetry := []
    rest := ()
    sequence_le := Nat.le_refl 0 }

def sampleAnswers : Answers Unit Unit := ⟨.ok (),.ok (),.ok ()⟩

/-- Two deltas are merged and handed over; a snapshot follows. -/
def sampleSteps : List (WorkerStep Unit Unit Unit Unit Unit) :=
  [.submitDelta sampleDelta,.submitDelta sampleDelta,.start,.complete sampleAnswers,.submit ()]

theorem deltas_handed_once_sample :
    ∃ groups : List (List (JointShadowDelta Unit Unit Unit)),
      (run true sampleSteps).HandsOver groups ∧ groups.flatten = [sampleDelta,sampleDelta] := by
  have hall : Run.AllSteps step Mergeable { hasAssembler := true } sampleSteps := by
    refine ⟨?_,?_,trivial,trivial,rfl,trivial⟩
    · intro last hlast
      cases hlast
    · intro last hlast
      cases hlast
      exact ⟨rfl,rfl⟩
  obtain ⟨groups,hover,hflat⟩ := (deltas_handed_once true sampleSteps hall).1
  have heq : groups.flatten ++ [] ++ [] = [sampleDelta,sampleDelta] := hflat
  exact ⟨groups,hover,by simpa using heq⟩

/-- A snapshot replaces an accepted delta that waits; the delta is not handed over. -/
theorem waiting_delta_lost :
    accepted { hasAssembler := true }
        [.submitDelta sampleDelta,.submit (),.start,.complete sampleAnswers] = [sampleDelta] ∧
      (run true [.submitDelta sampleDelta,.submit (),.start,.complete sampleAnswers]).thread = none ∧
      (run true [.submitDelta sampleDelta,.submit (),.start,.complete sampleAnswers]).pending = none ∧
      (run true [.submitDelta sampleDelta,.submit (),.start,.complete sampleAnswers]).applied = [] :=
  ⟨rfl,rfl,rfl,rfl⟩

end LatestWinsJointPlanWorker
end BeliefKV.JointShadow
