import Mathlib.Logic.Relation
import BeliefKV.Lib.Conveyor
import BeliefKV.Protocol

/-! The log of policy snapshots: callers put them into a bounded queue, and a thread of its own writes them to a file.
A snapshot that finds the queue full is dropped. -/
namespace BeliefKV
open Relation

/-- What the thread writes of one snapshot. -/
structure SnapshotRecord (Input : Type) where
  sequence : ℕ
  policyInput : Input
  trigger : String

structure PolicySnapshotLog (Input : Type) where
  sequence : ℕ := 0
  droppedCount : ℕ := 0
  conveyor : Conveyor (SnapshotRecord Input) := {}
  closing : Closing := .idle

/-- A first part of what is numbered one after another is so too. -/
theorem map_numbers_part {α : Type} {number : α → ℕ} {l l' : List α} {n : ℕ} (hfirst : l <+: l')
    (h : l'.map number = (List.range n).map Nat.succ) :
    l.map number = (List.range l.length).map Nat.succ ∧ l.length ≤ n := by
  obtain ⟨rest,rfl⟩ := hfirst
  have hlength := congrArg List.length h
  simp only [List.length_map,List.length_append,List.length_range] at hlength
  refine ⟨?_,by omega⟩
  have htake := congrArg (List.take l.length) h
  rw [List.map_append,List.take_left' (List.length_map _),← List.map_take,List.take_range] at htake
  rw [htake,Nat.min_eq_left (by omega)]

namespace PolicySnapshotLog
variable {Input : Type} (maxPending : ℕ) (log : PolicySnapshotLog Input)

/-- The stream is open until the call that closes the log has seen the thread end. -/
def enabled : Bool := log.closing ≠ .closed

/-- A snapshot is counted as written together with its line. -/
def writtenCount : ℕ := log.conveyor.written.length

def pendingCount : ℕ := log.sequence - log.writtenCount

/-- What a call does under the lock. -/
def emitLocked (policyInput : Input) (trigger : String) : PolicySnapshotLog Input × Except Raised ℕ :=
  if log.conveyor.failed then (log,.error (.runtimeError "policy snapshot writer failed"))
  else if maxPending ≤ log.conveyor.queue.length then ({ log with droppedCount := log.droppedCount + 1 },.ok 0)
  else
    let record : SnapshotRecord Input := ⟨log.sequence + 1,policyInput,trigger⟩
    ({ log with sequence := log.sequence + 1, conveyor := log.conveyor.put (some record) },.ok (log.sequence + 1))

def emit (policyInput : Input) (trigger : String) : PolicySnapshotLog Input × Except Raised ℕ :=
  if log.enabled = false then (log,.ok 0)
  else if trigger = "" then (log,.error (.valueError "policy snapshot trigger must be non-empty"))
  else log.emitLocked maxPending policyInput trigger

/-- What the call that closes the log does. -/
inductive Closes : PolicySnapshotLog Input → PolicySnapshotLog Input → Prop
  | close (log : PolicySnapshotLog Input) (h : log.closing = .idle) : Closes log { log with closing := .marking }
  | mark (log : PolicySnapshotLog Input) (h : log.closing = .marking)
      (hroom : log.conveyor.queue.length < maxPending) :
      Closes log { log with closing := .joining, conveyor := log.conveyor.put none }
  | join (log : PolicySnapshotLog Input) (h : log.closing = .joining) (hend : log.conveyor.running = false) :
      Closes log { log with closing := .closed }

/-- The thread goes on without failing, or the call that closes the log goes on. -/
inductive Advance : PolicySnapshotLog Input → PolicySnapshotLog Input → Prop
  | work (log : PolicySnapshotLog Input) (c : Conveyor (SnapshotRecord Input))
      (h : Conveyor.Works log.conveyor c) : Advance log { log with conveyor := c }
  | call {log log' : PolicySnapshotLog Input} (h : Closes maxPending log log') : Advance log log'

/-- The thread, which may fail, the call that closes the log, and the callers take turns in any order: a call that found
the log open may get the lock after it is closed. -/
inductive Step : PolicySnapshotLog Input → PolicySnapshotLog Input → Prop
  | emit (log : PolicySnapshotLog Input) (policyInput : Input) (trigger : String) :
      Step log (log.emitLocked maxPending policyInput trigger).1
  | consume (log : PolicySnapshotLog Input) (c : Conveyor (SnapshotRecord Input))
      (h : Conveyor.Consumes log.conveyor c) : Step log { log with conveyor := c }
  | call {log log' : PolicySnapshotLog Input} (h : Closes maxPending log log') : Step log log'

abbrev Steps : PolicySnapshotLog Input → PolicySnapshotLog Input → Prop := ReflTransGen (Step maxPending)

/-! ## Nothing is lost -/

/-- The records that were accepted are numbered one after another; the queue keeps its bound. -/
structure Numbered : Prop where
  numbers : log.conveyor.items.map SnapshotRecord.sequence = (List.range log.sequence).map Nat.succ
  bounded : log.conveyor.queue.length ≤ maxPending

/-- A call that accepts a snapshot puts it behind the others; the other calls change no record. -/
theorem emitLocked_cases (policyInput : Input) (trigger : String) :
    (∃ dropped, (log.emitLocked maxPending policyInput trigger).1 = { log with droppedCount := dropped }) ∨
      log.conveyor.failed = false ∧ log.conveyor.queue.length < maxPending ∧
        (log.emitLocked maxPending policyInput trigger).1 =
          { log with
            sequence := log.sequence + 1
            conveyor := log.conveyor.put (some ⟨log.sequence + 1,policyInput,trigger⟩) } := by
  unfold emitLocked
  split_ifs with hfailed hfull
  · exact .inl ⟨log.droppedCount,rfl⟩
  · exact .inl ⟨log.droppedCount + 1,rfl⟩
  · exact .inr ⟨by simpa using hfailed,by omega,rfl⟩

variable {maxPending log} {log' : PolicySnapshotLog Input}

theorem Numbered.step (h : Numbered maxPending log) (hstep : Step maxPending log log') :
    Numbered maxPending log' := by
  cases hstep with
  | emit policyInput trigger =>
    obtain ⟨dropped,hsame⟩ | ⟨-,hroom,hnext⟩ := emitLocked_cases maxPending log policyInput trigger
    · rw [hsame]
      exact ⟨h.numbers,h.bounded⟩
    · rw [hnext]
      constructor
      · simp [Conveyor.put_items,h.numbers,List.range_succ]
      · simp only [Conveyor.put,List.length_append,List.length_singleton]
        omega
  | consume c hc =>
    refine ⟨?_,hc.length_le.trans h.bounded⟩
    simp only [hc.items,h.numbers]
  | call hcall =>
    cases hcall with
    | close _ => exact ⟨h.numbers,h.bounded⟩
    | mark _ hroom =>
      constructor
      · simp only [Conveyor.put_mark_items,h.numbers]
      · simp only [Conveyor.put,List.length_append,List.length_singleton]
        omega
    | join _ _ => exact ⟨h.numbers,h.bounded⟩

theorem Numbered.steps (h : Numbered maxPending log) (hsteps : Steps maxPending log log') :
    Numbered maxPending log' := by
  induction hsteps with
  | refl => exact h
  | tail _ hstep ih => exact ih.step hstep

theorem numbered_start : Numbered maxPending ({} : PolicySnapshotLog Input) := ⟨rfl,Nat.zero_le _⟩

/-! ## The end -/

theorem closable_step (h : log.conveyor.Closable log.closing) (hstep : Step maxPending log log') :
    log'.conveyor.Closable log'.closing := by
  cases hstep with
  | emit policyInput trigger =>
    obtain ⟨dropped,hsame⟩ | ⟨-,-,hnext⟩ := emitLocked_cases maxPending log policyInput trigger
    · rw [hsame]
      exact h
    · rw [hnext]
      exact h.put _
  | consume c hc => exact h.consumes hc
  | call hcall =>
    cases hcall with
    | close hidle => exact (hidle ▸ h).marking
    | mark hmarking hroom => exact (hmarking ▸ h).mark
    | join _ _ => exact Conveyor.closable_closed

theorem closable_steps (hsteps : Steps maxPending {} log) : log.conveyor.Closable log.closing := by
  induction hsteps with
  | refl => exact Conveyor.closable_start
  | tail _ hstep ih => exact closable_step ih hstep

/-- What was accepted before the end mark stays ahead of it. -/
theorem ends_steps {ahead : List (SnapshotRecord Input)} (h : Conveyor.Ends ahead log.conveyor)
    (hlate : log.closing = .joining ∨ log.closing = .closed) (hsteps : Steps maxPending log log') :
    Conveyor.Ends ahead log'.conveyor ∧ (log'.closing = .joining ∨ log'.closing = .closed) ∧
      (log'.closing = .closed → log.closing = .closed ∨ log'.conveyor.running = false) := by
  induction hsteps with
  | refl => exact ⟨h,hlate,fun hclosed => .inl hclosed⟩
  | @tail log₁ log₂ _ hstep ih =>
    obtain ⟨hends,hlate,hstopped⟩ := ih
    cases hstep with
    | emit policyInput trigger =>
      obtain ⟨dropped,hsame⟩ | ⟨-,-,hnext⟩ := emitLocked_cases maxPending log₁ policyInput trigger
      · rw [hsame]
        exact ⟨hends,hlate,hstopped⟩
      · rw [hnext]
        exact ⟨hends.put _,hlate,hstopped⟩
    | consume c hc =>
      refine ⟨hends.consumes hc,hlate,fun hclosed => (hstopped hclosed).imp_right fun hrunning => ?_⟩
      exact absurd (hc.running.symm.trans hrunning) (by simp)
    | call hcall =>
      cases hcall with
      | close hidle => exact absurd hlate (by simp [hidle])
      | mark hmarking _ => exact absurd hlate (by simp [hmarking])
      | join _ hend => exact ⟨hends,.inr rfl,fun _ => .inr hend⟩

/-! ## What a log guarantees -/

/-- In whatever order the threads take turns, the lines of the file are numbered without a gap, and what was accepted and
is not written yet is still on its way. -/
theorem written_numbered (hsteps : Steps maxPending {} log) :
    log.conveyor.written.map SnapshotRecord.sequence = (List.range log.writtenCount).map Nat.succ ∧
      log.pendingCount = log.conveyor.inHand.toList.length + log.conveyor.queue.reduceOption.length := by
  have hnumbers := (numbered_start.steps hsteps).numbers
  have hlength := congrArg List.length hnumbers
  simp only [Conveyor.items,List.length_map,List.length_append,List.length_range] at hlength
  refine ⟨(map_numbers_part (List.prefix_append _ _) hnumbers).1,?_⟩
  unfold pendingCount writtenCount
  omega

/-- A log that is closed has written all that it had accepted when its end mark was put, unless the thread failed; then it
has written a first part of that. -/
theorem closed_written (hsteps : Steps maxPending {} log) (hmarking : log.closing = .marking)
    (hlater : Steps maxPending { log with closing := .joining, conveyor := log.conveyor.put none } log')
    (hclosed : log'.closing = .closed) :
    log'.conveyor.written <+: log.conveyor.items ∧
      (log'.conveyor.failed = false → log'.conveyor.written = log.conveyor.items ∧ log'.writtenCount = log.sequence) := by
  have hclosable := closable_steps hsteps
  rw [hmarking] at hclosable
  obtain ⟨hends,-,hstopped⟩ := ends_steps hclosable.ends_items (.inl rfl) hlater
  have hend : log'.conveyor.running = false := (hstopped hclosed).resolve_left (by simp)
  have hlength := congrArg List.length (numbered_start.steps hsteps).numbers
  simp only [List.length_map,List.length_range] at hlength
  obtain ⟨hrunning,-⟩ | ⟨-,-,hwritten⟩ | ⟨-,hfailed,hfirst⟩ := hends
  · exact absurd (hrunning.symm.trans hend) (by simp)
  · refine ⟨hwritten ▸ List.prefix_refl _,fun _ => ⟨hwritten,?_⟩⟩
    rw [writtenCount,hwritten,hlength]
  · exact ⟨hfirst,fun hfine => absurd (hfailed.symm.trans hfine) (by simp)⟩

/-! ## Whether the log is closed -/

theorem Advance.step (h : Advance maxPending log log') : Step maxPending log log' := by
  cases h with
  | work c hc => exact .consume log c (.work hc)
  | call hcall => exact .call hcall

/-- The thread has failed and left the queue full before there is an end mark in it. -/
structure Stuck (maxPending : ℕ) (log : PolicySnapshotLog Input) : Prop where
  marking : log.closing = .marking
  failed : log.conveyor.failed = true
  stopped : log.conveyor.running = false
  full : log.conveyor.queue.length = maxPending

/-- What is left to do until the log is closed. -/
def remaining (log : PolicySnapshotLog Input) : ℕ :=
  log.conveyor.load + match log.closing with
    | .idle => 5
    | .marking => 4
    | .joining => 1
    | .closed => 0

theorem Advance.remaining_lt (h : Advance maxPending log log') : log'.remaining < log.remaining := by
  cases h with
  | work c hc =>
    have hload := hc.load_lt
    simp only [remaining]
    omega
  | call hcall =>
    cases hcall with
    | close hidle => simp [remaining,hidle]
    | mark hmarking hroom =>
      simp only [remaining,hmarking,Conveyor.put_load]
      omega
    | join hjoining hend => simp [remaining,hjoining]

/-- Unless a log is stuck the thread or the call goes on. -/
theorem exists_advance (hpos : 0 < maxPending) (hsteps : Steps maxPending {} log)
    (hclosing : log.closing = .marking ∨ log.closing = .joining) (hstuck : ¬ Stuck maxPending log) :
    ∃ log', Advance maxPending log log' := by
  have hclosable := closable_steps hsteps
  have hbounded := (numbered_start.steps hsteps).bounded
  obtain hmarking | hjoining := hclosing
  · by_cases hroom : log.conveyor.queue.length < maxPending
    · exact ⟨_,.call (.mark log hmarking hroom)⟩
    · have hfull : log.conveyor.queue.length = maxPending := by omega
      cases hrunning : log.conveyor.running with
      | true =>
        have hwork : log.conveyor.queue ≠ [] := fun hnil => by
          rw [hnil] at hfull
          exact hpos.ne hfull
        obtain ⟨c,hc⟩ := Conveyor.exists_works hrunning (.inr hwork)
        exact ⟨_,.work log c hc⟩
      | false =>
        exact absurd ⟨hmarking,(hclosable.unmarked (.inr hmarking)).2 hrunning,hrunning,hfull⟩ hstuck
  · obtain ⟨ahead,hends⟩ := hclosable.ends hjoining
    obtain ⟨hrunning,waiting,rest,hqueue,-⟩ | hend := hends
    · have hwork : log.conveyor.queue ≠ [] := by simp [hqueue]
      obtain ⟨c,hc⟩ := Conveyor.exists_works hrunning (.inr hwork)
      exact ⟨_,.work log c hc⟩
    · exact ⟨_,.call (.join log hjoining (hend.elim And.left And.left))⟩

/-- A log does not get stuck while the thread does not fail. -/
theorem Advance.not_stuck (hsteps : Steps maxPending {} log) (hclosing : log.closing = .marking ∨ log.closing = .joining)
    (h : Advance maxPending log log') :
    ¬ Stuck maxPending log' ∧ (log'.closing = .marking ∨ log'.closing = .joining ∨ log'.closing = .closed) := by
  have hclosable := closable_steps hsteps
  cases h with
  | work c hc =>
    refine ⟨fun hstuck => ?_,hclosing.imp_right Or.inl⟩
    -- before the end mark is put the thread does not stop
    obtain ⟨⟨waiting,hqueue⟩,-⟩ := hclosable.unmarked (.inr hstuck.marking)
    exact absurd ((hc.unmarked hqueue).2.symm.trans hstuck.stopped) (by simp)
  | call hcall =>
    cases hcall with
    | close hidle => exact absurd hclosing (by simp [hidle])
    | mark hmarking hroom => exact ⟨fun hstuck => absurd hstuck.marking (by simp),.inr (.inl rfl)⟩
    | join hjoining hend => exact ⟨fun hstuck => absurd hstuck.marking (by simp),.inr (.inr rfl)⟩

/-- A log that is not stuck is closed when the thread and the call have gone on for long enough. -/
theorem closes_of_not_stuck (hpos : 0 < maxPending) {n : ℕ} {log : PolicySnapshotLog Input}
    (hsteps : Steps maxPending {} log) (hclosing : log.closing = .marking ∨ log.closing = .joining)
    (hstuck : ¬ Stuck maxPending log) (hn : log.remaining ≤ n) :
    ∃ log', ReflTransGen (Advance maxPending) log log' ∧ log'.closing = .closed := by
  induction n generalizing log with
  | zero =>
    obtain ⟨log',hadvance⟩ := exists_advance hpos hsteps hclosing hstuck
    have hless := hadvance.remaining_lt
    omega
  | succ n ih =>
    obtain ⟨log₁,hadvance⟩ := exists_advance hpos hsteps hclosing hstuck
    obtain ⟨hstuck₁,hclosing₁⟩ := hadvance.not_stuck hsteps hclosing
    have hless := hadvance.remaining_lt
    obtain hmarking | hjoining | hclosed := hclosing₁
    · obtain ⟨log',hmore,hclosed⟩ := ih (hsteps.tail hadvance.step) (.inl hmarking) hstuck₁ (by omega)
      exact ⟨log',.head hadvance hmore,hclosed⟩
    · obtain ⟨log',hmore,hclosed⟩ := ih (hsteps.tail hadvance.step) (.inr hjoining) hstuck₁ (by omega)
      exact ⟨log',.head hadvance hmore,hclosed⟩
    · exact ⟨log₁,.single hadvance,hclosed⟩

/-- A stuck log stays so, whatever the callers do. -/
theorem Stuck.step (h : Stuck maxPending log) (hstep : Step maxPending log log') : Stuck maxPending log' := by
  cases hstep with
  | emit policyInput trigger =>
    have hsame : (log.emitLocked maxPending policyInput trigger).1 = log := by
      unfold emitLocked
      rw [if_pos h.failed]
    rw [hsame]
    exact h
  | consume c hc => exact absurd (hc.running.symm.trans h.stopped) (by simp)
  | call hcall =>
    cases hcall with
    | close hidle => exact absurd (hidle.symm.trans h.marking) (by simp)
    | mark _ hroom => exact absurd h.full hroom.ne
    | join hjoining _ => exact absurd (hjoining.symm.trans h.marking) (by simp)

theorem Stuck.steps (h : Stuck maxPending log) (hsteps : Steps maxPending log log') : Stuck maxPending log' := by
  induction hsteps with
  | refl => exact h
  | tail _ hstep ih => exact ih.step hstep

/-- The call that closes a log waits for ever, whatever else happens, if the thread has failed and left the queue full.
Otherwise the call and a thread that does not fail can go on until the log is closed. -/
theorem close_stuck_iff (hpos : 0 < maxPending) (hsteps : Steps maxPending {} log)
    (hclosing : log.closing = .marking ∨ log.closing = .joining) :
    ((¬ ∃ log', ReflTransGen (Advance maxPending) log log' ∧ log'.closing = .closed) ↔ Stuck maxPending log) ∧
      (Stuck maxPending log → ∀ log', Steps maxPending log log' → log'.closing = .marking) := by
  refine ⟨⟨fun hnever => ?_,fun hstuck => ?_⟩,fun hstuck log' hlater => (hstuck.steps hlater).marking⟩
  · by_contra hstuck
    exact hnever (closes_of_not_stuck hpos hsteps hclosing hstuck le_rfl)
  · rintro ⟨log',hlater,hclosed⟩
    have hstays := hstuck.steps (ReflTransGen.mono (fun _ _ => Advance.step) _ _ hlater)
    exact absurd (hclosed.symm.trans hstays.marking) (by simp)

/-! ## A run -/

def sampleRecord : SnapshotRecord ℕ := ⟨1,7,"tick"⟩

/-- A snapshot is accepted, and the log is about to be closed. -/
def sampleMarking : PolicySnapshotLog ℕ :=
  { sequence := 1, conveyor := { inHand := some sampleRecord }, closing := .marking }

theorem sampleMarking_steps : Steps 1 {} sampleMarking := by
  have hemit : Steps 1 {} { sequence := 1, conveyor := { queue := [some sampleRecord] } } :=
    .single (.emit {} 7 "tick")
  have htake : Steps 1 { sequence := 1, conveyor := { queue := [some sampleRecord] } }
      { sequence := 1, conveyor := { inHand := some sampleRecord } } :=
    .single (.consume _ _ (.work (.take _ sampleRecord [] rfl rfl rfl)))
  exact (hemit.trans htake).tail (.call (.close _ rfl))

theorem closed_written_sample : [sampleRecord] = sampleMarking.conveyor.items ∧ 1 = sampleMarking.sequence := by
  have hwrite : Steps 1 { sampleMarking with closing := .joining, conveyor := sampleMarking.conveyor.put none }
      { sequence := 1, conveyor := { queue := [none], written := [sampleRecord] }, closing := .joining } :=
    .single (.consume _ _ (.work (.write _ sampleRecord rfl rfl)))
  have hstop : Steps 1 { sequence := 1, conveyor := { queue := [none], written := [sampleRecord] }, closing := .joining }
      { sequence := 1, conveyor := { written := [sampleRecord], running := false }, closing := .joining } :=
    .single (.consume _ _ (.work (.stop _ [] rfl rfl rfl)))
  have hclosed := (hwrite.trans hstop).tail (.call (.join _ rfl rfl))
  exact (closed_written sampleMarking_steps rfl hclosed rfl).2 rfl

theorem written_numbered_sample : sampleMarking.conveyor.written.map SnapshotRecord.sequence = [] ∧
    sampleMarking.pendingCount = 1 := written_numbered sampleMarking_steps

/-- The thread has failed while the queue was full. -/
def sampleStuck : PolicySnapshotLog ℕ :=
  { sequence := 1
    conveyor := { queue := [some sampleRecord], running := false, failed := true }
    closing := .marking }

theorem close_stuck_sample :
    ¬ ∃ log', ReflTransGen (Advance 1) sampleStuck log' ∧ log'.closing = .closed := by
  have hemit : Steps 1 {} { sequence := 1, conveyor := { queue := [some sampleRecord] } } :=
    .single (.emit {} 7 "tick")
  have hfail : Steps 1 { sequence := 1, conveyor := { queue := [some sampleRecord] } }
      { sequence := 1, conveyor := { queue := [some sampleRecord], running := false, failed := true } } :=
    .single (.consume _ _ (.fail _ rfl))
  have hmarking : Steps 1 {} sampleStuck := (hemit.trans hfail).tail (.call (.close _ rfl))
  exact (close_stuck_iff (by decide) hmarking (.inl rfl)).1.mpr ⟨rfl,rfl,rfl,rfl⟩

end PolicySnapshotLog
end BeliefKV
