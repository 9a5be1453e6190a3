import BeliefKV.Audit.Snapshots

/-! The audit log. Records of correctness and of metrics wait until the queue has room for them; debug records are sampled,
and dropped where the queue is full. -/
namespace BeliefKV
open Relation

inductive AuditLevel
  | correctness
  | metrics
  | debug
  deriving DecidableEq, Repr

structure AuditConfig where
  maxPending : ℕ := 8192
  debugSampleStride : ℕ := 1
  maxDebugEventBytes : ℕ := 16 * 1024
  pending_pos : 0 < maxPending
  stride_pos : 0 < debugSampleStride
  bytes_pos : 0 < maxDebugEventBytes

/-- The named arguments of the call are merged last in the source; none of them has the name of another entry, such as
`sequence`, `pid` or `run_id`, which it would replace. -/
structure AuditRecord (Fields : Type) where
  sequence : ℕ
  event : String
  tsMs : ℚ
  auditLevel : AuditLevel
  fields : Fields

/-- What is written of a record: all of it, or what is left of a debug record that is too long. -/
inductive AuditLine (Fields : Type)
  | record (r : AuditRecord Fields)
  | oversize (sequence : ℕ) (tsMs : ℚ) (originalEvent : String) (originalSizeBytes : ℕ)

/-- The call in `waiting` has the lock until the queue takes its record. -/
structure RuntimeAuditLog (Fields : Type) where
  sequence : ℕ := 0
  droppedDebugCount : ℕ := 0
  sampledDebugCount : ℕ := 0
  debugSeen : ℕ := 0
  conveyor : Conveyor (AuditRecord Fields) := {}
  waiting : Option (AuditRecord Fields) := none
  closing : Closing := .idle

def AuditLine.sequence {Fields : Type} : AuditLine Fields → ℕ
  | .record r => r.sequence
  | .oversize sequence _ _ _ => sequence

def AuditLine.isOversize {Fields : Type} : AuditLine Fields → Bool
  | .record _ => false
  | .oversize _ _ _ _ => true

namespace RuntimeAuditLog
variable {Fields : Type}

def defaultLevel (event : String) : AuditLevel :=
  if event = "physical_bundle_preview" ∨ event = "bundle_lease_aggregated" then .debug
  else if event ∈ ["transfer_dispatched","transfer_acknowledged","runtime_initialized","runtime_shutdown"] ∨
      event.endsWith "_terminal" ∨ event.endsWith "_summary" then .correctness
  else .metrics

section Log
variable (config : AuditConfig) (log : RuntimeAuditLog Fields)

def enabled : Bool := log.closing ≠ .closed

def writtenCount : ℕ := log.conveyor.written.length

/-- The records that were numbered, in their order. -/
def accepted : List (AuditRecord Fields) := log.conveyor.items ++ log.waiting.toList

def lineOf (encodedSize : AuditRecord Fields → ℕ) (r : AuditRecord Fields) : AuditLine Fields :=
  if r.auditLevel = .debug ∧ config.maxDebugEventBytes < encodedSize r then
    .oversize r.sequence r.tsMs r.event (encodedSize r)
  else .record r

/-- The lines of the file. -/
def lines (encodedSize : AuditRecord Fields → ℕ) : List (AuditLine Fields) :=
  log.conveyor.written.map (lineOf config encodedSize)

def oversizeDebugCount (encodedSize : AuditRecord Fields → ℕ) : ℕ :=
  (log.lines config encodedSize).countP AuditLine.isOversize

/-- Debug records take the place that there is at once, the others go on to wait. -/
def number (event : String) (tsMs : ℚ) (level : AuditLevel) (fields : Fields) : RuntimeAuditLog Fields :=
  let record : AuditRecord Fields := ⟨log.sequence + 1,event,tsMs,level,fields⟩
  if level = .debug then
    if config.maxPending ≤ log.conveyor.queue.length then { log with droppedDebugCount := log.droppedDebugCount + 1 }
    else { log with sequence := log.sequence + 1, conveyor := log.conveyor.put (some record) }
  else { log with sequence := log.sequence + 1, waiting := some record }

/-- What a call does under the lock. -/
def emitLocked (event : String) (tsMs : ℚ) (level : AuditLevel) (fields : Fields) :
    RuntimeAuditLog Fields × Except Raised Unit :=
  if log.conveyor.failed then (log,.error (.runtimeError "runtime audit writer failed"))
  else if level = .debug then
    let log := { log with debugSeen := log.debugSeen + 1 }
    if (log.debugSeen - 1) % config.debugSampleStride ≠ 0 then
      ({ log with sampledDebugCount := log.sampledDebugCount + 1 },.ok ())
    else (log.number config event tsMs level fields,.ok ())
  else (log.number config event tsMs level fields,.ok ())

def emit (event : String) (tsMs : ℚ) (auditLevel : Option AuditLevel) (fields : Fields) :
    RuntimeAuditLog Fields × Except Raised Unit :=
  if log.enabled = false then (log,.ok ())
  else if event = "" then (log,.error (.valueError "audit event must be non-empty"))
  else if tsMs < 0 then (log,.error (.valueError "audit timestamp must be finite and non-negative"))
  else log.emitLocked config event tsMs (auditLevel.getD (defaultLevel event)) fields

/-- What the call that waits for room does, and the call that closes the log. -/
inductive Proceeds : RuntimeAuditLog Fields → RuntimeAuditLog Fields → Prop
  | deliver (log : RuntimeAuditLog Fields) (r : AuditRecord Fields) (h : log.waiting = some r)
      (hroom : log.conveyor.queue.length < config.maxPending) :
      Proceeds log { log with waiting := none, conveyor := log.conveyor.put (some r) }
  | giveUp (log : RuntimeAuditLog Fields) (h : log.waiting ≠ none) (hfailed : log.conveyor.failed = true) :
      Proceeds log { log with waiting := none }
  | close (log : RuntimeAuditLog Fields) (h : log.closing = .idle) : Proceeds log { log with closing := .marking }
  | mark (log : RuntimeAuditLog Fields) (h : log.closing = .marking)
      (hroom : log.conveyor.queue.length < config.maxPending) :
      Proceeds log { log with closing := .joining, conveyor := log.conveyor.put none }
  | passOver (log : RuntimeAuditLog Fields) (h : log.closing = .marking) (hend : log.conveyor.running = false) :
      Proceeds log { log with closing := .joining }
  | join (log : RuntimeAuditLog Fields) (h : log.closing = .joining) (hend : log.conveyor.running = false)
      (hfree : log.waiting = none) : Proceeds log { log with closing := .closed }

/-- The thread goes on without failing, or one of these calls does. -/
inductive Advance : RuntimeAuditLog Fields → RuntimeAuditLog Fields → Prop
  | work (log : RuntimeAuditLog Fields) (c : Conveyor (AuditRecord Fields))
      (h : Conveyor.Works log.conveyor c) : Advance log { log with conveyor := c }
  | call {log log' : RuntimeAuditLog Fields} (h : Proceeds config log log') : Advance log log'

/-- A call that emits needs the lock, so that no other call waits; it may have found the log open before it was closed.
The thread may fail. -/
inductive Step : RuntimeAuditLog Fields → RuntimeAuditLog Fields → Prop
  | emit (log : RuntimeAuditLog Fields) (event : String) (tsMs : ℚ) (level : AuditLevel) (fields : Fields)
      (hfree : log.waiting = none) : Step log (log.emitLocked config event tsMs level fields).1
  | consume (log : RuntimeAuditLog Fields) (c : Conveyor (AuditRecord Fields))
      (h : Conveyor.Consumes log.conveyor c) : Step log { log with conveyor := c }
  | call {log log' : RuntimeAuditLog Fields} (h : Proceeds config log log') : Step log log'

abbrev Steps : RuntimeAuditLog Fields → RuntimeAuditLog Fields → Prop := ReflTransGen (Step config)

end Log

variable {config : AuditConfig} {log log' : RuntimeAuditLog Fields}

/-! ## What is accepted -/

theorem ceil_succ (n : ℕ) {stride : ℕ} (hpos : 0 < stride) : (n + 1 + stride - 1) / stride =
    if n % stride = 0 then (n + stride - 1) / stride + 1 else (n + stride - 1) / stride := by
  have hless := Nat.mod_lt n hpos
  have hdiv := Nat.mod_add_div n stride
  have hnext : (n + 1 + stride - 1) / stride = n / stride + 1 := by
    have hsame : n + 1 + stride - 1 = n + stride := by omega
    rw [hsame,Nat.add_div_right n hpos]
  rw [hnext]
  split_ifs with hzero
  · have hsplit : n + stride - 1 = (stride - 1) + stride * (n / stride) := by omega
    have hsmall : stride - 1 < stride := by omega
    rw [hsplit,Nat.add_mul_div_left _ _ hpos,Nat.div_eq_of_lt hsmall,Nat.zero_add]
  · have hsplit : n + stride - 1 = (n % stride - 1) + stride * (n / stride) + stride := by omega
    have hsmall : n % stride - 1 < stride := by omega
    rw [hsplit,Nat.add_div_right _ hpos,Nat.add_mul_div_left _ _ hpos,Nat.div_eq_of_lt hsmall,Nat.zero_add]

def IsDebug (r : AuditRecord Fields) : Bool := r.auditLevel = .debug

/-- The accepted records are numbered one after another, and every debug record was accepted, dropped or sampled out. -/
structure Kept (config : AuditConfig) (log : RuntimeAuditLog Fields) : Prop where
  numbers : log.accepted.map AuditRecord.sequence = (List.range log.accepted.length).map Nat.succ
  counted : log.conveyor.failed = false → log.sequence = log.accepted.length
  bounded : log.conveyor.queue.length ≤ config.maxPending
  seen : log.debugSeen = log.sampledDebugCount + log.droppedDebugCount + log.accepted.countP IsDebug
  sampled : log.debugSeen = log.sampledDebugCount + (log.debugSeen + config.debugSampleStride - 1) /
    config.debugSampleStride
  patient : ∀ r ∈ log.waiting, r.auditLevel ≠ .debug

theorem kept_start : Kept config ({} : RuntimeAuditLog Fields) where
  numbers := rfl
  counted _ := rfl
  bounded := Nat.zero_le _
  seen := rfl
  sampled := by
    have hpos := config.stride_pos
    simp only [Nat.zero_add]
    exact (Nat.div_eq_of_lt (by omega)).symm
  patient r hr := absurd hr (by simp)

/-- One more record is accepted. -/
theorem numbers_concat {l : List (AuditRecord Fields)} {r : AuditRecord Fields}
    (h : l.map AuditRecord.sequence = (List.range l.length).map Nat.succ) (hr : r.sequence = l.length + 1) :
    (l ++ [r]).map AuditRecord.sequence = (List.range (l ++ [r]).length).map Nat.succ := by
  simp [h,hr,List.range_succ]

/-- The debug records of a call that goes on to number its record. -/
theorem Kept.number (h : Kept config log) (hfree : log.waiting = none) (hfine : log.conveyor.failed = false)
    (event : String) (tsMs : ℚ) (level : AuditLevel) (fields : Fields) {seen : ℕ}
    (hseen : seen = log.debugSeen + if level = .debug then 1 else 0)
    (hsampled : seen = log.sampledDebugCount + (seen + config.debugSampleStride - 1) / config.debugSampleStride) :
    Kept config (RuntimeAuditLog.number config { log with debugSeen := seen } event tsMs level fields) := by
  have hcount := h.counted hfine
  have haccepted : log.accepted = log.conveyor.items := by simp [accepted,hfree]
  have hbounded := h.bounded
  have hbefore := h.seen
  have hnumbers := h.numbers
  unfold RuntimeAuditLog.number
  by_cases hdebug : level = .debug
  · simp only [hdebug,if_true] at hseen ⊢
    split_ifs with hfull
    · refine ⟨h.numbers,h.counted,h.bounded,?_,hsampled,h.patient⟩
      change seen = log.sampledDebugCount + (log.droppedDebugCount + 1) + log.accepted.countP IsDebug
      omega
    · have hnext : ({ log with
          debugSeen := seen
          sequence := log.sequence + 1
          conveyor := log.conveyor.put (some ⟨log.sequence + 1,event,tsMs,.debug,fields⟩) } :
          RuntimeAuditLog Fields).accepted = log.accepted ++ [⟨log.sequence + 1,event,tsMs,.debug,fields⟩] := by
        simp [accepted,hfree,Conveyor.put_items]
      constructor
      · rw [hnext]
        exact numbers_concat hnumbers (by simp [hcount])
      · intro _
        rw [hnext]
        simp [hcount]
      · simp only [Conveyor.put,List.length_append,List.length_singleton]
        omega
      · rw [hnext]
        simp only [List.countP_append,List.countP_singleton]
        change seen = log.sampledDebugCount + log.droppedDebugCount + (log.accepted.countP IsDebug + 1)
        omega
      · exact hsampled
      · exact h.patient
  · simp only [hdebug,if_false] at hseen ⊢
    have hnext : ({ log with
        debugSeen := seen
        sequence := log.sequence + 1
        waiting := some ⟨log.sequence + 1,event,tsMs,level,fields⟩ } : RuntimeAuditLog Fields).accepted =
        log.accepted ++ [⟨log.sequence + 1,event,tsMs,level,fields⟩] := by simp [accepted,hfree]
    constructor
    · rw [hnext]
      exact numbers_concat hnumbers (by simp [hcount])
    · intro _
      rw [hnext]
      simp [hcount]
    · exact h.bounded
    · rw [hnext]
      simp only [List.countP_append,List.countP_singleton]
      have hother : IsDebug (⟨log.sequence + 1,event,tsMs,level,fields⟩ : AuditRecord Fields) = false := by
        simp [IsDebug,hdebug]
      simp only [hother]
      change seen = log.sampledDebugCount + log.droppedDebugCount + (log.accepted.countP IsDebug + 0)
      omega
    · exact hsampled
    · intro r hr
      obtain rfl := Option.mem_some.mp hr
      exact hdebug

/-- A call is refused, sampled out, or goes on to number its record. -/
theorem emitLocked_cases (config : AuditConfig) (log : RuntimeAuditLog Fields) (event : String) (tsMs : ℚ)
    (level : AuditLevel) (fields : Fields) :
    (log.conveyor.failed = true ∧ (log.emitLocked config event tsMs level fields).1 = log) ∨
      log.conveyor.failed = false ∧
        ((level = .debug ∧ log.debugSeen % config.debugSampleStride ≠ 0 ∧
            (log.emitLocked config event tsMs level fields).1 =
              { log with debugSeen := log.debugSeen + 1, sampledDebugCount := log.sampledDebugCount + 1 }) ∨
          (level = .debug ∧ log.debugSeen % config.debugSampleStride = 0 ∧
            (log.emitLocked config event tsMs level fields).1 =
              RuntimeAuditLog.number config { log with debugSeen := log.debugSeen + 1 } event tsMs level fields) ∨
          (level ≠ .debug ∧
            (log.emitLocked config event tsMs level fields).1 = log.number config event tsMs level fields)) := by
  unfold emitLocked
  dsimp only
  split_ifs with hfailed hdebug hsampled
  · exact .inl ⟨hfailed,rfl⟩
  · exact .inr ⟨by simpa using hfailed,.inl ⟨hdebug,by simpa using hsampled,rfl⟩⟩
  · exact .inr ⟨by simpa using hfailed,.inr (.inl ⟨hdebug,by simpa using hsampled,rfl⟩)⟩
  · exact .inr ⟨by simpa using hfailed,.inr (.inr ⟨hdebug,rfl⟩)⟩

theorem Kept.emitLocked (h : Kept config log) (hfree : log.waiting = none) (event : String) (tsMs : ℚ)
    (level : AuditLevel) (fields : Fields) : Kept config (log.emitLocked config event tsMs level fields).1 := by
  have hceil := ceil_succ log.debugSeen config.stride_pos
  have hbefore := h.sampled
  have hseen := h.seen
  obtain ⟨-,hsame⟩ | ⟨hfine,⟨hdebug,hsampled,hnext⟩ | ⟨hdebug,hsampled,hnext⟩ | ⟨hother,hnext⟩⟩ :=
    emitLocked_cases config log event tsMs level fields
  · rw [hsame]
    exact h
  · rw [hnext]
    rw [if_neg hsampled] at hceil
    refine ⟨h.numbers,h.counted,h.bounded,?_,?_,h.patient⟩
    · change log.debugSeen + 1 = log.sampledDebugCount + 1 + log.droppedDebugCount + log.accepted.countP IsDebug
      omega
    · change log.debugSeen + 1 = log.sampledDebugCount + 1 +
        (log.debugSeen + 1 + config.debugSampleStride - 1) / config.debugSampleStride
      omega
  · rw [hnext]
    rw [if_pos hsampled] at hceil
    refine h.number hfree hfine event tsMs level fields (by simp [hdebug]) ?_
    omega
  · rw [hnext]
    refine h.number hfree hfine event tsMs level fields ?_ hbefore
    rw [if_neg hother]
    rfl

theorem Kept.deliver {r : AuditRecord Fields} (h : Kept config log) (hwaiting : log.waiting = some r)
    (hroom : log.conveyor.queue.length < config.maxPending) :
    Kept config { log with waiting := none, conveyor := log.conveyor.put (some r) } := by
  have hsame : ({ log with waiting := none, conveyor := log.conveyor.put (some r) } : RuntimeAuditLog Fields).accepted =
      log.accepted := by simp [accepted,Conveyor.put_items,hwaiting]
  constructor
  · rw [hsame]
    exact h.numbers
  · rw [hsame]
    exact h.counted
  · simp only [Conveyor.put,List.length_append,List.length_singleton]
    omega
  · rw [hsame]
    exact h.seen
  · exact h.sampled
  · exact fun r hr => absurd hr (by simp)

/-- A call that gives up waits with a record that no count of debug records has. -/
theorem Kept.giveUp (h : Kept config log) (hwaiting : log.waiting ≠ none) (hfailed : log.conveyor.failed = true) :
    Kept config { log with waiting := none } := by
  obtain ⟨r,hr⟩ := Option.ne_none_iff_exists'.mp hwaiting
  have hlost : log.accepted = ({ log with waiting := none } : RuntimeAuditLog Fields).accepted ++ [r] := by
    simp [accepted,hr]
  have hnumbers := h.numbers
  have hseen := h.seen
  rw [hlost] at hnumbers hseen
  constructor
  · simp only [List.length_append,List.length_singleton,List.range_succ,List.map_append] at hnumbers
    exact (List.append_inj' hnumbers rfl).1
  · exact fun hfine => absurd (hfailed.symm.trans hfine) (by simp)
  · exact h.bounded
  · have hother : IsDebug r = false := by simp [IsDebug,h.patient r (by rw [hr]; rfl)]
    simp only [List.countP_append,List.countP_singleton,hother] at hseen
    simpa using hseen
  · exact h.sampled
  · exact fun r' hr' => absurd hr' (by simp)

theorem Kept.step (h : Kept config log) (hstep : Step config log log') : Kept config log' := by
  cases hstep with
  | emit event tsMs level fields hfree => exact h.emitLocked hfree event tsMs level fields
  | consume c hc =>
    have hsame : ({ log with conveyor := c } : RuntimeAuditLog Fields).accepted = log.accepted := by
      simp [accepted,hc.items]
    constructor
    · rw [hsame]
      exact h.numbers
    · intro hfine
      rw [hsame]
      exact h.counted (hc.failed_of hfine)
    · exact hc.length_le.trans h.bounded
    · rw [hsame]
      exact h.seen
    · exact h.sampled
    · exact h.patient
  | call hcall =>
    cases hcall with
    | deliver r hwaiting hroom => exact h.deliver hwaiting hroom
    | giveUp hwaiting hfailed => exact h.giveUp hwaiting hfailed
    | close _ => exact ⟨h.numbers,h.counted,h.bounded,h.seen,h.sampled,h.patient⟩
    | mark _ hroom =>
      have hsame : ({ log with closing := .joining, conveyor := log.conveyor.put none } :
          RuntimeAuditLog Fields).accepted = log.accepted := by simp [accepted,Conveyor.put_mark_items]
      constructor
      · rw [hsame]
        exact h.numbers
      · rw [hsame]
        exact h.counted
      · simp only [Conveyor.put,List.length_append,List.length_singleton]
        omega
      · rw [hsame]
        exact h.seen
      · exact h.sampled
      · exact h.patient
    | passOver _ _ => exact ⟨h.numbers,h.counted,h.bounded,h.seen,h.sampled,h.patient⟩
    | join _ _ _ => exact ⟨h.numbers,h.counted,h.bounded,h.seen,h.sampled,h.patient⟩

theorem kept_steps (hsteps : Steps config {} log) : Kept config log := by
  induction hsteps with
  | refl => exact kept_start
  | tail _ hstep ih => exact ih.step hstep

/-! ## Nothing is lost -/

/-- While the thread has not failed no accepted record is taken back. -/
theorem accepted_step (hstep : Step config log log') (hfine : log'.conveyor.failed = false) :
    log.conveyor.failed = false ∧ log.accepted <+: log'.accepted := by
  cases hstep with
  | emit event tsMs level fields hfree =>
    have hnumber (log₁ : RuntimeAuditLog Fields) (hsame : log₁.conveyor = log.conveyor) (hfree₁ : log₁.waiting = none) :
        log.accepted <+: (log₁.number config event tsMs level fields).accepted := by
      have haccepted : log.accepted = log₁.accepted := by simp [accepted,hfree,hfree₁,hsame]
      rw [haccepted]
      unfold RuntimeAuditLog.number
      dsimp only
      split_ifs with hdebug hfull
      · exact List.prefix_refl _
      · exact ⟨[⟨log₁.sequence + 1,event,tsMs,level,fields⟩],by simp [accepted,hfree₁,Conveyor.put_items]⟩
      · exact ⟨[⟨log₁.sequence + 1,event,tsMs,level,fields⟩],by simp [accepted,hfree₁]⟩
    obtain ⟨hfailed,hsame⟩ | ⟨hfine,⟨-,-,hnext⟩ | ⟨-,-,hnext⟩ | ⟨-,hnext⟩⟩ :=
      emitLocked_cases config log event tsMs level fields
    · rw [hsame] at hfine
      exact absurd (hfailed.symm.trans hfine) (by simp)
    · rw [hnext]
      exact ⟨hfine,List.prefix_refl _⟩
    · rw [hnext]
      exact ⟨hfine,hnumber _ rfl hfree⟩
    · rw [hnext]
      exact ⟨hfine,hnumber _ rfl hfree⟩
  | consume c hc => exact ⟨hc.failed_of hfine,by simp [accepted,hc.items]⟩
  | call hcall =>
    cases hcall with
    | deliver r hwaiting hroom => exact ⟨hfine,by simp [accepted,Conveyor.put_items,hwaiting]⟩
    | giveUp hwaiting hfailed => exact absurd (hfailed.symm.trans hfine) (by simp)
    | close _ => exact ⟨hfine,List.prefix_refl _⟩
    | mark _ hroom => exact ⟨hfine,by simp [accepted,Conveyor.put_mark_items]⟩
    | passOver _ _ => exact ⟨hfine,List.prefix_refl _⟩
    | join _ _ _ => exact ⟨hfine,List.prefix_refl _⟩

theorem accepted_steps (hsteps : Steps config log log') (hfine : log'.conveyor.failed = false) :
    log.conveyor.failed = false ∧ log.accepted <+: log'.accepted := by
  induction hsteps with
  | refl => exact ⟨hfine,List.prefix_refl _⟩
  | tail _ hstep ih =>
    obtain ⟨hfine,hfirst⟩ := accepted_step hstep hfine
    exact ⟨(ih hfine).1,(ih hfine).2.trans hfirst⟩

theorem closable_step (h : log.conveyor.Closable log.closing) (hstep : Step config log log') :
    log'.conveyor.Closable log'.closing := by
  cases hstep with
  | emit event tsMs level fields hfree =>
    have hnumber (log₁ : RuntimeAuditLog Fields) (h₁ : log₁.conveyor.Closable log₁.closing) :
        (log₁.number config event tsMs level fields).conveyor.Closable
          (log₁.number config event tsMs level fields).closing := by
      unfold RuntimeAuditLog.number
      dsimp only
      split_ifs with hdebug hfull
      · exact h₁
      · exact h₁.put _
      · exact h₁
    obtain ⟨-,hsame⟩ | ⟨-,⟨-,-,hnext⟩ | ⟨-,-,hnext⟩ | ⟨-,hnext⟩⟩ :=
      emitLocked_cases config log event tsMs level fields
    · rw [hsame]
      exact h
    · rw [hnext]
      exact h
    · rw [hnext]
      exact hnumber _ h
    · rw [hnext]
      exact hnumber _ h
  | consume c hc => exact h.consumes hc
  | call hcall =>
    cases hcall with
    | deliver r hwaiting hroom => exact h.put r
    | giveUp hwaiting hfailed => exact h
    | close hidle => exact (hidle ▸ h).marking
    | mark hmarking hroom => exact (hmarking ▸ h).mark
    | passOver hmarking hend => exact (hmarking ▸ h).pass hend
    | join _ _ _ => exact Conveyor.closable_closed

theorem closable_steps (hsteps : Steps config {} log) : log.conveyor.Closable log.closing := by
  induction hsteps with
  | refl => exact Conveyor.closable_start
  | tail _ hstep ih => exact closable_step ih hstep

/-- The lines of the file are numbered without a gap, and every debug record that came was sampled out, dropped or accepted,
one of each stride being let through. -/
theorem lines_accounted (encodedSize : AuditRecord Fields → ℕ) (hsteps : Steps config {} log) :
    (log.lines config encodedSize).map AuditLine.sequence = (List.range log.writtenCount).map Nat.succ ∧
      log.debugSeen = log.sampledDebugCount + log.droppedDebugCount + log.accepted.countP IsDebug ∧
      log.debugSeen - log.sampledDebugCount =
        (log.debugSeen + config.debugSampleStride - 1) / config.debugSampleStride ∧
      log.oversizeDebugCount config encodedSize ≤ log.accepted.countP IsDebug := by
  have hkept := kept_steps hsteps
  have hwritten : log.conveyor.written <+: log.accepted := by
    rw [accepted,Conveyor.items,List.append_assoc]
    exact List.prefix_append _ _
  refine ⟨?_,hkept.seen,Nat.sub_eq_of_eq_add' hkept.sampled,?_⟩
  · have hline : ∀ r : AuditRecord Fields, (lineOf config encodedSize r).sequence = r.sequence := by
      intro r
      unfold lineOf
      split_ifs with hlong <;> rfl
    rw [lines,List.map_map,writtenCount]
    have hsame : AuditLine.sequence ∘ lineOf config encodedSize = AuditRecord.sequence := funext hline
    rw [hsame]
    exact (map_numbers_part hwritten hkept.numbers).1
  · have hline : ∀ r : AuditRecord Fields, (lineOf config encodedSize r).isOversize = true → IsDebug r = true := by
      intro r hr
      unfold lineOf at hr
      split_ifs at hr with hlong
      · simp [IsDebug,hlong.1]
      · exact absurd hr (by simp [AuditLine.isOversize])
    rw [oversizeDebugCount,lines,List.countP_map]
    exact (List.countP_mono_left fun r _ => hline r).trans hwritten.sublist.countP_le

/-- A record that is no debug record is never dropped: it keeps its number and its place behind all earlier ones unless the
thread fails. -/
theorem emitted_kept (event : String) (tsMs : ℚ) {level : AuditLevel} (fields : Fields) (hsteps : Steps config {} log)
    (hfree : log.waiting = none) (hlevel : level ≠ .debug)
    (hlater : Steps config (log.emitLocked config event tsMs level fields).1 log')
    (hfine : log'.conveyor.failed = false) :
    log'.accepted[log.accepted.length]? = some ⟨log.accepted.length + 1,event,tsMs,level,fields⟩ := by
  obtain ⟨hemitted,hfirst⟩ := accepted_steps hlater hfine
  obtain ⟨hfailed,hsame⟩ | ⟨hfine,⟨hdebug,-,-⟩ | ⟨hdebug,-,-⟩ | ⟨-,hnext⟩⟩ :=
    emitLocked_cases config log event tsMs level fields
  · rw [hsame] at hemitted
    exact absurd (hfailed.symm.trans hemitted) (by simp)
  · exact absurd hdebug hlevel
  · exact absurd hdebug hlevel
  · rw [hnext] at hfirst
    obtain ⟨rest,hrest⟩ := hfirst
    have hcount := (kept_steps hsteps).counted hfine
    have haccepted : (log.number config event tsMs level fields).accepted =
        log.accepted ++ [⟨log.accepted.length + 1,event,tsMs,level,fields⟩] := by
      simp [RuntimeAuditLog.number,accepted,hfree,hlevel,hcount]
    rw [← hrest,haccepted,List.append_assoc,List.getElem?_append_right (Nat.le_refl _),Nat.sub_self]
    rfl

/-- After the end mark, what was queued before it stays ahead of it. -/
theorem ends_steps {ahead : List (AuditRecord Fields)} (h : Conveyor.Ends ahead log.conveyor)
    (hlate : log.closing = .joining ∨ log.closing = .closed) (hsteps : Steps config log log') :
    Conveyor.Ends ahead log'.conveyor ∧ (log'.closing = .joining ∨ log'.closing = .closed) ∧
      (log'.closing = .closed → log.closing = .closed ∨ log'.conveyor.running = false) := by
  induction hsteps with
  | refl => exact ⟨h,hlate,fun hclosed => .inl hclosed⟩
  | @tail log₁ log₂ _ hstep ih =>
    obtain ⟨hends,hlate,hstopped⟩ := ih
    cases hstep with
    | emit event tsMs level fields hfree =>
      have hnumber (log₃ : RuntimeAuditLog Fields) (hconveyor : log₃.conveyor = log₁.conveyor)
          (hclosing : log₃.closing = log₁.closing) :
          Conveyor.Ends ahead (log₃.number config event tsMs level fields).conveyor ∧
            (log₃.number config event tsMs level fields).closing = log₁.closing ∧
            (log₃.number config event tsMs level fields).conveyor.running = log₁.conveyor.running := by
        unfold RuntimeAuditLog.number
        dsimp only
        rw [← hconveyor] at hends ⊢
        split_ifs with hdebug hfull
        · exact ⟨hends,hclosing,rfl⟩
        · exact ⟨hends.put _,hclosing,rfl⟩
        · exact ⟨hends,hclosing,rfl⟩
      obtain ⟨-,hsame⟩ | ⟨-,⟨-,-,hnext⟩ | ⟨-,-,hnext⟩ | ⟨-,hnext⟩⟩ :=
        emitLocked_cases config log₁ event tsMs level fields
      · rw [hsame]
        exact ⟨hends,hlate,hstopped⟩
      · rw [hnext]
        exact ⟨hends,hlate,hstopped⟩
      · obtain ⟨hends',hclosing,hrunning⟩ := hnumber { log₁ with debugSeen := log₁.debugSeen + 1 } rfl rfl
        rw [hnext,hclosing,hrunning]
        exact ⟨hends',hlate,hstopped⟩
      · obtain ⟨hends',hclosing,hrunning⟩ := hnumber log₁ rfl rfl
        rw [hnext,hclosing,hrunning]
        exact ⟨hends',hlate,hstopped⟩
    | consume c hc =>
      refine ⟨hends.consumes hc,hlate,fun hclosed => (hstopped hclosed).imp_right fun hrunning => ?_⟩
      exact absurd (hc.running.symm.trans hrunning) (by simp)
    | call hcall =>
      cases hcall with
      | deliver r _ _ => exact ⟨hends.put _,hlate,hstopped⟩
      | giveUp _ _ => exact ⟨hends,hlate,hstopped⟩
      | close hidle => exact absurd hlate (by simp [hidle])
      | mark hmarking _ => exact absurd hlate (by simp [hmarking])
      | passOver hmarking _ => exact absurd hlate (by simp [hmarking])
      | join _ hend _ => exact ⟨hends,.inr rfl,fun _ => .inr hend⟩

/-- A log that is closed has written what was in its queue when the end mark was put, and nothing else: a record that was
waiting for room then is not written. -/
theorem closed_lines (hsteps : Steps config {} log) (hmarking : log.closing = .marking)
    (hlater : Steps config { log with closing := .joining, conveyor := log.conveyor.put none } log')
    (hclosed : log'.closing = .closed) :
    log'.conveyor.written <+: log.conveyor.items ∧
      (log'.conveyor.failed = false → log'.conveyor.written = log.conveyor.items ∧
        log'.writtenCount + log.waiting.toList.length = log.sequence) := by
  have hclosable := closable_steps hsteps
  rw [hmarking] at hclosable
  obtain ⟨hends,-,hstopped⟩ := ends_steps hclosable.ends_items (.inl rfl) hlater
  have hend : log'.conveyor.running = false := (hstopped hclosed).resolve_left (by simp)
  obtain ⟨hrunning,-⟩ | ⟨-,-,hwritten⟩ | ⟨-,hfailed,hfirst⟩ := hends
  · exact absurd (hrunning.symm.trans hend) (by simp)
  · refine ⟨hwritten ▸ List.prefix_refl _,fun hfine => ⟨hwritten,?_⟩⟩
    have hbefore : log.conveyor.failed = false := (accepted_steps hlater hfine).1
    rw [(kept_steps hsteps).counted hbefore,accepted,writtenCount,hwritten,List.length_append]
  · exact ⟨hfirst,fun hfine => absurd (hfailed.symm.trans hfine) (by simp)⟩

/-! ## Whether the log is closed -/

theorem Advance.step (h : Advance config log log') : Step config log log' := by
  cases h with
  | work c hc => exact .consume log c (.work hc)
  | call hcall => exact .call hcall

/-- A call that emits has the lock and waits for room, which the thread, as it has taken the end mark, does not make any
more. -/
structure Blocked (config : AuditConfig) (log : RuntimeAuditLog Fields) : Prop where
  joining : log.closing = .joining
  waits : log.waiting ≠ none
  stopped : log.conveyor.running = false
  fine : log.conveyor.failed = false
  full : log.conveyor.queue.length = config.maxPending

/-- What is left to do until the log is closed. -/
def remaining (log : RuntimeAuditLog Fields) : ℕ :=
  log.conveyor.load + 3 * log.waiting.toList.length + match log.closing with
    | .idle => 5
    | .marking => 4
    | .joining => 1
    | .closed => 0

theorem Advance.remaining_lt (h : Advance config log log') : log'.remaining < log.remaining := by
  cases h with
  | work c hc =>
    have hload := hc.load_lt
    simp only [remaining]
    omega
  | call hcall =>
    cases hcall with
    | deliver r hwaiting hroom =>
      simp only [remaining,hwaiting,Conveyor.put_load,Option.toList_some,Option.toList_none,List.length_singleton,
        List.length_nil]
      omega
    | giveUp hwaiting hfailed =>
      obtain ⟨r,hr⟩ := Option.ne_none_iff_exists'.mp hwaiting
      simp only [remaining,hr,Option.toList_some,Option.toList_none,List.length_singleton,List.length_nil]
      omega
    | close hidle => simp [remaining,hidle]
    | mark hmarking hroom =>
      simp only [remaining,hmarking,Conveyor.put_load]
      omega
    | passOver hmarking hend => simp [remaining,hmarking]
    | join hjoining hend hfree => simp [remaining,hjoining]

/-- Unless a log is blocked the thread or a call goes on. -/
theorem exists_advance (hsteps : Steps config {} log) (hclosing : log.closing = .marking ∨ log.closing = .joining)
    (hblocked : ¬ Blocked config log) : ∃ log', Advance config log log' := by
  have hclosable := closable_steps hsteps
  have hbounded := (kept_steps hsteps).bounded
  have hpos := config.pending_pos
  obtain hmarking | hjoining := hclosing
  · -- the mark finds room, or the thread can make some
    cases hrunning : log.conveyor.running with
    | false => exact ⟨_,.call (.passOver log hmarking hrunning)⟩
    | true =>
      by_cases hroom : log.conveyor.queue.length < config.maxPending
      · exact ⟨_,.call (.mark log hmarking hroom)⟩
      · have hwork : log.conveyor.queue ≠ [] := fun hnil => by
          rw [hnil] at hroom
          exact hroom hpos
        obtain ⟨c,hc⟩ := Conveyor.exists_works hrunning (.inr hwork)
        exact ⟨_,.work log c hc⟩
  · obtain ⟨ahead,hends⟩ := hclosable.ends hjoining
    obtain ⟨hrunning,waiting,rest,hqueue,-⟩ | hend := hends
    · have hwork : log.conveyor.queue ≠ [] := by simp [hqueue]
      obtain ⟨c,hc⟩ := Conveyor.exists_works hrunning (.inr hwork)
      exact ⟨_,.work log c hc⟩
    · have hstopped : log.conveyor.running = false := hend.elim And.left And.left
      cases hwaiting : log.waiting with
      | none => exact ⟨_,.call (.join log hjoining hstopped hwaiting)⟩
      | some r =>
        by_cases hroom : log.conveyor.queue.length < config.maxPending
        · exact ⟨_,.call (.deliver log r hwaiting hroom)⟩
        · cases hfailed : log.conveyor.failed with
          | true => exact ⟨_,.call (.giveUp log (by simp [hwaiting]) hfailed)⟩
          | false => exact absurd ⟨hjoining,by simp [hwaiting],hstopped,hfailed,by omega⟩ hblocked

/-- A log does not get blocked while no other call emits. -/
theorem Advance.not_blocked (hsteps : Steps config {} log) (hclosing : log.closing = .marking ∨ log.closing = .joining)
    (h : Advance config log log') :
    ¬ Blocked config log' ∧ (log'.closing = .marking ∨ log'.closing = .joining ∨ log'.closing = .closed) := by
  have hbounded := (kept_steps hsteps).bounded
  cases h with
  | work c hc =>
    refine ⟨fun hafter => ?_,hclosing.imp_right Or.inl⟩
    have hfull := hafter.full
    cases hc with
    | take a rest hrunning hfree hqueue => exact absurd (hrunning.symm.trans hafter.stopped) (by simp)
    | write a hrunning hhand => exact absurd (hrunning.symm.trans hafter.stopped) (by simp)
    | stop rest hrunning hfree hqueue =>
      -- the place of the end mark is free now
      rw [hqueue,List.length_cons] at hbounded
      change rest.length = config.maxPending at hfull
      omega
  | call hcall =>
    cases hcall with
    | deliver r hwaiting hroom => exact ⟨fun hafter => hafter.waits rfl,hclosing.imp_right Or.inl⟩
    | giveUp hwaiting hfailed => exact ⟨fun hafter => hafter.waits rfl,hclosing.imp_right Or.inl⟩
    | close hidle => exact absurd hclosing (by simp [hidle])
    | mark hmarking hroom =>
      refine ⟨fun hafter => ?_,.inr (.inl rfl)⟩
      have hclosable := closable_steps hsteps
      have hfailed := (hclosable.unmarked (.inr hmarking)).2 hafter.stopped
      exact absurd (hfailed.symm.trans hafter.fine) (by simp)
    | passOver hmarking hend =>
      refine ⟨fun hafter => ?_,.inr (.inl rfl)⟩
      have hclosable := closable_steps hsteps
      have hfailed := (hclosable.unmarked (.inr hmarking)).2 hafter.stopped
      exact absurd (hfailed.symm.trans hafter.fine) (by simp)
    | join hjoining hend hfree => exact ⟨fun hafter => absurd hafter.joining (by simp),.inr (.inr rfl)⟩

/-- A log that is not blocked is closed when the thread and the calls have gone on for long enough. -/
theorem closes_of_not_blocked {n : ℕ} {log : RuntimeAuditLog Fields} (hsteps : Steps config {} log)
    (hclosing : log.closing = .marking ∨ log.closing = .joining) (hblocked : ¬ Blocked config log)
    (hn : log.remaining ≤ n) : ∃ log', ReflTransGen (Advance config) log log' ∧ log'.closing = .closed := by
  induction n generalizing log with
  | zero =>
    obtain ⟨log',hadvance⟩ := exists_advance hsteps hclosing hblocked
    have hless := hadvance.remaining_lt
    omega
  | succ n ih =>
    obtain ⟨log₁,hadvance⟩ := exists_advance hsteps hclosing hblocked
    obtain ⟨hblocked₁,hclosing₁⟩ := hadvance.not_blocked hsteps hclosing
    have hless := hadvance.remaining_lt
    obtain hmarking | hjoining | hclosed := hclosing₁
    · obtain ⟨log',hmore,hclosed⟩ := ih (hsteps.tail hadvance.step) (.inl hmarking) hblocked₁ (by omega)
      exact ⟨log',.head hadvance hmore,hclosed⟩
    · obtain ⟨log',hmore,hclosed⟩ := ih (hsteps.tail hadvance.step) (.inr hjoining) hblocked₁ (by omega)
      exact ⟨log',.head hadvance hmore,hclosed⟩
    · exact ⟨log₁,.single hadvance,hclosed⟩

/-- A blocked log stays so: the call that waits keeps the lock. -/
theorem Blocked.step (h : Blocked config log) (hstep : Step config log log') : Blocked config log' := by
  cases hstep with
  | emit event tsMs level fields hfree => exact absurd hfree h.waits
  | consume c hc => exact absurd (hc.running.symm.trans h.stopped) (by simp)
  | call hcall =>
    cases hcall with
    | deliver r _ hroom => exact absurd h.full hroom.ne
    | giveUp _ hfailed => exact absurd (h.fine.symm.trans hfailed) (by simp)
    | close hidle => exact absurd (hidle.symm.trans h.joining) (by simp)
    | mark hmarking _ => exact absurd (hmarking.symm.trans h.joining) (by simp)
    | passOver hmarking _ => exact absurd (hmarking.symm.trans h.joining) (by simp)
    | join _ _ hfree => exact absurd hfree h.waits

theorem Blocked.steps (h : Blocked config log) (hsteps : Steps config log log') : Blocked config log' := by
  induction hsteps with
  | refl => exact h
  | tail _ hstep ih => exact ih.step hstep

/-- The call that closes a log waits for ever, whatever else happens, if a call that emits has the lock and waits for room
that the thread, which has taken the end mark, does not make any more. Otherwise the calls and a thread that does not
fail can go on until the log is closed. -/
theorem close_waits_iff (hsteps : Steps config {} log)
    (hclosing : log.closing = .marking ∨ log.closing = .joining) :
    ((¬ ∃ log', ReflTransGen (Advance config) log log' ∧ log'.closing = .closed) ↔ Blocked config log) ∧
      (Blocked config log → ∀ log', Steps config log log' → log'.closing = .joining) := by
  refine ⟨⟨fun hnever => ?_,fun hblocked => ?_⟩,fun hblocked log' hlater => (hblocked.steps hlater).joining⟩
  · by_contra hblocked
    exact hnever (closes_of_not_blocked hsteps hclosing hblocked le_rfl)
  · rintro ⟨log',hlater,hclosed⟩
    have hstays := hblocked.steps (ReflTransGen.mono (fun _ _ => Advance.step) _ _ hlater)
    exact absurd (hclosed.symm.trans hstays.joining) (by simp)

/-! ## A run -/

def sampleConfig : AuditConfig :=
  { maxPending := 1, debugSampleStride := 2, maxDebugEventBytes := 97
    pending_pos := Nat.one_pos, stride_pos := Nat.two_pos, bytes_pos := by decide }

def sampleAudit (n : ℕ) : AuditRecord ℕ := ⟨n,"tick",5,.metrics,7⟩

/-- One record is on its way, the next one waits for room, and the log is about to be closed. -/
def sampleWaiting : RuntimeAuditLog ℕ :=
  { sequence := 2
    conveyor := { inHand := some (sampleAudit 1) }
    waiting := some (sampleAudit 2)
    closing := .marking }

theorem sampleQueued_steps : Steps sampleConfig {} { sequence := 1, conveyor := { inHand := some (sampleAudit 1) } } := by
  have hemit : Steps sampleConfig {} { sequence := 1, waiting := some (sampleAudit 1) } :=
    .single (.emit {} "tick" 5 .metrics 7 rfl)
  have hdeliver : Steps sampleConfig { sequence := 1, waiting := some (sampleAudit 1) }
      { sequence := 1, conveyor := { queue := [some (sampleAudit 1)] } } :=
    .single (.call (.deliver _ (sampleAudit 1) rfl (by decide)))
  exact (hemit.trans hdeliver).tail (.consume _ _ (.work (.take _ (sampleAudit 1) [] rfl rfl rfl)))

theorem sampleWaiting_steps : Steps sampleConfig {} sampleWaiting := by
  have hemit : Steps sampleConfig { sequence := 1, conveyor := { inHand := some (sampleAudit 1) } }
      { sequence := 2, conveyor := { inHand := some (sampleAudit 1) }, waiting := some (sampleAudit 2) } :=
    .single (.emit _ "tick" 5 .metrics 7 rfl)
  exact (sampleQueued_steps.trans hemit).tail (.call (.close _ rfl))

theorem lines_accounted_sample : (sampleWaiting.lines sampleConfig fun _ => 40).map AuditLine.sequence = [] ∧
    sampleWaiting.debugSeen = 0 ∧ 0 = 0 ∧ sampleWaiting.oversizeDebugCount sampleConfig (fun _ => 40) ≤ 0 := by
  exact lines_accounted (fun _ => 40) sampleWaiting_steps

theorem emitted_kept_sample : sampleWaiting.accepted[1]? = some (sampleAudit 2) := by
  have hclose : Steps sampleConfig
      { sequence := 2, conveyor := { inHand := some (sampleAudit 1) }, waiting := some (sampleAudit 2) } sampleWaiting :=
    .single (.call (.close _ rfl))
  have hlevel : AuditLevel.metrics ≠ .debug := by simp
  exact emitted_kept "tick" 5 7 sampleQueued_steps rfl hlevel hclose rfl

/-- The second record is queued behind the mark, so that it is not written. -/
theorem closed_lines_sample : [sampleAudit 1] = sampleWaiting.conveyor.items ∧ 1 + 1 = sampleWaiting.sequence := by
  have hwrite : Steps sampleConfig { sampleWaiting with
        closing := .joining
        conveyor := sampleWaiting.conveyor.put none }
      { sampleWaiting with closing := .joining, conveyor := { queue := [none], written := [sampleAudit 1] } } :=
    .single (.consume _ _ (.work (.write _ (sampleAudit 1) rfl rfl)))
  have hstop := hwrite.tail (.consume _ _ (.work (.stop _ [] rfl rfl rfl)))
  have hdeliver := hstop.tail (.call (.deliver _ (sampleAudit 2) rfl (by decide)))
  have hclosed := hdeliver.tail (.call (.join _ rfl rfl rfl))
  exact (closed_lines sampleWaiting_steps rfl hclosed rfl).2 rfl

/-- The thread has ended and the queue is full, while one more record waits. -/
def sampleBlocked : RuntimeAuditLog ℕ :=
  { sequence := 3
    conveyor := { queue := [some (sampleAudit 2)], written := [sampleAudit 1], running := false }
    waiting := some (sampleAudit 3)
    closing := .joining }

theorem close_waits_sample :
    ¬ ∃ log', ReflTransGen (Advance sampleConfig) sampleBlocked log' ∧ log'.closing = .closed := by
  have hwrite := sampleQueued_steps.tail (.consume _ _ (.work (.write _ (sampleAudit 1) rfl rfl)))
  have hclose := hwrite.tail (.call (.close _ rfl))
  have hmark := hclose.tail (.call (.mark _ rfl (by decide)))
  have hstop := hmark.tail (.consume _ _ (.work (.stop _ [] rfl rfl rfl)))
  have hsecond := hstop.tail (.emit _ "tick" 5 .metrics 7 rfl)
  have hdeliver := hsecond.tail (.call (.deliver _ (sampleAudit 2) rfl (by decide)))
  have hblocked : Steps sampleConfig {} sampleBlocked := hdeliver.tail (.emit _ "tick" 5 .metrics 7 rfl)
  exact (close_waits_iff hblocked (.inr rfl)).1.mpr ⟨rfl,by simp [sampleBlocked],rfl,rfl,rfl⟩

end RuntimeAuditLog
end BeliefKV
