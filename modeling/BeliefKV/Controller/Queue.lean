import BeliefKV.Controller.Commands

/-! What the command queue holds: entries under distinct ids, each of them either active or
cancelled. Cancelled entries stay until they come up. -/
namespace BeliefKV

namespace QueueEntry

/-- The id of the command of an entry. -/
def id (entry : QueueEntry) : String := entry.command.commandId

end QueueEntry

/-- Entries under distinct ids, which are the active and the cancelled ids. -/
structure Tidy (entries : List QueueEntry) (active cancelled : Finset String) : Prop where
  nodup : (entries.map QueueEntry.id).Nodup
  mem : ∀ id, id ∈ entries.map QueueEntry.id ↔ id ∈ active ∨ id ∈ cancelled
  apart : ∀ id ∈ active, id ∉ cancelled

/-- An active command of some entries. -/
def Waits (entries : List QueueEntry) (active : Finset String) (command : ControlCommand) : Prop :=
  command.commandId ∈ active ∧ ∃ entry ∈ entries, entry.command = command

section Tidy
variable {entries others : List QueueEntry} {active cancelled : Finset String}
  {command : ControlCommand} {entry : QueueEntry}

theorem Tidy.perm {entries' : List QueueEntry} (h : Tidy entries active cancelled)
    (hp : entries.Perm entries') : Tidy entries' active cancelled :=
  ⟨((hp.map _).nodup_iff).mp h.nodup,fun id => ((hp.map _).mem_iff).symm.trans (h.mem id),h.apart⟩

theorem waits_perm {entries' : List QueueEntry} (hp : entries.Perm entries') :
    Waits entries active command ↔ Waits entries' active command := by
  unfold Waits
  simp only [hp.mem_iff]

/-- The first entry goes, with its id. -/
theorem Tidy.tail (h : Tidy (entry :: entries) active cancelled) :
    Tidy entries (active.erase entry.id) (cancelled.erase entry.id) := by
  obtain ⟨hnot,hn⟩ := List.nodup_cons.mp h.nodup
  refine ⟨hn,fun id => ?_,fun id hid hc => ?_⟩
  · have hmem := h.mem id
    rw [List.map_cons,List.mem_cons] at hmem
    by_cases hid : id = entry.id
    · subst hid
      simp [hnot]
    · simp only [hid,false_or] at hmem
      simp [hmem,hid]
  · exact h.apart id (Finset.mem_of_mem_erase hid) (Finset.mem_of_mem_erase hc)

theorem waits_cons_of_ne (hne : command.commandId ≠ entry.id) :
    Waits (entry :: entries) active command ↔ Waits entries (active.erase entry.id) command := by
  unfold Waits
  rw [Finset.mem_erase]
  constructor
  · rintro ⟨ha,e,he,rfl⟩
    rcases List.mem_cons.mp he with rfl | he
    · exact absurd rfl hne
    · exact ⟨⟨hne,ha⟩,e,he,rfl⟩
  · rintro ⟨⟨-,ha⟩,e,he,rfl⟩
    exact ⟨ha,e,List.mem_cons_of_mem _ he,rfl⟩

/-- Two active commands of one id are the same. -/
theorem Tidy.waits_unique (h : Tidy entries active cancelled) {command' : ControlCommand}
    (hw : Waits entries active command) (hw' : Waits entries active command')
    (hid : command.commandId = command'.commandId) : command = command' := by
  obtain ⟨-,e,he,rfl⟩ := hw
  obtain ⟨-,e',he',rfl⟩ := hw'
  exact congrArg QueueEntry.command (List.inj_on_of_nodup_map h.nodup he he' hid)

theorem Tidy.waits_of_active (h : Tidy entries active cancelled) {id : String} (hid : id ∈ active) :
    ∃ command, Waits entries active command ∧ command.commandId = id := by
  obtain ⟨e,he,rfl⟩ := List.mem_map.mp ((h.mem id).mpr (.inl hid))
  exact ⟨e.command,⟨hid,e,he,rfl⟩,rfl⟩

end Tidy

namespace TransferCommandQueue
variable {q q' : TransferCommandQueue} {command : ControlCommand}

/-- The entries of both classes. -/
def entries (q : TransferCommandQueue) : List QueueEntry := q.urgent ++ q.shadow

def Ok (q : TransferCommandQueue) : Prop := Tidy q.entries q.activeIds q.cancelledIds

/-- A command waits to be dispatched. -/
def Queued (q : TransferCommandQueue) (command : ControlCommand) : Prop :=
  Waits q.entries q.activeIds command

/-! ## Putting and cancelling -/

/-- A put adds its entry to one of the classes. -/
theorem put_perm (q : TransferCommandQueue) (command : ControlCommand) (entry : QueueEntry) :
    ((if command.queueClass = .urgent then q.urgent ++ [entry] else q.urgent) ++
      (if command.queueClass = .urgent then q.shadow else q.shadow ++ [entry])).Perm
        (entry :: q.entries) := by
  unfold entries
  split_ifs
  · rw [List.append_assoc]
    exact List.perm_middle
  · rw [← List.append_assoc]
    exact List.perm_append_singleton _ _

theorem put_ok (hq : q.Ok) (ha : command.commandId ∉ q.activeIds)
    (hc : command.commandId ∉ q.cancelledIds) : ∃ q', q.put command = .ok q' ∧ q'.Ok ∧
      q'.activeIds = insert command.commandId q.activeIds ∧ q'.cancelledIds = q.cancelledIds ∧
      ∀ other, q'.Queued other ↔ other = command ∨ q.Queued other := by
  set entry : QueueEntry := ⟨command.deadlineMs,command.priority,q.sequence,command⟩ with hentry
  have hperm := put_perm q command entry
  have hid : entry.id = command.commandId := rfl
  have hnew : entry.id ∉ q.entries.map QueueEntry.id := by
    rw [hq.mem,hid]
    tauto
  have htidy : Tidy (entry :: q.entries) (insert command.commandId q.activeIds) q.cancelledIds := by
    refine ⟨List.nodup_cons.mpr ⟨hnew,hq.nodup⟩,fun id => ?_,fun id hmem => ?_⟩
    · rw [List.map_cons,List.mem_cons,hq.mem,Finset.mem_insert,hid,or_assoc]
    · rcases Finset.mem_insert.mp hmem with rfl | hmem
      · exact hc
      · exact hq.apart id hmem
  have hput : q.put command = .ok { q with
      urgent := if command.queueClass = .urgent then q.urgent ++ [entry] else q.urgent
      shadow := if command.queueClass = .urgent then q.shadow else q.shadow ++ [entry]
      sequence := q.sequence + 1
      activeIds := insert command.commandId q.activeIds } := by
    rw [put,if_neg ha]
  refine ⟨_,hput,htidy.perm hperm.symm,rfl,rfl,fun other => ?_⟩
  refine (waits_perm hperm).trans ?_
  unfold Queued Waits
  simp only [Finset.mem_insert,List.mem_cons,exists_eq_or_imp]
  constructor
  · rintro ⟨hmem,heq | ⟨e,he,rfl⟩⟩
    · exact .inl heq.symm
    · rcases hmem with hmem | hmem
      · have hsame : e.id = entry.id := hmem
        exact absurd (hsame ▸ List.mem_map_of_mem he) hnew
      · exact .inr ⟨hmem,e,he,rfl⟩
  · rintro (rfl | ⟨hmem,e,he,rfl⟩)
    · exact ⟨.inl rfl,.inl rfl⟩
    · exact ⟨.inr hmem,.inr ⟨e,he,rfl⟩⟩

theorem cancel_spec (hq : q.Ok) {id : String} (hid : id ∈ q.activeIds) :
    q.cancel id = (true,(q.cancel id).2) ∧ (q.cancel id).2.Ok ∧
      (q.cancel id).2.activeIds = q.activeIds.erase id ∧
      (q.cancel id).2.cancelledIds = insert id q.cancelledIds ∧
      ∀ other, (q.cancel id).2.Queued other ↔ q.Queued other ∧ other.commandId ≠ id := by
  have heq : q.cancel id = (true,{ q with
      cancelledIds := insert id q.cancelledIds
      activeIds := q.activeIds.erase id }) := by simp [cancel,hid]
  rw [heq]
  refine ⟨rfl,⟨hq.nodup,fun k => ?_,fun k hk hc => ?_⟩,rfl,rfl,fun other => ?_⟩
  · refine (hq.mem k).trans ?_
    by_cases hk : k = id
    · simp [hk,hid]
    · simp [hk]
  · rw [Finset.mem_erase] at hk
    rcases Finset.mem_insert.mp hc with rfl | hc
    · exact hk.1 rfl
    · exact hq.apart k hk.2 hc
  · change Waits q.entries (q.activeIds.erase id) other ↔ Waits q.entries q.activeIds other ∧ _
    unfold Waits
    rw [Finset.mem_erase]
    tauto

theorem get_spec (hq : q.Ok) (id : String) :
    (∀ command, q.get id = some command → q.Queued command ∧ command.commandId = id) ∧
      (id ∈ q.activeIds → (q.get id).isSome) ∧ (id ∉ q.activeIds → q.get id = none) := by
  unfold get
  refine ⟨fun command hget => ?_,fun hid => ?_,fun hid => by simp [hid]⟩
  · split_ifs at hget with hbad
    rw [not_or,not_not] at hbad
    obtain ⟨e,he,rfl⟩ := Option.map_eq_some_iff.mp hget
    have heq : e.command.commandId = id := by simpa using List.find?_some he
    exact ⟨⟨heq ▸ hbad.1,e,List.mem_of_find?_eq_some he,rfl⟩,heq⟩
  · obtain ⟨command,⟨-,e,he,rfl⟩,rfl⟩ := hq.waits_of_active hid
    have hc := hq.apart _ hid
    rw [if_neg (by simp [hid,hc]),Option.isSome_map,List.find?_isSome]
    exact ⟨e,he,by simp⟩

/-! ## Popping -/

theorem popFirst_eq_none {l : List QueueEntry} (h : popFirst l = none) : l = [] := by
  cases l with
  | nil => rfl
  | cons e l =>
    rw [popFirst] at h
    cases hp : popFirst l with
    | none => simp [hp] at h
    | some r =>
      simp only [hp] at h
      split_ifs at h

theorem popFirst_perm {l rest : List QueueEntry} {first : QueueEntry}
    (h : popFirst l = some (first,rest)) : (first :: rest).Perm l := by
  induction l generalizing first rest with
  | nil => simp [popFirst] at h
  | cons e l ih =>
    rw [popFirst] at h
    cases hp : popFirst l with
    | none =>
      simp only [hp,Option.some.injEq,Prod.mk.injEq] at h
      obtain ⟨rfl,rfl⟩ := h
      rw [popFirst_eq_none hp]
    | some r =>
      obtain ⟨f,rs⟩ := r
      simp only [hp] at h
      split_ifs at h
      · obtain ⟨rfl,rfl⟩ := Prod.mk.inj (Option.some.inj h)
        exact .refl _
      · obtain ⟨rfl,rfl⟩ := Prod.mk.inj (Option.some.inj h)
        exact (List.Perm.swap _ _ _).trans ((ih hp).cons _)

/-- What popping leaves: a tidy queue without the popped command. -/
structure Popped (entries : List QueueEntry) (active cancelled : Finset String)
    (popped : Option ControlCommand) (entries' : List QueueEntry) (active' cancelled' : Finset String) :
    Prop where
  tidy : Tidy entries' active' cancelled'
  sub : cancelled' ⊆ cancelled
  active_iff : ∀ id, id ∈ active' ↔ id ∈ active ∧ ∀ command, popped = some command →
    id ≠ command.commandId
  was : ∀ command, popped = some command → Waits entries active command
  waits_iff : ∀ other, Waits entries' active' other ↔ Waits entries active other ∧
    ∀ command, popped = some command → other.commandId ≠ command.commandId

theorem popValid_spec {entries others : List QueueEntry} {active cancelled : Finset String} (fuel : ℕ)
    (h : Tidy (entries ++ others) active cancelled) :
    Popped (entries ++ others) active cancelled (popValid entries active cancelled fuel).1
      ((popValid entries active cancelled fuel).2.1 ++ others)
      (popValid entries active cancelled fuel).2.2.1 (popValid entries active cancelled fuel).2.2.2 := by
  have hstay : Popped (entries ++ others) active cancelled none (entries ++ others) active cancelled :=
    ⟨h,subset_rfl,by simp,by simp,by simp⟩
  induction fuel generalizing entries active cancelled with
  | zero => exact hstay
  | succ fuel ih =>
    rw [popValid]
    cases hp : popFirst entries with
    | none => exact hstay
    | some r =>
      obtain ⟨first,rest⟩ := r
      have hperm : (first :: (rest ++ others)).Perm (entries ++ others) :=
        (popFirst_perm hp).append_right others
      have htidy := h.perm hperm.symm
      have htail := htidy.tail
      dsimp only
      by_cases hc : first.command.commandId ∈ cancelled
      · -- A cancelled entry is not active, so only its mark goes.
        have hnot : first.id ∉ active := fun ha => h.apart _ ha hc
        rw [Finset.erase_eq_of_notMem hnot] at htail
        rw [if_pos hc,show active.erase first.command.commandId = active from
          Finset.erase_eq_of_notMem hnot]
        have hspec := ih htail ⟨htail,subset_rfl,by simp,by simp,by simp⟩
        have hw (other : ControlCommand) : Waits (rest ++ others) active other ↔
            Waits (entries ++ others) active other := by
          rw [← waits_perm hperm]
          by_cases hne : other.commandId = first.id
          · constructor
            · exact fun hw => absurd (hne ▸ hw.1) hnot
            · exact fun hw => absurd (hne ▸ hw.1) hnot
          · rw [waits_cons_of_ne hne,Finset.erase_eq_of_notMem hnot]
        exact ⟨hspec.tidy,hspec.sub.trans (Finset.erase_subset _ _),hspec.active_iff,
          fun c hc => (hw c).mp (hspec.was c hc),
          fun other => (hspec.waits_iff other).trans (and_congr_left fun _ => hw other)⟩
      · rw [if_neg hc]
        have hid : first.id ∈ active := by
          have hmem := (htidy.mem first.id).mp (by simp)
          exact hmem.resolve_right hc
        rw [show cancelled.erase first.id = cancelled from Finset.erase_eq_of_notMem hc] at htail
        refine ⟨htail,subset_rfl,fun id => ?_,?_,fun other => ?_⟩
        · rw [Finset.mem_erase]
          constructor
          · rintro ⟨hne,ha⟩
            exact ⟨ha,by rintro _ ⟨⟩; exact hne⟩
          · rintro ⟨ha,hne⟩
            exact ⟨hne _ rfl,ha⟩
        · rintro _ ⟨⟩
          exact ⟨hid,first,hperm.mem_iff.mp (by simp),rfl⟩
        · rw [← waits_perm hperm]
          by_cases hne : other.commandId = first.id
          · constructor
            · exact fun hw => absurd hne (Finset.ne_of_mem_erase hw.1)
            · exact fun hw => absurd hne (hw.2 _ rfl)
          · rw [waits_cons_of_ne hne]
            exact ⟨fun hw => ⟨hw,by rintro _ ⟨⟩; exact hne⟩,fun hw => hw.1⟩

theorem Popped.trans_none {e₁ e₂ e₃ : List QueueEntry} {a₁ a₂ a₃ c₁ c₂ c₃ : Finset String}
    {popped : Option ControlCommand} (h : Popped e₁ a₁ c₁ none e₂ a₂ c₂)
    (h' : Popped e₂ a₂ c₂ popped e₃ a₃ c₃) : Popped e₁ a₁ c₁ popped e₃ a₃ c₃ := by
  have ha (id : String) : id ∈ a₂ ↔ id ∈ a₁ := by simp [h.active_iff]
  have hw (other : ControlCommand) : Waits e₂ a₂ other ↔ Waits e₁ a₁ other := by simp [h.waits_iff]
  exact ⟨h'.tidy,h'.sub.trans h.sub,fun id => by rw [h'.active_iff,ha],
    fun c hc => (hw c).mp (h'.was c hc),fun other => by rw [h'.waits_iff,hw]⟩

theorem Popped.perm {e e' r r' : List QueueEntry} {a c a' c' : Finset String}
    {popped : Option ControlCommand} (h : Popped e a c popped r a' c') (he : e.Perm e')
    (hr : r.Perm r') : Popped e' a c popped r' a' c' :=
  ⟨h.tidy.perm hr,h.sub,h.active_iff,fun c hc => (waits_perm he).mp (h.was c hc),
    fun other => by rw [← waits_perm hr,← waits_perm he,h.waits_iff]⟩

theorem pop_spec (hq : q.Ok) (allowShadow : Bool) :
    Popped q.entries q.activeIds q.cancelledIds (q.pop allowShadow).1 (q.pop allowShadow).2.entries
      (q.pop allowShadow).2.activeIds (q.pop allowShadow).2.cancelledIds := by
  have hu := popValid_spec q.urgent.length hq
  unfold pop
  dsimp only
  split_ifs with hstop
  · exact hu
  · rw [not_or,Option.not_isSome_iff_eq_none] at hstop
    rw [hstop.1] at hu
    refine hu.trans_none ?_
    have hv := popValid_spec q.shadow.length (hu.tidy.perm List.perm_append_comm)
    exact hv.perm List.perm_append_comm List.perm_append_comm

end TransferCommandQueue
end BeliefKV
