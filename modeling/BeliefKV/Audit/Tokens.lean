import BeliefKV.Audit.Snapshots
import BeliefKV.Lib.Base64
import BeliefKV.Lib.Call
import BeliefKV.Lib.Dict

/-! The trace of request tokens. A random symbol stands for each token id, the same for the same id, so that the prefixes of
requests can be compared without the ids. -/
namespace BeliefKV
open Relation

structure SymbolTable where
  symbolByTokenId : Dict ℤ ℕ := ∅
  usedSymbols : Finset ℕ := ∅

namespace SymbolTable
variable {t t' : SymbolTable} {ids : List ℤ} {draws : List ℕ}

/-- Numbers are drawn until one is new. The result is `none` where the draws are used up before. -/
def symbol (t : SymbolTable) (tokenId : ℤ) (draws : List ℕ) : Option (ℕ × SymbolTable × List ℕ) :=
  match t.symbolByTokenId[tokenId]? with
  | some existing => some (existing,t,draws)
  | none =>
    match draws.dropWhile fun drawn => drawn ∈ t.usedSymbols with
    | [] => none
    | drawn :: rest =>
      some (drawn,⟨t.symbolByTokenId.insert tokenId drawn,insert drawn t.usedSymbols⟩,rest)

/-- A negative id raises; the ids before it keep their symbols. -/
def symbols : List ℤ → SymbolTable → List ℕ → Option (SymbolTable × Except Raised (List ℕ))
  | [], t, _ => some (t,.ok [])
  | tokenId :: ids, t, draws =>
    if tokenId < 0 then some (t,.error (.valueError "token IDs must be non-negative"))
    else
      match t.symbol tokenId draws with
      | none => none
      | some (drawn,t',rest) => (symbols ids t' rest).map fun answer => (answer.1,answer.2.map (drawn :: ·))

def Stands (t : SymbolTable) (tokenId : ℤ) (s : ℕ) : Prop := t.symbolByTokenId[tokenId]? = some s

/-- Different ids have different symbols of 64 bits. -/
structure Coded (t : SymbolTable) : Prop where
  fits : ∀ tokenId s, t.Stands tokenId s → s < 2 ^ 64
  used : ∀ tokenId s, t.Stands tokenId s → s ∈ t.usedSymbols
  injective : ∀ a b s, t.Stands a s → t.Stands b s → a = b

/-- No symbol of `t` is given up. -/
def Extends (t t' : SymbolTable) : Prop := ∀ tokenId s, t.Stands tokenId s → t'.Stands tokenId s

theorem extends_refl (t : SymbolTable) : t.Extends t := fun _ _ hs => hs

theorem Extends.trans {t'' : SymbolTable} (h : Extends t t') (h' : Extends t' t'') : Extends t t'' :=
  fun tokenId s hs => h' tokenId s (h tokenId s hs)

theorem coded_start : Coded {} where
  fits tokenId s h := absurd h (by simp [Stands])
  used tokenId s h := absurd h (by simp [Stands])
  injective a b s h := absurd h (by simp [Stands])

theorem symbol_spec (h : t.Coded) (hdraws : ∀ drawn ∈ draws, drawn < 2 ^ 64) {tokenId : ℤ} {s : ℕ} {rest : List ℕ}
    (hs : t.symbol tokenId draws = some (s,t',rest)) :
    t'.Coded ∧ t.Extends t' ∧ t'.Stands tokenId s ∧ ∀ drawn ∈ rest, drawn < 2 ^ 64 := by
  unfold symbol at hs
  split at hs
  · rename_i existing hexisting
    obtain ⟨rfl,rfl,rfl⟩ : existing = s ∧ t = t' ∧ draws = rest := by simpa using hs
    exact ⟨h,extends_refl t,hexisting,hdraws⟩
  · rename_i hnew
    split at hs
    · exact absurd hs (by simp)
    · rename_i drawn left hdrop
      obtain ⟨rfl,rfl,rfl⟩ : drawn = s ∧ _ = t' ∧ left = rest := by simpa using hs
      have hmem : ∀ x ∈ drawn :: left, x ∈ draws := fun x hx => (List.dropWhile_sublist _).mem (hdrop ▸ hx)
      have hunused : drawn ∉ t.usedSymbols := by
        have hhead := List.head?_dropWhile_not (fun x => decide (x ∈ t.usedSymbols)) draws
        rw [hdrop] at hhead
        simpa using hhead
      have hget (a : ℤ) (x : ℕ) : Stands ⟨t.symbolByTokenId.insert tokenId drawn,insert drawn t.usedSymbols⟩ a x ↔
          (a = tokenId ∧ x = drawn) ∨ (a ≠ tokenId ∧ t.Stands a x) := by
        unfold Stands
        rw [Dict.get_insert]
        by_cases ha : a = tokenId
        · simp [ha,eq_comm]
        · simp [ha,Ne.symm ha]
      refine ⟨⟨?_,?_,?_⟩,?_,?_,fun x hx => hdraws x (hmem x (List.mem_cons_of_mem _ hx))⟩
      · intro a x hx
        obtain ⟨-,rfl⟩ | ⟨-,hold⟩ := (hget a x).mp hx
        · exact hdraws _ (hmem _ List.mem_cons_self)
        · exact h.fits a x hold
      · intro a x hx
        obtain ⟨-,rfl⟩ | ⟨-,hold⟩ := (hget a x).mp hx
        · exact Finset.mem_insert_self _ _
        · exact Finset.mem_insert_of_mem (h.used a x hold)
      · intro a b x ha hb
        obtain ⟨rfl,rfl⟩ | ⟨-,ha'⟩ := (hget a x).mp ha
        · obtain ⟨rfl,-⟩ | ⟨-,hb'⟩ := (hget b x).mp hb
          · rfl
          · exact absurd (h.used b x hb') hunused
        · obtain ⟨rfl,rfl⟩ | ⟨-,hb'⟩ := (hget b x).mp hb
          · exact absurd (h.used a x ha') hunused
          · exact h.injective a b x ha' hb'
      · intro a x hx
        refine (hget a x).mpr (.inr ⟨?_,hx⟩)
        rintro rfl
        exact absurd (hnew.symm.trans hx) (by simp)
      · exact (hget tokenId drawn).mpr (.inl ⟨rfl,rfl⟩)

theorem symbols_spec {answer : Except Raised (List ℕ)} (h : t.Coded) (hdraws : ∀ drawn ∈ draws, drawn < 2 ^ 64)
    (hs : symbols ids t draws = some (t',answer)) :
    t'.Coded ∧ t.Extends t' ∧ ∀ ss, answer = .ok ss → List.Forall₂ t'.Stands ids ss := by
  induction ids generalizing t draws answer with
  | nil =>
    obtain ⟨rfl,rfl⟩ : t = t' ∧ Except.ok [] = answer := by simpa [symbols] using hs
    refine ⟨h,extends_refl t,fun ss hss => ?_⟩
    obtain rfl := Except.ok.inj hss
    exact .nil
  | cons tokenId ids ih =>
    rw [symbols] at hs
    split_ifs at hs with hnegative
    · obtain ⟨rfl,rfl⟩ : t = t' ∧ _ = answer := by simpa using hs
      exact ⟨h,extends_refl t,fun ss hss => absurd hss (by simp)⟩
    · cases hone : t.symbol tokenId draws with
      | none => simp [hone] at hs
      | some step =>
        obtain ⟨drawn,t₁,rest⟩ := step
        simp only [hone,Option.map_eq_some_iff] at hs
        obtain ⟨⟨t₂,answer'⟩,hrest,heq⟩ := hs
        obtain ⟨rfl,rfl⟩ : t₂ = t' ∧ answer'.map (drawn :: ·) = answer := by simpa using heq
        obtain ⟨hcoded,hextends,hstands,hleft⟩ := symbol_spec h hdraws hone
        obtain ⟨hcoded',hextends',hall⟩ := ih hcoded hleft hrest
        refine ⟨hcoded',hextends.trans hextends',fun ss hss => ?_⟩
        cases answer' with
        | error e => exact absurd hss (by simp [Except.map])
        | ok ss' =>
          obtain rfl := Except.ok.inj hss
          exact .cons (hextends' tokenId drawn hstands) (hall ss' rfl)

/-- What stands for two lists of ids agrees where the ids agree. -/
theorem Coded.take_iff (h : t.Coded) {ids₁ ids₂ : List ℤ} {ss₁ ss₂ : List ℕ} (h₁ : List.Forall₂ t.Stands ids₁ ss₁)
    (h₂ : List.Forall₂ t.Stands ids₂ ss₂) (k : ℕ) : ss₁.take k = ss₂.take k ↔ ids₁.take k = ids₂.take k := by
  have hleft : Relator.LeftUnique t.Stands := fun a b s ha hb => h.injective a b s ha hb
  have hright : Relator.RightUnique t.Stands := fun a s s' hs hs' => Option.some.inj (hs.symm.trans hs')
  have htake₁ := List.forall₂_take k h₁
  have htake₂ := List.forall₂_take k h₂
  constructor
  · intro hsame
    rw [hsame] at htake₁
    exact List.left_unique_forall₂' hleft htake₁ htake₂
  · intro hsame
    rw [hsame] at htake₁
    exact List.right_unique_forall₂' hright htake₁ htake₂

end SymbolTable

/-! ## The trace -/

/-- None of the named arguments of the call has the name of another entry of the line, such as `sequence`, `run_id` or
`token_count`; merged last, it would replace that entry. -/
structure TraceEntry (Fields : Type) where
  sequence : ℕ
  event : String
  tsMs : ℚ
  symbols : List ℕ
  fields : Fields

/-- What is written of an entry, as far as a reader of the symbols uses it. -/
structure TraceLine (Fields : Type) where
  sequence : ℕ
  event : String
  tsMs : ℚ
  tokenCount : ℕ
  tokenEncoding : String
  tokenSymbolsB64 : String
  tokenSymbolsBlake2b : String
  fields : Fields

namespace RequestTokenTrace

def encoding : String := "run_local_random_u64_bijection+uint64_le_base64"

def validEvents : List String := ["request_prompt","cache_partial_commit","cache_final_commit","cache_reset"]

section Codec
variable {Fields : Type} (blake2b : List ℕ → String)

def lineOf (entry : TraceEntry Fields) : TraceLine Fields :=
  let packed := Base64.toWords entry.symbols
  { sequence := entry.sequence, event := entry.event, tsMs := entry.tsMs, tokenCount := entry.symbols.length
    tokenEncoding := encoding, tokenSymbolsB64 := String.ofList (Base64.encode packed)
    tokenSymbolsBlake2b := blake2b packed, fields := entry.fields }

def decodeTokenTraceSymbols (line : TraceLine Fields) : Except Raised (List ℕ) :=
  if line.tokenEncoding ≠ encoding then .error (.valueError "unsupported request token trace encoding")
  else
    match Base64.decode line.tokenSymbolsB64.toList with
    | none => .error (.valueError "request token trace contains invalid base64")
    | some packed =>
      if packed.length ≠ line.tokenCount * 8 then .error (.valueError "request token trace length is inconsistent")
      else if blake2b packed ≠ line.tokenSymbolsBlake2b then
        .error (.valueError "request token trace checksum mismatch")
      else .ok (Base64.ofWords packed)

theorem decode_lineOf {entry : TraceEntry Fields} (h : ∀ s ∈ entry.symbols, s < 2 ^ 64) :
    decodeTokenTraceSymbols blake2b (lineOf blake2b entry) = .ok entry.symbols := by
  have hdecode : Base64.decode (Base64.encode (Base64.toWords entry.symbols)) = some (Base64.toWords entry.symbols) :=
    Base64.decode_encode Base64.toWords_lt
  simp [decodeTokenTraceSymbols,lineOf,hdecode,Base64.length_toWords,Nat.mul_comm,Base64.ofWords_toWords h]

end Codec
end RequestTokenTrace

/-- The entries in `handed` have a number, and their calls are about to put them. -/
structure RequestTokenTraceLog (Fields : Type) where
  sequence : ℕ := 0
  table : SymbolTable := {}
  handed : List (TraceEntry Fields) := []
  conveyor : Conveyor (TraceEntry Fields) := {}
  closing : Closing := .idle

namespace RequestTokenTraceLog
variable {Fields : Type} (log : RequestTokenTraceLog Fields)

def enabled : Bool := log.closing ≠ .closed

/-- What a call does under the lock, where the draws are enough. -/
def emitLocked (event : String) (tsMs : ℚ) (tokenIds : List ℤ) (fields : Fields) (draws : List ℕ) :
    Option (RequestTokenTraceLog Fields × Except Raised ℕ) :=
  if log.conveyor.failed then some (log,.error (.runtimeError "request token trace writer failed"))
  else
    match SymbolTable.symbols tokenIds log.table draws with
    | none => none
    | some (table,.error e) => some ({ log with table := table },.error e)
    | some (table,.ok symbols) =>
      let entry : TraceEntry Fields := ⟨log.sequence + 1,event,tsMs,symbols,fields⟩
      some ({ log with table := table, sequence := log.sequence + 1, handed := log.handed ++ [entry] },
        .ok (log.sequence + 1))

def emit (event : String) (tsMs : ℚ) (tokenIds : List ℤ) (fields : Fields) (draws : List ℕ) :
    Option (RequestTokenTraceLog Fields × Except Raised ℕ) :=
  if log.enabled = false then some (log,.ok 0)
  else if event ∉ RequestTokenTrace.validEvents then
    some (log,.error (.valueError ("unsupported request token trace event: " ++ event)))
  else if tsMs < 0 then some (log,.error (.valueError "token trace timestamp must be non-negative"))
  else log.emitLocked event tsMs tokenIds fields draws

/-- The entries that were numbered. -/
def accepted : List (TraceEntry Fields) := log.conveyor.items ++ log.handed

/-- Entries are put without the lock, so that they can overtake each other. The draws are of 64 bits. -/
inductive Step : RequestTokenTraceLog Fields → RequestTokenTraceLog Fields → Prop
  | emit (log : RequestTokenTraceLog Fields) (event : String) (tsMs : ℚ) (tokenIds : List ℤ) (fields : Fields)
      (draws : List ℕ) (hdraws : ∀ drawn ∈ draws, drawn < 2 ^ 64) {answer : RequestTokenTraceLog Fields × Except Raised ℕ}
      (h : log.emitLocked event tsMs tokenIds fields draws = some answer) : Step log answer.1
  | put (log : RequestTokenTraceLog Fields) (before after : List (TraceEntry Fields)) (entry : TraceEntry Fields)
      (h : log.handed = before ++ entry :: after) :
      Step log { log with handed := before ++ after, conveyor := log.conveyor.put (some entry) }
  | consume (log : RequestTokenTraceLog Fields) (c : Conveyor (TraceEntry Fields))
      (h : Conveyor.Consumes log.conveyor c) : Step log { log with conveyor := c }
  | mark (log : RequestTokenTraceLog Fields) (h : log.closing = .idle) :
      Step log { log with closing := .joining, conveyor := log.conveyor.put none }
  | join (log : RequestTokenTraceLog Fields) (h : log.closing = .joining) (hend : log.conveyor.running = false) :
      Step log { log with closing := .closed }

abbrev Steps : RequestTokenTraceLog Fields → RequestTokenTraceLog Fields → Prop := ReflTransGen Step

/-! ## What is written -/

/-- Each number was given once, and the symbols of an entry are those of the table. -/
structure Traced : Prop where
  coded : log.table.Coded
  numbers : (log.accepted.map TraceEntry.sequence).Perm ((List.range log.sequence).map Nat.succ)
  listed : ∀ entry ∈ log.accepted, ∀ s ∈ entry.symbols, ∃ tokenId, log.table.Stands tokenId s

variable {log} {log' : RequestTokenTraceLog Fields}

theorem emitLocked_cases {event : String} {tsMs : ℚ} {tokenIds : List ℤ} {fields : Fields} {draws : List ℕ}
    {answer : RequestTokenTraceLog Fields × Except Raised ℕ}
    (h : log.emitLocked event tsMs tokenIds fields draws = some answer) :
    (answer.1 = log ∧ ∃ e, answer.2 = .error e) ∨
      (∃ table e, SymbolTable.symbols tokenIds log.table draws = some (table,.error e) ∧
        answer = ({ log with table := table },.error e)) ∨
      ∃ table symbols, SymbolTable.symbols tokenIds log.table draws = some (table,.ok symbols) ∧
        answer = ({ log with
          table := table
          sequence := log.sequence + 1
          handed := log.handed ++ [⟨log.sequence + 1,event,tsMs,symbols,fields⟩] },.ok (log.sequence + 1)) := by
  unfold emitLocked at h
  split_ifs at h with hfailed
  · obtain rfl := Option.some.inj h
    exact .inl ⟨rfl,_,rfl⟩
  · split at h
    · exact absurd h (by simp)
    · rename_i table e hs
      exact .inr (.inl ⟨table,e,hs,(Option.some.inj h).symm⟩)
    · rename_i table symbols hs
      exact .inr (.inr ⟨table,symbols,hs,(Option.some.inj h).symm⟩)

/-- A step loses no entry and no symbol. -/
theorem Traced.step (h : log.Traced) (hstep : Step log log') :
    log'.Traced ∧ log.table.Extends log'.table ∧ ∀ entry ∈ log.accepted, entry ∈ log'.accepted := by
  cases hstep with
  | emit event tsMs tokenIds fields draws hdraws hanswer =>
    obtain ⟨hsame,-⟩ | ⟨table,e,hs,rfl⟩ | ⟨table,symbols,hs,rfl⟩ := emitLocked_cases hanswer
    · rw [hsame]
      exact ⟨h,SymbolTable.extends_refl _,fun _ hmem => hmem⟩
    · obtain ⟨hcoded,hextends,-⟩ := SymbolTable.symbols_spec h.coded hdraws hs
      refine ⟨⟨hcoded,h.numbers,fun entry hentry s hmem => ?_⟩,hextends,fun _ hmem => hmem⟩
      exact (h.listed entry hentry s hmem).imp fun tokenId => hextends tokenId s
    · obtain ⟨hcoded,hextends,hall⟩ := SymbolTable.symbols_spec h.coded hdraws hs
      have haccepted : ({ log with
          table := table
          sequence := log.sequence + 1
          handed := log.handed ++ [⟨log.sequence + 1,event,tsMs,symbols,fields⟩] } :
          RequestTokenTraceLog Fields).accepted = log.accepted ++ [⟨log.sequence + 1,event,tsMs,symbols,fields⟩] := by
        simp [accepted]
      refine ⟨⟨hcoded,?_,?_⟩,hextends,fun entry hentry => ?_⟩
      · rw [haccepted]
        simpa [List.range_succ] using h.numbers.append_right [log.sequence + 1]
      · rw [haccepted]
        intro entry hentry s hmem
        obtain hold | hnew := List.mem_append.mp hentry
        · exact (h.listed entry hold s hmem).imp fun tokenId => hextends tokenId s
        · obtain rfl := List.mem_singleton.mp hnew
          obtain ⟨tokenId,-,hstands⟩ := Call.forall₂_mem_right (hall symbols rfl) hmem
          exact ⟨tokenId,hstands⟩
      · rw [haccepted]
        exact List.mem_append_left _ hentry
  | put before after entry hhanded =>
    have hperm : ({ log with handed := before ++ after, conveyor := log.conveyor.put (some entry) } :
        RequestTokenTraceLog Fields).accepted.Perm log.accepted := by
      simp only [accepted,Conveyor.put_items,hhanded,List.append_assoc,List.singleton_append]
      exact List.Perm.append_left _ List.perm_middle.symm
    exact ⟨⟨h.coded,(hperm.map _).trans h.numbers,fun e he => h.listed e (hperm.mem_iff.mp he)⟩,
      SymbolTable.extends_refl _,fun e he => hperm.mem_iff.mpr he⟩
  | consume c hc =>
    have hsame : ({ log with conveyor := c } : RequestTokenTraceLog Fields).accepted = log.accepted := by
      simp [accepted,hc.items]
    exact ⟨⟨h.coded,by rw [hsame]; exact h.numbers,by rw [hsame]; exact h.listed⟩,SymbolTable.extends_refl _,
      by rw [hsame]; exact fun _ hmem => hmem⟩
  | mark _ =>
    have hsame : ({ log with closing := .joining, conveyor := log.conveyor.put none } :
        RequestTokenTraceLog Fields).accepted = log.accepted := by simp [accepted,Conveyor.put_mark_items]
    exact ⟨⟨h.coded,by rw [hsame]; exact h.numbers,by rw [hsame]; exact h.listed⟩,SymbolTable.extends_refl _,
      by rw [hsame]; exact fun _ hmem => hmem⟩
  | join _ _ => exact ⟨⟨h.coded,h.numbers,h.listed⟩,SymbolTable.extends_refl _,fun _ hmem => hmem⟩

theorem traced_start : ({} : RequestTokenTraceLog Fields).Traced where
  coded := SymbolTable.coded_start
  numbers := .refl _
  listed entry h := absurd h (by simp [accepted,Conveyor.items])

theorem Traced.steps (h : log.Traced) (hsteps : Steps log log') :
    log'.Traced ∧ log.table.Extends log'.table ∧ ∀ entry ∈ log.accepted, entry ∈ log'.accepted := by
  induction hsteps with
  | refl => exact ⟨h,SymbolTable.extends_refl _,fun _ hmem => hmem⟩
  | tail _ hstep ih =>
    obtain ⟨htraced,hextends,hkept⟩ := ih
    obtain ⟨htraced',hextends',hkept'⟩ := htraced.step hstep
    exact ⟨htraced',hextends.trans hextends',fun entry hentry => hkept' entry (hkept entry hentry)⟩

theorem Traced.written_mem {entry : TraceEntry Fields} (hentry : entry ∈ log.conveyor.written) :
    entry ∈ log.accepted := by
  simp [accepted,Conveyor.items,hentry]

/-- An accepted entry is given by its number. -/
theorem Traced.entry_unique (h : log.Traced) {e e' : TraceEntry Fields} (he : e ∈ log.accepted) (he' : e' ∈ log.accepted)
    (hsame : e.sequence = e'.sequence) : e = e' := by
  have hnodup : (log.accepted.map TraceEntry.sequence).Nodup :=
    h.numbers.nodup_iff.mpr ((List.nodup_range).map Nat.succ_injective)
  exact List.inj_on_of_nodup_map hnodup he he' hsame

theorem Traced.fits (h : log.Traced) {entry : TraceEntry Fields} (hentry : entry ∈ log.accepted) :
    ∀ s ∈ entry.symbols, s < 2 ^ 64 := fun s hs =>
  (h.listed entry hentry s hs).elim fun tokenId hstands => h.coded.fits tokenId s hstands

/-- A call that gives a number back hands an entry over whose symbols stand for its ids. -/
theorem Traced.emitted (h : log.Traced) {event : String} {tsMs : ℚ} {tokenIds : List ℤ} {fields : Fields}
    {draws : List ℕ} {n : ℕ} (hdraws : ∀ drawn ∈ draws, drawn < 2 ^ 64)
    (hemit : log.emitLocked event tsMs tokenIds fields draws = some (log',.ok n)) :
    ∃ symbols, (⟨n,event,tsMs,symbols,fields⟩ : TraceEntry Fields) ∈ log'.accepted ∧
      List.Forall₂ log'.table.Stands tokenIds symbols := by
  obtain ⟨-,e,he⟩ | ⟨table,e,-,heq⟩ | ⟨table,symbols,hs,heq⟩ := emitLocked_cases hemit
  · exact absurd he (by simp)
  · exact absurd (congrArg Prod.snd heq) (by simp)
  · obtain ⟨rfl,hn⟩ := Prod.mk.inj heq
    obtain rfl := Except.ok.inj hn
    obtain ⟨-,-,hall⟩ := SymbolTable.symbols_spec h.coded hdraws hs
    exact ⟨symbols,by simp [accepted],hall symbols rfl⟩

variable (blake2b : List ℕ → String)

/-- Every line of the file passes the checks of its reader, and no number is written twice. -/
theorem lines_readable (hsteps : Steps {} log) :
    (log.conveyor.written.map TraceEntry.sequence).Nodup ∧
      ∀ entry ∈ log.conveyor.written, 0 < entry.sequence ∧ entry.sequence ≤ log.sequence ∧
        RequestTokenTrace.decodeTokenTraceSymbols blake2b (RequestTokenTrace.lineOf blake2b entry) = .ok entry.symbols := by
  have htraced := (traced_start.steps hsteps).1
  have hnodup : (log.accepted.map TraceEntry.sequence).Nodup :=
    htraced.numbers.nodup_iff.mpr ((List.nodup_range).map Nat.succ_injective)
  constructor
  · refine hnodup.sublist (List.Sublist.map _ ?_)
    rw [accepted,Conveyor.items,List.append_assoc]
    exact List.sublist_append_left _ _
  · intro entry hentry
    have hmem := Traced.written_mem hentry
    have hnumber := htraced.numbers.mem_iff.mp (List.mem_map_of_mem hmem)
    simp only [List.mem_map,List.mem_range] at hnumber
    obtain ⟨k,hk,hsame⟩ := hnumber
    exact ⟨by omega,by omega,RequestTokenTrace.decode_lineOf blake2b (htraced.fits hmem)⟩

/-- What a reader gets of two requests agrees exactly as far as their token ids do, whichever numbers were drawn and in
whatever order the requests came and were written. -/
theorem prefixes_kept {log₁ log₁' log₂ log₂' : RequestTokenTraceLog Fields} {event₁ event₂ : String} {tsMs₁ tsMs₂ : ℚ}
    {ids₁ ids₂ : List ℤ} {fields₁ fields₂ : Fields} {draws₁ draws₂ : List ℕ} {n₁ n₂ : ℕ} {e₁ e₂ : TraceEntry Fields}
    (hstart : Steps {} log₁) (hdraws₁ : ∀ drawn ∈ draws₁, drawn < 2 ^ 64)
    (hemit₁ : log₁.emitLocked event₁ tsMs₁ ids₁ fields₁ draws₁ = some (log₁',.ok n₁)) (hbetween : Steps log₁' log₂)
    (hdraws₂ : ∀ drawn ∈ draws₂, drawn < 2 ^ 64)
    (hemit₂ : log₂.emitLocked event₂ tsMs₂ ids₂ fields₂ draws₂ = some (log₂',.ok n₂)) (hafter : Steps log₂' log)
    (hwritten₁ : e₁ ∈ log.conveyor.written) (hnumber₁ : e₁.sequence = n₁)
    (hwritten₂ : e₂ ∈ log.conveyor.written) (hnumber₂ : e₂.sequence = n₂) :
    ∃ ss₁ ss₂, RequestTokenTrace.decodeTokenTraceSymbols blake2b (RequestTokenTrace.lineOf blake2b e₁) = .ok ss₁ ∧
      RequestTokenTrace.decodeTokenTraceSymbols blake2b (RequestTokenTrace.lineOf blake2b e₂) = .ok ss₂ ∧
      ∀ k, ss₁.take k = ss₂.take k ↔ ids₁.take k = ids₂.take k := by
  have htraced₁ := (traced_start.steps hstart).1
  have hstep₁ : Step log₁ log₁' := .emit log₁ event₁ tsMs₁ ids₁ fields₁ draws₁ hdraws₁ hemit₁
  have htraced₂ := ((htraced₁.step hstep₁).1.steps hbetween).1
  have hstep₂ : Step log₂ log₂' := .emit log₂ event₂ tsMs₂ ids₂ fields₂ draws₂ hdraws₂ hemit₂
  obtain ⟨symbols₁,hmem₁,hstands₁⟩ := htraced₁.emitted hdraws₁ hemit₁
  obtain ⟨symbols₂,hmem₂,hstands₂⟩ := htraced₂.emitted hdraws₂ hemit₂
  -- both entries are still there, and the table still has their symbols
  obtain ⟨htraced,hextends₁,hkept₁⟩ := (htraced₁.step hstep₁).1.steps ((hbetween.tail hstep₂).trans hafter)
  obtain ⟨-,hextends₂,hkept₂⟩ := (htraced₂.step hstep₂).1.steps hafter
  have he₁ := htraced.entry_unique (Traced.written_mem hwritten₁) (hkept₁ _ hmem₁) hnumber₁
  have he₂ := htraced.entry_unique (Traced.written_mem hwritten₂) (hkept₂ _ hmem₂) hnumber₂
  refine ⟨symbols₁,symbols₂,?_,?_,?_⟩
  · rw [RequestTokenTrace.decode_lineOf blake2b (htraced.fits (Traced.written_mem hwritten₁)),he₁]
  · rw [RequestTokenTrace.decode_lineOf blake2b (htraced.fits (Traced.written_mem hwritten₂)),he₂]
  · intro k
    have h₁ : List.Forall₂ log.table.Stands ids₁ symbols₁ := hstands₁.imp fun a s => hextends₁ a s
    have h₂ : List.Forall₂ log.table.Stands ids₂ symbols₂ := hstands₂.imp fun a s => hextends₂ a s
    exact htraced.coded.take_iff h₁ h₂ k

/-! ## A run -/

def sampleFirst : TraceEntry ℕ := ⟨1,"request_prompt",3,[11],7⟩

def sampleSecond : TraceEntry ℕ := ⟨2,"cache_final_commit",4,[11,12],7⟩

/-- One request is on its way. -/
def sampleOne : RequestTokenTraceLog ℕ where
  sequence := 1
  table := ⟨(∅ : Dict ℤ ℕ).insert 5 11,insert 11 ∅⟩
  handed := [sampleFirst]

/-- Two requests with a first token in common are on their way. -/
def sampleTwo : RequestTokenTraceLog ℕ where
  sequence := 2
  table := ⟨((∅ : Dict ℤ ℕ).insert 5 11).insert 6 12,insert 12 (insert 11 ∅)⟩
  handed := [sampleFirst,sampleSecond]

/-- The second request has overtaken the first one. -/
def sampleTrace : RequestTokenTraceLog ℕ where
  sequence := 2
  table := sampleTwo.table
  conveyor := { written := [sampleSecond,sampleFirst] }

theorem sampleFirst_emit : ({} : RequestTokenTraceLog ℕ).emitLocked "request_prompt" 3 [5] 7 [11] =
    some (sampleOne,.ok 1) := by
  simp [emitLocked,SymbolTable.symbols,SymbolTable.symbol,sampleOne,sampleFirst,Except.map]

/-- The first draw is in use. -/
theorem sampleSecond_emit : sampleOne.emitLocked "cache_final_commit" 4 [5,6] 7 [11,12] =
    some (sampleTwo,.ok 2) := by
  simp [emitLocked,SymbolTable.symbols,SymbolTable.symbol,sampleOne,sampleTwo,sampleFirst,sampleSecond,Except.map]

theorem sampleTrace_steps : Steps sampleTwo sampleTrace := by
  have hsecond : Steps sampleTwo { sampleTwo with handed := [sampleFirst], conveyor := { queue := [some sampleSecond] } } :=
    .single (.put sampleTwo [sampleFirst] [] sampleSecond rfl)
  have hfirst := hsecond.tail (.put _ [] [] sampleFirst rfl)
  have htake := hfirst.tail (.consume _ _ (.work (.take _ sampleSecond [some sampleFirst] rfl rfl rfl)))
  have hwrite := htake.tail (.consume _ _ (.work (.write _ sampleSecond rfl rfl)))
  have hnext := hwrite.tail (.consume _ _ (.work (.take _ sampleFirst [] rfl rfl rfl)))
  exact hnext.tail (.consume _ _ (.work (.write _ sampleFirst rfl rfl)))

theorem draws_sample : ∀ drawn ∈ [11], drawn < 2 ^ 64 := by simp

theorem later_draws_sample : ∀ drawn ∈ [11,12], drawn < 2 ^ 64 := by simp

theorem prefixes_kept_sample :
    ∃ ss₁ ss₂, RequestTokenTrace.decodeTokenTraceSymbols (fun _ => "") (RequestTokenTrace.lineOf (fun _ => "") sampleFirst) =
        .ok ss₁ ∧
      RequestTokenTrace.decodeTokenTraceSymbols (fun _ => "") (RequestTokenTrace.lineOf (fun _ => "") sampleSecond) =
        .ok ss₂ ∧
      ∀ k, ss₁.take k = ss₂.take k ↔ ([5] : List ℤ).take k = [5,6].take k :=
  prefixes_kept (fun _ => "") .refl draws_sample sampleFirst_emit .refl later_draws_sample sampleSecond_emit
    sampleTrace_steps (by simp [sampleTrace]) rfl (by simp [sampleTrace]) rfl

theorem lines_readable_sample : (sampleTrace.conveyor.written.map TraceEntry.sequence).Nodup ∧
    ∀ entry ∈ sampleTrace.conveyor.written, 0 < entry.sequence ∧ entry.sequence ≤ 2 ∧
      RequestTokenTrace.decodeTokenTraceSymbols (fun _ => "") (RequestTokenTrace.lineOf (fun _ => "") entry) =
        .ok entry.symbols := by
  have hfirst : Steps {} sampleOne := .single (.emit {} "request_prompt" 3 [5] 7 [11] draws_sample sampleFirst_emit)
  have hsecond := hfirst.tail (.emit sampleOne "cache_final_commit" 4 [5,6] 7 [11,12] later_draws_sample sampleSecond_emit)
  exact lines_readable (fun _ => "") (hsecond.trans sampleTrace_steps)

end RequestTokenTraceLog
end BeliefKV
