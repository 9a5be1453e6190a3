import BeliefKV.Protocol
import BeliefKV.Actions.Json

/-! The incremental parser of structured actions. -/
namespace BeliefKV
open Incremental

inductive StructuredActionKind
  | functionCall
  | spawn
  | handoff
  | finalAnswer
  | unknown
  deriving DecidableEq

inductive ParserStatus
  | empty
  | incomplete
  | valid
  | invalid
  | unknown
  deriving DecidableEq

structure ParserUpdate where
  status : ParserStatus
  generatedTokens : ℤ
  actionKind : StructuredActionKind := .unknown
  actionName : Option (List ℕ) := none
  boundaryTokenIndex : Option ℤ := none
  reason : String := ""

/-- The checks of the constructor. -/
def ParserUpdate.checked (u : ParserUpdate) : Except Raised ParserUpdate := do
  ensure (0 ≤ u.generatedTokens) (.valueError "generated_tokens must be non-negative")
  ensure (u.boundaryTokenIndex = none ∨ u.status = .valid)
    (.valueError "only a valid parser state can carry a boundary token")
  ensure (∀ b ∈ u.boundaryTokenIndex, 0 < b ∧ b ≤ u.generatedTokens)
    (.valueError "boundary token must lie within generated output")
  ensure (u.status = .valid → u.actionKind ≠ .unknown)
    (.valueError "a valid parser state requires a known action kind")
  .ok u

structure JsonActionParser where
  buffer : List Char := []
  valid : Option ParserUpdate := none

namespace JsonActionParser

/-- The characters that `strip` takes off the ends of a text. -/
def isSpace (c : Char) : Bool :=
  (9 ≤ c.toNat && c.toNat ≤ 13) || (28 ≤ c.toNat && c.toNat ≤ 32) || c.toNat = 0x85 || c.toNat = 0xA0 ||
    c.toNat = 0x1680 || (0x2000 ≤ c.toNat && c.toNat ≤ 0x200A) || c.toNat = 0x2028 || c.toNat = 0x2029 ||
    c.toNat = 0x202F || c.toNat = 0x205F || c.toNat = 0x3000

def stripped (text : List Char) : List Char := strip isSpace text

def codes (text : String) : List ℕ := text.toList.map Char.toNat

/-- What Python makes of values and texts: the text of a value that is none, the quoted form of a text, whether a
number is zero, and what the decoder says of a text that it cannot decode. -/
structure Python where
  str : JsonValue → List ℕ
  quoted : List ℕ → String
  isZero : List Char → Bool
  message : List Char → String

section Feed
variable (py : Python)

def text : JsonValue → List ℕ
  | .text t => t
  | v => py.str v

def truthy : JsonValue → Bool
  | .null => false
  | .bool b => b
  | .number t => !py.isZero t
  | .text t => t ≠ []
  | .array items => !items.isEmpty
  | .object entries => !entries.isEmpty

/-- The value of a key, the last one if there are several. -/
def lookup (entries : List (List ℕ × JsonValue)) (key : String) : Option JsonValue :=
  (entries.reverse.find? fun e => e.1 = codes key).map Prod.snd

def actionKinds : List (String × StructuredActionKind) :=
  [("tool",.functionCall),("function_call",.functionCall),("spawn",.spawn),("task",.spawn),("handoff",.handoff),
    ("final",.finalAnswer),("final_answer",.finalAnswer)]

def kindOf (action : List ℕ) : StructuredActionKind :=
  ((actionKinds.find? fun e => codes e.1 = action).map Prod.snd).getD .unknown

/-- The first of some keys whose value counts, or else the value of the last one. -/
def nameOf (entries : List (List ℕ × JsonValue)) : JsonValue :=
  let get (key : String) : JsonValue := (lookup entries key).getD .null
  if truthy py (get "name") then get "name" else if truthy py (get "target") then get "target" else get "role"

/-- What is said of a text, apart from the count of tokens. -/
structure Verdict where
  status : ParserStatus
  actionKind : StructuredActionKind := .unknown
  actionName : Option (List ℕ) := none
  reason : String := ""

def Verdict.update (v : Verdict) (generatedTokens : ℤ) : ParserUpdate where
  status := v.status
  generatedTokens := generatedTokens
  actionKind := v.actionKind
  actionName := v.actionName
  boundaryTokenIndex := if v.status = .valid then some generatedTokens else none
  reason := v.reason

def judgeEnvelope (entries : List (List ℕ × JsonValue)) : Verdict :=
  let action := ((lookup entries "action").map (text py)).getD []
  let kind := kindOf action
  let name := nameOf py entries
  if kind = .unknown then { status := .invalid, reason := "unsupported structured action " ++ py.quoted action }
  else if kind ≠ .finalAnswer ∧ ¬ truthy py name = true then
    { status := .invalid, reason := "structured action is missing name/target/role" }
  else
    { status := .valid
      actionKind := kind
      actionName := match name with
        | .null => none
        | name => some (text py name)
      reason := "normalized JSON action became valid" }

def judge (text : List Char) : Verdict :=
  if text = [] then { status := .empty }
  else if text.head? ≠ some '{' then
    { status := .unknown, reason := "output does not use the normalized structured-action envelope" }
  else
    match JsonDecoder.rawDecode text with
    | none =>
      -- A brace at the end is taken for the end of the envelope.
      { status := if text.getLast? = some '}' then .invalid else .incomplete, reason := py.message text }
    | some (decoded,rest) =>
      if stripped rest ≠ [] then
        { status := .invalid, reason := "non-whitespace content follows the action envelope" }
      else
        match decoded with
        | .object entries => judgeEnvelope py entries
        | _ => { status := .invalid, reason := "action envelope must be a JSON object" }

/-- Feed a fragment. A valid action is kept; until there is one, the whole text is judged each time. -/
def feed (p : JsonActionParser) (fragment : List Char) (generatedTokens : ℤ) :
    JsonActionParser × Except Raised ParserUpdate :=
  if generatedTokens < 0 then (p,.error (.valueError "generated_tokens must be non-negative"))
  else
    match p.valid with
    | some update => (p,{ update with generatedTokens := generatedTokens }.checked)
    | none =>
      let buffer := p.buffer ++ fragment
      match ((judge py (stripped buffer)).update generatedTokens).checked with
      | .error e => ({ p with buffer := buffer },.error e)
      | .ok update => ({ buffer := buffer, valid := if update.status = .valid then some update else none },.ok update)

/-- A fragment and the tokens that have been generated with it. -/
abbrev Feed := List Char × ℤ

/-- The parser after some fragments. -/
def fed (feeds : List Feed) : JsonActionParser := feeds.foldl (fun p f => (feed py p f.1 f.2).1) {}

end Feed

/-- The text of some fragments. -/
def joined (feeds : List Feed) : List Char := (feeds.map Prod.fst).flatten

/-- A text without the blanks after its envelope. -/
def envelope (text : List Char) : List Char := rstrip isSpace text

variable {py : Python} {text part : List Char} {feeds : List Feed}

/-! ## Parts of a valid text -/

theorem judge_decoded (h : (judge py text).status = .valid) : text.head? = some '{' ∧
    ∃ entries rest, JsonDecoder.rawDecode text = some (.object entries,rest) ∧ stripped rest = [] ∧
      judge py text = judgeEnvelope py entries := by
  unfold judge at h ⊢
  by_cases hempty : text = []
  · rw [if_pos hempty] at h
    cases h
  rw [if_neg hempty] at h ⊢
  by_cases hhead : text.head? ≠ some '{'
  · rw [if_pos hhead] at h
    cases h
  rw [if_neg hhead] at h ⊢
  refine ⟨not_not.mp hhead,?_⟩
  cases hdecoded : JsonDecoder.rawDecode text with
  | none =>
    rw [hdecoded] at h
    dsimp only at h
    split_ifs at h
  | some found =>
    obtain ⟨decoded,rest⟩ := found
    rw [hdecoded] at h
    dsimp only at h ⊢
    by_cases hrest : stripped rest ≠ []
    · rw [if_pos hrest] at h
      cases h
    rw [if_neg hrest] at h ⊢
    cases decoded with
    | object entries => exact ⟨entries,rest,rfl,not_not.mp hrest,rfl⟩
    | null => cases h
    | bool b => cases h
    | number t => cases h
    | text t => cases h
    | array items => cases h

theorem judge_kind (h : (judge py text).status = .valid) : (judge py text).actionKind ≠ .unknown := by
  obtain ⟨-,entries,rest,-,-,hjudge⟩ := judge_decoded h
  rw [hjudge] at h ⊢
  unfold judgeEnvelope at h ⊢
  dsimp only at h ⊢
  split_ifs at h ⊢ with hkind hname
  exact hkind

/-- A valid text that is stripped is used up by its value. -/
theorem judge_used_up (h : (judge py (stripped text)).status = .valid) :
    ∃ v, JsonDecoder.rawDecode (stripped text) = some (v,[]) := by
  obtain ⟨-,entries,rest,hdecoded,hblank,-⟩ := judge_decoded h
  have hself : rstrip isSpace (stripped text) = stripped text := List.rdropWhile_idempotent isSpace _
  obtain ⟨read,hread⟩ := decode_suffix hdecoded
  have hshort : rstrip isSpace read = read ++ rest := by
    rw [← rstrip_append_blanks (strip_eq_nil hblank) read,hread,hself]
  have hlength := (List.rdropWhile_prefix isSpace read).length_le
  have hnone : rest = [] := by
    rw [← List.length_eq_zero_iff]
    have heq := congrArg List.length hshort
    unfold rstrip at heq
    rw [List.length_append] at heq
    omega
  rw [hnone] at hdecoded
  exact ⟨_,hdecoded⟩

/-- Before a valid text is complete, no part of it is valid, and a part is invalid iff it ends in a brace. -/
theorem judge_part (h : (judge py (stripped text)).status = .valid) (hpart : part <+: text) :
    (envelope text <+: part ∧ stripped part = stripped text) ∨
      (¬ envelope text <+: part ∧ (judge py (stripped part)).status ≠ .valid ∧
        ((judge py (stripped part)).status = .invalid ↔ (stripped part).getLast? = some '}')) := by
  obtain ⟨hhead,-⟩ := judge_decoded h
  obtain ⟨v,hdecoded⟩ := judge_used_up h
  have hsome : stripped text ≠ [] := by
    intro hnil
    rw [hnil] at hhead
    cases hhead
  obtain hdone | ⟨hless,more,hmore,hstripped⟩ := strip_part hsome hpart
  · exact .inl hdone
  refine .inr ⟨hless,?_⟩
  change stripped text = stripped part ++ more at hstripped
  unfold judge
  by_cases hempty : stripped part = []
  · rw [if_pos hempty,hempty]
    exact ⟨nofun,nofun,nofun⟩
  have hbrace : (stripped part).head? = some '{' := by
    rw [hstripped,List.head?_append_of_ne_nil _ hempty] at hhead
    exact hhead
  have hnone : JsonDecoder.rawDecode (stripped part) = none := by
    rw [hstripped] at hdecoded
    exact decode_part hdecoded hmore
  rw [if_neg hempty,if_neg (not_not.mpr hbrace),hnone]
  by_cases hlast : (stripped part).getLast? = some '}'
  · rw [if_pos hlast]
    exact ⟨nofun,fun _ => hlast,fun _ => rfl⟩
  · rw [if_neg hlast]
    exact ⟨nofun,nofun,fun h => absurd h hlast⟩

/-! ## Feeds -/

/-- The tokens are counted from one on, and never fewer. -/
def Counted (feeds : List Feed) : Prop := (∀ f ∈ feeds, 0 < f.2) ∧ feeds.Pairwise fun f g => f.2 ≤ g.2

/-- The parser has read a part of a valid text, and has found its action iff the envelope is complete. -/
structure Reading (py : Python) (text : List Char) (feeds : List Feed) (p : JsonActionParser) : Prop where
  open_iff : p.valid = none ↔ ¬ envelope text <+: joined feeds
  buffer : p.valid = none → p.buffer = joined feeds
  kept : ∀ u, p.valid = some u → u.status = .valid ∧ u.actionKind = (judge py (stripped text)).actionKind ∧
    u.actionName = (judge py (stripped text)).actionName ∧ u.actionKind ≠ .unknown ∧
    ∃ b, u.boundaryTokenIndex = some b ∧ 0 < b ∧ ∀ tokens, (∀ f ∈ feeds, f.2 ≤ tokens) → b ≤ tokens

theorem joined_concat (feeds : List Feed) (f : Feed) : joined (feeds ++ [f]) = joined feeds ++ f.1 := by
  unfold joined
  rw [List.map_append,List.flatten_append,List.map_singleton,List.flatten_singleton]

theorem fed_concat (py : Python) (feeds : List Feed) (f : Feed) :
    fed py (feeds ++ [f]) = (feed py (fed py feeds) f.1 f.2).1 := by
  unfold fed
  rw [List.foldl_concat]

theorem checked_ok {u : ParserUpdate} (htokens : 0 ≤ u.generatedTokens)
    (hstatus : u.boundaryTokenIndex = none ∨ u.status = .valid)
    (hboundary : ∀ b ∈ u.boundaryTokenIndex, 0 < b ∧ b ≤ u.generatedTokens)
    (hkind : u.status = .valid → u.actionKind ≠ .unknown) : u.checked = .ok u := by
  unfold ParserUpdate.checked
  rw [ensure_eq_ok (u := ()).mpr htokens,ensure_eq_ok (u := ()).mpr hstatus,ensure_eq_ok (u := ()).mpr hboundary,
    ensure_eq_ok (u := ()).mpr hkind]
  rfl

theorem update_checked {tokens : ℤ} (htokens : 0 < tokens) (text : List Char) :
    ((judge py text).update tokens).checked = .ok ((judge py text).update tokens) := by
  refine checked_ok htokens.le ?_ (fun b hb => ?_) judge_kind
  · by_cases hvalid : (judge py text).status = .valid
    · exact .inr hvalid
    · exact .inl (if_neg hvalid)
  · change b ∈ (if (judge py text).status = .valid then some tokens else none) at hb
    by_cases hvalid : (judge py text).status = .valid
    · rw [if_pos hvalid] at hb
      cases hb
      exact ⟨htokens,le_rfl⟩
    · rw [if_neg hvalid] at hb
      cases hb

variable (py) in
theorem feed_open {p : JsonActionParser} {f : Feed} (hp : p.valid = none) (htokens : 0 < f.2) :
    feed py p f.1 f.2 = ({ buffer := p.buffer ++ f.1
                           valid := if (judge py (stripped (p.buffer ++ f.1))).status = .valid then
                             some ((judge py (stripped (p.buffer ++ f.1))).update f.2) else none },
      .ok ((judge py (stripped (p.buffer ++ f.1))).update f.2)) := by
  unfold feed
  rw [if_neg (not_lt.mpr htokens.le),hp]
  dsimp only
  rw [update_checked htokens]
  rfl

/-- What is said of a feed within a valid text. -/
structure Told (py : Python) (text : List Char) (feeds : List Feed) (u : ParserUpdate) : Prop where
  valid_iff : u.status = .valid ↔ envelope text <+: joined feeds
  invalid_iff : u.status = .invalid ↔
    ¬ envelope text <+: joined feeds ∧ (stripped (joined feeds)).getLast? = some '}'
  same : u.status = .valid → u.actionKind = (judge py (stripped text)).actionKind ∧
    u.actionName = (judge py (stripped text)).actionName

theorem Reading.feed {p : JsonActionParser} {f : Feed} (h : (judge py (stripped text)).status = .valid)
    (hp : Reading py text feeds p) (hpart : joined (feeds ++ [f]) <+: text) (htokens : 0 < f.2)
    (hlater : ∀ g ∈ feeds, g.2 ≤ f.2) : ∃ u, (JsonActionParser.feed py p f.1 f.2).2 = .ok u ∧
      Told py text (feeds ++ [f]) u ∧ Reading py text (feeds ++ [f]) (JsonActionParser.feed py p f.1 f.2).1 := by
  cases hvalid : p.valid with
  | some u =>
    have hdone : envelope text <+: joined (feeds ++ [f]) := by
      rw [joined_concat]
      refine List.IsPrefix.trans ?_ (List.prefix_append _ f.1)
      by_contra hless
      rw [hp.open_iff.mpr hless] at hvalid
      cases hvalid
    obtain ⟨hstatus,hkind,hname,hknown,b,hb,hpos,hle⟩ := hp.kept u hvalid
    have hchecked : { u with generatedTokens := f.2 }.checked = .ok { u with generatedTokens := f.2 } := by
      refine checked_ok htokens.le (.inr hstatus) (fun c hc => ?_) fun _ => hknown
      change c ∈ u.boundaryTokenIndex at hc
      rw [hb] at hc
      cases hc
      exact ⟨hpos,hle f.2 hlater⟩
    have hfeed : JsonActionParser.feed py p f.1 f.2 = (p,.ok { u with generatedTokens := f.2 }) := by
      unfold JsonActionParser.feed
      rw [if_neg (not_lt.mpr htokens.le),hvalid]
      dsimp only
      rw [hchecked]
    rw [hfeed]
    refine ⟨_,rfl,⟨iff_of_true hstatus hdone,iff_of_false ?_ fun h => h.1 hdone,fun _ => ⟨hkind,hname⟩⟩,?_⟩
    · rw [show ({ u with generatedTokens := f.2 } : ParserUpdate).status = u.status from rfl,hstatus]
      exact nofun
    · refine ⟨?_,fun hnone => ?_,fun w hw => ?_⟩
      · rw [hvalid]
        exact iff_of_false nofun (not_not.mpr hdone)
      · rw [hvalid] at hnone
        cases hnone
      · rw [hvalid] at hw
        cases hw
        refine ⟨hstatus,hkind,hname,hknown,b,hb,hpos,fun tokens htokens => hle tokens fun g hg => ?_⟩
        exact htokens g (List.mem_append_left [f] hg)
  | none =>
    have hbuffer : p.buffer ++ f.1 = joined (feeds ++ [f]) := by rw [hp.buffer hvalid,joined_concat]
    rw [feed_open py hvalid htokens,hbuffer]
    refine ⟨_,rfl,?_⟩
    obtain ⟨hdone,hsame⟩ | ⟨hless,hnot,hinvalid⟩ := judge_part h hpart
    · rw [hsame,if_pos h]
      refine ⟨⟨iff_of_true h hdone,iff_of_false ?_ fun h => h.1 hdone,fun _ => ⟨rfl,rfl⟩⟩,?_⟩
      · rw [show ((judge py (stripped text)).update f.2).status = (judge py (stripped text)).status from rfl,h]
        exact nofun
      · refine ⟨iff_of_false nofun (not_not.mpr hdone),nofun,fun u hu => ?_⟩
        cases hu
        refine ⟨h,rfl,rfl,judge_kind h,f.2,if_pos h,htokens,fun tokens hall => ?_⟩
        exact hall f (List.mem_append_right feeds List.mem_cons_self)
    · rw [if_neg hnot]
      refine ⟨⟨iff_of_false hnot hless,?_,fun hv => absurd hv hnot⟩,?_⟩
      · exact hinvalid.trans ⟨fun hlast => ⟨hless,hlast⟩,And.right⟩
      · exact ⟨iff_of_true rfl hless,fun _ => rfl,nofun⟩

theorem Counted.left {more : List Feed} (h : Counted (feeds ++ more)) : Counted feeds :=
  ⟨fun f hf => h.1 f (List.mem_append_left more hf),(List.pairwise_append.mp h.2).1⟩

theorem Counted.last {f : Feed} (h : Counted (feeds ++ [f])) : 0 < f.2 ∧ ∀ g ∈ feeds, g.2 ≤ f.2 :=
  ⟨h.1 f (List.mem_append_right feeds List.mem_cons_self),
    fun g hg => (List.pairwise_append.mp h.2).2.2 g hg f List.mem_cons_self⟩

theorem joined_part (feeds more : List Feed) : joined feeds <+: joined (feeds ++ more) := by
  unfold joined
  rw [List.map_append,List.flatten_append]
  exact List.prefix_append _ _

theorem fed_reading (h : (judge py (stripped text)).status = .valid) (feeds : List Feed)
    (hpart : joined feeds <+: text) (hcounted : Counted feeds) : Reading py text feeds (fed py feeds) := by
  induction feeds using List.reverseRecOn with
  | nil =>
    refine ⟨iff_of_true rfl fun hdone => ?_,fun _ => rfl,nofun⟩
    obtain ⟨front,-,-,-,-,-,hend⟩ := strip_spec isSpace text
    have hsome : strip isSpace text ≠ [] := by
      intro hnil
      change (judge py (strip isSpace text)).status = .valid at h
      rw [hnil] at h
      cases h
    have hnil := List.prefix_nil.mp hdone
    unfold envelope at hnil
    rw [hend hsome] at hnil
    exact hsome (List.append_eq_nil_iff.mp hnil).2
  | append_singleton feeds f ih =>
    have hread := ih ((joined_part feeds [f]).trans hpart) hcounted.left
    obtain ⟨u,-,-,hnext⟩ := hread.feed h hpart hcounted.last.1 hcounted.last.2
    rw [fed_concat]
    exact hnext

theorem checked_eq {u v : ParserUpdate} (h : u.checked = .ok v) : v = u := by
  unfold ParserUpdate.checked at h
  obtain ⟨_,-,h⟩ := bind_eq_ok.mp h
  obtain ⟨_,-,h⟩ := bind_eq_ok.mp h
  obtain ⟨_,-,h⟩ := bind_eq_ok.mp h
  obtain ⟨_,-,h⟩ := bind_eq_ok.mp h
  cases h
  rfl

/-- What one feed of a whole text says. -/
theorem feed_once {tokens : ℤ} {u : ParserUpdate} (h : (feed py {} text tokens).2 = .ok u) :
    u = (judge py (stripped text)).update tokens := by
  unfold feed at h
  by_cases hneg : tokens < 0
  · rw [if_pos hneg] at h
    cases h
  rw [if_neg hneg] at h
  dsimp only [List.nil_append] at h
  cases hchecked : ((judge py (stripped text)).update tokens).checked with
  | error e =>
    rw [hchecked] at h
    cases h
  | ok v =>
    rw [hchecked] at h
    cases h
    exact checked_eq hchecked

/-- Of a text that is valid in one feed no part is called invalid iff no buffer that ends in a brace comes before the
end of the envelope; and however the text is divided, the action is found with the fragment that completes the
envelope. -/
theorem parts_accepted_iff (py : Python) (text : List Char) (tokens : ℤ) (u : ParserUpdate)
    (hone : (feed py {} text tokens).2 = .ok u) (hvalid : u.status = .valid) (feeds : List Feed)
    (hpart : joined feeds <+: text) (hcounted : Counted feeds) :
    ((∀ before f after, feeds = before ++ f :: after →
        ∃ v, (feed py (fed py before) f.1 f.2).2 = .ok v ∧ v.status ≠ .invalid) ↔
      ∀ before f after, feeds = before ++ f :: after →
        (stripped (joined (before ++ [f]))).getLast? = some '}' → envelope text <+: joined (before ++ [f])) ∧
    ∀ before f after, feeds = before ++ f :: after →
      ∃ v, (feed py (fed py before) f.1 f.2).2 = .ok v ∧
        (v.status = .valid ↔ envelope text <+: joined (before ++ [f])) ∧
        (v.status = .valid → v.actionKind = u.actionKind ∧ v.actionName = u.actionName) := by
  obtain rfl := feed_once hone
  have hjudge : (judge py (stripped text)).status = .valid := hvalid
  have htold (before : List Feed) (f : Feed) (after : List Feed) (hfeeds : feeds = before ++ f :: after) :
      ∃ v, (feed py (fed py before) f.1 f.2).2 = .ok v ∧ Told py text (before ++ [f]) v := by
    rw [hfeeds,List.append_cons] at hpart hcounted
    have hfirst := hcounted.left
    have hread := fed_reading hjudge before ((joined_part before [f]).trans ((joined_part _ after).trans hpart))
      hfirst.left
    obtain ⟨v,hv,htold,-⟩ := hread.feed hjudge ((joined_part _ after).trans hpart) hfirst.last.1 hfirst.last.2
    exact ⟨v,hv,htold⟩
  refine ⟨⟨fun hnone before f after hfeeds hlast => ?_,fun hends before f after hfeeds => ?_⟩,?_⟩
  · obtain ⟨v,hv,htold⟩ := htold before f after hfeeds
    obtain ⟨w,hw,hstatus⟩ := hnone before f after hfeeds
    rw [hv] at hw
    cases hw
    by_contra hless
    exact hstatus (htold.invalid_iff.mpr ⟨hless,hlast⟩)
  · obtain ⟨v,hv,htold⟩ := htold before f after hfeeds
    refine ⟨v,hv,fun hstatus => ?_⟩
    obtain ⟨hless,hlast⟩ := htold.invalid_iff.mp hstatus
    exact hless (hends before f after hfeeds hlast)
  · intro before f after hfeeds
    obtain ⟨v,hv,htold⟩ := htold before f after hfeeds
    exact ⟨v,hv,htold.valid_iff,htold.same⟩

/-- What Python makes of texts that are no numbers. -/
def plainPython : Python := ⟨fun _ => codes "",fun _ => "''",fun _ => false,fun _ => "Expecting ',' delimiter"⟩

def nestedText : List Char := "\x7b\"action\":\"final\",\"x\":\x7b\x7d\x7d".toList

/-- The text in three fragments, none of which ends in the brace of the nested object. -/
def nestedFeeds : List Feed :=
  [(nestedText.take 5,2),((nestedText.drop 5).take 8,4),(nestedText.drop 13,9)]

theorem nestedFeeds_ends : ∀ n < 3, (stripped (joined (nestedFeeds.take (n + 1)))).getLast? = some '}' →
    envelope nestedText <+: joined (nestedFeeds.take (n + 1)) := by
  decide +kernel

/-- No fragment is called invalid, and the last one completes the action. -/
theorem nestedText_accepted : ((judge plainPython (stripped nestedText)).update 9).status = .valid ∧
    (∀ before f after, nestedFeeds = before ++ f :: after →
      ∃ v, (feed plainPython (fed plainPython before) f.1 f.2).2 = .ok v ∧ v.status ≠ .invalid) ∧
    ∃ v, (feed plainPython (fed plainPython (nestedFeeds.take 2)) (nestedText.drop 13) 9).2 = .ok v ∧
      v.status = .valid := by
  have hvalid : ((judge plainPython (stripped nestedText)).update 9).status = .valid := by decide +kernel
  have hone := congrArg Prod.snd (feed_open plainPython (p := {}) (f := (nestedText,9)) rfl (by decide))
  obtain ⟨haccepted,hcompleted⟩ := parts_accepted_iff plainPython nestedText 9 _ hone hvalid nestedFeeds
    (by decide +kernel) ⟨by decide +kernel,by decide +kernel⟩
  refine ⟨hvalid,haccepted.mpr fun before f after hfeeds hlast => ?_,?_⟩
  · have hlength : before.length < 3 := by
      have hall := congrArg List.length hfeeds
      rw [List.length_append,List.length_cons] at hall
      change 3 = _ at hall
      omega
    have htake : nestedFeeds.take (before.length + 1) = before ++ [f] := by
      rw [hfeeds,List.append_cons,List.take_left' (by simp)]
    have hends := nestedFeeds_ends before.length hlength
    rw [htake] at hends
    exact hends hlast
  · obtain ⟨v,hv,hiff,-⟩ := hcompleted (nestedFeeds.take 2) (nestedText.drop 13,9) [] rfl
    exact ⟨v,hv,hiff.mpr (by decide +kernel)⟩

/-- A part that ends in the brace of a nested object is called invalid. -/
theorem nestedBrace_invalid : ∃ u v, (feed plainPython {} nestedText 9).2 = .ok u ∧ u.status = .valid ∧
    nestedText.take 24 <+: nestedText ∧ nestedText.take 24 ≠ nestedText ∧
    (feed plainPython {} (nestedText.take 24) 8).2 = .ok v ∧ v.status = .invalid := by
  have hone := congrArg Prod.snd (feed_open plainPython (p := {}) (f := (nestedText,9)) rfl (by decide))
  have hpart := congrArg Prod.snd
    (feed_open plainPython (p := {}) (f := (nestedText.take 24,8)) rfl (by decide))
  exact ⟨_,_,hone,by decide +kernel,List.take_prefix 24 nestedText,by decide +kernel,hpart,by decide +kernel⟩

end JsonActionParser
end BeliefKV
