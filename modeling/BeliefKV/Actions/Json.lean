import BeliefKV.Lib.Incremental

/-! The decoder of JSON texts, which reads a text character by character. It stops where its value ends; what it makes
of a text is therefore known of every longer text. -/
namespace BeliefKV

/-- A value. Texts are lists of code points, since an escape may stand for half of a surrogate pair. -/
inductive JsonValue
  | null
  | bool (b : Bool)
  | number (text : List Char)
  | text (codes : List ℕ)
  | array (items : List JsonValue)
  | object (entries : List (List ℕ × JsonValue))

namespace JsonDecoder

/-- What is open around a value: an object with a key that waits for its value, or an array. -/
inductive Frame
  | object (entries : List (List ℕ × JsonValue)) (key : List ℕ)
  | array (items : List JsonValue)

/-- How far a number has been read. -/
inductive Phase
  | minus
  | zero
  | integer
  | point
  | fraction
  | exponent
  | sign
  | power

/-- What is read next. -/
inductive Mode
  | value (closable : Bool)
  | key (closable : Bool)
  | colon
  | next
  | text (isKey : Bool) (units : List ℕ)
  | escape (isKey : Bool) (units : List ℕ)
  | hex (isKey : Bool) (units : List ℕ) (digits code : ℕ)
  | number (phase : Phase) (text : List Char)
  | literal (value : JsonValue) (rest : List Char)
  | done (value : JsonValue)
  | failed

structure State where
  mode : Mode
  frames : List Frame

def blank (c : Char) : Bool := c = ' ' || c = '\t' || c = '\n' || c = '\r'

def digit (c : Char) : Bool := '0' ≤ c && c ≤ '9'

def hexDigit (c : Char) : Option ℕ :=
  if '0' ≤ c ∧ c ≤ '9' then some (c.toNat - '0'.toNat)
  else if 'a' ≤ c ∧ c ≤ 'f' then some (c.toNat - 'a'.toNat + 10)
  else if 'A' ≤ c ∧ c ≤ 'F' then some (c.toNat - 'A'.toNat + 10)
  else none

/-- The two halves of a surrogate pair become one code point. -/
def joinSurrogates : List ℕ → List ℕ
  | high :: low :: rest =>
    if 0xD800 ≤ high ∧ high ≤ 0xDBFF ∧ 0xDC00 ≤ low ∧ low ≤ 0xDFFF then
      (0x10000 + (high - 0xD800) * 0x400 + (low - 0xDC00)) :: joinSurrogates rest
    else high :: joinSurrogates (low :: rest)
  | units => units

/-- The units of a text are kept in reverse while they are read. -/
def codesOf (units : List ℕ) : List ℕ := joinSurrogates units.reverse

def fail (frames : List Frame) : State := ⟨.failed,frames⟩

/-- A value ends. -/
def finish (value : JsonValue) : List Frame → State
  | [] => ⟨.done value,[]⟩
  | .object entries key :: frames => ⟨.next,.object (entries ++ [(key,value)]) [] :: frames⟩
  | .array items :: frames => ⟨.next,.array (items ++ [value]) :: frames⟩

def closeObject : List Frame → State
  | .object entries _ :: frames => finish (.object entries) frames
  | frames => fail frames

def closeArray : List Frame → State
  | .array items :: frames => finish (.array items) frames
  | frames => fail frames

/-- A text ends, as a key or as a value. -/
def finishText (isKey : Bool) (codes : List ℕ) : List Frame → State
  | .object entries key :: frames =>
    if isKey then ⟨.colon,.object entries codes :: frames⟩ else finish (.text codes) (.object entries key :: frames)
  | frames => finish (.text codes) frames

/-- After a value a comma follows, or what it is in ends. -/
def stepNext (c : Char) (frames : List Frame) : State :=
  if blank c then ⟨.next,frames⟩
  else if c = '}' then closeObject frames
  else if c = ']' then closeArray frames
  else if c = ',' then
    match frames with
    | .object entries key :: rest => ⟨.key false,.object entries key :: rest⟩
    | .array items :: rest => ⟨.value false,.array items :: rest⟩
    | [] => fail []
  else fail frames

def stepValue (closable : Bool) (c : Char) (frames : List Frame) : State :=
  if blank c then ⟨.value closable,frames⟩
  else if c = '"' then ⟨.text false [],frames⟩
  else if c = '{' then ⟨.key true,.object [] [] :: frames⟩
  else if c = '[' then ⟨.value true,.array [] :: frames⟩
  else if c = ']' ∧ closable then closeArray frames
  else if c = 'n' then ⟨.literal .null "ull".toList,frames⟩
  else if c = 't' then ⟨.literal (.bool true) "rue".toList,frames⟩
  else if c = 'f' then ⟨.literal (.bool false) "alse".toList,frames⟩
  else if c = 'N' then ⟨.literal (.number "NaN".toList) "aN".toList,frames⟩
  else if c = 'I' then ⟨.literal (.number "Infinity".toList) "nfinity".toList,frames⟩
  else if c = '-' then ⟨.number .minus [c],frames⟩
  else if c = '0' then ⟨.number .zero [c],frames⟩
  else if digit c then ⟨.number .integer [c],frames⟩
  else fail frames

def stepKey (closable : Bool) (c : Char) (frames : List Frame) : State :=
  if blank c then ⟨.key closable,frames⟩
  else if c = '"' then ⟨.text true [],frames⟩
  else if c = '}' ∧ closable then closeObject frames
  else fail frames

def stepText (isKey : Bool) (units : List ℕ) (c : Char) (frames : List Frame) : State :=
  if c = '"' then finishText isKey (codesOf units) frames
  else if c = '\\' then ⟨.escape isKey units,frames⟩
  else if c.toNat < 0x20 then fail frames
  else ⟨.text isKey (c.toNat :: units),frames⟩

def escaped (c : Char) : Option ℕ :=
  if c = '"' ∨ c = '\\' ∨ c = '/' then some c.toNat
  else if c = 'b' then some 8
  else if c = 'f' then some 12
  else if c = 'n' then some 10
  else if c = 'r' then some 13
  else if c = 't' then some 9
  else none

def stepEscape (isKey : Bool) (units : List ℕ) (c : Char) (frames : List Frame) : State :=
  if c = 'u' then ⟨.hex isKey units 0 0,frames⟩
  else
    match escaped c with
    | some unit => ⟨.text isKey (unit :: units),frames⟩
    | none => fail frames

def stepHex (isKey : Bool) (units : List ℕ) (digits code : ℕ) (c : Char) (frames : List Frame) : State :=
  match hexDigit c with
  | none => fail frames
  | some d =>
    if digits = 3 then ⟨.text isKey ((code * 16 + d) :: units),frames⟩
    else ⟨.hex isKey units (digits + 1) (code * 16 + d),frames⟩

/-- How a number goes on with a character; it may end in a phase that does not go on. -/
def Phase.goesOn : Phase → Char → Option Phase
  | .minus, c => if c = '0' then some .zero else if digit c then some .integer else none
  | .zero, c => if c = '.' then some .point else if c = 'e' ∨ c = 'E' then some .exponent else none
  | .integer, c =>
    if digit c then some .integer
    else if c = '.' then some .point
    else if c = 'e' ∨ c = 'E' then some .exponent
    else none
  | .point, c => if digit c then some .fraction else none
  | .fraction, c => if digit c then some .fraction else if c = 'e' ∨ c = 'E' then some .exponent else none
  | .exponent, c => if c = '+' ∨ c = '-' then some .sign else if digit c then some .power else none
  | .sign, c => if digit c then some .power else none
  | .power, c => if digit c then some .power else none

def Phase.mayEnd : Phase → Bool
  | .zero | .integer | .fraction | .power => true
  | .minus | .point | .exponent | .sign => false

def stepNumber (phase : Phase) (text : List Char) (c : Char) (frames : List Frame) : State :=
  match phase.goesOn c with
  | some phase => ⟨.number phase (text ++ [c]),frames⟩
  | none =>
    if phase.mayEnd then
      -- The character after a number belongs to what is around it.
      match finish (.number text) frames with
      | ⟨.next,frames⟩ => stepNext c frames
      | s => s
    else if text = ['-'] ∧ c = 'I' then ⟨.literal (.number "-Infinity".toList) "nfinity".toList,frames⟩
    else fail frames

def step (s : State) (c : Char) : State :=
  match s.mode with
  | .value closable => stepValue closable c s.frames
  | .key closable => stepKey closable c s.frames
  | .colon => if blank c then s else if c = ':' then ⟨.value false,s.frames⟩ else fail s.frames
  | .next => stepNext c s.frames
  | .text isKey units => stepText isKey units c s.frames
  | .escape isKey units => stepEscape isKey units c s.frames
  | .hex isKey units digits code => stepHex isKey units digits code c s.frames
  | .number phase text => stepNumber phase text c s.frames
  | .literal _ [] => fail s.frames
  | .literal value [r] => if c = r then finish value s.frames else fail s.frames
  | .literal value (r :: rest) => if c = r then ⟨.literal value rest,s.frames⟩ else fail s.frames
  | .done _ => s
  | .failed => s

def value (s : State) : Option JsonValue :=
  match s.mode with
  | .done value => some value
  | _ => none

/-- The value at the beginning of a text that begins with a brace, and what follows it. -/
def rawDecode (text : List Char) : Option (JsonValue × List Char) :=
  Incremental.decode step value ⟨.value false,[]⟩ text

/-- Escapes, nested values and numbers, and what follows the value. -/
example : (rawDecode "\x7b\"a\": [1, -2.5e3, true], \"\\u0041\": \x7b\x7d\x7d x".toList).map Prod.snd =
    some " x".toList := by
  decide +kernel

example : (rawDecode "\x7b\"a\": [1, ]\x7d".toList).isNone = true := by decide +kernel

end JsonDecoder
end BeliefKV
