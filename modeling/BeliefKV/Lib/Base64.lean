import Mathlib.Data.List.Basic
import Mathlib.Tactic.NormNum

/-! Words as little-endian bytes, and bytes as base64 characters. -/
namespace BeliefKV.Base64

/-! ## Words -/

/-- So many bytes of a number, the low ones first. -/
def toBytes : ℕ → ℕ → List ℕ
  | 0, _ => []
  | n + 1, x => x % 256 :: toBytes n (x / 256)

/-- The number with some bytes, the low ones first. -/
def ofBytes : List ℕ → ℕ
  | [] => 0
  | b :: bytes => b + 256 * ofBytes bytes

theorem ofBytes_toBytes (n : ℕ) : ∀ {x : ℕ}, x < 256 ^ n → ofBytes (toBytes n x) = x := by
  induction n with
  | zero =>
    intro x hx
    rw [Nat.pow_zero,Nat.lt_one_iff] at hx
    exact hx.symm
  | succ n ih =>
    intro x hx
    have hdiv : x / 256 < 256 ^ n := by
      rw [Nat.pow_succ] at hx
      exact Nat.div_lt_of_lt_mul (by omega)
    rw [toBytes,ofBytes,ih hdiv]
    exact Nat.mod_add_div x 256

theorem toBytes_lt (n : ℕ) : ∀ (x : ℕ), ∀ b ∈ toBytes n x, b < 256 := by
  induction n with
  | zero => exact fun _ b hb => absurd hb List.not_mem_nil
  | succ n ih =>
    intro x b hb
    obtain rfl | hb := List.mem_cons.mp hb
    · exact Nat.mod_lt x (by decide)
    · exact ih (x / 256) b hb

/-- Words of eight bytes; a rest that is no word is left out. -/
def ofWords : List ℕ → List ℕ
  | a :: b :: c :: d :: e :: f :: g :: h :: rest => ofBytes [a,b,c,d,e,f,g,h] :: ofWords rest
  | _ => []

def toWords (words : List ℕ) : List ℕ := words.flatMap (toBytes 8)

theorem toWords_cons (x : ℕ) (words : List ℕ) : toWords (x :: words) = toBytes 8 x ++ toWords words :=
  List.flatMap_cons

theorem length_toWords (words : List ℕ) : (toWords words).length = 8 * words.length := by
  induction words with
  | nil => rfl
  | cons x words ih =>
    rw [toWords_cons,List.length_append,ih,List.length_cons]
    change 8 + 8 * words.length = 8 * (words.length + 1)
    omega

theorem ofWords_toWords {words : List ℕ} (h : ∀ x ∈ words, x < 2 ^ 64) : ofWords (toWords words) = words := by
  induction words with
  | nil => rfl
  | cons x words ih =>
    obtain ⟨hx,hrest⟩ := List.forall_mem_cons.mp h
    rw [toWords_cons]
    change ofBytes (toBytes 8 x) :: ofWords (toWords words) = _
    rw [ofBytes_toBytes 8 (hx.trans_le (by norm_num)),ih hrest]

theorem toWords_lt {words : List ℕ} : ∀ b ∈ toWords words, b < 256 := by
  intro b hb
  obtain ⟨x,-,hb⟩ := List.mem_flatMap.mp hb
  exact toBytes_lt 8 x b hb

/-! ## Characters -/

def alphabet : List Char := "ABCDEFGHIJKLMNOPQRSTUVWXYZabcdefghijklmnopqrstuvwxyz0123456789+/".toList

def digit (n : ℕ) : Char := alphabet.getD n '='

def digitValue (c : Char) : Option ℕ := alphabet.findIdx? (· == c)

theorem digitValue_digit : ∀ n < 64, digitValue (digit n) = some n := by decide +kernel

theorem digit_ne_pad : ∀ n < 64, digit n ≠ '=' := by decide +kernel

/-! ## Bytes -/

/-- Three bytes become four characters; what is left over is padded. -/
def encode : List ℕ → List Char
  | [] => []
  | [a] => [digit (a / 4),digit (a % 4 * 16),'=','=']
  | [a,b] => [digit (a / 4),digit (a % 4 * 16 + b / 16),digit (b % 16 * 4),'=']
  | a :: b :: c :: rest =>
    digit (a / 4) :: digit (a % 4 * 16 + b / 16) :: digit (b % 16 * 4 + c / 64) :: digit (c % 64) :: encode rest

/-- Only whole groups of the alphabet are read; padding ends the text. -/
def decode : List Char → Option (List ℕ)
  | [] => some []
  | p :: q :: r :: s :: rest =>
    match digitValue p, digitValue q with
    | some w, some x =>
      if s = '=' ∧ rest = [] then
        if r = '=' then some [w * 4 + x / 16]
        else (digitValue r).map fun y => [w * 4 + x / 16,x % 16 * 16 + y / 4]
      else
        match digitValue r, digitValue s with
        | some y, some z =>
          (decode rest).map ([w * 4 + x / 16,x % 16 * 16 + y / 4,y % 4 * 64 + z] ++ ·)
        | _, _ => none
    | _, _ => none
  | _ => none

theorem decode_encode : ∀ {bytes : List ℕ}, (∀ b ∈ bytes, b < 256) → decode (encode bytes) = some bytes := by
  intro bytes
  induction bytes using encode.induct with
  | case1 =>
    intro _
    rw [encode,decode]
  | case2 a =>
    intro h
    have ha := h a (by simp)
    rw [encode,decode,digitValue_digit (a / 4) (by omega),digitValue_digit (a % 4 * 16) (by omega)]
    simp only [true_and,if_true]
    have hbyte : a / 4 * 4 + a % 4 * 16 / 16 = a := by omega
    rw [hbyte]
  | case3 a b =>
    intro h
    have ha := h a (by simp)
    have hb := h b (by simp)
    rw [encode,decode,digitValue_digit (a / 4) (by omega),digitValue_digit (a % 4 * 16 + b / 16) (by omega)]
    simp only [true_and,if_true]
    rw [if_neg (digit_ne_pad (b % 16 * 4) (by omega)),digitValue_digit (b % 16 * 4) (by omega)]
    have hfirst : a / 4 * 4 + (a % 4 * 16 + b / 16) / 16 = a := by omega
    have hsecond : (a % 4 * 16 + b / 16) % 16 * 16 + b % 16 * 4 / 4 = b := by omega
    rw [Option.map_some,hfirst,hsecond]
  | case4 a b c rest ih =>
    intro h
    have ha := h a (by simp)
    have hb := h b (by simp)
    have hc := h c (by simp)
    rw [encode,decode,digitValue_digit (a / 4) (by omega),digitValue_digit (a % 4 * 16 + b / 16) (by omega)]
    simp only
    rw [if_neg fun hend => digit_ne_pad (c % 64) (by omega) hend.1,digitValue_digit (b % 16 * 4 + c / 64) (by omega),
      digitValue_digit (c % 64) (by omega),ih fun x hx => h x (by simp [hx])]
    have hfirst : a / 4 * 4 + (a % 4 * 16 + b / 16) / 16 = a := by omega
    have hsecond : (a % 4 * 16 + b / 16) % 16 * 16 + (b % 16 * 4 + c / 64) / 4 = b := by omega
    have hthird : (b % 16 * 4 + c / 64) % 4 * 64 + c % 64 = c := by omega
    simp only [Option.map_some]
    rw [hfirst,hsecond,hthird]
    rfl

end BeliefKV.Base64
