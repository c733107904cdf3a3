import CrossNative.Basis.BinaryFloat
import Mathlib.Tactic.IntervalCases

/-!
# Text as JavaScript reads and writes it
-/

namespace CrossNative.Bridge

set_option autoImplicit false

open Basis

/-! ## Whitespace -/

/-- What `trim` removes. -/
def isJsSpace (c : Char) : Bool :=
  let n := c.toNat
  (9 ≤ n && n ≤ 13) || n == 0x20 || n == 0xA0 || n == 0x1680 || (0x2000 ≤ n && n ≤ 0x200A) ||
    n == 0x2028 || n == 0x2029 || n == 0x202F || n == 0x205F || n == 0x3000 || n == 0xFEFF

def trim (line : List Char) : List Char :=
  ((line.dropWhile isJsSpace).reverse.dropWhile isJsSpace).reverse

theorem dropWhile_eq_self {text : List Char} (h : ∀ c ∈ text, isJsSpace c = false) :
    text.dropWhile isJsSpace = text := by
  cases text with
  | nil => rfl
  | cons c text => rw [List.dropWhile_cons, h c List.mem_cons_self, if_neg Bool.false_ne_true]

theorem trim_eq_self {text : List Char} (h : ∀ c ∈ text, isJsSpace c = false) : trim text = text := by
  rw [trim, dropWhile_eq_self h, dropWhile_eq_self fun c hc => h c (List.mem_reverse.mp hc),
    List.reverse_reverse]

/-! ## String literals -/

def quoteMark : Char := Char.ofNat 34

def backslash : Char := Char.ofNat 92

def hexDigit (n : Nat) : Char := if n < 10 then Char.ofNat (48 + n) else Char.ofNat (87 + n)

def digitValue (c : Char) : Option Nat :=
  if c.isDigit then some (c.toNat - 48)
  else if c.isLower then some (c.toNat - 87)
  else if c.isUpper then some (c.toNat - 55)
  else none

/-- A character in a literal of `JSON.stringify`. -/
def quoteChar (c : Char) : List Char :=
  if c = quoteMark ∨ c = backslash then [backslash, c]
  else
    match c.toNat with
    | 8 => [backslash, 'b']
    | 9 => [backslash, 't']
    | 10 => [backslash, 'n']
    | 12 => [backslash, 'f']
    | 13 => [backslash, 'r']
    | n => if n < 32 then [backslash, 'u', '0', '0', hexDigit (n / 16), hexDigit (n % 16)] else [c]

/-- `JSON.stringify` of a string. -/
def stringifyText (text : List Char) : List Char := quoteMark :: (text.flatMap quoteChar ++ [quoteMark])

def escapeValue (c : Char) : Option Char :=
  if c = quoteMark ∨ c = backslash then some c
  else if c = 'b' then some (Char.ofNat 8)
  else if c = 't' then some (Char.ofNat 9)
  else if c = 'n' then some (Char.ofNat 10)
  else if c = 'f' then some (Char.ofNat 12)
  else if c = 'r' then some (Char.ofNat 13)
  else none

inductive Reading
  | plain
  /-- After a backslash. -/
  | escaped
  /-- In the digits of a character code: how many are left after the next one. -/
  | code (left value : Nat)

/-- The value of a literal after its opening quote, and what follows the closing one. -/
def readLiteral : Reading → List Char → Option (List Char × List Char)
  | _, [] => none
  | .plain, c :: rest =>
    if c = quoteMark then some ([], rest)
    else if c = '\n' ∨ c = '\r' then none
    else if c = backslash then readLiteral .escaped rest
    else (readLiteral .plain rest).map fun (text, rest) => (c :: text, rest)
  | .escaped, c :: rest =>
    if c = 'u' then readLiteral (.code 3 0) rest
    else
      match escapeValue c with
      | none => none
      | some d => (readLiteral .plain rest).map fun (text, rest) => (d :: text, rest)
  | .code left value, c :: rest =>
    match digitValue c with
    | none => none
    | some d =>
      if 16 ≤ d then none
      else
        match left with
        | 0 =>
          (readLiteral .plain rest).map fun (text, rest) => (Char.ofNat (16 * value + d) :: text, rest)
        | left + 1 => readLiteral (.code left (16 * value + d)) rest

theorem quoteChar_control {n : Nat} (h : n < 32) (rest : List Char) :
    readLiteral .plain (quoteChar (Char.ofNat n) ++ rest) =
      (readLiteral .plain rest).map fun (text, rest) => (Char.ofNat n :: text, rest) := by
  interval_cases n <;> rfl

theorem quoteChar_plain {c : Char} (hquote : ¬ (c = quoteMark ∨ c = backslash)) (h : 32 ≤ c.toNat) :
    quoteChar c = [c] := by
  unfold quoteChar
  rw [if_neg hquote]
  split
  · omega
  · omega
  · omega
  · omega
  · omega
  · exact if_neg (Nat.not_lt_of_le h)

theorem readLiteral_quoteChar (c : Char) (rest : List Char) :
    readLiteral .plain (quoteChar c ++ rest) =
      (readLiteral .plain rest).map fun (text, rest) => (c :: text, rest) := by
  by_cases hquote : c = quoteMark ∨ c = backslash
  · rcases hquote with rfl | rfl <;> rfl
  · by_cases hcontrol : c.toNat < 32
    · have hread := quoteChar_control hcontrol rest
      rwa [Char.ofNat_toNat] at hread
    · rw [quoteChar_plain hquote (Nat.le_of_not_lt hcontrol)]
      have hline : ¬ (c = '\n' ∨ c = '\r') := by
        rintro (rfl | rfl) <;> exact hcontrol (by decide)
      obtain ⟨hmark, hslash⟩ := not_or.mp hquote
      rw [List.singleton_append, readLiteral, if_neg hmark, if_neg hline, if_neg hslash]

theorem readLiteral_stringify (text rest : List Char) :
    readLiteral .plain (text.flatMap quoteChar ++ quoteMark :: rest) = some (text, rest) := by
  induction text with
  | nil => rfl
  | cons c text ih =>
    rw [List.flatMap_cons, List.append_assoc, readLiteral_quoteChar, ih, Option.map_some]

/-! ## Numbers -/

/-- Digits of the base up to the end of the text. -/
def readDigits (base : Nat) : Nat → List Char → Option Nat
  | value, [] => some value
  | value, c :: rest =>
    match digitValue c with
    | none => none
    | some d => if d < base then readDigits base (value * base + d) rest else none

def digitsValue (base : Nat) (text : List Char) : Option Nat :=
  if text = [] then none else readDigits base 0 text

/-- The power of ten after a mantissa. -/
def readExponent : List Char → Option Int
  | [] => some 0
  | e :: rest =>
    if e = 'e' ∨ e = 'E' then
      match rest with
      | '+' :: digits => (digitsValue 10 digits).map fun n => (n : Int)
      | '-' :: digits => (digitsValue 10 digits).map fun n => -(n : Int)
      | digits => (digitsValue 10 digits).map fun n => (n : Int)
    else none

def fraction : List Char → List Char × List Char
  | '.' :: rest => rest.span Char.isDigit
  | rest => ([], rest)

/-- A decimal number without a sign: its digits as a number, and a power of ten. -/
def readDecimal (text : List Char) : Option (Nat × Int) :=
  let (whole, rest) := text.span Char.isDigit
  let (decimals, rest) := fraction rest
  match digitsValue 10 (whole ++ decimals), readExponent rest with
  | some m, some e => some (m, e - decimals.length)
  | _, _ => none

def decimalNumber (negative : Bool) (text : List Char) : Nat :=
  let f := FloatFormat.binary64
  if text = "Infinity".toList then (if negative then f.signBit else 0) + f.infinity
  else
    match readDecimal text with
    | none => f.quietNaN
    | some (m, e) => f.ofRatio negative (m * 10 ^ e.toNat) (10 ^ (-e).toNat)

def radix (c : Char) : Option Nat :=
  if c = 'x' ∨ c = 'X' then some 16
  else if c = 'o' ∨ c = 'O' then some 8
  else if c = 'b' ∨ c = 'B' then some 2
  else none

/-- `Number` of a string, as a bit pattern. -/
def stringToNumber (text : List Char) : Nat :=
  match trim text with
  | [] => 0
  | '+' :: rest => decimalNumber false rest
  | '-' :: rest => decimalNumber true rest
  | '0' :: c :: rest =>
    match radix c with
    | none => decimalNumber false ('0' :: c :: rest)
    | some base =>
      match digitsValue base rest with
      | none => FloatFormat.binary64.quietNaN
      | some n => FloatFormat.binary64.ofInt n
  | rest => decimalNumber false rest

/-- `ToIndex` of a number; none where it throws a `RangeError`. -/
def toIndex (bits : Nat) : Option Nat :=
  if FloatFormat.binary64.infinity < FloatFormat.binary64.magnitude bits then some 0
  else
    match FloatFormat.binary64.truncate bits with
    | none => none
    | some n => if 0 ≤ n ∧ n < 2 ^ 53 then some n.toNat else none

example : toIndex (stringToNumber "12e3".toList) = some 12000 := by decide

example : toIndex (stringToNumber "Infinity".toList) = none := by decide

theorem readDecimal_letter (text : List Char) : readDecimal ('A' :: text) = none := by
  have hspan : ('A' :: text).span Char.isDigit = ([], 'A' :: text) := rfl
  have hfraction : fraction ('A' :: text) = ([], 'A' :: text) := rfl
  simp only [readDecimal, hspan, hfraction]
  rfl

/-- No number begins with the letter that zero bytes are encoded with. -/
theorem stringToNumber_letter {text : List Char} (hspace : ∀ c ∈ 'A' :: text, isJsSpace c = false) :
    stringToNumber ('A' :: text) = FloatFormat.binary64.quietNaN := by
  have hinfinity : ¬ 'A' :: text = "Infinity".toList := fun h =>
    absurd (List.cons.inj (h.trans (by rfl : _ = 'I' :: "nfinity".toList))).1 (by decide)
  have hdecimal : decimalNumber false ('A' :: text) = FloatFormat.binary64.quietNaN := by
    simp only [decimalNumber, if_neg hinfinity, readDecimal_letter]
  rw [stringToNumber, trim_eq_self hspace]
  exact hdecimal

end CrossNative.Bridge
