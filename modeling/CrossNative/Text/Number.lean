import CrossNative.Basis.Decimal
import CrossNative.Basis.RoundingInterval

/-!
# Number literals and `strtod`

The parts of a number literal of RFC 8259, its text, and what `strtod` makes of a text in
the C locale: the double nearest to the decimal number.
-/

namespace CrossNative.Text

set_option autoImplicit false

open Basis

def minus : UInt8 := 0x2D

def plus : UInt8 := 0x2B

def point : UInt8 := 0x2E

def zero : UInt8 := 0x30

/-- `e` or `E`. -/
def isExponentMark (c : UInt8) : Bool := c == 0x65 || c == 0x45

/-- A sign, if there is one, and what stands behind it. -/
def takeSign (text : List UInt8) : Option UInt8 × List UInt8 :=
  match text with
  | c :: rest => if c = plus ∨ c = minus then (some c, rest) else (none, text)
  | [] => (none, [])

def takeFraction (text : List UInt8) : List UInt8 × List UInt8 :=
  match text with
  | c :: rest => if c = point then (rest.takeWhile isDigit, rest.dropWhile isDigit) else ([], text)
  | [] => ([], [])

def signed (sign : Option UInt8) (digits : List UInt8) : Int :=
  if sign = some minus then -(decimalValue digits : Int) else decimalValue digits

def takeExponent (text : List UInt8) : Int :=
  match text with
  | c :: rest => if isExponentMark c then signed (takeSign rest).1 ((takeSign rest).2.takeWhile isDigit) else 0
  | [] => 0

/-- The pattern of the double a decimal text is converted to. -/
def strtod (text : List UInt8) : Nat :=
  let (sign, text) := takeSign text
  let whole := text.takeWhile isDigit
  let (fraction, text) := takeFraction (text.dropWhile isDigit)
  FloatFormat.binary64.ofDecimal (sign == some minus) (decimalValue (whole ++ fraction))
    (takeExponent text - fraction.length)

/-- The parts of a number literal. -/
structure NumberLiteral where
  negative : Bool
  whole : List UInt8
  fraction : Option (List UInt8)
  /-- The mark, the sign and the digits. -/
  exponent : Option (UInt8 × Option UInt8 × List UInt8)
  deriving DecidableEq, Repr

namespace NumberLiteral

def signText (negative : Bool) : List UInt8 := if negative then [minus] else []

def fractionText : Option (List UInt8) → List UInt8
  | none => []
  | some digits => point :: digits

def exponentText : Option (UInt8 × Option UInt8 × List UInt8) → List UInt8
  | none => []
  | some (mark, sign, digits) => mark :: (sign.toList ++ digits)

def text (l : NumberLiteral) : List UInt8 :=
  signText l.negative ++ (l.whole ++ (fractionText l.fraction ++ exponentText l.exponent))

/-- What RFC 8259 asks of the parts. -/
structure WellFormed (l : NumberLiteral) : Prop where
  whole : l.whole = [zero] ∨ IsCanonical l.whole
  fraction : ∀ digits, l.fraction = some digits → IsNumeral digits ∧ digits ≠ []
  exponent : ∀ mark sign digits, l.exponent = some (mark, sign, digits) →
    isExponentMark mark = true ∧ (∀ c, sign = some c → c = plus ∨ c = minus) ∧ IsNumeral digits ∧ digits ≠ []

/-- The decimal number of the literal is `mantissa * 10 ^ scale`, up to its sign. -/
def mantissa (l : NumberLiteral) : Nat := decimalValue (l.whole ++ l.fraction.getD [])

def exponentValue (l : NumberLiteral) : Int :=
  match l.exponent with
  | none => 0
  | some (_, sign, digits) => signed sign digits

def scale (l : NumberLiteral) : Int := l.exponentValue - (l.fraction.getD []).length

end NumberLiteral

/-- The text does not go on with a digit. -/
def EndsDigits (rest : List UInt8) : Prop := ∀ c, rest.head? = some c → isDigit c = false

theorem takeWhile_numeral {digits rest : List UInt8} (h : IsNumeral digits) (hrest : EndsDigits rest) :
    (digits ++ rest).takeWhile isDigit = digits ∧ (digits ++ rest).dropWhile isDigit = rest := by
  induction digits with
  | nil =>
    cases rest with
    | nil => exact ⟨rfl, rfl⟩
    | cons c rest =>
      have hc := hrest c rfl
      simp [hc]
  | cons c digits ih =>
    obtain ⟨hc, hdigits⟩ := IsNumeral.cons_iff.mp h
    obtain ⟨htake, hdrop⟩ := ih hdigits
    simp [hc, htake, hdrop]

theorem isDigit_mark {c : UInt8} (h : isExponentMark c = true) : isDigit c = false ∧ c ≠ point := by
  simp only [isExponentMark, Bool.or_eq_true, beq_iff_eq] at h
  rcases h with rfl | rfl <;> decide

theorem isDigit_sign {c : UInt8} (h : isDigit c = true) : c ≠ plus ∧ c ≠ minus ∧ c ≠ point := by
  refine ⟨?_, ?_, ?_⟩ <;> (rintro rfl; revert h; decide)

theorem takeSign_digits {digits rest : List UInt8} (h : IsNumeral digits) (hne : digits ≠ []) :
    takeSign (digits ++ rest) = (none, digits ++ rest) := by
  obtain ⟨c, digits, rfl⟩ := List.exists_cons_of_ne_nil hne
  obtain ⟨hc, -⟩ := IsNumeral.cons_iff.mp h
  obtain ⟨hplus, hminus, -⟩ := isDigit_sign hc
  simp [takeSign, hplus, hminus]

namespace NumberLiteral

variable {l : NumberLiteral}

theorem WellFormed.whole_numeral (h : l.WellFormed) : IsNumeral l.whole ∧ l.whole ≠ [] := by
  rcases h.whole with hzero | hcanonical
  · rw [hzero]
    refine ⟨IsNumeral.cons_iff.mpr ⟨by decide, .nil⟩, by simp⟩
  · refine ⟨hcanonical.numeral, ?_⟩
    intro hnil
    have := hcanonical.length_pos
    simp [hnil] at this

theorem WellFormed.exponentText_ends (h : l.WellFormed) : EndsDigits (exponentText l.exponent) := by
  intro c hc
  cases hexponent : l.exponent with
  | none => simp [hexponent, exponentText] at hc
  | some parts =>
    obtain ⟨mark, sign, digits⟩ := parts
    obtain ⟨hmark, -⟩ := h.exponent mark sign digits hexponent
    simp only [hexponent, exponentText, List.head?_cons, Option.some.injEq] at hc
    exact hc ▸ (isDigit_mark hmark).1

theorem WellFormed.tail_ends (h : l.WellFormed) :
    EndsDigits (fractionText l.fraction ++ exponentText l.exponent) := by
  cases hfraction : l.fraction with
  | none => simpa [fractionText] using h.exponentText_ends
  | some digits =>
    intro c hc
    simp only [fractionText, List.cons_append, List.head?_cons, Option.some.injEq] at hc
    rw [← hc]
    decide

theorem WellFormed.takeFraction_text (h : l.WellFormed) :
    takeFraction (fractionText l.fraction ++ exponentText l.exponent) =
      (l.fraction.getD [], exponentText l.exponent) := by
  cases hfraction : l.fraction with
  | none =>
    cases hexponent : l.exponent with
    | none => rfl
    | some parts =>
      obtain ⟨mark, sign, digits⟩ := parts
      have hmark := (isDigit_mark (h.exponent mark sign digits hexponent).1).2
      simp [fractionText, exponentText, takeFraction, hmark]
  | some digits =>
    obtain ⟨hnumeral, -⟩ := h.fraction digits hfraction
    obtain ⟨htake, hdrop⟩ := takeWhile_numeral hnumeral h.exponentText_ends
    simp [fractionText, takeFraction, htake, hdrop]

theorem WellFormed.takeExponent_text (h : l.WellFormed) : takeExponent (exponentText l.exponent) = l.exponentValue := by
  cases hexponent : l.exponent with
  | none => simp [exponentText, takeExponent, exponentValue, hexponent]
  | some parts =>
    obtain ⟨mark, sign, digits⟩ := parts
    obtain ⟨hmark, hsign, hnumeral, hne⟩ := h.exponent mark sign digits hexponent
    have hdigits : digits.takeWhile isDigit = digits := by
      have := (@takeWhile_numeral digits [] hnumeral (by simp [EndsDigits])).1
      simpa using this
    have htake : takeSign (sign.toList ++ digits) = (sign, digits) := by
      cases sign with
      | none => simpa using @takeSign_digits digits [] hnumeral hne
      | some c =>
        rcases hsign c rfl with rfl | rfl <;> rfl
    simp [exponentText, takeExponent, exponentValue, hexponent, hmark, htake, hdigits]

/-- `strtod` reads all of a literal. -/
theorem WellFormed.strtod_text (h : l.WellFormed) :
    strtod l.text = FloatFormat.binary64.ofDecimal l.negative l.mantissa l.scale := by
  obtain ⟨hwhole, hne⟩ := h.whole_numeral
  have hsign : takeSign l.text = (if l.negative then some minus else none,
      l.whole ++ (fractionText l.fraction ++ exponentText l.exponent)) := by
    unfold text signText
    cases l.negative with
    | true => rfl
    | false => simpa using takeSign_digits hwhole hne
  obtain ⟨htake, hdrop⟩ := takeWhile_numeral hwhole h.tail_ends
  have hnegative : ((if l.negative then some minus else none) == some minus) = l.negative := by
    cases l.negative <;> decide
  simp only [strtod, hsign, htake, hdrop, h.takeFraction_text, h.takeExponent_text, hnegative]
  rfl

end NumberLiteral

end CrossNative.Text
