import CrossNative.Text.GrisuBounds
import CrossNative.Text.Number

/-!
# Printing a double

`to_chars` writes the digits of Grisu2 in fixed or in exponential notation. What it prints
is a number literal with a fraction or an exponent, it fits the buffer of the serializer,
and `strtod` reads the very bits back.
-/

namespace CrossNative.Text

set_option autoImplicit false

open Basis

def appendExponent (buf : List UInt8) (e : Int) : Option (List UInt8) := do
  jsonAssert (-1000 < e)
  jsonAssert (e < 1000)
  let buf := buf ++ [if e < 0 then minus else plus]
  let k := e.natAbs
  if k < 10 then some (buf ++ [zero, digitChar k])
  else if k < 100 then some (buf ++ [digitChar (k / 10), digitChar (k % 10)])
  else some (buf ++ [digitChar (k / 100), digitChar (k % 100 / 10), digitChar (k % 100 % 10)])

/-- `buf * 10 ^ decimalExponent`, in fixed notation between `10 ^ minExp` and `10 ^ maxExp`. -/
def formatBuffer (buf : List UInt8) (decimalExponent minExp maxExp : Int) : Option (List UInt8) := do
  jsonAssert (minExp < 0)
  jsonAssert (0 < maxExp)
  let k := buf.length
  let n := (k : Int) + decimalExponent
  if k ≤ n ∧ n ≤ maxExp then some (buf ++ List.replicate (n - k).toNat zero ++ [point, zero])
  else if 0 < n ∧ n ≤ maxExp then do
    jsonAssert (n < k)
    some (buf.take n.toNat ++ [point] ++ buf.drop n.toNat)
  else if minExp < n ∧ n ≤ 0 then some ([zero, point] ++ List.replicate (-n).toNat zero ++ buf)
  else if k = 1 then appendExponent (buf ++ [0x65]) (n - 1)
  else appendExponent (buf.take 1 ++ [point] ++ buf.drop 1 ++ [0x65]) (n - 1)

def maxDigits10 : Nat := 17

def kMinExp10 : Int := -4

def kMaxExp10 : Int := 15

/-- `to_chars` of a positive double that is not zero, with `room` bytes left. -/
def toCharsPositive (room value : Nat) : Option (List UInt8) := do
  jsonAssert (maxDigits10 ≤ room)
  let (digits, decimalExponent) ← grisu2 value
  jsonAssert (digits.length ≤ maxDigits10)
  jsonAssert (kMaxExp10 + 2 ≤ room)
  jsonAssert (2 + (-kMinExp10 - 1) + maxDigits10 ≤ room)
  jsonAssert (maxDigits10 + 6 ≤ room)
  formatBuffer digits decimalExponent kMinExp10 kMaxExp10

/-- `to_chars` into a buffer of `room` bytes. -/
def toChars (room value : Nat) : Option (List UInt8) := do
  jsonAssert (FloatFormat.binary64.IsFinite value)
  let negative := FloatFormat.binary64.isNegative value
  let magnitude := FloatFormat.binary64.magnitude value
  let sign := NumberLiteral.signText negative
  if magnitude = 0 then some (sign ++ [zero, point, zero])
  else do
    let text ← toCharsPositive (room - sign.length) magnitude
    some (sign ++ text)

theorem appendExponent_spec (buf : List UInt8) {e : Int} (hlow : -1000 < e) (hhigh : e < 1000) :
    ∃ sign digits, appendExponent buf e = some (buf ++ sign :: digits) ∧ (sign = plus ∨ sign = minus) ∧
      IsNumeral digits ∧ digits ≠ [] ∧ digits.length ≤ 3 ∧ signed (some sign) digits = e := by
  simp only [appendExponent, jsonAssert_of hlow, jsonAssert_of hhigh, Option.bind_eq_bind, Option.bind_some]
  have hk : e.natAbs < 1000 := by omega
  have hsigned (digits : List UInt8) (hvalue : decimalValue digits = e.natAbs) :
      signed (some (if e < 0 then minus else plus)) digits = e := by
    have hplus : plus ≠ minus := by decide
    unfold signed
    by_cases he : e < 0
    · rw [if_pos he, if_pos rfl, hvalue]
      omega
    · rw [if_neg he, if_neg (by simp [hplus]), hvalue]
      omega
  have hsign : (if e < 0 then minus else plus) = plus ∨ (if e < 0 then minus else plus) = minus := by
    by_cases he : e < 0 <;> simp [he]
  have hdigits (a b : Nat) (ha : a ≤ 9) (hb : b ≤ 9) : decimalValue [digitChar a, digitChar b] = a * 10 + b := by
    simp [decimalValue, digitValue_digitChar ha, digitValue_digitChar hb]
  have hdigits' (a b c : Nat) (ha : a ≤ 9) (hb : b ≤ 9) (hc : c ≤ 9) :
      decimalValue [digitChar a, digitChar b, digitChar c] = (a * 10 + b) * 10 + c := by
    simp [decimalValue, digitValue_digitChar ha, digitValue_digitChar hb, digitValue_digitChar hc]
  have hnumeral {a : Nat} (ha : a ≤ 9) {rest : List UInt8} (hrest : IsNumeral rest) :
      IsNumeral (digitChar a :: rest) := IsNumeral.cons_iff.mpr ⟨isDigit_digitChar ha, hrest⟩
  generalize e.natAbs = k at hk hsigned ⊢
  split
  · refine ⟨_, [zero, digitChar k], by simp, hsign, hnumeral (a := 0) (by omega) (hnumeral (by omega) .nil), by simp,
      by simp, hsigned _ ?_⟩
    rw [show [zero, digitChar k] = [digitChar 0, digitChar k] by rfl, hdigits 0 k (by omega) (by omega)]
    omega
  split
  · refine ⟨_, [digitChar (k / 10), digitChar (k % 10)], by simp, hsign,
      hnumeral (by omega) (hnumeral (by omega) .nil), by simp, by simp, hsigned _ ?_⟩
    rw [hdigits _ _ (by omega) (by omega)]
    omega
  · refine ⟨_, [digitChar (k / 100), digitChar (k % 100 / 10), digitChar (k % 100 % 10)], by simp, hsign,
      hnumeral (by omega) (hnumeral (by omega) (hnumeral (by omega) .nil)), by simp, by simp, hsigned _ ?_⟩
    rw [hdigits' _ _ _ (by omega) (by omega) (by omega)]
    omega

/-- A literal that is read as a floating-point number. -/
def NumberLiteral.IsFloat (l : NumberLiteral) : Prop := l.fraction ≠ none ∨ l.exponent ≠ none

/-- The digits written as a literal without a sign. -/
structure Formats (digits : List UInt8) (x : Int) (l : NumberLiteral) : Prop where
  positive : l.negative = false
  wellFormed : l.WellFormed
  isFloat : l.IsFloat
  value : (l.mantissa : ℚ) * 10 ^ l.scale = decimalValue digits * 10 ^ x
  length_le : l.text.length ≤ 23

section Formatting

variable {digits : List UInt8} {x : Int} (hdigits : IsCanonical digits) (hlength : digits.length ≤ 17)

include hdigits hlength

/-- `digits[000].0` -/
theorem formats_whole (hx : 0 ≤ x) (hhigh : digits.length + x ≤ 15) :
    Formats digits x ⟨false, digits ++ List.replicate x.toNat zero, some [zero], none⟩ := by
  obtain ⟨k, rfl⟩ := Int.eq_ofNat_of_zero_le hx
  obtain ⟨c, rest, rfl, hc⟩ := hdigits.leading
  refine ⟨rfl, ⟨Or.inr ⟨?_, c, rest ++ List.replicate k zero, rfl, hc⟩, ?_, ?_⟩, Or.inl (by simp), ?_, ?_⟩
  · exact IsNumeral.append_iff.mpr ⟨hdigits.numeral, .zeros _⟩
  · intro digits heq
    obtain rfl := Option.some.inj heq
    exact ⟨IsNumeral.cons_iff.mpr ⟨by decide, .nil⟩, by simp⟩
  · intro mark sign digits heq
    cases heq
  · have hzeros : decimalValue (List.replicate k zero ++ [zero]) = 0 := by
      rw [← List.replicate_succ']
      exact decimalValue_zeros (k + 1)
    simp only [NumberLiteral.mantissa, NumberLiteral.scale, NumberLiteral.exponentValue, Option.getD_some,
      Int.toNat_natCast, List.append_assoc]
    rw [decimalValue_append, hzeros]
    simp only [List.length_append, List.length_replicate, List.length_singleton, zpow_natCast]
    push_cast
    rw [pow_succ, zpow_neg_one]
    ring
  · simp only [NumberLiteral.text, NumberLiteral.signText, NumberLiteral.fractionText, NumberLiteral.exponentText]
    simp at hhigh ⊢
    omega

/-- `dig.its` -/
theorem formats_point (hlow : 0 < digits.length + x) (hx : x < 0) :
    Formats digits x ⟨false, digits.take (digits.length + x).toNat, some (digits.drop (digits.length + x).toNat),
      none⟩ := by
  obtain ⟨k, hk⟩ : ∃ k : Nat, digits.length + x = (k + 1 : Nat) := ⟨(digits.length + x - 1).toNat, by omega⟩
  have hsplit := List.take_append_drop (k + 1) digits
  rw [hk, Int.toNat_natCast]
  have hnumeral := hdigits.numeral
  rw [← hsplit, IsNumeral.append_iff] at hnumeral
  refine ⟨rfl, ⟨Or.inr ⟨hnumeral.1, ?_⟩, ?_, ?_⟩, Or.inl (by simp), ?_, ?_⟩
  · obtain ⟨c, rest, rfl, hc⟩ := hdigits.leading
    exact ⟨c, rest.take k, rfl, hc⟩
  · intro fraction heq
    obtain rfl := Option.some.inj heq
    refine ⟨hnumeral.2, ?_⟩
    rw [Ne, List.drop_eq_nil_iff]
    omega
  · intro mark sign digits heq
    cases heq
  · simp only [NumberLiteral.mantissa, NumberLiteral.scale, NumberLiteral.exponentValue, Option.getD_some, hsplit,
      List.length_drop]
    congr 2
    omega
  · simp only [NumberLiteral.text, NumberLiteral.signText, NumberLiteral.fractionText, NumberLiteral.exponentText]
    simp
    omega

/-- `0.[000]digits` -/
theorem formats_small (hlow : -4 < digits.length + x) (hhigh : digits.length + x ≤ 0) :
    Formats digits x ⟨false, [zero], some (List.replicate (-(digits.length + x)).toNat zero ++ digits), none⟩ := by
  refine ⟨rfl, ⟨Or.inl rfl, ?_, ?_⟩, Or.inl (by simp), ?_, ?_⟩
  · intro fraction heq
    obtain rfl := Option.some.inj heq
    refine ⟨IsNumeral.append_iff.mpr ⟨.zeros _, hdigits.numeral⟩, ?_⟩
    have := hdigits.length_pos
    intro hnil
    rw [List.append_eq_nil_iff] at hnil
    simp [hnil.2] at this
  · intro mark sign digits heq
    cases heq
  · have hzeros : decimalValue ([zero] ++ List.replicate (-(digits.length + x)).toNat zero) = 0 :=
      decimalValue_zeros ((-(digits.length + x)).toNat + 1)
    simp only [NumberLiteral.mantissa, NumberLiteral.scale, NumberLiteral.exponentValue, Option.getD_some]
    rw [← List.append_assoc, decimalValue_append, hzeros]
    simp only [List.length_append, List.length_replicate]
    congr 2
    · simp
    · omega
  · simp only [NumberLiteral.text, NumberLiteral.signText, NumberLiteral.fractionText, NumberLiteral.exponentText]
    simp
    omega

/-- `dE+123` and `d.igitsE+123` -/
theorem formats_exponent {sign : UInt8} {exponent : List UInt8} (hsign : sign = plus ∨ sign = minus)
    (hnumeral : IsNumeral exponent) (hne : exponent ≠ []) (hshort : exponent.length ≤ 3)
    (hvalue : signed (some sign) exponent = digits.length + x - 1) :
    Formats digits x ⟨false, digits.take 1, if digits.length = 1 then none else some (digits.drop 1),
      some (0x65, some sign, exponent)⟩ := by
  have hpos := hdigits.length_pos
  obtain ⟨c, rest, rfl, hc⟩ := hdigits.leading
  obtain ⟨hdigit, hrest⟩ := IsNumeral.cons_iff.mp hdigits.numeral
  refine ⟨rfl, ⟨Or.inr ⟨IsNumeral.cons_iff.mpr ⟨hdigit, .nil⟩, c, [], rfl, hc⟩, ?_, ?_⟩, Or.inr (by simp), ?_, ?_⟩
  · intro fraction heq
    by_cases hone : (c :: rest).length = 1
    · simp [hone] at heq
    · simp only [hone, if_false, Option.some.injEq, List.drop_succ_cons, List.drop_zero] at heq
      subst heq
      refine ⟨hrest, ?_⟩
      rintro rfl
      simp at hone
  · intro mark sign' exponent' heq
    simp only [Option.some.injEq, Prod.mk.injEq] at heq
    obtain ⟨rfl, rfl, rfl⟩ := heq
    refine ⟨by decide, ?_, hnumeral, hne⟩
    intro c hc
    obtain rfl := Option.some.inj hc
    exact hsign
  · have hfraction : (if (c :: rest).length = 1 then none else some ((c :: rest).drop 1)).getD [] = rest := by
      cases rest with
      | nil => rfl
      | cons d rest => simp
    simp only [NumberLiteral.mantissa, NumberLiteral.scale, NumberLiteral.exponentValue, hfraction, hvalue]
    simp only [List.take_succ_cons, List.take_zero, List.singleton_append, List.length_cons]
    congr 2
    push_cast
    ring
  · simp only [NumberLiteral.text, NumberLiteral.signText, NumberLiteral.exponentText]
    simp only [List.length_cons] at hlength
    cases rest with
    | nil =>
      simp [NumberLiteral.fractionText]
      omega
    | cons d rest =>
      simp only [List.length_cons] at hlength
      simp [NumberLiteral.fractionText]
      omega

theorem formatBuffer_spec (hlow : -1000 < digits.length + x - 1) (hhigh : digits.length + x - 1 < 1000) :
    ∃ l, formatBuffer digits x kMinExp10 kMaxExp10 = some l.text ∧ Formats digits x l := by
  have hmin : kMinExp10 = -4 := rfl
  have hmax : kMaxExp10 = 15 := rfl
  simp only [formatBuffer, hmin, hmax, jsonAssert_of (show (-4 : Int) < 0 by omega),
    jsonAssert_of (show (0 : Int) < 15 by omega), Option.bind_eq_bind, Option.bind_some]
  split
  · rename_i h
    refine ⟨_, ?_, formats_whole hdigits hlength (by omega) h.2⟩
    simp only [NumberLiteral.text, NumberLiteral.signText, NumberLiteral.fractionText, NumberLiteral.exponentText]
    have hx : (digits.length : Int) + x - digits.length = x := by omega
    simp [hx]
  split
  · rename_i h hn
    have hless : (digits.length : Int) + x < digits.length := by omega
    refine ⟨_, ?_, formats_point hdigits hlength hn.1 (by omega)⟩
    rw [jsonAssert_of hless]
    simp [NumberLiteral.text, NumberLiteral.signText, NumberLiteral.fractionText, NumberLiteral.exponentText]
  split
  · rename_i hn
    refine ⟨_, ?_, formats_small hdigits hlength hn.1 hn.2⟩
    simp [NumberLiteral.text, NumberLiteral.signText, NumberLiteral.fractionText, NumberLiteral.exponentText]
  · obtain ⟨c, rest, rfl, -⟩ := hdigits.leading
    by_cases hone : (c :: rest).length = 1
    · obtain ⟨sign, exponent, happend, hsign, hnumeral, hne, hshort, hvalue⟩ :=
        appendExponent_spec (c :: rest ++ [0x65]) hlow hhigh
      refine ⟨_, ?_, formats_exponent hdigits hlength hsign hnumeral hne hshort hvalue⟩
      obtain rfl : rest = [] := by simpa using hone
      simpa [NumberLiteral.text, NumberLiteral.signText, NumberLiteral.fractionText, NumberLiteral.exponentText]
        using happend
    · obtain ⟨sign, exponent, happend, hsign, hnumeral, hne, hshort, hvalue⟩ :=
        appendExponent_spec ((c :: rest).take 1 ++ [point] ++ (c :: rest).drop 1 ++ [0x65]) hlow hhigh
      refine ⟨_, ?_, formats_exponent hdigits hlength hsign hnumeral hne hshort hvalue⟩
      rw [if_neg hone, happend]
      simp only [NumberLiteral.text, NumberLiteral.signText, NumberLiteral.exponentText]
      rw [if_neg hone]
      simp [NumberLiteral.fractionText]

end Formatting

theorem two_pow_lt_ten_pow {a b : Nat} (h : a < 3 * b) : (2 : ℚ) ^ (a : Int) < 10 ^ (b : Int) := by
  rw [zpow_natCast, zpow_natCast]
  calc (2 : ℚ) ^ a < 2 ^ (3 * b) := pow_lt_pow_right₀ (by norm_num) h
    _ = (2 ^ 3) ^ b := pow_mul 2 3 b
    _ ≤ 10 ^ b := pow_le_pow_left₀ (by norm_num) (by norm_num) b

/-- The exponent of a double's digits has at most three digits. -/
theorem exponent_range {value : Nat} (h : PositiveFinite value) {digits : List UInt8} {x : Int}
    (hdigits : IsCanonical digits)
    (hlow : FloatFormat.binary64.lowerMidpoint value < decimalValue digits * (10 : ℚ) ^ x)
    (hhigh : decimalValue digits * (10 : ℚ) ^ x < FloatFormat.binary64.upperMidpoint value) :
    -1000 < digits.length + x - 1 ∧ digits.length + x - 1 < 1000 := by
  obtain ⟨hm, hm53, hemin, hemax⟩ := h.unpack_bounds
  have htwo : (1 : ℚ) ≤ 2 := by norm_num
  have hten : (1 : ℚ) < 10 := by norm_num
  have hscale : (0 : ℚ) < 10 ^ x := zpow_pos (by norm_num) x
  have hlength := hdigits.length_pos
  have hge : (10 : ℚ) ^ ((digits.length : Int) - 1 + x) ≤ decimalValue digits * 10 ^ x := by
    rw [zpow_add₀ (by norm_num), show (digits.length : Int) - 1 = (digits.length - 1 : Nat) by omega, zpow_natCast]
    exact mul_le_mul_of_nonneg_right (by exact_mod_cast hdigits.value_ge) hscale.le
  have hlt : decimalValue digits * (10 : ℚ) ^ x < 10 ^ ((digits.length : Int) + x) := by
    rw [zpow_add₀ (by norm_num), zpow_natCast]
    exact mul_lt_mul_of_pos_right (by exact_mod_cast hdigits.numeral.value_lt) hscale
  constructor
  · have hbelow : (2 : ℚ) ^ (-1076 : Int) ≤ FloatFormat.binary64.lowerMidpoint value := by
      unfold FloatFormat.lowerMidpoint dyadic
      split
      · calc (2 : ℚ) ^ (-1076 : Int) ≤ 2 ^ ((FloatFormat.binary64.unpackMagnitude value).2 - 2) :=
              zpow_le_zpow_right₀ htwo (by omega)
          _ = 1 * 2 ^ ((FloatFormat.binary64.unpackMagnitude value).2 - 2) := (one_mul _).symm
          _ ≤ _ := mul_le_mul_of_nonneg_right (by exact_mod_cast (by omega)) (zpow_nonneg (by norm_num) _)
      · calc (2 : ℚ) ^ (-1076 : Int) ≤ 2 ^ ((FloatFormat.binary64.unpackMagnitude value).2 - 1) :=
              zpow_le_zpow_right₀ htwo (by omega)
          _ = 1 * 2 ^ ((FloatFormat.binary64.unpackMagnitude value).2 - 1) := (one_mul _).symm
          _ ≤ _ := mul_le_mul_of_nonneg_right (by exact_mod_cast (by omega)) (zpow_nonneg (by norm_num) _)
    have htiny : (10 : ℚ) ^ (-999 : Int) < 2 ^ (-1076 : Int) := by
      rw [zpow_neg, zpow_neg]
      exact inv_strictAnti₀ (by positivity) (@two_pow_lt_ten_pow 1076 999 (by decide))
    have := (zpow_lt_zpow_iff_right₀ hten).mp (lt_trans (lt_of_lt_of_le htiny hbelow) (lt_trans hlow hlt))
    omega
  · have habove : FloatFormat.binary64.upperMidpoint value ≤ 2 ^ (1025 : Int) := by
      unfold FloatFormat.upperMidpoint
      calc dyadic (2 * (FloatFormat.binary64.unpackMagnitude value).1 + 1)
            ((FloatFormat.binary64.unpackMagnitude value).2 - 1)
          ≤ dyadic (2 ^ 54) ((FloatFormat.binary64.unpackMagnitude value).2 - 1) := by
            rw [dyadic_le_iff]
            omega
        _ = 2 ^ ((FloatFormat.binary64.unpackMagnitude value).2 - 1 + (54 : Nat)) := FloatFormat.dyadic_two_pow _ _
        _ ≤ 2 ^ (1025 : Int) := zpow_le_zpow_right₀ htwo (by omega)
    have hhuge : (2 : ℚ) ^ (1025 : Int) < 10 ^ (1000 : Int) := @two_pow_lt_ten_pow 1025 1000 (by decide)
    have := (zpow_lt_zpow_iff_right₀ hten).mp (lt_trans (lt_of_le_of_lt hge hhigh) (lt_of_le_of_lt habove hhuge))
    omega

theorem toCharsPositive_spec (room : Nat) {value : Nat} (h : PositiveFinite value) (hroom : 23 ≤ room) :
    ∃ digits x l, toCharsPositive room value = some l.text ∧ Formats digits x l ∧ IsCanonical digits ∧
      FloatFormat.binary64.lowerMidpoint value < decimalValue digits * (10 : ℚ) ^ x ∧
      decimalValue digits * (10 : ℚ) ^ x < FloatFormat.binary64.upperMidpoint value := by
  obtain ⟨digits, x, hgrisu, hdigits, hlength, hlow, hhigh⟩ := grisu2_between h
  obtain ⟨hmin, hmax⟩ := exponent_range h hdigits hlow hhigh
  obtain ⟨l, hformat, hl⟩ := formatBuffer_spec hdigits hlength hmin hmax
  have h17 : maxDigits10 = 17 := rfl
  have h15 : kMaxExp10 = 15 := rfl
  have h4 : kMinExp10 = -4 := rfl
  refine ⟨digits, x, l, ?_, hl, hdigits, hlow, hhigh⟩
  simp only [toCharsPositive, jsonAssert_of (show maxDigits10 ≤ room by omega), hgrisu,
    jsonAssert_of (show digits.length ≤ maxDigits10 by omega), jsonAssert_of (show kMaxExp10 + 2 ≤ (room : Int) by omega),
    jsonAssert_of (show 2 + (-kMinExp10 - 1) + (maxDigits10 : Int) ≤ room by omega),
    jsonAssert_of (show maxDigits10 + 6 ≤ room by omega), Option.bind_eq_bind, Option.bind_some, hformat]

/-- The sign in front of a literal. -/
def NumberLiteral.withSign (l : NumberLiteral) (negative : Bool) : NumberLiteral := { l with negative }

theorem NumberLiteral.text_withSign {l : NumberLiteral} (h : l.negative = false) (negative : Bool) :
    (l.withSign negative).text = signText negative ++ l.text := by
  have hself : signText l.negative = [] := by rw [h]; rfl
  rw [text, text, hself]
  rfl

/-- Every finite double prints, without a failed assertion, as a number literal of at most 24
bytes that is read back as the same bits. -/
theorem toChars_roundTrip {bits : Nat} (hbits : bits < 2 ^ 64) (hfinite : FloatFormat.binary64.IsFinite bits) :
    ∃ l : NumberLiteral, toChars 64 bits = some l.text ∧ l.WellFormed ∧ l.IsFloat ∧ l.text.length ≤ 24 ∧
      strtod l.text = bits := by
  have hsignBit : FloatFormat.binary64.signBit = 2 ^ 63 := by decide
  have hsplit : bits = (if FloatFormat.binary64.isNegative bits then FloatFormat.binary64.signBit else 0) +
      FloatFormat.binary64.magnitude bits := by
    by_cases hnegative : FloatFormat.binary64.signBit ≤ bits
    · rw [if_pos (by simp [FloatFormat.isNegative, hnegative]), FloatFormat.magnitude, hsignBit]
      omega
    · rw [if_neg (by simp [FloatFormat.isNegative, hnegative]), FloatFormat.magnitude, hsignBit]
      omega
  have hmag : FloatFormat.binary64.magnitude bits < FloatFormat.binary64.infinity := hfinite
  simp only [toChars, jsonAssert_of hfinite, Option.bind_eq_bind, Option.bind_some]
  generalize FloatFormat.binary64.isNegative bits = negative at hsplit ⊢
  generalize FloatFormat.binary64.magnitude bits = value at hsplit hmag ⊢
  have hsign : (NumberLiteral.signText negative).length ≤ 1 := by cases negative <;> simp [NumberLiteral.signText]
  by_cases hzero : value = 0
  · subst hzero
    have hwell : (NumberLiteral.mk negative [zero] (some [zero]) none).WellFormed := by
      refine ⟨Or.inl rfl, ?_, ?_⟩
      · intro digits heq
        obtain rfl := Option.some.inj heq
        exact ⟨IsNumeral.cons_iff.mpr ⟨by decide, .nil⟩, by simp⟩
      · intro mark sign digits heq
        cases heq
    refine ⟨⟨negative, [zero], some [zero], none⟩, ?_, hwell, Or.inl (by simp), ?_, ?_⟩
    · simp [NumberLiteral.text, NumberLiteral.fractionText, NumberLiteral.exponentText]
    · simp [NumberLiteral.text, NumberLiteral.fractionText, NumberLiteral.exponentText]
      omega
    · rw [hwell.strtod_text, show (NumberLiteral.mk negative [zero] (some [zero]) none).mantissa = 0 by rfl,
        FloatFormat.ofDecimal_zero, hsplit, Nat.add_zero]
  · obtain ⟨digits, x, l, hprint, hl, hdigits, hlow, hhigh⟩ := toCharsPositive_spec
      (64 - (NumberLiteral.signText negative).length) ⟨Nat.pos_of_ne_zero hzero, hmag⟩ (by omega)
    have hwell : (l.withSign negative).WellFormed := ⟨hl.wellFormed.whole, hl.wellFormed.fraction, hl.wellFormed.exponent⟩
    have hmantissa : l.mantissa ≠ 0 := by
      intro hnone
      have hvalue := hl.value
      have hpos : (0 : ℚ) < decimalValue digits * 10 ^ x :=
        mul_pos (by exact_mod_cast hdigits.value_pos) (zpow_pos (by norm_num) x)
      rw [← hvalue, hnone] at hpos
      simp at hpos
    refine ⟨l.withSign negative, ?_, hwell, hl.isFloat, ?_, ?_⟩
    · rw [if_neg hzero, hprint, Option.bind_some, NumberLiteral.text_withSign hl.positive]
    · rw [NumberLiteral.text_withSign hl.positive, List.length_append]
      have := hl.length_le
      omega
    · rw [hwell.strtod_text]
      rw [← hl.value] at hlow hhigh
      exact (FloatFormat.binary64.ofDecimal_of_between negative hmag hmantissa hlow hhigh).trans hsplit.symm

end CrossNative.Text
