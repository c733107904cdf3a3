import Mathlib.Algebra.Group.Int.Defs
import Mathlib.Algebra.Group.Nat.Defs
import Mathlib.Data.Int.Basic

/-!
# Binary floating-point formats as bit patterns

A datum is its bit pattern. `pack` rounds a signed dyadic number to nearest, ties
to even, with gradual underflow and overflow to infinity; `unpack` gives a finite
datum's exact dyadic value. Conversions between integers and formats, and between
two formats, are compositions of the two.
-/

namespace Basis

set_option autoImplicit false

structure FloatFormat where
  expBits : Nat
  manBits : Nat
  deriving DecidableEq, Repr

namespace FloatFormat

def binary32 : FloatFormat := ⟨8, 23⟩

def binary64 : FloatFormat := ⟨11, 52⟩

variable (f : FloatFormat)

def bias : Int := 2 ^ (f.expBits - 1) - 1

/-- Exponent of the last place of the subnormal numbers. -/
def minQuantum : Int := 1 - f.bias - f.manBits

def signBit : Nat := 2 ^ (f.expBits + f.manBits)

/-- The pattern of positive infinity; larger magnitudes are NaNs. -/
def infinity : Nat := (2 ^ f.expBits - 1) * 2 ^ f.manBits

def magnitude (bits : Nat) : Nat := bits % f.signBit

def IsFinite (bits : Nat) : Prop := f.magnitude bits < f.infinity

instance (bits : Nat) : Decidable (f.IsFinite bits) := inferInstanceAs (Decidable (_ < _))

def unpackMagnitude (mag : Nat) : Nat × Int :=
  let e := mag / 2 ^ f.manBits
  let m := mag % 2 ^ f.manBits
  if e = 0 then (m, f.minQuantum) else (m + 2 ^ f.manBits, f.minQuantum + (e - 1 : Nat))

def isNegative (bits : Nat) : Bool := f.signBit ≤ bits

def unpack (bits : Nat) : Option (Bool × Nat × Int) :=
  if f.IsFinite bits then
    some (f.isNegative bits, f.unpackMagnitude (f.magnitude bits))
  else none

end FloatFormat

/-- Division by `2 ^ k`, rounded to nearest, ties to even. -/
def roundHalfEven (m k : Nat) : Nat :=
  let d := m / 2 ^ k
  let r := m % 2 ^ k
  if 2 ^ k < 2 * r ∨ (2 ^ k = 2 * r ∧ d % 2 = 1) then d + 1 else d

namespace FloatFormat

variable (f : FloatFormat)

/-- Exponent of the last place kept for the dyadic number `m * 2 ^ e`. -/
def quantum (m : Nat) (e : Int) : Int := max (e + m.log2 - f.manBits) f.minQuantum

/-- The magnitude `m * 2 ^ e` as a pattern. A significand that rounds up to the next
power of two carries into the exponent field. -/
def packMagnitude (m : Nat) (e : Int) : Nat :=
  let q := f.quantum m e
  let significand := if q ≤ e then m * 2 ^ (e - q).toNat else roundHalfEven m (q - e).toNat
  min f.infinity ((q - f.minQuantum).toNat * 2 ^ f.manBits + significand)

def pack (negative : Bool) (m : Nat) (e : Int) : Nat :=
  (if negative then f.signBit else 0) + (if m = 0 then 0 else f.packMagnitude m e)

def ofInt (n : Int) : Nat := f.pack (decide (n < 0)) n.natAbs 0

/-- The quotient of two numbers, rounded once: what is cut off the dyadic number is kept as
its last bit. -/
def ofRatio (negative : Bool) (num den : Nat) : Nat :=
  let shift := den.log2 + f.manBits + 4
  let scaled := num * 2 ^ shift
  f.pack negative (2 * (scaled / den) + if scaled % den = 0 then 0 else 1) (-(shift + 1 : Nat))

def truncate (bits : Nat) : Option Int :=
  (f.unpack bits).map fun (negative, m, e) =>
    let magnitude : Nat := if 0 ≤ e then m * 2 ^ e.toNat else m / 2 ^ (-e).toNat
    if negative then -(magnitude : Int) else magnitude

/-- The quiet NaN with an empty payload. -/
def quietNaN : Nat := f.infinity + 2 ^ (f.manBits - 1)

end FloatFormat

def convertFloat (src dst : FloatFormat) (bits : Nat) : Nat :=
  match src.unpack bits with
  | some (negative, m, e) => dst.pack negative m e
  | none =>
    let sign := if src.isNegative bits then dst.signBit else 0
    sign + (if src.magnitude bits = src.infinity then dst.infinity else dst.quietNaN)

example : FloatFormat.binary64.ofInt 1 = 0x3FF0000000000000 := by decide

example : FloatFormat.binary64.ofRatio false 1 10 = 0x3FB999999999999A := by decide

example : convertFloat .binary64 .binary32 0x3FF8000000000000 = 0x3FC00000 := by decide

/-! ## Finite data stay finite when widened -/

namespace FloatFormat

section Widening

variable (f : FloatFormat)

theorem isFinite_signed (negative : Bool) {mag : Nat} (hmag : mag < f.signBit) :
    f.IsFinite ((if negative then f.signBit else 0) + mag) ↔ mag < f.infinity := by
  have hmod : f.magnitude ((if negative then f.signBit else 0) + mag) = mag := by
    cases negative with
    | false => simp [magnitude, Nat.mod_eq_of_lt hmag]
    | true => simp [magnitude, Nat.mod_eq_of_lt hmag]
  rw [IsFinite, hmod]

/-- A dyadic number that needs no rounding and is not too large packs below infinity. -/
theorem packMagnitude_lt_infinity {m : Nat} {e : Int} (hexp : 2 ≤ f.expBits)
    (hexact : m.log2 ≤ f.manBits) (hlow : f.minQuantum ≤ e) (hhigh : e + m.log2 ≤ f.bias) :
    f.packMagnitude m e < f.infinity := by
  have hquantum : f.quantum m e ≤ e := by
    unfold quantum
    omega
  have hlower : e + m.log2 - f.manBits ≤ f.quantum m e := Int.le_max_left _ _
  have hsignificand : m * 2 ^ (e - f.quantum m e).toNat < 2 * 2 ^ f.manBits := by
    have hm : m < 2 ^ (m.log2 + 1) := Nat.lt_log2_self
    have hshift : m.log2 + 1 + (e - f.quantum m e).toNat ≤ f.manBits + 1 := by omega
    generalize (e - f.quantum m e).toNat = shift at hshift ⊢
    calc m * 2 ^ shift < 2 ^ (m.log2 + 1) * 2 ^ shift := Nat.mul_lt_mul_of_pos_right hm (Nat.two_pow_pos _)
      _ = 2 ^ (m.log2 + 1 + shift) := (Nat.pow_add _ _ _).symm
      _ ≤ 2 ^ (f.manBits + 1) := Nat.pow_le_pow_right (by omega) hshift
      _ = 2 * 2 ^ f.manBits := Nat.pow_succ'
  have hfield : (f.quantum m e - f.minQuantum).toNat + 2 ≤ 2 ^ f.expBits - 1 := by
    have hdouble : 2 ^ f.expBits = 2 * 2 ^ (f.expBits - 1) := by
      rw [← Nat.pow_succ']
      congr 1
      omega
    have hfour : 2 ≤ 2 ^ (f.expBits - 1) := by
      have h := Nat.pow_le_pow_right (show 0 < 2 by omega) (show 1 ≤ f.expBits - 1 by omega)
      omega
    have hbias : f.bias = (2 ^ (f.expBits - 1) : Nat) - 1 := by
      unfold bias
      push_cast
      rfl
    unfold quantum minQuantum
    omega
  unfold packMagnitude
  simp only [hquantum, if_true]
  refine Nat.lt_of_le_of_lt (Nat.min_le_right _ _) ?_
  have hscaled := Nat.mul_le_mul_right (2 ^ f.manBits) hfield
  rw [Nat.add_mul] at hscaled
  rw [infinity]
  omega

end Widening

theorem unpackMagnitude_single {mag : Nat} (h : mag < binary32.infinity) :
    (binary32.unpackMagnitude mag).1.log2 ≤ 23 ∧ -149 ≤ (binary32.unpackMagnitude mag).2 ∧
      (binary32.unpackMagnitude mag).2 ≤ 104 := by
  have hinf : binary32.infinity = 255 * 2 ^ 23 := rfl
  have hquantum : binary32.minQuantum = -149 := rfl
  have hlog {m : Nat} (hm : m < 2 ^ 24) : m.log2 ≤ 23 := by
    by_cases hzero : m = 0
    · subst hzero
      decide
    · exact Nat.le_of_lt_succ ((Nat.log2_lt hzero).mpr hm)
  have hman : binary32.manBits = 23 := rfl
  unfold unpackMagnitude
  simp only [hquantum, hman]
  split
  · exact ⟨hlog (by omega), by omega, by omega⟩
  · exact ⟨hlog (by omega), by omega, by omega⟩

theorem isFinite_widen (bits : Nat) :
    binary64.IsFinite (convertFloat binary32 binary64 bits) ↔ binary32.IsFinite bits := by
  by_cases hfinite : binary32.IsFinite bits
  · have hunpack : binary32.unpack bits =
        some (binary32.isNegative bits, binary32.unpackMagnitude (binary32.magnitude bits)) := if_pos hfinite
    obtain ⟨hlog, hlow, hhigh⟩ := unpackMagnitude_single hfinite
    simp only [convertFloat, hunpack, iff_true_right hfinite]
    generalize binary32.unpackMagnitude (binary32.magnitude bits) = me at hlog hlow hhigh
    obtain ⟨m, e⟩ := me
    have hinf : binary64.infinity < binary64.signBit := by decide
    simp only at hlog hlow hhigh ⊢
    have hpack : (if m = 0 then 0 else binary64.packMagnitude m e) < binary64.infinity := by
      split
      · decide
      · apply packMagnitude_lt_infinity
        · decide
        · exact Nat.le_trans hlog (by decide)
        · exact Int.le_trans (by decide) hlow
        · have hbias : binary64.bias = 1023 := rfl
          omega
    rw [pack]
    exact (binary64.isFinite_signed _ (Nat.lt_trans hpack hinf)).mpr hpack
  · have hunpack : binary32.unpack bits = none := if_neg hfinite
    simp only [convertFloat, hunpack, hfinite, iff_false]
    have hpattern : binary64.infinity < binary64.signBit ∧ binary64.quietNaN < binary64.signBit ∧
        ¬ binary64.quietNaN < binary64.infinity := by decide
    by_cases hinf : binary32.magnitude bits = binary32.infinity
    · rw [if_pos hinf, binary64.isFinite_signed _ hpattern.1]
      exact Nat.lt_irrefl _
    · rw [if_neg hinf, binary64.isFinite_signed _ hpattern.2.1]
      exact hpattern.2.2

end FloatFormat

end Basis
