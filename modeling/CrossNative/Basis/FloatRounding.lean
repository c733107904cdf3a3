import CrossNative.Basis.BinaryFloat

/-!
# Integers through a floating-point format

An integer that is converted to a format and truncated again has been rounded to the nearest
integer of the format. It is itself again exactly when the bits the format has no room for are
zeros.
-/

namespace Basis

set_option autoImplicit false

theorem roundHalfEven_zero (m : Nat) : roundHalfEven m 0 = m := by
  simp [roundHalfEven, Nat.mod_one]

theorem roundHalfEven_cases (m k : Nat) :
    roundHalfEven m k = m / 2 ^ k ∨ (roundHalfEven m k = m / 2 ^ k + 1 ∧ 0 < m % 2 ^ k) := by
  have hpos := Nat.two_pow_pos k
  simp only [roundHalfEven]
  split
  · right
    omega
  · exact Or.inl rfl

/-- Rounding moves every number that is not on the grid. -/
theorem roundHalfEven_mul_eq_iff {m k : Nat} : roundHalfEven m k * 2 ^ k = m ↔ 2 ^ k ∣ m := by
  constructor
  · intro h
    exact ⟨roundHalfEven m k, by rw [Nat.mul_comm]; exact h.symm⟩
  · intro h
    have hmod := Nat.mod_eq_zero_of_dvd h
    rcases roundHalfEven_cases m k with heq | ⟨_, hpos⟩
    · rw [heq, Nat.div_mul_cancel h]
    · omega

/-- A number between two powers of two stays between them. -/
theorem roundHalfEven_bounds {m k p : Nat} (hlow : 2 ^ p * 2 ^ k ≤ m) (hhigh : m < 2 ^ (p + 1) * 2 ^ k) :
    2 ^ p ≤ roundHalfEven m k ∧ roundHalfEven m k ≤ 2 ^ (p + 1) := by
  have hdiv : 2 ^ p ≤ m / 2 ^ k := (Nat.le_div_iff_mul_le (Nat.two_pow_pos k)).mpr hlow
  have hlt : m / 2 ^ k < 2 ^ (p + 1) := (Nat.div_lt_iff_lt_mul (Nat.two_pow_pos k)).mpr hhigh
  rcases roundHalfEven_cases m k with heq | ⟨heq, _⟩ <;> omega

namespace FloatFormat

variable (f : FloatFormat)

/-- How many low bits of an integer the significand has no room for. -/
def dropped (m : Nat) : Nat := m.log2 - f.manBits

/-- The nearest integer of the format, ties to even. -/
def nearest (m : Nat) : Nat := roundHalfEven m (f.dropped m) * 2 ^ f.dropped m

def nearestInt (n : Int) : Int := if n < 0 then -(f.nearest n.natAbs : Int) else f.nearest n.natAbs

/-- The format represents the integer, which is not too large for it. -/
def Represents (n : Int) : Prop := 2 ^ f.dropped n.natAbs ∣ n.natAbs

instance (n : Int) : Decidable (f.Represents n) := inferInstanceAs (Decidable (_ ∣ _))

theorem nearest_zero : f.nearest 0 = 0 := by
  have hdropped : f.dropped 0 = 0 := by simp [dropped]
  rw [nearest, hdropped, roundHalfEven_zero, Nat.zero_mul]

theorem nearestInt_eq_iff (n : Int) : f.nearestInt n = n ↔ f.Represents n := by
  have hround : f.nearest n.natAbs = n.natAbs ↔ f.Represents n := roundHalfEven_mul_eq_iff
  rw [← hround, nearestInt]
  split <;> omega

section Words

variable {f} (hexp : 2 ≤ f.expBits)

include hexp

theorem bias_pos : 1 ≤ f.bias := by
  have hpow : 2 ^ 1 ≤ 2 ^ (f.expBits - 1) := Nat.pow_le_pow_right (by omega) (by omega)
  have hbias : f.bias = (2 ^ (f.expBits - 1) : Nat) - 1 := by
    unfold bias
    push_cast
    rfl
  omega

theorem expField_eq : ((2 ^ f.expBits : Nat) : Int) = 2 * f.bias + 2 := by
  have hdouble : 2 ^ f.expBits = 2 * 2 ^ (f.expBits - 1) := by
    rw [← Nat.pow_succ']
    congr 1
    omega
  rw [hdouble]
  unfold bias
  push_cast
  omega

omit hexp in
/-- Put together and taken apart: a significand that has carried comes out halved. -/
theorem unpackMagnitude_word {exponent significand : Nat} (hlow : 2 ^ f.manBits ≤ significand)
    (hhigh : significand ≤ 2 ^ (f.manBits + 1)) :
    f.unpackMagnitude (exponent * 2 ^ f.manBits + significand) =
      if significand = 2 ^ (f.manBits + 1) then (2 ^ f.manBits, f.minQuantum + (exponent + 1 : Nat))
      else (significand, f.minQuantum + (exponent : Nat)) := by
  have hpos := Nat.two_pow_pos f.manBits
  have hdouble : 2 ^ (f.manBits + 1) = 2 ^ f.manBits + 2 ^ f.manBits := by rw [Nat.pow_succ, Nat.mul_two]
  split
  · rename_i hcarry
    have hword : exponent * 2 ^ f.manBits + significand = (exponent + 2) * 2 ^ f.manBits := by
      rw [hcarry, hdouble, Nat.add_mul]
      omega
    simp only [unpackMagnitude, hword, Nat.mul_div_cancel _ hpos, Nat.mul_mod_left]
    rw [if_neg (by omega), Nat.zero_add]
    rfl
  · rename_i hcarry
    have hword : exponent * 2 ^ f.manBits + significand =
        (significand - 2 ^ f.manBits) + (exponent + 1) * 2 ^ f.manBits := by
      rw [Nat.add_mul]
      omega
    have hlt : significand - 2 ^ f.manBits < 2 ^ f.manBits := by omega
    simp only [unpackMagnitude, hword, Nat.add_mul_div_right _ _ hpos, Nat.add_mul_mod_self_right,
      Nat.div_eq_of_lt hlt, Nat.mod_eq_of_lt hlt]
    rw [if_neg (by omega), Nat.sub_add_cancel hlow]
    simp

omit hexp in
/-- The significand of a positive integer is full. -/
theorem significand_bounds {m : Nat} (hm : m ≠ 0) :
    2 ^ f.manBits ≤ roundHalfEven m (f.dropped m) * 2 ^ (f.manBits - m.log2) ∧
      roundHalfEven m (f.dropped m) * 2 ^ (f.manBits - m.log2) ≤ 2 ^ (f.manBits + 1) := by
  have hlow : 2 ^ m.log2 ≤ m := Nat.log2_self_le hm
  have hhigh : m < 2 ^ (m.log2 + 1) := Nat.lt_log2_self
  unfold dropped
  by_cases hfits : m.log2 ≤ f.manBits
  · have hshift : m.log2 - f.manBits = 0 := by omega
    rw [hshift, roundHalfEven_zero]
    have hscale := Nat.two_pow_pos (f.manBits - m.log2)
    constructor
    · calc 2 ^ f.manBits = 2 ^ m.log2 * 2 ^ (f.manBits - m.log2) := by rw [← Nat.pow_add, Nat.add_sub_cancel' hfits]
        _ ≤ m * 2 ^ (f.manBits - m.log2) := Nat.mul_le_mul_right _ hlow
    · calc m * 2 ^ (f.manBits - m.log2) ≤ 2 ^ (m.log2 + 1) * 2 ^ (f.manBits - m.log2) :=
            Nat.mul_le_mul_right _ (Nat.le_of_lt hhigh)
        _ = 2 ^ (f.manBits + 1) := by rw [← Nat.pow_add]; congr 1; omega
  · have hshift : f.manBits - m.log2 = 0 := by omega
    rw [hshift, Nat.pow_zero, Nat.mul_one]
    apply roundHalfEven_bounds
    · rw [← Nat.pow_add, Nat.add_sub_cancel' (by omega)]
      exact hlow
    · rw [← Nat.pow_add]
      refine Nat.lt_of_lt_of_eq hhigh ?_
      congr 1
      omega

theorem packMagnitude_int {m : Nat} (hm : m ≠ 0) (hrange : (m.log2 : Int) < f.bias) :
    f.packMagnitude m 0 = (m.log2 + f.bias - 1).toNat * 2 ^ f.manBits +
        roundHalfEven m (f.dropped m) * 2 ^ (f.manBits - m.log2) ∧
      f.packMagnitude m 0 < f.infinity := by
  have hbias := bias_pos hexp
  have hfield := expField_eq hexp
  have hquantum : f.quantum m 0 = m.log2 - f.manBits := by
    unfold quantum minQuantum
    omega
  have hexponent : (f.quantum m 0 - f.minQuantum).toNat = (m.log2 + f.bias - 1).toNat := by
    rw [hquantum]
    unfold minQuantum
    congr 1
    omega
  have hsignificand : (if f.quantum m 0 ≤ 0 then m * 2 ^ (0 - f.quantum m 0).toNat
      else roundHalfEven m (f.quantum m 0 - 0).toNat) =
        roundHalfEven m (f.dropped m) * 2 ^ (f.manBits - m.log2) := by
    rw [hquantum]
    unfold dropped
    split
    · have hdropped : m.log2 - f.manBits = 0 := by omega
      have hshift : (0 - ((m.log2 : Int) - f.manBits)).toNat = f.manBits - m.log2 := by omega
      rw [hdropped, roundHalfEven_zero, hshift]
    · have hshift : f.manBits - m.log2 = 0 := by omega
      have hdropped : ((m.log2 : Int) - f.manBits - 0).toNat = m.log2 - f.manBits := by omega
      rw [hshift, Nat.pow_zero, Nat.mul_one, hdropped]
  have hbound : (m.log2 + f.bias - 1).toNat * 2 ^ f.manBits +
      roundHalfEven m (f.dropped m) * 2 ^ (f.manBits - m.log2) < f.infinity := by
    have hhigh := (significand_bounds (f := f) hm).2
    have hpos := Nat.two_pow_pos f.manBits
    have hexp' : (m.log2 + f.bias - 1).toNat + 3 ≤ 2 ^ f.expBits - 1 := by omega
    have hscaled := Nat.mul_le_mul_right (2 ^ f.manBits) hexp'
    rw [Nat.add_mul] at hscaled
    rw [Nat.pow_succ] at hhigh
    rw [infinity]
    omega
  have hpack : f.packMagnitude m 0 = (m.log2 + f.bias - 1).toNat * 2 ^ f.manBits +
      roundHalfEven m (f.dropped m) * 2 ^ (f.manBits - m.log2) := by
    simp only [packMagnitude, hsignificand, hexponent]
    exact Nat.min_eq_right (Nat.le_of_lt hbound)
  exact ⟨hpack, by rw [hpack]; exact hbound⟩

/-- The value of the word an integer is packed into. -/
theorem truncate_word {m : Nat} (hm : m ≠ 0) (hrange : (m.log2 : Int) < f.bias) :
    (if 0 ≤ (f.unpackMagnitude (f.packMagnitude m 0)).2 then
        (f.unpackMagnitude (f.packMagnitude m 0)).1 * 2 ^ (f.unpackMagnitude (f.packMagnitude m 0)).2.toNat
      else (f.unpackMagnitude (f.packMagnitude m 0)).1 / 2 ^ (-(f.unpackMagnitude (f.packMagnitude m 0)).2).toNat) =
      f.nearest m := by
  have hbias := bias_pos hexp
  obtain ⟨hlow, hhigh⟩ := significand_bounds (f := f) hm
  rw [(packMagnitude_int hexp hm hrange).1, unpackMagnitude_word hlow hhigh, nearest]
  have hexponent : f.minQuantum + ((m.log2 + f.bias - 1).toNat : Int) = m.log2 - f.manBits := by
    unfold minQuantum
    omega
  have hcarried : f.minQuantum + (((m.log2 + f.bias - 1).toNat + 1 : Nat) : Int) = m.log2 - f.manBits + 1 := by
    unfold minQuantum
    omega
  by_cases hfits : m.log2 ≤ f.manBits
  · have hdropped : f.dropped m = 0 := by
      unfold dropped
      omega
    have hhigh' : m < 2 ^ (m.log2 + 1) := Nat.lt_log2_self
    have hno : m * 2 ^ (f.manBits - m.log2) ≠ 2 ^ (f.manBits + 1) := by
      have hscale := Nat.mul_lt_mul_of_pos_right hhigh' (Nat.two_pow_pos (f.manBits - m.log2))
      rw [← Nat.pow_add] at hscale
      have hsum : m.log2 + 1 + (f.manBits - m.log2) = f.manBits + 1 := by omega
      rw [hsum] at hscale
      omega
    rw [hdropped, roundHalfEven_zero, if_neg hno]
    simp only [hexponent]
    split
    · have hzero : f.manBits - m.log2 = 0 := by omega
      have hzero' : ((m.log2 : Int) - f.manBits).toNat = 0 := by omega
      rw [hzero, hzero']
      simp
    · have hshift : (-((m.log2 : Int) - f.manBits)).toNat = f.manBits - m.log2 := by omega
      rw [hshift, Nat.mul_div_cancel _ (Nat.two_pow_pos _), Nat.pow_zero, Nat.mul_one]
  · have hshift : f.manBits - m.log2 = 0 := by omega
    rw [hshift, Nat.pow_zero, Nat.mul_one]
    split
    · rename_i hcarry
      simp only [hcarried]
      rw [if_pos (by omega), hcarry]
      have hnext : ((m.log2 : Int) - f.manBits + 1).toNat = f.dropped m + 1 := by
        unfold dropped
        omega
      rw [hnext, Nat.pow_succ, Nat.pow_succ, Nat.mul_assoc, Nat.mul_comm 2]
    · simp only [hexponent]
      rw [if_pos (by omega)]
      congr 2
      unfold dropped
      omega

omit hexp in
theorem infinity_lt_signBit : f.infinity < f.signBit := by
  have hpos := Nat.two_pow_pos f.manBits
  rw [infinity, signBit, Nat.pow_add]
  exact Nat.mul_lt_mul_of_pos_right (Nat.sub_lt (Nat.two_pow_pos _) Nat.one_pos) hpos

omit hexp in
/-- A word with a sign in front of it. -/
theorem unpack_signed (negative : Bool) {mag : Nat} (h : mag < f.infinity) :
    f.unpack ((if negative then f.signBit else 0) + mag) = some (negative, f.unpackMagnitude mag) := by
  have hsign := Nat.lt_trans h (infinity_lt_signBit (f := f))
  have hmagnitude : f.magnitude ((if negative then f.signBit else 0) + mag) = mag := by
    cases negative <;> simp [magnitude, Nat.mod_eq_of_lt hsign]
  have hnegative : f.isNegative ((if negative then f.signBit else 0) + mag) = negative := by
    cases negative
    · simp [isNegative, hsign]
    · simp [isNegative]
  rw [unpack, if_pos ((f.isFinite_signed negative hsign).mpr h), hmagnitude, hnegative]

theorem ofInt_lt {n : Int} (hrange : (n.natAbs.log2 : Int) < f.bias) : f.ofInt n < 2 * f.signBit := by
  have hsign : (if decide (n < 0) = true then f.signBit else 0) ≤ f.signBit := by
    split <;> omega
  have hmagnitude : (if n.natAbs = 0 then 0 else f.packMagnitude n.natAbs 0) < f.signBit := by
    split
    · exact Nat.two_pow_pos _
    · rename_i hne
      exact Nat.lt_trans (packMagnitude_int hexp hne hrange).2 infinity_lt_signBit
  rw [ofInt, pack]
  omega

/-- An integer in the range of the format is rounded once. -/
theorem truncate_ofInt {n : Int} (hrange : (n.natAbs.log2 : Int) < f.bias) :
    f.truncate (f.ofInt n) = some (f.nearestInt n) := by
  rw [truncate, ofInt, pack]
  by_cases hzero : n.natAbs = 0
  · have hn : n = 0 := Int.natAbs_eq_zero.mp hzero
    have hpos : 0 < f.infinity := by
      have hexp' : 2 ^ 1 ≤ 2 ^ f.expBits := Nat.pow_le_pow_right (by omega) (by omega)
      exact Nat.mul_pos (by omega) (Nat.two_pow_pos _)
    rw [if_pos hzero, unpack_signed _ hpos, hn, nearestInt, Int.natAbs_zero, nearest_zero]
    simp [unpackMagnitude]
  · have hvalue := truncate_word hexp hzero hrange
    rw [if_neg hzero, unpack_signed _ (packMagnitude_int hexp hzero hrange).2, Option.map_some]
    simp only [hvalue, nearestInt, decide_eq_true_eq]

end Words

end FloatFormat

end Basis
