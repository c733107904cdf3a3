import CrossNative.Basis.FloatRounding
import Mathlib.Algebra.Order.Field.Power
import Mathlib.Tactic.Linarith
import Mathlib.Tactic.Positivity
import Mathlib.Tactic.Ring

/-!
# The numbers that round to a given datum

Every rational strictly between the two midpoints around a finite datum is converted to
that datum. Below a power of two the data are twice as dense, and the lower midpoint is
nearer.
-/

namespace Basis

set_option autoImplicit false

/-- The number `m * 2 ^ e`. -/
def dyadic (m : Nat) (e : Int) : ℚ := m * 2 ^ e

/-- The exponent may be lowered when the significand is widened. -/
theorem dyadic_shift (m : Nat) (e : Int) (k : Nat) : dyadic (m * 2 ^ k) (e - k) = dyadic m e := by
  have hsplit : (2 : ℚ) ^ e = 2 ^ (e - k) * 2 ^ k := by
    rw [← zpow_natCast, ← zpow_add₀ (by norm_num)]
    congr 1
    omega
  rw [dyadic, dyadic, hsplit]
  push_cast
  ring

theorem dyadic_lt_iff {m n : Nat} {e : Int} : dyadic m e < dyadic n e ↔ m < n := by
  unfold dyadic
  rw [mul_lt_mul_iff_left₀ (zpow_pos (by norm_num) e)]
  exact Nat.cast_lt

theorem dyadic_le_iff {m n : Nat} {e : Int} : dyadic m e ≤ dyadic n e ↔ m ≤ n := by
  rw [← not_lt, dyadic_lt_iff, Nat.not_lt]

/-- The position of the leading bit. -/
theorem log2_of_between {n : Nat} (hn : n ≠ 0) {e t : Int} (hlow : (2 : ℚ) ^ t ≤ dyadic n e)
    (hhigh : dyadic n e < 2 ^ (t + 1)) : e + n.log2 = t := by
  have htwo : (1 : ℚ) < 2 := by norm_num
  have hbelow : (2 : ℚ) ^ (e + n.log2) ≤ dyadic n e := by
    rw [zpow_add₀ (by norm_num), zpow_natCast, mul_comm, dyadic]
    exact mul_le_mul_of_nonneg_right (by exact_mod_cast Nat.log2_self_le hn) (zpow_nonneg (by norm_num) e)
  have habove : dyadic n e < 2 ^ (e + n.log2 + 1) := by
    have hexp : e + n.log2 + 1 = e + (n.log2 + 1 : Nat) := by
      push_cast
      ring
    rw [hexp, zpow_add₀ (by norm_num), zpow_natCast, mul_comm, dyadic]
    exact mul_lt_mul_of_pos_right (by exact_mod_cast Nat.lt_log2_self) (zpow_pos (by norm_num) e)
  have hleft : e + n.log2 < t + 1 := (zpow_lt_zpow_iff_right₀ htwo).mp (lt_of_le_of_lt hbelow hhigh)
  have hright : t < e + n.log2 + 1 := (zpow_lt_zpow_iff_right₀ htwo).mp (lt_of_le_of_lt hlow habove)
  omega

theorem roundHalfEven_eq {m k r : Nat} (hlow : 2 * r * 2 ^ k < 2 * m + 2 ^ k)
    (hhigh : 2 * m < (2 * r + 1) * 2 ^ k) : roundHalfEven m k = r := by
  have hpos := Nat.two_pow_pos k
  have hdivision := Nat.div_add_mod m (2 ^ k)
  have hmod := Nat.mod_lt m hpos
  unfold roundHalfEven
  generalize m / 2 ^ k = d at hdivision ⊢
  generalize m % 2 ^ k = rest at hdivision hmod ⊢
  generalize 2 ^ k = unit at *
  subst hdivision
  have hcase : d = r ∨ d + 1 = r := by
    have hupper : d < r + 1 := by
      by_contra hge
      have := Nat.mul_le_mul_left unit (Nat.le_of_not_lt hge)
      nlinarith
    have hlower : r < d + 2 := by
      by_contra hge
      have := Nat.mul_le_mul_left unit (Nat.le_of_not_lt hge)
      nlinarith
    omega
  rcases hcase with rfl | rfl
  · have : 2 * rest < unit := by nlinarith
    rw [if_neg (by omega)]
  · have : unit < 2 * rest := by nlinarith
    rw [if_pos (Or.inl this)]

namespace FloatFormat

variable (f : FloatFormat)

/-- What `packMagnitude` keeps of `m * 2 ^ e` when its last place is `q`. -/
def significandAt (m : Nat) (e q : Int) : Nat :=
  if q ≤ e then m * 2 ^ (e - q).toNat else roundHalfEven m (q - e).toNat

theorem packMagnitude_eq_min (m : Nat) (e : Int) :
    f.packMagnitude m e = min f.infinity
      ((f.quantum m e - f.minQuantum).toNat * 2 ^ f.manBits + significandAt m e (f.quantum m e)) := rfl

/-- Strictly less than half a last place away, a number is rounded to the significand. -/
theorem significandAt_eq {n r : Nat} {e q : Int} (hlow : dyadic (2 * r) (q - 1) < dyadic n e + 2 ^ (q - 1))
    (hhigh : dyadic n e < dyadic (2 * r + 1) (q - 1)) : significandAt n e q = r := by
  unfold significandAt
  have hhalf : (2 : ℚ) ^ (q - 1) = dyadic 1 (q - 1) := by simp [dyadic]
  have hadd (a b : Nat) : dyadic a (q - 1) + dyadic b (q - 1) = dyadic (a + b) (q - 1) := by
    simp only [dyadic]
    push_cast
    ring
  split
  · rename_i hle
    have hgrid : dyadic n e = dyadic (2 * (n * 2 ^ (e - q).toNat)) (q - 1) := by
      have hshift := dyadic_shift n e ((e - q).toNat + 1)
      have hexp : e - ((e - q).toNat + 1 : Nat) = q - 1 := by omega
      rw [hexp, Nat.pow_succ] at hshift
      rw [← hshift]
      congr 1
      ring
    rw [hgrid, hhalf, hadd, dyadic_lt_iff] at hlow
    rw [hgrid, dyadic_lt_iff] at hhigh
    omega
  · rename_i hlt
    have hunits (a : Nat) : dyadic a (q - 1) = dyadic (a * 2 ^ (q - e).toNat) (e - 1) := by
      have hshift := dyadic_shift a (q - 1) (q - e).toNat
      have hexp : q - 1 - (q - e).toNat = e - 1 := by omega
      rw [hexp] at hshift
      exact hshift.symm
    have hself : dyadic n e = dyadic (2 * n) (e - 1) := by
      have hshift := dyadic_shift n e 1
      rw [← hshift]
      congr 1
      ring
    have hsum (a b : Nat) : dyadic a (e - 1) + dyadic b (e - 1) = dyadic (a + b) (e - 1) := by
      simp only [dyadic]
      push_cast
      ring
    rw [hhalf, hunits, hunits, hself, hsum, dyadic_lt_iff] at hlow
    rw [hunits, hself, dyadic_lt_iff] at hhigh
    exact roundHalfEven_eq (by omega) hhigh

/-- The datum is a power of two with smaller neighbours nearer than greater ones. -/
def LowerIsCloser (mag : Nat) : Prop := mag % 2 ^ f.manBits = 0 ∧ 1 < mag / 2 ^ f.manBits

instance (mag : Nat) : Decidable (f.LowerIsCloser mag) := inferInstanceAs (Decidable (_ ∧ _))

/-- The midpoint to the datum above. -/
def upperMidpoint (mag : Nat) : ℚ :=
  dyadic (2 * (f.unpackMagnitude mag).1 + 1) ((f.unpackMagnitude mag).2 - 1)

/-- The midpoint to the datum below. -/
def lowerMidpoint (mag : Nat) : ℚ :=
  if f.LowerIsCloser mag then dyadic (4 * (f.unpackMagnitude mag).1 - 1) ((f.unpackMagnitude mag).2 - 2)
  else dyadic (2 * (f.unpackMagnitude mag).1 - 1) ((f.unpackMagnitude mag).2 - 1)

theorem unpackMagnitude_fields (mag : Nat) :
    f.unpackMagnitude mag = (mag, f.minQuantum) ∧ mag < 2 ^ f.manBits ∨
      ∃ field rest : Nat, f.unpackMagnitude mag = (rest + 2 ^ f.manBits, f.minQuantum + (field : Int)) ∧
        rest < 2 ^ f.manBits ∧ mag = (field + 1) * 2 ^ f.manBits + rest := by
  have hpos := Nat.two_pow_pos f.manBits
  have hdivision := Nat.div_add_mod mag (2 ^ f.manBits)
  have hmod := Nat.mod_lt mag hpos
  by_cases hzero : mag / 2 ^ f.manBits = 0
  · left
    rw [hzero] at hdivision
    have hself : mag % 2 ^ f.manBits = mag := by omega
    exact ⟨by simp [unpackMagnitude, hzero, hself], by omega⟩
  · right
    refine ⟨mag / 2 ^ f.manBits - 1, mag % 2 ^ f.manBits, by simp [unpackMagnitude, hzero], hmod, ?_⟩
    rw [Nat.sub_add_cancel (Nat.pos_of_ne_zero hzero), Nat.mul_comm]
    exact hdivision.symm

theorem unpackMagnitude_lt (mag : Nat) : (f.unpackMagnitude mag).1 < 2 ^ (f.manBits + 1) := by
  have hdouble : 2 ^ (f.manBits + 1) = 2 ^ f.manBits + 2 ^ f.manBits := by rw [Nat.pow_succ, Nat.mul_two]
  rcases f.unpackMagnitude_fields mag with ⟨heq, hlt⟩ | ⟨field, rest, heq, hlt, -⟩
  · rw [heq]
    simp only
    omega
  · rw [heq]
    simp only
    omega

/-- A significand and its last place give the pattern back. -/
theorem pattern_of_unpack {mag : Nat} (hfinite : mag < f.infinity) :
    min f.infinity (((f.unpackMagnitude mag).2 - f.minQuantum).toNat * 2 ^ f.manBits +
      (f.unpackMagnitude mag).1) = mag := by
  have hpattern : ((f.unpackMagnitude mag).2 - f.minQuantum).toNat * 2 ^ f.manBits +
      (f.unpackMagnitude mag).1 = mag := by
    rcases f.unpackMagnitude_fields mag with ⟨heq, -⟩ | ⟨field, rest, heq, -, hmag⟩
    · simp [heq]
    · have hfield : (f.minQuantum + (field : Int) - f.minQuantum).toNat = field := by omega
      simp only [heq, hfield]
      rw [hmag, Nat.add_mul]
      omega
  rw [hpattern]
  exact Nat.min_eq_right (Nat.le_of_lt hfinite)

theorem dyadic_two_pow (k : Nat) (e : Int) : dyadic (2 ^ k) e = 2 ^ (e + k) := by
  rw [dyadic, zpow_add₀ (by norm_num), zpow_natCast, mul_comm]
  push_cast
  rfl

/-- The last place of a number that has the leading bit of a full significand `m * 2 ^ e`. -/
theorem quantum_eq {n : Nat} (hn : n ≠ 0) {e q : Int} (hquantum : f.minQuantum ≤ q)
    (hlow : dyadic (2 ^ f.manBits) q ≤ dyadic n e) (hhigh : dyadic n e < dyadic (2 ^ (f.manBits + 1)) q) :
    f.quantum n e = q := by
  rw [dyadic_two_pow] at hlow hhigh
  have hexp : q + (f.manBits + 1 : Nat) = q + f.manBits + 1 := by
    push_cast
    ring
  rw [hexp] at hhigh
  have hlog := log2_of_between hn hlow hhigh
  unfold quantum
  omega

theorem quantum_of_subnormal {n : Nat} (hn : n ≠ 0) {e : Int}
    (hhigh : dyadic n e < dyadic (2 ^ (f.manBits + 1)) f.minQuantum) : f.quantum n e = f.minQuantum := by
  rw [dyadic_two_pow] at hhigh
  have hleading : (2 : ℚ) ^ (e + n.log2) ≤ dyadic n e := by
    rw [← dyadic_two_pow, dyadic_le_iff]
    exact Nat.log2_self_le hn
  have hlt : e + n.log2 < f.minQuantum + (f.manBits + 1 : Nat) :=
    (zpow_lt_zpow_iff_right₀ (by norm_num : (1 : ℚ) < 2)).mp (lt_of_le_of_lt hleading hhigh)
  unfold quantum
  omega

theorem dyadic_half (m : Nat) (e : Int) : dyadic (2 * m) (e - 1) = dyadic m e := by
  have hshift := dyadic_shift m e 1
  rw [← hshift]
  congr 1
  ring

/-- With the datum's own last place, nothing but its significand is near enough. -/
theorem packMagnitude_of_quantum {mag n : Nat} {e : Int} (hfinite : mag < f.infinity)
    (hquantum : f.quantum n e = (f.unpackMagnitude mag).2)
    (hlow : dyadic (2 * (f.unpackMagnitude mag).1 - 1) ((f.unpackMagnitude mag).2 - 1) < dyadic n e)
    (hhigh : dyadic n e < f.upperMidpoint mag) : f.packMagnitude n e = mag := by
  have hsignificand : significandAt n e (f.unpackMagnitude mag).2 = (f.unpackMagnitude mag).1 := by
    refine significandAt_eq ?_ hhigh
    generalize (f.unpackMagnitude mag).2 - 1 = q at hlow ⊢
    generalize (f.unpackMagnitude mag).1 = m at hlow ⊢
    have hunit : dyadic (2 * m) q ≤ dyadic (2 * m - 1) q + 2 ^ q := by
      rw [show (2 : ℚ) ^ q = dyadic 1 q by simp [dyadic],
        show dyadic (2 * m - 1) q + dyadic 1 q = dyadic (2 * m - 1 + 1) q by
          simp only [dyadic]
          push_cast
          ring, dyadic_le_iff]
      omega
    linarith
  rw [packMagnitude_eq_min, hquantum, hsignificand]
  exact f.pattern_of_unpack hfinite

/-- Just below a power of two the last place is half as large, and rounding carries. -/
theorem packMagnitude_below_power {mag n field : Nat} {e : Int} (hfinite : mag < f.infinity) (hn : n ≠ 0)
    (hfield : 0 < field) (hunpack : f.unpackMagnitude mag = (2 ^ f.manBits, f.minQuantum + (field : Int)))
    (hlow : dyadic (4 * 2 ^ f.manBits - 1) (f.minQuantum + (field : Int) - 2) < dyadic n e)
    (hbelow : dyadic n e < dyadic (2 ^ f.manBits) (f.minQuantum + (field : Int))) :
    f.packMagnitude n e = mag := by
  have hpos := Nat.two_pow_pos f.manBits
  have hdouble : 2 ^ (f.manBits + 1) = 2 * 2 ^ f.manBits := Nat.pow_succ'
  have hpattern := f.pattern_of_unpack hfinite
  rw [hunpack] at hpattern
  generalize hexp : f.minQuantum + (field : Int) = q at *
  have hlast : q - 1 - 1 = q - 2 := by omega
  have hquantum : f.quantum n e = q - 1 := by
    refine f.quantum_eq hn (by omega) ?_ ?_
    · refine le_of_lt (lt_of_le_of_lt ?_ hlow)
      rw [← dyadic_half, hlast, dyadic_le_iff]
      omega
    · rw [hdouble, dyadic_half]
      exact hbelow
  have hsignificand : significandAt n e (q - 1) = 2 ^ (f.manBits + 1) := by
    refine significandAt_eq ?_ ?_
    · have hunit : dyadic (2 * 2 ^ (f.manBits + 1)) (q - 1 - 1) =
          dyadic (4 * 2 ^ f.manBits - 1) (q - 2) + 2 ^ (q - 1 - 1) := by
        have hsum : 2 * 2 ^ (f.manBits + 1) = 4 * 2 ^ f.manBits - 1 + 1 := by omega
        rw [hsum, hlast]
        simp only [dyadic]
        push_cast
        ring
      rw [hunit]
      linarith
    · refine lt_trans hbelow ?_
      rw [← dyadic_half, ← dyadic_half, dyadic_lt_iff]
      omega
  obtain ⟨place, hplace⟩ : ∃ place : Nat, q - f.minQuantum = (place + 1 : Nat) := ⟨field - 1, by omega⟩
  have hlower : q - 1 - f.minQuantum = (place : Int) := by omega
  simp only at hpattern
  rw [hplace, Int.toNat_natCast] at hpattern
  rw [packMagnitude_eq_min, hquantum, hsignificand, hlower, Int.toNat_natCast, hdouble]
  refine Eq.trans ?_ hpattern
  congr 1
  rw [Nat.add_mul]
  omega

theorem packMagnitude_of_between {mag n : Nat} {e : Int} (hfinite : mag < f.infinity) (hn : n ≠ 0)
    (hlow : f.lowerMidpoint mag < dyadic n e) (hhigh : dyadic n e < f.upperMidpoint mag) :
    f.packMagnitude n e = mag := by
  have hpos := Nat.two_pow_pos f.manBits
  have hbound := f.unpackMagnitude_lt mag
  -- the number stays below the next power of two
  have hceiling : dyadic n e < dyadic (2 ^ (f.manBits + 1)) (f.unpackMagnitude mag).2 := by
    refine lt_of_lt_of_le hhigh ?_
    rw [upperMidpoint, ← dyadic_half (2 ^ (f.manBits + 1)), dyadic_le_iff]
    omega
  rcases f.unpackMagnitude_fields mag with ⟨heq, hlt⟩ | ⟨field, rest, heq, hrest, hmag⟩
  · have hcloser : ¬ f.LowerIsCloser mag := by
      rintro ⟨-, hfield⟩
      rw [Nat.div_eq_of_lt hlt] at hfield
      omega
    rw [lowerMidpoint, if_neg hcloser] at hlow
    refine f.packMagnitude_of_quantum hfinite ?_ hlow hhigh
    rw [heq] at hceiling ⊢
    exact f.quantum_of_subnormal hn hceiling
  · have hdiv : mag / 2 ^ f.manBits = field + 1 := by
      rw [hmag, Nat.mul_comm, Nat.mul_add_div hpos, Nat.div_eq_of_lt hrest, Nat.add_zero]
    have hmod : mag % 2 ^ f.manBits = rest := by
      rw [hmag, Nat.mul_comm, Nat.mul_add_mod, Nat.mod_eq_of_lt hrest]
    have hcloser : f.LowerIsCloser mag ↔ rest = 0 ∧ 0 < field := by
      rw [LowerIsCloser, hdiv, hmod]
      omega
    rcases Nat.eq_zero_or_pos field with rfl | hfield
    · rw [lowerMidpoint, if_neg (by rw [hcloser]; omega)] at hlow
      refine f.packMagnitude_of_quantum hfinite ?_ hlow hhigh
      rw [heq] at hceiling ⊢
      simp only [Int.natCast_zero, Int.add_zero] at hceiling ⊢
      exact f.quantum_of_subnormal hn hceiling
    · rcases Nat.eq_zero_or_pos rest with rfl | hpositive
      · rw [lowerMidpoint, if_pos (hcloser.mpr ⟨rfl, hfield⟩)] at hlow
        have hnear : dyadic (2 * (f.unpackMagnitude mag).1 - 1) ((f.unpackMagnitude mag).2 - 1) < dyadic n e := by
          refine lt_trans ?_ hlow
          rw [show (f.unpackMagnitude mag).2 - 2 = (f.unpackMagnitude mag).2 - 1 - 1 by omega,
            ← dyadic_half (2 * (f.unpackMagnitude mag).1 - 1), dyadic_lt_iff, heq]
          simp only
          omega
        rcases le_or_gt (dyadic (2 ^ f.manBits) (f.unpackMagnitude mag).2) (dyadic n e) with hge | hbelow
        · refine f.packMagnitude_of_quantum hfinite ?_ hnear hhigh
          refine f.quantum_eq hn ?_ hge hceiling
          rw [heq]
          simp only
          omega
        · rw [heq, Nat.zero_add] at hlow hbelow
          exact f.packMagnitude_below_power hfinite hn hfield (by rw [heq, Nat.zero_add]) hlow hbelow
      · rw [lowerMidpoint, if_neg (by rw [hcloser]; omega)] at hlow
        refine f.packMagnitude_of_quantum hfinite ?_ hlow hhigh
        refine f.quantum_eq hn ?_ ?_ hceiling
        · rw [heq]
          simp only
          omega
        · refine le_of_lt (lt_of_le_of_lt ?_ hlow)
          rw [← dyadic_half, dyadic_le_iff, heq]
          simp only
          omega

/-- A quotient with its remainder kept as one bit is on the same side of every whole number. -/
theorem sticky_bounds (scaled : Nat) {den : Nat} (b : Nat) (hden : 0 < den) :
    (b * den < scaled → 2 * b < 2 * (scaled / den) + if scaled % den = 0 then 0 else 1) ∧
      (scaled < b * den → (2 * (scaled / den) + if scaled % den = 0 then 0 else 1) < 2 * b) := by
  have hdivision := Nat.div_add_mod scaled den
  have hmod := Nat.mod_lt scaled hden
  generalize scaled / den = d at hdivision ⊢
  generalize scaled % den = rest at hdivision hmod ⊢
  subst hdivision
  constructor
  · intro hlt
    have hle : b ≤ d := by
      by_contra hge
      have := Nat.mul_le_mul_right den (Nat.lt_of_not_le hge)
      rw [Nat.succ_mul] at this
      nlinarith
    rcases Nat.lt_or_ge b d with hless | hge
    · split <;> omega
    · have heq : b = d := by omega
      subst heq
      rw [if_neg (by rw [Nat.mul_comm] at hlt; omega)]
      omega
  · intro hlt
    have hless : d < b := by
      by_contra hge
      have := Nat.mul_le_mul_right den (Nat.le_of_not_lt hge)
      nlinarith
    split <;> omega

theorem dyadic_lt_ratio {b num den shift : Nat} (hden : 0 < den) :
    dyadic b (-(shift : Int)) < (num : ℚ) / den ↔ b * den < num * 2 ^ shift := by
  have hpositive : (0 : ℚ) < den := by exact_mod_cast hden
  have hpower : (0 : ℚ) < 2 ^ shift := by positivity
  rw [dyadic, zpow_neg, zpow_natCast, ← div_eq_mul_inv, div_lt_div_iff₀ hpower hpositive]
  exact_mod_cast Iff.rfl

theorem ratio_lt_dyadic {b num den shift : Nat} (hden : 0 < den) :
    (num : ℚ) / den < dyadic b (-(shift : Int)) ↔ num * 2 ^ shift < b * den := by
  have hpositive : (0 : ℚ) < den := by exact_mod_cast hden
  have hpower : (0 : ℚ) < 2 ^ shift := by positivity
  rw [dyadic, zpow_neg, zpow_natCast, ← div_eq_mul_inv, div_lt_div_iff₀ hpositive hpower]
  exact_mod_cast Iff.rfl

/-- Both midpoints are on the grid of the kept quotient. -/
theorem ofRatio_grid {mag num den : Nat} (hnum : num ≠ 0) (hden : 0 < den)
    (hhigh : (num : ℚ) / den < f.upperMidpoint mag) :
    -((den.log2 + f.manBits + 4 : Nat) : Int) ≤ (f.unpackMagnitude mag).2 - 2 := by
  have hsmall : (2 : ℚ) ^ (-((den.log2 + 1 : Nat) : Int)) < (num : ℚ) / den := by
    have hone : (2 : ℚ) ^ (-((den.log2 + 1 : Nat) : Int)) = dyadic 1 (-((den.log2 + 1 : Nat) : Int)) := by
      simp [dyadic]
    rw [hone, dyadic_lt_ratio hden, Nat.one_mul]
    calc den < 2 ^ (den.log2 + 1) := Nat.lt_log2_self
      _ ≤ num * 2 ^ (den.log2 + 1) := Nat.le_mul_of_pos_left _ (Nat.pos_of_ne_zero hnum)
  have hlarge : f.upperMidpoint mag ≤ 2 ^ ((f.unpackMagnitude mag).2 + (f.manBits + 1 : Nat)) := by
    have hbound := f.unpackMagnitude_lt mag
    rw [upperMidpoint, ← dyadic_two_pow, ← dyadic_half (2 ^ (f.manBits + 1)), dyadic_le_iff]
    omega
  have hexp := (zpow_lt_zpow_iff_right₀ (by norm_num : (1 : ℚ) < 2)).mp
    (lt_of_lt_of_le (lt_trans hsmall hhigh) hlarge)
  omega

/-- A quotient strictly between the midpoints of a finite datum is rounded to it. -/
theorem ofRatio_of_between {mag num den : Nat} (negative : Bool) (hfinite : mag < f.infinity) (hnum : num ≠ 0)
    (hden : 0 < den) (hlow : f.lowerMidpoint mag < (num : ℚ) / den)
    (hhigh : (num : ℚ) / den < f.upperMidpoint mag) :
    f.ofRatio negative num den = (if negative then f.signBit else 0) + mag := by
  have hgrid := f.ofRatio_grid hnum hden hhigh
  unfold ofRatio pack
  generalize den.log2 + f.manBits + 4 = shift at hgrid ⊢
  simp only
  generalize hkept : 2 * (num * 2 ^ shift / den) + (if num * 2 ^ shift % den = 0 then 0 else 1) = kept
  have hside (b : Nat) (j : Int) (hj : -(shift : Int) ≤ j) :
      (dyadic b j < (num : ℚ) / den → dyadic b j < dyadic kept (-(shift + 1 : Nat))) ∧
        ((num : ℚ) / den < dyadic b j → dyadic kept (-(shift + 1 : Nat)) < dyadic b j) := by
    obtain ⟨k, rfl⟩ : ∃ k : Nat, j = -(shift : Int) + k := ⟨(j + shift).toNat, by omega⟩
    have hcoarse : dyadic b (-(shift : Int) + k) = dyadic (b * 2 ^ k) (-(shift : Int)) := by
      rw [← dyadic_shift b _ k]
      congr 1
      omega
    have hfine : dyadic (b * 2 ^ k) (-(shift : Int)) = dyadic (2 * (b * 2 ^ k)) (-(shift + 1 : Nat)) := by
      rw [← dyadic_half]
      congr 1
      omega
    have hbounds := sticky_bounds (num * 2 ^ shift) (b * 2 ^ k) hden
    rw [hkept] at hbounds
    rw [hcoarse, dyadic_lt_ratio hden, ratio_lt_dyadic hden, hfine, dyadic_lt_iff, dyadic_lt_iff]
    exact hbounds
  have hlow' : f.lowerMidpoint mag < dyadic kept (-(shift + 1 : Nat)) := by
    unfold lowerMidpoint at hlow ⊢
    by_cases hcloser : f.LowerIsCloser mag
    · rw [if_pos hcloser] at hlow ⊢
      exact (hside _ _ hgrid).1 hlow
    · rw [if_neg hcloser] at hlow ⊢
      exact (hside _ _ (by omega)).1 hlow
  have hhigh' : dyadic kept (-(shift + 1 : Nat)) < f.upperMidpoint mag := (hside _ _ (by omega)).2 hhigh
  have hkept_ne : kept ≠ 0 := by
    have hscaled : 0 < num * 2 ^ shift := Nat.mul_pos (Nat.pos_of_ne_zero hnum) (Nat.two_pow_pos _)
    have hzero := (sticky_bounds (num * 2 ^ shift) 0 hden).1 (by omega)
    omega
  rw [if_neg hkept_ne, f.packMagnitude_of_between hfinite hkept_ne hlow' hhigh']

/-- The datum nearest to `m * 10 ^ x`. -/
def ofDecimal (negative : Bool) (m : Nat) (x : Int) : Nat :=
  if 0 ≤ x then f.ofRatio negative (m * 10 ^ x.toNat) 1 else f.ofRatio negative m (10 ^ (-x).toNat)

theorem ofDecimal_zero (negative : Bool) (x : Int) :
    f.ofDecimal negative 0 x = if negative then f.signBit else 0 := by
  simp [ofDecimal, ofRatio, pack]

theorem ofDecimal_of_between {mag m : Nat} {x : Int} (negative : Bool) (hfinite : mag < f.infinity) (hm : m ≠ 0)
    (hlow : f.lowerMidpoint mag < m * (10 : ℚ) ^ x) (hhigh : m * (10 : ℚ) ^ x < f.upperMidpoint mag) :
    f.ofDecimal negative m x = (if negative then f.signBit else 0) + mag := by
  unfold ofDecimal
  split
  · rename_i hx
    have hvalue : m * (10 : ℚ) ^ x = ((m * 10 ^ x.toNat : Nat) : ℚ) / (1 : Nat) := by
      obtain ⟨k, rfl⟩ := Int.eq_ofNat_of_zero_le hx
      push_cast
      simp
    rw [hvalue] at hlow hhigh
    exact f.ofRatio_of_between negative hfinite (Nat.mul_ne_zero hm (by positivity)) (by omega) hlow hhigh
  · rename_i hx
    have hvalue : m * (10 : ℚ) ^ x = (m : ℚ) / ((10 ^ (-x).toNat : Nat) : ℚ) := by
      obtain ⟨k, hk⟩ := Int.eq_ofNat_of_zero_le (show 0 ≤ -x by omega)
      obtain rfl : x = -(k : Int) := by omega
      push_cast
      simp [zpow_neg, div_eq_mul_inv]
    rw [hvalue] at hlow hhigh
    exact f.ofRatio_of_between negative hfinite hm (Nat.pow_pos (by omega)) hlow hhigh

end FloatFormat

end Basis
