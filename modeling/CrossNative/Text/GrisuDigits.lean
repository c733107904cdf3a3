import CrossNative.Text.Grisu

/-!
# Digit generation stays inside the interval

The digits of `M+` are produced from the left until what is left over is not more than
`M+ - M-`; the last digit is then lowered towards `w`. No assertion on the way fails, no
unsigned operation wraps, and there are at most seventeen digits.
-/

namespace CrossNative.Text

set_option autoImplicit false

open Basis

theorem jsonAssert_of {p : Prop} [Decidable p] (h : p) : jsonAssert p = some () := if_pos h

theorem u64_of_lt {n : Nat} (h : n < 2 ^ 64) : u64 n = n := Nat.mod_eq_of_lt h

/-- A digit string whose value, in units of the last place of the interval, lies in it. -/
structure DigitsOf (low high one : Nat) (digits : List UInt8) (x : Int) : Prop where
  canonical : IsCanonical digits
  length_le : digits.length ≤ 17
  ge : (low : ℚ) ≤ decimalValue digits * 10 ^ x * one
  le : decimalValue digits * 10 ^ x * one ≤ (high : ℚ)

/-- All digits stand before the decimal point. -/
theorem DigitsOf.of_integral {low high one rest n : Nat} {digits : List UInt8} (hcanonical : IsCanonical digits)
    (hlength : digits.length ≤ 17) (hvalue : decimalValue digits * 10 ^ n * one + rest = high)
    (hlow : low ≤ high) (hrest : rest ≤ high - low) : DigitsOf low high one digits n := by
  refine ⟨hcanonical, hlength, ?_, ?_⟩
  · rw [zpow_natCast]
    have hge : low ≤ decimalValue digits * 10 ^ n * one := by omega
    exact_mod_cast hge
  · rw [zpow_natCast]
    have hle : decimalValue digits * 10 ^ n * one ≤ high := by omega
    exact_mod_cast hle

/-- The last `m` digits stand behind the decimal point. -/
theorem DigitsOf.of_fraction {low high one rest m : Nat} {digits : List UInt8} (hcanonical : IsCanonical digits)
    (hlength : digits.length ≤ 17) (hvalue : decimalValue digits * one + rest = high * 10 ^ m)
    (hlow : low ≤ high) (hrest : rest ≤ (high - low) * 10 ^ m) : DigitsOf low high one digits (-(m : Int)) := by
  have hpow : (0 : ℚ) < 10 ^ m := by positivity
  have hsplit : high * 10 ^ m = low * 10 ^ m + (high - low) * 10 ^ m := by
    rw [← Nat.add_mul, Nat.add_sub_cancel' hlow]
  refine ⟨hcanonical, hlength, ?_, ?_⟩
  · rw [zpow_neg, zpow_natCast, mul_right_comm, ← div_eq_mul_inv, le_div_iff₀ hpow]
    have hge : low * 10 ^ m ≤ decimalValue digits * one := by omega
    exact_mod_cast hge
  · rw [zpow_neg, zpow_natCast, mul_right_comm, ← div_eq_mul_inv, div_le_iff₀ hpow]
    have hle : decimalValue digits * one ≤ high * 10 ^ m := by omega
    exact_mod_cast hle

theorem decrementLast_digit {buffer : List UInt8} {d : Nat} (hd : d + 1 ≤ 9) :
    decrementLast (buffer ++ [digitChar (d + 1)]) = some (buffer ++ [digitChar d]) := by
  have hne : digitChar (d + 1) ≠ 0x30 := by
    intro hzero
    have hnat := digitChar_toNat hd
    rw [hzero] at hnat
    have hzero' : (0x30 : UInt8).toNat = 48 := rfl
    omega
  have hpred : digitChar (d + 1) - 1 = digitChar d := by
    apply UInt8.toNat_inj.mp
    rw [UInt8.toNat_sub_of_le]
    · rw [digitChar_toNat hd, digitChar_toNat (by omega)]
      simp
    · rw [UInt8.le_iff_toNat_le, digitChar_toNat hd]
      have hone : (1 : UInt8).toNat = 1 := rfl
      omega
  simp [decrementLast, jsonAssert_of hne, hpred]

/-- Lowering the last digit moves the value down, and it stops before the digit is zero. -/
theorem roundLoop_spec {dist delta tenK : Nat} (hdelta : delta < 2 ^ 64)
    (buffer : List UInt8) {d rounds rest : Nat} (hd : d ≤ 9) (hrounds : d < rounds) (hrest : rest ≤ delta)
    (hlast : delta < rest + d * tenK) :
    ∃ t, t < d ∧ rest + t * tenK ≤ delta ∧
      roundLoop dist delta tenK rounds (buffer ++ [digitChar d]) rest = some (buffer ++ [digitChar (d - t)]) := by
  induction d generalizing rounds rest with
  | zero => omega
  | succ d ih =>
    obtain ⟨rounds, rfl⟩ : ∃ r, rounds = r + 1 := ⟨rounds - 1, by omega⟩
    simp only [roundLoop]
    split
    · rename_i hcloser
      have hsum : u64 (rest + tenK) = rest + tenK := u64_of_lt (by omega)
      rw [Nat.succ_mul] at hlast
      obtain ⟨t, ht, hle, hresult⟩ := @ih rounds (rest + tenK) (by omega) (by omega)
        (by omega) (by omega)
      refine ⟨t + 1, by omega, ?_, ?_⟩
      · rw [Nat.succ_mul]
        omega
      · rw [decrementLast_digit hd, hsum]
        simpa using hresult
    · exact ⟨0, by omega, by simpa using hrest, rfl⟩

theorem grisu2Round_spec (dist delta tenK rest d : Nat) (hdelta : delta < 2 ^ 64) (hten : 0 < tenK)
    (buffer : List UInt8) (hd : d ≤ 9) (hdist : dist ≤ delta) (hrest : rest ≤ delta)
    (hlast : delta < rest + d * tenK) :
    ∃ t, t < d ∧ rest + t * tenK ≤ delta ∧
      grisu2Round (buffer ++ [digitChar d]) dist delta rest tenK = some (buffer ++ [digitChar (d - t)]) := by
  have hlength : 1 ≤ (buffer ++ [digitChar d]).length := by simp
  simp only [grisu2Round, jsonAssert_of hlength, jsonAssert_of hdist, jsonAssert_of hrest, jsonAssert_of hten]
  exact roundLoop_spec hdelta buffer hd (by omega) hrest hlast

section Generation

variable {low high shift dist k : Nat} (hlow : low ≤ high) (hwidth : high ≤ (high - low) * 10 ^ 16)
  (hdist : dist ≤ high - low) (hshift : shift ≤ 60) (hk : 0 < k) (hhigh : 10 ^ (k - 1) * 2 ^ shift ≤ high)

include hwidth hk hhigh

/-- While the rest is more than the width of the interval there is room for another digit. -/
theorem digits_lt_seventeen {m p2 : Nat} (hp2 : p2 < 2 ^ shift) (hrest : (high - low) * 10 ^ m < p2) :
    k + m ≤ 16 := by
  have hpow : 0 < 10 ^ (k - 1) := Nat.pow_pos (by omega)
  have hchain : (high - low) * 10 ^ (m + (k - 1)) < (high - low) * 10 ^ 16 := by
    calc (high - low) * 10 ^ (m + (k - 1)) = (high - low) * 10 ^ m * 10 ^ (k - 1) := by
          rw [Nat.pow_add, Nat.mul_assoc]
      _ < 2 ^ shift * 10 ^ (k - 1) := Nat.mul_lt_mul_of_pos_right (by omega) hpow
      _ = 10 ^ (k - 1) * 2 ^ shift := Nat.mul_comm _ _
      _ ≤ high := hhigh
      _ ≤ (high - low) * 10 ^ 16 := hwidth
  have hexp := (Nat.pow_lt_pow_iff_right (by omega : 1 < 10)).mp (Nat.lt_of_mul_lt_mul_left hchain)
  omega

include hlow hdist hshift

theorem fractionalDigits_spec (x : Int) (rounds : Nat) {m p2 : Nat} {buffer : List UInt8}
    (hvalue : decimalValue buffer * 2 ^ shift + p2 = high * 10 ^ m) (hp2 : p2 < 2 ^ shift)
    (hrest : (high - low) * 10 ^ m < p2) (hbuffer : IsCanonical buffer) (hlength : buffer.length = k + m)
    (hrounds : 17 ≤ rounds + m) :
    ∃ digits y, fractionalDigits shift x rounds m p2 ((high - low) * 10 ^ m) (dist * 10 ^ m) buffer =
      some (digits, x + y) ∧ DigitsOf low high (2 ^ shift) digits y := by
  induction rounds generalizing m p2 buffer with
  | zero =>
    have := digits_lt_seventeen hwidth hk hhigh hp2 hrest
    omega
  | succ rounds ih =>
    have hroom := digits_lt_seventeen hwidth hk hhigh hp2 hrest
    have hone : 0 < 2 ^ shift := Nat.two_pow_pos shift
    have hsmall : 2 ^ shift ≤ 2 ^ 60 := Nat.pow_le_pow_right (by omega) hshift
    have hassert : p2 ≤ (2 ^ 64 - 1) / 10 := by omega
    have hten : u64 (p2 * 10) = p2 * 10 := u64_of_lt (by omega)
    have hdelta : u64 ((high - low) * 10 ^ m * 10) = (high - low) * 10 ^ (m + 1) := by
      rw [u64_of_lt (by omega), Nat.pow_succ, Nat.mul_assoc]
    have hscaled : dist * 10 ^ m ≤ (high - low) * 10 ^ m := Nat.mul_le_mul_right _ hdist
    have hdist' : u64 (dist * 10 ^ m * 10) = dist * 10 ^ (m + 1) := by
      rw [u64_of_lt (by omega), Nat.pow_succ, Nat.mul_assoc]
    have hunit : u64 (2 ^ shift) = 2 ^ shift := u64_of_lt (by omega)
    have hdigit : p2 * 10 / 2 ^ shift ≤ 9 := by
      have := (Nat.div_lt_iff_lt_mul hone).mpr (show p2 * 10 < 10 * 2 ^ shift by omega)
      omega
    have hmod := Nat.mod_lt (p2 * 10) hone
    have hdivision := Nat.div_add_mod (p2 * 10) (2 ^ shift)
    simp only [fractionalDigits, jsonAssert_of hassert, hten, jsonAssert_of hdigit, hdelta, hdist', hunit]
    have hstep : (high - low) * 10 ^ (m + 1) < p2 * 10 := by
      rw [Nat.pow_succ, ← Nat.mul_assoc]
      omega
    have hnext : high * 10 ^ (m + 1) = decimalValue buffer * 10 * 2 ^ shift + p2 * 10 := by
      rw [Nat.pow_succ, ← Nat.mul_assoc, ← hvalue]
      ring
    generalize p2 * 10 / 2 ^ shift = d at hdigit hdivision ⊢
    generalize p2 * 10 % 2 ^ shift = r at hmod hdivision ⊢
    have hvalue' : decimalValue (buffer ++ [digitChar d]) * 2 ^ shift + r = high * 10 ^ (m + 1) := by
      rw [hnext, decimalValue_concat, digitValue_digitChar hdigit, ← hdivision]
      ring
    have hlength' (c : UInt8) : (buffer ++ [c]).length = k + (m + 1) := by
      rw [List.length_append, hlength, List.length_singleton, Nat.add_assoc]
    by_cases hstop : r ≤ (high - low) * 10 ^ (m + 1)
    · obtain ⟨t, ht, hle, hround⟩ := grisu2Round_spec (dist * 10 ^ (m + 1)) ((high - low) * 10 ^ (m + 1))
        (2 ^ shift) r d (by omega) hone buffer hdigit
        (Nat.mul_le_mul_right _ hdist) hstop (by rw [Nat.mul_comm d]; omega)
      refine ⟨buffer ++ [digitChar (d - t)], -((m + 1 : Nat) : Int), ?_, ?_⟩
      · simp only [Option.bind_eq_bind, Option.bind_some, if_pos hstop, hround, Option.some.injEq, Prod.mk.injEq,
          true_and]
        omega
      · have hresult : decimalValue (buffer ++ [digitChar (d - t)]) * 2 ^ shift + (r + t * 2 ^ shift) =
            high * 10 ^ (m + 1) := by
          rw [← hvalue', decimalValue_concat, decimalValue_concat, digitValue_digitChar hdigit,
            digitValue_digitChar (by omega)]
          have hsplit : d * 2 ^ shift = (d - t) * 2 ^ shift + t * 2 ^ shift := by
            rw [← Nat.add_mul, Nat.sub_add_cancel (Nat.le_of_lt ht)]
          rw [Nat.add_mul, Nat.add_mul, hsplit]
          ring
        exact .of_fraction (hbuffer.concat (by omega)) (by rw [hlength']; omega) hresult hlow hle
    · obtain ⟨digits, y, hresult, hgood⟩ := ih (m := m + 1) hvalue'
        hmod (by omega) (hbuffer.concat hdigit) (hlength' _) (by omega)
      refine ⟨digits, y, ?_, hgood⟩
      simpa [hstop] using hresult

/-- Before the first digit `p1` still has all of its `k` digits. -/
def NotEmpty (buffer : List UInt8) (n p1 : Nat) : Prop :=
  buffer = [] ∧ 0 < n ∧ 10 ^ (n - 1) ≤ p1 ∨ IsCanonical buffer

omit hlow hwidth hdist hshift hk hhigh in
theorem NotEmpty.concat {buffer : List UInt8} {n p1 d : Nat} (h : NotEmpty buffer (n + 1) p1) (hd : d ≤ 9)
    (hfirst : 10 ^ n ≤ p1 → 0 < d) : IsCanonical (buffer ++ [digitChar d]) := by
  rcases h with ⟨rfl, -, hp1⟩ | hbuffer
  · exact .digit (hfirst hp1) hd
  · exact hbuffer.concat hd

theorem integralDigits_spec (x : Int) (hword : high < 2 ^ 64) (hfew : k ≤ 10) {n p1 p2 pow10 : Nat}
    {buffer : List UInt8} (hvalue : (decimalValue buffer * 10 ^ n + p1) * 2 ^ shift + p2 = high)
    (hp1 : p1 < 10 ^ n) (hp2 : p2 < 2 ^ shift) (hrest : high - low < p1 * 2 ^ shift + p2)
    (hbuffer : NotEmpty buffer n p1) (hlength : buffer.length + n = k) (hpow10 : n ≠ 0 → pow10 = 10 ^ (n - 1)) :
    ∃ digits y, integralDigits shift p2 (high - low) dist x n p1 pow10 buffer = some (digits, x + y) ∧
      DigitsOf low high (2 ^ shift) digits y := by
  induction n generalizing p1 pow10 buffer with
  | zero =>
    have hzero : p1 = 0 := by omega
    subst hzero
    have hcanonical : IsCanonical buffer := by
      rcases hbuffer with ⟨-, hpos, -⟩ | hcanonical
      · omega
      · exact hcanonical
    have hassert : high - low < p2 := by omega
    have hspec := fractionalDigits_spec (m := 0) hlow hwidth hdist hshift hk hhigh x 20
      (by simpa using hvalue) hp2 (by simpa using hassert) hcanonical (by omega) (by omega)
    simpa [integralDigits, jsonAssert_of hassert] using hspec
  | succ n ih =>
    have hone : 0 < 2 ^ shift := Nat.two_pow_pos shift
    have hten : 0 < 10 ^ n := Nat.pow_pos (by omega)
    have hpow : pow10 = 10 ^ n := hpow10 (by omega)
    subst hpow
    have hdigit : p1 / 10 ^ n ≤ 9 := by
      rw [Nat.pow_succ, Nat.mul_comm] at hp1
      have := (Nat.div_lt_iff_lt_mul hten).mpr hp1
      omega
    have hfirst (h : 10 ^ n ≤ p1) : 0 < p1 / 10 ^ n := Nat.div_pos h hten
    have hdivision := Nat.div_add_mod p1 (10 ^ n)
    have hmod := Nat.mod_lt p1 hten
    have hcanonical := hbuffer.concat hdigit hfirst
    simp only [integralDigits, jsonAssert_of hdigit]
    generalize p1 / 10 ^ n = d at hdigit hdivision hcanonical ⊢
    generalize p1 % 10 ^ n = r at hmod hdivision ⊢
    subst hdivision
    have hunit : 10 ^ n * 2 ^ shift ≤ high :=
      Nat.le_trans (Nat.mul_le_mul_right _ (Nat.pow_le_pow_right (by omega) (by omega))) hhigh
    have hvalue' : (decimalValue (buffer ++ [digitChar d]) * 10 ^ n + r) * 2 ^ shift + p2 = high := by
      rw [← hvalue, decimalValue_concat, digitValue_digitChar hdigit, Nat.pow_succ]
      ring
    have hbound : r * 2 ^ shift + p2 ≤ high := by
      rw [← hvalue', Nat.add_mul]
      omega
    have hleft : u64 (u64 (r * 2 ^ shift) + p2) = r * 2 ^ shift + p2 := by
      rw [u64_of_lt (show r * 2 ^ shift < 2 ^ 64 by omega), u64_of_lt (by omega)]
    have hscale : u64 (10 ^ n * 2 ^ shift) = 10 ^ n * 2 ^ shift := u64_of_lt (by omega)
    rw [hleft, hscale]
    have hlength' (c : UInt8) : (buffer ++ [c]).length + n = k := by
      rw [List.length_append, List.length_singleton]
      omega
    by_cases hstop : r * 2 ^ shift + p2 ≤ high - low
    · have hlast : high - low < r * 2 ^ shift + p2 + d * (10 ^ n * 2 ^ shift) := by
        refine Nat.lt_of_lt_of_eq hrest ?_
        ring
      obtain ⟨t, ht, hle, hround⟩ := grisu2Round_spec dist (high - low) (10 ^ n * 2 ^ shift) (r * 2 ^ shift + p2) d
        (by omega) (Nat.mul_pos hten hone) buffer hdigit hdist hstop hlast
      refine ⟨buffer ++ [digitChar (d - t)], n, ?_, ?_⟩
      · simp only [Option.bind_eq_bind, Option.bind_some, if_pos hstop, hround]
      · have hlowered := hbuffer.concat (d := d - t) (by omega) (by omega)
        refine .of_integral hlowered ?_ ?_ hlow hle
        · have := hlength' (digitChar (d - t))
          omega
        · rw [← hvalue', decimalValue_concat, decimalValue_concat, digitValue_digitChar hdigit,
            digitValue_digitChar (by omega)]
          have hsplit : d * (10 ^ n * 2 ^ shift) = (d - t) * (10 ^ n * 2 ^ shift) + t * (10 ^ n * 2 ^ shift) := by
            rw [← Nat.add_mul, Nat.sub_add_cancel (Nat.le_of_lt ht)]
          calc (decimalValue buffer * 10 + (d - t)) * 10 ^ n * 2 ^ shift +
                (r * 2 ^ shift + p2 + t * (10 ^ n * 2 ^ shift))
              = decimalValue buffer * 10 * 10 ^ n * 2 ^ shift +
                  ((d - t) * (10 ^ n * 2 ^ shift) + t * (10 ^ n * 2 ^ shift)) + (r * 2 ^ shift + p2) := by ring
            _ = ((decimalValue buffer * 10 + d) * 10 ^ n + r) * 2 ^ shift + p2 := by
                rw [← hsplit]
                ring
    · have hnext : n ≠ 0 → 10 ^ n / 10 = 10 ^ (n - 1) := by
        intro hn
        obtain ⟨n, rfl⟩ : ∃ j, n = j + 1 := ⟨n - 1, by omega⟩
        rw [Nat.pow_succ, Nat.mul_div_cancel _ (by omega), Nat.add_sub_cancel]
      obtain ⟨digits, y, hresult, hgood⟩ := ih hvalue' hmod (by omega) (Or.inr hcanonical) (hlength' _) hnext
      refine ⟨digits, y, ?_, hgood⟩
      simpa [hstop] using hresult

end Generation

theorem findLargestPow10_spec {n : Nat} (hpos : 0 < n) (hword : n < 2 ^ 32) :
    let (k, pow10) := findLargestPow10 n
    0 < k ∧ k ≤ 10 ∧ pow10 = 10 ^ (k - 1) ∧ 10 ^ (k - 1) ≤ n ∧ n < 10 ^ k := by
  unfold findLargestPow10
  split_ifs <;> (norm_num; omega)

/-- The whole generator, on an interval that is wide enough for seventeen digits. -/
theorem grisu2DigitGen_spec (x : Int) (mMinus w mPlus : Diyfp) (hminus : mPlus.e = mMinus.e) (hw : mPlus.e = w.e)
    (halpha : kAlpha ≤ mPlus.e) (hgamma : mPlus.e ≤ kGamma) (hlow : mMinus.f ≤ w.f) (hpos : 0 < mMinus.f)
    (hhigh : w.f ≤ mPlus.f) (hbig : 2 ^ 60 ≤ mPlus.f) (hword : mPlus.f < 2 ^ 64)
    (hwidth : mPlus.f ≤ (mPlus.f - mMinus.f) * 10 ^ 16) :
    ∃ digits y, grisu2DigitGen x mMinus w mPlus = some (digits, x + y) ∧
      DigitsOf mMinus.f mPlus.f (2 ^ (-mPlus.e).toNat) digits y := by
  have hshift : 32 ≤ (-mPlus.e).toNat ∧ (-mPlus.e).toNat ≤ 60 := by
    unfold kAlpha at halpha
    unfold kGamma at hgamma
    omega
  simp only [grisu2DigitGen, Diyfp.sub, jsonAssert_of halpha, jsonAssert_of hgamma, jsonAssert_of hminus,
    jsonAssert_of hw, jsonAssert_of (Nat.le_trans hlow hhigh), jsonAssert_of hhigh, Option.bind_eq_bind,
    Option.bind_some]
  generalize (-mPlus.e).toNat = shift at hshift ⊢
  have hone : 0 < 2 ^ shift := Nat.two_pow_pos shift
  have hp1 : mPlus.f / 2 ^ shift % 2 ^ 32 = mPlus.f / 2 ^ shift := by
    apply Nat.mod_eq_of_lt
    rw [Nat.div_lt_iff_lt_mul hone]
    calc mPlus.f < 2 ^ 32 * 2 ^ 32 := by omega
      _ ≤ 2 ^ 32 * 2 ^ shift := Nat.mul_le_mul_left _ (Nat.pow_le_pow_right (by omega) hshift.1)
  have hp1_pos : 0 < mPlus.f / 2 ^ shift := by
    apply Nat.div_pos _ hone
    exact Nat.le_trans (Nat.pow_le_pow_right (by omega) hshift.2) hbig
  have hp1_lt : mPlus.f / 2 ^ shift < 2 ^ 32 := by
    rw [← hp1]
    exact Nat.mod_lt _ (by omega)
  rw [hp1, jsonAssert_of hp1_pos]
  have hdivision := Nat.div_add_mod mPlus.f (2 ^ shift)
  have hmod := Nat.mod_lt mPlus.f hone
  have hfind := findLargestPow10_spec hp1_pos hp1_lt
  generalize findLargestPow10 (mPlus.f / 2 ^ shift) = largest at hfind ⊢
  obtain ⟨k, pow10⟩ := largest
  obtain ⟨hk, hk10, hpow10, hge, hlt⟩ := hfind
  generalize mPlus.f / 2 ^ shift = p1 at *
  generalize mPlus.f % 2 ^ shift = p2 at *
  have hsum : p1 * 2 ^ shift + p2 = mPlus.f := by
    rw [Nat.mul_comm]
    exact hdivision
  have hleading : 10 ^ (k - 1) * 2 ^ shift ≤ mPlus.f := by
    rw [← hsum]
    exact Nat.le_trans (Nat.mul_le_mul_right _ hge) (Nat.le_add_right _ _)
  exact integralDigits_spec (Nat.le_trans hlow hhigh) hwidth (by omega) hshift.2 hk hleading x hword hk10
    (by simpa using hsum) hlt hmod (by omega) (Or.inl ⟨rfl, hk, hge⟩) (by simp) (by intro _; exact hpow10)

end CrossNative.Text
