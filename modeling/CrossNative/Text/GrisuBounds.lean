import CrossNative.Text.GrisuDigits

/-!
# The boundaries, scaled by a cached power of ten

`M-` and `M+` are the scaled boundaries moved inwards by one unit. The product is off by
less than half a unit through the rounded power and by at most half a unit through its own
rounding, so that all of `[M-, M+]` lies strictly between the boundaries.
-/

namespace CrossNative.Text

set_option autoImplicit false

open Basis

/-- The four products of halves, added up and rounded, are the rounded product. -/
theorem Diyfp.mul_f {x y : Diyfp} (hx : x.f < 2 ^ 64) (hy : y.f < 2 ^ 64) :
    (x.mul y).f = (x.f * y.f + 2 ^ 63) / 2 ^ 64 := by
  have hxsplit : x.f = x.f % 2 ^ 32 + 2 ^ 32 * (x.f / 2 ^ 32) := by omega
  have hysplit : y.f = y.f % 2 ^ 32 + 2 ^ 32 * (y.f / 2 ^ 32) := by omega
  have hxl : x.f % 2 ^ 32 ≤ 2 ^ 32 - 1 := by omega
  have hyl : y.f % 2 ^ 32 ≤ 2 ^ 32 - 1 := by omega
  have hxh : x.f / 2 ^ 32 ≤ 2 ^ 32 - 1 := by omega
  have hyh : y.f / 2 ^ 32 ≤ 2 ^ 32 - 1 := by omega
  simp only [Diyfp.mul, u64]
  generalize x.f % 2 ^ 32 = ul at *
  generalize x.f / 2 ^ 32 = uh at *
  generalize y.f % 2 ^ 32 = vl at *
  generalize y.f / 2 ^ 32 = vh at *
  have hproduct : x.f * y.f = ul * vl + 2 ^ 32 * (ul * vh + uh * vl) + 2 ^ 64 * (uh * vh) := by
    rw [hxsplit, hysplit]
    ring
  have h0 := Nat.mul_le_mul hxl hyl
  have h1 := Nat.mul_le_mul hxl hyh
  have h2 := Nat.mul_le_mul hxh hyl
  have h3 := Nat.mul_le_mul hxh hyh
  rw [hproduct]
  generalize ul * vl = p0 at *
  generalize ul * vh = p1 at *
  generalize uh * vl = p2 at *
  generalize uh * vh = p3 at *
  omega

theorem Diyfp.mul_e (x y : Diyfp) : (x.mul y).e = x.e + y.e + 64 := rfl

theorem Diyfp.normalizeLoop_spec {p rounds : Nat} {x : Diyfp} (hp : p ≤ 63) (hrounds : 63 - p < rounds)
    (hlow : 2 ^ p ≤ x.f) (hhigh : x.f < 2 ^ (p + 1)) :
    normalizeLoop rounds x = some ⟨x.f * 2 ^ (63 - p), x.e - (63 - p : Nat)⟩ := by
  induction rounds generalizing p x with
  | zero => omega
  | succ rounds ih =>
    simp only [normalizeLoop]
    by_cases htop : p = 63
    · subst htop
      have hset : x.f / 2 ^ 63 ≠ 0 := by
        have := Nat.div_pos hlow (Nat.two_pow_pos 63)
        omega
      rw [if_neg hset]
      simp
    · have hsmall : 2 ^ (p + 1) ≤ 2 ^ 63 := Nat.pow_le_pow_right (by omega) (by omega)
      have hclear : x.f / 2 ^ 63 = 0 := Nat.div_eq_of_lt (by omega)
      have hdouble : u64 (x.f * 2) = x.f * 2 := u64_of_lt (by omega)
      rw [if_pos hclear, hdouble, ih (p := p + 1) (by omega) (by omega) (by rw [Nat.pow_succ]; simp only; omega)
        (by rw [Nat.pow_succ]; simp only; omega)]
      have hexp : 63 - p = 63 - (p + 1) + 1 := by omega
      simp only [Option.some.injEq, Diyfp.mk.injEq]
      refine ⟨?_, by omega⟩
      rw [hexp, Nat.pow_succ, Nat.mul_assoc, Nat.mul_comm 2]

theorem Diyfp.normalize_spec {p : Nat} {x : Diyfp} (hp : p ≤ 63) (hlow : 2 ^ p ≤ x.f) (hhigh : x.f < 2 ^ (p + 1)) :
    x.normalize = some ⟨x.f * 2 ^ (63 - p), x.e - (63 - p : Nat)⟩ := by
  have hne : x.f ≠ 0 := by
    have := Nat.two_pow_pos p
    omega
  simp only [normalize, jsonAssert_of hne]
  exact normalizeLoop_spec hp (by omega) hlow hhigh

/-- What `computeBoundaries` returns: the number and its two midpoints, with one exponent. -/
structure BoundariesOf (value : Nat) (b : Boundaries) : Prop where
  minus_e : b.plus.e = b.minus.e
  w_e : b.plus.e = b.w.e
  e_ge : -1137 ≤ b.plus.e
  e_le : b.plus.e ≤ 960
  upper : dyadic b.plus.f b.plus.e = FloatFormat.binary64.upperMidpoint value
  lower : dyadic b.minus.f b.plus.e = FloatFormat.binary64.lowerMidpoint value
  normal : 2 ^ 63 ≤ b.plus.f
  word : b.plus.f < 2 ^ 64
  below : b.minus.f + 512 ≤ b.w.f
  above : b.w.f + 512 ≤ b.plus.f
  width : b.plus.f ≤ (b.plus.f - b.minus.f) * 2 ^ 53
  minus_pos : 2 ^ 62 ≤ b.minus.f

/-- A positive finite double. -/
def PositiveFinite (value : Nat) : Prop := 0 < value ∧ value < FloatFormat.binary64.infinity

namespace PositiveFinite

variable {value : Nat}

theorem asserts (h : PositiveFinite value) :
    FloatFormat.binary64.IsFinite value ∧ 0 < value ∧ value < FloatFormat.binary64.signBit := by
  have hsign : FloatFormat.binary64.infinity < FloatFormat.binary64.signBit := by decide
  have hlt := Nat.lt_trans h.2 hsign
  refine ⟨?_, h.1, hlt⟩
  rw [FloatFormat.IsFinite, FloatFormat.magnitude, Nat.mod_eq_of_lt hlt]
  exact h.2

/-- The significand and the exponent of the source are those of the format. -/
theorem significand_eq_unpack (value : Nat) :
    (if value / kHiddenBit = 0 then (⟨value % kHiddenBit, kMinExp⟩ : Diyfp)
      else ⟨value % kHiddenBit + kHiddenBit, (value / kHiddenBit : Nat) - kBias⟩) =
        ⟨(FloatFormat.binary64.unpackMagnitude value).1, (FloatFormat.binary64.unpackMagnitude value).2⟩ := by
  have hquantum : FloatFormat.binary64.minQuantum = -1074 := by decide
  have hman : FloatFormat.binary64.manBits = 52 := rfl
  have hbit : kHiddenBit = 2 ^ 52 := rfl
  simp only [FloatFormat.unpackMagnitude, hquantum, hman, ← hbit]
  by_cases hzero : value / kHiddenBit = 0
  · rw [if_pos hzero, if_pos hzero]
    rfl
  · rw [if_neg hzero, if_neg hzero]
    simp only [Diyfp.mk.injEq, true_and, kBias]
    generalize value / kHiddenBit = field at hzero ⊢
    omega

theorem unpack_bounds (h : PositiveFinite value) :
    0 < (FloatFormat.binary64.unpackMagnitude value).1 ∧
      (FloatFormat.binary64.unpackMagnitude value).1 < 2 ^ 53 ∧
      -1074 ≤ (FloatFormat.binary64.unpackMagnitude value).2 ∧
      (FloatFormat.binary64.unpackMagnitude value).2 ≤ 971 := by
  obtain ⟨hpos, hlt⟩ := h
  have hquantum : FloatFormat.binary64.minQuantum = -1074 := by decide
  have hman : FloatFormat.binary64.manBits = 52 := rfl
  have hinfinity : FloatFormat.binary64.infinity = 2047 * 2 ^ 52 := by decide
  rw [hinfinity] at hlt
  simp only [FloatFormat.unpackMagnitude, hquantum, hman]
  split
  · simp only
    omega
  · simp only
    omega

end PositiveFinite

/-- Scaled by `2 ^ (62 - p)`, a significand with leading bit `p` and its midpoints fill 64 bits. -/
theorem scaled_significand {m p : Nat} (hp : p ≤ 52) (hlow : 2 ^ p ≤ m) (hhigh : m < 2 ^ (p + 1)) :
    2 ^ 62 ≤ m * 2 ^ (62 - p) ∧ m * 2 ^ (62 - p) + 2 ^ (62 - p) ≤ 2 ^ 63 ∧ 1024 ≤ 2 ^ (62 - p) := by
  have hfull : 2 ^ p * 2 ^ (62 - p) = 2 ^ 62 := by
    rw [← Nat.pow_add]
    congr 1
    omega
  have hdouble : 2 ^ (p + 1) * 2 ^ (62 - p) = 2 ^ 63 := by
    rw [← Nat.pow_add]
    congr 1
    omega
  refine ⟨?_, ?_, ?_⟩
  · rw [← hfull]
    exact Nat.mul_le_mul_right _ hlow
  · rw [← hdouble, ← Nat.succ_mul]
    exact Nat.mul_le_mul_right _ hhigh
  · exact Nat.pow_le_pow_right (show 0 < 2 by omega) (show 10 ≤ 62 - p by omega)

theorem normalizeTo_spec (x : Diyfp) (target : Int) (k : Nat) (htarget : x.e - target = k)
    (hword : x.f * 2 ^ k < 2 ^ 64) : x.normalizeTo target = some ⟨x.f * 2 ^ k, target⟩ := by
  have hshift : (x.e - target).toNat = k := by omega
  have hkeep : x.f * 2 ^ k / 2 ^ k = x.f := Nat.mul_div_cancel _ (Nat.two_pow_pos k)
  simp only [Diyfp.normalizeTo, jsonAssert_of (show 0 ≤ x.e - target by omega), hshift, u64_of_lt hword,
    jsonAssert_of hkeep, Option.bind_eq_bind, Option.bind_some]

theorem computeBoundaries_spec {value : Nat} (h : PositiveFinite value) :
    ∃ b, computeBoundaries value = some b ∧ BoundariesOf value b := by
  obtain ⟨hfinite, hpositive⟩ := h.asserts
  obtain ⟨hm, hm53, hemin, hemax⟩ := h.unpack_bounds
  have hmidpoints : FloatFormat.binary64.upperMidpoint value =
        dyadic (2 * (FloatFormat.binary64.unpackMagnitude value).1 + 1)
          ((FloatFormat.binary64.unpackMagnitude value).2 - 1) ∧
      FloatFormat.binary64.lowerMidpoint value =
        if value % kHiddenBit = 0 ∧ 1 < value / kHiddenBit then
          dyadic (4 * (FloatFormat.binary64.unpackMagnitude value).1 - 1)
            ((FloatFormat.binary64.unpackMagnitude value).2 - 2)
        else dyadic (2 * (FloatFormat.binary64.unpackMagnitude value).1 - 1)
          ((FloatFormat.binary64.unpackMagnitude value).2 - 1) := ⟨rfl, rfl⟩
  have hcloser : value % kHiddenBit = 0 ∧ 1 < value / kHiddenBit →
      (FloatFormat.binary64.unpackMagnitude value).1 = 2 ^ 52 := by
    rintro ⟨hrest, hfield⟩
    have hman : FloatFormat.binary64.manBits = 52 := rfl
    unfold kHiddenBit at hrest hfield
    simp only [FloatFormat.unpackMagnitude, hman, hrest]
    rw [if_neg (by omega)]
    rfl
  simp only [computeBoundaries, jsonAssert_of hfinite, jsonAssert_of hpositive, PositiveFinite.significand_eq_unpack, Option.bind_eq_bind,
    Option.bind_some]
  obtain ⟨hupper, hlower⟩ := hmidpoints
  generalize (FloatFormat.binary64.unpackMagnitude value).1 = m at *
  generalize (FloatFormat.binary64.unpackMagnitude value).2 = e at *
  have hlow : 2 ^ m.log2 ≤ m := Nat.log2_self_le (by omega)
  have hhigh : m < 2 ^ (m.log2 + 1) := Nat.lt_log2_self
  have hp : m.log2 ≤ 52 := by
    have := (Nat.log2_lt (by omega : m ≠ 0)).mpr hm53
    omega
  obtain ⟨hscaled, hscaled', hunit⟩ := scaled_significand hp hlow hhigh
  have hplus := Diyfp.normalize_spec (p := m.log2 + 1) (x := ⟨2 * m + 1, e - 1⟩) (by omega)
    (by rw [Nat.pow_succ]; simp only; omega) (by rw [Nat.pow_succ]; simp only; omega)
  have hself := Diyfp.normalize_spec (p := m.log2) (x := ⟨m, e⟩) (by omega) hlow hhigh
  have hexp : 63 - m.log2 = 62 - m.log2 + 1 := by omega
  have hexp' : 63 - (m.log2 + 1) = 62 - m.log2 := by omega
  rw [hexp] at hself
  rw [hexp'] at hplus
  rw [hplus, hself]
  have hw : m * 2 ^ (62 - m.log2 + 1) = 2 * (m * 2 ^ (62 - m.log2)) := by
    rw [Nat.pow_succ]
    ring
  have hp : (2 * m + 1) * 2 ^ (62 - m.log2) = 2 * (m * 2 ^ (62 - m.log2)) + 2 ^ (62 - m.log2) := by ring
  have hupper' : dyadic ((2 * m + 1) * 2 ^ (62 - m.log2)) (e - 1 - (62 - m.log2 : Nat)) =
      FloatFormat.binary64.upperMidpoint value := by
    rw [hupper]
    exact dyadic_shift _ _ _
  by_cases hc : value % kHiddenBit = 0 ∧ 1 < value / kHiddenBit
  · obtain rfl := hcloser hc
    have hlog : Nat.log2 (2 ^ 52) = 52 := by decide
    rw [hlog] at *
    rw [if_pos hc] at hlower
    have hminus := normalizeTo_spec ⟨4 * 2 ^ 52 - 1, e - 2⟩ (e - 1 - (62 - 52 : Nat)) 9
      (by simp only; omega) (by simp only; omega)
    rw [if_pos hc]
    simp only [Option.bind_some, hminus]
    refine ⟨_, rfl, rfl, by simp only; omega, by simp only; omega, by simp only; omega, hupper', ?_, ?_, ?_, ?_, ?_,
      ?_, ?_⟩
    · rw [hlower, ← dyadic_shift _ (e - 2) 9]
      congr 1
      simp only
      omega
    all_goals
      simp only
      omega
  · rw [if_neg hc] at hlower
    have hm1 : (2 * m - 1) * 2 ^ (62 - m.log2) + 2 ^ (62 - m.log2) = 2 * (m * 2 ^ (62 - m.log2)) := by
      rw [← Nat.succ_mul, show (2 * m - 1).succ = 2 * m by omega]
      ring
    have hminus := normalizeTo_spec ⟨2 * m - 1, e - 1⟩ (e - 1 - (62 - m.log2 : Nat)) (62 - m.log2)
      (by simp only; omega) (by simp only; omega)
    rw [if_neg hc]
    simp only [Option.bind_some, hminus]
    refine ⟨_, rfl, rfl, by simp only; omega, by simp only; omega, by simp only; omega, hupper', ?_, ?_, ?_, ?_, ?_,
      ?_, ?_⟩
    · rw [hlower]
      exact dyadic_shift _ _ _
    all_goals
      simp only
      omega

/-- The table entry is normalized and off by at most half a unit. The inequality is the one
between `2 * f` and `2 * 10 ^ k / 2 ^ e`, cleared of negative powers. -/
def CachedPower.Accurate (c : CachedPower) : Prop :=
  2 ^ 63 ≤ c.f ∧ c.f < 2 ^ 64 ∧
    2 * (c.f * (2 ^ c.e.toNat * 10 ^ (-c.k).toNat)) ≤
      2 * (10 ^ c.k.toNat * 2 ^ (-c.e).toNat) + 2 ^ c.e.toNat * 10 ^ (-c.k).toNat ∧
    2 * (10 ^ c.k.toNat * 2 ^ (-c.e).toNat) ≤
      2 * (c.f * (2 ^ c.e.toNat * 10 ^ (-c.k).toNat)) + 2 ^ c.e.toNat * 10 ^ (-c.k).toNat

instance (c : CachedPower) : Decidable c.Accurate := inferInstanceAs (Decidable (_ ∧ _ ∧ _ ∧ _))

theorem kCachedPowers_accurate : ∀ c ∈ kCachedPowers, c.Accurate := by decide +kernel

theorem cachedPower_isSome : ∀ i < 2098, (getCachedPowerForBinaryExponent ((i : Nat) - 1137)).isSome := by
  decide +kernel

theorem jsonAssert_bind_eq_some {α : Type} {p : Prop} [Decidable p] {k : Unit → Option α} {a : α} :
    (jsonAssert p).bind k = some a ↔ p ∧ k () = some a := by
  by_cases h : p <;> simp [jsonAssert, h]

theorem getCachedPower_spec {e : Int} (hlow : -1137 ≤ e) (hhigh : e ≤ 960) :
    ∃ c, getCachedPowerForBinaryExponent e = some c ∧ c.Accurate ∧ kAlpha ≤ c.e + e + 64 ∧ c.e + e + 64 ≤ kGamma := by
  have hsome := cachedPower_isSome (e + 1137).toNat (by omega)
  rw [show (((e + 1137).toNat : Nat) : Int) - 1137 = e by omega] at hsome
  obtain ⟨c, hc⟩ := Option.isSome_iff_exists.mp hsome
  refine ⟨c, hc, ?_⟩
  simp only [getCachedPowerForBinaryExponent, Option.bind_eq_bind, jsonAssert_bind_eq_some] at hc
  obtain ⟨-, -, -, -, hget⟩ := hc
  obtain ⟨entry, hentry, hget⟩ := Option.bind_eq_some_iff.mp hget
  obtain ⟨halpha, hget⟩ := jsonAssert_bind_eq_some.mp hget
  obtain ⟨hgamma, hget⟩ := jsonAssert_bind_eq_some.mp hget
  obtain rfl := Option.some.inj hget
  exact ⟨kCachedPowers_accurate entry (List.mem_of_getElem? hentry), halpha, hgamma⟩

theorem zpow_eq_div (b : ℚ) (hb : b ≠ 0) (k : Int) : b ^ k = b ^ k.toNat / b ^ (-k).toNat := by
  rw [eq_div_iff (pow_ne_zero _ hb), ← zpow_natCast, ← zpow_natCast, ← zpow_add₀ hb]
  congr 1
  omega

/-- In units of the entry's last place, the power of ten is at most half a unit away. -/
theorem CachedPower.Accurate.error {c : CachedPower} (h : c.Accurate) :
    |(c.f : ℚ) - 10 ^ c.k * 2 ^ (-c.e)| ≤ 1 / 2 := by
  obtain ⟨-, -, hupper, hlower⟩ := h
  have hunit : (0 : ℚ) < 2 ^ c.e.toNat * 10 ^ (-c.k).toNat := by positivity
  have hpower : (10 : ℚ) ^ c.k * 2 ^ (-c.e) =
      (10 ^ c.k.toNat * 2 ^ (-c.e).toNat) / (2 ^ c.e.toNat * 10 ^ (-c.k).toNat) := by
    rw [zpow_eq_div 10 (by norm_num), zpow_eq_div 2 (by norm_num) (-c.e), neg_neg, div_mul_div_comm,
      mul_comm (10 ^ (-c.k).toNat)]
  have hupper' : 2 * ((c.f : ℚ) * (2 ^ c.e.toNat * 10 ^ (-c.k).toNat)) ≤
      2 * (10 ^ c.k.toNat * 2 ^ (-c.e).toNat) + 2 ^ c.e.toNat * 10 ^ (-c.k).toNat := by exact_mod_cast hupper
  have hlower' : 2 * ((10 : ℚ) ^ c.k.toNat * 2 ^ (-c.e).toNat) ≤
      2 * (c.f * (2 ^ c.e.toNat * 10 ^ (-c.k).toNat)) + 2 ^ c.e.toNat * 10 ^ (-c.k).toNat := by
    exact_mod_cast hlower
  rw [hpower, abs_le]
  constructor
  · rw [le_sub_iff_add_le, ← le_sub_iff_add_le', div_le_iff₀ hunit]
    linarith
  · rw [sub_le_iff_le_add, ← sub_le_iff_le_add', le_div_iff₀ hunit]
    linarith

/-- A product with a cached power is less than one unit from the product with the power itself. -/
theorem CachedPower.Accurate.mul_error {c : CachedPower} (h : c.Accurate) {x : Diyfp} (hx : x.f < 2 ^ 64) :
    |((x.mul ⟨c.f, c.e⟩).f : ℚ) - x.f * (10 ^ c.k * 2 ^ (-c.e)) / 2 ^ 64| < 1 := by
  have hrounded : |((x.mul ⟨c.f, c.e⟩).f : ℚ) - x.f * c.f / 2 ^ 64| ≤ 1 / 2 := by
    rw [Diyfp.mul_f hx h.2.1]
    simp only
    have hdivision := Nat.div_add_mod (x.f * c.f + 2 ^ 63) (2 ^ 64)
    have hmod := Nat.mod_lt (x.f * c.f + 2 ^ 63) (Nat.two_pow_pos 64)
    generalize (x.f * c.f + 2 ^ 63) / 2 ^ 64 = q at hdivision ⊢
    generalize (x.f * c.f + 2 ^ 63) % 2 ^ 64 = r at hdivision hmod
    have hcast : (2 : ℚ) ^ 64 * q + r = x.f * c.f + 2 ^ 63 := by exact_mod_cast hdivision
    have hr : (r : ℚ) < 2 ^ 64 := by exact_mod_cast hmod
    have hr' : (0 : ℚ) ≤ r := Nat.cast_nonneg r
    have hword : (0 : ℚ) < 2 ^ 64 := by norm_num
    rw [abs_le]
    constructor
    · rw [le_sub_iff_add_le, ← le_sub_iff_add_le', div_le_iff₀ hword]
      linarith
    · rw [sub_le_iff_le_add, ← sub_le_iff_le_add', le_div_iff₀ hword]
      linarith
  have hpower : |(x.f : ℚ) * c.f / 2 ^ 64 - x.f * (10 ^ c.k * 2 ^ (-c.e)) / 2 ^ 64| < 1 / 2 := by
    have hfactor : (x.f : ℚ) * c.f / 2 ^ 64 - x.f * (10 ^ c.k * 2 ^ (-c.e)) / 2 ^ 64 =
        x.f / 2 ^ 64 * (c.f - 10 ^ c.k * 2 ^ (-c.e)) := by ring
    have hnonneg : (0 : ℚ) ≤ x.f / 2 ^ 64 := by positivity
    have hless : (x.f : ℚ) / 2 ^ 64 < 1 := by
      rw [div_lt_one (by norm_num)]
      exact_mod_cast hx
    rw [hfactor, abs_mul, abs_of_nonneg hnonneg]
    calc (x.f : ℚ) / 2 ^ 64 * |(c.f : ℚ) - 10 ^ c.k * 2 ^ (-c.e)| ≤ x.f / 2 ^ 64 * (1 / 2) :=
          mul_le_mul_of_nonneg_left h.error hnonneg
      _ < 1 / 2 := by linarith
  calc |((x.mul ⟨c.f, c.e⟩).f : ℚ) - x.f * (10 ^ c.k * 2 ^ (-c.e)) / 2 ^ 64|
      ≤ |((x.mul ⟨c.f, c.e⟩).f : ℚ) - x.f * c.f / 2 ^ 64| +
          |(x.f : ℚ) * c.f / 2 ^ 64 - x.f * (10 ^ c.k * 2 ^ (-c.e)) / 2 ^ 64| := abs_sub_le _ _ _
    _ < 1 := by linarith

/-- A boundary times the power of ten, in the units of the scaled boundary. -/
theorem scaled_dyadic (m : Nat) (e : Int) (c : CachedPower) :
    dyadic m e * 10 ^ c.k = m * (10 ^ c.k * 2 ^ (-c.e)) / 2 ^ 64 * 2 ^ (e + c.e + 64) := by
  have hexp : (2 : ℚ) ^ (e + c.e + 64) = 2 ^ e * 2 ^ c.e * 2 ^ 64 := by
    rw [zpow_add₀ (by norm_num), zpow_add₀ (by norm_num)]
    norm_num
  have hcancel : (2 : ℚ) ^ (-c.e) * 2 ^ c.e = 1 := by
    rw [← zpow_add₀ (by norm_num)]
    simp
  rw [hexp, dyadic]
  calc (m : ℚ) * 2 ^ e * 10 ^ c.k = m * 2 ^ e * 10 ^ c.k * (2 ^ (-c.e) * 2 ^ c.e) := by rw [hcancel, mul_one]
    _ = m * (10 ^ c.k * 2 ^ (-c.e)) / 2 ^ 64 * (2 ^ e * 2 ^ c.e * 2 ^ 64) := by ring

/-- The interval of the generator, in terms of the three products. -/
theorem scaled_bounds {c : CachedPower} (h : c.Accurate) {value : Nat} {b : Boundaries} (hb : BoundariesOf value b) :
    (b.minus.mul ⟨c.f, c.e⟩).f + 1 ≤ (b.w.mul ⟨c.f, c.e⟩).f ∧
      (b.w.mul ⟨c.f, c.e⟩).f + 1 ≤ (b.plus.mul ⟨c.f, c.e⟩).f ∧
      2 ^ 60 + 1 ≤ (b.plus.mul ⟨c.f, c.e⟩).f ∧ (b.plus.mul ⟨c.f, c.e⟩).f < 2 ^ 64 ∧
      (b.plus.mul ⟨c.f, c.e⟩).f - 1 ≤
        ((b.plus.mul ⟨c.f, c.e⟩).f - 1 - ((b.minus.mul ⟨c.f, c.e⟩).f + 1)) * 10 ^ 16 := by
  obtain ⟨hnormal, hword, -, -⟩ := h
  have hbelow := hb.below
  have habove := hb.above
  have hwidth := hb.width
  have hplus := hb.word
  have hfull := hb.normal
  rw [Diyfp.mul_f hplus hword, Diyfp.mul_f (by omega : b.minus.f < 2 ^ 64) hword,
    Diyfp.mul_f (by omega : b.w.f < 2 ^ 64) hword]
  simp only
  have hbelow' : b.minus.f * c.f + 512 * 2 ^ 63 ≤ b.w.f * c.f :=
    calc b.minus.f * c.f + 512 * 2 ^ 63 ≤ b.minus.f * c.f + 512 * c.f := by omega
      _ = (b.minus.f + 512) * c.f := by ring
      _ ≤ b.w.f * c.f := Nat.mul_le_mul_right _ hbelow
  have habove' : b.w.f * c.f + 512 * 2 ^ 63 ≤ b.plus.f * c.f :=
    calc b.w.f * c.f + 512 * 2 ^ 63 ≤ b.w.f * c.f + 512 * c.f := by omega
      _ = (b.w.f + 512) * c.f := by ring
      _ ≤ b.plus.f * c.f := Nat.mul_le_mul_right _ habove
  have hwidth' : b.plus.f * c.f ≤ (b.plus.f * c.f - b.minus.f * c.f) * 2 ^ 53 :=
    calc b.plus.f * c.f ≤ (b.plus.f - b.minus.f) * 2 ^ 53 * c.f := Nat.mul_le_mul_right _ hwidth
      _ = (b.plus.f * c.f - b.minus.f * c.f) * 2 ^ 53 := by
          rw [← Nat.sub_mul]
          ring
  have hlarge : 2 ^ 63 * 2 ^ 63 ≤ b.plus.f * c.f := Nat.mul_le_mul hfull hnormal
  have hsmall : b.plus.f * c.f ≤ (2 ^ 64 - 1) * (2 ^ 64 - 1) := Nat.mul_le_mul (by omega) (by omega)
  generalize b.plus.f * c.f = p at *
  generalize b.minus.f * c.f = m at *
  generalize b.w.f * c.f = w at *
  omega

/-- Digits inside the scaled interval denote a number strictly between the midpoints. -/
theorem digits_between {c : CachedPower} (h : c.Accurate) {value : Nat} {b : Boundaries} (hb : BoundariesOf value b)
    (hgamma : c.e + b.plus.e + 64 ≤ kGamma) {digits : List UInt8} {y : Int}
    (hdigits : DigitsOf ((b.minus.mul ⟨c.f, c.e⟩).f + 1) ((b.plus.mul ⟨c.f, c.e⟩).f - 1)
      (2 ^ (-(b.plus.e + c.e + 64)).toNat) digits y) :
    FloatFormat.binary64.lowerMidpoint value < decimalValue digits * (10 : ℚ) ^ (-c.k + y) ∧
      decimalValue digits * (10 : ℚ) ^ (-c.k + y) < FloatFormat.binary64.upperMidpoint value := by
  have hone : 1 ≤ (b.plus.mul ⟨c.f, c.e⟩).f := by
    have := (scaled_bounds h hb).2.2.1
    omega
  have hlower := h.mul_error (show b.minus.f < 2 ^ 64 from
    Nat.lt_of_le_of_lt (Nat.le_trans (Nat.le_of_add_right_le hb.below) (Nat.le_of_add_right_le hb.above)) hb.word)
  have hupper := h.mul_error hb.word
  have hge := hdigits.ge
  have hle := hdigits.le
  generalize hshift : (-(b.plus.e + c.e + 64)).toNat = shift at hge hle
  have hshift' : b.plus.e + c.e + 64 = -(shift : Int) := by
    unfold kGamma at hgamma
    omega
  have hunit : (0 : ℚ) < 2 ^ shift := by positivity
  have hten : (0 : ℚ) < 10 ^ c.k := zpow_pos (by norm_num) _
  have hcancel : (2 : ℚ) ^ (-(shift : Int)) * 2 ^ shift = 1 := by
    rw [zpow_neg, zpow_natCast, inv_mul_cancel₀ hunit.ne']
  have hvalue : (decimalValue digits : ℚ) * 10 ^ (-c.k + y) * 10 ^ c.k = decimalValue digits * 10 ^ y := by
    rw [mul_assoc, ← zpow_add₀ (by norm_num)]
    congr 2
    ring
  have hscaled (m : Nat) : dyadic m b.plus.e * 10 ^ c.k * 2 ^ shift = m * (10 ^ c.k * 2 ^ (-c.e)) / 2 ^ 64 := by
    rw [scaled_dyadic, hshift', mul_assoc, hcancel, mul_one]
  rw [abs_lt] at hlower hupper
  rw [← hb.lower, ← hb.upper]
  constructor
  · rw [← mul_lt_mul_iff_left₀ hten, ← mul_lt_mul_iff_left₀ hunit, hvalue, hscaled]
    push_cast at hge
    linarith
  · rw [← mul_lt_mul_iff_left₀ hten, ← mul_lt_mul_iff_left₀ hunit, hvalue, hscaled]
    push_cast [Nat.cast_sub hone] at hle
    linarith

/-- The digits of a positive finite double denote a number strictly between its midpoints;
there are at most seventeen, the first is not zero, and no assertion fails. -/
theorem grisu2_between {value : Nat} (h : PositiveFinite value) :
    ∃ digits x, grisu2 value = some (digits, x) ∧ IsCanonical digits ∧ digits.length ≤ 17 ∧
      FloatFormat.binary64.lowerMidpoint value < decimalValue digits * (10 : ℚ) ^ x ∧
      decimalValue digits * (10 : ℚ) ^ x < FloatFormat.binary64.upperMidpoint value := by
  obtain ⟨b, hcompute, hb⟩ := computeBoundaries_spec h
  obtain ⟨c, hcached, haccurate, halpha, hgamma⟩ := getCachedPower_spec hb.e_ge hb.e_le
  obtain ⟨hlow, hhigh, hbig, hword, hwidth⟩ := scaled_bounds haccurate hb
  obtain ⟨hfinite, hpositive⟩ := h.asserts
  have hinside : u64 ((b.minus.mul ⟨c.f, c.e⟩).f + 1) = (b.minus.mul ⟨c.f, c.e⟩).f + 1 := u64_of_lt (by omega)
  have hinside' : u64 ((b.plus.mul ⟨c.f, c.e⟩).f + (2 ^ 64 - 1)) = (b.plus.mul ⟨c.f, c.e⟩).f - 1 := by
    unfold u64
    omega
  simp only [grisu2, jsonAssert_of hfinite, jsonAssert_of hpositive, hcompute, Option.bind_eq_bind, Option.bind_some,
    grisu2OfBoundaries, jsonAssert_of hb.minus_e, jsonAssert_of hb.w_e, hcached, hinside, hinside']
  have hexp : (b.plus.mul ⟨c.f, c.e⟩).e = b.plus.e + c.e + 64 := rfl
  obtain ⟨digits, y, hgen, hdigits⟩ := grisu2DigitGen_spec (-c.k)
    ⟨(b.minus.mul ⟨c.f, c.e⟩).f + 1, (b.minus.mul ⟨c.f, c.e⟩).e⟩ (b.w.mul ⟨c.f, c.e⟩)
    ⟨(b.plus.mul ⟨c.f, c.e⟩).f - 1, (b.plus.mul ⟨c.f, c.e⟩).e⟩
    (by simp only [Diyfp.mul_e, hb.minus_e]) (by simp only [Diyfp.mul_e, hb.w_e])
    (by rw [hexp]; omega) (by rw [hexp]; omega) hlow (by simp only; omega) (by simp only; omega)
    (by simp only; omega) (by simp only; omega) hwidth
  exact ⟨digits, -c.k + y, hgen, hdigits.canonical, hdigits.length_le, digits_between haccurate hb hgamma hdigits⟩

end CrossNative.Text
