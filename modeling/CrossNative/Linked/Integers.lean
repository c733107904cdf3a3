import CrossNative.Basis.FloatRounding
import CrossNative.Linked.Dispatch
import CrossNative.Rust.Native

/-!
# Integers on the linked path

An integer argument goes through a double, in a linked Rust module as in a generated
dispatcher; only the way back differs: a Rust cast saturates, the Zig builtin does not.
-/

namespace CrossNative.Linked

set_option autoImplicit false

open Basis Rust

/-- The JSON integer arrives as itself, alone or in an array, and comes back from the text that
Rust encodes it as. -/
structure ReachesExactly (k : ElemKind) (n : Int) : Prop where
  scalar : ∀ (args : List Json) (i : Nat), args[i]? = some (.int n) →
    argScalar (.elem k) args i = .ok (BitVec.ofInt k.bits n)
  vec : ∀ (args : List Json) (i : Nat) (before after : List Json) (vs ws : List (BitVec k.bits)),
    args[i]? = some (.arr (before ++ .int n :: after)) → fromItems (.elem k) before = some vs →
    fromItems (.elem k) after = some ws →
    argVec (.elem k) args i = .ok (vs ++ BitVec.ofInt k.bits n :: ws)
  zig : ∀ (wordBits : Nat) (reader : ArgReader), readArg k.name.toList = .ok reader →
    reader.read wordBits (zigParse (.int n)) = some (.int n)
  encoded : fromJson (.elem k) (encode (.scalar (.elem k) (BitVec.ofInt k.bits n))) = some (BitVec.ofInt k.bits n)

variable {k : ElemKind} {n : Int}

/-! ## The way through a double -/

theorem natAbs_log2_lt (hn : k.InRange n) : (n.natAbs.log2 : Int) < FloatFormat.binary64.bias := by
  have hbound : n.natAbs < 2 ^ 65 := by
    cases k <;> simp [ElemKind.InRange, ElemKind.isSigned, ElemKind.bits, ElemKind.size] at hn <;> omega
  have hbias : FloatFormat.binary64.bias = 1023 := rfl
  by_cases hzero : n.natAbs = 0
  · rw [hzero, hbias]
    decide
  · have hlog := (Nat.log2_lt hzero).mpr hbound
    omega

/-- The double an integer is converted to, truncated. -/
theorem truncate_double (hn : k.InRange n) :
    FloatFormat.binary64.truncate (BitVec.ofNat 64 (FloatFormat.binary64.ofInt n)).toNat =
      some (FloatFormat.binary64.nearestInt n) := by
  have hrange := natAbs_log2_lt hn
  have hsign : 2 * FloatFormat.binary64.signBit = 2 ^ 64 := rfl
  have hlt := FloatFormat.ofInt_lt (f := .binary64) (by decide) hrange
  rw [hsign] at hlt
  rw [BitVec.toNat_ofNat, Nat.mod_eq_of_lt hlt]
  exact FloatFormat.truncate_ofInt (by decide) hrange

theorem inRange_iff (hk : k.isFloat = false) : k.InRange n ↔ minValue k ≤ n ∧ n ≤ maxValue k := by
  cases k <;> simp [ElemKind.isFloat] at hk <;>
    simp [ElemKind.InRange, minValue, maxValue, ElemKind.isSigned, ElemKind.bits, ElemKind.size] <;> omega

theorem ofInt_injective (hk : k.isFloat = false) {a b : Int} (ha : k.InRange a) (hb : k.InRange b)
    (h : BitVec.ofInt k.bits a = BitVec.ofInt k.bits b) : a = b := by
  have hvalue := congrArg BitVec.toNat h
  rw [BitVec.toNat_ofInt, BitVec.toNat_ofInt] at hvalue
  cases k <;> simp [ElemKind.isFloat] at hk <;>
    simp [ElemKind.InRange, ElemKind.isSigned, ElemKind.bits, ElemKind.size] at ha hb hvalue <;> omega

/-! ## Rust -/

theorem castF64_truncated (hk : k.isFloat = false) {x : BitVec 64} {i : Int}
    (h : FloatFormat.binary64.truncate x.toNat = some i) :
    castF64 k x = BitVec.ofInt k.bits (max (minValue k) (min i (maxValue k))) := by
  cases k with
  | f64 => cases hk
  | f32 => cases hk
  | _ =>
    unfold castF64
    simp only [h]

theorem castF64_int (hk : k.isFloat = false) (hn : k.InRange n) :
    castF64 k (BitVec.ofNat 64 (FloatFormat.binary64.ofInt n)) =
      BitVec.ofInt k.bits (max (minValue k) (min (FloatFormat.binary64.nearestInt n) (maxValue k))) :=
  castF64_truncated hk (truncate_double hn)

/-- Saturation gives the largest value back although it has been rounded up. -/
theorem clamp_eq_iff (hk : k.isFloat = false) (hn : k.InRange n) :
    max (minValue k) (min (FloatFormat.binary64.nearestInt n) (maxValue k)) = n ↔
      FloatFormat.binary64.Represents n ∨ n = maxValue k := by
  obtain ⟨hmin, hmax⟩ := (inRange_iff hk).mp hn
  rw [← FloatFormat.nearestInt_eq_iff]
  constructor
  · intro h
    by_cases hlow : FloatFormat.binary64.nearestInt n < minValue k
    · have hn' : n = minValue k := by omega
      left
      rw [hn', FloatFormat.nearestInt_eq_iff]
      cases k with
      | f64 => cases hk
      | f32 => cases hk
      | _ => decide
    · omega
  · rintro (h | h)
    · omega
    · have hup : maxValue k ≤ FloatFormat.binary64.nearestInt (maxValue k) := by
        cases k with
        | f64 => cases hk
        | f32 => cases hk
        | _ => decide
      rw [h] at hmin ⊢
      omega

theorem fromJson_int_iff (hk : k.isFloat = false) (hn : k.InRange n) :
    fromJson (.elem k) (.int n) = some (BitVec.ofInt k.bits n) ↔
      FloatFormat.binary64.Represents n ∨ n = maxValue k := by
  rw [← clamp_eq_iff hk hn]
  have hclamped : k.InRange (max (minValue k) (min (FloatFormat.binary64.nearestInt n) (maxValue k))) := by
    obtain ⟨hmin, hmax⟩ := (inRange_iff hk).mp hn
    rw [inRange_iff hk]
    omega
  have hcast : fromJson (.elem k) (.int n) = some (castF64 k (BitVec.ofNat 64 (FloatFormat.binary64.ofInt n))) := rfl
  rw [hcast, castF64_int hk hn]
  constructor
  · intro h
    exact ofInt_injective hk hclamped hn (Option.some.inj h)
  · intro h
    rw [h]

theorem fromItems_append {s : Scalar} {before after : List Json} {vs ws : List (BitVec s.bits)}
    (hbefore : fromItems s before = some vs) (hafter : fromItems s after = some ws) :
    fromItems s (before ++ after) = some (vs ++ ws) := by
  induction before generalizing vs with
  | nil =>
    cases hbefore
    exact hafter
  | cons value before ih =>
    rw [fromItems] at hbefore
    split at hbefore
    · rename_i v rest hvalue hrest
      cases hbefore
      rw [List.cons_append, fromItems, hvalue, ih hrest]
      rfl
    · cases hbefore

theorem encode_int (hk : k.isFloat = false) (hn : k.InRange n) :
    encode (.scalar (.elem k) (BitVec.ofInt k.bits n)) = .int n := by
  have hvalue : (if k.isSigned then (BitVec.ofInt k.bits n).toInt else ((BitVec.ofInt k.bits n).toNat : Int)) = n := by
    unfold ElemKind.InRange at hn
    split at hn
    · rename_i hsigned
      rw [if_pos hsigned]
      exact BitVec.toInt_ofInt_eq_self (Nat.mul_pos (by decide) k.size_pos) hn.1 hn.2
    · rename_i hunsigned
      rw [if_neg hunsigned, BitVec.toNat_ofInt, Int.emod_eq_of_lt hn.1 (by exact_mod_cast hn.2)]
      exact Int.toNat_of_nonneg hn.1
  cases k with
  | f64 => cases hk
  | f32 => cases hk
  | _ => exact congrArg Json.int hvalue

/-! ## The generated dispatcher -/

theorem readArg_name (hk : k.isFloat = false) : readArg k.name.toList = .ok (.int k.isSigned (.bits k.bits)) := by
  cases k with
  | f64 => cases hk
  | f32 => cases hk
  | _ => rfl

theorem argF64_int (n : Int) : argF64 (zigParse (.int n)) = BitVec.ofNat 64 (FloatFormat.binary64.ofInt n) := by
  rw [zigParse]
  split <;> rfl

theorem intFromFloat_iff (hn : k.InRange n) :
    intFromFloat k.isSigned k.bits (BitVec.ofNat 64 (FloatFormat.binary64.ofInt n)) = some n ↔
      FloatFormat.binary64.Represents n := by
  have hholds : HoldsInt k.isSigned k.bits n := hn
  rw [intFromFloat, truncate_double hn, Option.filter_eq_some_iff, Option.some.injEq, FloatFormat.nearestInt_eq_iff]
  exact and_iff_left (decide_eq_true hholds)

/-! ## Both -/

/-- An integer reaches every linked module exactly if a double represents it. -/
theorem reachesExactly_iff (hk : k.isFloat = false) (hn : k.InRange n) :
    ReachesExactly k n ↔ FloatFormat.binary64.Represents n := by
  constructor
  · intro h
    have hread := h.zig 64 _ (readArg_name hk)
    rw [ArgReader.read, argF64_int, Width.toBits] at hread
    obtain ⟨i, hi, heq⟩ := Option.map_eq_some_iff.mp hread
    cases heq
    exact (intFromFloat_iff hn).mp hi
  · intro h
    have hjson := (fromJson_int_iff hk hn).mpr (Or.inl h)
    refine ⟨fun args i hget => ?_, fun args i before after vs ws hget hbefore hafter => ?_,
      fun wordBits reader hreader => ?_, ?_⟩
    · simp only [argScalar, hget, hjson]
    · have hone : fromItems (.elem k) (.int n :: after) = some (BitVec.ofInt k.bits n :: ws) := by
        simp only [fromItems, hjson, hafter]
        rfl
      have hitems := fromItems_append hbefore hone
      simp only [argVec, hget, hitems]
      rfl
    · cases (readArg_name hk).symm.trans hreader
      rw [ArgReader.read, argF64_int, Width.toBits, (intFromFloat_iff hn).mpr h]
      rfl
    · rw [encode_int hk hn]
      exact hjson

/-- `i64` and a number a double represents. -/
theorem reachesExactly_iff_million :
    ReachesExactly .i64 1000000 ↔ FloatFormat.binary64.Represents 1000000 :=
  reachesExactly_iff rfl (by decide)

/-- The first integer that is rounded. -/
theorem not_reachesExactly :
    ¬ ∀ (k : ElemKind) (n : Int), k.isFloat = false → k.InRange n → ReachesExactly k n := by
  intro h
  have hread := (h .i64 9007199254740993 rfl (by decide)).scalar [.int 9007199254740993] 0 rfl
  revert hread
  decide

end CrossNative.Linked
