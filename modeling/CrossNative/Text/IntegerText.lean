import CrossNative.Text.NumberScan
import CrossNative.Text.Serializer

/-!
# Printing an integer

The digits are counted first and then written from the back of their place in the number
buffer, so the count has to be exact. The lexer reads the same integer again.
-/

namespace CrossNative.Text

set_option autoImplicit false

open Basis

namespace Serializer

/-- The exponent of the leading digit is added to the count. -/
theorem countDigitsLoop_spec {fuel x : Nat} (hpos : 0 < x) (hlt : x < 10 ^ (4 * fuel)) (n : Nat) :
    ∃ k, 10 ^ k ≤ x ∧ x < 10 ^ (k + 1) ∧ countDigitsLoop fuel x n = n + k := by
  induction fuel generalizing x n with
  | zero => omega
  | succ fuel ih =>
    unfold countDigitsLoop
    by_cases h₁ : x < 10
    · rw [if_pos h₁]
      exact ⟨0, by omega, by omega, rfl⟩
    rw [if_neg h₁]
    by_cases h₂ : x < 100
    · rw [if_pos h₂]
      exact ⟨1, by omega, by omega, rfl⟩
    rw [if_neg h₂]
    by_cases h₃ : x < 1000
    · rw [if_pos h₃]
      exact ⟨2, by omega, by omega, rfl⟩
    rw [if_neg h₃]
    by_cases h₄ : x < 10000
    · rw [if_pos h₄]
      exact ⟨3, by omega, by omega, rfl⟩
    rw [if_neg h₄]
    have hshrink : x / 10000 < 10 ^ (4 * fuel) := by
      rw [Nat.div_lt_iff_lt_mul (by decide)]
      rw [Nat.mul_succ, pow_add] at hlt
      exact hlt
    obtain ⟨k, hlow, hhigh, hcount⟩ := ih (x := x / 10000) (by omega) hshrink (n + 4)
    refine ⟨k + 4, ?_, ?_, by rw [hcount]; omega⟩
    · rw [pow_add]
      have := (Nat.le_div_iff_mul_le (by decide)).mp hlow
      omega
    · rw [show k + 4 + 1 = k + 1 + 4 by omega, pow_add]
      have := (Nat.div_lt_iff_lt_mul (by decide)).mp hhigh
      omega

/-- A digit is put over the last of the bytes before `back`. -/
theorem write_ok (front back : List UInt8) (old c : UInt8) :
    Cursor.write ⟨front ++ old :: back, front.length + 1⟩ c = .ok ⟨front ++ c :: back, front.length⟩ := by
  rw [Cursor.write, if_pos ⟨by simp, by simp⟩]
  simp

theorem writePair_ok (front back : List UInt8) (old old' : UInt8) (n : Nat) :
    Cursor.writePair ⟨front ++ old :: old' :: back, front.length + 2⟩ n =
      .ok ⟨front ++ digitChar (n / 10) :: digitChar (n % 10) :: back, front.length⟩ := by
  have hsecond := write_ok (front ++ [old]) back old' (digitChar (n % 10))
  rw [List.append_assoc, List.append_assoc, List.length_append, List.singleton_append, List.singleton_append] at hsecond
  rw [Cursor.writePair, show front.length + 2 = front.length + [old].length + 1 by rfl, hsecond]
  exact write_ok front (digitChar (n % 10) :: back) old (digitChar (n / 10))

theorem isNumeral_pair {n : Nat} (h : n < 100) :
    IsNumeral [digitChar (n / 10), digitChar (n % 10)] ∧ decimalValue [digitChar (n / 10), digitChar (n % 10)] = n := by
  have htens : n / 10 ≤ 9 := by omega
  have hones : n % 10 ≤ 9 := by omega
  refine ⟨IsNumeral.cons_iff.mpr ⟨isDigit_digitChar htens, IsNumeral.cons_iff.mpr ⟨isDigit_digitChar hones, .nil⟩⟩, ?_⟩
  simp only [decimalValue, List.foldl_cons, List.foldl_nil, digitValue_digitChar htens, digitValue_digitChar hones]
  omega

/-- The loop fills exactly the bytes set aside for the digits. -/
theorem writeDigits_ok {fuel x : Nat} (hturns : 0 < fuel) (hfuel : x < 100 ^ fuel) (olds : List UInt8) (hpos : 0 < olds.length)
    (hlt : x < 10 ^ olds.length) (hle : olds.length = 1 ∨ 10 ^ (olds.length - 1) ≤ x) (front back : List UInt8) :
    ∃ digits, digits.length = olds.length ∧ IsNumeral digits ∧ decimalValue digits = x ∧
      writeDigits fuel x ⟨front ++ (olds ++ back), front.length + olds.length⟩ =
        .ok ⟨front ++ (digits ++ back), front.length⟩ := by
  induction fuel generalizing x olds back with
  | zero => omega
  | succ fuel ih =>
    have hmin {m : Nat} (hm : m < olds.length) (hm' : 0 < m) : 10 ^ m ≤ x := by
      have hpow : 10 ^ m ≤ 10 ^ (olds.length - 1) := Nat.pow_le_pow_right (by decide) (by omega)
      omega
    have hmax {m : Nat} (hm : olds.length ≤ m) : x < 10 ^ m :=
      Nat.lt_of_lt_of_le hlt (Nat.pow_le_pow_right (by decide) hm)
    unfold writeDigits
    by_cases hlarge : 100 ≤ x
    · have hlength : 2 < olds.length := by
        by_contra hshort
        have := hmax (m := 2) (by omega)
        omega
      obtain ⟨others, last, hsplit, hlast⟩ : ∃ others last, olds = others ++ last ∧ last.length = 2 :=
        ⟨olds.take (olds.length - 2), olds.drop (olds.length - 2), (List.take_append_drop _ _).symm, by
          rw [List.length_drop]
          omega⟩
      obtain ⟨a, b, rfl⟩ := List.length_eq_two.mp hlast
      subst hsplit
      rw [List.length_append, List.length_cons, List.length_singleton] at hlength hlt hle
      have hpow : 10 ^ (others.length + (1 + 1)) = 10 ^ others.length * 100 := pow_add 10 others.length 2
      have hshrink : x / 100 < 100 ^ fuel := by
        rw [Nat.div_lt_iff_lt_mul (by decide)]
        rwa [pow_succ] at hfuel
      have hmore : 0 < fuel := by
        by_contra hzero
        rw [show fuel = 0 by omega] at hshrink
        omega
      obtain ⟨digits, hdigits, hnumeral, hvalue, hloop⟩ := ih (x := x / 100) hmore hshrink others
        (by omega)
        (by
          rw [Nat.div_lt_iff_lt_mul (by decide), ← hpow]
          exact hlt)
        (by
          by_cases hone : others.length = 1
          · exact Or.inl hone
          · refine Or.inr ((Nat.le_div_iff_mul_le (by decide)).mpr ?_)
            have hstep : 10 ^ (others.length - 1) * 100 = 10 ^ (others.length + (1 + 1) - 1) := by
              rw [show others.length + (1 + 1) - 1 = others.length - 1 + 2 by omega]
              exact (pow_add 10 (others.length - 1) 2).symm
            rw [hstep]
            omega)
        (digitChar (x % 100 / 10) :: digitChar (x % 100 % 10) :: back)
      obtain ⟨hpair, hpairValue⟩ := isNumeral_pair (n := x % 100) (Nat.mod_lt _ (by decide))
      refine ⟨digits ++ [digitChar (x % 100 / 10), digitChar (x % 100 % 10)], by simp [hdigits],
        IsNumeral.append_iff.mpr ⟨hnumeral, hpair⟩, ?_, ?_⟩
      · rw [decimalValue_append, hvalue, hpairValue]
        simp only [List.length_cons, List.length_nil]
        omega
      · have hwrite := writePair_ok (front ++ others) back a b (x % 100)
        rw [if_pos hlarge]
        rw [List.append_assoc, List.append_assoc, List.length_append] at hwrite
        rw [List.append_assoc, List.length_append]
        change (Cursor.writePair ⟨front ++ (others ++ a :: b :: back), front.length + others.length + 2⟩ (x % 100) >>=
          fun p => writeDigits fuel (x / 100) p) = _
        rw [hwrite]
        change writeDigits fuel (x / 100) _ = _
        rw [hloop, List.append_assoc]
        rfl
    rw [if_neg hlarge]
    by_cases hmiddle : 10 ≤ x
    · have hlength : olds.length = 2 := by
        have hnotOne : olds.length ≠ 1 := by
          intro hone
          have := hmax (m := 1) (by omega)
          omega
        by_contra htwo
        have := hmin (m := 2) (by omega) (by decide)
        omega
      obtain ⟨a, b, rfl⟩ := List.length_eq_two.mp hlength
      obtain ⟨hpair, hpairValue⟩ := isNumeral_pair (n := x) (by omega)
      refine ⟨[digitChar (x / 10), digitChar (x % 10)], rfl, hpair, hpairValue, ?_⟩
      rw [if_pos hmiddle]
      exact writePair_ok front back a b x
    rw [if_neg hmiddle]
    have hlength : olds.length = 1 := by
      by_contra hone
      have := hmin (m := 1) (by omega) (by decide)
      omega
    obtain ⟨a, rfl⟩ := List.length_eq_one_iff.mp hlength
    refine ⟨[digitChar x], rfl, IsNumeral.cons_iff.mpr ⟨isDigit_digitChar (by omega), .nil⟩, ?_, write_ok front back a _⟩
    simp [decimalValue, digitValue_digitChar (show x ≤ 9 by omega)]

/-- The digits of a number that is not zero, behind the bytes for the sign. -/
theorem writeDigits_count {x : Nat} (hpos : 0 < x) (hlt : x < 2 ^ 64) (front : List UInt8) (room : List UInt8)
    (hroom : countDigits x ≤ room.length) (fuel : Nat) (hfuel : countDigits x < fuel) :
    ∃ digits back, digits.length = countDigits x ∧ IsCanonical digits ∧ decimalValue digits = x ∧
      writeDigits fuel x ⟨front ++ room, front.length + countDigits x⟩ =
        .ok ⟨front ++ (digits ++ back), front.length⟩ := by
  obtain ⟨k, hlow, hhigh, hcount⟩ := @countDigitsLoop_spec 5 x hpos (by omega) 1
  have hk : countDigits x = k + 1 := by
    rw [countDigits, hcount]
    omega
  rw [hk] at hroom hfuel ⊢
  have hlength : (room.take (k + 1)).length = k + 1 := by
    rw [List.length_take]
    omega
  have hturns : x < 100 ^ fuel := by
    have hten : 10 ^ (k + 1) ≤ 100 ^ (k + 1) := Nat.pow_le_pow_left (by decide) _
    have hmono : 100 ^ (k + 1) ≤ 100 ^ fuel := Nat.pow_le_pow_right (by decide) (by omega)
    omega
  obtain ⟨digits, hdigits, hnumeral, hvalue, hloop⟩ := writeDigits_ok (by omega) hturns (room.take (k + 1))
    (by omega) (by rwa [hlength]) (Or.inr (by rw [hlength]; exact hlow)) front (room.drop (k + 1))
  rw [List.take_append_drop, hlength] at hloop
  rw [hlength] at hdigits
  refine ⟨digits, room.drop (k + 1), hdigits, hnumeral.canonical ?_ ?_, hvalue, hloop⟩
  · intro hnil
    simp [hnil] at hdigits
  · rw [hdigits, hvalue]
    exact hlow

theorem countDigits_le {x : Nat} (hpos : 0 < x) (hlt : x < 2 ^ 64) : countDigits x ≤ 20 := by
  obtain ⟨k, hlow, -, hcount⟩ := @countDigitsLoop_spec 5 x hpos (by omega) 1
  have hk : k ≤ 19 := by
    by_contra hlarge
    have hpow : 10 ^ 20 ≤ 10 ^ k := Nat.pow_le_pow_right (by decide) (by omega)
    omega
  rw [countDigits, hcount]
  omega

/-- An integer of the library is written as its decimal literal, whatever the buffer held before. -/
theorem dumpInteger_ok {x : Int} (hlow : -2 ^ 63 ≤ x) (hhigh : x < 2 ^ 64) (buffer : List UInt8)
    (hbuffer : buffer.length = numberBufferSize) :
    ∃ digits, (digits = [zero] ∨ IsCanonical digits) ∧ decimalValue digits = x.natAbs ∧
      dumpInteger buffer x = .ok (NumberLiteral.integer (decide (x < 0)) digits).text := by
  by_cases hzero : x = 0
  · subst hzero
    exact ⟨[zero], Or.inl rfl, rfl, rfl⟩
  rw [dumpInteger, if_neg hzero]
  by_cases hnegative : x < 0
  · have habs : removeSign x = x.natAbs := by
      unfold removeSign
      omega
    have hcount := countDigits_le (x := x.natAbs) (by omega) (by omega)
    cases buffer with
    | nil => cases hbuffer
    | cons b room =>
      rw [List.length_cons, numberBufferSize] at hbuffer
      obtain ⟨digits, back, hdigits, hcanonical, hvalue, hloop⟩ := writeDigits_count (x := x.natAbs) (by omega)
        (by omega) [minus] room (by omega) (1 + countDigits x.natAbs + 1) (by omega)
      refine ⟨digits, Or.inr hcanonical, hvalue, ?_⟩
      simp only [if_pos hnegative, habs, List.set_cons_zero]
      rw [if_pos (by unfold numberBufferSize; omega)]
      have hwrite : writeDigits (1 + countDigits x.natAbs + 1) x.natAbs ⟨minus :: room, 1 + countDigits x.natAbs⟩ =
          .ok ⟨minus :: (digits ++ back), 1⟩ := hloop
      rw [hwrite, NumberLiteral.text_integer, decide_eq_true hnegative, ← hdigits]
      change Except.ok ((minus :: (digits ++ back)).take (1 + digits.length)) = _
      rw [Nat.add_comm, List.take_succ_cons, List.take_left]
      rfl
  · have habs : x.toNat = x.natAbs := by omega
    have hcount := countDigits_le (x := x.natAbs) (by omega) (by omega)
    rw [numberBufferSize] at hbuffer
    obtain ⟨digits, back, hdigits, hcanonical, hvalue, hloop⟩ := writeDigits_count (x := x.natAbs) (by omega)
      (by omega) [] buffer (by omega) (countDigits x.natAbs + 1) (by omega)
    refine ⟨digits, Or.inr hcanonical, hvalue, ?_⟩
    simp only [if_neg hnegative, habs]
    rw [if_pos (by unfold numberBufferSize; omega)]
    rw [List.nil_append, List.nil_append, List.length_nil, Nat.zero_add] at hloop
    rw [hloop, NumberLiteral.text_integer, decide_eq_false hnegative, ← hdigits]
    change Except.ok ((digits ++ back).take digits.length) = _
    rw [List.take_left]
    rfl

/-- What the lexer makes of the literal of an integer. -/
theorem token_integer {x : Int} (hlow : -2 ^ 63 ≤ x) (hhigh : x < 2 ^ 64) {digits : List UInt8}
    (hvalue : decimalValue digits = x.natAbs) :
    (NumberLiteral.integer (decide (x < 0)) digits).token =
      if x < 0 then .valueInteger x else .valueUnsigned x.natAbs := by
  have hmantissa : (NumberLiteral.integer (decide (x < 0)) digits).mantissa = x.natAbs := by
    rw [← hvalue]
    simp [NumberLiteral.integer, NumberLiteral.mantissa]
  rw [NumberLiteral.token, hmantissa]
  by_cases hnegative : x < 0
  · rw [if_pos ⟨rfl, rfl, by simp [NumberLiteral.integer, hnegative], by omega⟩, if_pos hnegative]
    rw [show -(x.natAbs : Int) = x by omega]
  · rw [if_neg (by simp [NumberLiteral.integer, hnegative]),
      if_pos ⟨rfl, rfl, by simp [NumberLiteral.integer, hnegative], by omega⟩, if_neg hnegative]

end Serializer

end CrossNative.Text
