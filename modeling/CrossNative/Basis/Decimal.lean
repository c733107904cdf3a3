import Mathlib.Algebra.Group.Nat.Defs
import Mathlib.Data.List.Induction
import Mathlib.Tactic.Linarith
import Mathlib.Tactic.Ring

/-!
# Decimal numerals as ASCII bytes

The most significant digit stands first. Two numerals of one number without leading
zeros are the same bytes.
-/

namespace Basis

set_option autoImplicit false

def isDigit (c : UInt8) : Bool := 0x30 ≤ c && c ≤ 0x39

def digitChar (d : Nat) : UInt8 := UInt8.ofNat (0x30 + d)

def digitValue (c : UInt8) : Nat := c.toNat - 0x30

def decimalValue (text : List UInt8) : Nat := text.foldl (fun acc c => acc * 10 + digitValue c) 0

theorem isDigit_iff (c : UInt8) : isDigit c = true ↔ 0x30 ≤ c.toNat ∧ c.toNat ≤ 0x39 := by
  simp [isDigit, UInt8.le_iff_toNat_le]

theorem digitChar_toNat {d : Nat} (hd : d ≤ 9) : (digitChar d).toNat = 0x30 + d := by
  rw [digitChar, UInt8.toNat_ofNat']
  exact Nat.mod_eq_of_lt (by omega)

@[simp] theorem isDigit_digitChar {d : Nat} (hd : d ≤ 9) : isDigit (digitChar d) = true := by
  rw [isDigit_iff, digitChar_toNat hd]
  omega

@[simp] theorem digitValue_digitChar {d : Nat} (hd : d ≤ 9) : digitValue (digitChar d) = d := by
  rw [digitValue, digitChar_toNat hd]
  omega

theorem digitValue_le {c : UInt8} (hc : isDigit c = true) : digitValue c ≤ 9 := by
  rw [isDigit_iff] at hc
  unfold digitValue
  omega

theorem digitChar_digitValue {c : UInt8} (hc : isDigit c = true) : digitChar (digitValue c) = c := by
  have hle := digitValue_le hc
  rw [isDigit_iff] at hc
  apply UInt8.toNat_inj.mp
  rw [digitChar_toNat hle, digitValue]
  omega

@[simp] theorem decimalValue_nil : decimalValue [] = 0 := rfl

theorem decimalValue_concat (text : List UInt8) (c : UInt8) :
    decimalValue (text ++ [c]) = decimalValue text * 10 + digitValue c := by
  simp [decimalValue]

theorem decimalValue_append (front back : List UInt8) :
    decimalValue (front ++ back) = decimalValue front * 10 ^ back.length + decimalValue back := by
  induction back using List.reverseRecOn with
  | nil => simp
  | append_singleton back c ih =>
    rw [← List.append_assoc, decimalValue_concat, ih, decimalValue_concat, List.length_append,
      List.length_singleton, pow_succ]
    ring

theorem decimalValue_cons (c : UInt8) (text : List UInt8) :
    decimalValue (c :: text) = digitValue c * 10 ^ text.length + decimalValue text := by
  have happend := decimalValue_append [c] text
  simpa [decimalValue] using happend

theorem decimalValue_zeros (n : Nat) : decimalValue (List.replicate n 0x30) = 0 := by
  induction n with
  | zero => rfl
  | succ n ih =>
    rw [List.replicate_succ, decimalValue_cons, ih]
    simp [digitValue]

/-- Every byte is a digit. -/
def IsNumeral (text : List UInt8) : Prop := ∀ c ∈ text, isDigit c = true

namespace IsNumeral

variable {front back text : List UInt8} {c : UInt8}

theorem nil : IsNumeral [] := by
  intro c hc
  cases hc

theorem cons_iff : IsNumeral (c :: text) ↔ isDigit c = true ∧ IsNumeral text := List.forall_mem_cons

theorem append_iff : IsNumeral (front ++ back) ↔ IsNumeral front ∧ IsNumeral back := List.forall_mem_append

theorem zeros (n : Nat) : IsNumeral (List.replicate n 0x30) := by
  intro c hc
  rw [List.eq_of_mem_replicate hc]
  decide

theorem value_lt (h : IsNumeral text) : decimalValue text < 10 ^ text.length := by
  induction text with
  | nil => simp
  | cons c text ih =>
    obtain ⟨hdigit, hrest⟩ := cons_iff.mp h
    have hle := digitValue_le hdigit
    have hlt := ih hrest
    rw [decimalValue_cons, List.length_cons, pow_succ]
    nlinarith

end IsNumeral

/-- A numeral without a leading zero. -/
structure IsCanonical (text : List UInt8) : Prop where
  numeral : IsNumeral text
  leading : ∃ c rest, text = c :: rest ∧ c ≠ 0x30

namespace IsCanonical

variable {text other : List UInt8}

theorem length_pos (h : IsCanonical text) : 0 < text.length := by
  obtain ⟨c, rest, rfl, -⟩ := h.leading
  simp

theorem value_ge (h : IsCanonical text) : 10 ^ (text.length - 1) ≤ decimalValue text := by
  obtain ⟨c, rest, rfl, hc⟩ := h.leading
  obtain ⟨hdigit, -⟩ := IsNumeral.cons_iff.mp h.numeral
  have hpositive : 1 ≤ digitValue c := by
    by_contra hzero
    apply hc
    rw [← digitChar_digitValue hdigit, show digitValue c = 0 by omega]
    rfl
  rw [decimalValue_cons, List.length_cons, Nat.add_sub_cancel]
  have hleading := Nat.mul_le_mul_right (10 ^ rest.length) hpositive
  omega

theorem length_le {n : Nat} (h : IsCanonical text) (hlt : decimalValue text < 10 ^ n) : text.length ≤ n := by
  by_contra hlong
  have hpow : 10 ^ n ≤ 10 ^ (text.length - 1) := Nat.pow_le_pow_right (by decide) (by omega)
  have := h.value_ge
  omega

theorem concat {d : Nat} (h : IsCanonical text) (hd : d ≤ 9) : IsCanonical (text ++ [digitChar d]) := by
  obtain ⟨c, rest, rfl, hc⟩ := h.leading
  exact ⟨IsNumeral.append_iff.mpr ⟨h.numeral, IsNumeral.cons_iff.mpr ⟨isDigit_digitChar hd, .nil⟩⟩,
    c, rest ++ [digitChar d], rfl, hc⟩

theorem digit {d : Nat} (hpos : 0 < d) (hd : d ≤ 9) : IsCanonical [digitChar d] := by
  refine ⟨IsNumeral.cons_iff.mpr ⟨isDigit_digitChar hd, .nil⟩, digitChar d, [], rfl, ?_⟩
  intro hzero
  have hvalue := digitValue_digitChar hd
  rw [hzero, show digitValue 0x30 = 0 by rfl] at hvalue
  omega

theorem value_pos (h : IsCanonical text) : 0 < decimalValue text :=
  Nat.lt_of_lt_of_le (pow_pos (by norm_num) _) h.value_ge

end IsCanonical

/-- A numeral as large as its length allows has no leading zero. -/
theorem IsNumeral.canonical {text : List UInt8} (h : IsNumeral text) (hne : text ≠ [])
    (hvalue : 10 ^ (text.length - 1) ≤ decimalValue text) : IsCanonical text where
  numeral := h
  leading := by
    obtain ⟨c, rest, rfl⟩ := List.exists_cons_of_ne_nil hne
    refine ⟨c, rest, rfl, ?_⟩
    rintro rfl
    have hlt := (IsNumeral.cons_iff.mp h).2.value_lt
    rw [decimalValue_cons] at hvalue
    simp only [digitValue, List.length_cons, Nat.add_sub_cancel] at hvalue
    simp at hvalue
    omega

end Basis
