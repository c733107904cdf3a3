import Mathlib.Tactic.Common

/-!
# Base64 with padding
-/

namespace Basis.Base64

set_option autoImplicit false

def digit (n : Nat) : Char :=
  if n < 26 then Char.ofNat (65 + n)
  else if n < 52 then Char.ofNat (97 + (n - 26))
  else if n < 62 then Char.ofNat (48 + (n - 52))
  else if n = 62 then '+'
  else '/'

/-- Three bytes make four digits; one or two bytes left over are padded. -/
def encode : List UInt8 → List Char
  | [] => []
  | [a] => [digit (a.toNat / 4), digit (a.toNat % 4 * 16), '=', '=']
  | [a, b] =>
    [digit (a.toNat / 4), digit (a.toNat % 4 * 16 + b.toNat / 16), digit (b.toNat % 16 * 4), '=']
  | a :: b :: c :: rest =>
    digit (a.toNat / 4) :: digit (a.toNat % 4 * 16 + b.toNat / 16) ::
      digit (b.toNat % 16 * 4 + c.toNat / 64) :: digit (c.toNat % 64) :: encode rest

/-- What holds of the 64 digits and of the padding holds of every character of a text. -/
theorem encode_forall {P : Char → Prop} (hdigit : ∀ n, n < 64 → P (digit n)) (hpad : P '=')
    (bytes : List UInt8) : ∀ c ∈ encode bytes, P c := by
  induction bytes using encode.induct with
  | case1 => exact fun c hc => nomatch hc
  | case2 a =>
    have ha := a.toNat_lt
    simp only [encode, List.forall_mem_cons]
    exact ⟨hdigit _ (by omega), hdigit _ (by omega), hpad, hpad, fun c hc => nomatch hc⟩
  | case3 a b =>
    have ha := a.toNat_lt
    have hb := b.toNat_lt
    simp only [encode, List.forall_mem_cons]
    exact ⟨hdigit _ (by omega), hdigit _ (by omega), hdigit _ (by omega), hpad, fun c hc => nomatch hc⟩
  | case4 a b c rest ih =>
    have ha := a.toNat_lt
    have hb := b.toNat_lt
    have hc := c.toNat_lt
    simp only [encode, List.forall_mem_cons]
    exact ⟨hdigit _ (by omega), hdigit _ (by omega), hdigit _ (by omega), hdigit _ (by omega), ih⟩

/-- The first six bits of the bytes are the first digit of the text. -/
theorem encode_cons (a : UInt8) (bytes : List UInt8) :
    ∃ tail, encode (a :: bytes) = digit (a.toNat / 4) :: tail := by
  match bytes with
  | [] => exact ⟨_, rfl⟩
  | [b] => exact ⟨_, rfl⟩
  | b :: c :: rest => exact ⟨_, rfl⟩

end Basis.Base64
