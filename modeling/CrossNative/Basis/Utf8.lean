import Mathlib.Data.List.Basic

/-!
# Well-formed UTF-8, byte by byte

A character above ASCII is a lead byte and, for each of the ranges the lead byte asks for,
one byte in that range. Every such sequence encodes exactly one character.
-/

namespace Basis

set_option autoImplicit false

/-- The bytes of a list of characters. -/
def utf8Text (chars : List Char) : List UInt8 := chars.flatMap String.utf8EncodeChar

def IsUtf8 (bytes : List UInt8) : Prop := ∃ chars, bytes = utf8Text chars

/-- The ranges of the bytes after a lead byte above ASCII. -/
def followRanges (lead : UInt8) : Option (List (UInt8 × UInt8)) :=
  if 0xC2 ≤ lead ∧ lead ≤ 0xDF then some [(0x80, 0xBF)]
  else if lead = 0xE0 then some [(0xA0, 0xBF), (0x80, 0xBF)]
  else if 0xE1 ≤ lead ∧ lead ≤ 0xEC ∨ lead = 0xEE ∨ lead = 0xEF then some [(0x80, 0xBF), (0x80, 0xBF)]
  else if lead = 0xED then some [(0x80, 0x9F), (0x80, 0xBF)]
  else if lead = 0xF0 then some [(0x90, 0xBF), (0x80, 0xBF), (0x80, 0xBF)]
  else if 0xF1 ≤ lead ∧ lead ≤ 0xF3 then some [(0x80, 0xBF), (0x80, 0xBF), (0x80, 0xBF)]
  else if lead = 0xF4 then some [(0x80, 0x8F), (0x80, 0xBF), (0x80, 0xBF)]
  else none

def InRanges : List (UInt8 × UInt8) → List UInt8 → Prop
  | [], [] => True
  | (low, high) :: ranges, b :: bytes => low ≤ b ∧ b ≤ high ∧ InRanges ranges bytes
  | _, _ => False

theorem InRanges.length_eq {ranges : List (UInt8 × UInt8)} {bytes : List UInt8} (h : InRanges ranges bytes) :
    bytes.length = ranges.length := by
  induction ranges generalizing bytes with
  | nil =>
    cases bytes with
    | nil => rfl
    | cons b bytes => exact h.elim
  | cons range ranges ih =>
    cases bytes with
    | nil => exact h.elim
    | cons b bytes =>
      obtain ⟨-, -, hrest⟩ := h
      rw [List.length_cons, List.length_cons, ih hrest]

theorem IsUtf8.nil : IsUtf8 [] := ⟨[], rfl⟩

theorem IsUtf8.append {front back : List UInt8} (hfront : IsUtf8 front) (hback : IsUtf8 back) :
    IsUtf8 (front ++ back) := by
  obtain ⟨chars, rfl⟩ := hfront
  obtain ⟨chars', rfl⟩ := hback
  exact ⟨chars ++ chars', by simp [utf8Text]⟩

theorem isUtf8_char (c : Char) : IsUtf8 (String.utf8EncodeChar c) := ⟨[c], by simp [utf8Text]⟩

theorem exists_char {v : Nat} (h : v.isValidChar) : ∃ c : Char, c.toNat = v := by
  have hsmall : v < UInt32.size := by
    rcases h with h | h <;> simp [UInt32.size] <;> omega
  exact ⟨⟨UInt32.ofNatLT v hsmall, by simpa [UInt32.isValidChar] using h⟩, by simp [Char.toNat]⟩

/-- The four lengths of an encoding. -/
theorem utf8EncodeChar_eq (c : Char) : String.utf8EncodeChar c =
    if c.toNat ≤ 0x7F then [UInt8.ofNat c.toNat]
    else if c.toNat ≤ 0x7FF then
      [UInt8.ofNat (c.toNat / 64 % 0x20 + 0xC0), UInt8.ofNat (c.toNat % 0x40 + 0x80)]
    else if c.toNat ≤ 0xFFFF then
      [UInt8.ofNat (c.toNat / 4096 % 0x10 + 0xE0), UInt8.ofNat (c.toNat / 64 % 0x40 + 0x80),
        UInt8.ofNat (c.toNat % 0x40 + 0x80)]
    else
      [UInt8.ofNat (c.toNat / 262144 % 0x08 + 0xF0), UInt8.ofNat (c.toNat / 4096 % 0x40 + 0x80),
        UInt8.ofNat (c.toNat / 64 % 0x40 + 0x80), UInt8.ofNat (c.toNat % 0x40 + 0x80)] := rfl

theorem utf8EncodeChar_ascii {c : Char} (h : c.toNat < 0x80) :
    String.utf8EncodeChar c = [UInt8.ofNat c.toNat] := by
  rw [utf8EncodeChar_eq, if_pos (Nat.le_of_lt_succ h)]

theorem isUtf8_ascii {b : UInt8} (h : b < 0x80) : IsUtf8 [b] := by
  have hb : b.toNat < 0x80 := by simpa [UInt8.lt_iff_toNat_lt] using h
  obtain ⟨c, hc⟩ := exists_char (v := b.toNat) (Or.inl (by omega))
  have hencode := utf8EncodeChar_ascii (c := c) (by omega)
  rw [hc, UInt8.ofNat_toNat] at hencode
  rw [← hencode]
  exact isUtf8_char c

theorem uint8_eq_ofNat {b : UInt8} {n : Nat} (h : b.toNat = n) : UInt8.ofNat n = b := by
  rw [← h, UInt8.ofNat_toNat]

theorem encode_two (lead : UInt8) {b : UInt8} (hlead : 0xC2 ≤ lead.toNat ∧ lead.toNat ≤ 0xDF)
    (hb : 0x80 ≤ b.toNat ∧ b.toNat ≤ 0xBF) :
    ∃ c : Char, String.utf8EncodeChar c = [lead, b] ∧ c.toNat = (lead.toNat - 0xC0) * 64 + (b.toNat - 0x80) := by
  obtain ⟨c, hc⟩ := exists_char (v := (lead.toNat - 0xC0) * 64 + (b.toNat - 0x80)) (Or.inl (by omega))
  refine ⟨c, ?_, hc⟩
  rw [utf8EncodeChar_eq, hc, if_neg (by omega), if_pos (by omega), uint8_eq_ofNat (b := lead) (by omega), uint8_eq_ofNat (b := b) (by omega)]

theorem encode_three (lead : UInt8) {a b : UInt8} (hlead : 0xE0 ≤ lead.toNat ∧ lead.toNat ≤ 0xEF)
    (ha : 0x80 ≤ a.toNat ∧ a.toNat ≤ 0xBF) (hb : 0x80 ≤ b.toNat ∧ b.toNat ≤ 0xBF)
    (hlow : lead.toNat = 0xE0 → 0xA0 ≤ a.toNat) (hsurrogate : lead.toNat = 0xED → a.toNat ≤ 0x9F) :
    ∃ c : Char, String.utf8EncodeChar c = [lead, a, b] ∧
      c.toNat = (lead.toNat - 0xE0) * 4096 + (a.toNat - 0x80) * 64 + (b.toNat - 0x80) := by
  have hvalid : ((lead.toNat - 0xE0) * 4096 + (a.toNat - 0x80) * 64 + (b.toNat - 0x80)).isValidChar := by
    unfold Nat.isValidChar
    omega
  obtain ⟨c, hc⟩ := exists_char hvalid
  refine ⟨c, ?_, hc⟩
  rw [utf8EncodeChar_eq, hc, if_neg (by omega), if_neg (by omega), if_pos (by omega), uint8_eq_ofNat (b := lead) (by omega),
    uint8_eq_ofNat (b := a) (by omega), uint8_eq_ofNat (b := b) (by omega)]

theorem encode_four (lead : UInt8) {a b d : UInt8} (hlead : 0xF0 ≤ lead.toNat ∧ lead.toNat ≤ 0xF4)
    (ha : 0x80 ≤ a.toNat ∧ a.toNat ≤ 0xBF) (hb : 0x80 ≤ b.toNat ∧ b.toNat ≤ 0xBF)
    (hd : 0x80 ≤ d.toNat ∧ d.toNat ≤ 0xBF) (hlow : lead.toNat = 0xF0 → 0x90 ≤ a.toNat)
    (hhigh : lead.toNat = 0xF4 → a.toNat ≤ 0x8F) :
    ∃ c : Char, String.utf8EncodeChar c = [lead, a, b, d] ∧
      c.toNat = (lead.toNat - 0xF0) * 262144 + (a.toNat - 0x80) * 4096 + (b.toNat - 0x80) * 64 + (d.toNat - 0x80) := by
  have hvalid : ((lead.toNat - 0xF0) * 262144 + (a.toNat - 0x80) * 4096 + (b.toNat - 0x80) * 64 +
      (d.toNat - 0x80)).isValidChar := by
    unfold Nat.isValidChar
    omega
  obtain ⟨c, hc⟩ := exists_char hvalid
  refine ⟨c, ?_, hc⟩
  rw [utf8EncodeChar_eq, hc, if_neg (by omega), if_neg (by omega), if_neg (by omega), uint8_eq_ofNat (b := lead) (by omega),
    uint8_eq_ofNat (b := a) (by omega), uint8_eq_ofNat (b := b) (by omega), uint8_eq_ofNat (b := d) (by omega)]

/-- A byte between two others, as a condition on numbers. -/
def Between (low high b : UInt8) : Prop := low.toNat ≤ b.toNat ∧ b.toNat ≤ high.toNat

theorem InRanges.one_iff {low high : UInt8} {bytes : List UInt8} :
    InRanges [(low, high)] bytes ↔ ∃ b, bytes = [b] ∧ Between low high b := by
  match bytes with
  | [] => simp [InRanges]
  | [b] => simp [InRanges, Between, UInt8.le_iff_toNat_le]
  | _ :: _ :: _ => simp [InRanges]

theorem InRanges.two_iff {low high low' high' : UInt8} {bytes : List UInt8} :
    InRanges [(low, high), (low', high')] bytes ↔
      ∃ a b, bytes = [a, b] ∧ Between low high a ∧ Between low' high' b := by
  match bytes with
  | [] => simp [InRanges]
  | [a] => simp [InRanges]
  | [a, b] => simp [InRanges, Between, UInt8.le_iff_toNat_le, and_assoc]
  | _ :: _ :: _ :: _ => simp [InRanges]

theorem InRanges.three_iff {low high low' high' low'' high'' : UInt8} {bytes : List UInt8} :
    InRanges [(low, high), (low', high'), (low'', high'')] bytes ↔
      ∃ a b d, bytes = [a, b, d] ∧ Between low high a ∧ Between low' high' b ∧ Between low'' high'' d := by
  match bytes with
  | [] => simp [InRanges]
  | [a] => simp [InRanges]
  | [a, b] => simp [InRanges]
  | [a, b, d] => simp [InRanges, Between, UInt8.le_iff_toNat_le, and_assoc]
  | _ :: _ :: _ :: _ :: _ => simp [InRanges]

theorem followRanges_eq (lead : UInt8) : followRanges lead =
    if 0xC2 ≤ lead.toNat ∧ lead.toNat ≤ 0xDF then some [(0x80, 0xBF)]
    else if lead.toNat = 0xE0 then some [(0xA0, 0xBF), (0x80, 0xBF)]
    else if 0xE1 ≤ lead.toNat ∧ lead.toNat ≤ 0xEC ∨ lead.toNat = 0xEE ∨ lead.toNat = 0xEF then
      some [(0x80, 0xBF), (0x80, 0xBF)]
    else if lead.toNat = 0xED then some [(0x80, 0x9F), (0x80, 0xBF)]
    else if lead.toNat = 0xF0 then some [(0x90, 0xBF), (0x80, 0xBF), (0x80, 0xBF)]
    else if 0xF1 ≤ lead.toNat ∧ lead.toNat ≤ 0xF3 then some [(0x80, 0xBF), (0x80, 0xBF), (0x80, 0xBF)]
    else if lead.toNat = 0xF4 then some [(0x80, 0x8F), (0x80, 0xBF), (0x80, 0xBF)]
    else none := by
  simp only [followRanges, UInt8.le_iff_toNat_le, ← UInt8.toNat_inj]
  rfl

/-- A lead byte and bytes in its ranges encode a character above ASCII. -/
theorem encode_of_ranges {lead : UInt8} {ranges : List (UInt8 × UInt8)} {bytes : List UInt8}
    (hlead : followRanges lead = some ranges) (hbytes : InRanges ranges bytes) :
    ∃ c : Char, String.utf8EncodeChar c = lead :: bytes ∧ 0x80 ≤ c.toNat := by
  rw [followRanges_eq] at hlead
  split at hlead
  · obtain rfl := Option.some.inj hlead
    obtain ⟨b, rfl, hb⟩ := InRanges.one_iff.mp hbytes
    simp only [Between, UInt8.reduceToNat] at hb
    obtain ⟨c, hc, hvalue⟩ := encode_two lead (by omega) hb
    exact ⟨c, hc, by omega⟩
  have hthree {low high a b : UInt8} (ha : Between low high a) (hb : Between 0x80 0xBF b)
      (hrange : 0xE0 ≤ lead.toNat ∧ lead.toNat ≤ 0xEF ∧ 0x80 ≤ low.toNat ∧ high.toNat ≤ 0xBF ∧
        (lead.toNat = 0xE0 → 0xA0 ≤ low.toNat) ∧ (lead.toNat = 0xED → high.toNat ≤ 0x9F)) :
      ∃ c : Char, String.utf8EncodeChar c = [lead, a, b] ∧ 0x80 ≤ c.toNat := by
    simp only [Between, UInt8.reduceToNat] at ha hb
    obtain ⟨c, hc, hvalue⟩ := encode_three lead (a := a) (by omega) (by omega) hb (by omega) (by omega)
    exact ⟨c, hc, by omega⟩
  have hfour {low high a b d : UInt8} (ha : Between low high a) (hb : Between 0x80 0xBF b)
      (hd : Between 0x80 0xBF d)
      (hrange : 0xF0 ≤ lead.toNat ∧ lead.toNat ≤ 0xF4 ∧ 0x80 ≤ low.toNat ∧ high.toNat ≤ 0xBF ∧
        (lead.toNat = 0xF0 → 0x90 ≤ low.toNat) ∧ (lead.toNat = 0xF4 → high.toNat ≤ 0x8F)) :
      ∃ c : Char, String.utf8EncodeChar c = [lead, a, b, d] ∧ 0x80 ≤ c.toNat := by
    simp only [Between, UInt8.reduceToNat] at ha hb hd
    obtain ⟨c, hc, hvalue⟩ := encode_four lead (a := a) (by omega) (by omega) hb hd (by omega) (by omega)
    exact ⟨c, hc, by omega⟩
  split at hlead
  · obtain rfl := Option.some.inj hlead
    obtain ⟨a, b, rfl, ha, hb⟩ := InRanges.two_iff.mp hbytes
    exact hthree ha hb (by simp only [UInt8.reduceToNat]; omega)
  split at hlead
  · obtain rfl := Option.some.inj hlead
    obtain ⟨a, b, rfl, ha, hb⟩ := InRanges.two_iff.mp hbytes
    exact hthree ha hb (by simp only [UInt8.reduceToNat]; omega)
  split at hlead
  · obtain rfl := Option.some.inj hlead
    obtain ⟨a, b, rfl, ha, hb⟩ := InRanges.two_iff.mp hbytes
    exact hthree ha hb (by simp only [UInt8.reduceToNat]; omega)
  split at hlead
  · obtain rfl := Option.some.inj hlead
    obtain ⟨a, b, d, rfl, ha, hb, hd⟩ := InRanges.three_iff.mp hbytes
    exact hfour ha hb hd (by simp only [UInt8.reduceToNat]; omega)
  split at hlead
  · obtain rfl := Option.some.inj hlead
    obtain ⟨a, b, d, rfl, ha, hb, hd⟩ := InRanges.three_iff.mp hbytes
    exact hfour ha hb hd (by simp only [UInt8.reduceToNat]; omega)
  split at hlead
  · obtain rfl := Option.some.inj hlead
    obtain ⟨a, b, d, rfl, ha, hb, hd⟩ := InRanges.three_iff.mp hbytes
    exact hfour ha hb hd (by simp only [UInt8.reduceToNat]; omega)
  · cases hlead

theorem toNat_valid (c : Char) : c.toNat < 0xD800 ∨ 0xDFFF < c.toNat ∧ c.toNat < 0x110000 := c.valid

theorem toNat_ofNat_lt {n : Nat} (hn : n < 256) : (UInt8.ofNat n).toNat = n := by
  rw [UInt8.toNat_ofNat', Nat.mod_eq_of_lt hn]

theorem between_ofNat {low high : UInt8} {n : Nat} (hn : n < 256) (hlow : low.toNat ≤ n) (hhigh : n ≤ high.toNat) :
    Between low high (UInt8.ofNat n) := by
  rw [Between, toNat_ofNat_lt hn]
  exact ⟨hlow, hhigh⟩

/-- Every character above ASCII is encoded by a lead byte and bytes in its ranges. -/
theorem ranges_of_encode {c : Char} (h : 0x80 ≤ c.toNat) :
    ∃ lead ranges bytes, String.utf8EncodeChar c = lead :: bytes ∧ followRanges lead = some ranges ∧
      InRanges ranges bytes := by
  have hvalid := toNat_valid c
  rw [utf8EncodeChar_eq, if_neg (by omega)]
  have htail (n : Nat) : Between 0x80 0xBF (UInt8.ofNat (n % 0x40 + 0x80)) :=
    between_ofNat (by omega) (by simp only [UInt8.reduceToNat]; omega) (by simp only [UInt8.reduceToNat]; omega)
  split
  · refine ⟨_, [(0x80, 0xBF)], _, rfl, ?_, InRanges.one_iff.mpr ⟨_, rfl, htail _⟩⟩
    rw [followRanges_eq, toNat_ofNat_lt (by omega), if_pos (by omega)]
  split
  · have hranges : ∃ low high, followRanges (UInt8.ofNat (c.toNat / 4096 % 0x10 + 0xE0)) =
        some [(low, high), (0x80, 0xBF)] ∧ Between low high (UInt8.ofNat (c.toNat / 64 % 0x40 + 0x80)) := by
      rw [followRanges_eq, toNat_ofNat_lt (by omega), if_neg (by omega)]
      by_cases hzero : c.toNat / 4096 = 0
      · rw [if_pos (by omega)]
        exact ⟨_, _, rfl, between_ofNat (by omega) (by simp only [UInt8.reduceToNat]; omega)
          (by simp only [UInt8.reduceToNat]; omega)⟩
      rw [if_neg (by omega)]
      by_cases hsurrogate : c.toNat / 4096 = 0xD
      · rw [if_neg (by omega), if_pos (by omega)]
        exact ⟨_, _, rfl, between_ofNat (by omega) (by simp only [UInt8.reduceToNat]; omega)
          (by simp only [UInt8.reduceToNat]; omega)⟩
      · rw [if_pos (by omega)]
        exact ⟨_, _, rfl, htail _⟩
    obtain ⟨low, high, hranges, hfirst⟩ := hranges
    exact ⟨_, _, _, rfl, hranges, InRanges.two_iff.mpr ⟨_, _, rfl, hfirst, htail _⟩⟩
  · have hranges : ∃ low high, followRanges (UInt8.ofNat (c.toNat / 262144 % 0x08 + 0xF0)) =
        some [(low, high), (0x80, 0xBF), (0x80, 0xBF)] ∧
          Between low high (UInt8.ofNat (c.toNat / 4096 % 0x40 + 0x80)) := by
      rw [followRanges_eq, toNat_ofNat_lt (by omega), if_neg (by omega), if_neg (by omega), if_neg (by omega),
        if_neg (by omega)]
      by_cases hzero : c.toNat / 262144 = 0
      · rw [if_pos (by omega)]
        exact ⟨_, _, rfl, between_ofNat (by omega) (by simp only [UInt8.reduceToNat]; omega)
          (by simp only [UInt8.reduceToNat]; omega)⟩
      rw [if_neg (by omega)]
      by_cases hlast : c.toNat / 262144 = 4
      · rw [if_neg (by omega), if_pos (by omega)]
        exact ⟨_, _, rfl, between_ofNat (by omega) (by simp only [UInt8.reduceToNat]; omega)
          (by simp only [UInt8.reduceToNat]; omega)⟩
      · rw [if_pos (by omega)]
        exact ⟨_, _, rfl, htail _⟩
    obtain ⟨low, high, hranges, hfirst⟩ := hranges
    exact ⟨_, _, _, rfl, hranges, InRanges.three_iff.mpr ⟨_, _, _, rfl, hfirst, htail _, htail _⟩⟩

/-! ## Byte arrays and strings -/

def bytesOf (s : String) : List UInt8 := s.toUTF8.data.toList

/-- The string the bytes encode, if they are well formed. -/
def textOf? (bytes : List UInt8) : Option String := String.fromUTF8? ⟨bytes.toArray⟩

theorem mk_eq_toByteArray (bytes : List UInt8) : ByteArray.mk bytes.toArray = bytes.toByteArray :=
  ByteArray.ext List.data_toByteArray.symm

theorem isValidUTF8_iff {bytes : List UInt8} : ByteArray.IsValidUTF8 ⟨bytes.toArray⟩ ↔ IsUtf8 bytes := by
  rw [mk_eq_toByteArray]
  constructor
  · rintro ⟨chars, hchars⟩
    exact ⟨chars, List.toByteArray_inj.mp hchars⟩
  · rintro ⟨chars, rfl⟩
    exact ⟨chars, rfl⟩

theorem textOf?_isSome {bytes : List UInt8} : (textOf? bytes).isSome = true ↔ IsUtf8 bytes := by
  rw [← isValidUTF8_iff, textOf?, String.fromUTF8?]
  by_cases h : ByteArray.IsValidUTF8 ⟨bytes.toArray⟩ <;> simp [h]

theorem bytesOf_of_textOf? {bytes : List UInt8} {s : String} (h : textOf? bytes = some s) : bytesOf s = bytes := by
  rw [textOf?, String.fromUTF8?] at h
  split at h
  · obtain rfl := Option.some.inj h
    rfl
  · cases h

theorem textOf?_bytesOf (s : String) : textOf? (bytesOf s) = some s := by
  have hbytes : ByteArray.mk (bytesOf s).toArray = s.toByteArray := rfl
  rw [textOf?, String.fromUTF8?, hbytes, dif_pos s.isValidUTF8]
  rfl

theorem isUtf8_bytesOf (s : String) : IsUtf8 (bytesOf s) :=
  textOf?_isSome.mp (by rw [textOf?_bytesOf]; rfl)

theorem bytesOf_inj {s t : String} (h : bytesOf s = bytesOf t) : s = t := by
  have hs := textOf?_bytesOf s
  rw [h, textOf?_bytesOf] at hs
  exact (Option.some.inj hs).symm

theorem bytesOf_append (s t : String) : bytesOf (s ++ t) = bytesOf s ++ bytesOf t := by
  simp [bytesOf]

theorem bytesOf_ofList (chars : List Char) : bytesOf (String.ofList chars) = utf8Text chars := by
  have hdata : (String.ofList chars).toByteArray = (utf8Text chars).toByteArray := rfl
  rw [bytesOf, String.toUTF8, hdata, List.data_toByteArray]

/-! ## Front and back of a text -/

theorem lead_high {lead : UInt8} {ranges : List (UInt8 × UInt8)} (h : followRanges lead = some ranges) :
    0xC2 ≤ lead.toNat := by
  by_contra hlow
  rw [followRanges_eq, if_neg (by omega), if_neg (by omega), if_neg (by omega), if_neg (by omega), if_neg (by omega),
    if_neg (by omega), if_neg (by omega)] at h
  cases h

/-- The bytes of a character beyond ASCII. -/
def IsSequence (lead : UInt8) (bytes : List UInt8) : Prop := ∃ ranges, followRanges lead = some ranges ∧ InRanges ranges bytes

theorem encode_cases (c : Char) : ∃ lead bytes, String.utf8EncodeChar c = lead :: bytes ∧
    (lead < 0x80 ∧ bytes = [] ∨ ¬ lead < 0x80 ∧ IsSequence lead bytes) := by
  by_cases h : c.toNat < 0x80
  · refine ⟨_, [], utf8EncodeChar_ascii h, Or.inl ⟨?_, rfl⟩⟩
    rw [UInt8.lt_iff_toNat_lt, toNat_ofNat_lt (by omega)]
    exact h
  · obtain ⟨lead, ranges, bytes, hencode, hlead, hbytes⟩ := ranges_of_encode (Nat.le_of_not_lt h)
    refine ⟨lead, bytes, hencode, Or.inr ⟨?_, ranges, hlead, hbytes⟩⟩
    intro hlow
    have := lead_high hlead
    have : lead.toNat < 0x80 := by simpa [UInt8.lt_iff_toNat_lt] using hlow
    omega

theorem IsSequence.append_inj {lead : UInt8} {bytes bytes' rest rest' : List UInt8} (h : IsSequence lead bytes)
    (h' : IsSequence lead bytes') (heq : bytes ++ rest = bytes' ++ rest') : bytes = bytes' ∧ rest = rest' := by
  obtain ⟨ranges, hlead, hbytes⟩ := h
  obtain ⟨ranges', hlead', hbytes'⟩ := h'
  obtain rfl := Option.some.inj (hlead.symm.trans hlead')
  exact List.append_inj heq (hbytes.length_eq.trans hbytes'.length_eq.symm)

theorem isUtf8_cons_ascii {b : UInt8} (h : b < 0x80) (rest : List UInt8) : IsUtf8 (b :: rest) ↔ IsUtf8 rest := by
  constructor
  · rintro ⟨chars, hchars⟩
    cases chars with
    | nil => cases hchars
    | cons c chars =>
      obtain ⟨lead, bytes, hencode, hcases⟩ := encode_cases c
      rw [utf8Text, List.flatMap_cons, hencode, List.cons_append] at hchars
      obtain ⟨rfl, hrest⟩ := List.cons.inj hchars
      rcases hcases with ⟨-, rfl⟩ | ⟨hnot, -⟩
      · exact ⟨chars, hrest⟩
      · exact (hnot h).elim
  · intro hrest
    exact (isUtf8_ascii h).append hrest

theorem isUtf8_cons_high {b : UInt8} (h : ¬ b < 0x80) (rest : List UInt8) :
    IsUtf8 (b :: rest) ↔ ∃ bytes rest', IsSequence b bytes ∧ rest = bytes ++ rest' ∧ IsUtf8 rest' := by
  constructor
  · rintro ⟨chars, hchars⟩
    cases chars with
    | nil => cases hchars
    | cons c chars =>
      obtain ⟨lead, bytes, hencode, hcases⟩ := encode_cases c
      rw [utf8Text, List.flatMap_cons, hencode, List.cons_append] at hchars
      obtain ⟨rfl, hrest⟩ := List.cons.inj hchars
      rcases hcases with ⟨hlow, -⟩ | ⟨-, hsequence⟩
      · exact (h hlow).elim
      · exact ⟨bytes, _, hsequence, hrest, chars, rfl⟩
  · rintro ⟨bytes, rest', ⟨ranges, hlead, hbytes⟩, rfl, hrest⟩
    obtain ⟨c, hencode, -⟩ := encode_of_ranges hlead hbytes
    have hchar := isUtf8_char c
    rw [hencode] at hchar
    exact hchar.append hrest

theorem InRanges.high {ranges : List (UInt8 × UInt8)} {bytes : List UInt8} (h : InRanges ranges bytes)
    (hranges : ∀ range ∈ ranges, 0x80 ≤ range.1.toNat) : ∀ b ∈ bytes, 0x80 ≤ b.toNat := by
  induction ranges generalizing bytes with
  | nil =>
    cases bytes with
    | nil => simp
    | cons b bytes => exact h.elim
  | cons range ranges ih =>
    obtain ⟨low, high⟩ := range
    cases bytes with
    | nil => exact h.elim
    | cons b bytes =>
      obtain ⟨hlow, -, hbytes⟩ := h
      obtain ⟨hrange, hranges⟩ := List.forall_mem_cons.mp hranges
      rw [UInt8.le_iff_toNat_le] at hlow
      exact List.forall_mem_cons.mpr ⟨Nat.le_trans hrange hlow, ih hbytes hranges⟩

theorem followRanges_high {lead : UInt8} {ranges : List (UInt8 × UInt8)} (h : followRanges lead = some ranges) :
    ∀ range ∈ ranges, 0x80 ≤ range.1.toNat := by
  rw [followRanges] at h
  repeat' split at h
  all_goals
    cases h
  all_goals
    simp

theorem IsSequence.high {lead : UInt8} {bytes : List UInt8} (h : IsSequence lead bytes) : ∀ b ∈ bytes, 0x80 ≤ b.toNat := by
  obtain ⟨ranges, hlead, hbytes⟩ := h
  exact hbytes.high (followRanges_high hlead)

/-- What follows UTF-8 is UTF-8 if the whole is. -/
theorem IsUtf8.append_iff {front : List UInt8} (h : IsUtf8 front) (back : List UInt8) :
    IsUtf8 (front ++ back) ↔ IsUtf8 back := by
  obtain ⟨chars, rfl⟩ := h
  induction chars with
  | nil => simp [utf8Text]
  | cons c chars ih =>
    obtain ⟨lead, bytes, hencode, ⟨hlow, rfl⟩ | ⟨hhigh, hsequence⟩⟩ := encode_cases c
    · rw [utf8Text, List.flatMap_cons, hencode, List.cons_append, List.nil_append, List.cons_append,
        isUtf8_cons_ascii hlow]
      exact ih
    · rw [utf8Text, List.flatMap_cons, hencode, List.cons_append, List.cons_append, List.append_assoc,
        isUtf8_cons_high hhigh, ← ih]
      constructor
      · rintro ⟨bytes', rest, hsequence', heq, hrest⟩
        obtain ⟨-, rfl⟩ := hsequence.append_inj hsequence' heq
        exact hrest
      · intro hrest
        exact ⟨bytes, _, hsequence, rfl, hrest⟩

end Basis
