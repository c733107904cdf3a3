import CrossNative.Text.Lexer

/-!
# String literals

Each character of a string literal is spelled in one of four ways. The lexer reads exactly
these spellings, and what it returns are the characters in UTF-8.
-/

namespace CrossNative.Text

set_option autoImplicit false

open Basis

/-- Four hexadecimal digits and their value. -/
def HexQuad (digits : List UInt8) (n : Nat) : Prop :=
  ∃ a b c d, digits.map Lexer.hexDigit = [some a, some b, some c, some d] ∧
    n = a * 0x1000 + b * 0x100 + c * 0x10 + d

/-- The letters after a backslash and the characters they stand for. -/
def escapes : List (UInt8 × Nat) :=
  [(quote, 0x22), (backslash, 0x5C), (0x2F, 0x2F), (0x62, 0x08), (0x66, 0x0C), (0x6E, 0x0A), (0x72, 0x0D), (0x74, 0x09)]

/-- The ways to spell a character. -/
inductive CharText : List UInt8 → Char → Prop
  | plain {c : Char} (hlow : 0x20 ≤ c.toNat) (hquote : c.toNat ≠ 0x22) (hbackslash : c.toNat ≠ 0x5C) :
      CharText (String.utf8EncodeChar c) c
  | escape {letter : UInt8} {c : Char} (h : (letter, c.toNat) ∈ escapes) : CharText [backslash, letter] c
  | unicode {digits : List UInt8} {c : Char} (h : HexQuad digits c.toNat) :
      CharText (backslash :: letterU :: digits) c
  | pair {digits digits' : List UInt8} {high low : Nat} {c : Char} (h : HexQuad digits high)
      (h' : HexQuad digits' low) (hhigh : 0xD800 ≤ high ∧ high ≤ 0xDBFF) (hlow : 0xDC00 ≤ low ∧ low ≤ 0xDFFF)
      (hc : c.toNat = 0x10000 + (high - 0xD800) * 0x400 + (low - 0xDC00)) :
      CharText (backslash :: letterU :: digits ++ backslash :: letterU :: digits') c

/-- A spelling of each of the characters. -/
inductive CharsText : List UInt8 → List Char → Prop
  | nil : CharsText [] []
  | cons {text texts : List UInt8} {c : Char} {chars : List Char} (h : CharText text c)
      (hrest : CharsText texts chars) : CharsText (text ++ texts) (c :: chars)

theorem CharText.length_pos {text : List UInt8} {c : Char} (h : CharText text c) : 0 < text.length := by
  cases h with
  | plain hlow hquote hbackslash =>
    rw [String.length_utf8EncodeChar]
    exact Char.utf8Size_pos c
  | escape hmem => simp
  | unicode hquad => simp
  | pair hquad hquad' hhigh hlow hc => simp

namespace Lexer

/-! ## Code points -/

theorem hexDigit_lt {c : UInt8} {d : Nat} (h : hexDigit c = some d) : d < 16 := by
  simp only [hexDigit, UInt8.le_iff_toNat_le, UInt8.reduceToNat] at h
  split at h
  · obtain rfl := Option.some.inj h
    omega
  split at h
  · obtain rfl := Option.some.inj h
    omega
  split at h
  · obtain rfl := Option.some.inj h
    omega
  · cases h

theorem codepointLoop_cases (factors : List Nat) (n : Nat) (s : Lexer) : ∃ read t, Reads s read t ∧
    ((∃ ds : List Nat, read.map hexDigit = ds.map some ∧ ds.length = factors.length ∧
      codepointLoop factors n s = (some (n + (List.zipWith (· <<< ·) ds factors).sum), t)) ∨
    codepointLoop factors n s = (none, t)) := by
  induction factors generalizing n s with
  | nil => exact ⟨[], s, .refl s, Or.inl ⟨[], rfl, rfl, rfl⟩⟩
  | cons factor factors ih =>
    have hget := Reads.get s
    cases hdigit : s.get.current.bind hexDigit with
    | none => exact ⟨_, s.get, hget, Or.inr (by simp only [codepointLoop, hdigit])⟩
    | some d =>
      obtain ⟨c, hc, hd⟩ := Option.bind_eq_some_iff.mp hdigit
      obtain ⟨read, t, hread, hcases⟩ := ih (n + d <<< factor) s.get
      rw [hc] at hget
      refine ⟨c :: read, t, hget.trans hread, ?_⟩
      rcases hcases with ⟨ds, hmap, hlength, hloop⟩ | hloop
      · refine Or.inl ⟨d :: ds, by simp [hd, hmap], by simp [hlength], ?_⟩
        simp only [codepointLoop, hdigit, hloop, List.zipWith_cons_cons, List.sum_cons, Nat.add_assoc]
      · exact Or.inr (by simp only [codepointLoop, hdigit, hloop])

theorem codepointLoop_of {digits rest : List UInt8} {ds : List Nat} (hdigits : digits.map hexDigit = ds.map some)
    {factors : List Nat} (hlength : ds.length = factors.length) (n : Nat) {s : Lexer}
    (hs : s.rest = digits ++ rest) : ∃ t, Reads s digits t ∧
      codepointLoop factors n s = (some (n + (List.zipWith (· <<< ·) ds factors).sum), t) := by
  induction ds generalizing digits factors n s with
  | nil =>
    obtain rfl := List.map_eq_nil_iff.mp hdigits
    obtain rfl := List.length_eq_zero_iff.mp hlength.symm
    exact ⟨s, .refl s, rfl⟩
  | cons d ds ih =>
    obtain ⟨c, digits, rfl, hd, hdigits⟩ := List.map_eq_cons_iff.mp hdigits
    obtain ⟨factor, factors, rfl⟩ := List.exists_cons_of_length_eq_add_one hlength.symm
    have hcurrent := get_current_cons hs
    obtain ⟨t, hread, hloop⟩ := ih hdigits (by simpa using hlength) (n + d <<< factor) (get_rest_cons hs)
    refine ⟨t, (Reads.byte hcurrent).trans hread, ?_⟩
    simp only [codepointLoop, hcurrent, Option.bind_some, hd, hloop, List.zipWith_cons_cons, List.sum_cons,
      Nat.add_assoc]

theorem quad_value (a b c d : Nat) :
    0 + (List.zipWith (· <<< ·) [a, b, c, d] [12, 8, 4, 0]).sum = a * 0x1000 + b * 0x100 + c * 0x10 + d := by
  simp [Nat.shiftLeft_eq, Nat.add_assoc]

theorem getCodepoint_cases (s : Lexer) : ∃ read t, Reads s read t ∧
    ((∃ n, HexQuad read n ∧ getCodepoint s = (some n, t)) ∨ getCodepoint s = (none, t)) := by
  obtain ⟨read, t, hread, ⟨ds, hmap, hlength, hloop⟩ | hloop⟩ := codepointLoop_cases [12, 8, 4, 0] 0 s
  · obtain ⟨a, b, c, d, rfl⟩ := List.length_eq_four.mp hlength
    refine ⟨read, t, hread, Or.inl ⟨_, ⟨a, b, c, d, hmap, rfl⟩, ?_⟩⟩
    rw [getCodepoint, hloop, quad_value]
  · exact ⟨read, t, hread, Or.inr hloop⟩

theorem getCodepoint_of {digits rest : List UInt8} {n : Nat} (h : HexQuad digits n) {s : Lexer}
    (hs : s.rest = digits ++ rest) : ∃ t, Reads s digits t ∧ getCodepoint s = (some n, t) := by
  obtain ⟨a, b, c, d, hmap, rfl⟩ := h
  obtain ⟨t, hread, hloop⟩ := @codepointLoop_of digits rest [a, b, c, d] hmap [12, 8, 4, 0] rfl 0 s hs
  exact ⟨t, hread, by rw [getCodepoint, hloop, quad_value]⟩

end Lexer

theorem HexQuad.lt {digits : List UInt8} {n : Nat} (h : HexQuad digits n) : n < 0x10000 := by
  obtain ⟨a, b, c, d, hmap, rfl⟩ := h
  have hbound (e : Nat) (he : some e ∈ digits.map Lexer.hexDigit) : e < 16 := by
    obtain ⟨x, -, hx⟩ := List.mem_map.mp he
    exact Lexer.hexDigit_lt hx
  rw [hmap] at hbound
  have := hbound a (by simp)
  have := hbound b (by simp)
  have := hbound c (by simp)
  have := hbound d (by simp)
  omega

theorem HexQuad.length {digits : List UInt8} {n : Nat} (h : HexQuad digits n) : digits.length = 4 := by
  obtain ⟨a, b, c, d, hmap, -⟩ := h
  have hlength := congrArg List.length hmap
  simpa using hlength

namespace Lexer

theorem or_c0 : ∀ a < 32, 0xC0 ||| a = a + 0xC0 := by decide

theorem or_e0 : ∀ a < 16, 0xE0 ||| a = a + 0xE0 := by decide

theorem or_f0 : ∀ a < 8, 0xF0 ||| a = a + 0xF0 := by decide

theorem or_80 : ∀ a < 64, 0x80 ||| a = a + 0x80 := by decide

/-- The bytes the lexer writes are the UTF-8 of the character. -/
theorem encodeCodepoint_toNat (c : Char) : encodeCodepoint c.toNat = String.utf8EncodeChar c := by
  have hvalid := toNat_valid c
  have hmask (n : Nat) : n &&& 0x3F = n % 64 := Nat.and_two_pow_sub_one_eq_mod n 6
  have hlow (n : Nat) : 0x80 ||| n % 64 = n % 64 + 0x80 := or_80 _ (by omega)
  simp only [encodeCodepoint, utf8EncodeChar_eq, Nat.shiftRight_eq_div_pow, hmask, hlow]
  by_cases hone : c.toNat < 0x80
  · rw [if_pos hone, if_pos (by omega)]
  rw [if_neg hone, if_neg (c := c.toNat ≤ 0x7F) (by omega)]
  by_cases htwo : c.toNat ≤ 0x7FF
  · rw [if_pos htwo, if_pos htwo, or_c0 _ (by omega), show c.toNat / 2 ^ 6 = c.toNat / 64 % 0x20 by omega]
  rw [if_neg htwo, if_neg htwo]
  by_cases hthree : c.toNat ≤ 0xFFFF
  · rw [if_pos hthree, if_pos hthree, or_e0 _ (by omega), show c.toNat / 2 ^ 12 = c.toNat / 4096 % 0x10 by omega]
  · rw [if_neg hthree, if_neg hthree, or_f0 _ (by omega), show c.toNat / 2 ^ 18 = c.toNat / 262144 % 0x08 by omega]

/-! ## One turn of the loop -/

/-- A turn that goes on from the bytes `before` of a character: it reads the rest of a spelling, or fails. -/
def Turn (before : List UInt8) (s : Lexer) (x : StringStep × Lexer) : Prop :=
  ∃ read, Reads s read x.2 ∧
    ((∃ c, CharText (before ++ read) c ∧ x.1 = .add (String.utf8EncodeChar c)) ∨ ∃ message, x.1 = .fail message)

theorem Turn.fails {before read : List UInt8} {s t : Lexer} (h : Reads s read t) (message : String) :
    Turn before s (.fail message, t) := ⟨read, h, Or.inr ⟨message, rfl⟩⟩

theorem Turn.reads {before read : List UInt8} {s t : Lexer} {c : Char} (h : Reads s read t)
    (hc : CharText (before ++ read) c) : Turn before s (.add (String.utf8EncodeChar c), t) :=
  ⟨read, h, Or.inl ⟨c, hc, rfl⟩⟩

/-- Bytes that have been read count as read before. -/
theorem Turn.after {before read : List UInt8} {s t : Lexer} {x : StringStep × Lexer} (h : Reads s read t)
    (hturn : Turn (before ++ read) t x) : Turn before s x := by
  obtain ⟨last, hlast, hcases⟩ := hturn
  rw [List.append_assoc] at hcases
  exact ⟨read ++ last, h.trans hlast, hcases⟩

theorem nextByteInRange_cases (ranges : List (UInt8 × UInt8)) (bytes : List UInt8) (s : Lexer) :
    ∃ read, Reads s read (nextByteInRange ranges bytes s).2 ∧
      ((InRanges ranges read ∧ (nextByteInRange ranges bytes s).1 = .add (bytes ++ read)) ∨
        (nextByteInRange ranges bytes s).1 = .fail illFormed) := by
  induction ranges generalizing bytes s with
  | nil => exact ⟨[], .refl s, Or.inl ⟨trivial, by simp [nextByteInRange]⟩⟩
  | cons range ranges ih =>
    obtain ⟨low, high⟩ := range
    have hget := Reads.get s
    cases hcurrent : s.get.current with
    | none =>
      simp only [nextByteInRange, hcurrent]
      exact ⟨_, hget, Or.inr trivial⟩
    | some c =>
      rw [hcurrent] at hget
      simp only [nextByteInRange, hcurrent]
      by_cases hrange : low ≤ c ∧ c ≤ high
      · obtain ⟨read, hread, hcases⟩ := ih (bytes ++ [c]) s.get
        rw [if_pos hrange]
        refine ⟨c :: read, hget.trans hread, ?_⟩
        rcases hcases with ⟨hin, hadd⟩ | hfail
        · exact Or.inl ⟨⟨hrange.1, hrange.2, hin⟩, by rw [hadd, List.append_assoc]; rfl⟩
        · exact Or.inr hfail
      · rw [if_neg hrange]
        exact ⟨_, hget, Or.inr rfl⟩

theorem nextByteInRange_of {ranges : List (UInt8 × UInt8)} {follow : List UInt8} (h : InRanges ranges follow)
    (bytes : List UInt8) {rest : List UInt8} {s : Lexer} (hs : s.rest = follow ++ rest) :
    ∃ t, Reads s follow t ∧ nextByteInRange ranges bytes s = (.add (bytes ++ follow), t) := by
  induction ranges generalizing follow bytes s with
  | nil =>
    cases follow with
    | nil => exact ⟨s, .refl s, by simp [nextByteInRange]⟩
    | cons c follow => exact h.elim
  | cons range ranges ih =>
    obtain ⟨low, high⟩ := range
    cases follow with
    | nil => exact h.elim
    | cons c follow =>
      obtain ⟨hlow, hhigh, hin⟩ := h
      have hcurrent := get_current_cons hs
      obtain ⟨t, hread, hnext⟩ := ih hin (bytes ++ [c]) (get_rest_cons hs)
      refine ⟨t, (Reads.byte hcurrent).trans hread, ?_⟩
      simp only [nextByteInRange, hcurrent, if_pos (And.intro hlow hhigh), hnext, List.append_assoc,
        List.singleton_append]

theorem pair_char {high low : Nat} (hhigh : 0xD800 ≤ high ∧ high ≤ 0xDBFF) (hlow : 0xDC00 ≤ low ∧ low ≤ 0xDFFF) :
    ∃ c : Char, c.toNat = 0x10000 + (high - 0xD800) * 0x400 + (low - 0xDC00) ∧
      encodeCodepoint (high <<< 10 + low - 0x35FDC00) = String.utf8EncodeChar c := by
  obtain ⟨c, hc⟩ := exists_char (v := 0x10000 + (high - 0xD800) * 0x400 + (low - 0xDC00)) (Or.inr (by omega))
  refine ⟨c, hc, ?_⟩
  rw [← encodeCodepoint_toNat, hc, Nat.shiftLeft_eq,
    show high * 2 ^ 10 + low - 0x35FDC00 = 0x10000 + (high - 0xD800) * 0x400 + (low - 0xDC00) by omega]

theorem scanLowSurrogate_turn {digits : List UInt8} {high : Nat} (h : HexQuad digits high)
    (hhigh : 0xD800 ≤ high ∧ high ≤ 0xDBFF) (s : Lexer) :
    Turn (backslash :: letterU :: digits) s (scanLowSurrogate high s) := by
  have hget := Reads.get s
  unfold scanLowSurrogate
  by_cases hbackslash : s.get.current = some backslash
  · simp only [if_pos hbackslash]
    have hfirst := Reads.byte hbackslash
    by_cases hu : s.get.get.current = some letterU
    · simp only [if_pos hu]
      have hsecond := hfirst.trans (Reads.byte hu)
      obtain ⟨read, t, hread, ⟨low, hquad, hcodepoint⟩ | hcodepoint⟩ := getCodepoint_cases s.get.get
      · simp only [hcodepoint]
        by_cases hlow : 0xDC00 ≤ low ∧ low ≤ 0xDFFF
        · obtain ⟨c, hc, hencode⟩ := pair_char hhigh hlow
          rw [if_pos hlow, hencode]
          exact .reads (hsecond.trans hread) (CharText.pair h hquad hhigh hlow hc)
        · rw [if_neg hlow]
          exact .fails (hsecond.trans hread) _
      · simp only [hcodepoint]
        exact .fails (hsecond.trans hread) _
    · simp only [if_neg hu]
      exact .fails (hfirst.trans (Reads.get s.get)) _
  · simp only [if_neg hbackslash]
    exact .fails hget _

theorem scanUnicodeEscape_turn (s : Lexer) : Turn [backslash, letterU] s (scanUnicodeEscape s) := by
  unfold scanUnicodeEscape
  obtain ⟨read, t, hread, ⟨n, hquad, hcodepoint⟩ | hcodepoint⟩ := getCodepoint_cases s
  · simp only [hcodepoint]
    by_cases hhigh : 0xD800 ≤ n ∧ n ≤ 0xDBFF
    · rw [if_pos hhigh]
      exact .after hread (scanLowSurrogate_turn hquad hhigh t)
    rw [if_neg hhigh]
    by_cases hlow : 0xDC00 ≤ n ∧ n ≤ 0xDFFF
    · rw [if_pos hlow]
      exact .fails hread _
    · rw [if_neg hlow]
      have hvalid : n.isValidChar := by
        have := hquad.lt
        unfold Nat.isValidChar
        omega
      obtain ⟨c, rfl⟩ := exists_char hvalid
      rw [encodeCodepoint_toNat]
      exact .reads hread (CharText.unicode hquad)
  · simp only [hcodepoint]
    exact .fails hread _

theorem simpleEscape_of_mem {letter : UInt8} {n : Nat} (h : (letter, n) ∈ escapes) :
    simpleEscape letter = some (.ofNat n) ∧ n < 0x80 := by
  simp only [escapes, List.mem_cons, List.not_mem_nil, or_false, Prod.mk.injEq] at h
  rcases h with ⟨rfl, rfl⟩ | ⟨rfl, rfl⟩ | ⟨rfl, rfl⟩ | ⟨rfl, rfl⟩ | ⟨rfl, rfl⟩ | ⟨rfl, rfl⟩ | ⟨rfl, rfl⟩ | ⟨rfl, rfl⟩ <;>
    decide

theorem mem_of_simpleEscape {letter value : UInt8} (h : simpleEscape letter = some value) :
    (letter, value.toNat) ∈ escapes := by
  unfold simpleEscape at h
  repeat' split at h
  all_goals cases h
  all_goals
    rename_i hletter
    rw [hletter]
    decide

theorem scanEscape_turn (s : Lexer) : Turn [backslash] s (scanEscape s) := by
  have hget := Reads.get s
  unfold scanEscape
  cases hcurrent : s.get.current with
  | none =>
    simp only [hcurrent]
    exact .fails hget _
  | some letter =>
    rw [hcurrent] at hget
    simp only [hcurrent]
    cases hescape : simpleEscape letter with
    | some value =>
      have hmem := mem_of_simpleEscape hescape
      have hvalue := (simpleEscape_of_mem hmem).2
      obtain ⟨c, hc⟩ := exists_char (v := value.toNat) (Or.inl (by omega))
      have hencode := utf8EncodeChar_ascii (c := c) (by omega)
      rw [hc, UInt8.ofNat_toNat] at hencode
      simp only [← hencode]
      exact .reads hget (CharText.escape (hc ▸ hmem))
    | none =>
      by_cases hu : letter = letterU
      · subst hu
        simp only [if_pos]
        exact .after hget (scanUnicodeEscape_turn s.get)
      · simp only [if_neg hu]
        exact .fails hget _

/-- One turn reads a character, or the closing quote, or fails. -/
theorem scanStringStep_cases (s : Lexer) :
    Turn [] s (scanStringStep s) ∨ (Reads s [quote] (scanStringStep s).2 ∧ (scanStringStep s).1 = .closed) := by
  have hget := Reads.get s
  unfold scanStringStep
  cases hcurrent : s.get.current with
  | none =>
    simp only [hcurrent]
    exact Or.inl (.fails hget _)
  | some b =>
    rw [hcurrent] at hget
    simp only [hcurrent]
    by_cases hquote : b = quote
    · subst hquote
      exact Or.inr ⟨hget, rfl⟩
    rw [if_neg hquote]
    refine Or.inl ?_
    by_cases hbackslash : b = backslash
    · subst hbackslash
      simp only [if_pos]
      exact .after hget (scanEscape_turn s.get)
    rw [if_neg hbackslash]
    by_cases hcontrol : b < 0x20
    · rw [if_pos hcontrol]
      exact .fails hget _
    rw [if_neg hcontrol]
    by_cases hascii : b < 0x80
    · rw [if_pos hascii]
      simp only [UInt8.lt_iff_toNat_lt, UInt8.reduceToNat] at hcontrol hascii
      obtain ⟨c, hc⟩ := exists_char (v := b.toNat) (Or.inl (by omega))
      have hencode := utf8EncodeChar_ascii (c := c) (by omega)
      rw [hc, UInt8.ofNat_toNat] at hencode
      rw [← hencode]
      refine .reads hget ?_
      rw [List.nil_append, Option.toList_some, ← hencode]
      refine CharText.plain (by omega) ?_ ?_
      · intro h
        exact hquote (UInt8.toNat_inj.mp (hc.symm.trans h))
      · intro h
        exact hbackslash (UInt8.toNat_inj.mp (hc.symm.trans h))
    rw [if_neg hascii]
    cases hranges : followRanges b with
    | none => exact .fails hget _
    | some ranges =>
      obtain ⟨read, hread, ⟨hin, hadd⟩ | hfail⟩ := nextByteInRange_cases ranges [b] s.get
      · obtain ⟨c, hc, hhigh⟩ := encode_of_ranges hranges hin
        refine ⟨b :: read, hget.trans hread, Or.inl ⟨c, ?_, by rw [hc]; exact hadd⟩⟩
        rw [List.nil_append, ← hc]
        exact CharText.plain (by omega) (by omega) (by omega)
      · exact ⟨b :: read, hget.trans hread, Or.inr ⟨_, hfail⟩⟩

theorem ofNat_ne {n m : Nat} (hn : n < 0x100) (hm : m < 0x100) (h : n ≠ m) : UInt8.ofNat n ≠ UInt8.ofNat m := by
  intro heq
  have hnat := congrArg UInt8.toNat heq
  rw [toNat_ofNat_lt hn, toNat_ofNat_lt hm] at hnat
  exact h hnat

theorem scanStringStep_plain {c : Char} (hlow : 0x20 ≤ c.toNat) (hquote : c.toNat ≠ 0x22) (hbackslash : c.toNat ≠ 0x5C)
    {rest : List UInt8} {s : Lexer} (hs : s.rest = String.utf8EncodeChar c ++ rest) :
    ∃ t, Reads s (String.utf8EncodeChar c) t ∧ scanStringStep s = (.add (String.utf8EncodeChar c), t) := by
  by_cases hascii : c.toNat < 0x80
  · rw [utf8EncodeChar_ascii hascii] at hs ⊢
    have hcurrent := get_current_cons hs
    refine ⟨s.get, Reads.byte hcurrent, ?_⟩
    have hquote' : UInt8.ofNat c.toNat ≠ quote := ofNat_ne (m := 0x22) (by omega) (by omega) hquote
    have hbackslash' : UInt8.ofNat c.toNat ≠ backslash := ofNat_ne (m := 0x5C) (by omega) (by omega) hbackslash
    have hcontrol : ¬ UInt8.ofNat c.toNat < 0x20 := by
      simp only [UInt8.lt_iff_toNat_lt, toNat_ofNat_lt (Nat.lt_trans hascii (by omega)), UInt8.reduceToNat]
      omega
    have hplain : UInt8.ofNat c.toNat < 0x80 := by
      simp only [UInt8.lt_iff_toNat_lt, toNat_ofNat_lt (Nat.lt_trans hascii (by omega)), UInt8.reduceToNat]
      omega
    simp only [scanStringStep, hcurrent]
    rw [if_neg hquote', if_neg hbackslash', if_neg hcontrol, if_pos hplain]
  · obtain ⟨lead, ranges, bytes, hencode, hranges, hin⟩ := ranges_of_encode (c := c) (by omega)
    rw [hencode] at hs ⊢
    have hlead := lead_high hranges
    have hcurrent := get_current_cons hs
    obtain ⟨t, hread, hnext⟩ := nextByteInRange_of hin [lead] (get_rest_cons hs)
    refine ⟨t, (Reads.byte hcurrent).trans hread, ?_⟩
    have hne {n : UInt8} (hn : n.toNat < 0x80) : lead ≠ n := by
      rintro rfl
      omega
    have hcontrol : ¬ lead < 0x20 := by
      simp only [UInt8.lt_iff_toNat_lt, UInt8.reduceToNat]
      omega
    have hplain : ¬ lead < 0x80 := by
      simp only [UInt8.lt_iff_toNat_lt, UInt8.reduceToNat]
      omega
    simp only [scanStringStep, hcurrent, hranges]
    rw [if_neg (hne (n := quote) (by decide)), if_neg (hne (n := backslash) (by decide)), if_neg hcontrol,
      if_neg hplain, hnext]
    rfl

theorem scanStringStep_backslash {rest : List UInt8} {s : Lexer} (hs : s.rest = backslash :: rest) :
    scanStringStep s = scanEscape s.get := by
  have hne : backslash ≠ quote := by decide
  simp only [scanStringStep, get_current_cons hs, if_neg hne, if_pos]

theorem scanEscape_u {rest : List UInt8} {s : Lexer} (hs : s.rest = letterU :: rest) :
    scanEscape s = scanUnicodeEscape s.get := by
  have hsimple : simpleEscape letterU = none := by decide
  simp only [scanEscape, get_current_cons hs, hsimple, if_pos]

theorem scanLowSurrogate_of (high : Nat) {digits rest : List UInt8} {low : Nat} (h : HexQuad digits low)
    (hlow : 0xDC00 ≤ low ∧ low ≤ 0xDFFF) {s : Lexer} (hs : s.rest = backslash :: letterU :: digits ++ rest) :
    ∃ t, Reads s (backslash :: letterU :: digits) t ∧
      scanLowSurrogate high s = (.add (encodeCodepoint (high <<< 10 + low - 0x35FDC00)), t) := by
  have hbackslash := get_current_cons hs
  have hrest := get_rest_cons hs
  have hu := get_current_cons hrest
  obtain ⟨t, hread, hcodepoint⟩ := getCodepoint_of h (get_rest_cons hrest)
  refine ⟨t, (Reads.byte hbackslash).trans ((Reads.byte hu).trans hread), ?_⟩
  simp only [scanLowSurrogate, hbackslash, hu, if_pos, hcodepoint, if_pos hlow]

/-- Every spelling of a character is read in one turn. -/
theorem scanStringStep_of {text rest : List UInt8} {c : Char} (h : CharText text c) {s : Lexer}
    (hs : s.rest = text ++ rest) :
    ∃ t, Reads s text t ∧ scanStringStep s = (.add (String.utf8EncodeChar c), t) := by
  cases h with
  | plain hlow hquote hbackslash => exact scanStringStep_plain hlow hquote hbackslash hs
  | escape hmem =>
    obtain ⟨hescape, hascii⟩ := simpleEscape_of_mem hmem
    have hletter := get_current_cons (get_rest_cons hs)
    refine ⟨s.get.get, (Reads.byte (get_current_cons hs)).trans (Reads.byte hletter), ?_⟩
    rw [scanStringStep_backslash hs, utf8EncodeChar_ascii hascii]
    simp only [scanEscape, hletter, hescape]
  | unicode hquad =>
    have hu := get_rest_cons hs
    obtain ⟨t, hread, hcodepoint⟩ := getCodepoint_of hquad (get_rest_cons hu)
    refine ⟨t, (Reads.byte (get_current_cons hs)).trans ((Reads.byte (get_current_cons hu)).trans hread), ?_⟩
    have hvalid := toNat_valid c
    rw [scanStringStep_backslash hs, scanEscape_u hu, scanUnicodeEscape, hcodepoint]
    simp only
    rw [if_neg (by omega), if_neg (by omega), encodeCodepoint_toNat]
  | @pair digits digits' high low c hquad hquad' hhigh hlow hc =>
    rw [List.append_assoc] at hs
    have hu := get_rest_cons hs
    obtain ⟨t, hread, hcodepoint⟩ := getCodepoint_of hquad (get_rest_cons hu)
    obtain ⟨u, hread', hsurrogate⟩ := scanLowSurrogate_of high hquad' hlow (hread.rest_of (get_rest_cons hu))
    obtain ⟨c', hc', hencode⟩ := pair_char hhigh hlow
    obtain rfl : c' = c := Char.toNat_inj.mp (hc'.trans hc.symm)
    refine ⟨u, (((Reads.byte (get_current_cons hs)).trans (Reads.byte (get_current_cons hu))).trans hread).trans hread', ?_⟩
    rw [scanStringStep_backslash hs, scanEscape_u hu, scanUnicodeEscape, hcodepoint]
    simp only [if_pos hhigh, hsurrogate, hencode]

theorem scanStringStep_quote {rest : List UInt8} {s : Lexer} (hs : s.rest = quote :: rest) :
    scanStringStep s = (.closed, s.get) := by
  simp only [scanStringStep, get_current_cons hs, if_pos]

/-! ## Whole strings -/

theorem scanStringLoop_cases {fuel : Nat} {buffer : List UInt8} {s : Lexer} (hfuel : s.rest.length < fuel) :
    ∃ read, Reads s read (scanStringLoop fuel buffer s).2 ∧
      ((∃ text chars, read = text ++ [quote] ∧ CharsText text chars ∧
        (scanStringLoop fuel buffer s).1 = .valueString (buffer ++ utf8Text chars)) ∨
      ∃ message, (scanStringLoop fuel buffer s).1 = .parseError message) := by
  induction fuel generalizing buffer s with
  | zero => omega
  | succ fuel ih =>
    rcases hstep : scanStringStep s with ⟨step, t⟩
    rcases scanStringStep_cases s with ⟨read, hread, ⟨c, hc, hadd⟩ | ⟨message, hfail⟩⟩ | ⟨hread, hclosed⟩
    · simp only [hstep] at hread hadd
      obtain rfl := hadd
      have hlength := congrArg List.length hread.rest
      have hpos := CharText.length_pos hc
      rw [List.length_append] at hlength
      obtain ⟨last, hlast, hcases⟩ := @ih (buffer ++ String.utf8EncodeChar c) t
        (by rw [List.nil_append] at hpos; omega)
      simp only [scanStringLoop, hstep]
      refine ⟨read ++ last, hread.trans hlast, ?_⟩
      rcases hcases with ⟨text, chars, rfl, htext, hvalue⟩ | hfail
      · refine Or.inl ⟨read ++ text, c :: chars, by rw [List.append_assoc], .cons hc htext, ?_⟩
        rw [hvalue]
        simp [utf8Text]
      · exact Or.inr hfail
    · simp only [hstep] at hread hfail
      obtain rfl := hfail
      simp only [scanStringLoop, hstep]
      exact ⟨read, hread, Or.inr ⟨message, rfl⟩⟩
    · simp only [hstep] at hread hclosed
      obtain rfl := hclosed
      simp only [scanStringLoop, hstep]
      exact ⟨[quote], hread, Or.inl ⟨[], [], rfl, .nil, by simp [utf8Text]⟩⟩

theorem scanStringLoop_of {text : List UInt8} {chars : List Char} (h : CharsText text chars) {fuel : Nat}
    {buffer rest : List UInt8} {s : Lexer} (hs : s.rest = text ++ quote :: rest) (hfuel : s.rest.length < fuel) :
    ∃ t, Reads s (text ++ [quote]) t ∧ scanStringLoop fuel buffer s = (.valueString (buffer ++ utf8Text chars), t) := by
  induction h generalizing fuel buffer s with
  | nil =>
    obtain ⟨fuel, rfl⟩ := Nat.exists_eq_add_one_of_ne_zero (Nat.ne_of_gt (Nat.zero_lt_of_lt hfuel))
    refine ⟨s.get, Reads.byte (get_current_cons hs), ?_⟩
    simp only [scanStringLoop, scanStringStep_quote hs]
    simp [utf8Text]
  | @cons text texts c chars hc hchars ih =>
    obtain ⟨fuel, rfl⟩ := Nat.exists_eq_add_one_of_ne_zero (Nat.ne_of_gt (Nat.zero_lt_of_lt hfuel))
    rw [List.append_assoc] at hs
    obtain ⟨t, hread, hstep⟩ := scanStringStep_of hc hs
    have hrest := hread.rest_of hs
    have hpos := CharText.length_pos hc
    have hlength := congrArg List.length hs
    rw [List.length_append, ← hrest] at hlength
    obtain ⟨u, hread', hloop⟩ := @ih fuel (buffer ++ String.utf8EncodeChar c) t hrest (by omega)
    refine ⟨u, ?_, ?_⟩
    · rw [List.append_assoc]
      exact hread.trans hread'
    · simp only [scanStringLoop, hstep, hloop]
      simp [utf8Text]

end Lexer

end CrossNative.Text
