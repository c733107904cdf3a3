import CrossNative.Text.Serializer
import CrossNative.Text.StringScan

/-!
# Escaped strings

The decoding table of `dump_escaped` accepts exactly UTF-8. Each character is written as it
is or as an escape, in a way the lexer reads back, and the string buffer never overflows.
-/

namespace CrossNative.Text

set_option autoImplicit false

open Basis

namespace Serializer

/-! ## The decoding table -/

/-- The ranges of the bytes a state waits for, and the least code point it may have reached. -/
def expectations : List (List (UInt8 × UInt8) × Nat × Nat) :=
  [([(0x80, 0xBF)], 2, 2), ([(0x80, 0xBF), (0x80, 0xBF)], 3, 1), ([(0xA0, 0xBF), (0x80, 0xBF)], 4, 0),
    ([(0x80, 0x9F), (0x80, 0xBF)], 5, 1), ([(0x90, 0xBF), (0x80, 0xBF), (0x80, 0xBF)], 6, 0),
    ([(0x80, 0xBF), (0x80, 0xBF), (0x80, 0xBF)], 7, 1), ([(0x80, 0x8F), (0x80, 0xBF), (0x80, 0xBF)], 8, 1)]

/-- A state that waits for these bytes. -/
def Expects (ranges : List (UInt8 × UInt8)) (state codepoint : Nat) : Prop :=
  ∃ least, (ranges, state, least) ∈ expectations ∧ least ≤ codepoint ∧ codepoint < 2 ^ (21 - 6 * ranges.length)

theorem table_ascii : ∀ n < 128, nextState accept (.ofNat n) = accept ∧ nextCodepoint accept 0 (.ofNat n) = n := by
  decide +kernel

/-- What the table has to say about a byte from 128 on in the accepting state. -/
def checkLead (byte : UInt8) : Bool :=
  match followRanges byte with
  | some ranges => expectations.any fun e => decide (e.1 = ranges ∧ e.2.1 = nextState accept byte ∧
      e.2.2 ≤ nextCodepoint accept 0 byte ∧ nextCodepoint accept 0 byte < 2 ^ (21 - 6 * ranges.length))
  | none => decide (nextState accept byte = reject)

/-- What it has to say about a byte in a state that waits for more bytes. -/
def checkFollow (ranges : List (UInt8 × UInt8)) (state least : Nat) (byte : UInt8) : Bool :=
  match ranges with
  | [] => false
  | (low, high) :: ranges =>
    if low ≤ byte ∧ byte ≤ high then
      if ranges.isEmpty then decide (nextState state byte = accept ∧ 2 ≤ least)
      else expectations.any fun f =>
        decide (f.1 = ranges ∧ f.2.1 = nextState state byte ∧ f.2.2 ≤ least * 64 + byte.toNat % 64)
    else decide (nextState state byte = reject)

theorem table_lead : ∀ n < 256, 128 ≤ n → checkLead (.ofNat n) = true := by
  decide +kernel

theorem table_follow : ∀ e ∈ expectations, ∀ n < 256, checkFollow e.1 e.2.1 e.2.2 (.ofNat n) = true := by
  decide +kernel

theorem nextState_ascii {b : UInt8} (h : b < 0x80) : nextState accept b = accept ∧ nextCodepoint accept 0 b = b.toNat := by
  have hb : b.toNat < 128 := by simpa [UInt8.lt_iff_toNat_lt] using h
  have htable := table_ascii b.toNat hb
  rwa [UInt8.ofNat_toNat] at htable

/-- In the accepting state the code point starts anew. -/
theorem nextCodepoint_accept (codepoint : Nat) (b : UInt8) :
    nextCodepoint accept codepoint b = nextCodepoint accept 0 b := rfl

theorem nextState_lead {b : UInt8} (h : ¬ b < 0x80) :
    (∀ ranges, followRanges b = some ranges → Expects ranges (nextState accept b) (nextCodepoint accept 0 b)) ∧
      (followRanges b = none → nextState accept b = reject) := by
  have hb : 128 ≤ b.toNat := by simpa [UInt8.lt_iff_toNat_lt] using h
  have htable := table_lead b.toNat b.toNat_lt hb
  rw [UInt8.ofNat_toNat, checkLead] at htable
  constructor
  · intro ranges hranges
    rw [hranges] at htable
    obtain ⟨⟨ranges', state, least⟩, hmem, hcheck⟩ := List.any_eq_true.mp htable
    obtain ⟨rfl, rfl, hleast, hlt⟩ := of_decide_eq_true hcheck
    exact ⟨least, hmem, hleast, hlt⟩
  · intro hnone
    rw [hnone] at htable
    exact of_decide_eq_true htable

/-- A waiting state takes the byte in as six more bits. -/
theorem nextCodepoint_waiting {state codepoint : Nat} (hstate : state ≠ accept) (hcodepoint : codepoint < 2 ^ 26)
    (b : UInt8) : nextCodepoint state codepoint b = codepoint * 64 + b.toNat % 64 := by
  have hmask : b.toNat &&& 0x3F = b.toNat % 2 ^ 6 := Nat.and_two_pow_sub_one_eq_mod b.toNat 6
  rw [nextCodepoint, if_pos hstate, hmask, Nat.shiftLeft_eq, Nat.mod_eq_of_lt (a := codepoint * 2 ^ 6) (by omega),
    Nat.or_comm, Nat.mul_comm codepoint]
  have hlt : b.toNat % 2 ^ 6 < 2 ^ 6 := Nat.mod_lt _ (by decide)
  rw [← Nat.two_pow_add_eq_or_of_lt hlt]
  omega

theorem waiting_ne : ∀ e ∈ expectations, e.2.1 ≠ accept ∧ e.2.1 ≠ reject ∧ 0 < e.1.length ∧ e.1.length ≤ 3 := by
  decide

theorem Expects.state_ne {ranges : List (UInt8 × UInt8)} {state codepoint : Nat} (h : Expects ranges state codepoint) :
    state ≠ accept ∧ state ≠ reject := by
  obtain ⟨least, hmem, -⟩ := h
  exact ⟨(waiting_ne _ hmem).1, (waiting_ne _ hmem).2.1⟩

theorem Expects.next {low high b : UInt8} {ranges : List (UInt8 × UInt8)} {state codepoint : Nat}
    (h : Expects ((low, high) :: ranges) state codepoint) :
    (low ≤ b ∧ b ≤ high → (ranges = [] ∧ nextState state b = accept ∧ 0x80 ≤ nextCodepoint state codepoint b) ∨
      Expects ranges (nextState state b) (nextCodepoint state codepoint b)) ∧
    (¬ (low ≤ b ∧ b ≤ high) → nextState state b = reject) := by
  obtain ⟨hne, -⟩ := h.state_ne
  obtain ⟨least, hmem, hleast, hlt⟩ := h
  have hlength := (waiting_ne _ hmem).2.2.2
  have hcheck := table_follow _ hmem b.toNat b.toNat_lt
  rw [UInt8.ofNat_toNat, checkFollow] at hcheck
  simp only [List.length_cons] at hlt hlength
  have hsmall : codepoint < 2 ^ 26 :=
    Nat.lt_of_lt_of_le hlt (Nat.pow_le_pow_right (by decide) (by omega))
  have hnext := nextCodepoint_waiting hne hsmall b
  constructor
  · intro hrange
    rw [if_pos hrange] at hcheck
    cases ranges with
    | nil =>
      simp only [List.isEmpty_nil, if_pos] at hcheck
      obtain ⟨haccept, htwo⟩ := of_decide_eq_true hcheck
      exact Or.inl ⟨rfl, haccept, by omega⟩
    | cons range ranges =>
      simp only [List.isEmpty_cons, Bool.false_eq_true, if_false] at hcheck
      obtain ⟨⟨ranges', state', least'⟩, hmem', hcheck⟩ := List.any_eq_true.mp hcheck
      obtain ⟨rfl, rfl, hleast'⟩ := of_decide_eq_true hcheck
      simp only at hleast'
      refine Or.inr ⟨least', hmem', by omega, ?_⟩
      rw [hnext]
      have hpow : 2 ^ (21 - 6 * (range :: ranges).length) = 2 ^ (21 - 6 * ((range :: ranges).length + 1)) * 64 := by
        rw [show 21 - 6 * (range :: ranges).length = 21 - 6 * ((range :: ranges).length + 1) + 6 by
          simp only [List.length_cons] at hlength ⊢; omega, pow_add]
        rfl
      rw [hpow]
      omega
  · intro hrange
    rw [if_neg hrange] at hcheck
    exact of_decide_eq_true hcheck

/-! ## One character -/

/-- What is written for a character. -/
def escapeChar (c : Char) : List UInt8 :=
  if c.toNat = 0x08 then [backslash, 0x62]
  else if c.toNat = 0x09 then [backslash, 0x74]
  else if c.toNat = 0x0A then [backslash, 0x6E]
  else if c.toNat = 0x0C then [backslash, 0x66]
  else if c.toNat = 0x0D then [backslash, 0x72]
  else if c.toNat = 0x22 then [backslash, quote]
  else if c.toNat = 0x5C then [backslash, backslash]
  else if c.toNat ≤ 0x1F then unicodeEscape c.toNat
  else String.utf8EncodeChar c

def escapeText (chars : List Char) : List UInt8 := chars.flatMap escapeChar

/-- Everything that has been written, or will be. -/
def Output.all (o : Output) : List UInt8 := o.written ++ o.buffer

/-- There is room for the longest escape and its terminator. -/
def Output.Roomy (o : Output) : Prop := o.buffer.length + 13 ≤ bufferSize

theorem Output.append_ok {o : Output} {room : Nat} (bytes : List UInt8) (h : o.buffer.length + room ≤ bufferSize) :
    o.append bytes room = .ok ⟨o.written, o.buffer ++ bytes⟩ := if_pos h

theorem flushIfFull_spec {o : Output} (h : o.buffer.length ≤ bufferSize) :
    (flushIfFull o).all = o.all ∧ (flushIfFull o).Roomy := by
  unfold flushIfFull
  split
  · exact ⟨by simp [Output.all, Output.flush], by simp [Output.Roomy, Output.flush, bufferSize]⟩
  · refine ⟨rfl, ?_⟩
    unfold Output.Roomy
    omega

theorem escapeChar_plain {c : Char} (h : 0x80 ≤ c.toNat) : escapeChar c = String.utf8EncodeChar c := by
  rw [escapeChar, if_neg (by omega), if_neg (by omega), if_neg (by omega), if_neg (by omega), if_neg (by omega),
    if_neg (by omega), if_neg (by omega), if_neg (by omega)]

/-- The bytes of an ASCII character, written at once. -/
theorem writeCodepoint_ascii {c : Char} (h : c.toNat < 0x80) {o : Output} (ho : o.Roomy) :
    writeCodepoint o c.toNat (.ofNat c.toNat) = .ok ⟨o.written, o.buffer ++ escapeChar c⟩ ∧
      (o.buffer ++ escapeChar c).length ≤ bufferSize := by
  unfold Output.Roomy at ho
  have hencode := utf8EncodeChar_ascii h
  have happend (bytes : List UInt8) {room : Nat} (hroom : room ≤ 13) (hbytes : bytes.length ≤ room) :
      o.append bytes room = .ok ⟨o.written, o.buffer ++ bytes⟩ ∧ (o.buffer ++ bytes).length ≤ bufferSize := by
    refine ⟨Output.append_ok bytes (by omega), ?_⟩
    rw [List.length_append]
    omega
  unfold writeCodepoint escapeChar
  by_cases h₁ : c.toNat = 0x08
  · rw [if_pos h₁, if_pos h₁]
    exact happend _ (by decide) (by decide)
  rw [if_neg h₁, if_neg h₁]
  by_cases h₂ : c.toNat = 0x09
  · rw [if_pos h₂, if_pos h₂]
    exact happend _ (by decide) (by decide)
  rw [if_neg h₂, if_neg h₂]
  by_cases h₃ : c.toNat = 0x0A
  · rw [if_pos h₃, if_pos h₃]
    exact happend _ (by decide) (by decide)
  rw [if_neg h₃, if_neg h₃]
  by_cases h₄ : c.toNat = 0x0C
  · rw [if_pos h₄, if_pos h₄]
    exact happend _ (by decide) (by decide)
  rw [if_neg h₄, if_neg h₄]
  by_cases h₅ : c.toNat = 0x0D
  · rw [if_pos h₅, if_pos h₅]
    exact happend _ (by decide) (by decide)
  rw [if_neg h₅, if_neg h₅]
  by_cases h₆ : c.toNat = 0x22
  · rw [if_pos h₆, if_pos h₆]
    exact happend _ (by decide) (by decide)
  rw [if_neg h₆, if_neg h₆]
  by_cases h₇ : c.toNat = 0x5C
  · rw [if_pos h₇, if_pos h₇]
    exact happend _ (by decide) (by decide)
  rw [if_neg h₇, if_neg h₇]
  by_cases h₈ : c.toNat ≤ 0x1F
  · rw [if_pos h₈, if_pos h₈]
    exact happend _ (by decide) (by simp [unicodeEscape])
  · rw [if_neg h₈, if_neg h₈, hencode]
    exact happend _ (by decide) (by simp)

/-- What the loop does with a list of bytes that leads from the accepting state to itself. -/
def Writes (bytes text : List UInt8) : Prop := ∀ rest i codepoint last o, Output.Roomy o →
  ∃ i' codepoint' last' o', Output.Roomy o' ∧ o'.all = o.all ++ text ∧
    dumpEscapedLoop (bytes ++ rest) i accept codepoint last o = dumpEscapedLoop rest i' accept codepoint' last' o'

theorem writes_ascii {c : Char} (h : c.toNat < 0x80) : Writes (String.utf8EncodeChar c) (escapeChar c) := by
  intro rest i codepoint last o ho
  obtain ⟨hwrite, hlength⟩ := writeCodepoint_ascii h ho
  have hb : (UInt8.ofNat c.toNat).toNat = c.toNat := toNat_ofNat_lt (by omega)
  have hascii : UInt8.ofNat c.toNat < 0x80 := by
    simp only [UInt8.lt_iff_toNat_lt, hb, UInt8.reduceToNat]
    omega
  obtain ⟨hstate, hcodepoint⟩ := nextState_ascii hascii
  rw [hb] at hcodepoint
  obtain ⟨hall, hroomy⟩ := flushIfFull_spec (o := ⟨o.written, o.buffer ++ escapeChar c⟩) hlength
  refine ⟨i + 1, c.toNat, .ofNat c.toNat, flushIfFull ⟨o.written, o.buffer ++ escapeChar c⟩, hroomy, ?_, ?_⟩
  · rw [hall]
    simp [Output.all]
  · rw [utf8EncodeChar_ascii h]
    simp only [List.cons_append, List.nil_append, dumpEscapedLoop, hstate, nextCodepoint_accept, hcodepoint, hwrite, if_pos]
    rfl

/-- The bytes after a lead byte; the last of them completes the character. -/
theorem dumpEscapedLoop_follow {ranges : List (UInt8 × UInt8)} {follow : List UInt8} (hin : InRanges ranges follow)
    (hne : ranges ≠ []) {state codepoint : Nat} (h : Expects ranges state codepoint) (rest : List UInt8) (i : Nat)
    (last : UInt8) {o : Output} (ho : o.buffer.length + follow.length ≤ bufferSize) :
    ∃ i' codepoint' last' o', Output.Roomy o' ∧ o'.all = o.all ++ follow ∧
      dumpEscapedLoop (follow ++ rest) i state codepoint last o = dumpEscapedLoop rest i' accept codepoint' last' o' := by
  induction ranges generalizing follow state codepoint i last o with
  | nil => exact (hne rfl).elim
  | cons range ranges ih =>
    obtain ⟨low, high⟩ := range
    cases follow with
    | nil => exact hin.elim
    | cons b follow =>
      obtain ⟨hlow, hhigh, hin⟩ := hin
      rw [List.length_cons] at ho
      have happend : o.append [b] 1 = .ok ⟨o.written, o.buffer ++ [b]⟩ := Output.append_ok _ (by omega)
      have hall : (⟨o.written, o.buffer ++ [b]⟩ : Output).all = o.all ++ [b] := by simp [Output.all]
      have hlength : (o.buffer ++ [b]).length = o.buffer.length + 1 := by simp
      rcases h.next.1 ⟨hlow, hhigh⟩ with ⟨rfl, haccept, hlarge⟩ | hnext
      · cases follow with
        | cons c follow => exact hin.elim
        | nil =>
          have hwrite : writeCodepoint o (nextCodepoint state codepoint b) b = .ok ⟨o.written, o.buffer ++ [b]⟩ := by
            rw [writeCodepoint, if_neg (by omega), if_neg (by omega), if_neg (by omega), if_neg (by omega),
              if_neg (by omega), if_neg (by omega), if_neg (by omega), if_neg (by omega), happend]
          obtain ⟨hflush, hroomy⟩ := flushIfFull_spec (o := ⟨o.written, o.buffer ++ [b]⟩) (by
            simp only [hlength]
            omega)
          refine ⟨i + 1, nextCodepoint state codepoint b, b, flushIfFull ⟨o.written, o.buffer ++ [b]⟩, hroomy, ?_, ?_⟩
          · rw [hflush, hall]
          · simp only [List.cons_append, List.nil_append, dumpEscapedLoop, haccept, hwrite, if_pos]
            rfl
      · cases ranges with
        | nil =>
          obtain ⟨least, hmem, -⟩ := hnext
          exact absurd (waiting_ne _ hmem).2.2.1 (by simp)
        | cons range ranges =>
          obtain ⟨haccept, hreject⟩ := hnext.state_ne
          obtain ⟨i', codepoint', last', o', hroomy, hwritten, hloop⟩ := ih hin (by simp) hnext (i + 1) b
            (o := ⟨o.written, o.buffer ++ [b]⟩) (by simp only [hlength]; omega)
          refine ⟨i', codepoint', last', o', hroomy, ?_, ?_⟩
          · rw [hwritten, hall, List.append_assoc, List.singleton_append]
          · simp only [List.cons_append, dumpEscapedLoop, if_neg haccept, if_neg hreject, happend]
            exact hloop

theorem writes_char (c : Char) : Writes (String.utf8EncodeChar c) (escapeChar c) := by
  by_cases hascii : c.toNat < 0x80
  · exact writes_ascii hascii
  intro rest i codepoint last o ho
  obtain ⟨lead, ranges, bytes, hencode, hranges, hin⟩ := ranges_of_encode (c := c) (by omega)
  have hlead := lead_high hranges
  have hhigh : ¬ lead < 0x80 := by
    simp only [UInt8.lt_iff_toNat_lt, UInt8.reduceToNat]
    omega
  have hexpects := (nextState_lead hhigh).1 ranges hranges
  obtain ⟨haccept, hreject⟩ := hexpects.state_ne
  obtain ⟨least, hmem, -⟩ := id hexpects
  obtain ⟨-, -, hpos, hthree⟩ := waiting_ne _ hmem
  have hlength := InRanges.length_eq hin
  unfold Output.Roomy at ho
  have happend : o.append [lead] 1 = .ok ⟨o.written, o.buffer ++ [lead]⟩ := Output.append_ok _ (by omega)
  simp only at hpos hthree
  obtain ⟨i', codepoint', last', o', hroomy, hwritten, hloop⟩ := dumpEscapedLoop_follow hin
    (List.ne_nil_of_length_pos hpos) hexpects rest (i + 1) lead (o := ⟨o.written, o.buffer ++ [lead]⟩) (by
      simp only [List.length_append, List.length_singleton]
      omega)
  refine ⟨i', codepoint', last', o', hroomy, ?_, ?_⟩
  · rw [hwritten, escapeChar_plain (by omega), hencode]
    simp [Output.all]
  · rw [hencode]
    simp only [List.cons_append, dumpEscapedLoop, nextCodepoint_accept, if_neg haccept, if_neg hreject, happend]
    exact hloop

/-! ## Whole strings -/

theorem Writes.append {bytes bytes' text text' : List UInt8} (h : Writes bytes text) (h' : Writes bytes' text') :
    Writes (bytes ++ bytes') (text ++ text') := by
  intro rest i codepoint last o ho
  obtain ⟨i₁, codepoint₁, last₁, o₁, ho₁, hall₁, hloop₁⟩ := h (bytes' ++ rest) i codepoint last o ho
  obtain ⟨i₂, codepoint₂, last₂, o₂, ho₂, hall₂, hloop₂⟩ := h' rest i₁ codepoint₁ last₁ o₁ ho₁
  refine ⟨i₂, codepoint₂, last₂, o₂, ho₂, ?_, ?_⟩
  · rw [hall₂, hall₁, List.append_assoc]
  · rw [List.append_assoc, hloop₁, hloop₂]

theorem writes_text (chars : List Char) : Writes (utf8Text chars) (escapeText chars) := by
  induction chars with
  | nil =>
    intro rest i codepoint last o ho
    exact ⟨i, codepoint, last, o, ho, by simp [escapeText], rfl⟩
  | cons c chars ih => exact (writes_char c).append ih

theorem dumpEscaped_utf8 (chars : List Char) : dumpEscaped (utf8Text chars) = .ok (escapeText chars) := by
  obtain ⟨i, codepoint, last, o, -, hall, hloop⟩ :=
    writes_text chars [] 0 0 0 ⟨[], []⟩ (by simp [Output.Roomy, bufferSize])
  rw [List.append_nil] at hloop
  rw [dumpEscaped, hloop]
  change Except.ok (o.written ++ o.buffer) = _
  rw [show o.written ++ o.buffer = escapeText chars by simpa [Output.all] using hall]

/-- The bytes do not start with a character, and are not empty. -/
def IllFormed (bytes : List UInt8) : Prop :=
  ∃ lead rest, bytes = lead :: rest ∧ ¬ lead < 0x80 ∧ ∀ ranges, followRanges lead = some ranges →
    ∀ follow back, rest = follow ++ back → ¬ InRanges ranges follow

theorem head_cases (bytes : List UInt8) :
    bytes = [] ∨ (∃ c rest, bytes = String.utf8EncodeChar c ++ rest) ∨ IllFormed bytes := by
  cases bytes with
  | nil => exact Or.inl rfl
  | cons lead rest =>
    refine Or.inr ?_
    by_cases hascii : lead < 0x80
    · have hlead : lead.toNat < 0x80 := by simpa [UInt8.lt_iff_toNat_lt] using hascii
      obtain ⟨c, hc⟩ := exists_char (v := lead.toNat) (Or.inl (by omega))
      have hencode := utf8EncodeChar_ascii (c := c) (by omega)
      rw [hc, UInt8.ofNat_toNat] at hencode
      exact Or.inl ⟨c, rest, by rw [hencode]; rfl⟩
    by_cases hwell : ∃ ranges, followRanges lead = some ranges ∧ ∃ follow back, rest = follow ++ back ∧
        InRanges ranges follow
    · obtain ⟨ranges, hranges, follow, back, rfl, hin⟩ := hwell
      obtain ⟨c, hc, -⟩ := encode_of_ranges hranges hin
      exact Or.inl ⟨c, back, by rw [hc]; rfl⟩
    · refine Or.inr ⟨lead, rest, rfl, hascii, ?_⟩
      intro ranges hranges follow back hrest hin
      exact hwell ⟨ranges, hranges, follow, back, hrest, hin⟩

/-- The loop throws, or stops within a character. -/
def Refuses (x : Except Abort (Nat × UInt8 × Output)) : Prop :=
  (∃ i byte, x = .error (invalidByte i byte)) ∨ ∃ state last o, x = .ok (state, last, o) ∧ state ≠ accept

theorem refuses_follow {ranges : List (UInt8 × UInt8)} {state codepoint : Nat} (h : Expects ranges state codepoint)
    {bytes : List UInt8} (hout : ∀ follow back, bytes = follow ++ back → ¬ InRanges ranges follow) (i : Nat)
    (last : UInt8) {o : Output} (ho : o.buffer.length + ranges.length ≤ bufferSize) :
    Refuses (dumpEscapedLoop bytes i state codepoint last o) := by
  induction ranges generalizing bytes state codepoint i last o with
  | nil => exact (hout [] bytes rfl trivial).elim
  | cons range ranges ih =>
    obtain ⟨low, high⟩ := range
    obtain ⟨hne, -⟩ := h.state_ne
    cases bytes with
    | nil => exact Or.inr ⟨state, last, o, rfl, hne⟩
    | cons b bytes =>
      by_cases hrange : low ≤ b ∧ b ≤ high
      · have hout' (follow back : List UInt8) (hbytes : bytes = follow ++ back) : ¬ InRanges ranges follow := by
          intro hin
          exact hout (b :: follow) back (by rw [hbytes]; rfl) ⟨hrange.1, hrange.2, hin⟩
        rcases h.next.1 hrange with ⟨rfl, -⟩ | hnext
        · exact (hout' [] bytes rfl trivial).elim
        · obtain ⟨haccept, hreject⟩ := hnext.state_ne
          rw [List.length_cons] at ho
          have happend : o.append [b] 1 = .ok ⟨o.written, o.buffer ++ [b]⟩ := Output.append_ok _ (by omega)
          simp only [dumpEscapedLoop, if_neg haccept, if_neg hreject, happend]
          exact ih hnext hout' (i + 1) b (by simp only [List.length_append, List.length_singleton]; omega)
      · have hreject := h.next.2 hrange
        simp only [dumpEscapedLoop, hreject, if_pos]
        exact Or.inl ⟨i, b, rfl⟩

theorem refuses_illFormed {bytes : List UInt8} (h : IllFormed bytes) (i codepoint : Nat) (last : UInt8) {o : Output}
    (ho : o.Roomy) : Refuses (dumpEscapedLoop bytes i accept codepoint last o) := by
  obtain ⟨lead, rest, rfl, hascii, hout⟩ := h
  obtain ⟨hsome, hnone⟩ := nextState_lead hascii
  cases hranges : followRanges lead with
  | none =>
    have hreject := hnone hranges
    simp only [dumpEscapedLoop, hreject, if_pos]
    exact Or.inl ⟨i, lead, rfl⟩
  | some ranges =>
    have hexpects := hsome ranges hranges
    obtain ⟨haccept, hreject⟩ := hexpects.state_ne
    obtain ⟨least, hmem, -⟩ := id hexpects
    have hthree := (waiting_ne _ hmem).2.2.2
    simp only at hthree
    unfold Output.Roomy at ho
    have happend : o.append [lead] 1 = .ok ⟨o.written, o.buffer ++ [lead]⟩ := Output.append_ok _ (by omega)
    simp only [dumpEscapedLoop, nextCodepoint_accept, if_neg haccept, if_neg hreject, happend]
    exact refuses_follow hexpects (hout ranges hranges) (i + 1) lead
      (by simp only [List.length_append, List.length_singleton]; omega)

/-- A string that is not UTF-8 is a character after another up to a place that the loop refuses. -/
theorem refuses_of_not_utf8 {n : Nat} {bytes : List UInt8} (hlength : bytes.length ≤ n) (h : ¬ IsUtf8 bytes)
    (i codepoint : Nat) (last : UInt8) {o : Output} (ho : o.Roomy) :
    Refuses (dumpEscapedLoop bytes i accept codepoint last o) := by
  induction n generalizing bytes i codepoint last o with
  | zero =>
    obtain rfl := List.eq_nil_of_length_eq_zero (Nat.le_zero.mp hlength)
    exact (h .nil).elim
  | succ n ih =>
    rcases head_cases bytes with rfl | ⟨c, rest, rfl⟩ | hill
    · exact (h .nil).elim
    · have hrest : ¬ IsUtf8 rest := fun hrest => h ((isUtf8_char c).append hrest)
      have hpos : 0 < (String.utf8EncodeChar c).length := by
        rw [String.length_utf8EncodeChar]
        exact Char.utf8Size_pos c
      rw [List.length_append] at hlength
      obtain ⟨i', codepoint', last', o', ho', -, hloop⟩ := writes_char c rest i codepoint last o ho
      rw [hloop]
      exact ih (by omega) hrest i' codepoint' last' ho'
    · exact refuses_illFormed hill i codepoint last ho

theorem isUtf8_hexBytes (byte : UInt8) : IsUtf8 (hexBytes byte) := by
  have hhex : ∀ n < 16, Lexer.hexUpper n < 0x80 := by decide
  exact (isUtf8_ascii (hhex _ (by have := byte.toNat_lt; omega))).append
    (isUtf8_ascii (hhex _ (Nat.mod_lt _ (by decide))))

/-- The exception's own message can be dumped. -/
theorem dumpEscaped_not_utf8 {bytes : List UInt8} (h : ¬ IsUtf8 bytes) :
    ∃ message, dumpEscaped bytes = .error (typeError316 message) ∧ IsUtf8 message := by
  rcases refuses_of_not_utf8 (Nat.le_refl _) h 0 0 0 (o := ⟨[], []⟩) (by simp [Output.Roomy, bufferSize]) with
    ⟨i, byte, hloop⟩ | ⟨state, last, o, hloop, hstate⟩
  · refine ⟨bytesOf ("invalid UTF-8 byte at index " ++ toString i ++ ": 0x") ++ hexBytes byte, ?_,
      (isUtf8_bytesOf _).append (isUtf8_hexBytes byte)⟩
    rw [dumpEscaped, hloop]
    rfl
  · refine ⟨bytesOf "incomplete UTF-8 string; last byte: 0x" ++ hexBytes last, ?_,
      (isUtf8_bytesOf _).append (isUtf8_hexBytes last)⟩
    rw [dumpEscaped, hloop]
    exact if_neg hstate

/-! ## What the lexer makes of it -/

theorem hexDigit_hexLower : ∀ n < 16, Lexer.hexDigit (hexLower n) = some n := by
  decide

theorem hexQuad_unicode {n : Nat} (h : n < 0x10000) :
    HexQuad [hexLower (n / 0x1000 % 16), hexLower (n / 0x100 % 16), hexLower (n / 0x10 % 16), hexLower (n % 16)] n := by
  refine ⟨n / 0x1000 % 16, n / 0x100 % 16, n / 0x10 % 16, n % 16, ?_, by omega⟩
  simp only [List.map_cons, List.map_nil, hexDigit_hexLower _ (Nat.mod_lt _ (by decide : 0 < 16))]

/-- Each character is written in one of its spellings. -/
theorem charText_escapeChar (c : Char) : CharText (escapeChar c) c := by
  unfold escapeChar
  have hescape {letter : UInt8} {n : Nat} (hn : c.toNat = n) (hmem : (letter, n) ∈ escapes) :
      CharText [backslash, letter] c := .escape (hn ▸ hmem)
  by_cases h₁ : c.toNat = 0x08
  · rw [if_pos h₁]
    exact hescape h₁ (by decide)
  rw [if_neg h₁]
  by_cases h₂ : c.toNat = 0x09
  · rw [if_pos h₂]
    exact hescape h₂ (by decide)
  rw [if_neg h₂]
  by_cases h₃ : c.toNat = 0x0A
  · rw [if_pos h₃]
    exact hescape h₃ (by decide)
  rw [if_neg h₃]
  by_cases h₄ : c.toNat = 0x0C
  · rw [if_pos h₄]
    exact hescape h₄ (by decide)
  rw [if_neg h₄]
  by_cases h₅ : c.toNat = 0x0D
  · rw [if_pos h₅]
    exact hescape h₅ (by decide)
  rw [if_neg h₅]
  by_cases h₆ : c.toNat = 0x22
  · rw [if_pos h₆]
    exact hescape h₆ (by decide)
  rw [if_neg h₆]
  by_cases h₇ : c.toNat = 0x5C
  · rw [if_pos h₇]
    exact hescape h₇ (by decide)
  rw [if_neg h₇]
  by_cases h₈ : c.toNat ≤ 0x1F
  · rw [if_pos h₈]
    exact .unicode (hexQuad_unicode (by omega))
  · rw [if_neg h₈]
    exact .plain (by omega) h₆ h₇

theorem charsText_escapeText (chars : List Char) : CharsText (escapeText chars) chars := by
  induction chars with
  | nil => exact .nil
  | cons c chars ih => exact .cons (charText_escapeChar c) ih

end Serializer

end CrossNative.Text
