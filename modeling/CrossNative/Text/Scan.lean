import CrossNative.Text.NumberScan
import CrossNative.Text.StringScan

/-!
# The tokens of a text

`scan` skips whitespace and reads the spelling of one token, the longest one of a number.
Everything it keeps for error messages is a stretch of the input that ends where it stopped.
-/

namespace CrossNative.Text

set_option autoImplicit false

open Basis

def IsSpace (space : List UInt8) : Prop := ∀ c ∈ space, Lexer.isWhitespace c = true

/-- The spellings of a token, with the byte that follows. -/
inductive Lexeme : Token → List UInt8 → Option UInt8 → Prop
  | beginArray (next : Option UInt8) : Lexeme .beginArray [0x5B] next
  | endArray (next : Option UInt8) : Lexeme .endArray [0x5D] next
  | beginObject (next : Option UInt8) : Lexeme .beginObject [0x7B] next
  | endObject (next : Option UInt8) : Lexeme .endObject [0x7D] next
  | nameSeparator (next : Option UInt8) : Lexeme .nameSeparator [0x3A] next
  | valueSeparator (next : Option UInt8) : Lexeme .valueSeparator [0x2C] next
  | literalTrue (next : Option UInt8) : Lexeme .literalTrue [0x74, 0x72, 0x75, 0x65] next
  | literalFalse (next : Option UInt8) : Lexeme .literalFalse [0x66, 0x61, 0x6C, 0x73, 0x65] next
  | literalNull (next : Option UInt8) : Lexeme .literalNull [0x6E, 0x75, 0x6C, 0x6C] next
  | valueString {text : List UInt8} {chars : List Char} (h : CharsText text chars) (next : Option UInt8) :
      Lexeme (.valueString (utf8Text chars)) (quote :: (text ++ [quote])) next
  | number {l : NumberLiteral} (h : l.WellFormed) {next : Option UInt8} (hends : l.Ends next) :
      Lexeme l.token l.text next

/-- The input ends here, or a NUL byte stands for its end. -/
def AtEnd (rest : List UInt8) : Prop := ∀ c, rest.head? = some c → c = 0x00

namespace Lexer

/-- `t` comes from `s` by reading; what is kept for messages is the last part of what has been read. -/
structure Advances (s : Lexer) (read : List UInt8) (t : Lexer) : Prop where
  rest : s.rest = read ++ t.rest
  tokenString : t.tokenString <:+ s.tokenString ++ read
  total : s.position.charsReadTotal + read.length ≤ t.position.charsReadTotal

namespace Advances

variable {s t u : Lexer} {read last : List UInt8}

theorem trans (h : Advances s read t) (h' : Advances t last u) : Advances s (read ++ last) u where
  rest := by rw [h.rest, h'.rest, List.append_assoc]
  tokenString := by
    obtain ⟨front, hfront⟩ := h.tokenString
    refine h'.tokenString.trans ⟨front, ?_⟩
    rw [← List.append_assoc, hfront, List.append_assoc]
  total := by
    have := h.total
    have := h'.total
    rw [List.length_append]
    omega

theorem rest_of {rest : List UInt8} (h : Advances s read t) (hs : s.rest = read ++ rest) : t.rest = rest := by
  rw [h.rest] at hs
  exact List.append_cancel_left hs

end Advances

theorem Reads.advances {s t : Lexer} {read : List UInt8} (h : Reads s read t) : Advances s read t where
  rest := h.rest
  tokenString := h.tokenString ▸ List.suffix_refl _
  total := h.total

/-- A byte is read, and the lexer starts to keep bytes anew with it. -/
theorem Reads.after_reset {s t : Lexer} {read : List UInt8} {c : UInt8} (hc : s.get.current = some c)
    (h : Reads s.get.reset read t) : Advances s (c :: read) t where
  rest := by
    have hget := (Reads.byte hc).rest
    rw [hget, ← reset_rest s.get, h.rest]
    rfl
  tokenString := by
    rw [h.tokenString, reset, hc]
    exact ⟨s.tokenString, by simp⟩
  total := by
    have hget := (Reads.byte hc).total
    have htotal : s.get.reset.position = s.get.position := rfl
    have := h.total
    rw [htotal] at this
    rw [List.length_singleton] at hget
    rw [List.length_cons]
    omega

/-! ## Whitespace and literals -/

theorem skipWhitespace_eq {fuel : Nat} {s : Lexer} (hfuel : s.rest.length < fuel) :
    ∃ u, Reads s (s.rest.takeWhile isWhitespace) u ∧ skipWhitespace fuel s = u.get := by
  induction fuel generalizing s with
  | zero => omega
  | succ fuel ih =>
    cases hrest : s.rest with
    | nil =>
      refine ⟨s, .refl s, ?_⟩
      simp [skipWhitespace, hrest]
    | cons c rest =>
      by_cases hc : isWhitespace c = true
      · have hget := get_rest_cons hrest
        obtain ⟨u, hu, hskip⟩ := ih (s := s.get) (by rw [hget]; simp [hrest] at hfuel; omega)
        rw [hget] at hu
        refine ⟨u, ?_, ?_⟩
        · rw [List.takeWhile_cons_of_pos hc]
          exact (Reads.byte (get_current_cons hrest)).trans hu
        · simp [skipWhitespace, hrest, hc, hskip]
      · refine ⟨s, ?_, ?_⟩
        · rw [List.takeWhile_cons_of_neg hc]
          exact .refl s
        · simp [skipWhitespace, hrest, hc]

theorem scanLiteral_cases (text : List UInt8) (token : Token) (s : Lexer) :
    ∃ read, Reads s read (scanLiteral text token s).2 ∧
      ((read = text ∧ (scanLiteral text token s).1 = token) ∨
        ∃ message, (scanLiteral text token s).1 = .parseError message) := by
  induction text generalizing s with
  | nil => exact ⟨[], .refl s, Or.inl ⟨rfl, rfl⟩⟩
  | cons c text ih =>
    by_cases hc : s.get.current = some c
    · obtain ⟨read, hread, hcases⟩ := ih s.get
      simp only [scanLiteral, hc, if_pos]
      refine ⟨c :: read, (Reads.byte hc).trans hread, ?_⟩
      rcases hcases with ⟨rfl, htoken⟩ | hfail
      · exact Or.inl ⟨rfl, htoken⟩
      · exact Or.inr hfail
    · simp only [scanLiteral, hc, if_false]
      exact ⟨_, Reads.get s, Or.inr ⟨_, rfl⟩⟩

theorem scanLiteral_of {text rest : List UInt8} (token : Token) {s : Lexer} (hs : s.rest = text ++ rest) :
    ∃ u, Reads s text u ∧ scanLiteral text token s = (token, u) := by
  induction text generalizing s with
  | nil => exact ⟨s, .refl s, rfl⟩
  | cons c text ih =>
    have hc := get_current_cons hs
    obtain ⟨u, hu, hscan⟩ := ih (get_rest_cons hs)
    refine ⟨u, (Reads.byte hc).trans hu, ?_⟩
    simp only [scanLiteral, hc, if_pos, hscan]

/-! ## One token -/

/-- What a call of the lexer comes to after whitespace. -/
def Scanned (s : Lexer) (x : Token × Lexer) : Prop :=
  ∃ read, Advances s read x.2 ∧
    (Lexeme x.1 read x.2.rest.head? ∨ (x.1 = .endOfInput ∧ AtEnd s.rest) ∨ ∃ message, x.1 = .parseError message)

theorem Scanned.structural {s : Lexer} {c : UInt8} {token : Token} (hc : s.get.current = some c)
    (h : ∀ next, Lexeme token [c] next) : Scanned s (token, s.get) :=
  ⟨[c], (Reads.byte hc).advances, Or.inl (h _)⟩

theorem Scanned.literal {s : Lexer} {c : UInt8} {text : List UInt8} {token : Token} (hc : s.get.current = some c)
    (h : ∀ next, Lexeme token (c :: text) next) : Scanned s (scanLiteral text token s.get) := by
  obtain ⟨read, hread, ⟨rfl, htoken⟩ | hfail⟩ := scanLiteral_cases text token s.get
  · refine ⟨c :: read, ((Reads.byte hc).trans hread).advances, Or.inl ?_⟩
    rw [htoken]
    exact h _
  · exact ⟨c :: read, ((Reads.byte hc).trans hread).advances, Or.inr (Or.inr hfail)⟩

theorem scanCurrent_cases (s : Lexer) : Scanned s (scanCurrent s.get) := by
  have hget := Reads.get s
  unfold scanCurrent
  cases hcurrent : s.get.current with
  | none =>
    refine ⟨_, hget.advances, Or.inr (Or.inl ⟨rfl, ?_⟩)⟩
    intro c hc
    rw [get_current, hc] at hcurrent
    cases hcurrent
  | some c =>
    simp only
    by_cases h : c = 0x5B
    · rw [if_pos h]
      exact .structural (h ▸ hcurrent) .beginArray
    rw [if_neg h]
    by_cases h : c = 0x5D
    · rw [if_pos h]
      exact .structural (h ▸ hcurrent) .endArray
    rw [if_neg h]
    by_cases h : c = 0x7B
    · rw [if_pos h]
      exact .structural (h ▸ hcurrent) .beginObject
    rw [if_neg h]
    by_cases h : c = 0x7D
    · rw [if_pos h]
      exact .structural (h ▸ hcurrent) .endObject
    rw [if_neg h]
    by_cases h : c = 0x3A
    · rw [if_pos h]
      exact .structural (h ▸ hcurrent) .nameSeparator
    rw [if_neg h]
    by_cases h : c = 0x2C
    · rw [if_pos h]
      exact .structural (h ▸ hcurrent) .valueSeparator
    rw [if_neg h]
    by_cases h : c = 0x74
    · rw [if_pos h]
      exact .literal (h ▸ hcurrent) .literalTrue
    rw [if_neg h]
    by_cases h : c = 0x66
    · rw [if_pos h]
      exact .literal (h ▸ hcurrent) .literalFalse
    rw [if_neg h]
    by_cases h : c = 0x6E
    · rw [if_pos h]
      exact .literal (h ▸ hcurrent) .literalNull
    rw [if_neg h]
    by_cases h : c = quote
    · rw [if_pos h]
      obtain ⟨read, hread, hcases⟩ := @scanStringLoop_cases _ [] _ (Nat.lt_succ_self s.get.reset.rest.length)
      refine ⟨c :: read, Reads.after_reset hcurrent hread, ?_⟩
      rcases hcases with ⟨text, chars, rfl, htext, hvalue⟩ | hfail
      · refine Or.inl ?_
        rw [scanString, h]
        rw [List.nil_append] at hvalue
        rw [show (scanStringLoop (s.get.rest.length + 1) [] s.get.reset).1 = .valueString (utf8Text chars) from hvalue]
        exact .valueString htext _
      · exact Or.inr (Or.inr hfail)
    rw [if_neg h]
    by_cases h : c = Text.minus ∨ isDigit c = true
    · rw [if_pos h]
      obtain ⟨read, hread, hcases⟩ := scanNumber_cases h s.get
      refine ⟨c :: read, Reads.after_reset hcurrent hread, ?_⟩
      rcases hcases with ⟨l, hl, htext, hends, htoken⟩ | hfail
      · refine Or.inl ?_
        rw [htoken, ← htext]
        exact .number hl hends
      · exact Or.inr (Or.inr hfail)
    rw [if_neg h]
    have hbyte := (Reads.byte hcurrent).advances
    by_cases h : c = 0x00
    · rw [if_pos h]
      refine ⟨[c], hbyte, Or.inr (Or.inl ⟨rfl, ?_⟩)⟩
      intro d hd
      rw [get_current, hd] at hcurrent
      rw [Option.some.inj hcurrent, h]
    · rw [if_neg h]
      exact ⟨[c], hbyte, Or.inr (Or.inr ⟨_, rfl⟩)⟩

theorem digit_ne {c d : UInt8} (hc : isDigit c = true) (hd : isDigit d = false) : c ≠ d := by
  rintro rfl
  rw [hc] at hd
  cases hd

theorem scanCurrent_number {c : UInt8} (hc : c = Text.minus ∨ isDigit c = true) {s : Lexer}
    (hcurrent : s.current = some c) : scanCurrent s = scanNumber c s := by
  have hne {d : UInt8} (hd : isDigit d = false) (hminus : Text.minus ≠ d) : c ≠ d := by
    rcases hc with rfl | hdigit
    · exact hminus
    · exact digit_ne hdigit hd
  simp only [scanCurrent, hcurrent]
  rw [if_neg (hne (by decide) (by decide)), if_neg (hne (by decide) (by decide)), if_neg (hne (by decide) (by decide)),
    if_neg (hne (by decide) (by decide)), if_neg (hne (by decide) (by decide)), if_neg (hne (by decide) (by decide)),
    if_neg (hne (by decide) (by decide)), if_neg (hne (by decide) (by decide)), if_neg (hne (by decide) (by decide)),
    if_neg (hne (by decide) (by decide)), if_pos hc]

/-- A literal starts with its sign or a digit. -/
theorem text_head {l : NumberLiteral} (h : l.WellFormed) :
    ∃ c read, l.text = c :: read ∧ (c = Text.minus ∨ isDigit c = true) := by
  obtain ⟨d, digits, hwhole⟩ := List.exists_cons_of_ne_nil h.whole_numeral.2
  have hnumeral := h.whole_numeral.1
  rw [hwhole] at hnumeral
  rw [NumberLiteral.text, hwhole]
  cases l.negative with
  | true => exact ⟨_, _, rfl, Or.inl rfl⟩
  | false => exact ⟨d, _, rfl, Or.inr (IsNumeral.cons_iff.mp hnumeral).1⟩

theorem literal_of {c : UInt8} {text rest : List UInt8} {token : Token} {s : Lexer} (hs : s.rest = c :: (text ++ rest))
    (hscan : scanCurrent s.get = scanLiteral text token s.get) :
    ∃ u, Advances s (c :: text) u ∧ scanCurrent s.get = (token, u) := by
  obtain ⟨u, hu, hliteral⟩ := scanLiteral_of token (get_rest_cons hs)
  exact ⟨u, ((Reads.byte (get_current_cons hs)).trans hu).advances, by rw [hscan, hliteral]⟩

/-- Every spelling of a token is read as that token. -/
theorem scanCurrent_of {token : Token} {text rest : List UInt8} (h : Lexeme token text rest.head?) {s : Lexer}
    (hs : s.rest = text ++ rest) : ∃ u, Advances s text u ∧ scanCurrent s.get = (token, u) := by
  cases h with
  | beginArray | endArray | beginObject | endObject | nameSeparator | valueSeparator =>
    have hcurrent := get_current_cons hs
    exact ⟨s.get, (Reads.byte hcurrent).advances, by simp [scanCurrent, hcurrent, - get_current]⟩
  | literalTrue | literalFalse | literalNull =>
    exact literal_of hs (by simp [scanCurrent, get_current_cons hs, - get_current])
  | @valueString text chars hchars =>
    have hs' : s.rest = quote :: (text ++ quote :: rest) := by simp [hs]
    have hcurrent := get_current_cons hs'
    have hrest : s.get.reset.rest = text ++ quote :: rest := get_rest_cons hs'
    obtain ⟨u, hu, hscan⟩ := @scanStringLoop_of _ _ hchars _ [] _ _ hrest (Nat.lt_succ_self _)
    refine ⟨u, Reads.after_reset hcurrent hu, ?_⟩
    have hstring : scanCurrent s.get = scanString s.get := by
      simp [scanCurrent, hcurrent, quote, - get_current]
    rw [hstring, scanString]
    exact hscan
  | @number l hl _ hends =>
    obtain ⟨c, read, htext, hc⟩ := text_head hl
    rw [htext] at hs ⊢
    have hcurrent := get_current_cons hs
    obtain ⟨u, hu, hscan⟩ := scanNumber_of hl htext (get_rest_cons hs) hends
    exact ⟨u, Reads.after_reset hcurrent hu, by rw [scanCurrent_number hc hcurrent, hscan]⟩

theorem scanToken_cases (s : Lexer) :
    ∃ space u, IsSpace space ∧ Reads s space u ∧ Scanned u (scanToken s) := by
  obtain ⟨u, hu, hskip⟩ := skipWhitespace_eq (Nat.lt_succ_self s.rest.length)
  refine ⟨_, u, ?_, hu, ?_⟩
  · intro c hc
    exact List.all_eq_true.mp List.all_takeWhile c hc
  · rw [scanToken, hskip]
    exact scanCurrent_cases u

theorem takeWhile_space {space rest : List UInt8} (hspace : IsSpace space)
    (hrest : ∀ c, rest.head? = some c → isWhitespace c = false) : (space ++ rest).takeWhile isWhitespace = space := by
  rw [List.takeWhile_append_of_pos hspace]
  cases rest with
  | nil => simp
  | cons c rest =>
    rw [List.takeWhile_cons_of_neg (by rw [hrest c rfl]; simp), List.append_nil]

theorem scanToken_skip {space rest : List UInt8} (hspace : IsSpace space)
    (hrest : ∀ c, rest.head? = some c → isWhitespace c = false) {s : Lexer} (hs : s.rest = space ++ rest) :
    ∃ u, Reads s space u ∧ scanToken s = scanCurrent u.get := by
  obtain ⟨u, hu, hskip⟩ := skipWhitespace_eq (Nat.lt_succ_self s.rest.length)
  rw [hs, takeWhile_space hspace hrest] at hu
  exact ⟨u, hu, by rw [scanToken, hskip]⟩

end Lexer

/-- No spelling is empty or starts with whitespace. -/
theorem Lexeme.head {token : Token} {text : List UInt8} {next : Option UInt8} (h : Lexeme token text next) :
    ∃ c rest, text = c :: rest ∧ Lexer.isWhitespace c = false ∧ c ≠ 0xEF ∧ c ≠ 0x00 := by
  cases h with
  | beginArray | endArray | beginObject | endObject | nameSeparator | valueSeparator | literalTrue | literalFalse
  | literalNull => exact ⟨_, _, rfl, by decide, by decide, by decide⟩
  | valueString => exact ⟨_, _, rfl, by decide, by decide, by decide⟩
  | number hl hends =>
    obtain ⟨c, read, htext, hc⟩ := Lexer.text_head hl
    refine ⟨c, read, htext, ?_⟩
    rcases hc with rfl | hdigit
    · decide
    · refine ⟨?_, Lexer.digit_ne hdigit (by decide), Lexer.digit_ne hdigit (by decide)⟩
      have h₁ : c ≠ 0x20 := Lexer.digit_ne hdigit (by decide)
      have h₂ : c ≠ 0x09 := Lexer.digit_ne hdigit (by decide)
      have h₃ : c ≠ 0x0A := Lexer.digit_ne hdigit (by decide)
      have h₄ : c ≠ 0x0D := Lexer.digit_ne hdigit (by decide)
      simp [Lexer.isWhitespace, h₁, h₂, h₃, h₄]

namespace Lexer

theorem scanToken_of {token : Token} {space text rest : List UInt8} (hspace : IsSpace space)
    (h : Lexeme token text rest.head?) {s : Lexer} (hs : s.rest = space ++ (text ++ rest)) :
    ∃ u, Advances s (space ++ text) u ∧ scanToken s = (token, u) := by
  obtain ⟨c, others, htext, hc, -⟩ := h.head
  obtain ⟨u, hu, hskip⟩ := @scanToken_skip space (text ++ rest) hspace (by
    rintro d hd
    rw [htext, List.cons_append, List.head?_cons] at hd
    exact Option.some.inj hd ▸ hc) s hs
  obtain ⟨v, hv, hscan⟩ := scanCurrent_of h (hu.rest_of hs)
  exact ⟨v, hu.advances.trans hv, by rw [hskip, hscan]⟩

theorem scanToken_end {space rest : List UInt8} (hspace : IsSpace space) (hend : AtEnd rest) {s : Lexer}
    (hs : s.rest = space ++ rest) : (scanToken s).1 = .endOfInput := by
  have hnot (c : UInt8) (hc : rest.head? = some c) : isWhitespace c = false := by
    rw [hend c hc]
    decide
  obtain ⟨u, hu, hskip⟩ := scanToken_skip hspace hnot hs
  rw [hskip]
  cases rest with
  | nil => simp [scanCurrent, hu.rest_of hs]
  | cons c rest =>
    have hcurrent := get_current_cons (hu.rest_of hs)
    rw [hend c rfl] at hcurrent
    simp only [scanCurrent, hcurrent]
    rfl

/-! ## The byte order mark -/

def bom : List UInt8 := [0xEF, 0xBB, 0xBF]

theorem scan_started {s : Lexer} (h : s.position.charsReadTotal ≠ 0) : s.scan = s.scanToken := if_neg h

theorem scan_plain {text : List UInt8} (h : text.head? ≠ some 0xEF) :
    ∃ u, Reads (start text) [] u ∧ (start text).scan = u.scanToken := by
  have hcurrent : (start text).get.current ≠ some 0xEF := h
  refine ⟨_, Reads.get_unget (start text), ?_⟩
  rw [scan, if_pos (show (start text).position.charsReadTotal = 0 from rfl)]
  simp only [skipBom, if_neg hcurrent]

theorem scan_bom (rest : List UInt8) :
    ∃ u, Reads (start (bom ++ rest)) bom u ∧ (start (bom ++ rest)).scan = u.scanToken := by
  have hfirst : (start (bom ++ rest)).get.current = some 0xEF := rfl
  have hsecond : (start (bom ++ rest)).get.get.current = some 0xBB := rfl
  have hthird : (start (bom ++ rest)).get.get.get.current = some 0xBF := rfl
  refine ⟨_, (Reads.byte hfirst).trans ((Reads.byte hsecond).trans (Reads.byte hthird)), ?_⟩
  rw [scan, if_pos (show (start (bom ++ rest)).position.charsReadTotal = 0 from rfl)]
  simp only [skipBom, hfirst, hsecond, hthird, if_pos, decide_true]

/-- The first token is read after a byte order mark, or from the start if there is none. -/
theorem scan_start_cases (text : List UInt8) :
    ∃ read u, Reads (start text) read u ∧ (((read = bom ∨ read = [] ∧ text.head? ≠ some 0xEF) ∧
      (start text).scan = u.scanToken) ∨ ∃ message, (start text).scan = (.parseError message, u)) := by
  by_cases hfirst : (start text).get.current = some 0xEF
  · by_cases hsecond : (start text).get.get.current = some 0xBB
    · have hread := (Reads.byte hfirst).trans (Reads.byte hsecond)
      by_cases hthird : (start text).get.get.get.current = some 0xBF
      · have hbom := hread.trans (Reads.byte hthird)
        have htext := hbom.rest
        obtain ⟨u, hu, hscan⟩ := scan_bom (start text).get.get.get.rest
        rw [show bom ++ (start text).get.get.get.rest = text from htext.symm] at hu hscan
        exact ⟨bom, u, hu, Or.inl ⟨Or.inl rfl, hscan⟩⟩
      · refine ⟨_, _, hread.trans (Reads.get _), Or.inr ⟨"invalid BOM; must be 0xEF 0xBB 0xBF if given", ?_⟩⟩
        rw [scan, if_pos (show (start text).position.charsReadTotal = 0 from rfl)]
        simp only [skipBom, hfirst, hsecond, if_pos, hthird, decide_false]
    · refine ⟨_, _, (Reads.byte hfirst).trans (Reads.get _), Or.inr ⟨"invalid BOM; must be 0xEF 0xBB 0xBF if given", ?_⟩⟩
      rw [scan, if_pos (show (start text).position.charsReadTotal = 0 from rfl)]
      simp only [skipBom, hfirst, if_pos, if_neg hsecond]
  · obtain ⟨u, hu, hscan⟩ := scan_plain hfirst
    exact ⟨[], u, hu, Or.inl ⟨Or.inr ⟨rfl, hfirst⟩, hscan⟩⟩

end Lexer

end CrossNative.Text
