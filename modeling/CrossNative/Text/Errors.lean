import CrossNative.Text.RoundTrip

/-!
# The texts of parse errors

A text that is not accepted ends in an error of the lexer, the grammar or the number range,
never for want of fuel. Its message is ASCII around a stretch of the input, which it quotes.
-/

namespace CrossNative.Text

set_option autoImplicit false

open Basis

theorem IsPlain.append {front back : List UInt8} (hfront : IsPlain front) (hback : IsPlain back) :
    IsPlain (front ++ back) := List.forall_mem_append.mpr ⟨hfront, hback⟩

theorem IsPlain.nil : IsPlain [] := by simp [IsPlain]

theorem plain_append {s t : String} (hs : IsPlain (bytesOf s)) (ht : IsPlain (bytesOf t)) : IsPlain (bytesOf (s ++ t)) := by
  rw [bytesOf_append]
  exact hs.append ht

theorem plain_toString (n : Nat) : IsPlain (bytesOf (toString n)) := by
  rw [Nat.toString_eq_repr, Nat.repr_eq_ofList_toDigits, bytesOf_ofList]
  intro b hb
  obtain ⟨c, hc, hbc⟩ := List.mem_flatMap.mp hb
  have hdigit := Nat.isDigit_of_mem_toDigits (by decide) (by decide) hc
  have hrange : 48 ≤ c.toNat ∧ c.toNat ≤ 57 := by simpa [Char.isDigit, UInt32.le_iff_toNat_le] using hdigit
  rw [utf8EncodeChar_ascii (by omega), List.mem_singleton] at hbc
  rw [hbc, toNat_ofNat_lt (by omega)]
  omega

/-! ## The messages of the lexer -/

namespace Lexer

/-- If this is an error its message is plain. -/
def Speaks (token : Token) : Prop := ∀ message, token = .parseError message → IsPlain (bytesOf message)

def StringStep.Speaks (step : StringStep) : Prop := ∀ message, step = .fail message → IsPlain (bytesOf message)

theorem speaks_fail {message : String} (h : IsPlain (bytesOf message)) : StringStep.Speaks (.fail message) := by
  intro other hother
  obtain rfl := StringStep.fail.inj hother
  exact h

theorem speaks_add (bytes : List UInt8) : StringStep.Speaks (.add bytes) := by
  intro message h
  cases h

theorem speaks_closed : StringStep.Speaks .closed := by
  intro message h
  cases h

theorem plain_illFormed : IsPlain (bytesOf illFormed) := by decide

theorem plain_missingLow : IsPlain (bytesOf missingLow) := by decide

theorem plain_fourHexDigits : IsPlain (bytesOf fourHexDigits) := by decide

theorem plain_controlMessage : ∀ n < 32, IsPlain (bytesOf (controlMessage (.ofNat n))) := by decide +kernel

theorem nextByteInRange_speaks (ranges : List (UInt8 × UInt8)) (bytes : List UInt8) (s : Lexer) :
    (nextByteInRange ranges bytes s).1.Speaks := by
  induction ranges generalizing bytes s with
  | nil => exact speaks_add bytes
  | cons range ranges ih =>
    simp only [nextByteInRange]
    split
    · split
      · exact ih _ _
      · exact speaks_fail plain_illFormed
    · exact speaks_fail plain_illFormed

theorem scanLowSurrogate_speaks (high : Nat) (s : Lexer) : (scanLowSurrogate high s).1.Speaks := by
  simp only [scanLowSurrogate]
  split
  · split
    · split
      · exact speaks_fail plain_fourHexDigits
      · split
        · exact speaks_add _
        · exact speaks_fail plain_missingLow
    · exact speaks_fail plain_missingLow
  · exact speaks_fail plain_missingLow

theorem scanUnicodeEscape_speaks (s : Lexer) : (scanUnicodeEscape s).1.Speaks := by
  simp only [scanUnicodeEscape]
  split
  · exact speaks_fail plain_fourHexDigits
  split
  · exact scanLowSurrogate_speaks _ _
  split
  · exact speaks_fail (by decide)
  · exact speaks_add _

theorem scanEscape_speaks (s : Lexer) : (scanEscape s).1.Speaks := by
  simp only [scanEscape]
  split
  · split
    · exact speaks_add _
    split
    · exact scanUnicodeEscape_speaks _
    · exact speaks_fail (by decide)
  · exact speaks_fail (by decide)

theorem scanStringStep_speaks (s : Lexer) : (scanStringStep s).1.Speaks := by
  simp only [scanStringStep]
  split
  · exact speaks_fail (by decide)
  split
  · exact speaks_closed
  split
  · exact scanEscape_speaks _
  split
  · rename_i c _ _ _ hlow
    have hc : c.toNat < 32 := by simpa [UInt8.lt_iff_toNat_lt] using hlow
    have hplain := plain_controlMessage c.toNat hc
    rw [UInt8.ofNat_toNat] at hplain
    exact speaks_fail hplain
  split
  · exact speaks_add _
  split
  · exact nextByteInRange_speaks _ _ _
  · exact speaks_fail plain_illFormed

theorem speaks_error {message : String} (h : IsPlain (bytesOf message)) : Speaks (.parseError message) := by
  intro other hother
  obtain rfl := Token.parseError.inj hother
  exact h

theorem speaks_other {token : Token} (h : ∀ message, token ≠ .parseError message) : Speaks token :=
  fun message hmessage => (h message hmessage).elim

theorem scanStringLoop_speaks (fuel : Nat) (buffer : List UInt8) (s : Lexer) : Speaks (scanStringLoop fuel buffer s).1 := by
  induction fuel generalizing buffer s with
  | zero => exact speaks_error (by decide)
  | succ fuel ih =>
    have hstep := scanStringStep_speaks s
    simp only [scanStringLoop]
    split
    · exact ih _ _
    · exact speaks_other (by simp)
    · rename_i message _ heq
      rw [heq] at hstep
      exact speaks_error (hstep message rfl)

theorem move_speaks {state : NumberState} {c : Option UInt8} {message : String} (h : state.move c = .fail message) :
    IsPlain (bytesOf message) := by
  unfold NumberState.move at h
  cases state with
  | minus | decimal1 | exponent | sign =>
    simp only at h
    repeat' split at h
    all_goals cases h
    decide
  | zero | any1 | decimal2 | any2 =>
    simp only at h
    repeat' split at h
    all_goals cases h

theorem convertNumber_ne (t : NumberType) (buffer : List UInt8) (message : String) :
    convertNumber t buffer ≠ .parseError message := by
  unfold convertNumber
  cases t with
  | unsigned => cases strtoull buffer <;> simp
  | integer => cases strtoll buffer <;> simp
  | float => simp

theorem scanNumberLoop_speaks (fuel : Nat) (state : NumberState) (t : NumberType) (buffer : List UInt8) (s : Lexer) :
    Speaks (scanNumberLoop fuel state t buffer s).1 := by
  induction fuel generalizing state t buffer s with
  | zero => exact speaks_error (by decide)
  | succ fuel ih =>
    simp only [scanNumberLoop]
    split
    · exact ih _ _ _ _
    · exact speaks_other (convertNumber_ne _ _)
    · rename_i message heq
      exact speaks_error (move_speaks heq)

theorem scanLiteral_speaks {text : List UInt8} {token : Token} (htoken : Speaks token) (s : Lexer) :
    Speaks (scanLiteral text token s).1 := by
  induction text generalizing s with
  | nil => exact htoken
  | cons c text ih =>
    simp only [scanLiteral]
    split
    · exact ih _
    · exact speaks_error (by decide)

theorem speaks_ite {p : Prop} [Decidable p] {x y : Token × Lexer} (hx : Speaks x.1) (hy : Speaks y.1) :
    Speaks (if p then x else y).1 := by
  by_cases h : p
  · rwa [if_pos h]
  · rwa [if_neg h]

theorem scanCurrent_speaks (s : Lexer) : Speaks (scanCurrent s).1 := by
  unfold scanCurrent
  cases s.current with
  | none => exact speaks_other (by simp)
  | some c =>
    refine speaks_ite (speaks_other (by simp)) ?_
    refine speaks_ite (speaks_other (by simp)) ?_
    refine speaks_ite (speaks_other (by simp)) ?_
    refine speaks_ite (speaks_other (by simp)) ?_
    refine speaks_ite (speaks_other (by simp)) ?_
    refine speaks_ite (speaks_other (by simp)) ?_
    refine speaks_ite (scanLiteral_speaks (speaks_other (by simp)) s) ?_
    refine speaks_ite (scanLiteral_speaks (speaks_other (by simp)) s) ?_
    refine speaks_ite (scanLiteral_speaks (speaks_other (by simp)) s) ?_
    refine speaks_ite (scanStringLoop_speaks _ _ _) ?_
    refine speaks_ite (scanNumberLoop_speaks _ _ _ _ _) ?_
    exact speaks_ite (speaks_other (by simp)) (speaks_error (by decide))

theorem scan_speaks (s : Lexer) : Speaks s.scan.1 := by
  unfold scan
  split
  · split
    · exact scanCurrent_speaks _
    · exact speaks_error (by decide)
  · exact scanCurrent_speaks _

/-! ## What a scan consumes -/

theorem skipBom_reads (s : Lexer) : ∃ read, Reads s read s.skipBom.2 := by
  simp only [skipBom]
  split
  · split
    · exact ⟨_, (Reads.get s).trans ((Reads.get _).trans (Reads.get _))⟩
    · exact ⟨_, (Reads.get s).trans (Reads.get _)⟩
  · exact ⟨_, Reads.get_unget s⟩

theorem scanToken_advances (s : Lexer) :
    ∃ read, Advances s read s.scanToken.2 ∧ (s.scanToken.1.Proper → read ≠ []) := by
  obtain ⟨space, u, -, hu, read, hread, hcases⟩ := scanToken_cases s
  refine ⟨space ++ read, hu.advances.trans hread, ?_⟩
  intro hproper
  rcases hcases with hlexeme | ⟨hend, -⟩ | ⟨message, herror⟩
  · obtain ⟨c, others, rfl, -⟩ := hlexeme.head
    simp
  · exact (hproper.1 hend).elim
  · exact (hproper.2 message herror).elim

/-- A scan only moves forward, and a token takes at least a byte. -/
theorem scan_advances (s : Lexer) : ∃ read, Advances s read s.scan.2 ∧ (s.scan.1.Proper → read ≠ []) := by
  unfold scan
  split
  · obtain ⟨read, hread⟩ := skipBom_reads s
    split
    · rename_i u heq
      rw [heq] at hread
      obtain ⟨last, hlast, hne⟩ := scanToken_advances u
      refine ⟨read ++ last, hread.advances.trans hlast, ?_⟩
      intro hproper
      simp [hne hproper]
    · rename_i u heq
      rw [heq] at hread
      exact ⟨read, hread.advances, fun hproper => (hproper.2 _ rfl).elim⟩
  · exact scanToken_advances s

end Lexer

/-! ## The messages of the parser -/

/-- Control characters are spelled out. -/
def spelled (quoted : List UInt8) : List UInt8 :=
  quoted.flatMap fun c => if c ≤ 0x1F then Lexer.spellControl c else [c]

/-- `what` is ASCII around a stretch of the text. -/
def Quotes (text what : List UInt8) : Prop :=
  ∃ front quoted back, IsPlain front ∧ IsPlain back ∧ quoted <:+: text ∧ what = front ++ spelled quoted ++ back

theorem quotes_plain (text : List UInt8) {what : List UInt8} (h : IsPlain what) : Quotes text what :=
  ⟨what, [], [], h, .nil, List.nil_infix, by simp [spelled]⟩

theorem Quotes.after {text what : List UInt8} (h : Quotes text what) {front : List UInt8} (hfront : IsPlain front) :
    Quotes text (front ++ what) := by
  obtain ⟨front', quoted, back, hfront', hback, hquoted, rfl⟩ := h
  exact ⟨front ++ front', quoted, back, hfront.append hfront', hback, hquoted, by simp⟩

theorem Quotes.before {text what : List UInt8} (h : Quotes text what) {back : List UInt8} (hback : IsPlain back) :
    Quotes text (what ++ back) := by
  obtain ⟨front, quoted, back', hfront, hback', hquoted, rfl⟩ := h
  exact ⟨front, quoted, back' ++ back, hfront, hback'.append hback, hquoted, by simp⟩

/-- How the text of every exception of the library starts. -/
def exceptionMark : List UInt8 := bytesOf "[json.exception."

/-- The text of an exception, around a stretch of the text. -/
structure Raised (text what : List UInt8) : Prop where
  marked : exceptionMark <+: what
  quotes : Quotes text what

namespace Parser

/-- The lexer is inside the text, and what it has found to be wrong is plain. -/
structure Within (text : List UInt8) (p : Parser) : Prop where
  advances : ∃ read, Lexer.Advances (.start text) read p.lexer
  speaks : Lexer.Speaks p.lastToken

variable {text : List UInt8} {p : Parser}

theorem Within.getToken (h : ∃ read, Lexer.Advances (.start text) read p.lexer) : Within text p.getToken where
  advances := by
    obtain ⟨read, hread⟩ := h
    obtain ⟨last, hlast, -⟩ := p.lexer.scan_advances
    exact ⟨read ++ last, hread.trans hlast⟩
  speaks := p.lexer.scan_speaks

theorem Within.start (text : List UInt8) : Within text (.start text) :=
  .getToken ⟨[], (Lexer.Reads.refl _).advances⟩

theorem Within.quotes (h : Within text p) : Quotes text p.lexer.getTokenString := by
  obtain ⟨read, hread⟩ := h.advances
  have hsuffix : p.lexer.tokenString <:+ read := by
    have := hread.tokenString
    rwa [show (Lexer.start text).tokenString = [] from rfl, List.nil_append] at this
  have htext : text = read ++ p.lexer.rest := hread.rest
  refine ⟨[], p.lexer.tokenString, [], .nil, .nil, ?_, by simp [Lexer.getTokenString, spelled]⟩
  rw [htext]
  exact hsuffix.isInfix.trans (List.infix_append' [] read p.lexer.rest)

theorem plain_tokenTypeName (t : TokenType) : IsPlain (bytesOf (tokenTypeName t)) := by
  cases t <;> decide

theorem plain_positionString (q : Position) : IsPlain (bytesOf (positionString q)) :=
  plain_append (plain_append (plain_append (by decide) (plain_toString _)) (by decide)) (plain_toString _)

theorem Within.parseError (p : Parser) {message : List UInt8} (h : Quotes text message) : Raised text (p.parseError message) where
  marked := by
    have hmark : exceptionMark <+: bytesOf "[json.exception.parse_error.101] parse error" := by decide
    rw [Parser.parseError, bytesOf_append, bytesOf_append, List.append_assoc, List.append_assoc]
    exact hmark.trans (List.prefix_append _ _)
  quotes := h.after (plain_append (plain_append (by decide) (plain_positionString _)) (by decide))

theorem Within.syntaxError (h : Within text p) (expected : TokenType) {context : String} (hcontext : IsPlain (bytesOf context)) :
    Raised text (p.syntaxError expected context) := by
  refine Within.parseError p ?_
  have hfront : IsPlain (bytesOf ("syntax error while parsing " ++ context ++ " - ")) :=
    plain_append (plain_append (by decide) hcontext) (by decide)
  have hback : IsPlain (if expected = .uninitialized then [] else bytesOf ("; expected " ++ tokenTypeName expected)) := by
    split
    · exact .nil
    · exact plain_append (by decide) (plain_tokenTypeName _)
  refine Quotes.before (Quotes.after ?_ hfront) hback
  split
  · rename_i message htoken
    exact (h.quotes.after (plain_append (h.speaks message htoken) (by decide))).before (by decide)
  · exact quotes_plain text (plain_append (by decide) (plain_tokenTypeName _))

theorem Within.overflowError (h : Within text p) : Raised text p.overflowError where
  marked := by
    have hmark : exceptionMark <+: bytesOf "[json.exception.out_of_range.406] number overflow parsing '" := by decide
    rw [Parser.overflowError, List.append_assoc]
    exact hmark.trans (List.prefix_append _ _)
  quotes := (h.quotes.after (by decide)).before (by decide)

/-! ## The loop never runs out of fuel -/

/-- An error is an exception that quotes the text, and a result meets `P`. -/
def Yields {α : Type} (text : List UInt8) (P : α → Prop) : Except What α → Prop
  | .ok a => P a
  | .error what => Raised text what

theorem Yields.bind {α β : Type} {P : α → Prop} {Q : β → Prop} {x : Except What α} {f : α → Except What β}
    (h : Yields text P x) (hf : ∀ a, P a → Yields text Q (f a)) : Yields text Q (x >>= f) := by
  cases x with
  | error what => exact h
  | ok a => exact hf a h

/-- At most `n` bytes are left, and fewer if a token has been read. -/
structure Ready (text : List UInt8) (n : Nat) (p : Parser) : Prop extends Within text p where
  length_le : p.lexer.rest.length ≤ n
  length_lt : p.lastToken.Proper → p.lexer.rest.length < n

theorem Within.ready (h : Within text p) : Ready text p.lexer.rest.length p.getToken where
  toWithin := .getToken h.advances
  length_le := by
    obtain ⟨read, hread, -⟩ := p.lexer.scan_advances
    have hlength := congrArg List.length hread.rest
    rw [List.length_append] at hlength
    change p.lexer.scan.2.rest.length ≤ _
    omega
  length_lt := by
    intro hproper
    obtain ⟨read, hread, hne⟩ := p.lexer.scan_advances
    have hlength := congrArg List.length hread.rest
    have hpos := List.length_pos_of_ne_nil (hne hproper)
    rw [List.length_append] at hlength
    change p.lexer.scan.2.rest.length < _
    omega

/-- The same lexer under a parser that reads on. -/
theorem Within.other (h : Within text p) (dom : Dom) (states : List Bool) :
    Ready text p.lexer.rest.length { p with dom := dom, states := states }.getToken :=
  Within.ready (p := { p with dom := dom, states := states }) ⟨h.advances, h.speaks⟩

theorem parseKey_yields (h : Within text p) :
    Yields text (fun q => Within text q ∧ q.lexer.rest.length ≤ p.lexer.rest.length) p.parseKey := by
  unfold parseKey
  split
  · rename_i key hkey
    have hready := h.other (p.dom.key (decoded key)) p.states
    dsimp only
    split
    · exact ⟨hready.toWithin, hready.length_le⟩
    · exact hready.syntaxError _ (by decide)
  · exact h.syntaxError _ (by decide)

/-- Where a turn of the loop leads. -/
def Turn.Below (text : List UInt8) (n : Nat) : Turn → Prop
  | .next q => ∃ m < n, Ready text m q
  | .evaluate q => Within text q ∧ q.lexer.rest.length < n

theorem parseValue_yields {n : Nat} (h : Ready text n p) : Yields text (Turn.Below text n) p.parseValue := by
  have hvalue (token : Token) (htoken : p.lastToken = token) (hproper : token.Proper) (dom : Dom) :
      Turn.Below text n (.evaluate { p with dom := dom }) :=
    ⟨⟨h.advances, h.speaks⟩, h.length_lt (htoken ▸ hproper)⟩
  have hfault : Raised text (p.syntaxError .literalOrValue "value") := h.syntaxError _ (by decide)
  unfold parseValue
  split
  · rename_i htoken
    have hlt := h.length_lt (htoken ▸ by simp [Token.Proper])
    have hready := h.other p.dom.startObject p.states
    dsimp only
    split
    · exact ⟨⟨hready.advances, hready.speaks⟩, Nat.lt_of_le_of_lt hready.length_le hlt⟩
    · refine Yields.bind (parseKey_yields hready.toWithin) ?_
      rintro q ⟨hq, hle⟩
      exact ⟨_, Nat.lt_of_le_of_lt (Nat.le_trans hle hready.length_le) hlt, hq.other _ _⟩
  · rename_i htoken
    have hlt := h.length_lt (htoken ▸ by simp [Token.Proper])
    have hready := h.other p.dom.startArray p.states
    dsimp only
    split
    · exact ⟨⟨hready.advances, hready.speaks⟩, Nat.lt_of_le_of_lt hready.length_le hlt⟩
    · exact ⟨_, hlt, ⟨hready.advances, hready.speaks⟩, hready.length_le, hready.length_lt⟩
  · rename_i bits htoken
    split
    · exact hvalue _ htoken (by simp [Token.Proper]) _
    · exact h.overflowError
  · rename_i htoken
    exact hvalue _ htoken (by simp [Token.Proper]) _
  · rename_i htoken
    exact hvalue _ htoken (by simp [Token.Proper]) _
  · rename_i htoken
    exact hvalue _ htoken (by simp [Token.Proper]) _
  · rename_i n htoken
    exact hvalue _ htoken (by simp [Token.Proper]) _
  · rename_i s htoken
    exact hvalue _ htoken (by simp [Token.Proper]) _
  · rename_i n htoken
    exact hvalue _ htoken (by simp [Token.Proper]) _
  · exact h.syntaxError _ (by decide)
  · split
    · exact Within.parseError p (quotes_plain text (by decide))
    · exact hfault
  all_goals exact hfault

/-- What the evaluation of a state leads to. -/
def Evaluation.Below (text : List UInt8) (n : Nat) : Evaluation → Prop
  | .finished q => Within text q
  | .next q => ∃ m < n, Ready text m q
  | .evaluate q => Within text q ∧ q.lexer.rest.length < n

theorem evaluateState_yields (h : Within text p) :
    Yields text (Evaluation.Below text p.lexer.rest.length) p.evaluateState := by
  have hready := h.ready
  unfold evaluateState
  split
  · exact h
  · dsimp only
    split
    · rename_i htoken
      exact ⟨_, hready.length_lt (htoken ▸ by simp [Token.Proper]), hready.ready⟩
    split
    · rename_i htoken
      exact ⟨⟨hready.advances, hready.speaks⟩, hready.length_lt (htoken ▸ by simp [Token.Proper])⟩
    · exact hready.syntaxError _ (by decide)
  · dsimp only
    split
    · rename_i htoken
      refine Yields.bind (parseKey_yields hready.ready.toWithin) ?_
      rintro q ⟨hq, hle⟩
      have hlt := hready.length_lt (htoken ▸ by simp [Token.Proper])
      exact ⟨_, Nat.lt_of_le_of_lt (Nat.le_trans hle hready.ready.length_le) hlt, hq.ready⟩
    split
    · rename_i htoken
      exact ⟨⟨hready.advances, hready.speaks⟩, hready.length_lt (htoken ▸ by simp [Token.Proper])⟩
    · exact hready.syntaxError _ (by decide)

/-- Every turn takes at least a byte of the text. -/
theorem saxParseInternal_yields (fuel : Nat) :
    (∀ p n, Ready text n p → n < fuel → Yields text (Within text) (saxParseInternal fuel false p)) ∧
      ∀ p, Within text p → p.lexer.rest.length < fuel → Yields text (Within text) (saxParseInternal fuel true p) := by
  induction fuel with
  | zero => exact ⟨fun p n h hlt => by omega, fun p h hlt => by omega⟩
  | succ fuel ih =>
    obtain ⟨hvalue, hstate⟩ := ih
    have hevaluate (q : Parser) (hq : Within text q) (hlt : q.lexer.rest.length ≤ fuel) :
        Yields text (Within text) (do
          match ← q.evaluateState with
          | .finished p => .ok p
          | .next p => saxParseInternal fuel false p
          | .evaluate p => saxParseInternal fuel true p) := by
      refine Yields.bind (evaluateState_yields hq) ?_
      intro e he
      cases e with
      | finished r => exact he
      | next r =>
        obtain ⟨m, hm, hr⟩ := he
        exact hvalue r m hr (by omega)
      | evaluate r => exact hstate r he.1 (by have := he.2; omega)
    refine ⟨?_, ?_⟩
    · intro p n h hlt
      refine Yields.bind (P := Turn.Below text n) (parseValue_yields h) ?_
      intro turn hturn
      cases turn with
      | next q =>
        obtain ⟨m, hm, hq⟩ := hturn
        exact hvalue q m hq (by omega)
      | evaluate q => exact hevaluate q hturn.1 (by have := hturn.2; omega)
    · intro p h hlt
      exact hevaluate p h (by omega)

end Parser

/-! ## Whether a message is text -/

theorem ascii_iff {b : UInt8} : b < 0x80 ↔ b.toNat < 0x80 := by simp [UInt8.lt_iff_toNat_lt]

theorem IsPlain.utf8 {text : List UInt8} (h : IsPlain text) : IsUtf8 text := (OneLine.ascii h).utf8

theorem plain_spellControl : ∀ n < 256, UInt8.ofNat n ≤ 0x1F → IsPlain (Lexer.spellControl (.ofNat n)) := by
  decide +kernel

theorem spelled_cons (c : UInt8) (rest : List UInt8) :
    spelled (c :: rest) = (if c ≤ 0x1F then Lexer.spellControl c else [c]) ++ spelled rest := by
  rw [spelled, List.flatMap_cons, spelled]

theorem plain_control {c : UInt8} (h : c ≤ 0x1F) : IsPlain (Lexer.spellControl c) := by
  have hplain := plain_spellControl c.toNat (UInt8.toNat_lt c)
  rw [UInt8.ofNat_toNat] at hplain
  exact hplain h

theorem spelled_printable (quoted : List UInt8) : ∀ b ∈ spelled quoted, 0x20 ≤ b.toNat := by
  induction quoted with
  | nil => simp [spelled]
  | cons c rest ih =>
    rw [spelled_cons]
    refine List.forall_mem_append.mpr ⟨?_, ih⟩
    split
    · rename_i hcontrol
      exact fun b hb => (plain_control hcontrol b hb).1
    · rename_i hcontrol
      rw [UInt8.le_iff_toNat_le] at hcontrol
      intro b hb
      rw [List.mem_singleton.mp hb]
      exact Nat.lt_of_not_le hcontrol

theorem spelled_high {bytes : List UInt8} (hhigh : ∀ b ∈ bytes, 0x80 ≤ b.toNat) (rest : List UInt8) :
    spelled (bytes ++ rest) = bytes ++ spelled rest := by
  induction bytes with
  | nil => rfl
  | cons b bytes ih =>
    obtain ⟨hb, hbytes⟩ := List.forall_mem_cons.mp hhigh
    have hcontrol : ¬ b ≤ 0x1F := by
      rw [UInt8.le_iff_toNat_le, show (0x1F : UInt8).toNat = 31 from rfl]
      omega
    rw [List.cons_append, spelled_cons, if_neg hcontrol, ih hbytes]
    rfl

/-- Bytes above ASCII in front of a message are bytes of the stretch. -/
theorem spelled_front {bytes tail quoted back : List UInt8} (hhigh : ∀ b ∈ bytes, 0x80 ≤ b.toNat) (hback : IsPlain back)
    (h : spelled quoted ++ back = bytes ++ tail) :
    ∃ rest, quoted = bytes ++ rest ∧ spelled rest ++ back = tail := by
  induction bytes generalizing quoted with
  | nil => exact ⟨quoted, rfl, h⟩
  | cons b bytes ih =>
    obtain ⟨hb, hbytes⟩ := List.forall_mem_cons.mp hhigh
    cases quoted with
    | nil =>
      rw [show spelled [] = [] from rfl, List.nil_append] at h
      have hmem := hback b (h ▸ List.mem_cons_self)
      omega
    | cons c quoted =>
      rw [spelled_cons] at h
      by_cases hcontrol : c ≤ 0x1F
      · rw [if_pos hcontrol] at h
        have hmem := plain_control hcontrol b (by
          rw [Lexer.spellControl] at h ⊢
          exact (List.cons.inj h).1 ▸ List.mem_cons_self)
        omega
      · rw [if_neg hcontrol] at h
        obtain ⟨rfl, hrest⟩ := List.cons.inj h
        obtain ⟨rest, rfl, htail⟩ := ih hbytes hrest
        exact ⟨rest, rfl, htail⟩

/-- A quotation is UTF-8 exactly if the stretch is. -/
theorem isUtf8_spelled {quoted back : List UInt8} (hback : IsPlain back) :
    IsUtf8 (spelled quoted ++ back) ↔ IsUtf8 quoted := by
  generalize hn : quoted.length = n
  induction n using Nat.strongRecOn generalizing quoted with
  | ind n ih =>
    cases quoted with
    | nil => exact ⟨fun _ => .nil, fun _ => hback.utf8⟩
    | cons c rest =>
      rw [List.length_cons] at hn
      have hrest := @ih rest.length (by omega) rest rfl
      rw [spelled_cons, List.append_assoc]
      by_cases hascii : c < 0x80
      · rw [isUtf8_cons_ascii hascii, ← hrest]
        by_cases hcontrol : c ≤ 0x1F
        · rw [if_pos hcontrol, (plain_control hcontrol).utf8.append_iff]
        · rw [if_neg hcontrol, List.singleton_append, isUtf8_cons_ascii hascii]
      · have hcontrol : ¬ c ≤ 0x1F := by
          rw [ascii_iff] at hascii
          rw [UInt8.le_iff_toNat_le, show (0x1F : UInt8).toNat = 31 from rfl]
          omega
        rw [if_neg hcontrol, List.singleton_append, isUtf8_cons_high hascii, isUtf8_cons_high hascii]
        constructor
        · rintro ⟨bytes, tail, hsequence, heq, htail⟩
          obtain ⟨rest', rfl, rfl⟩ := spelled_front hsequence.high hback heq
          rw [List.length_append] at hn
          exact ⟨bytes, rest', hsequence, rfl, (ih rest'.length (by omega) rfl).mp htail⟩
        · rintro ⟨bytes, rest', hsequence, rfl, hutf⟩
          rw [List.length_append] at hn
          refine ⟨bytes, spelled rest' ++ back, hsequence, ?_, (ih rest'.length (by omega) rfl).mpr hutf⟩
          rw [spelled_high hsequence.high, List.append_assoc]

theorem parse_yields (text : List UInt8) : Parser.Yields text (fun _ => True) (parse text) := by
  refine Parser.Yields.bind (P := Parser.Within text)
    ((Parser.saxParseInternal_yields (text.length + 2)).1 _ text.length ?_ (by omega)) ?_
  · exact Parser.Within.ready (p := { lexer := .start text, lastToken := .endOfInput, states := [], dom := ⟨.null, []⟩ })
      ⟨⟨[], (Lexer.Reads.refl _).advances⟩, Lexer.speaks_other (by simp)⟩
  · intro p hp
    have hlast := hp.ready
    dsimp only
    split
    · trivial
    · exact hlast.syntaxError _ (by decide)

/-- `json::parse` decides the grammar: it returns the document a text denotes, and throws an exception
at every other text. -/
theorem parse_ok_iff {text : List UInt8} :
    (∀ j, parse text = .ok j ↔ Denotes text j) ∧
      ((∀ j, ¬ Denotes text j) → ∃ what, parse text = .error what ∧ exceptionMark <+: what) := by
  refine ⟨fun j => ⟨denotes_of_parse, parse_of_denotes⟩, fun hnone => ?_⟩
  have hraised := parse_yields text
  cases hparse : parse text with
  | ok j => exact absurd (denotes_of_parse hparse) (hnone j)
  | error what =>
    rw [hparse] at hraised
    exact ⟨what, rfl, hraised.marked⟩

/-- An error text is one line around a stretch of the input, and is UTF-8 exactly if the stretch is. -/
theorem parse_error_quotes {text what : List UInt8} (h : parse text = .error what) :
    exceptionMark <+: what ∧
      ∃ front quoted back, IsPlain front ∧ IsPlain back ∧ quoted <:+: text ∧ what = front ++ spelled quoted ++ back ∧
        (∀ b ∈ what, 0x20 ≤ b.toNat) ∧ (IsUtf8 what ↔ IsUtf8 quoted) := by
  have hraised := parse_yields text
  rw [h] at hraised
  obtain ⟨hmarked, front, quoted, back, hfront, hback, hquoted, rfl⟩ := hraised
  refine ⟨hmarked, front, quoted, back, hfront, hback, hquoted, rfl, ?_, ?_⟩
  · refine List.forall_mem_append.mpr ⟨List.forall_mem_append.mpr ⟨fun b hb => (hfront b hb).1, spelled_printable quoted⟩, ?_⟩
    exact fun b hb => (hback b hb).1
  · rw [List.append_assoc, hfront.utf8.append_iff, isUtf8_spelled hback]

/-- The message of a text that starts with a letter beyond ASCII; the lexer has read its first byte. -/
def letterMessage (first : UInt8) : List UInt8 :=
  bytesOf ("[json.exception.parse_error.101] parse error at line 1, column 1: syntax error while parsing value - " ++
    "invalid literal; last read: '") ++ [first] ++ bytesOf "'"

theorem parse_error_quotes_letter :
    exceptionMark <+: letterMessage 0xC3 ∧
      ∃ front quoted back, IsPlain front ∧ IsPlain back ∧ quoted <:+: [0xC3, 0xA9] ∧
        letterMessage 0xC3 = front ++ spelled quoted ++ back ∧ (∀ b ∈ letterMessage 0xC3, 0x20 ≤ b.toNat) ∧
        (IsUtf8 (letterMessage 0xC3) ↔ IsUtf8 quoted) :=
  parse_error_quotes (show parse [0xC3, 0xA9] = .error (letterMessage 0xC3) from rfl)

end CrossNative.Text
