import CrossNative.Basis.Utf8
import CrossNative.Text.Number

/-!
# The lexer of the JSON library

Bytes in, one token a call. A NUL byte where a token may start ends the input, and a byte
order mark is skipped before the first token. What has been read since the last string or
number is kept for error messages. Comments are not ignored.
-/

namespace CrossNative.Text

set_option autoImplicit false

open Basis

def quote : UInt8 := 0x22

def backslash : UInt8 := 0x5C

/-- The letter of a Unicode escape. -/
def letterU : UInt8 := 0x75

inductive TokenType
  | uninitialized
  | literalTrue
  | literalFalse
  | literalNull
  | valueString
  | valueUnsigned
  | valueInteger
  | valueFloat
  | beginArray
  | beginObject
  | endArray
  | endObject
  | nameSeparator
  | valueSeparator
  | parseError
  | endOfInput
  | literalOrValue
  deriving DecidableEq, Repr

def tokenTypeName : TokenType → String
  | .uninitialized => "<uninitialized>"
  | .literalTrue => "true literal"
  | .literalFalse => "false literal"
  | .literalNull => "null literal"
  | .valueString => "string literal"
  | .valueUnsigned | .valueInteger | .valueFloat => "number literal"
  | .beginArray => "'['"
  | .beginObject => "'\x7b'"
  | .endArray => "']'"
  | .endObject => "'\x7d'"
  | .nameSeparator => "':'"
  | .valueSeparator => "','"
  | .parseError => "<parse error>"
  | .endOfInput => "end of input"
  | .literalOrValue => "'[', '\x7b', or a literal"

/-- A token with the value or the message the lexer holds for it. -/
inductive Token
  | literalTrue
  | literalFalse
  | literalNull
  | valueString (value : List UInt8)
  | valueUnsigned (value : Nat)
  | valueInteger (value : Int)
  | valueFloat (bits : Nat)
  | beginArray
  | beginObject
  | endArray
  | endObject
  | nameSeparator
  | valueSeparator
  | parseError (message : String)
  | endOfInput
  deriving DecidableEq, Repr

def Token.type : Token → TokenType
  | .literalTrue => .literalTrue
  | .literalFalse => .literalFalse
  | .literalNull => .literalNull
  | .valueString _ => .valueString
  | .valueUnsigned _ => .valueUnsigned
  | .valueInteger _ => .valueInteger
  | .valueFloat _ => .valueFloat
  | .beginArray => .beginArray
  | .beginObject => .beginObject
  | .endArray => .endArray
  | .endObject => .endObject
  | .nameSeparator => .nameSeparator
  | .valueSeparator => .valueSeparator
  | .parseError _ => .parseError
  | .endOfInput => .endOfInput

structure Position where
  charsReadTotal : Nat
  charsReadCurrentLine : Nat
  linesRead : Nat
  deriving DecidableEq, Repr

def Position.get (p : Position) (c : Option UInt8) : Position :=
  if c = some 0x0A then ⟨p.charsReadTotal + 1, 0, p.linesRead + 1⟩
  else ⟨p.charsReadTotal + 1, p.charsReadCurrentLine + 1, p.linesRead⟩

def Position.unget (p : Position) : Position :=
  if p.charsReadCurrentLine = 0 then ⟨p.charsReadTotal - 1, 0, p.linesRead - 1⟩
  else ⟨p.charsReadTotal - 1, p.charsReadCurrentLine - 1, p.linesRead⟩

theorem Position.get_total (p : Position) (c : Option UInt8) : (p.get c).charsReadTotal = p.charsReadTotal + 1 := by
  unfold Position.get
  split <;> rfl

theorem Position.unget_total (p : Position) : p.unget.charsReadTotal = p.charsReadTotal - 1 := by
  unfold Position.unget
  split <;> rfl

structure Lexer where
  /-- The bytes to read; one that has been put back stands first. -/
  rest : List UInt8
  /-- The byte read last, none at the end of the input. -/
  current : Option UInt8
  position : Position
  tokenString : List UInt8
  deriving DecidableEq, Repr

namespace Lexer

def start (text : List UInt8) : Lexer where
  rest := text
  current := none
  position := ⟨0, 0, 0⟩
  tokenString := []

def get (s : Lexer) : Lexer where
  rest := s.rest.tail
  current := s.rest.head?
  position := s.position.get s.rest.head?
  tokenString := s.tokenString ++ s.rest.head?.toList

def unget (s : Lexer) : Lexer where
  rest := s.current.toList ++ s.rest
  current := s.current
  position := s.position.unget
  tokenString := if s.current.isSome then s.tokenString.dropLast else s.tokenString

/-- `reset`; the caller starts an empty buffer. -/
def reset (s : Lexer) : Lexer := { s with tokenString := s.current.toList }

/-! ## Strings -/

def hexDigit (c : UInt8) : Option Nat :=
  if 0x30 ≤ c ∧ c ≤ 0x39 then some (c.toNat - 0x30)
  else if 0x41 ≤ c ∧ c ≤ 0x46 then some (c.toNat - 0x37)
  else if 0x61 ≤ c ∧ c ≤ 0x66 then some (c.toNat - 0x57)
  else none

def codepointLoop : List Nat → Nat → Lexer → Option Nat × Lexer
  | [], codepoint, s => (some codepoint, s)
  | factor :: factors, codepoint, s =>
    let s := s.get
    match s.current.bind hexDigit with
    | some d => codepointLoop factors (codepoint + d <<< factor) s
    | none => (none, s)

/-- None stands for -1. -/
def getCodepoint (s : Lexer) : Option Nat × Lexer := codepointLoop [12, 8, 4, 0] 0 s

/-- The bytes of a code point. -/
def encodeCodepoint (codepoint : Nat) : List UInt8 :=
  if codepoint < 0x80 then [.ofNat codepoint]
  else if codepoint ≤ 0x7FF then
    [.ofNat (0xC0 ||| codepoint >>> 6), .ofNat (0x80 ||| codepoint &&& 0x3F)]
  else if codepoint ≤ 0xFFFF then
    [.ofNat (0xE0 ||| codepoint >>> 12), .ofNat (0x80 ||| codepoint >>> 6 &&& 0x3F),
      .ofNat (0x80 ||| codepoint &&& 0x3F)]
  else
    [.ofNat (0xF0 ||| codepoint >>> 18), .ofNat (0x80 ||| codepoint >>> 12 &&& 0x3F),
      .ofNat (0x80 ||| codepoint >>> 6 &&& 0x3F), .ofNat (0x80 ||| codepoint &&& 0x3F)]

/-- One turn of the loop of `scan_string`. -/
inductive StringStep
  | add (bytes : List UInt8)
  | closed
  | fail (message : String)
  deriving DecidableEq, Repr

def illFormed : String := "invalid string: ill-formed UTF-8 byte"

def fourHexDigits : String := "invalid string: '\\u' must be followed by 4 hex digits"

def missingLow : String :=
  "invalid string: surrogate U+D800..U+DBFF must be followed by U+DC00..U+DFFF"

/-- The bytes after a lead byte; `bytes` have been added. -/
def nextByteInRange : List (UInt8 × UInt8) → List UInt8 → Lexer → StringStep × Lexer
  | [], bytes, s => (.add bytes, s)
  | (low, high) :: ranges, bytes, s =>
    let s := s.get
    match s.current with
    | some c => if low ≤ c ∧ c ≤ high then nextByteInRange ranges (bytes ++ [c]) s else (.fail illFormed, s)
    | none => (.fail illFormed, s)

def simpleEscape (c : UInt8) : Option UInt8 :=
  if c = quote then some quote
  else if c = backslash then some backslash
  else if c = 0x2F then some 0x2F
  else if c = 0x62 then some 0x08
  else if c = 0x66 then some 0x0C
  else if c = 0x6E then some 0x0A
  else if c = 0x72 then some 0x0D
  else if c = 0x74 then some 0x09
  else none

/-- A `\u` that must follow a high surrogate. -/
def scanLowSurrogate (high : Nat) (s : Lexer) : StringStep × Lexer :=
  let s := s.get
  if s.current = some backslash then
    let s := s.get
    if s.current = some letterU then
      match getCodepoint s with
      | (none, s) => (.fail fourHexDigits, s)
      | (some low, s) =>
        if 0xDC00 ≤ low ∧ low ≤ 0xDFFF then (.add (encodeCodepoint (high <<< 10 + low - 0x35FDC00)), s)
        else (.fail missingLow, s)
    else (.fail missingLow, s)
  else (.fail missingLow, s)

def scanUnicodeEscape (s : Lexer) : StringStep × Lexer :=
  match getCodepoint s with
  | (none, s) => (.fail fourHexDigits, s)
  | (some codepoint, s) =>
    if 0xD800 ≤ codepoint ∧ codepoint ≤ 0xDBFF then scanLowSurrogate codepoint s
    else if 0xDC00 ≤ codepoint ∧ codepoint ≤ 0xDFFF then
      (.fail "invalid string: surrogate U+DC00..U+DFFF must follow U+D800..U+DBFF", s)
    else (.add (encodeCodepoint codepoint), s)

def scanEscape (s : Lexer) : StringStep × Lexer :=
  let s := s.get
  match s.current with
  | some c =>
    match simpleEscape c with
    | some value => (.add [value], s)
    | none =>
      if c = letterU then scanUnicodeEscape s
      else (.fail "invalid string: forbidden character after backslash", s)
  | none => (.fail "invalid string: forbidden character after backslash", s)

/-- The name of a control character and its escape, as the messages give them. -/
def controlNames : List (String × String) :=
  [("U+0000 (NUL)", "\\u0000"), ("U+0001 (SOH)", "\\u0001"), ("U+0002 (STX)", "\\u0002"),
    ("U+0003 (ETX)", "\\u0003"), ("U+0004 (EOT)", "\\u0004"), ("U+0005 (ENQ)", "\\u0005"),
    ("U+0006 (ACK)", "\\u0006"), ("U+0007 (BEL)", "\\u0007"), ("U+0008 (BS)", "\\u0008 or \\b"),
    ("U+0009 (HT)", "\\u0009 or \\t"), ("U+000A (LF)", "\\u000A or \\n"), ("U+000B (VT)", "\\u000B"),
    ("U+000C (FF)", "\\u000C or \\f"), ("U+000D (CR)", "\\u000D or \\r"), ("U+000E (SO)", "\\u000E"),
    ("U+000F (SI)", "\\u000F"), ("U+0010 (DLE)", "\\u0010"), ("U+0011 (DC1)", "\\u0011"),
    ("U+0012 (DC2)", "\\u0012"), ("U+0013 (DC3)", "\\u0013"), ("U+0014 (DC4)", "\\u0014"),
    ("U+0015 (NAK)", "\\u0015"), ("U+0016 (SYN)", "\\u0016"), ("U+0017 (ETB)", "\\u0017"),
    ("U+0018 (CAN)", "\\u0018"), ("U+0019 (EM)", "\\u0019"), ("U+001A (SUB)", "\\u001A"),
    ("U+001B (ESC)", "\\u001B"), ("U+001C (FS)", "\\u001C"), ("U+001D (GS)", "\\u001D"),
    ("U+001E (RS)", "\\u001E"), ("U+001F (US)", "\\u001F")]

def controlMessage (c : UInt8) : String :=
  match controlNames[c.toNat]? with
  | some (name, escape) => "invalid string: control character " ++ name ++ " must be escaped to " ++ escape
  | none => ""

def scanStringStep (s : Lexer) : StringStep × Lexer :=
  let s := s.get
  match s.current with
  | none => (.fail "invalid string: missing closing quote", s)
  | some c =>
    if c = quote then (.closed, s)
    else if c = backslash then scanEscape s
    else if c < 0x20 then (.fail (controlMessage c), s)
    else if c < 0x80 then (.add [c], s)
    else
      match followRanges c with
      | some ranges => nextByteInRange ranges [c] s
      | none => (.fail illFormed, s)

/-- Every turn reads a byte, so as much fuel as there are bytes is enough. -/
def scanStringLoop : Nat → List UInt8 → Lexer → Token × Lexer
  | 0, _, s => (.parseError "", s)
  | fuel + 1, buffer, s =>
    match scanStringStep s with
    | (.add bytes, s) => scanStringLoop fuel (buffer ++ bytes) s
    | (.closed, s) => (.valueString buffer, s)
    | (.fail message, s) => (.parseError message, s)

def scanString (s : Lexer) : Token × Lexer := scanStringLoop (s.rest.length + 1) [] s.reset

/-! ## Numbers -/

inductive NumberType
  | unsigned
  | integer
  | float
  deriving DecidableEq, Repr

/-- What has been read of a number. -/
inductive NumberState
  | minus
  | zero
  | any1
  | decimal1
  | decimal2
  | exponent
  | sign
  | any2
  deriving DecidableEq, Repr

inductive NumberMove
  | goto (state : NumberState)
  | done
  | fail (message : String)
  deriving DecidableEq, Repr

def NumberState.enter : NumberState → NumberType → NumberType
  | .minus, _ => .integer
  | .decimal1, _ | .exponent, _ => .float
  | _, t => t

def NumberState.move (state : NumberState) (c : Option UInt8) : NumberMove :=
  match state with
  | .minus =>
    if c = some Text.zero then .goto .zero
    else if c.any isDigit then .goto .any1
    else .fail "invalid number; expected digit after '-'"
  | .zero =>
    if c = some point then .goto .decimal1
    else if c.any isExponentMark then .goto .exponent
    else .done
  | .any1 =>
    if c.any isDigit then .goto .any1
    else if c = some point then .goto .decimal1
    else if c.any isExponentMark then .goto .exponent
    else .done
  | .decimal1 =>
    if c.any isDigit then .goto .decimal2 else .fail "invalid number; expected digit after '.'"
  | .decimal2 =>
    if c.any isDigit then .goto .decimal2
    else if c.any isExponentMark then .goto .exponent
    else .done
  | .exponent =>
    if c = some plus ∨ c = some Text.minus then .goto .sign
    else if c.any isDigit then .goto .any2
    else .fail "invalid number; expected '+', '-', or digit after exponent"
  | .sign =>
    if c.any isDigit then .goto .any2 else .fail "invalid number; expected digit after exponent sign"
  | .any2 => if c.any isDigit then .goto .any2 else .done

/-- `strtoull`, none for `ERANGE`. -/
def strtoull (digits : List UInt8) : Option Nat :=
  if decimalValue digits < 2 ^ 64 then some (decimalValue digits) else none

/-- `strtoll` of a negative number, none for `ERANGE`. -/
def strtoll (text : List UInt8) : Option Int :=
  if decimalValue text.tail ≤ 2 ^ 63 then some (-(decimalValue text.tail : Int)) else none

/-- An integer out of range is read as a floating-point number. -/
def convertNumber (t : NumberType) (buffer : List UInt8) : Token :=
  match t with
  | .unsigned => (strtoull buffer).elim (.valueFloat (strtod buffer)) .valueUnsigned
  | .integer => (strtoll buffer).elim (.valueFloat (strtod buffer)) .valueInteger
  | .float => .valueFloat (strtod buffer)

def scanNumberLoop : Nat → NumberState → NumberType → List UInt8 → Lexer → Token × Lexer
  | 0, _, _, _, s => (.parseError "", s)
  | fuel + 1, state, t, buffer, s =>
    let t := state.enter t
    let s := s.get
    match state.move s.current with
    | .goto next => scanNumberLoop fuel next t (buffer ++ s.current.toList) s
    | .done => (convertNumber t buffer, s.unget)
    | .fail message => (.parseError message, s)

/-- The first byte is `c`. -/
def scanNumber (c : UInt8) (s : Lexer) : Token × Lexer :=
  let state := if c = Text.minus then .minus else if c = Text.zero then .zero else .any1
  scanNumberLoop (s.rest.length + 1) state .unsigned [c] s.reset

/-! ## Tokens -/

/-- The rest of a literal whose first letter has been read. -/
def scanLiteral : List UInt8 → Token → Lexer → Token × Lexer
  | [], token, s => (token, s)
  | c :: text, token, s =>
    let s := s.get
    if s.current = some c then scanLiteral text token s else (.parseError "invalid literal", s)

def skipBom (s : Lexer) : Bool × Lexer :=
  let s := s.get
  if s.current = some 0xEF then
    let s := s.get
    if s.current = some 0xBB then
      let s := s.get
      (s.current = some 0xBF, s)
    else (false, s)
  else (true, s.unget)

def isWhitespace (c : UInt8) : Bool := c == 0x20 || c == 0x09 || c == 0x0A || c == 0x0D

/-- The byte after the whitespace has been read as well. -/
def skipWhitespace : Nat → Lexer → Lexer
  | 0, s => s
  | fuel + 1, s =>
    let s := s.get
    if s.current.any isWhitespace then skipWhitespace fuel s else s

def scanCurrent (s : Lexer) : Token × Lexer :=
  match s.current with
  | none => (.endOfInput, s)
  | some c =>
    if c = 0x5B then (.beginArray, s)
    else if c = 0x5D then (.endArray, s)
    else if c = 0x7B then (.beginObject, s)
    else if c = 0x7D then (.endObject, s)
    else if c = 0x3A then (.nameSeparator, s)
    else if c = 0x2C then (.valueSeparator, s)
    else if c = 0x74 then scanLiteral [0x72, 0x75, 0x65] .literalTrue s
    else if c = 0x66 then scanLiteral [0x61, 0x6C, 0x73, 0x65] .literalFalse s
    else if c = 0x6E then scanLiteral [0x75, 0x6C, 0x6C] .literalNull s
    else if c = quote then scanString s
    else if c = Text.minus ∨ isDigit c then scanNumber c s
    else if c = 0x00 then (.endOfInput, s)
    else (.parseError "invalid literal", s)

def scanToken (s : Lexer) : Token × Lexer := scanCurrent (skipWhitespace (s.rest.length + 1) s)

def scan (s : Lexer) : Token × Lexer :=
  if s.position.charsReadTotal = 0 then
    match skipBom s with
    | (true, s) => scanToken s
    | (false, s) => (.parseError "invalid BOM; must be 0xEF 0xBB 0xBF if given", s)
  else scanToken s

def hexUpper (n : Nat) : UInt8 := if n < 10 then .ofNat (0x30 + n) else .ofNat (0x37 + n)

def spellControl (c : UInt8) : List UInt8 :=
  bytesOf "<U+00" ++ [hexUpper (c.toNat / 16), hexUpper (c.toNat % 16)] ++ bytesOf ">"

/-- The bytes read since the last string or number, control characters spelled out. -/
def getTokenString (s : Lexer) : List UInt8 :=
  s.tokenString.flatMap fun c => if c ≤ 0x1F then spellControl c else [c]

/-! ## What has been read -/

/-- `t` comes from `s` by reading these bytes, and perhaps the end of the input. -/
structure Reads (s : Lexer) (read : List UInt8) (t : Lexer) : Prop where
  rest : s.rest = read ++ t.rest
  tokenString : t.tokenString = s.tokenString ++ read
  total : s.position.charsReadTotal + read.length ≤ t.position.charsReadTotal

@[simp] theorem get_current (s : Lexer) : s.get.current = s.rest.head? := rfl

@[simp] theorem get_rest (s : Lexer) : s.get.rest = s.rest.tail := rfl

@[simp] theorem reset_rest (s : Lexer) : s.reset.rest = s.rest := rfl

theorem Reads.refl (s : Lexer) : Reads s [] s := ⟨rfl, by simp, by simp⟩

theorem Reads.trans {s t u : Lexer} {first last : List UInt8} (h : Reads s first t) (h' : Reads t last u) :
    Reads s (first ++ last) u where
  rest := by rw [h.rest, h'.rest, List.append_assoc]
  tokenString := by rw [h'.tokenString, h.tokenString, List.append_assoc]
  total := by
    have := h.total
    have := h'.total
    rw [List.length_append]
    omega

theorem Reads.rest_of {s t : Lexer} {read rest : List UInt8} (h : Reads s read t) (hs : s.rest = read ++ rest) :
    t.rest = rest := by
  rw [h.rest] at hs
  exact List.append_cancel_left hs

theorem Reads.get (s : Lexer) : Reads s s.get.current.toList s.get := by
  refine ⟨?_, rfl, ?_⟩
  · cases hrest : s.rest <;> simp [hrest]
  · change _ ≤ (s.position.get s.rest.head?).charsReadTotal
    rw [Position.get_total, get_current]
    cases s.rest.head? <;> simp

theorem Reads.byte {s : Lexer} {c : UInt8} (h : s.get.current = some c) : Reads s [c] s.get := by
  have hget := Reads.get s
  rwa [h] at hget

/-- A byte read and put back. -/
theorem Reads.get_unget (s : Lexer) : Reads s [] s.get.unget := by
  refine ⟨?_, ?_, ?_⟩
  · cases hrest : s.rest <;> simp [hrest, unget]
  · cases hrest : s.rest <;> simp [hrest, unget, Lexer.get]
  · change _ ≤ (s.position.get s.rest.head?).unget.charsReadTotal
    rw [Position.unget_total, Position.get_total]
    simp

theorem get_current_cons {s : Lexer} {c : UInt8} {rest : List UInt8} (h : s.rest = c :: rest) :
    s.get.current = some c := by
  rw [get_current, h, List.head?_cons]

theorem get_rest_cons {s : Lexer} {c : UInt8} {rest : List UInt8} (h : s.rest = c :: rest) : s.get.rest = rest := by
  rw [get_rest, h, List.tail_cons]

end Lexer

end CrossNative.Text
