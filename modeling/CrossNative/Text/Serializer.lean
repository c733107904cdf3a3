import CrossNative.Json
import CrossNative.Text.FloatText
import CrossNative.Text.Lexer

/-!
# The serializer of the JSON library

`dump()` without indentation: text passes through a buffer of 512 bytes, numbers through one
of 64. An invalid byte of a string throws; writing past a buffer is an assertion here.
-/

namespace CrossNative.Text

set_option autoImplicit false

open Basis

/-- How `dump` gives up. -/
inductive Abort
  | assertion
  | thrown (what : List UInt8)
  deriving DecidableEq, Repr

namespace Serializer

/-! ## Decoding -/

/-- The class of each byte, and from 256 on the next state for a state and a class. -/
def utf8d : List Nat :=
  List.replicate 128 0 ++ List.replicate 16 1 ++ List.replicate 16 9 ++ List.replicate 32 7 ++
  [8, 8] ++ List.replicate 30 2 ++
  [0xA, 0x3, 0x3, 0x3, 0x3, 0x3, 0x3, 0x3, 0x3, 0x3, 0x3, 0x3, 0x3, 0x4, 0x3, 0x3,
    0xB, 0x6, 0x6, 0x6, 0x5, 0x8, 0x8, 0x8, 0x8, 0x8, 0x8, 0x8, 0x8, 0x8, 0x8, 0x8,
    0x0, 0x1, 0x2, 0x3, 0x5, 0x8, 0x7, 0x1, 0x1, 0x1, 0x4, 0x6, 0x1, 0x1, 0x1, 0x1,
    1, 1, 1, 1, 1, 1, 1, 1, 1, 1, 1, 1, 1, 1, 1, 1, 1, 0, 1, 1, 1, 1, 1, 0, 1, 0, 1, 1, 1, 1, 1, 1,
    1, 2, 1, 1, 1, 1, 1, 2, 1, 2, 1, 1, 1, 1, 1, 1, 1, 1, 1, 1, 1, 1, 1, 2, 1, 1, 1, 1, 1, 1, 1, 1,
    1, 2, 1, 1, 1, 1, 1, 1, 1, 2, 1, 1, 1, 1, 1, 1, 1, 1, 1, 1, 1, 1, 1, 3, 1, 3, 1, 1, 1, 1, 1, 1,
    1, 3, 1, 1, 1, 1, 1, 3, 1, 3, 1, 1, 1, 1, 1, 1, 1, 3, 1, 1, 1, 1, 1, 1, 1, 1, 1, 1, 1, 1, 1, 1]

def accept : Nat := 0

def reject : Nat := 1

def nextState (state : Nat) (byte : UInt8) : Nat := utf8d.getD (256 + state * 16 + utf8d.getD byte.toNat 0) 0

def nextCodepoint (state codepoint : Nat) (byte : UInt8) : Nat :=
  if state ≠ accept then (byte.toNat &&& 0x3F) ||| codepoint <<< 6 % 2 ^ 32
  else (0xFF >>> utf8d.getD byte.toNat 0) &&& byte.toNat

/-! ## Strings -/

/-- What has been written, and the first bytes of the string buffer. -/
structure Output where
  written : List UInt8
  buffer : List UInt8
  deriving DecidableEq, Repr

def bufferSize : Nat := 512

namespace Output

/-- Bytes written to the buffer; `room` counts the terminator that `snprintf` adds as well. -/
def append (o : Output) (bytes : List UInt8) (room : Nat) : Except Abort Output :=
  if o.buffer.length + room ≤ bufferSize then .ok { o with buffer := o.buffer ++ bytes } else .error .assertion

def flush (o : Output) : Output := ⟨o.written ++ o.buffer, []⟩

end Output

def hexLower (n : Nat) : UInt8 := if n < 10 then .ofNat (0x30 + n) else .ofNat (0x57 + n)

/-- The format `\u%04x`. -/
def unicodeEscape (n : Nat) : List UInt8 :=
  [backslash, letterU, hexLower (n / 0x1000 % 16), hexLower (n / 0x100 % 16), hexLower (n / 0x10 % 16), hexLower (n % 16)]

/-- A code point whose last byte is `byte`; the bytes before it are in the buffer. -/
def writeCodepoint (o : Output) (codepoint : Nat) (byte : UInt8) : Except Abort Output :=
  if codepoint = 0x08 then o.append [backslash, 0x62] 2
  else if codepoint = 0x09 then o.append [backslash, 0x74] 2
  else if codepoint = 0x0A then o.append [backslash, 0x6E] 2
  else if codepoint = 0x0C then o.append [backslash, 0x66] 2
  else if codepoint = 0x0D then o.append [backslash, 0x72] 2
  else if codepoint = 0x22 then o.append [backslash, quote] 2
  else if codepoint = 0x5C then o.append [backslash, backslash] 2
  else if codepoint ≤ 0x1F then o.append (unicodeEscape codepoint) 7
  else o.append [byte] 1

def hexBytes (byte : UInt8) : List UInt8 := [Lexer.hexUpper (byte.toNat / 16), Lexer.hexUpper (byte.toNat % 16)]

def typeError316 (message : List UInt8) : Abort := .thrown (bytesOf "[json.exception.type_error.316] " ++ message)

def invalidByte (i : Nat) (byte : UInt8) : Abort :=
  typeError316 (bytesOf ("invalid UTF-8 byte at index " ++ toString i ++ ": 0x") ++ hexBytes byte)

def incompleteString (last : UInt8) : Abort :=
  typeError316 (bytesOf "incomplete UTF-8 string; last byte: 0x" ++ hexBytes last)

/-- There must be 13 bytes left for the next code point. -/
def flushIfFull (o : Output) : Output := if bufferSize - o.buffer.length < 13 then o.flush else o

/-- The loop of `dump_escaped`; the state and the last byte come back. -/
def dumpEscapedLoop : List UInt8 → Nat → Nat → Nat → UInt8 → Output → Except Abort (Nat × UInt8 × Output)
  | [], _, state, _, last, o => .ok (state, last, o)
  | byte :: rest, i, state, codepoint, _, o =>
    let codepoint := nextCodepoint state codepoint byte
    let state := nextState state byte
    if state = accept then do
      let o ← writeCodepoint o codepoint byte
      dumpEscapedLoop rest (i + 1) state codepoint byte (flushIfFull o)
    else if state = reject then .error (invalidByte i byte)
    else do
      let o ← o.append [byte] 1
      dumpEscapedLoop rest (i + 1) state codepoint byte o

/-- `dump_escaped` with strict error handling, not restricted to ASCII. -/
def dumpEscaped (s : List UInt8) : Except Abort (List UInt8) := do
  let (state, last, o) ← dumpEscapedLoop s 0 accept 0 0 ⟨[], []⟩
  if state = accept then .ok (o.written ++ o.buffer) else .error (incompleteString last)

/-! ## Numbers -/

def numberBufferSize : Nat := 64

def countDigitsLoop : Nat → Nat → Nat → Nat
  | 0, _, nDigits => nDigits
  | fuel + 1, x, nDigits =>
    if x < 10 then nDigits
    else if x < 100 then nDigits + 1
    else if x < 1000 then nDigits + 2
    else if x < 10000 then nDigits + 3
    else countDigitsLoop fuel (x / 10000) (nDigits + 4)

/-- Five turns are enough for 64 bits. -/
def countDigits (x : Nat) : Nat := countDigitsLoop 5 x 1

def removeSign (x : Int) : Nat := (-(x + 1)).toNat + 1

/-- The number buffer and the place behind the next byte to write. -/
structure Cursor where
  buffer : List UInt8
  pos : Nat

/-- `*(--buffer_ptr) = c`. -/
def Cursor.write (p : Cursor) (c : UInt8) : Except Abort Cursor :=
  if 0 < p.pos ∧ p.pos ≤ p.buffer.length then .ok ⟨p.buffer.set (p.pos - 1) c, p.pos - 1⟩ else .error .assertion

/-- An entry of `digits_to_99`, its last digit first. -/
def Cursor.writePair (p : Cursor) (n : Nat) : Except Abort Cursor := do
  let p ← p.write (digitChar (n % 10))
  p.write (digitChar (n / 10))

def writeDigits : Nat → Nat → Cursor → Except Abort Cursor
  | 0, _, _ => .error .assertion
  | fuel + 1, x, p =>
    if 100 ≤ x then do
      let p ← p.writePair (x % 100)
      writeDigits fuel (x / 100) p
    else if 10 ≤ x then p.writePair x
    else p.write (digitChar x)

/-- `dump_integer`; `buffer` is what the number buffer happens to hold. -/
def dumpInteger (buffer : List UInt8) (x : Int) : Except Abort (List UInt8) :=
  if x = 0 then .ok [zero]
  else do
    let absValue := if x < 0 then removeSign x else x.toNat
    let buffer := if x < 0 then buffer.set 0 minus else buffer
    let nChars := if x < 0 then 1 + countDigits absValue else countDigits absValue
    if nChars < numberBufferSize - 1 then
      let p ← writeDigits (nChars + 1) absValue ⟨buffer, nChars⟩
      .ok (p.buffer.take nChars)
    else .error .assertion

def dumpFloat (bits : Nat) : Except Abort (List UInt8) :=
  if FloatFormat.binary64.IsFinite bits then
    match toChars numberBufferSize bits with
    | some text => .ok text
    | none => .error .assertion
  else .ok (bytesOf "null")

/-! ## Documents -/

/-- A key or a string with its quotes. -/
def dumpString (s : String) : Except Abort (List UInt8) := do
  let text ← dumpEscaped (bytesOf s)
  .ok (quote :: text ++ [quote])

mutual

/-- The buffers are empty whenever a value starts; what the number buffer holds makes no difference. -/
def dump : Json → Except Abort (List UInt8)
  | .null => .ok (bytesOf "null")
  | .bool true => .ok (bytesOf "true")
  | .bool false => .ok (bytesOf "false")
  | .int n => dumpInteger (List.replicate numberBufferSize 0) n
  | .float bits => dumpFloat bits.toNat
  | .str s => dumpString s
  | .arr items =>
    if items.isEmpty then .ok (bytesOf "[]")
    else do
      let text ← dumpItems items
      .ok (0x5B :: text ++ [0x5D])
  | .obj fields =>
    if fields.isEmpty then .ok (bytesOf "\x7b\x7d")
    else do
      let text ← dumpFields fields
      .ok (0x7B :: text ++ [0x7D])

/-- All elements but the last are followed by a comma. -/
def dumpItems : List Json → Except Abort (List UInt8)
  | [] => .ok []
  | [j] => dump j
  | j :: items => do
    let text ← dump j
    let texts ← dumpItems items
    .ok (text ++ 0x2C :: texts)

def dumpFields : List (String × Json) → Except Abort (List UInt8)
  | [] => .ok []
  | [(key, j)] => do
    let name ← dumpString key
    let text ← dump j
    .ok (name ++ 0x3A :: text)
  | (key, j) :: fields => do
    let name ← dumpString key
    let text ← dump j
    let texts ← dumpFields fields
    .ok (name ++ 0x3A :: (text ++ 0x2C :: texts))

end

end Serializer

end CrossNative.Text
