import CrossNative.Json
import CrossNative.Text.Lexer

/-!
# The parser of the JSON library

`sax_parse_internal` keeps its own stack instead of recurring, and its events build the
document. `parse` in strict mode wants the end of the input after the value.
-/

namespace CrossNative.Text

set_option autoImplicit false

open Basis

/-- A scanned string; what the lexer returns is always UTF-8. -/
def decoded (value : List UInt8) : String := (textOf? value).getD ""

/-! ## The document under construction -/

/-- The order of the keys of an object, byte by byte. -/
def keyLess (a b : String) : Bool := bytesOf a < bytesOf b

/-- `operator[]` and the assignment to what it returns. -/
def setField (key : String) (v : Json) : List (String × Json) → List (String × Json)
  | [] => [(key, v)]
  | (k, w) :: rest =>
    if keyLess key k then (key, v) :: (k, w) :: rest
    else if key = k then (key, v) :: rest
    else (k, w) :: setField key v rest

/-- A container that is not closed yet; the values still to come are not part of it. -/
inductive Frame
  | array (items : List Json)
  /-- The key is that of the next value. -/
  | object (fields : List (String × Json)) (key : String)

/-- `json_sax_dom_parser`: an open container is put into its parent when it is closed. -/
structure Dom where
  root : Json
  refStack : List Frame

namespace Dom

def handleValue (d : Dom) (v : Json) : Dom :=
  match d.refStack with
  | [] => { d with root := v }
  | .array items :: rest => { d with refStack := .array (items ++ [v]) :: rest }
  | .object fields key :: rest => { d with refStack := .object (setField key v fields) key :: rest }

def startObject (d : Dom) : Dom := { d with refStack := .object [] "" :: d.refStack }

def startArray (d : Dom) : Dom := { d with refStack := .array [] :: d.refStack }

/-- The null that `operator[]` puts at a new key is overwritten by the value. -/
def key (d : Dom) (key : String) : Dom :=
  match d.refStack with
  | .object fields _ :: rest => { d with refStack := .object fields key :: rest }
  | _ => d

def endContainer (d : Dom) : Dom :=
  match d.refStack with
  | .array items :: rest => { d with refStack := rest }.handleValue (.arr items)
  | .object fields _ :: rest => { d with refStack := rest }.handleValue (.obj fields)
  | [] => d

end Dom

structure Parser where
  lexer : Lexer
  lastToken : Token
  /-- The innermost container first; true is an array. -/
  states : List Bool
  dom : Dom

namespace Parser

def getToken (p : Parser) : Parser := { p with lastToken := p.lexer.scan.1, lexer := p.lexer.scan.2 }

def start (text : List UInt8) : Parser :=
  getToken { lexer := .start text, lastToken := .endOfInput, states := [], dom := ⟨.null, []⟩ }

/-! ## Errors -/

/-- `what()` of an error. -/
abbrev What := List UInt8

def exceptionMessage (p : Parser) (expected : TokenType) (context : String) : List UInt8 :=
  bytesOf ("syntax error while parsing " ++ context ++ " - ") ++
  (match p.lastToken with
    | .parseError message =>
      bytesOf (message ++ "; last read: '") ++ p.lexer.getTokenString ++ bytesOf "'"
    | token => bytesOf ("unexpected " ++ tokenTypeName token.type)) ++
  (if expected = .uninitialized then [] else bytesOf ("; expected " ++ tokenTypeName expected))

def positionString (p : Position) : String :=
  " at line " ++ toString (p.linesRead + 1) ++ ", column " ++ toString p.charsReadCurrentLine

def parseError (p : Parser) (message : List UInt8) : What :=
  bytesOf ("[json.exception.parse_error.101] parse error" ++ positionString p.lexer.position ++ ": ") ++ message

def syntaxError (p : Parser) (expected : TokenType) (context : String) : What :=
  p.parseError (p.exceptionMessage expected context)

def overflowError (p : Parser) : What :=
  bytesOf "[json.exception.out_of_range.406] number overflow parsing '" ++ p.lexer.getTokenString ++ bytesOf "'"

def emptyInput : String :=
  "attempting to parse an empty input; check that your input string or stream contains the expected JSON"

/-! ## The loop -/

def value (p : Parser) (v : Json) : Parser := { p with dom := p.dom.handleValue v }

/-- A key and its separator; the value's first token is read after them. -/
def parseKey (p : Parser) : Except What Parser :=
  match p.lastToken with
  | .valueString key =>
    let p := getToken { p with dom := p.dom.key (decoded key) }
    if p.lastToken = .nameSeparator then .ok p else .error (p.syntaxError .nameSeparator "object separator")
  | _ => .error (p.syntaxError .valueString "object key")

/-- Where a turn of the loop goes: to the next value, or to the evaluation of the state. -/
inductive Turn
  | next (p : Parser)
  | evaluate (p : Parser)

def parseValue (p : Parser) : Except What Turn :=
  match p.lastToken with
  | .beginObject =>
    let p := getToken { p with dom := p.dom.startObject }
    if p.lastToken = .endObject then .ok (.evaluate { p with dom := p.dom.endContainer })
    else do
      let p ← p.parseKey
      .ok (.next (getToken { p with states := false :: p.states }))
  | .beginArray =>
    let p := getToken { p with dom := p.dom.startArray }
    if p.lastToken = .endArray then .ok (.evaluate { p with dom := p.dom.endContainer })
    else .ok (.next { p with states := true :: p.states })
  | .valueFloat bits =>
    if FloatFormat.binary64.IsFinite bits then .ok (.evaluate (p.value (.float (.ofNat 64 bits))))
    else .error p.overflowError
  | .literalFalse => .ok (.evaluate (p.value (.bool false)))
  | .literalNull => .ok (.evaluate (p.value .null))
  | .literalTrue => .ok (.evaluate (p.value (.bool true)))
  | .valueInteger n => .ok (.evaluate (p.value (.int n)))
  | .valueString s => .ok (.evaluate (p.value (.str (decoded s))))
  | .valueUnsigned n => .ok (.evaluate (p.value (.int n)))
  | .parseError _ => .error (p.syntaxError .uninitialized "value")
  | .endOfInput =>
    if p.lexer.position.charsReadTotal = 1 then .error (p.parseError (bytesOf emptyInput))
    else .error (p.syntaxError .literalOrValue "value")
  | .endArray | .endObject | .nameSeparator | .valueSeparator =>
    .error (p.syntaxError .literalOrValue "value")

/-- What the evaluation of the state comes to. -/
inductive Evaluation
  | finished (p : Parser)
  | next (p : Parser)
  | evaluate (p : Parser)

def closeContainer (p : Parser) : Evaluation :=
  .evaluate { p with dom := p.dom.endContainer, states := p.states.tail }

def evaluateState (p : Parser) : Except What Evaluation :=
  match p.states with
  | [] => .ok (.finished p)
  | true :: _ =>
    let p := p.getToken
    if p.lastToken = .valueSeparator then .ok (.next p.getToken)
    else if p.lastToken = .endArray then .ok p.closeContainer
    else .error (p.syntaxError .endArray "array")
  | false :: _ =>
    let p := p.getToken
    if p.lastToken = .valueSeparator then do
      let p ← p.getToken.parseKey
      .ok (.next p.getToken)
    else if p.lastToken = .endObject then .ok p.closeContainer
    else .error (p.syntaxError .endObject "object")

/-- `sax_parse_internal`, `skip` being `skip_to_state_evaluation`. Every turn reads a token. -/
def saxParseInternal : Nat → Bool → Parser → Except What Parser
  | 0, _, _ => .error []
  | fuel + 1, skip, p => do
    match ← (if skip then .ok (.evaluate p) else p.parseValue) with
    | .next p => saxParseInternal fuel false p
    | .evaluate p =>
      match ← p.evaluateState with
      | .finished p => .ok p
      | .next p => saxParseInternal fuel false p
      | .evaluate p => saxParseInternal fuel true p

end Parser

/-- `json::parse` of a string. -/
def parse (text : List UInt8) : Except Parser.What Json := do
  let p ← Parser.saxParseInternal (text.length + 2) false (.start text)
  let p := p.getToken
  if p.lastToken = .endOfInput then .ok p.dom.root else .error (p.syntaxError .endOfInput "value")

end CrossNative.Text
