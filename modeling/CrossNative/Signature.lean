import CrossNative.Element

/-!
# Declared signatures

A signature is what the host understands of one metadata document. A type name it
does not know makes it drop the document.
-/

namespace CrossNative

set_option autoImplicit false

inductive ValueType
  | void
  | scalar (elem : ElemKind)
  | vector (elem : ElemKind)
  | text
  deriving DecidableEq, Repr

/-- The text between `vec<` and a final `>`. -/
def vecElement (text : String) : Option String :=
  match text.toList with
  | 'v' :: 'e' :: 'c' :: '<' :: rest =>
    if rest.getLast? = some '>' then some (String.ofList rest.dropLast) else none
  | _ => none

def parseValueType (text : String) : Option ValueType :=
  if text = "void" then some .void
  else if text = "string" then some .text
  else
    match vecElement text with
    | some elem => (parseElemKind elem).map .vector
    | none => (parseElemKind text).map .scalar

namespace ValueType

def name : ValueType → String
  | void => "void"
  | scalar k => k.name
  | vector k => "vec<" ++ k.name ++ ">"
  | text => "string"

@[simp] theorem parse_name (t : ValueType) : parseValueType t.name = some t := by
  cases t with
  | void => decide
  | text => decide
  | scalar k => cases k <;> decide
  | vector k => cases k <;> decide

end ValueType

structure Param where
  name : String
  type : ValueType
  deriving DecidableEq, Repr

structure Signature where
  params : List Param
  returns : ValueType
  deriving DecidableEq, Repr

/-- The parameter loop of `parseSignature`; `none` is its `return false`. -/
def parseParams : List Json → Except Fault (Option (List Param))
  | [] => .ok (some [])
  | param :: rest =>
    match param.valueString "type" "" with
    | .error e => .error e
    | .ok text =>
      match parseValueType text with
      | none => .ok none
      | some type =>
        match param.valueString "name" "" with
        | .error e => .error e
        | .ok name =>
          match parseParams rest with
          | .error e => .error e
          | .ok none => .ok none
          | .ok (some params) => .ok (some (⟨name, type⟩ :: params))

/-- `parseSignature`: a signature, `false`, or a type error. -/
def parseSignature (doc : Json) : Except Fault (Option Signature) :=
  match doc.find? "params" with
  | some (.arr items) =>
    match parseParams items with
    | .error e => .error e
    | .ok none => .ok none
    | .ok (some params) =>
      match doc.valueString "returns" "void" with
      | .error e => .error e
      | .ok text =>
        match parseValueType text with
        | none => .ok none
        | some returns => .ok (some ⟨params, returns⟩)
  | _ => .ok none

namespace ValueType

def slots : ValueType → Nat
  | void => 0
  | scalar _ => 1
  | vector _ | text => 2

end ValueType

/-- A metadata document of the shape the boundary uses. -/
def signatureDoc (name : String) (params : List (String × String)) (returns : String) : Json :=
  .obj [("name", .str name),
    ("params", .arr (params.map fun p => .obj [("name", .str p.1), ("type", .str p.2)])),
    ("returns", .str returns)]

/-- The types named by a list of parameter entries, if all names are known. -/
def parseNames : List (String × String) → Option (List Param)
  | [] => some []
  | (name, text) :: rest =>
    match parseValueType text, parseNames rest with
    | some type, some params => some (⟨name, type⟩ :: params)
    | _, _ => none

theorem parseParams_doc (params : List (String × String)) :
    parseParams (params.map fun p => .obj [("name", .str p.1), ("type", .str p.2)]) =
      .ok (parseNames params) := by
  induction params with
  | nil => rfl
  | cons p rest ih =>
    obtain ⟨name, text⟩ := p
    have htype : (Json.obj [("name", .str name), ("type", .str text)]).valueString "type" "" =
        .ok text := Json.valueString_of_str rfl
    have hname : (Json.obj [("name", .str name), ("type", .str text)]).valueString "name" "" =
        .ok name := Json.valueString_of_str rfl
    simp only [List.map_cons, parseParams, htype, hname, ih, parseNames]
    cases parseValueType text with
    | none => rfl
    | some type => cases parseNames rest <;> rfl

theorem parseSignature_doc (name : String) (params : List (String × String)) (returns : String) :
    parseSignature (signatureDoc name params returns) =
      .ok (match parseNames params, parseValueType returns with
        | some ps, some r => some ⟨ps, r⟩
        | _, _ => none) := by
  have hfind : (signatureDoc name params returns).find? "params" = some
      (.arr (params.map fun p => .obj [("name", .str p.1), ("type", .str p.2)])) := rfl
  have hreturns : (signatureDoc name params returns).valueString "returns" "void" =
      .ok returns := Json.valueString_of_str rfl
  simp only [parseSignature, hfind, parseParams_doc]
  cases parseNames params with
  | none => rfl
  | some ps =>
    simp only [hreturns]
    cases parseValueType returns <;> rfl

end CrossNative
