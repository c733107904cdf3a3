import Mathlib.Data.List.Basic

/-!
# JSON documents as nlohmann reads and prints them

Documents, not text: a number is an integer literal in 64-bit range, or a binary64
pattern. An integer counts as unsigned exactly when it is not negative. Texts of
type errors are the library's own.
-/

namespace CrossNative

set_option autoImplicit false

inductive Json
  | null
  | bool (b : Bool)
  | int (n : Int)
  | float (bits : BitVec 64)
  | str (s : String)
  | arr (items : List Json)
  | obj (fields : List (String × Json))

/-- How a step of the runtime gives up: a reported reason, or a C++ exception. -/
inductive Fault
  | error (reason : String)
  | exception (what : String)
  deriving DecidableEq, Repr

/-- What a handler of `std::exception` reads. -/
def Fault.what : Fault → String
  | .error reason => reason
  | .exception what => what

namespace Json

def typeName : Json → String
  | null => "null"
  | bool _ => "boolean"
  | int _ | float _ => "number"
  | str _ => "string"
  | arr _ => "array"
  | obj _ => "object"

def typeError (id message : String) : Fault :=
  .exception ("[json.exception.type_error." ++ id ++ "] " ++ message)

def mustBe (expected : String) (j : Json) : Fault :=
  typeError "302" ("type must be " ++ expected ++ ", but is " ++ j.typeName)

def isNumber : Json → Bool
  | int _ | float _ => true
  | _ => false

def isObject : Json → Bool
  | obj _ => true
  | _ => false

def elements : Json → List Json
  | arr items => items
  | _ => []

def find? (key : String) : Json → Option Json
  | obj fields => fields.lookup key
  | _ => none

def contains (j : Json) (key : String) : Bool := (j.find? key).isSome

def getString : Json → Except Fault String
  | str s => .ok s
  | j => .error (mustBe "string" j)

/-- `j.value(key, fallback)` with a string default. -/
def valueString (j : Json) (key fallback : String) : Except Fault String :=
  match j with
  | obj fields =>
    match fields.lookup key with
    | some v => v.getString
    | none => .ok fallback
  | _ => .error (typeError "306" ("cannot use value() with " ++ j.typeName))

def getBool : Json → Except Fault Bool
  | bool b => .ok b
  | j => .error (mustBe "boolean" j)

/-- `j.value(key, fallback)`, `get` being the conversion to the type of the default. -/
def valueAs {α : Type} (get : Json → Except Fault α) (j : Json) (key : String) (fallback : α) :
    Except Fault α :=
  match j with
  | obj fields =>
    match fields.lookup key with
    | some v => get v
    | none => .ok fallback
  | _ => .error (typeError "306" ("cannot use value() with " ++ j.typeName))

/-- `j.at(key)`. -/
def at? (j : Json) (key : String) : Except Fault Json :=
  match j with
  | obj fields =>
    match fields.lookup key with
    | some v => .ok v
    | none => .error (.exception ("[json.exception.out_of_range.403] key '" ++ key ++ "' not found"))
  | _ => .error (typeError "304" ("cannot use at() with " ++ j.typeName))

theorem valueString_of_str {fields : List (String × Json)} {key fallback s : String}
    (h : fields.lookup key = some (str s)) : (obj fields).valueString key fallback = .ok s := by
  simp [valueString, h, getString]

end Json

end CrossNative
