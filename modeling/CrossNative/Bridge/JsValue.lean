import CrossNative.Json
import Mathlib.Tactic.Common

/-!
# JavaScript values

What the bridge asks of a parsed message: truth, defaults, conversion to a string; and
which payloads `JSON.stringify` accepts. After `JSON.parse` a number with an integer value
is an `int`.
-/

namespace CrossNative

set_option autoImplicit false

namespace Json

def isNull : Json → Bool
  | null => true
  | _ => false

/-- The value decides a condition; JSON has no NaN. -/
def truthy : Json → Bool
  | null => false
  | bool b => b
  | int n => n != 0
  | float bits => bits != 0#64 && bits != 0x8000000000000000#64
  | str s => s != ""
  | arr _ | obj _ => true

/-- `value ?? fallback` for a property that may be absent. -/
def nullish (value : Option Json) (fallback : Json) : Json :=
  match value with
  | none | some null => fallback
  | some v => v

@[simp] theorem nullish_none (fallback : Json) : nullish none fallback = fallback := rfl

@[simp] theorem nullish_str (s : String) (fallback : Json) : nullish (some (str s)) fallback = str s :=
  rfl

mutual

/-- `String(value)`; an object with an own `toString`, which cannot be a function in a parsed
document, has no conversion and throws. -/
def toText (floatText : BitVec 64 → String) : Json → Option String
  | null => some "null"
  | bool b => some (if b then "true" else "false")
  | int n => some (toString n)
  | float bits => some (floatText bits)
  | str s => some s
  | arr items => (elementTexts floatText items).map (String.intercalate ",")
  | obj fields => if (fields.lookup "toString").isSome then none else some "[object Object]"

def elementTexts (floatText : BitVec 64 → String) : List Json → Option (List String)
  | [] => some []
  | null :: items => (elementTexts floatText items).map ("" :: ·)
  | item :: items =>
    (toText floatText item).bind fun text => (elementTexts floatText items).map (text :: ·)

end

@[simp] theorem toText_str (floatText : BitVec 64 → String) (s : String) :
    (str s).toText floatText = some s := by
  rw [toText]

end Json

/-- A value a caller may pass as an argument. -/
inductive JsValue
  | json (j : Json)
  | bigint (n : Int)
  /-- A cycle, or a `toJSON` that throws. -/
  | throwing (reason : String)
  | arr (items : List JsValue)
  | obj (fields : List (String × JsValue))

namespace JsValue

mutual

/-- `JSON.stringify`, up to the document; what throws anywhere makes it throw. -/
def stringify : JsValue → Except String Json
  | json j => .ok j
  | bigint _ => .error "Do not know how to serialize a BigInt"
  | throwing reason => .error reason
  | arr items => (stringifyItems items).map .arr
  | obj fields => (stringifyFields fields).map .obj

def stringifyItems : List JsValue → Except String (List Json)
  | [] => .ok []
  | item :: items =>
    (stringify item).bind fun j => (stringifyItems items).map (j :: ·)

def stringifyFields : List (String × JsValue) → Except String (List (String × Json))
  | [] => .ok []
  | (key, value) :: fields =>
    (stringify value).bind fun j => (stringifyFields fields).map ((key, j) :: ·)

end

end JsValue

end CrossNative
