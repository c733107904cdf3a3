import CrossNative.Rust.Module
import CrossNative.Runtime

/-!
# Modules linked into the application

A linked module has no linear memory: one entry point takes a request document, decodes
the arguments, calls the function and encodes its value. Every number goes through `f64`.
Pointer-sized integers have the width a `RustValue` gives them.
-/

namespace CrossNative.Rust

set_option autoImplicit false

open Basis

/-! ## Numbers -/

/-- `Value::as_f64`. -/
def asF64 : Json → Option (BitVec 64)
  | .int n => some (BitVec.ofNat 64 (FloatFormat.binary64.ofInt n))
  | .float x => some x
  | _ => none

def minValue (k : ElemKind) : Int := if k.isSigned then -2 ^ (k.bits - 1) else 0

def maxValue (k : ElemKind) : Int := if k.isSigned then 2 ^ (k.bits - 1) - 1 else 2 ^ k.bits - 1

/-- `n as T`: towards zero, at most to the ends of the type, and zero for NaN. -/
def castF64 (k : ElemKind) (n : BitVec 64) : Elem k :=
  match k with
  | .f64 => n
  | .f32 => BitVec.ofNat _ (convertFloat .binary64 .binary32 n.toNat)
  | k =>
    match FloatFormat.binary64.truncate n.toNat with
    | some i => BitVec.ofInt _ (max (minValue k) (min i (maxValue k)))
    | none =>
      if FloatFormat.binary64.magnitude n.toNat = FloatFormat.binary64.infinity then
        BitVec.ofInt _ (if FloatFormat.binary64.isNegative n.toNat then minValue k else maxValue k)
      else 0

/-- `T::from_json`. -/
def fromJson (s : Scalar) (value : Json) : Option (BitVec s.bits) :=
  match s with
  | .elem k => (asF64 value).map (castF64 k)
  | .usize => (asF64 value).map (castF64 .u32)
  | .isize => (asF64 value).map (castF64 .i32)
  | .bool =>
    match value with
    | .bool b => some (if b then 1 else 0)
    | value =>
      -- both zeros are false, NaN is true
      (asF64 value).map fun n => if FloatFormat.binary64.magnitude n.toNat = 0 then 0 else 1

/-! ## Arguments -/

def argScalar (s : Scalar) (args : List Json) (i : Nat) : Except String (BitVec s.bits) :=
  match args[i]? with
  | none => .error ("missing argument " ++ toString i)
  | some value =>
    match fromJson s value with
    | some v => .ok v
    | none => .error ("argument " ++ toString i ++ ": wrong type")

def fromItems (s : Scalar) : List Json → Option (List (BitVec s.bits))
  | [] => some []
  | value :: items =>
    match fromJson s value, fromItems s items with
    | some v, some vs => some (v :: vs)
    | _, _ => none

def argVec (s : Scalar) (args : List Json) (i : Nat) : Except String (List (BitVec s.bits)) :=
  match args[i]? with
  | some (.arr items) =>
    match fromItems s items with
    | some vs => .ok vs
    | none => .error ("argument " ++ toString i ++ ": bad element")
  | _ => .error ("argument " ++ toString i ++ ": expected an array")

def argString (args : List Json) (i : Nat) : Except String String :=
  match args[i]? with
  | some (.str text) => .ok text
  | _ => .error ("argument " ++ toString i ++ ": expected a string")

def argValues (k : Kind) (args : List Json) (i : Nat) : Except String (List RustValue) :=
  match k with
  | .scalar s => (argScalar s args i).map fun v => [.scalar s v]
  | .slice s _ => (argVec s args i).map fun vs => [.vec s vs]
  | .text _ => (argString args i).map fun text => [.text text]
  | .unit => .ok []

/-- `native_decode`, from the parameter with index `i` on. -/
def nativeDecode (args : List Json) : List Kind → Nat → Except String (List RustValue)
  | [], _ => .ok []
  | k :: kinds, i =>
    match argValues k args i with
    | .error e => .error e
    | .ok vs => (nativeDecode args kinds (i + 1)).map (vs ++ ·)

/-! ## Results -/

def scalarToValue (s : Scalar) (v : BitVec s.bits) : Json :=
  match s with
  | .elem .f64 => if FloatFormat.binary64.IsFinite v.toNat then .float v else .null
  | .elem .f32 =>
    if FloatFormat.binary32.IsFinite v.toNat then
      .float (BitVec.ofNat _ (convertFloat .binary32 .binary64 v.toNat))
    else .null
  | .elem k => .int (if k.isSigned then v.toInt else v.toNat)
  | .usize => .int v.toNat
  | .isize => .int v.toInt
  | .bool => .bool (decide (v ≠ 0))

/-- `encode`: the document serde makes of a returned value. -/
def encode : RustValue → Json
  | .unit => .null
  | .scalar s v => scalarToValue s v
  | .vec s vs => .arr (vs.map (scalarToValue s))
  | .text text => .str text

def encodeVoid : Json := .null

def nativeCall (f : RustFn) (v : RustValue) : Json :=
  match f.decl.returns with
  | .unit => encodeVoid
  | _ => encode v

/-- `(function.invoke)(&args)`; none when the body panics. -/
def invoke (f : RustFn) (args : List Json) : Option (Except String Json) :=
  match nativeDecode args (f.decl.params.map ParamDecl.kind) 0 with
  | .error e => some (.error e)
  | .ok values => (f.body values).map fun v => .ok (nativeCall f v)

def requestFunction (parsed : Json) : String :=
  match parsed.find? "function" with
  | some (.str name) => name
  | _ => ""

def requestArgs (parsed : Json) : List Json :=
  match parsed.find? "args" with
  | some (.arr items) => items
  | _ => []

def replyEnvelope : Except String Json → Envelope
  | .ok result => .success result []
  | .error e => .failure e

/-- One request to the module; `request` is the parsed text. -/
def dispatch (functions : List RustFn) (request : Except String Json) : Option Envelope :=
  match request with
  | .error e => some (.failure ("bad request JSON: " ++ e))
  | .ok parsed =>
    match functions.find? fun f => f.decl.name.text = requestFunction parsed with
    | none => some (.failure ("function not found: " ++ requestFunction parsed))
    | some f => (invoke f (requestArgs parsed)).map replyEnvelope

/-- The request the host makes of a call. -/
def request (functionName : String) (args : List Json) (zeroCopy : Bool) : Json :=
  .obj [("args", .arr args), ("function", .str functionName), ("zeroCopy", .bool zeroCopy)]

theorem dispatch_of_parsed {σ : Type} {m : RustModule σ} {f : RustFn} (hf : f ∈ m.functions)
    {parsed : Json} (hname : requestFunction parsed = f.decl.name.text) :
    dispatch m.functions (.ok parsed) = (invoke f (requestArgs parsed)).map replyEnvelope := by
  have hfind := RustModule.find_of_mem hf
  unfold RustModule.find at hfind
  simp only [dispatch, hname, hfind]

end CrossNative.Rust
