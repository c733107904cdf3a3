import CrossNative.Json
import CrossNative.Basis.ByteMemory
import CrossNative.Basis.BinaryFloat

/-!
# Element types and their conversions

The ten element types of the boundary, nlohmann's `get<T>()` for each of them, and
their bytes in linear memory. An element is its bit pattern: a float is carried
opaquely, an integer has a value through its declared signedness.
-/

namespace CrossNative

set_option autoImplicit false

open Basis

inductive ElemKind
  | f64 | f32 | i32 | u32 | i64 | u64 | i8 | u8 | i16 | u16
  deriving DecidableEq, Repr

def parseElemKind (name : String) : Option ElemKind :=
  if name = "f64" then some .f64
  else if name = "f32" then some .f32
  else if name = "i32" then some .i32
  else if name = "u32" then some .u32
  else if name = "i64" then some .i64
  else if name = "u64" then some .u64
  else if name = "i8" then some .i8
  else if name = "u8" then some .u8
  else if name = "i16" then some .i16
  else if name = "u16" then some .u16
  else none

namespace ElemKind

def size : ElemKind → Nat
  | f64 | i64 | u64 => 8
  | f32 | i32 | u32 => 4
  | i16 | u16 => 2
  | i8 | u8 => 1

def isFloat : ElemKind → Bool
  | f64 | f32 => true
  | _ => false

def isSigned : ElemKind → Bool
  | i8 | i16 | i32 | i64 => true
  | _ => false

def name : ElemKind → String
  | f64 => "f64" | f32 => "f32" | i32 => "i32" | u32 => "u32" | i64 => "i64"
  | u64 => "u64" | i8 => "i8" | u8 => "u8" | i16 => "i16" | u16 => "u16"

def bits (k : ElemKind) : Nat := 8 * k.size

def InRange (k : ElemKind) (n : Int) : Prop :=
  if k.isSigned then -2 ^ (k.bits - 1) ≤ n ∧ n < 2 ^ (k.bits - 1) else 0 ≤ n ∧ n < 2 ^ k.bits

instance (k : ElemKind) (n : Int) : Decidable (k.InRange n) := by
  unfold InRange
  infer_instance

theorem size_pos (k : ElemKind) : 0 < k.size := by cases k <;> decide

theorem size_dvd_word (k : ElemKind) : k.size ∣ 2 ^ 32 := by cases k <;> decide

theorem two_pow_bits (k : ElemKind) : 2 ^ k.bits = 256 ^ k.size := by
  rw [bits, Nat.pow_mul]

@[simp] theorem parse_name (k : ElemKind) : parseElemKind k.name = some k := by
  cases k <;> decide

end ElemKind

abbrev Elem (k : ElemKind) := BitVec k.bits

/-- What a compiler leaves open: the width of `size_t`, and the result of converting
a float that the integer type cannot hold. -/
structure Platform where
  sizeBits : Nat
  sizeBits_cases : sizeBits = 32 ∨ sizeBits = 64
  outOfRange : (k : ElemKind) → BitVec 64 → Elem k

instance : Inhabited Platform := ⟨⟨64, Or.inr rfl, fun _ _ => 0⟩⟩

/-- `static_cast` of a double to an element type. -/
def castDouble (P : Platform) (k : ElemKind) (x : BitVec 64) : Elem k :=
  match k with
  | .f64 => x
  | .f32 => BitVec.ofNat _ (convertFloat .binary64 .binary32 x.toNat)
  | k =>
    match FloatFormat.binary64.truncate x.toNat with
    | some n => if k.InRange n then BitVec.ofInt _ n else P.outOfRange k x
    | none => P.outOfRange k x

/-- `static_cast` of a 64-bit integer to an element type. -/
def castInt (k : ElemKind) (n : Int) : Elem k :=
  match k with
  | .f64 => BitVec.ofNat _ (FloatFormat.binary64.ofInt n)
  | .f32 => BitVec.ofNat _ (FloatFormat.binary32.ofInt n)
  | _ => BitVec.ofInt _ n

/-- nlohmann takes `double`, `int64_t` and `uint64_t` from numbers only; the other
arithmetic types also take a boolean. -/
def takesBool : ElemKind → Bool
  | .f64 | .i64 | .u64 => false
  | _ => true

/-- `j.get<T>()`. -/
def getElem (P : Platform) (k : ElemKind) (j : Json) : Except Fault (Elem k) :=
  match j with
  | .int n => .ok (castInt k n)
  | .float x => .ok (castDouble P k x)
  | .bool b => if takesBool k then .ok (castInt k (if b then 1 else 0)) else .error (j.mustBe "number")
  | _ => .error (j.mustBe "number")

def Convertible (k : ElemKind) (j : Json) : Bool :=
  match j with
  | .int _ | .float _ => true
  | .bool _ => takesBool k
  | _ => false

def encodeElem {k : ElemKind} (v : Elem k) : List UInt8 := leBytes k.size v.toNat

def decodeElem (k : ElemKind) (bs : List UInt8) : Elem k := BitVec.ofNat _ (leValue bs)

def writeElem (P : Platform) (k : ElemKind) (value : Json) : Except Fault (List UInt8) :=
  match getElem P k value with
  | .ok v => .ok (encodeElem v)
  | .error e => .error e

/-- The document made from an element: integers by their signedness, `float` widened. -/
def elemToJson {k : ElemKind} (v : Elem k) : Json :=
  match k with
  | .f64 => .float v
  | .f32 => .float (BitVec.ofNat _ (convertFloat .binary32 .binary64 v.toNat))
  | k => .int (if k.isSigned then v.toInt else v.toNat)

def readElem (k : ElemKind) (src : List UInt8) : Json := elemToJson (decodeElem k src)

@[simp] theorem encodeElem_length {k : ElemKind} (v : Elem k) : (encodeElem v).length = k.size := by
  simp [encodeElem]

@[simp] theorem decode_encode {k : ElemKind} (v : Elem k) : decodeElem k (encodeElem v) = v := by
  apply BitVec.eq_of_toNat_eq
  have hv : v.toNat < 256 ^ k.size := by
    rw [← k.two_pow_bits]
    exact v.isLt
  rw [decodeElem, encodeElem, leValue_leBytes_of_lt hv, BitVec.toNat_ofNat,
    Nat.mod_eq_of_lt v.isLt]

theorem encode_decode {k : ElemKind} {bs : List UInt8} (h : bs.length = k.size) :
    encodeElem (decodeElem k bs) = bs := by
  have hlt : leValue bs < 2 ^ k.bits := by
    rw [k.two_pow_bits, ← h]
    exact leValue_lt bs
  rw [encodeElem, decodeElem, BitVec.toNat_ofNat, Nat.mod_eq_of_lt hlt, ← h]
  exact leBytes_leValue bs

theorem readElem_encodeElem {k : ElemKind} (v : Elem k) :
    readElem k (encodeElem v) = elemToJson v := by
  rw [readElem, decode_encode]

theorem getElem_ok_iff (P : Platform) (k : ElemKind) (j : Json) :
    (∃ v, getElem P k j = .ok v) ↔ Convertible k j = true := by
  cases j <;> simp [getElem, Convertible]
  split <;> simp_all

theorem convertible_of_isNumber {k : ElemKind} {j : Json} (h : j.isNumber = true) :
    Convertible k j = true := by
  cases j <;> simp_all [Json.isNumber, Convertible]

theorem getElem_int (P : Platform) {k : ElemKind} (hk : k.isFloat = false) (n : Int) :
    getElem P k (.int n) = .ok (BitVec.ofInt k.bits n) := by
  cases k <;> simp_all [getElem, castInt, ElemKind.isFloat]

theorem writeElem_ok_iff {P : Platform} {k : ElemKind} {j : Json} {bs : List UInt8} :
    writeElem P k j = .ok bs ↔ ∃ v, getElem P k j = .ok v ∧ encodeElem v = bs := by
  unfold writeElem
  cases getElem P k j <;> simp

theorem writeElem_length {P : Platform} {k : ElemKind} {j : Json} {bs : List UInt8}
    (h : writeElem P k j = .ok bs) : bs.length = k.size := by
  obtain ⟨v, _, rfl⟩ := writeElem_ok_iff.mp h
  exact encodeElem_length v

end CrossNative
