import CrossNative.Basis.BinaryFloat
import Mathlib.Data.BitVec
import Mathlib.Tactic.Common

/-!
# The bytes of a module, as JavaScript passes them

`toBytes` copies an `ArrayBuffer` or the window of a typed array. It goes by the properties of the
object it is given, so offset and length are whatever numbers these hold. `w` is the width of
`size_t`; reading outside the buffer and converting a number that `size_t` cannot hold are
undefined behaviour.
-/

namespace CrossNative

set_option autoImplicit false

open Basis (FloatFormat)

structure ArrayBuffer (w : Nat) where
  bytes : List UInt8
  fits : bytes.length < 2 ^ w

/-- `primitive` is any value that is no number, string or object. -/
inductive JsiValue (w : Nat)
  | primitive
  | number (bits : BitVec 64)
  | string (text : String)
  | arrayBuffer (buffer : ArrayBuffer w)
  | object (properties : List (String × JsiValue w))

/-- `jsi` is an exception of the engine's own, with a text of its own. -/
inductive JsiFault
  | jsError (message : String)
  | jsi
  | undefinedBehaviour
  deriving DecidableEq

namespace Jsi

variable {w : Nat}

def bufferSize (buffer : ArrayBuffer w) : BitVec w := BitVec.ofNat w buffer.bytes.length

def asNumber : JsiValue w → Except JsiFault (BitVec 64)
  | .number bits => .ok bits
  | _ => .error .jsi

/-- `static_cast<size_t>`. -/
def toSize (w : Nat) (bits : BitVec 64) : Except JsiFault (BitVec w) :=
  match FloatFormat.binary64.truncate bits.toNat with
  | some n => if 0 ≤ n ∧ n < 2 ^ w then .ok (BitVec.ofNat w n.toNat) else .error .undefinedBehaviour
  | none => .error .undefinedBehaviour

/-- `hasProperty(name) ? static_cast<size_t>(getProperty(name).asNumber()) : fallback`. -/
def sizeProperty (properties : List (String × JsiValue w)) (name : String) (fallback : BitVec w) :
    Except JsiFault (BitVec w) :=
  match properties.lookup name with
  | some value => do
    let bits ← asNumber value
    toSize w bits
  | none => .ok fallback

/-- `getArrayBuffer` takes for granted that the object is one. -/
def bufferProperty : JsiValue w → Except JsiFault (ArrayBuffer w)
  | .arrayBuffer buffer => .ok buffer
  | .object _ => .error .undefinedBehaviour
  | _ => .error .jsi

/-- The vector of the pointer range from `offset` to `offset + length`. -/
def copyRange (buffer : ArrayBuffer w) (offset length : BitVec w) : Except JsiFault (List UInt8) :=
  if offset.toNat + length.toNat ≤ buffer.bytes.length then
    .ok ((buffer.bytes.drop offset.toNat).take length.toNat)
  else .error .undefinedBehaviour

def toBytes : JsiValue w → Except JsiFault (List UInt8)
  | .arrayBuffer buffer => .ok buffer.bytes
  | .object properties =>
    match properties.lookup "buffer" with
    | some value => do
      let buffer ← bufferProperty value
      let offset ← sizeProperty properties "byteOffset" 0
      let length ← sizeProperty properties "byteLength" (bufferSize buffer - offset)
      if offset + length > bufferSize buffer then
        .error (.jsError "CrossNative: typed array is out of bounds")
      else copyRange buffer offset length
    | none => .error (.jsError "CrossNative: expected an ArrayBuffer or typed array")
  | _ => .error (.jsError "CrossNative: expected an ArrayBuffer")

protected def toString (args : List (JsiValue w)) (index : Nat) (name : String) : Except JsiFault String :=
  match args[index]? with
  | some (.string text) => .ok text
  | _ => .error (.jsError ("CrossNative: '" ++ name ++ "' must be a string"))

/-- What `loadFromBuffer` hands to the core: module id, language and bytes. -/
def loadFromBuffer (args : List (JsiValue w)) : Except JsiFault (String × String × List UInt8) := do
  let moduleId ← Jsi.toString args 0 "moduleId"
  let language ← Jsi.toString args 1 "language"
  match args[2]? with
  | none => .error (.jsError "CrossNative: missing module bytes")
  | some value => do
    let bytes ← toBytes value
    pure (moduleId, language, bytes)

end Jsi

/-! ## Views on a buffer -/

/-- The property is absent, or holds a number that `size_t` can hold. -/
def HoldsSize {w : Nat} (properties : List (String × JsiValue w)) (name : String) :
    Option (BitVec w) → Prop
  | none => properties.lookup name = none
  | some n => ∃ bits, properties.lookup name = some (.number bits) ∧ Jsi.toSize w bits = .ok n

/-- An object with an `ArrayBuffer` as its `buffer`, and its offset and length as `size_t`. -/
structure BufferView (w : Nat) where
  properties : List (String × JsiValue w)
  buffer : ArrayBuffer w
  byteOffset : Option (BitVec w)
  byteLength : Option (BitVec w)
  hasBuffer : properties.lookup "buffer" = some (.arrayBuffer buffer)
  hasOffset : HoldsSize properties "byteOffset" byteOffset
  hasLength : HoldsSize properties "byteLength" byteLength

namespace BufferView

variable {w : Nat} (view : BufferView w)

def offset : Nat := (view.byteOffset.getD 0).toNat

/-- The length that the view asks for; a view without one that begins behind the buffer has none. -/
def length? : Option Nat :=
  match view.byteLength with
  | some length => some length.toNat
  | none =>
    if view.offset ≤ view.buffer.bytes.length then some (view.buffer.bytes.length - view.offset)
    else none

/-- An exception, or exactly the bytes of the view, all of them inside the buffer. -/
def TakenInside (outcome : Except JsiFault (List UInt8)) : Prop :=
  match outcome with
  | .error fault => fault ≠ .undefinedBehaviour
  | .ok bytes => ∃ length, view.length? = some length ∧
      view.offset + length ≤ view.buffer.bytes.length ∧
      bytes = (view.buffer.bytes.drop view.offset).take length

/-- No sum that wraps passes for one inside the buffer, and no view without a length begins behind
the buffer. -/
def NoWrap : Prop :=
  match view.byteLength with
  | some length => view.offset + length.toNat < 2 ^ w ∨
      view.buffer.bytes.length < (view.offset + length.toNat) % 2 ^ w
  | none => view.offset ≤ view.buffer.bytes.length

theorem sizeProperty_eq {properties : List (String × JsiValue w)} {name : String}
    {value : Option (BitVec w)} (h : HoldsSize properties name value) (fallback : BitVec w) :
    Jsi.sizeProperty properties name fallback = .ok (value.getD fallback) := by
  cases value with
  | none =>
    have hlookup : properties.lookup name = none := h
    simp [Jsi.sizeProperty, hlookup]
  | some n =>
    obtain ⟨bits, hlookup, hsize⟩ := h
    simp only [Jsi.sizeProperty, hlookup, Jsi.asNumber]
    exact hsize

/-- The machine words that the range is computed from. -/
def lengthWord : BitVec w :=
  view.byteLength.getD (Jsi.bufferSize view.buffer - view.byteOffset.getD 0)

theorem toBytes_eq : Jsi.toBytes (.object view.properties) =
    if view.byteOffset.getD 0 + view.lengthWord > Jsi.bufferSize view.buffer then
      .error (.jsError "CrossNative: typed array is out of bounds")
    else Jsi.copyRange view.buffer (view.byteOffset.getD 0) view.lengthWord := by
  have hoffset := sizeProperty_eq view.hasOffset 0
  have hlength := sizeProperty_eq view.hasLength
    (Jsi.bufferSize view.buffer - view.byteOffset.getD 0)
  simp only [Jsi.toBytes, view.hasBuffer, Jsi.bufferProperty, hoffset, hlength, lengthWord, bind,
    Except.bind]
  rfl

theorem bufferSize_toNat : (Jsi.bufferSize view.buffer).toNat = view.buffer.bytes.length := by
  rw [Jsi.bufferSize, BitVec.toNat_ofNat]
  exact Nat.mod_eq_of_lt view.buffer.fits

/-- The guard lets the range pass exactly if its end, wrapped, is no more than the size. -/
theorem guard_iff : view.byteOffset.getD 0 + view.lengthWord > Jsi.bufferSize view.buffer ↔
    view.buffer.bytes.length < (view.offset + view.lengthWord.toNat) % 2 ^ w := by
  rw [gt_iff_lt, BitVec.lt_def, view.bufferSize_toNat, BitVec.toNat_add]
  rfl

theorem takenInside_copyRange :
    view.TakenInside (Jsi.copyRange view.buffer (view.byteOffset.getD 0) view.lengthWord) ↔
      view.offset + view.lengthWord.toNat ≤ view.buffer.bytes.length ∧
        view.length? = some view.lengthWord.toNat := by
  have hoffset : (view.byteOffset.getD 0).toNat = view.offset := rfl
  rw [Jsi.copyRange, hoffset]
  by_cases hfits : view.offset + view.lengthWord.toNat ≤ view.buffer.bytes.length
  · simp only [hfits, if_true, TakenInside, true_and]
    constructor
    · intro h
      obtain ⟨length, hlength, hle, heq⟩ := h
      -- Both lengths end inside the buffer, so the bytes taken tell them apart.
      have hcount := congrArg List.length heq
      simp only [List.length_take, List.length_drop] at hcount
      rw [hlength, Option.some.injEq]
      omega
    · intro h
      exact ⟨_, h, hfits, rfl⟩
  · simp [hfits, TakenInside]

/-- Either the guard refuses the range, or the range is the view and lies in the buffer. -/
theorem takenInside_toBytes : view.TakenInside (Jsi.toBytes (.object view.properties)) ↔
    view.buffer.bytes.length < (view.offset + view.lengthWord.toNat) % 2 ^ w ∨
      (view.offset + view.lengthWord.toNat ≤ view.buffer.bytes.length ∧
        view.length? = some view.lengthWord.toNat) := by
  rw [toBytes_eq]
  by_cases hguard : view.byteOffset.getD 0 + view.lengthWord > Jsi.bufferSize view.buffer
  · rw [if_pos hguard]
    simp [TakenInside, view.guard_iff.mp hguard]
  · rw [if_neg hguard, takenInside_copyRange]
    have hpassed := mt view.guard_iff.mpr hguard
    simp only [hpassed, false_or]

theorem lengthWord_of_some {length : BitVec w} (h : view.byteLength = some length) :
    view.lengthWord.toNat = length.toNat ∧ view.length? = some length.toNat := by
  simp [lengthWord, length?, h]

/-- Without a length the word is the rest of the buffer, taken modulo `2 ^ w`. -/
theorem lengthWord_of_none (h : view.byteLength = none) :
    view.lengthWord.toNat =
      (2 ^ w + view.buffer.bytes.length - view.offset) % 2 ^ w := by
  have hlt : view.offset < 2 ^ w := (view.byteOffset.getD 0).isLt
  simp only [lengthWord, h, Option.getD_none, BitVec.toNat_sub, view.bufferSize_toNat]
  change (2 ^ w - view.offset + view.buffer.bytes.length) % 2 ^ w = _
  congr 1
  omega

/-- A view that asks for a length gets it as the word. -/
theorem lengthWord_of_length? {length : Nat} (hasked : view.length? = some length) :
    view.lengthWord.toNat = length := by
  cases hlength : view.byteLength with
  | some word =>
    obtain ⟨hword, hsome⟩ := view.lengthWord_of_some hlength
    rw [hsome, Option.some.injEq] at hasked
    rw [hword, hasked]
  | none =>
    have hsize := view.buffer.fits
    simp only [length?, hlength] at hasked
    split at hasked
    · rename_i hle
      rw [Option.some.injEq] at hasked
      rw [view.lengthWord_of_none hlength, Nat.add_sub_assoc hle, Nat.add_mod_left, hasked]
      exact Nat.mod_eq_of_lt (by omega)
    · exact absurd hasked (by simp)

theorem inside_iff_of_some {length : BitVec w} (hlength : view.byteLength = some length) :
    view.TakenInside (Jsi.toBytes (.object view.properties)) ↔
      view.offset + length.toNat < 2 ^ w ∨
        view.buffer.bytes.length < (view.offset + length.toNat) % 2 ^ w := by
  have hsize := view.buffer.fits
  obtain ⟨hword, hasked⟩ := view.lengthWord_of_some hlength
  rw [takenInside_toBytes, hword, hasked]
  constructor
  · intro h
    rcases h with hrefused | ⟨hinside, -⟩
    · exact .inr hrefused
    · exact .inl (by omega)
  · intro h
    rcases h with hlt | hrefused
    · by_cases hinside : view.offset + length.toNat ≤ view.buffer.bytes.length
      · exact .inr ⟨hinside, rfl⟩
      · rw [Nat.mod_eq_of_lt hlt]
        exact .inl (by omega)
    · exact .inl hrefused

theorem inside_iff_of_none (hlength : view.byteLength = none) :
    view.TakenInside (Jsi.toBytes (.object view.properties)) ↔
      view.offset ≤ view.buffer.bytes.length := by
  have hsize := view.buffer.fits
  have hoffset : view.offset < 2 ^ w := (view.byteOffset.getD 0).isLt
  rw [takenInside_toBytes]
  by_cases hle : view.offset ≤ view.buffer.bytes.length
  · have hasked : view.length? = some (view.buffer.bytes.length - view.offset) := by
      simp [length?, hlength, hle]
    have hrest := view.lengthWord_of_length? hasked
    simp [hle, hasked, hrest]
  · -- The rest wraps, and the end of the range wraps back to the size of the buffer.
    have hrest : view.lengthWord.toNat = 2 ^ w + view.buffer.bytes.length - view.offset := by
      rw [view.lengthWord_of_none hlength]
      exact Nat.mod_eq_of_lt (by omega)
    have hend : (view.offset + view.lengthWord.toNat) % 2 ^ w = view.buffer.bytes.length := by
      have hsum : view.offset + view.lengthWord.toNat = 2 ^ w + view.buffer.bytes.length := by omega
      rw [hsum, Nat.add_mod_left]
      exact Nat.mod_eq_of_lt hsize
    have hasked : view.length? = none := by simp [length?, hlength, hle]
    simp [hend, hasked, hle]

theorem takenInside_of_noWrap (h : view.NoWrap) :
    view.TakenInside (Jsi.toBytes (.object view.properties)) := by
  unfold NoWrap at h
  cases hlength : view.byteLength with
  | some length =>
    rw [hlength] at h
    exact (view.inside_iff_of_some hlength).mpr h
  | none =>
    rw [hlength] at h
    exact (view.inside_iff_of_none hlength).mpr h

theorem to_bytes_inside_iff_no_wrap :
    view.TakenInside (Jsi.toBytes (.object view.properties)) ↔ view.NoWrap := by
  constructor
  · intro h
    cases hlength : view.byteLength with
    | some length =>
      rw [NoWrap, hlength]
      exact (view.inside_iff_of_some hlength).mp h
    | none =>
      rw [NoWrap, hlength]
      exact (view.inside_iff_of_none hlength).mp h
  · exact view.takenInside_of_noWrap

/-- The windows that typed arrays have are copied whole. -/
theorem toBytes_of_inside {length : Nat} (hasked : view.length? = some length)
    (hinside : view.offset + length ≤ view.buffer.bytes.length) :
    Jsi.toBytes (.object view.properties) =
      .ok ((view.buffer.bytes.drop view.offset).take length) := by
  have hsize := view.buffer.fits
  have hword := view.lengthWord_of_length? hasked
  have hpassed : ¬ view.byteOffset.getD 0 + view.lengthWord > Jsi.bufferSize view.buffer := by
    rw [view.guard_iff, hword, Nat.mod_eq_of_lt (by omega)]
    omega
  have hoffset : (view.byteOffset.getD 0).toNat = view.offset := rfl
  rw [view.toBytes_eq, if_neg hpassed, Jsi.copyRange, hoffset, hword, if_pos hinside]

end BufferView

/-! ## What is loaded -/

theorem toString_ok {w : Nat} {args : List (JsiValue w)} {index : Nat} {name text : String}
    (h : Jsi.toString args index name = .ok text) : args[index]? = some (.string text) := by
  unfold Jsi.toString at h
  split at h
  · rename_i found hfound
    rw [hfound, Except.ok.inj h]
  · exact absurd h (by simp)

theorem loadFromBuffer_ok {w : Nat} {args : List (JsiValue w)} {moduleId language : String}
    {bytes : List UInt8} (h : Jsi.loadFromBuffer args = .ok (moduleId, language, bytes)) :
    args[0]? = some (.string moduleId) ∧ args[1]? = some (.string language) ∧
      ∃ value, args[2]? = some value ∧ Jsi.toBytes value = .ok bytes := by
  simp only [Jsi.loadFromBuffer, bind, Except.bind] at h
  split at h
  · exact absurd h (by simp)
  · rename_i id hid
    split at h
    · exact absurd h (by simp)
    · rename_i lang hlang
      split at h
      · exact absurd h (by simp)
      · rename_i value hvalue
        split at h
        · exact absurd h (by simp)
        · rename_i read hread
          simp only [pure, Except.pure, Except.ok.injEq, Prod.mk.injEq] at h
          obtain ⟨rfl, rfl, rfl⟩ := h
          exact ⟨toString_ok hid, toString_ok hlang, value, hvalue, hread⟩

/-- Bytes that reach the core from a view that does not wrap are those of the view. -/
theorem loadFromBuffer_inside {w : Nat} {args : List (JsiValue w)} {moduleId language : String}
    {bytes : List UInt8} (view : BufferView w) (hwrap : view.NoWrap)
    (hview : args[2]? = some (.object view.properties))
    (h : Jsi.loadFromBuffer args = .ok (moduleId, language, bytes)) :
    ∃ length, view.length? = some length ∧
      view.offset + length ≤ view.buffer.bytes.length ∧
      bytes = (view.buffer.bytes.drop view.offset).take length := by
  obtain ⟨-, -, value, hvalue, hbytes⟩ := loadFromBuffer_ok h
  rw [hview, Option.some.injEq] at hvalue
  have hinside := view.takenInside_of_noWrap hwrap
  rw [hvalue, hbytes] at hinside
  exact hinside

/-! ## Ranges that wrap -/

/-- `byteOffset` is the last number below `2 ^ 64`, and `byteLength` leads back to its start. -/
def wrappingView : BufferView 64 where
  properties := [("buffer", .arrayBuffer ⟨[1, 2, 3], by decide⟩),
    ("byteOffset", .number 0x43EFFFFFFFFFFFFF#64), ("byteLength", .number 0x40A0000000000000#64)]
  buffer := ⟨[1, 2, 3], by decide⟩
  byteOffset := some 18446744073709549568#64
  byteLength := some 2048#64
  hasBuffer := rfl
  hasOffset := ⟨0x43EFFFFFFFFFFFFF#64, rfl, by decide⟩
  hasLength := ⟨0x40A0000000000000#64, rfl, by decide⟩

/-- `byteOffset` is the last number that 32 bits hold. -/
def wrappingView32 : BufferView 32 where
  properties := [("buffer", .arrayBuffer ⟨[1, 2, 3], by decide⟩),
    ("byteOffset", .number 0x41EFFFFFFFE00000#64), ("byteLength", .number 0x3FF0000000000000#64)]
  buffer := ⟨[1, 2, 3], by decide⟩
  byteOffset := some 4294967295#32
  byteLength := some 1#32
  hasBuffer := rfl
  hasOffset := ⟨0x41EFFFFFFFE00000#64, rfl, by decide⟩
  hasLength := ⟨0x3FF0000000000000#64, rfl, by decide⟩

theorem wrapping_range_passes :
    Jsi.toBytes (.object wrappingView.properties) = .error .undefinedBehaviour ∧
      Jsi.toBytes (.object wrappingView32.properties) = .error .undefinedBehaviour ∧
      ¬ wrappingView.TakenInside (Jsi.toBytes (.object wrappingView.properties)) ∧
      ¬ wrappingView32.TakenInside (Jsi.toBytes (.object wrappingView32.properties)) := by
  have hrange : Jsi.toBytes (.object wrappingView.properties) = .error .undefinedBehaviour := by
    rw [wrappingView.toBytes_eq]
    decide
  have hrange32 : Jsi.toBytes (.object wrappingView32.properties) = .error .undefinedBehaviour := by
    rw [wrappingView32.toBytes_eq]
    decide
  refine ⟨hrange, hrange32, ?_, ?_⟩
  · rw [hrange]
    intro h
    exact h rfl
  · rw [hrange32]
    intro h
    exact h rfl

end CrossNative
