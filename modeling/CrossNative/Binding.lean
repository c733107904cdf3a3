import CrossNative.HostLog

/-!
# Following the binder through the host state

The binder touches the module only when it places a block. A property of the log that
holds of each placed block, and survives concatenation, therefore holds of a whole
binding, whether it succeeds or stops at any argument.
-/

namespace CrossNative

set_option autoImplicit false

open Basis Proc

namespace BufferSpec

/-- What `parseBufferSpec` and the size check of `bindBuffer` establish. -/
structure Valid (spec : BufferSpec) : Prop where
  pos : 0 < spec.count
  values : ∀ vs, spec.values = some vs → spec.count = vs.length
  addressable : spec.count ≤ 0xFFFFFFFF / spec.kind.size

theorem Valid.bytes_lt {spec : BufferSpec} (h : spec.Valid) :
    spec.count * spec.kind.size < 2 ^ 32 := by
  have hle := Nat.mul_le_of_le_div _ _ _ h.addressable
  omega

theorem two_pow_sizeBits (P : Platform) : 2 ^ 32 ∣ 2 ^ P.sizeBits := by
  apply Nat.pow_dvd_pow
  rcases P.sizeBits_cases with h | h <;> omega

theorem Valid.byteSize {spec : BufferSpec} (P : Platform) (h : spec.Valid) :
    spec.byteSize P = spec.count * spec.kind.size := by
  rw [BufferSpec.byteSize, Nat.mod_mod_of_dvd _ (two_pow_sizeBits P), Nat.mod_eq_of_lt h.bytes_lt]

theorem Valid.touched_le {spec : BufferSpec} (P : Platform) (h : spec.Valid) :
    spec.touched P ≤ spec.byteSize P := by
  rw [h.byteSize P, touched]
  cases hvalues : spec.values with
  | none => exact Nat.le_of_eq (h.byteSize P)
  | some vs =>
    rw [h.values vs hvalues]
    exact Nat.mul_le_mul_right _ (List.takeWhile_prefix _).length_le

end BufferSpec

theorem bufferExtent_values {P : Platform} {arg : Json} {count : Nat} {values : Option (List Json)}
    (h : bufferExtent P arg = .ok (count, values)) : ∀ vs, values = some vs → count = vs.length := by
  intro vs hvs
  unfold bufferExtent at h
  split at h
  · split at h
    · split at h
      · simp only [Except.ok.injEq, Prod.mk.injEq] at h
        simp [← h.2] at hvs
      · cases h
    · cases h
  · split at h
    · simp only [Except.ok.injEq, Prod.mk.injEq] at h
      obtain ⟨rfl, rfl⟩ := h
      rw [Option.some.inj hvs]
    · cases h

theorem parseBufferSpec_valid {P : Platform} {arg : Json} {spec : BufferSpec}
    (h : parseBufferSpec P arg = .ok spec)
    (haddr : ¬ spec.count > 0xFFFFFFFF / spec.kind.size) : spec.Valid := by
  unfold parseBufferSpec at h
  split at h
  · cases h
  · split at h
    · cases h
    · split at h
      · cases h
      · split at h
        · cases h
        · rename_i count values hextent
          split at h
          · cases h
          · rename_i hcount
            simp only [Except.ok.injEq] at h
            subst h
            exact ⟨Nat.pos_of_ne_zero hcount, bufferExtent_values hextent, Nat.le_of_not_lt haddr⟩

variable {σ : Type}

/-- Relations between hosts that can be followed through a binding: sequences, and
changes of the value vector. -/
class Bindable (R E : Host σ → Host σ → Prop) : Prop extends Sequential R E where
  vals : ∀ h vals, R h { h with vals := vals }

instance {Q E : List Event → List Allocation → Prop} [Additive Q E] :
    Bindable (Extends (σ := σ) Q) (Extends E) where
  vals h vals := Extends.of_vals (Additive.nil E) h vals

/-- The relations hold of every block that a typed argument is copied to. -/
def PlacesBytes (R E : Host σ → Host σ → Prop) (g : Guest σ) : Prop :=
  ∀ (data : List UInt8) (count : Nat), data.length < 2 ^ 32 →
    Ends R E (placeBlock g data.length (fun appPtr => ⟨appPtr, data.length, count, .u8, false⟩)
      data.length (fun mem => writeBytes mem data))

def PlacesBuffers (R E : Host σ → Host σ → Prop) (P : Platform) (g : Guest σ) : Prop :=
  ∀ spec : BufferSpec, spec.Valid →
    Ends R E (placeBlock g (spec.byteSize P)
      (fun appPtr => ⟨appPtr, spec.byteSize P, spec.count, spec.kind, spec.readBack⟩)
      (spec.touched P) (fillBuffer P spec))

section Binding

variable {R E : Host σ → Host σ → Prop} [Bindable R E] {P : Platform} {g : Guest σ}

theorem setVals_ends (f : Host σ → List Val) :
    Ends R E (Proc.modify fun h => { h with vals := f h } : HostProc σ Unit) :=
  Ends.modify fun h => Bindable.vals E h (f h)

theorem setSlot_ends (slot : Nat) (v : Val) : Ends R E (setSlot slot v : HostProc σ Unit) :=
  setVals_ends fun h => h.vals.set slot v

theorem bindBuffer_ends (law : PlacesBuffers R E P g) (arg : Json) :
    Ends R E (ArgumentBinder.bindBuffer P g arg) := by
  unfold ArgumentBinder.bindBuffer
  refine Ends.lift_bind fun spec hspec => ?_
  split
  · exact Ends.fail _
  · rename_i haddr
    exact Ends.bind (law spec (parseBufferSpec_valid hspec haddr)) fun _ => Ends.pure _

theorem bindBytes_ends (law : PlacesBytes R E g) (data : List UInt8) (count : Nat) :
    Ends R E (ArgumentBinder.bindBytes g data count) := by
  unfold ArgumentBinder.bindBytes
  split
  · exact Ends.fail _
  · exact Ends.bind (law data count (by omega)) fun _ => Ends.pure _

theorem bindArgs_ends (law : PlacesBuffers R E P g) (i : Nat) (kinds : List ValKind)
    (args : List Json) : Ends R E (bindArgs P g i kinds args) := by
  induction args generalizing i kinds with
  | nil => cases kinds <;> exact Ends.pure ()
  | cons arg args ih =>
    cases kinds with
    | nil => exact Ends.pure ()
    | cons kind kinds =>
      have hvalue : Ends R E
          (if arg.isObject then ArgumentBinder.bindBuffer P g arg
            else Proc.lift (jsonToVal P arg kind)) := by
        split
        · exact bindBuffer_ends law arg
        · exact Ends.lift _
      exact Ends.bind (hvalue.mapFault _) fun v =>
        Ends.bind (setSlot_ends i v) fun _ => ih (i + 1) kinds

theorem bind_ends (law : PlacesBuffers R E P g) (func : Func) (args : List Json) :
    Ends R E (ArgumentBinder.bind P g func args) := by
  unfold ArgumentBinder.bind
  simp only
  split
  · exact Ends.fail _
  · exact Ends.bind (setVals_ends _) fun _ => bindArgs_ends law 0 func.type.params args

theorem bindRange_ends (law : PlacesBytes R E g) (data : List UInt8) (count slot : Nat) :
    Ends R E (do
      let (ptr, len) ← ArgumentBinder.bindBytes g data count
      setSlot slot ptr
      setSlot (slot + 1) len) :=
  Ends.bind (bindBytes_ends law data count) fun (ptr, len) =>
    Ends.bind (setSlot_ends slot ptr) fun _ => setSlot_ends (slot + 1) len

theorem bindParam_ends (law : PlacesBytes R E g) (kinds : List ValKind) (slot : Nat)
    (type : ValueType) (arg : Json) :
    Ends R E (bindParam P g kinds slot type arg) := by
  cases type with
  | void => exact Ends.fail _
  | scalar k => exact Ends.bind (Ends.lift _) fun v => setSlot_ends slot v
  | vector k =>
    simp only [bindParam]
    split
    · split
      · exact Ends.fail _
      · exact Ends.bind (Ends.lift _) fun records => bindRange_ends law records.flatten _ slot
    · exact Ends.fail _
  | text =>
    simp only [bindParam]
    split
    · split
      · exact Ends.fail _
      · exact bindRange_ends law _ _ slot
    · exact Ends.fail _

theorem bindParams_ends (law : PlacesBytes R E g) (kinds : List ValKind) (i slot : Nat)
    (params : List Param) (args : List Json) :
    Ends R E (bindParams P g kinds i slot params args) := by
  induction params generalizing i slot args with
  | nil => cases args <;> exact Ends.pure ()
  | cons param params ih =>
    cases args with
    | nil => exact Ends.pure ()
    | cons arg args =>
      have hparam : Ends R E
          (if slot ≥ kinds.length then Proc.fail (.error "more arguments than the module expects")
            else bindParam P g kinds slot param.type arg) := by
        split
        · exact Ends.fail _
        · exact bindParam_ends law kinds slot param.type arg
      exact Ends.bind (hparam.mapFault _) fun _ => ih (i + 1) (slot + param.type.slots) args

theorem bindTyped_ends (law : PlacesBytes R E g) (func : Func) (args : List Json)
    (sig : Signature) : Ends R E (ArgumentBinder.bindTyped P g func args sig) := by
  unfold ArgumentBinder.bindTyped
  simp only
  split
  · exact Ends.fail _
  · exact Ends.bind (setVals_ends _) fun _ => bindParams_ends law func.type.params 0 0 sig.params args

theorem bindCall_ends {env : Env} (bytes : PlacesBytes R E g)
    (buffers : PlacesBuffers R E env.platform g) (func : Func)
    (args : List Json) (sig : Option Signature) :
    Ends R E (bindCall env g func args sig) := by
  unfold bindCall
  cases sig with
  | none => exact (bind_ends buffers func args).mapFault _
  | some sig => exact (bindTyped_ends bytes func args sig).mapFault _

end Binding

end CrossNative
