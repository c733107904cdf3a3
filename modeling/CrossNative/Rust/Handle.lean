import CrossNative.Rust.Module
import CrossNative.Runtime

/-!
# Calling a generated shim, and the handles it returns

A vector or string result is copied into a fresh block, and a packed pointer and count
stand for it. A handle with a pointer always has a count.
-/

namespace CrossNative.Rust

set_option autoImplicit false

open Basis

variable {σ : Type}

theorem pack_toNat (ptr : BitVec 32) (count : Nat) :
    (pack ptr count).toNat = ptr.toNat * 2 ^ 32 + count % 2 ^ 32 := by
  have hptr := ptr.isLt
  have hcount : count % 2 ^ 32 < 2 ^ 32 := Nat.mod_lt _ (by decide)
  have hhigh : (ptr.setWidth 64 <<< 32).toNat = ptr.toNat <<< 32 := by
    rw [BitVec.toNat_shiftLeft, BitVec.toNat_setWidth, Nat.mod_eq_of_lt (by omega),
      Nat.shiftLeft_eq, Nat.mod_eq_of_lt (by omega), Nat.shiftLeft_eq]
  have hlow : ((BitVec.ofNat 32 count).setWidth 64).toNat = count % 2 ^ 32 := by
    rw [BitVec.toNat_setWidth, BitVec.toNat_ofNat, Nat.mod_eq_of_lt (by omega)]
  rw [pack, BitVec.toNat_or, hhigh, hlow, ← Nat.shiftLeft_add_eq_or_of_lt hcount, Nat.shiftLeft_eq]

theorem unpackHandle_eq (handle : BitVec 64) :
    unpackHandle handle = (handle.toNat / 2 ^ 32, handle.toNat % 2 ^ 32) := by
  have hlt := handle.isLt
  have hmask : (0xFFFFFFFF#64).toNat = 2 ^ 32 - 1 := by decide
  rw [unpackHandle, BitVec.toNat_ushiftRight, BitVec.toNat_and, hmask, Nat.and_two_pow_sub_one_eq_mod,
    Nat.shiftRight_eq_div_pow, Nat.mod_mod, Nat.mod_eq_of_lt (a := handle.toNat / 2 ^ 32) (by omega)]

theorem unpackHandle_pack (ptr : BitVec 32) (count : Nat) :
    unpackHandle (pack ptr count) = (ptr.toNat, count % 2 ^ 32) := by
  rw [unpackHandle_eq, pack_toNat]
  congr 1 <;> omega

/-- A result copied into a block that the allocator answered with. -/
structure Packed (heap : Heap σ) (bytes : List UInt8) (st : Store σ) (buffer : BitVec 32)
    (st' : Store σ) : Prop where
  alloc : cnAlloc heap bytes.length st = (.ok buffer, st')
  nonempty : bytes ≠ []
  nonnull : buffer ≠ 0
  fits : buffer.toNat + bytes.length ≤ st'.mem.size

/-- Packing hands back the empty handle, for an empty value or a null pointer from the
allocator, or traps, or copies the bytes. -/
theorem packSlice_cases (heap : Heap σ) (bytes : List UInt8) (count : Nat) (st : Store σ) :
    (bytes = [] ∧ packSlice heap bytes count st = (.ok (pack 0 0), st)) ∨
      (∃ st', bytes ≠ [] ∧ cnAlloc heap bytes.length st = (.ok 0, st') ∧
        packSlice heap bytes count st = (.ok (pack 0 0), st')) ∨
      (∃ trap st', packSlice heap bytes count st = (.error trap, st')) ∨
      ∃ buffer st', Packed heap bytes st buffer st' ∧ packSlice heap bytes count st =
        (.ok (pack buffer count), { st' with mem := st'.mem.write buffer.toNat bytes }) := by
  unfold packSlice
  by_cases hempty : bytes = []
  · exact Or.inl ⟨hempty, by simp [hempty]⟩
  have hlen : bytes.length ≠ 0 := by simpa using hempty
  simp only [hlen, if_false]
  cases halloc : cnAlloc heap bytes.length st with
  | mk reply st' =>
    cases reply with
    | error trap => exact Or.inr (Or.inr (Or.inl ⟨trap, st', rfl⟩))
    | ok buffer =>
      by_cases hnull : buffer = 0
      · subst hnull
        exact Or.inr (Or.inl ⟨st', hempty, rfl, by simp⟩)
      · simp only [hnull, if_false]
        by_cases hfits : buffer.toNat + bytes.length ≤ st'.mem.size
        · simp only [hfits, if_true]
          exact Or.inr (Or.inr (Or.inr ⟨buffer, st', ⟨halloc, hempty, hnull, hfits⟩, rfl⟩))
        · simp only [hfits, if_false]
          exact Or.inr (Or.inr (Or.inl ⟨_, st', rfl⟩))

/-- The bytes a value of a vector or string type is copied as, and its element count. -/
def RustValue.packed : RustValue → Option (List UInt8 × Nat)
  | vec s vs => some (vs.flatMap fun v => leBytes s.size v.toNat, vs.length)
  | text s => some (utf8 s, (utf8 s).length)
  | _ => none

theorem Scalar.size_pos (s : Scalar) : 0 < s.size := by
  cases s with
  | elem k => exact k.size_pos
  | _ => decide

theorem flatMap_leBytes_length {w : Nat} (n : Nat) (vs : List (BitVec w)) :
    (vs.flatMap fun v => leBytes n v.toNat).length = vs.length * n := by
  induction vs with
  | nil => simp
  | cons v vs ih => simp [ih, Nat.add_mul, Nat.add_comm]

theorem RustValue.packed_count {v : RustValue} {bytes : List UInt8} {count : Nat}
    (h : v.packed = some (bytes, count)) : count ≤ bytes.length ∧ (bytes ≠ [] → 0 < count) := by
  cases v with
  | unit => cases h
  | scalar s v => cases h
  | vec s vs =>
    simp only [packed, Option.some.injEq, Prod.mk.injEq] at h
    obtain ⟨rfl, rfl⟩ := h
    rw [flatMap_leBytes_length]
    refine ⟨Nat.le_mul_of_pos_right _ s.size_pos, fun hne => List.length_pos_iff.mpr ?_⟩
    rintro rfl
    exact hne rfl
  | text s =>
    simp only [packed, Option.some.injEq, Prod.mk.injEq] at h
    obtain ⟨rfl, rfl⟩ := h
    exact ⟨Nat.le_refl _, List.length_pos_iff.mpr⟩

theorem Packed.count_mod {heap : Heap σ} {bytes : List UInt8} {st st' : Store σ}
    {buffer : BitVec 32} (h : Packed heap bytes st buffer st') {count : Nat}
    (hcount : count ≤ bytes.length) : count % 2 ^ 32 = count := by
  have hpos : buffer.toNat ≠ 0 := fun hz => h.nonnull (BitVec.eq_of_toNat_eq hz)
  have hfits := h.fits
  have hcap := st'.mem.size_le
  exact Nat.mod_eq_of_lt (by omega)

end CrossNative.Rust

namespace CrossNative

/-- The declared result is a vector or a string, so a handle stands for it. -/
def ValueType.IsHandle : ValueType → Prop
  | .vector _ | .text => True
  | _ => False

end CrossNative

namespace CrossNative.Rust

open Basis

variable {σ : Type}

theorem Kind.handle_result {k : Kind} {t : ValueType} (ht : k.valueType? = some t)
    (hhandle : t.IsHandle) : k.shimResult = [.i64] ∧ ∀ s, k ≠ .scalar s := by
  cases Kind.known ht with
  | scalar e => exact hhandle.elim
  | void => exact hhandle.elim
  | vector e owned => exact ⟨rfl, fun _ h => by cases h⟩
  | text owned => exact ⟨rfl, fun _ h => by cases h⟩

namespace RustModule

variable {m : RustModule σ} {f : RustFn}

def shimResults (returns : Kind) (cell : BitVec 64) : List Val :=
  returns.shimResult.map (Val.ofCells · cell)

theorem shimResults_eq (returns : Kind) (cell : BitVec 64) :
    (returns.shimResult.mapIdx fun _ k => Val.ofCells k cell) = shimResults returns cell := by
  cases returns <;> rfl

theorem callWasmA_function (hf : f ∈ m.functions) (args : List Val) (h : Host σ) :
    callWasmA m.guest ⟨f.decl.name.text, f.decl.shimType⟩ f.decl.shimType.results.length args h =
      if args.length ≠ f.decl.shimType.params.length then (.ok (.error none), h)
      else
        match m.runShim f args h.store with
        | (.error trap, st) => (.ok (.error (some trap)), { h with store := st })
        | (.ok cell, st) => (.ok (.ok (shimResults f.decl.returns cell)), { h with store := st }) := by
  have hrun : m.guest.run f.decl.name.text args h.store = cells (m.runShim f args h.store) :=
    run_function hf args h.store
  simp only [callWasmA, ne_eq, not_true_eq_false, if_false, hrun]
  split
  · rfl
  · cases hshim : m.runShim f args h.store with
    | mk reply st =>
      cases reply with
      | error trap => rfl
      | ok cell => simp only [cells, Except.map, FnDecl.shimType, shimResults_eq]

/-- A shim that returns has decoded its arguments and packed the value of its body. -/
theorem runShim_ok_iff {slots : List Val} {st st' : Store σ} {cell : BitVec 64} :
    m.runShim f slots st = (.ok cell, st') ↔
      ∃ values v, decodeArgs m.toolchain st.mem (f.decl.params.map ParamDecl.kind) slots =
          some values ∧ f.body values = some v ∧
        m.returnValue v (m.work f.decl.name.text values st) = (.ok cell, st') := by
  unfold runShim
  cases hdecode : decodeArgs m.toolchain st.mem (f.decl.params.map ParamDecl.kind) slots with
  | none => simp
  | some values =>
    cases hbody : f.body values with
    | none => simp [hbody]
    | some v => simp [hbody]

theorem returnValue_packed {v : RustValue} {bytes : List UInt8} {count : Nat}
    (h : v.packed = some (bytes, count)) (st : Store σ) :
    m.returnValue v st = packSlice m.heap bytes count st := by
  cases v with
  | unit => cases h
  | scalar s v => cases h
  | vec s vs =>
    simp only [RustValue.packed, Option.some.injEq, Prod.mk.injEq] at h
    obtain ⟨rfl, rfl⟩ := h
    rfl
  | text s =>
    simp only [RustValue.packed, Option.some.injEq, Prod.mk.injEq] at h
    obtain ⟨rfl, rfl⟩ := h
    rfl

theorem packed_of_hasKind {v : RustValue} {k : Kind} (h : v.HasKind k)
    (hresult : k.shimResult = [.i64]) (hscalar : ∀ s, k ≠ .scalar s) :
    ∃ bytes count, v.packed = some (bytes, count) := by
  cases v with
  | unit => cases k <;> simp_all [RustValue.HasKind, Kind.shimResult]
  | scalar s v => cases k <;> simp_all [RustValue.HasKind]
  | vec s vs => exact ⟨_, _, rfl⟩
  | text s => exact ⟨_, _, rfl⟩

/-- The handle of a vector or string result has a count whenever it has a pointer. -/
theorem handle_count_ne_zero {slots : List Val} {st st' : Store σ} {cell : BitVec 64}
    (h : m.runShim f slots st = (.ok cell, st')) (hresult : f.decl.returns.shimResult = [.i64])
    (hscalar : ∀ s, f.decl.returns ≠ .scalar s) (hptr : (unpackHandle cell).1 ≠ 0) :
    (unpackHandle cell).2 ≠ 0 := by
  obtain ⟨values, v, _, hbody, hreturn⟩ := runShim_ok_iff.mp h
  obtain ⟨bytes, count, hpacked⟩ := packed_of_hasKind (f.body_typed values v hbody) hresult hscalar
  obtain ⟨hle, hpos⟩ := RustValue.packed_count hpacked
  rw [returnValue_packed hpacked] at hreturn
  rcases packSlice_cases m.heap bytes count (m.work f.decl.name.text values st) with
    ⟨_, hrun⟩ | ⟨_, _, _, hrun⟩ | ⟨_, _, hrun⟩ | ⟨buffer, st₁, hblock, hrun⟩ <;>
    rw [hrun] at hreturn <;> simp only [Prod.mk.injEq, Except.ok.injEq, reduceCtorEq, false_and] at hreturn
  · rw [← hreturn.1, unpackHandle_pack] at hptr
    exact absurd rfl hptr
  · rw [← hreturn.1, unpackHandle_pack] at hptr
    exact absurd rfl hptr
  · rw [← hreturn.1, unpackHandle_pack]
    simp only [hblock.count_mod hle]
    exact Nat.ne_of_gt (hpos hblock.nonempty)

end RustModule

end CrossNative.Rust
