import CrossNative.Binder

/-!
# The crossnative crate inside the module

`cn_alloc` and `cn_free` over the module's global allocator, the packed handles of
vector and string results, and the slices rebuilt from what the host passed in. An
access outside linear memory traps.
-/

namespace CrossNative.Rust

set_option autoImplicit false

open Basis

variable {σ : Type}

abbrev Exec (σ : Type) (A : Type) := Store σ → Except String A × Store σ

/-- The module's global allocator, `alloc` and `dealloc`; a null pointer is 0. -/
structure Heap (σ : Type) where
  alloc : Nat → Exec σ (BitVec 32)
  dealloc : BitVec 32 → Nat → Exec σ Unit
  alloc_grows : ∀ size st, st.mem.size ≤ (alloc size st).2.mem.size
  dealloc_grows : ∀ ptr size st, st.mem.size ≤ (dealloc ptr size st).2.mem.size

/-- The largest size `Layout::from_size_align` accepts at eight-byte alignment. -/
def maxLayout : Nat := 2 ^ 31 - 8

def cnAlloc (heap : Heap σ) (size : Nat) : Exec σ (BitVec 32) := fun st =>
  if size = 0 then (.ok 0, st)
  else if size ≤ maxLayout then heap.alloc size st
  else (.ok 0, st)

def cnFree (heap : Heap σ) (ptr : BitVec 32) (size : Nat) : Exec σ Unit := fun st =>
  if ptr = 0 ∨ size = 0 then (.ok (), st)
  else if size ≤ maxLayout then heap.dealloc ptr size st
  else (.ok (), st)

/-- Pointer in the high half, element count in the low half. -/
def pack (ptr : BitVec 32) (count : Nat) : BitVec 64 :=
  (ptr.setWidth 64 <<< 32) ||| (BitVec.ofNat 32 count).setWidth 64

/-- Copy the bytes of `count` values into a block the host will free. -/
def packSlice (heap : Heap σ) (bytes : List UInt8) (count : Nat) : Exec σ (BitVec 64) := fun st =>
  if bytes.length = 0 then (.ok (pack 0 0), st)
  else
    match cnAlloc heap bytes.length st with
    | (.error trap, st') => (.error trap, st')
    | (.ok buffer, st') =>
      if buffer = 0 then (.ok (pack 0 0), st')
      else if buffer.toNat + bytes.length ≤ st'.mem.size then
        (.ok (pack buffer count), { st' with mem := st'.mem.write buffer.toNat bytes })
      else (.error "out of bounds memory access", st')

def packStr (heap : Heap σ) (text : String) : Exec σ (BitVec 64) :=
  packSlice heap (utf8 text) (utf8 text).length

/-- Records of `size` bytes behind a `(pointer, length)` pair; none when the range
leaves linear memory. -/
def sliceFrom (mem : LinearMemory) (ptr len : BitVec 32) (size : Nat) : Option (List (List UInt8)) :=
  if ptr = 0 ∨ len = 0 then some []
  else if ptr.toNat + len.toNat * size ≤ mem.size then some (mem.chunks ptr.toNat size len.toNat)
  else none

/-- `String::from_utf8_lossy`; `replaced` is the text it makes of invalid input. -/
def fromUtf8Lossy (replaced : List UInt8 → String) (bytes : List UInt8) : String :=
  (String.fromUTF8? ⟨bytes.toArray⟩).getD (replaced bytes)

theorem fromUTF8_utf8 (s : String) : String.fromUTF8? ⟨(utf8 s).toArray⟩ = some s := by
  have hbytes : (⟨(utf8 s).toArray⟩ : ByteArray) = s.toByteArray := by
    simp [utf8, String.toUTF8]
  rw [hbytes, String.fromUTF8?, dif_pos s.isValidUTF8]
  rfl

@[simp] theorem fromUtf8Lossy_utf8 (replaced : List UInt8 → String) (s : String) :
    fromUtf8Lossy replaced (utf8 s) = s := by
  simp [fromUtf8Lossy, fromUTF8_utf8]

theorem utf8_injective {s t : String} (h : utf8 s = utf8 t) : s = t := by
  have hs := fromUTF8_utf8 s
  rw [h, fromUTF8_utf8 t] at hs
  exact (Option.some.inj hs).symm

theorem cnAlloc_grows (heap : Heap σ) (size : Nat) (st : Store σ) :
    st.mem.size ≤ (cnAlloc heap size st).2.mem.size := by
  unfold cnAlloc
  split
  · exact Nat.le_refl _
  · split
    · exact heap.alloc_grows size st
    · exact Nat.le_refl _

theorem cnFree_grows (heap : Heap σ) (ptr : BitVec 32) (size : Nat) (st : Store σ) :
    st.mem.size ≤ (cnFree heap ptr size st).2.mem.size := by
  unfold cnFree
  split
  · exact Nat.le_refl _
  · split
    · exact heap.dealloc_grows ptr size st
    · exact Nat.le_refl _

theorem packSlice_grows (heap : Heap σ) (bytes : List UInt8) (count : Nat) (st : Store σ) :
    st.mem.size ≤ (packSlice heap bytes count st).2.mem.size := by
  unfold packSlice
  split
  · exact Nat.le_refl _
  · have hgrow := cnAlloc_grows heap bytes.length st
    cases halloc : cnAlloc heap bytes.length st with
    | mk reply st' =>
      rw [halloc] at hgrow
      cases reply with
      | error trap => exact hgrow
      | ok buffer =>
        simp only
        split
        · exact hgrow
        · split
          · simpa using hgrow
          · exact hgrow

end CrossNative.Rust
