import CrossNative.Rust.Abi
import CrossNative.Rust.Macro
import Mathlib.Data.List.Nodup
import Mathlib.Data.List.Pairwise

/-!
# A module built with the attribute

The guest behind a list of accepted functions: allocator shims, one shim and one
metadata export for each function. A body is a partial function on decoded values; a
panic traps. Running it may also change the module's own state and memory.
-/

namespace CrossNative.Rust

set_option autoImplicit false

open Basis

def Scalar.bits : Scalar → Nat
  | .elem k => k.bits
  | .usize | .isize => 32
  | .bool => 8

def Scalar.size : Scalar → Nat
  | .elem k => k.size
  | .usize | .isize => 4
  | .bool => 1

inductive RustValue
  | unit
  | scalar (s : Scalar) (v : BitVec s.bits)
  | vec (s : Scalar) (vs : List (BitVec s.bits))
  | text (s : String)
  deriving DecidableEq

/-- What the Rust toolchain leaves open: the text made of invalid UTF-8, and how a
callee reads a narrow integer its caller did not extend. -/
structure Toolchain where
  replaced : List UInt8 → String
  narrow : (k : ElemKind) → BitVec 32 → Elem k
  narrow_extended : ∀ (k : ElemKind) (v : Elem k), k.size < 4 →
    narrow k (if k.isSigned then v.signExtend 32 else v.setWidth 32) = v

theorem setWidth_signExtend {w n : Nat} (x : BitVec w) (h : w ≤ n) :
    (x.signExtend n).setWidth w = x := by
  apply BitVec.eq_of_getLsbD_eq
  intro i hi
  rw [BitVec.getLsbD_setWidth, BitVec.getLsbD_signExtend]
  simp [hi, Nat.lt_of_lt_of_le hi h]

instance : Inhabited Toolchain where
  default :=
    { replaced := fun _ => ""
      narrow := fun k x => x.setWidth k.bits
      narrow_extended := fun k v hsmall => by
        have hbits : k.bits ≤ 32 := by
          unfold ElemKind.bits
          omega
        split
        · exact setWidth_signExtend v hbits
        · rw [BitVec.setWidth_setWidth_of_le _ hbits, BitVec.setWidth_eq] }

/-- A scalar parameter, from the slot it arrives in. -/
def decodeScalar (T : Toolchain) (s : Scalar) (slot : Val) : BitVec s.bits :=
  match s with
  | .elem .f64 | .elem .i64 | .elem .u64 => slot.ofI64
  | .elem .f32 | .elem .i32 | .elem .u32 => slot.ofI32
  | .elem .i8 => T.narrow .i8 slot.ofI32
  | .elem .u8 => T.narrow .u8 slot.ofI32
  | .elem .i16 => T.narrow .i16 slot.ofI32
  | .elem .u16 => T.narrow .u16 slot.ofI32
  | .usize | .isize => slot.ofI32
  | .bool => slot.ofI32.setWidth 8

/-- The value of a scalar result in its slot, zero- or sign-extended. -/
def encodeScalar (s : Scalar) (v : BitVec s.bits) : BitVec 64 :=
  match s with
  | .elem k =>
    if k.size = 8 then v.setWidth 64
    else (if k.isSigned then v.signExtend 32 else v.setWidth 32).setWidth 64
  | .usize | .isize | .bool => v.setWidth 64

/-- The prologue of the shim: rebuild the arguments in order. A range outside linear
memory traps, and so does a missing slot. -/
def decodeArgs (T : Toolchain) (mem : LinearMemory) :
    List Kind → List Val → Option (List RustValue)
  | [], _ => some []
  | .unit :: kinds, slots => decodeArgs T mem kinds slots
  | .scalar s :: kinds, slot :: slots =>
    (decodeArgs T mem kinds slots).map (.scalar s (decodeScalar T s slot) :: ·)
  | .slice s _ :: kinds, ptr :: len :: slots =>
    match sliceFrom mem ptr.ofI32 len.ofI32 s.size with
    | some records =>
      (decodeArgs T mem kinds slots).map
        (.vec s (records.map fun bs => BitVec.ofNat _ (leValue bs)) :: ·)
    | none => none
  | .text _ :: kinds, ptr :: len :: slots =>
    match sliceFrom mem ptr.ofI32 len.ofI32 1 with
    | some bytes =>
      (decodeArgs T mem kinds slots).map (.text (fromUtf8Lossy T.replaced bytes.flatten) :: ·)
    | none => none
  | _, _ => none

def RustValue.HasKind : RustValue → Kind → Prop
  | unit, .unit => True
  | scalar s _, .scalar s' => s = s'
  | vec s _, .slice s' _ => s = s'
  | text _, .text _ => True
  | _, _ => False

structure RustFn where
  decl : FnDecl
  /-- The value returned; none is a panic. -/
  body : List RustValue → Option RustValue
  body_typed : ∀ values v, body values = some v → v.HasKind decl.returns

def exportNames (functions : List RustFn) : List String :=
  kAllocFn :: kFreeFn :: functions.flatMap fun f => [f.decl.name.text, f.decl.metaExport]

structure RustModule (σ : Type) where
  functions : List RustFn
  distinct : (exportNames functions).Nodup
  heap : Heap σ
  toolchain : Toolchain
  /-- What running a function does besides returning its value. -/
  work : String → List RustValue → Store σ → Store σ
  work_grows : ∀ name args st, st.mem.size ≤ (work name args st).mem.size

namespace RustModule

variable {σ : Type} (m : RustModule σ)

def returnValue (v : RustValue) : Exec σ (BitVec 64) := fun st =>
  match v with
  | .unit => (.ok 0, st)
  | .scalar s v => (.ok (encodeScalar s v), st)
  | .vec s vs => packSlice m.heap (vs.flatMap fun v => leBytes s.size v.toNat) vs.length st
  | .text s => packStr m.heap s st

def runShim (f : RustFn) (slots : List Val) : Exec σ (BitVec 64) := fun st =>
  match decodeArgs m.toolchain st.mem (f.decl.params.map ParamDecl.kind) slots with
  | none => (.error "out of bounds memory access", st)
  | some values =>
    let st' := m.work f.decl.name.text values st
    match f.body values with
    | none => (.error "unreachable", st')
    | some v => m.returnValue v st'

def find (name : String) : Option RustFn := m.functions.find? fun f => f.decl.name.text = name

def findMeta (name : String) : Option RustFn := m.functions.find? fun f => f.decl.metaExport = name

def exports : List (String × FuncType) :=
  (kAllocFn, ⟨[.i32], [.i32]⟩) :: (kFreeFn, ⟨[.i32, .i32], []⟩) ::
    m.functions.flatMap fun f =>
      [(f.decl.name.text, f.decl.shimType), (f.decl.metaExport, ⟨[], [.i64]⟩)]

/-- One result cell, for every result. -/
def cells (reply : Except String (BitVec 64) × Store σ) :
    Except String (Nat → BitVec 64) × Store σ :=
  (reply.1.map fun cell _ => cell, reply.2)

def run (name : String) (args : List Val) : Exec σ (Nat → BitVec 64) := fun st =>
  let arg (i : Nat) : BitVec 32 := (args.getD i (.i32 0)).ofI32
  if name = kAllocFn then
    let (reply, st') := cnAlloc m.heap (arg 0).toNat st
    (reply.map fun ptr _ => ptr.setWidth 64, st')
  else if name = kFreeFn then
    let (reply, st') := cnFree m.heap (arg 0) (arg 1).toNat st
    (reply.map fun _ _ => 0, st')
  else
    match m.find name with
    | some f => cells (m.runShim f args st)
    | none =>
      match m.findMeta name with
      | some f => cells (packStr m.heap f.decl.metadata st)
      | none => (.error "unknown function", st)

theorem returnValue_grows (v : RustValue) (st : Store σ) :
    st.mem.size ≤ (m.returnValue v st).2.mem.size := by
  cases v with
  | unit => exact Nat.le_refl _
  | scalar s v => exact Nat.le_refl _
  | vec s vs => exact packSlice_grows _ _ _ _
  | text s => exact packSlice_grows _ _ _ _

theorem runShim_grows (f : RustFn) (slots : List Val) (st : Store σ) :
    st.mem.size ≤ (m.runShim f slots st).2.mem.size := by
  unfold runShim
  cases decodeArgs m.toolchain st.mem (f.decl.params.map ParamDecl.kind) slots with
  | none => exact Nat.le_refl _
  | some values =>
    have hwork := m.work_grows f.decl.name.text values st
    cases hbody : f.body values with
    | none => simpa [hbody] using hwork
    | some v =>
      simp only [hbody]
      exact Nat.le_trans hwork (m.returnValue_grows v _)

theorem run_grows (name : String) (args : List Val) (st : Store σ) :
    st.mem.size ≤ (m.run name args st).2.mem.size := by
  unfold run
  simp only
  split
  · exact cnAlloc_grows _ _ _
  · split
    · exact cnFree_grows _ _ _ _
    · cases m.find name with
      | some f => exact m.runShim_grows f args st
      | none =>
        cases m.findMeta name with
        | some f => exact packSlice_grows _ _ _ _
        | none => exact Nat.le_refl _

def guest : Guest σ where
  exports := m.exports
  run := m.run
  grows := m.run_grows

/-! ## Looking functions up -/

theorem lookup_eq_of_mem {A B : Type} [BEq A] [LawfulBEq A] {l : List (A × B)} {a : A} {b : B}
    (hnodup : (l.map Prod.fst).Nodup) (hmem : (a, b) ∈ l) : l.lookup a = some b := by
  induction l with
  | nil => cases hmem
  | cons entry rest ih =>
    obtain ⟨c, d⟩ := entry
    rw [List.map_cons, List.nodup_cons] at hnodup
    rcases List.mem_cons.mp hmem with heq | hrest
    · cases heq
      simp
    · have hne : (a == c) = false := by
        rw [beq_eq_false_iff_ne]
        rintro rfl
        exact hnodup.1 (List.mem_map.mpr ⟨_, hrest, rfl⟩)
      rw [List.lookup_cons, hne]
      exact ih hnodup.2 hrest

theorem exports_names : m.exports.map Prod.fst = exportNames m.functions := by
  simp [exports, exportNames, List.map_flatMap]

theorem lookup_of_export {name : String} {type : FuncType} (h : (name, type) ∈ m.exports) :
    m.guest.lookup name = some ⟨name, type⟩ := by
  have hnodup : (m.exports.map Prod.fst).Nodup := by
    rw [exports_names]
    exact m.distinct
  rw [Guest.lookup, guest, lookup_eq_of_mem hnodup h]
  rfl

@[simp] theorem lookup_alloc : m.guest.lookup kAllocFn = some ⟨kAllocFn, [.i32], [.i32]⟩ :=
  m.lookup_of_export List.mem_cons_self

@[simp] theorem lookup_free : m.guest.lookup kFreeFn = some ⟨kFreeFn, [.i32, .i32], []⟩ :=
  m.lookup_of_export (List.mem_cons_of_mem _ List.mem_cons_self)

theorem guest_frees : m.guest.frees := by
  rw [Guest.frees, lookup_free]
  rfl

variable {m} {f : RustFn} (hf : f ∈ m.functions)

include hf

theorem lookup_function :
    m.guest.lookup f.decl.name.text = some ⟨f.decl.name.text, f.decl.shimType⟩ := by
  apply m.lookup_of_export
  simp only [exports, List.mem_cons, List.mem_flatMap]
  exact Or.inr (Or.inr ⟨f, hf, Or.inl rfl⟩)

theorem lookup_meta : m.guest.lookup f.decl.metaExport = some ⟨f.decl.metaExport, [], [.i64]⟩ := by
  apply m.lookup_of_export
  simp only [exports, List.mem_cons, List.mem_flatMap]
  exact Or.inr (Or.inr ⟨f, hf, Or.inr (Or.inl rfl)⟩)

theorem names_reserved (name : String) (h : name = f.decl.name.text ∨ name = f.decl.metaExport) :
    name ≠ kAllocFn ∧ name ≠ kFreeFn := by
  have hmem : name ∈ m.functions.flatMap fun f => [f.decl.name.text, f.decl.metaExport] :=
    List.mem_flatMap.mpr ⟨f, hf, by simpa using h⟩
  obtain ⟨halloc, hrest⟩ := List.nodup_cons.mp m.distinct
  constructor
  · rintro rfl
    exact halloc (List.mem_cons_of_mem _ hmem)
  · rintro rfl
    exact (List.nodup_cons.mp hrest).1 hmem

theorem names_distinct {f' : RustFn} (hf' : f' ∈ m.functions) :
    (f'.decl.name.text = f.decl.name.text → f' = f) ∧
      (f'.decl.metaExport = f.decl.metaExport → f' = f) ∧
      f'.decl.name.text ≠ f.decl.metaExport := by
  have hnodup := (List.nodup_cons.mp (List.nodup_cons.mp m.distinct).2).2
  obtain ⟨hself, hpair⟩ := List.nodup_flatMap.mp hnodup
  by_cases heq : f' = f
  · subst heq
    have := hself f' hf
    exact ⟨fun _ => rfl, fun _ => rfl, by simpa using this⟩
  · have hsymm : Std.Symm (Function.onFun List.Disjoint
        fun f : RustFn => [f.decl.name.text, f.decl.metaExport]) := ⟨fun _ _ h _ ha hb => h hb ha⟩
    have hdisjoint := hpair.forall hf' hf heq
    have hne : ∀ a ∈ [f'.decl.name.text, f'.decl.metaExport],
        a ∉ [f.decl.name.text, f.decl.metaExport] := fun a ha hb => hdisjoint ha hb
    refine ⟨fun h => absurd ?_ (hne _ List.mem_cons_self), fun h => absurd ?_ (hne f'.decl.metaExport
      (by simp)), fun h => hne _ List.mem_cons_self ?_⟩ <;> simp [h]

theorem find_of_mem : m.find f.decl.name.text = some f := by
  cases hfind : m.find f.decl.name.text with
  | none =>
    have := List.find?_eq_none.mp hfind f hf
    simp at this
  | some f' =>
    have hname := List.find?_some hfind
    have hmem := List.mem_of_find?_eq_some hfind
    rw [((names_distinct hf hmem).1 (by simpa using hname))]

theorem findMeta_of_mem : m.findMeta f.decl.metaExport = some f := by
  cases hfind : m.findMeta f.decl.metaExport with
  | none =>
    have := List.find?_eq_none.mp hfind f hf
    simp at this
  | some f' =>
    have hname := List.find?_some hfind
    have hmem := List.mem_of_find?_eq_some hfind
    rw [((names_distinct hf hmem).2.1 (by simpa using hname))]

theorem find_meta_eq_none : m.find f.decl.metaExport = none := by
  rw [find, List.find?_eq_none]
  intro f' hf'
  simpa using (names_distinct hf hf').2.2

theorem run_function (args : List Val) (st : Store σ) :
    m.run f.decl.name.text args st = cells (m.runShim f args st) := by
  obtain ⟨halloc, hfree⟩ := names_reserved hf _ (Or.inl rfl)
  simp only [run, halloc, hfree, if_false, find_of_mem hf]

theorem run_metaExport (args : List Val) (st : Store σ) :
    m.run f.decl.metaExport args st = cells (packStr m.heap f.decl.metadata st) := by
  obtain ⟨halloc, hfree⟩ := names_reserved hf _ (Or.inr rfl)
  simp only [run, halloc, hfree, if_false, find_meta_eq_none hf, findMeta_of_mem hf]

end RustModule

end CrossNative.Rust
