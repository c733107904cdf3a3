import CrossNative.Json
import CrossNative.Element
import CrossNative.Basis.FaultState

/-!
# The WAMR interface and the host's view of one instance

A guest is whatever a module does when one of its exports runs: an arbitrary change
of its own state and of linear memory, which never shrinks, ending in result cells or
a trap. `Host` adds the argument binder of the running call and a log of what the
host did. The log is ghost state: no function below reads it.
-/

namespace CrossNative

set_option autoImplicit false

open Basis

/-- Value kinds; the build leaves SIMD out. -/
inductive ValKind
  | i32 | i64 | f32 | f64 | externref | funcref
  deriving DecidableEq, Repr

/-- `wasm_val_t`: a kind and the union member that goes with it. -/
inductive Val
  | i32 (x : BitVec 32)
  | i64 (x : BitVec 64)
  | f32 (x : BitVec 32)
  | f64 (x : BitVec 64)
  | foreign (x : BitVec 64)
  deriving DecidableEq, Repr

namespace Val

def kind : Val → ValKind
  | i32 _ => .i32
  | i64 _ => .i64
  | f32 _ => .f32
  | f64 _ => .f64
  | foreign _ => .externref

/-- `of.i64`, whatever member was written; narrow members leave the rest zero. -/
def ofI64 : Val → BitVec 64
  | i32 x | f32 x => x.setWidth 64
  | i64 x | f64 x | foreign x => x

def ofI32 (v : Val) : BitVec 32 := v.ofI64.setWidth 32

/-- One result as `parse_uint32_array_to_results` types it. -/
def ofCells (k : ValKind) (cells : BitVec 64) : Val :=
  match k with
  | .i32 | .funcref => .i32 (cells.setWidth 32)
  | .i64 => .i64 cells
  | .f32 => .f32 (cells.setWidth 32)
  | .f64 => .f64 cells
  | .externref => .foreign cells

@[simp] theorem ofI32_i32 (x : BitVec 32) : (i32 x).ofI32 = x := by simp [ofI32, ofI64]

@[simp] theorem ofI64_i64 (x : BitVec 64) : (i64 x).ofI64 = x := rfl

end Val

structure FuncType where
  params : List ValKind
  results : List ValKind
  deriving DecidableEq, Repr

structure Func where
  name : String
  type : FuncType
  deriving DecidableEq, Repr

abbrev LinearMemory := Memory (2 ^ 32)

structure Store (σ : Type) where
  guest : σ
  mem : LinearMemory

structure Guest (σ : Type) where
  exports : List (String × FuncType)
  run : String → List Val → Store σ → Except String (Nat → BitVec 64) × Store σ
  grows : ∀ name args st, st.mem.size ≤ (run name args st).2.mem.size

def Guest.lookup {σ : Type} (g : Guest σ) (name : String) : Option Func :=
  (g.exports.lookup name).map (⟨name, ·⟩)

structure Allocation where
  appPtr : Nat
  byteSize : Nat
  count : Nat
  kind : ElemKind
  readBack : Bool
  deriving DecidableEq, Repr

def Allocation.block (a : Allocation) : Block := ⟨a.appPtr, a.byteSize⟩

/-- What the host did, in order. `size` is the memory size at that moment. -/
inductive Event
  /-- The module handed over the start of a range; the host is about to touch it. -/
  | handed (range : Block) (size : Nat)
  | reads (range : Block) (size : Nat)
  | writes (range : Block) (size : Nat)
  | allocated (block : Block)
  | freed (block : Block)
  /-- The target function returned its results, or none after a trap. -/
  | finished (function : String) (results : Option (List Val))
  deriving DecidableEq, Repr

structure Host (σ : Type) where
  store : Store σ
  vals : List Val
  allocations : List Allocation
  log : List Event

def Host.start {σ : Type} (st : Store σ) : Host σ := ⟨st, [], [], []⟩

abbrev HostProc (σ : Type) (A : Type) := Proc (Host σ) Fault A

section Operations

variable {σ : Type}

def record (e : Event) : HostProc σ Unit :=
  Proc.modify fun h => { h with log := h.log ++ [e] }

/-- A failed call: the exception text, or none when the counts do not match and
the function never ran. -/
abbrev CallReply := Except (Option String) (List Val)

/-- `wasm_runtime_call_wasm_a`. -/
def callWasmA (g : Guest σ) (func : Func) (numResults : Nat) (args : List Val) :
    HostProc σ CallReply := fun h =>
  if numResults ≠ func.type.results.length then (.ok (.error none), h)
  else if args.length ≠ func.type.params.length then (.ok (.error none), h)
  else
    match g.run func.name args h.store with
    | (.error exc, st) => (.ok (.error (some exc)), { h with store := st })
    | (.ok cells, st) =>
      (.ok (.ok (func.type.results.mapIdx fun i k => Val.ofCells k (cells i))), { h with store := st })

/-- `wasm_runtime_addr_app_to_native` with bounds checks: a native pointer exactly
when the offset is below the memory size. -/
def nativePtr (appOffset : Nat) : HostProc σ Bool := fun h =>
  (.ok (decide (appOffset < h.store.mem.size)), h)

def writeBytes (off : Nat) (bs : List UInt8) : HostProc σ Unit := fun h =>
  (.ok (), { h with
    store := { h.store with mem := h.store.mem.write off bs }
    log := h.log ++ [.writes ⟨off, bs.length⟩ h.store.mem.size] })

def readBytes (off len : Nat) : HostProc σ (List UInt8) := fun h =>
  (.ok (h.store.mem.read off len),
    { h with log := h.log ++ [.reads ⟨off, len⟩ h.store.mem.size] })

/-- The module has handed over a range of which the host will touch `len` bytes. -/
def handOver (off len : Nat) : HostProc σ Unit := fun h =>
  (.ok (), { h with log := h.log ++ [.handed ⟨off, len⟩ h.store.mem.size] })

end Operations

end CrossNative
