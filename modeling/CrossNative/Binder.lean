import CrossNative.Signature
import CrossNative.Wamr

/-!
# Argument binding

Raw calls bind numbers and `in`/`out`/`inout` buffers; typed calls bind what the
signature declares. The value vector and the blocks of the running call live in the
host state, so they survive a failed binding and the cleanup finds them.
-/

namespace CrossNative

set_option autoImplicit false

open Basis

def kAllocFn : String := "cn_alloc"
def kFreeFn : String := "cn_free"

def utf8 (s : String) : List UInt8 := s.toUTF8.data.toList

variable {σ : Type}

/-- Allocate in the module heap; fails instead of returning 0. -/
def wasmAlloc (g : Guest σ) (byteSize : Nat) : HostProc σ Nat :=
  match g.lookup kAllocFn with
  | none => Proc.fail (.error ("Module does not export '" ++ kAllocFn ++
      "', which is required to pass array arguments"))
  | some allocFn => do
    let reply ← callWasmA g allocFn 1 [.i32 (BitVec.ofNat 32 byteSize)]
    match reply with
    | .error exc => Proc.fail (.error ("cn_alloc failed: " ++ exc.getD "unknown"))
    | .ok rets =>
      let ptr := (rets.headD (.i32 0)).ofI32.toNat
      if ptr = 0 then Proc.fail (.error "cn_alloc returned null (out of WASM memory?)")
      else do
        record (.allocated ⟨ptr, byteSize⟩)
        pure ptr

/-- The parameters of an export that can be handed a block. -/
def freeType : FuncType := ⟨[.i32, .i32], []⟩

/-- `cn_free` of any other type is handed no block: its call is refused, or its
parameters are not the two words that are passed. -/
def Guest.frees (g : Guest σ) : Prop := (g.lookup kFreeFn).map Func.type = some freeType

instance (g : Guest σ) : Decidable g.frees := inferInstanceAs (Decidable (_ = _))

def recordFreed (freeFn : Func) (b : Block) : HostProc σ Unit :=
  if freeFn.type = freeType then record (.freed b) else pure ()

def wasmFree (g : Guest σ) (appPtr byteSize : Nat) : HostProc σ Unit :=
  match g.lookup kFreeFn with
  | none => pure ()
  | some freeFn => do
    recordFreed freeFn ⟨appPtr, byteSize⟩
    -- a call that is refused is not reported
    let _ ← callWasmA g freeFn 0 [.i32 (BitVec.ofNat 32 appPtr), .i32 (BitVec.ofNat 32 byteSize)]
    pure ()

def jsonToVal (P : Platform) (j : Json) (kind : ValKind) : Except Fault Val :=
  if j.isNumber then
    match kind with
    | .i32 => (getElem P .i32 j).map Val.i32
    | .i64 => (getElem P .i64 j).map Val.i64
    | .f32 => (getElem P .f32 j).map Val.f32
    | .f64 => (getElem P .f64 j).map Val.f64
    | _ => .error (.error "unsupported WASM parameter type")
  else .error (.error "must be a number")

structure BufferSpec where
  kind : ElemKind
  count : Nat
  /-- The array of an `in` or `inout` argument. -/
  values : Option (List Json)
  readBack : Bool

/-- What `in`, `out` or `inout` says: a count, and the array to copy in. -/
def bufferExtent (P : Platform) (arg : Json) : Except Fault (Nat × Option (List Json)) :=
  match arg.find? "out" with
  | some out =>
    match out with
    | .int n =>
      if 0 ≤ n then .ok (n.toNat % 2 ^ P.sizeBits, none)
      else .error (.error "'out' must be an element count")
    | _ => .error (.error "'out' must be an element count")
  | none =>
    match (arg.find? "in").or (arg.find? "inout") with
    | some (.arr values) => .ok (values.length, some values)
    | _ => .error (.error "'in'/'inout' must be an array")

def parseBufferSpec (P : Platform) (arg : Json) : Except Fault BufferSpec :=
  if !arg.contains "in" && !arg.contains "out" && !arg.contains "inout" then
    .error (.error "buffer argument must contain 'in', 'out' or 'inout'")
  else
    match arg.valueString "type" "f64" with
    | .error e => .error e
    | .ok type =>
      match parseElemKind type with
      | none => .error (.error ("unsupported buffer element type: " ++ type))
      | some kind =>
        match bufferExtent P arg with
        | .error e => .error e
        | .ok (count, values) =>
          if count = 0 then .error (.error "buffer argument is empty")
          else .ok ⟨kind, count, values, arg.contains "out" || arg.contains "inout"⟩

def fillElems (P : Platform) (kind : ElemKind) (mem : Nat) : Nat → List Json → HostProc σ Unit
  | _, [] => pure ()
  | e, value :: rest => do
    let bs ← Proc.lift (writeElem P kind value)
    writeBytes (mem + e * kind.size) bs
    fillElems P kind mem (e + 1) rest

namespace BufferSpec

def byteSize (P : Platform) (spec : BufferSpec) : Nat :=
  spec.count * spec.kind.size % 2 ^ P.sizeBits % 2 ^ 32

/-- Bytes the fill touches: the elements before the first that does not convert,
or the whole block for `out`. -/
def touched (P : Platform) (spec : BufferSpec) : Nat :=
  match spec.values with
  | some values => (values.takeWhile (Convertible spec.kind)).length * spec.kind.size
  | none => spec.byteSize P

end BufferSpec

def fillBuffer (P : Platform) (spec : BufferSpec) (mem : Nat) : HostProc σ Unit :=
  match spec.values with
  | some values => fillElems P spec.kind mem 0 values
  | none => writeBytes mem (List.replicate (spec.byteSize P) 0)

def pushAllocation (a : Allocation) : HostProc σ Unit :=
  Proc.modify fun h => { h with allocations := h.allocations ++ [a] }

/-- Allocate, record the block, check its start and fill it: the part that
`bindBuffer` and `bindBytes` share. `touched` is what the fill will write. -/
def placeBlock (g : Guest σ) (byteSize : Nat) (describe : Nat → Allocation) (touched : Nat)
    (fill : Nat → HostProc σ Unit) : HostProc σ Nat := do
  let appPtr ← wasmAlloc g byteSize
  pushAllocation (describe appPtr)
  handOver appPtr touched
  let mem ← nativePtr appPtr
  if mem then do
    fill appPtr
    pure appPtr
  else Proc.fail (.error "WASM memory access out of bounds")

def ArgumentBinder.bindBuffer (P : Platform) (g : Guest σ) (arg : Json) : HostProc σ Val := do
  let spec ← Proc.lift (parseBufferSpec P arg)
  if spec.count > 0xFFFFFFFF / spec.kind.size then
    Proc.fail (.error ("buffer of " ++ toString spec.count ++
      " elements is too large to address (over 4 GB)"))
  else do
    let byteSize := spec.byteSize P
    let appPtr ← placeBlock g byteSize
      (fun appPtr => ⟨appPtr, byteSize, spec.count, spec.kind, spec.readBack⟩)
      (spec.touched P) (fillBuffer P spec)
    pure (.i32 (BitVec.ofNat 32 appPtr))

def ArgumentBinder.bindBytes (g : Guest σ) (data : List UInt8) (count : Nat) :
    HostProc σ (Val × Val) :=
  if data.length > 0xFFFFFFFF then
    Proc.fail (.error ("buffer of " ++ toString data.length ++
      " bytes is too large to address (over 4 GB)"))
  else do
    let appPtr ← placeBlock g data.length (fun appPtr => ⟨appPtr, data.length, count, .u8, false⟩)
      data.length (fun mem => writeBytes mem data)
    pure (.i32 (BitVec.ofNat 32 appPtr), .i32 (BitVec.ofNat 32 count))

def setSlot (slot : Nat) (v : Val) : HostProc σ Unit :=
  Proc.modify fun h => { h with vals := h.vals.set slot v }

/-- `error = where + ": " + reason`; an exception passes through unchanged. -/
def prefixReason (where_ : String) : Fault → Fault
  | .error reason => .error (where_ ++ ": " ++ reason)
  | .exception what => .exception what

def bindArgs (P : Platform) (g : Guest σ) : Nat → List ValKind → List Json → HostProc σ Unit
  | i, kind :: kinds, arg :: args => do
    let v ← Proc.mapFault (prefixReason ("argument " ++ toString i))
      (if arg.isObject then ArgumentBinder.bindBuffer P g arg else Proc.lift (jsonToVal P arg kind))
    setSlot i v
    bindArgs P g (i + 1) kinds args
  | _, _, _ => pure ()

/-- Raw binding: a number or a buffer object for every parameter. -/
def ArgumentBinder.bind (P : Platform) (g : Guest σ) (func : Func) (args : List Json) : HostProc σ Unit :=
  let kinds := func.type.params
  if args.length ≠ kinds.length then
    Proc.fail (.error ("argument count mismatch: WASM expects " ++ toString kinds.length ++
      ", got " ++ toString args.length))
  else do
    Proc.modify fun h => { h with vals := List.replicate kinds.length (.i32 0) }
    bindArgs P g 0 kinds args

def writeElems (P : Platform) (k : ElemKind) : List Json → Except Fault (List (List UInt8))
  | [] => .ok []
  | value :: rest =>
    match writeElem P k value with
    | .error e => .error e
    | .ok bs =>
      match writeElems P k rest with
      | .error e => .error e
      | .ok records => .ok (bs :: records)

def whereText (i : Nat) (name : String) : String :=
  "argument " ++ toString i ++ " ('" ++ name ++ "')"

/-- One case of the switch in `bindTyped`: bind `arg` at `slot`. -/
def bindParam (P : Platform) (g : Guest σ) (kinds : List ValKind) (slot : Nat)
    (type : ValueType) (arg : Json) : HostProc σ Unit :=
  match type with
  | .scalar _ => do
    let v ← Proc.lift (jsonToVal P arg (kinds.getD slot .i32))
    setSlot slot v
  | .vector elem =>
    match arg with
    | .arr items =>
      if slot + 1 ≥ kinds.length then Proc.fail (.error "missing length slot")
      else do
        let records ← Proc.lift (writeElems P elem items)
        let (ptr, len) ← ArgumentBinder.bindBytes g records.flatten items.length
        setSlot slot ptr
        setSlot (slot + 1) len
    | _ => Proc.fail (.error "expected an array")
  | .text =>
    match arg with
    | .str text =>
      if slot + 1 ≥ kinds.length then Proc.fail (.error "missing length slot")
      else do
        let (ptr, len) ← ArgumentBinder.bindBytes g (utf8 text) (utf8 text).length
        setSlot slot ptr
        setSlot (slot + 1) len
    | _ => Proc.fail (.error "expected a string")
  | .void => Proc.fail (.error "void is not a valid parameter type")

/-- The parameter loop of `bindTyped`: argument `i` starts at slot `slot`. -/
def bindParams (P : Platform) (g : Guest σ) (kinds : List ValKind) :
    Nat → Nat → List Param → List Json → HostProc σ Unit
  | i, slot, param :: params, arg :: args =>
    Proc.mapFault (prefixReason (whereText i param.name))
      (if slot ≥ kinds.length then Proc.fail (.error "more arguments than the module expects")
      else bindParam P g kinds slot param.type arg) >>= fun _ =>
    bindParams P g kinds (i + 1) (slot + param.type.slots) params args
  | _, _, _, _ => pure ()

/-- Typed binding by a declared signature. The value vector has at least one entry. -/
def ArgumentBinder.bindTyped (P : Platform) (g : Guest σ) (func : Func) (args : List Json) (sig : Signature) :
    HostProc σ Unit :=
  let kinds := func.type.params
  if args.length ≠ sig.params.length then
    Proc.fail (.error ("expects " ++ toString sig.params.length ++
      " argument(s), got " ++ toString args.length))
  else do
    let slotCount := kinds.length
    Proc.modify fun h =>
      { h with vals := List.replicate (if slotCount = 0 then 1 else slotCount) (.i32 0) }
    bindParams P g kinds 0 0 sig.params args

/-- Elements `e, e + 1, …` of an array in linear memory; the offset is a `size_t`. -/
def readElems (P : Platform) (kind : ElemKind) (mem : Nat) : Nat → Nat → HostProc σ (List Json)
  | _, 0 => pure []
  | e, n + 1 => do
    let bs ← readBytes (mem + e * kind.size % 2 ^ P.sizeBits) kind.size
    let rest ← readElems P kind mem (e + 1) n
    pure (readElem kind bs :: rest)

def readBlocks (P : Platform) : List Allocation → HostProc σ (List Json)
  | [] => pure []
  | a :: rest =>
    if a.readBack then do
      let mem ← nativePtr a.appPtr
      if mem then
        let values ← readElems P a.kind a.appPtr 0 a.count
        let others ← readBlocks P rest
        pure (.arr values :: others)
      else Proc.fail (.error "WASM memory shrank during call")
    else readBlocks P rest

def ArgumentBinder.readOutputs (P : Platform) : HostProc σ (List Json) := do
  let h ← Proc.get
  readBlocks P h.allocations

end CrossNative
