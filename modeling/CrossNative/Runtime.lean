import CrossNative.Binder

/-!
# Loading metadata and calling a function

`readManifest` is the part of loading that talks to the module; `callEntry` is
`WasmRuntime::call` from the point where the module entry is found. The binder is
destroyed on every way out, exceptions included, after the results have been read.
-/

namespace CrossNative

set_option autoImplicit false

open Basis

/-- What the runtime takes from nlohmann: `parse`, with `what()` of its error, and the
`what()` of a `dump` that meets invalid UTF-8. -/
structure Env where
  platform : Platform
  parse : List UInt8 → Except String Json
  dumpError : List UInt8 → String

instance : Inhabited Env := ⟨⟨default, fun _ => .error "parse error", fun _ => "invalid UTF-8"⟩⟩

structure ModuleEntry where
  functions : List String
  /-- Latest entry first: a later document replaces an earlier one of the same name. -/
  signatures : List (String × Signature)
  manifest : List Json

inductive Envelope
  | success (result : Json) (outputs : List Json)
  | failure (error : String)

namespace Json

mutual

/-- The document that the text of `dump()` denotes: NaN and infinities print as `null`. -/
def dump : Json → Json
  | float x => if FloatFormat.binary64.IsFinite x.toNat then .float x else .null
  | arr items => .arr (dumpItems items)
  | obj fields => .obj (dumpFields fields)
  | j => j

def dumpItems : List Json → List Json
  | [] => []
  | j :: rest => j.dump :: dumpItems rest

def dumpFields : List (String × Json) → List (String × Json)
  | [] => []
  | (key, j) :: rest => (key, j.dump) :: dumpFields rest

end

@[simp] theorem dump_int (n : Int) : (int n).dump = int n := by simp [dump]

theorem dumpItems_eq_map (items : List Json) : dumpItems items = items.map dump := by
  induction items with
  | nil => rfl
  | cons j rest ih => simp [dumpItems, ih]

theorem dumpFields_eq_map (fields : List (String × Json)) :
    dumpFields fields = fields.map fun field => (field.1, field.2.dump) := by
  induction fields with
  | nil => rfl
  | cons field rest ih => simp [dumpFields, ih]

end Json

def unpackHandle (handle : BitVec 64) : Nat × Nat :=
  ((handle >>> 32).toNat % 2 ^ 32, (handle &&& 0xFFFFFFFF#64).toNat % 2 ^ 32)

def kMetaPrefix : String := "__cn_meta_"

def isMetaExport (name : String) : Bool := kMetaPrefix.toList.isPrefixOf name.toList

variable {σ : Type}

/-- The bytes a `__cn_meta_*` function returns; none when they cannot be read. -/
def readMetadata (g : Guest σ) (metaName : String) : HostProc σ (Option (List UInt8)) :=
  match g.lookup metaName with
  | none => pure none
  | some func => do
    let reply ← callWasmA g func 1 []
    match reply with
    | .error _ => pure none
    | .ok rets =>
      let (ptr, length) := unpackHandle (rets.headD (.i64 0)).ofI64
      if ptr = 0 ∨ length = 0 then pure (some [])
      else do
        handOver ptr length
        let mem ← nativePtr ptr
        if mem then
          let document ← readBytes ptr length
          wasmFree g ptr length
          pure (some document)
        else pure none

/-- Keep a document and its signature; a type error drops the document. -/
def addDocument (entry : ModuleEntry) (doc : Json) : ModuleEntry :=
  match parseSignature doc with
  | .ok (some sig) =>
    match doc.valueString "name" "" with
    | .ok name =>
      { entry with signatures := (name, sig) :: entry.signatures, manifest := entry.manifest ++ [doc] }
    | .error _ => entry
  | _ => entry

def readExport (env : Env) (g : Guest σ) (exported : String) (entry : ModuleEntry) :
    HostProc σ ModuleEntry :=
  if isMetaExport exported then do
    let document ← readMetadata g exported
    match document with
    | some (b :: bs) =>
      match env.parse (b :: bs) with
      | .ok doc => pure (addDocument entry doc)
      | .error _ => pure entry
    | _ => pure entry
  else pure entry

def readManifest (env : Env) (g : Guest σ) : List String → ModuleEntry → HostProc σ ModuleEntry
  | [], entry => pure entry
  | exported :: rest, entry => readExport env g exported entry >>= readManifest env g rest

def loadEntry (env : Env) (g : Guest σ) : HostProc σ ModuleEntry :=
  let functions := g.exports.map Prod.fst
  readManifest env g functions ⟨functions, [], []⟩

def valToJson : Val → Json
  | .i32 x => .int x.toInt
  | .i64 x => .int x.toInt
  | .f32 x => .float (BitVec.ofNat _ (convertFloat .binary32 .binary64 x.toNat))
  | .f64 x => .float x
  | .foreign _ => .null

def readReturnValues (rets : List Val) : Json :=
  match rets with
  | [] => .null
  | [ret] => valToJson ret
  | rets => .arr (rets.map valToJson)

/-- A result before it is printed; a returned string is whatever bytes the module left. -/
inductive Returned
  | json (j : Json)
  | bytes (text : List UInt8)

/-- Read the declared result; `rets` is not empty. -/
def readTypedReturn (P : Platform) (g : Guest σ) (returns : ValueType) (results : List Val) :
    HostProc σ Returned :=
  let (ptr, count) := unpackHandle (results.headD (.i64 0)).ofI64
  match returns with
  | .void => pure (.json .null)
  | .scalar _ => pure (.json (readReturnValues results))
  | .text =>
    if ptr = 0 ∨ count = 0 then pure (.bytes [])
    else do
      handOver ptr count
      let mem ← nativePtr ptr
      if mem then
        let text ← readBytes ptr count
        wasmFree g ptr count
        pure (.bytes text)
      else Proc.fail (.error "returned string is out of bounds")
  | .vector elem =>
    if ptr = 0 ∨ count = 0 then pure (.json (.arr []))
    else do
      handOver ptr (count * elem.size)
      let mem ← nativePtr ptr
      if mem then
        let values ← readElems P elem ptr 0 count
        wasmFree g ptr (count * elem.size % 2 ^ P.sizeBits % 2 ^ 32)
        pure (.json (.arr values))
      else Proc.fail (.error "returned array is out of bounds")

def respond (env : Env) (result : Returned) (outputs : List Json) : Except Fault Envelope :=
  match result with
  | .json j => .ok (.success j.dump (outputs.map Json.dump))
  | .bytes text =>
    match String.fromUTF8? ⟨text.toArray⟩ with
    | some s => .ok (.success (.str s) (outputs.map Json.dump))
    | none => .error (.exception (env.dumpError text))

def callFailure : Option String → Fault
  | some exc => .error ("WASM call failed: " ++ exc)
  | none => .error "WASM call failed (unknown)"

def bindCall (env : Env) (g : Guest σ) (func : Func) (args : List Json) (sig : Option Signature) :
    HostProc σ Unit :=
  Proc.mapFault (prefixReason "argument binding")
    (match sig with
    | some sig => ArgumentBinder.bindTyped env.platform g func args sig
    | none => ArgumentBinder.bind env.platform g func args)

def readResult (P : Platform) (g : Guest σ) (sig : Option Signature) (results : List Val) :
    HostProc σ Returned :=
  match sig with
  | some sig =>
    Proc.mapFault (prefixReason "reading typed return") (readTypedReturn P g sig.returns results)
  | none => pure (.json (readReturnValues results))

def readCall (env : Env) (g : Guest σ) (sig : Option Signature) (results : List Val) :
    HostProc σ Envelope := do
  let outputs ← Proc.mapFault (prefixReason "reading output buffers")
    (ArgumentBinder.readOutputs env.platform)
  let result ← readResult env.platform g sig results
  Proc.lift (respond env result outputs)

/-- Everything between the construction of the binder and its destruction. -/
def runCall (env : Env) (g : Guest σ) (entry : ModuleEntry) (func : Func) (args : List Json) :
    HostProc σ Envelope := do
  let sig := entry.signatures.lookup func.name
  bindCall env g func args sig
  let h ← Proc.get
  let reply ← callWasmA g func func.type.results.length h.vals
  record (.finished func.name reply.toOption)
  match reply with
  | .error exc => Proc.fail (callFailure exc)
  | .ok results => readCall env g sig results

/-- The loop of `~ArgumentBinder`. -/
def freeBlocks (g : Guest σ) : List Allocation → HostProc σ Unit
  | [] => pure ()
  | a :: rest => do
    wasmFree g a.appPtr a.byteSize
    freeBlocks g rest

/-- Run a call with a fresh binder and destroy the binder however the call ends. A
reported reason becomes the failure envelope; an exception leaves the call. -/
def withBinder (g : Guest σ) (body : HostProc σ Envelope) : HostProc σ Envelope := fun h =>
  let (reply, h₁) := body { h with vals := [], allocations := [] }
  let h₂ := (freeBlocks g h₁.allocations h₁).2
  (match reply with
    | .error (.error reason) => .ok (.failure reason)
    | reply => reply,
  { h₂ with vals := [], allocations := [] })

/-- `args` is the outcome of `json::parse(argsJson)`. -/
def callEntry (env : Env) (g : Guest σ) (entry : ModuleEntry) (moduleId functionName : String)
    (args : Except String Json) : HostProc σ Envelope :=
  match args with
  | .error what => pure (.failure ("invalid args JSON: " ++ what))
  | .ok (.arr items) =>
    match g.lookup functionName with
    | none => pure (.failure ("Function '" ++ functionName ++ "' not found in module '" ++
        moduleId ++ "'"))
    | some func => withBinder g (runCall env g entry func items)
  | .ok _ => pure (.failure "args must be a JSON array")

end CrossNative
