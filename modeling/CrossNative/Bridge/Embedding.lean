import CrossNative.Basis.Base64
import CrossNative.Languages

/-!
# From the bundler to the backend

The transformer turns a compiled module into a default export; an app passes that export as
the `bytes` of a configuration, and the bridge makes a source for the backend of it.
-/

namespace CrossNative.Bridge

set_option autoImplicit false

open Basis

/-! ## The transformer -/

def maxBuffer : Nat := 64 * 1024 * 1024

/-- What `build --stdout` prints of an artifact. -/
def toBase64 (artifact : List UInt8) : List Char := Base64.encode artifact

/-- The module text made of the output of a build; none where the output is too long. -/
def compileNative (stdout : List Char) : Option (List Char) :=
  if maxBuffer < (stdout.map Char.utf8Size).sum then none
  else some ("export default ".toList ++ stringifyText (trim stdout) ++ [';'])

/-- The default export of a module text of that form. -/
def defaultExport (text : List Char) : Option (List Char) :=
  if ("export default ".toList ++ [quoteMark]).isPrefixOf text then
    match readLiteral .plain (text.drop 16) with
    | some (value, [';']) => some value
    | _ => none
  else none

/-! ## The bridge -/

inductive LoadError
  | language (e : LanguageError)
  | rangeError

/-- A value of `bytes`: of its declared types, or a string. -/
inductive BytesValue
  | uint8Array (bytes : List UInt8)
  | arrayBuffer (bytes : List UInt8)
  | text (value : List Char)

/-- Objects are true, an empty string is not. -/
def BytesValue.isTruthy : BytesValue → Bool
  | text [] => false
  | _ => true

structure NativeModuleConfig where
  name : String
  source : String
  language : String
  artifact : Option String
  bytes : Option BytesValue
  linked : Bool
  linkedSymbol : Option String

inductive ModuleSource
  | path (path : String)
  | bytes (bytes : List UInt8)
  | linked (symbol : Option String)

section Load

-- The lengths for which the engine finds the memory.
variable (allocates : Nat → Bool)

/-- `new Uint8Array(value)`: of a string, as many zeros as its number says. -/
def newUint8Array : BytesValue → Except LoadError (List UInt8)
  | .uint8Array bytes | .arrayBuffer bytes => .ok bytes
  | .text value =>
    match toIndex (stringToNumber value) with
    | none => .error .rangeError
    | some length => if allocates length then .ok (List.replicate length 0) else .error .rangeError

/-- `replace(/\.[^./\\]+$/, '')`. -/
def withoutExtension (source : List Char) : List Char :=
  let (extension, rest) := source.reverse.span fun c => c != '.' && c != '/' && c != backslash
  match extension, rest with
  | _ :: _, '.' :: rest => rest.reverse
  | _, _ => source

def resolveSource (config : NativeModuleConfig) : Except LoadError ModuleSource :=
  if config.linked then .ok (.linked config.linkedSymbol)
  else
    match config.bytes.filter BytesValue.isTruthy, config.artifact.filter (· ≠ "") with
    | some value, _ => (newUint8Array allocates value).map .bytes
    | none, some path => .ok (.path path)
    | none, none =>
      if ".wasm".toList.isSuffixOf config.source.toList then .ok (.path config.source)
      else .ok (.path (String.ofList (withoutExtension config.source.toList ++ ".wasm".toList)))

/-- What `loadModule` asks of the backend: nothing for a module it has. -/
def loadModule (modules : List String) (config : NativeModuleConfig) :
    Except LoadError (Option (String × String × ModuleSource)) :=
  match requireUsableLanguage config.language with
  | .error e => .error (.language e)
  | .ok _ =>
    if config.name ∈ modules then .ok none
    else (resolveSource allocates config).map fun source => some (config.name, config.language, source)

/-- The export made of these bytes, passed as `bytes`, reaches the backend as them. -/
def EmbeddedIsLoaded (modules : List String) (config : NativeModuleConfig) (b : List UInt8) : Prop :=
  ∃ module value, compileNative (toBase64 b) = some module ∧ defaultExport module = some value ∧
    loadModule allocates modules { config with bytes := some (.text value) } =
      .ok (some (config.name, config.language, .bytes b))

end Load

/-- The configuration of the documentation. -/
def documented (value : List Char) : NativeModuleConfig where
  name := "compute"
  source := "compute.rs"
  language := "rust"
  artifact := none
  bytes := some (.text value)
  linked := false
  linkedSymbol := none

/-! ## What the export is -/

theorem defaultExport_compileNative {stdout module : List Char} (h : compileNative stdout = some module) :
    defaultExport module = some (trim stdout) := by
  unfold compileNative at h
  split at h
  · cases h
  · cases h
    have htext : "export default ".toList ++ stringifyText (trim stdout) ++ [';'] =
        ("export default ".toList ++ [quoteMark]) ++
          ((trim stdout).flatMap quoteChar ++ quoteMark :: [';']) := by
      simp [stringifyText]
    rw [htext, defaultExport, if_pos (by simp), List.drop_left' (by rfl), readLiteral_stringify]
    rfl

theorem toBase64_not_space (b : List UInt8) : ∀ c ∈ toBase64 b, isJsSpace c = false :=
  Base64.encode_forall (by decide) (by decide) b

/-- The export is the base64 text. -/
theorem defaultExport_toBase64 {b : List UInt8} {module : List Char}
    (h : compileNative (toBase64 b) = some module) : defaultExport module = some (toBase64 b) := by
  rw [defaultExport_compileNative h, trim_eq_self (toBase64_not_space b)]

/-! ## What the backend is handed -/

/-- Zeros are encoded as a text that is no number, so as many zeros as the text says are
never the bytes the text was made of. -/
theorem newUint8Array_toBase64 (allocates : Nat → Bool) {b : List UInt8} (hb : b ≠ []) :
    newUint8Array allocates (.text (toBase64 b)) ≠ .ok b := by
  intro h
  obtain ⟨a, rest, rfl⟩ := List.exists_cons_of_ne_nil hb
  unfold newUint8Array at h
  simp only at h
  split at h
  · cases h
  · rename_i length hlength
    split at h
    · injection h with hzeros
      have ha : a = 0 := by
        have hmem : a ∈ List.replicate length 0 := by
          rw [hzeros]
          exact List.mem_cons_self
        exact List.eq_of_mem_replicate hmem
      obtain ⟨tail, htail⟩ := Base64.encode_cons a rest
      have hletter : toBase64 (a :: rest) = 'A' :: tail := by
        rw [toBase64, htail, ha]
        rfl
      have hspace := toBase64_not_space (a :: rest)
      rw [hletter] at hspace
      rw [hletter, stringToNumber_letter hspace] at hlength
      have hzero : length = 0 := (Option.some.inj hlength).symm
      rw [hzero] at hzeros
      cases hzeros
    · cases h

theorem loadModule_source {allocates : Nat → Bool} {modules : List String} {config : NativeModuleConfig}
    {request : String × String × ModuleSource}
    (h : loadModule allocates modules config = .ok (some request)) :
    resolveSource allocates config = .ok request.2.2 := by
  unfold loadModule at h
  split at h
  · cases h
  · split at h
    · cases h
    · cases hresolve : resolveSource allocates config with
      | error e =>
        rw [hresolve] at h
        cases h
      | ok source =>
        rw [hresolve] at h
        cases h
        rfl

/-- A byte source comes from a value of `bytes` that counts as true. -/
theorem resolveSource_bytes {allocates : Nat → Bool} {config : NativeModuleConfig} {bytes : List UInt8}
    (h : resolveSource allocates config = .ok (.bytes bytes)) :
    ∃ value, config.bytes = some value ∧ value.isTruthy = true ∧
      newUint8Array allocates value = .ok bytes := by
  unfold resolveSource at h
  split at h
  · cases h
  · cases hvalue : config.bytes.filter BytesValue.isTruthy with
    | some value =>
      obtain ⟨hsome, htruthy⟩ := Option.filter_eq_some_iff.mp hvalue
      refine ⟨value, hsome, htruthy, ?_⟩
      simp only [hvalue] at h
      cases hmade : newUint8Array allocates value with
      | error e =>
        rw [hmade] at h
        cases h
      | ok made =>
        rw [hmade] at h
        cases h
        rfl
    | none =>
      cases hartifact : config.artifact.filter (· ≠ "") with
      | some path =>
        simp only [hvalue, hartifact] at h
        cases h
      | none =>
        simp only [hvalue, hartifact] at h
        split at h
        · cases h
        · cases h

/-- No bytes come back: the empty string is not taken for bytes, any other for a length. -/
theorem embedded_never_loaded (allocates : Nat → Bool) (modules : List String)
    (config : NativeModuleConfig) (b : List UInt8) :
    ¬ EmbeddedIsLoaded allocates modules config b := by
  rintro ⟨module, value, hmodule, hexport, hload⟩
  cases Option.some.inj (hexport.symm.trans (defaultExport_toBase64 hmodule))
  obtain ⟨value, hvalue, htruthy, hmade⟩ := resolveSource_bytes (loadModule_source hload)
  cases Option.some.inj hvalue
  by_cases hb : b = []
  · subst hb
    cases htruthy
  · exact newUint8Array_toBase64 allocates hb hmade

/-- The first bytes of every module are exported, and an empty array is handed over. -/
theorem embedded_not_loaded_magic :
    compileNative (toBase64 [0x00, 0x61, 0x73, 0x6D]) = some ("export default ".toList ++
      [quoteMark] ++ "AGFzbQ==".toList ++ [quoteMark, ';']) ∧
    loadModule (fun _ => true) [] (documented "AGFzbQ==".toList) =
      .ok (some ("compute", "rust", .bytes [])) ∧
    ¬ EmbeddedIsLoaded (fun _ => true) [] (documented []) [0x00, 0x61, 0x73, 0x6D] := by
  have hbytes : loadModule (fun _ => true) [] (documented "AGFzbQ==".toList) =
    .ok (some ("compute", "rust", .bytes [])) := by rfl
  refine ⟨by decide, hbytes, ?_⟩
  rintro ⟨module, value, hmodule, hexport, hload⟩
  cases Option.some.inj (hexport.symm.trans (defaultExport_toBase64 hmodule))
  cases hbytes.symm.trans hload

end CrossNative.Bridge
