import CrossNative.Signature
import CrossNative.Wamr

/-!
# The crossnative attribute

What the attribute accepts, the parameter list of the shim it generates and the
metadata document it exports. A function is given by the syntax the attribute
matches on; an accepted one is described by `Kind`s.
-/

namespace CrossNative.Rust

set_option autoImplicit false

/-- The scalar types of the attribute: the ten element types and three more. -/
inductive Scalar
  | elem (k : ElemKind)
  | usize
  | isize
  | bool
  deriving DecidableEq, Repr

namespace Scalar

def name : Scalar → String
  | elem k => k.name
  | usize => "usize"
  | isize => "isize"
  | bool => "bool"

def all : List Scalar :=
  [elem .f64, elem .f32, elem .i8, elem .i16, elem .i32, elem .i64, elem .u8, elem .u16, elem .u32,
    elem .u64, usize, isize, bool]

/-- `SCALARS.contains(ident)`, with the type found. -/
def ofName? (ident : String) : Option Scalar := all.find? fun s => s.name = ident

end Scalar

/-- How a Rust type crosses the boundary. -/
inductive Kind
  | scalar (s : Scalar)
  | slice (elem : Scalar) (owned : Bool)
  | text (owned : Bool)
  | unit
  deriving DecidableEq, Repr

def Kind.wireName : Kind → String
  | scalar s => s.name
  | slice elem _ => "vec<" ++ elem.name ++ ">"
  | text _ => "string"
  | unit => "void"

/-! ## Syntax -/

mutual

inductive SynType
  | tuple (elems : List SynType)
  | path (leadingColon : Bool) (segments : List PathSegment)
  | reference (elem : SynType)
  | slice (elem : SynType)
  | other

inductive PathSegment
  | mk (ident : String) (arguments : PathArguments)

inductive PathArguments
  | none
  | angleBracketed (args : List GenericArgument)
  | parenthesized

inductive GenericArgument
  | type (t : SynType)
  | other

end

/-- `path.get_ident()`: a single segment, no leading colon, no arguments. -/
def getIdent (leadingColon : Bool) (segments : List PathSegment) : Option String :=
  match leadingColon, segments with
  | false, [.mk ident .none] => some ident
  | _, _ => none

/-- `T` of a path that ends in `Vec<T>` with a scalar `T`. -/
def vecElementOf (segments : List PathSegment) : Option Scalar :=
  match segments.getLast? with
  | some (.mk "Vec" (.angleBracketed (.type (.path colon inner) :: _))) =>
    (getIdent colon inner).bind Scalar.ofName?
  | _ => none

def classify : SynType → Except String Kind
  | .tuple [] => .ok .unit
  | .path colon segments =>
    match vecElementOf segments with
    | some elem => .ok (.slice elem true)
    | none =>
      match getIdent colon segments with
      | none => .error "unsupported type"
      | some ident =>
        if ident = "String" then .ok (.text true)
        else
          match Scalar.ofName? ident with
          | some s => .ok (.scalar s)
          | none => .error ("unsupported type `" ++ ident ++ "`")
  | .reference (.slice (.path colon inner)) =>
    match getIdent colon inner with
    | none => .error "unsupported slice element"
    | some ident =>
      match Scalar.ofName? ident with
      | some s => .ok (.slice s false)
      | none => .error ("unsupported slice element `" ++ ident ++ "`")
  | .reference (.slice _) => .error "unsupported slice element"
  | .reference (.path colon segments) =>
    if getIdent colon segments = some "str" then .ok (.text false)
    else .error "unsupported reference type"
  | .reference _ => .error "unsupported reference type"
  | _ => .error "unsupported type"

/-- Nothing in the text needs escaping in a JSON string. -/
def PlainText (text : String) : Prop :=
  ∀ c ∈ text.toList, c ≠ '"' ∧ c ≠ '\\' ∧ 0x20 ≤ c.toNat

instance (text : String) : Decidable (PlainText text) :=
  List.decidableBAll _ text.toList

structure Ident where
  text : String
  plain : PlainText text

inductive FnArg
  | receiver
  /-- A typed argument; the pattern is an identifier or something else. -/
  | typed (pat : Option Ident) (ty : SynType)

structure ItemFn where
  ident : Ident
  inputs : List FnArg
  output : Option SynType

structure ParamDecl where
  name : Ident
  kind : Kind

structure FnDecl where
  name : Ident
  params : List ParamDecl
  returns : Kind

def supportedParams : String :=
  ". Supported: numbers, bool, Vec<number>, &[number], String, &str"

def supportedReturns : String :=
  " as a return type. Supported: numbers, bool, Vec<number>, String"

def parseArgs : List FnArg → Except String (List ParamDecl)
  | [] => .ok []
  | .receiver :: _ => .error "#[crossnative] cannot be used on methods that take self"
  | .typed none _ :: _ => .error "#[crossnative] needs a plain parameter name"
  | .typed (some name) ty :: rest =>
    match classify ty with
    | .error message => .error (message ++ supportedParams)
    | .ok kind =>
      match parseArgs rest with
      | .error e => .error e
      | .ok params => .ok (⟨name, kind⟩ :: params)

def returnKind (function : ItemFn) : Except String Kind :=
  match function.output with
  | none => .ok .unit
  | some ty =>
    match classify ty with
    | .ok kind => .ok kind
    | .error message => .error (message ++ supportedReturns)

def crossnative (function : ItemFn) : Except String FnDecl :=
  match parseArgs function.inputs with
  | .error e => .error e
  | .ok params =>
    match returnKind function with
    | .error e => .error e
    | .ok returns => .ok ⟨function.ident, params, returns⟩

/-! ## Generated code -/

/-- The WASM value kind of a scalar in the C ABI of wasm32. -/
def Scalar.valKind : Scalar → ValKind
  | .elem .f64 => .f64
  | .elem .f32 => .f32
  | .elem .i64 | .elem .u64 => .i64
  | _ => .i32

/-- Parameters one declared parameter contributes to the shim, as `build_arguments`
pushes them: a slice or a text is a pointer and a length. -/
def Kind.shimParams : Kind → List ValKind
  | scalar s => [s.valKind]
  | slice _ _ | text _ => [.i32, .i32]
  | unit => []

/-- The result of the shim; vectors and strings come back as a packed handle. -/
def Kind.shimResult : Kind → List ValKind
  | scalar s => [s.valKind]
  | slice _ _ | text _ => [.i64]
  | unit => []

namespace FnDecl

def shimType (f : FnDecl) : FuncType :=
  ⟨f.params.flatMap fun p => p.kind.shimParams, f.returns.shimResult⟩

def metaExport (f : FnDecl) : String := "__cn_meta_" ++ f.name.text

def paramEntry (p : ParamDecl) : String :=
  "\x7b\"name\":\"" ++ p.name.text ++ "\",\"type\":\"" ++ p.kind.wireName ++ "\"\x7d"

def metadata (f : FnDecl) : String :=
  "\x7b\"name\":\"" ++ f.name.text ++ "\",\"params\":[" ++
    ",".intercalate (f.params.map paramEntry) ++ "],\"returns\":\"" ++ f.returns.wireName ++ "\"\x7d"

def metadataDoc (f : FnDecl) : Json :=
  signatureDoc f.name.text (f.params.map fun p => (p.name.text, p.kind.wireName)) f.returns.wireName

end FnDecl

/-! ## What the host makes of it -/

/-- The host's reading of a kind; three scalars are unknown to it. -/
def Kind.valueType? : Kind → Option ValueType
  | .scalar (.elem k) => some (.scalar k)
  | .slice (.elem k) _ => some (.vector k)
  | .text _ => some .text
  | .unit => some .void
  | _ => none

def FnDecl.HostKnown (f : FnDecl) : Prop :=
  (∀ p ∈ f.params, p.kind.valueType?.isSome) ∧ f.returns.valueType?.isSome

def hostParams : List ParamDecl → Option (List Param)
  | [] => some []
  | p :: rest =>
    match p.kind.valueType?, hostParams rest with
    | some type, some params => some (⟨p.name.text, type⟩ :: params)
    | _, _ => none

def FnDecl.hostSignature (f : FnDecl) : Option Signature :=
  match hostParams f.params, f.returns.valueType? with
  | some ps, some r => some ⟨ps, r⟩
  | _, _ => none

/-- The kinds the host has a type for, with that type. -/
inductive Kind.Known : Kind → ValueType → Prop
  | scalar (e : ElemKind) : Known (.scalar (.elem e)) (.scalar e)
  | vector (e : ElemKind) (owned : Bool) : Known (.slice (.elem e) owned) (.vector e)
  | text (owned : Bool) : Known (.text owned) .text
  | void : Known .unit .void

theorem Kind.known {k : Kind} {t : ValueType} (h : k.valueType? = some t) : k.Known t := by
  unfold Kind.valueType? at h
  split at h <;> cases h
  · exact .scalar _
  · exact .vector _ _
  · exact .text _
  · exact .void

theorem Kind.slots_eq {k : Kind} {t : ValueType} (h : k.valueType? = some t) :
    t.slots = k.shimParams.length := by
  cases Kind.known h <;> rfl

theorem getD_of_take_one {A : Type} {l : List A} {i : Nat} {a d : A}
    (h : (l.drop i).take 1 = [a]) : l.getD i d = a := by
  have hget := congrArg (fun l => l[0]?) h
  simp only [List.getElem?_take, List.getElem?_drop, Nat.add_zero, Nat.lt_one_iff, if_true,
    List.getElem?_cons_zero] at hget
  rw [List.getD_eq_getElem?_getD, hget]
  rfl

theorem hostParams_cons {d : ParamDecl} {decls : List ParamDecl} {params : List Param}
    (h : hostParams (d :: decls) = some params) :
    ∃ type rest, d.kind.valueType? = some type ∧ hostParams decls = some rest ∧
      params = ⟨d.name.text, type⟩ :: rest := by
  simp only [hostParams] at h
  split at h
  · rename_i type rest htype hrest
    cases h
    exact ⟨type, rest, htype, hrest, rfl⟩
  · cases h

theorem hostParams_length {decls : List ParamDecl} {params : List Param}
    (h : hostParams decls = some params) : params.length = decls.length := by
  induction decls generalizing params with
  | nil =>
    cases h
    rfl
  | cons d decls ih =>
    obtain ⟨type, rest, _, hrest, rfl⟩ := hostParams_cons h
    rw [List.length_cons, List.length_cons, ih hrest]

theorem parseValueType_wireName (k : Kind) : parseValueType k.wireName = k.valueType? := by
  cases k with
  | unit => decide
  | text owned => rfl
  | scalar s =>
    cases s with
    | elem k => cases k <;> decide
    | _ => decide
  | slice s owned =>
    cases owned <;> cases s with
    | elem k => cases k <;> decide
    | _ => decide

theorem parseNames_eq_hostParams (params : List ParamDecl) :
    parseNames (params.map fun p => (p.name.text, p.kind.wireName)) = hostParams params := by
  induction params with
  | nil => rfl
  | cons p rest ih =>
    cases hkind : p.kind.valueType? <;> cases hrest : hostParams rest <;>
      simp [parseNames, hostParams, parseValueType_wireName, ih, hkind, hrest]

/-- The host reads the attribute's document as the declaration, or drops it. -/
theorem parseSignature_metadataDoc (f : FnDecl) :
    parseSignature f.metadataDoc = .ok f.hostSignature := by
  rw [FnDecl.metadataDoc, parseSignature_doc, parseNames_eq_hostParams, parseValueType_wireName]
  rfl

theorem hostParams_isSome_iff (params : List ParamDecl) :
    (hostParams params).isSome ↔ ∀ p ∈ params, p.kind.valueType?.isSome := by
  induction params with
  | nil => simp [hostParams]
  | cons p rest ih =>
    simp only [hostParams, List.forall_mem_cons, ← ih]
    cases p.kind.valueType? <;> cases hostParams rest <;> simp

theorem hostSignature_isSome_iff (f : FnDecl) : f.hostSignature.isSome ↔ f.HostKnown := by
  rw [FnDecl.HostKnown, ← hostParams_isSome_iff, FnDecl.hostSignature]
  cases hostParams f.params <;> cases f.returns.valueType? <;> simp

theorem hostSignature_eq_some {f : FnDecl} {s : Signature} (h : f.hostSignature = some s) :
    hostParams f.params = some s.params ∧ f.returns.valueType? = some s.returns := by
  unfold FnDecl.hostSignature at h
  cases hparams : hostParams f.params with
  | none => simp [hparams] at h
  | some ps =>
    cases hreturns : f.returns.valueType? with
    | none => simp [hparams, hreturns] at h
    | some r =>
      simp only [hparams, hreturns, Option.some.injEq] at h
      subst h
      exact ⟨rfl, rfl⟩

end CrossNative.Rust
