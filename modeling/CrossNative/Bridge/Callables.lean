import Mathlib.Data.List.Chain
import Mathlib.Data.List.Nodup
import Mathlib.Data.String.Basic

/-!
# Named functions

`buildCallables` makes one function for every signature of a manifest and files it in a
plain JavaScript object, under the declared name and under its camelCase form. What the
object holds in the end depends on the order of the writes.
-/

namespace CrossNative.Bridge

set_option autoImplicit false

/-! ## Arguments -/

/-- The typed arrays whose elements are numbers. -/
inductive NumberArray
  | float64 | float32 | float16 | int32 | uint32 | int16 | uint16 | int8 | uint8 | uint8Clamped
  deriving DecidableEq

/-- `ArrayBuffer.isView`: a typed array of numbers or of bigints, or a `DataView`. -/
inductive View
  | numbers (array : NumberArray) (elements : List (BitVec 64))
  | bigints (signed : Bool) (elements : List Int)
  | dataView
  deriving DecidableEq

/-- A JavaScript value, as far as the bridge tells values apart. -/
inductive JsArg
  | undefined
  | null
  | boolean (b : Bool)
  | number (bits : BitVec 64)
  | bigint (n : Int)
  | string (s : String)
  | function
  | array (items : List JsArg)
  | view (v : View)
  | object (fields : List (String × JsArg))
  /-- An object `JSON.stringify` throws on, as a `toJSON` may. -/
  | throwing (reason : String)

/-- What is thrown: with a text of the source, by the engine, or by code of the caller. -/
inductive JsError
  | typeError (message : String)
  | engineTypeError
  | native (message : String)
  | thrown (reason : String)
  deriving DecidableEq

namespace JsArg

def typeof : JsArg → String
  | undefined => "undefined"
  | boolean _ => "boolean"
  | number _ => "number"
  | bigint _ => "bigint"
  | string _ => "string"
  | function => "function"
  | null | array _ | view _ | object _ | throwing _ => "object"

end JsArg

/-- `Array.from`; a `DataView` has neither an iterator nor a length. -/
def View.elements : View → List JsArg
  | numbers _ elements => elements.map .number
  | bigints _ elements => elements.map .bigint
  | dataView => []

structure SignatureParam where
  name : String
  type : String
  deriving DecidableEq

structure FunctionSignature where
  name : String
  params : List SignatureParam
  returns : String
  deriving DecidableEq

def isVecType (type : String) : Bool := "vec<".toList.isPrefixOf type.toList

def one : BitVec 64 := 0x3FF0000000000000

/-- Check an argument against its declared type, and bring it into the form that is sent. -/
def validate (value : JsArg) (type functionName paramName : String) : Except JsError JsArg :=
  let fail (expected : String) : Except JsError JsArg :=
    .error (.typeError (functionName ++ "(" ++ paramName ++ "): expected " ++ expected ++
      ", got " ++ value.typeof))
  if type = "string" then
    match value with
    | .string s => .ok (.string s)
    | _ => fail "a string"
  else if isVecType type then
    match value with
    | .view v => .ok (.array v.elements)
    | .array items => .ok (.array items)
    | _ => fail "an array"
  else
    match value with
    | .boolean b => .ok (.number (if b then one else 0))
    | .number bits => .ok (.number bits)
    | _ => fail "a number"

/-- A function of `callables`: the closure over its signature. -/
structure NativeFunction where
  signature : FunctionSignature
  deriving DecidableEq

def marshal (functionName : String) : List SignatureParam → List JsArg → Except JsError (List JsArg)
  | param :: params, value :: values =>
    match validate value param.type functionName param.name with
    | .error e => .error e
    | .ok arg =>
      match marshal functionName params values with
      | .error e => .error e
      | .ok args => .ok (arg :: args)
  | _, _ => .ok []

/-- What `fn(...args)` passes to `invoke`, or the error its promise rejects with. -/
def NativeFunction.apply (fn : NativeFunction) (args : List JsArg) :
    Except JsError (String × List JsArg) :=
  if args.length ≠ fn.signature.params.length then
    .error (.typeError (fn.signature.name ++ " expects " ++ toString fn.signature.params.length ++
      " argument(s), got " ++ toString args.length))
  else
    match marshal fn.signature.name fn.signature.params args with
    | .error e => .error e
    | .ok marshalled => .ok (fn.signature.name, marshalled)

theorem NativeFunction.apply_method {fn : NativeFunction} {args marshalled : List JsArg} {method : String}
    (h : fn.apply args = .ok (method, marshalled)) : method = fn.signature.name := by
  unfold NativeFunction.apply at h
  split at h
  · cases h
  · split at h
    · cases h
    · cases h
      rfl

/-! ## Names -/

/-- `[a-z0-9]`. -/
def isLowerOrDigit (c : Char) : Bool := c.isLower || c.isDigit

/-- Replace every `_` before a lower-case letter or a digit, from left to right. -/
def camelChars : List Char → List Char
  | '_' :: c :: rest =>
    if isLowerOrDigit c then c.toUpper :: camelChars rest else '_' :: camelChars (c :: rest)
  | c :: rest => c :: camelChars rest
  | [] => []

def toCamelCase (name : String) : String := String.ofList (camelChars name.toList)

example : toCamelCase "process_dataset_2d" = "processDataset2d" := by decide

theorem isLower_iff {c : Char} : c.isLower = true ↔ 97 ≤ c.toNat ∧ c.toNat ≤ 122 := by
  change (decide ('a'.val ≤ c.val) && decide (c.val ≤ 'z'.val)) = true ↔ _
  simp only [Bool.and_eq_true, decide_eq_true_eq, UInt32.le_iff_toNat_le]
  rfl

theorem isUpper_iff {c : Char} : c.isUpper = true ↔ 65 ≤ c.toNat ∧ c.toNat ≤ 90 := by
  change decide ('A'.val ≤ c.val ∧ c.val ≤ 'Z'.val) = true ↔ _
  simp only [decide_eq_true_eq, UInt32.le_iff_toNat_le]
  rfl

theorem toUpper_of_lower {c : Char} (h : c.isLower = true) : c.toUpper.isUpper = true := by
  obtain ⟨hlow, hhigh⟩ := isLower_iff.mp h
  have hrange : 'a'.val ≤ c.val ∧ c.val ≤ 'z'.val := ⟨hlow, hhigh⟩
  have hshift : ('A'.val - 'a'.val).toNat = 4294967264 := by decide
  have hval : c.toUpper.val = c.val + ('A'.val - 'a'.val) := by
    unfold Char.toUpper
    rw [dif_pos hrange]
  have hnat : c.toUpper.toNat = (c.toNat + 4294967264) % 2 ^ 32 := by
    rw [Char.toNat, hval, UInt32.toNat_add, hshift, Char.toNat]
  rw [isUpper_iff, hnat]
  omega

theorem toUpper_of_not_lower {c : Char} (h : c.isLower = false) : c.toUpper = c := by
  have hrange : ¬ ('a'.val ≤ c.val ∧ c.val ≤ 'z'.val) := by
    intro hin
    rw [isLower_iff.mpr ⟨hin.1, hin.2⟩] at h
    cases h
  unfold Char.toUpper
  rw [dif_neg hrange]

theorem not_lower_of_upper {c : Char} (h : c.isUpper = true) : c.isLower = false := by
  have hrange := isUpper_iff.mp h
  by_contra hlower
  have := isLower_iff.mp (Bool.eq_true_of_not_eq_false hlower)
  omega

theorem not_lower_toUpper (c : Char) : c.toUpper.isLower = false := by
  cases h : c.isLower with
  | true => exact not_lower_of_upper (toUpper_of_lower h)
  | false =>
    rw [toUpper_of_not_lower h]
    exact h

theorem toUpper_of_lowerOrDigit {c : Char} (h : isLowerOrDigit c = true) :
    c.toUpper ≠ '_' ∧ (c.toUpper.isUpper = true ∨ c.toUpper.isDigit = true) := by
  cases hlower : c.isLower with
  | true =>
    have hupper := toUpper_of_lower hlower
    refine ⟨fun heq => ?_, Or.inl hupper⟩
    rw [heq] at hupper
    exact absurd hupper (by decide)
  | false =>
    have hdigit : c.isDigit = true := by
      rw [isLowerOrDigit, hlower, Bool.false_or] at h
      exact h
    rw [toUpper_of_not_lower hlower]
    refine ⟨fun heq => ?_, Or.inr hdigit⟩
    rw [heq] at hdigit
    exact absurd hdigit (by decide)

/-- A name is its own alias unless a capital letter or a digit comes in. -/
theorem camelChars_eq_or (name : List Char) :
    camelChars name = name ∨ ∃ c ∈ camelChars name, c.isUpper = true ∨ c.isDigit = true := by
  fun_induction camelChars name with
  | case1 c rest h ih => exact Or.inr ⟨c.toUpper, List.mem_cons_self, (toUpper_of_lowerOrDigit h).2⟩
  | case2 c rest h ih =>
    rcases ih with heq | ⟨d, hd, hcase⟩
    · exact Or.inl (by rw [heq])
    · exact Or.inr ⟨d, List.mem_cons_of_mem _ hd, hcase⟩
  | case3 c rest h ih =>
    rcases ih with heq | ⟨d, hd, hcase⟩
    · exact Or.inl (by rw [heq])
    · exact Or.inr ⟨d, List.mem_cons_of_mem _ hd, hcase⟩
  | case4 => exact Or.inl rfl

theorem camelChars_head (name : List Char) :
    ∀ d ∈ (camelChars name).head?, d.isLower = true → ∃ rest, name = d :: rest := by
  fun_induction camelChars name with
  | case1 c rest h ih =>
    intro d hd hlower
    cases hd
    rw [not_lower_toUpper] at hlower
    cases hlower
  | case2 c rest h ih =>
    intro d hd _
    cases hd
    exact ⟨_, rfl⟩
  | case3 c rest h ih =>
    intro d hd _
    cases hd
    exact ⟨_, rfl⟩
  | case4 =>
    intro d hd
    cases hd

/-- No underscore is left before a lower-case letter. -/
theorem camelChars_settled (name : List Char) :
    (camelChars name).IsChain fun a b => a = '_' → b.isLower = false := by
  fun_induction camelChars name with
  | case1 c rest h ih =>
    refine List.isChain_cons.mpr ⟨fun d _ heq => ?_, ih⟩
    exact absurd heq (toUpper_of_lowerOrDigit h).1
  | case2 c rest h ih =>
    refine List.isChain_cons.mpr ⟨fun d hd _ => ?_, ih⟩
    by_contra hlower
    rw [Bool.not_eq_false] at hlower
    obtain ⟨rest', heq⟩ := camelChars_head (c :: rest) d hd hlower
    cases heq
    rw [isLowerOrDigit, hlower] at h
    exact h rfl
  | case3 c rest h ih =>
    refine List.isChain_cons.mpr ⟨fun d hd heq => ?_, ih⟩
    by_contra hlower
    rw [Bool.not_eq_false] at hlower
    obtain ⟨rest', rfl⟩ := camelChars_head rest d hd hlower
    exact h d rest' heq rfl
  | case4 => exact .nil

theorem toCamelCase_ne_proto (name : String) : toCamelCase name ≠ "__proto__" := by
  intro heq
  have hchain := camelChars_settled name.toList
  have hlist : camelChars name.toList = "__proto__".toList := by
    rw [← heq, toCamelCase, String.toList_ofList]
  rw [hlist] at hchain
  exact absurd hchain (by decide)

/-! ## The object -/

/-- An object made by `{}`, as the functions filed in it. Assigning to `__proto__` replaces
the prototype. -/
structure JsObject (V : Type) where
  /-- Own properties, latest assignment first. -/
  own : List (String × V)
  prototype : Option V

/-- What a function as a prototype does not let be assigned: its own read-only properties,
and the accessors of `Function.prototype` that throw. -/
def sealedKeys : List String := ["length", "name", "signature", "arguments", "caller"]

namespace JsObject

variable {V : Type}

def empty : JsObject V := ⟨[], none⟩

def set (o : JsObject V) (key : String) (value : V) : Except JsError (JsObject V) :=
  if key = "__proto__" then .ok { o with prototype := some value }
  else if o.prototype.isSome ∧ o.own.lookup key = none ∧ key ∈ sealedKeys then
    .error .engineTypeError
  else .ok { o with own := (key, value) :: o.own }

/-- The function filed under `key`. -/
def get (o : JsObject V) (key : String) : Option V :=
  if key = "__proto__" then o.prototype else o.own.lookup key

theorem get_set {o o' : JsObject V} {key : String} {value : V} (h : o.set key value = .ok o')
    (k : String) : o'.get k = if k = key then some value else o.get k := by
  unfold set at h
  by_cases hproto : key = "__proto__"
  · rw [if_pos hproto] at h
    cases h
    simp only [get, hproto]
    split <;> rfl
  · rw [if_neg hproto] at h
    split at h
    · cases h
    · cases h
      by_cases hk : k = key
      · rw [if_pos hk, get, hk, if_neg hproto, List.lookup_cons_self]
      · have hlookup : List.lookup k ((key, value) :: o.own) = o.own.lookup k := by
          rw [List.lookup_cons, beq_eq_false_iff_ne.mpr hk]
        rw [if_neg hk, get, get, hlookup]

theorem set_ok_iff {o : JsObject V} {key : String} {value : V} :
    (∃ o', o.set key value = .ok o') ↔
      (o.prototype.isSome → key ∈ sealedKeys → o.get key ≠ none) := by
  have hsealed : key ∈ sealedKeys → key ≠ "__proto__" := by
    rintro hkey rfl
    exact absurd hkey (by decide)
  unfold set
  by_cases hproto : key = "__proto__"
  · rw [if_pos hproto]
    exact ⟨fun _ _ hkey => absurd hproto (hsealed hkey), fun _ => ⟨_, rfl⟩⟩
  · rw [if_neg hproto, get, if_neg hproto]
    split
    · rename_i hblocked
      exact ⟨fun ⟨_, h⟩ => (by cases h), fun h => absurd hblocked.2.1 (h hblocked.1 hblocked.2.2)⟩
    · rename_i hfree
      exact ⟨fun _ hsome hkey hnone => hfree ⟨hsome, hnone, hkey⟩, fun _ => ⟨_, rfl⟩⟩

theorem isSome_prototype (o : JsObject V) : o.prototype.isSome = (o.get "__proto__").isSome := rfl

end JsObject

/-- Both names of one signature; the alias only when it is another name. -/
def fileFunction (callables : JsObject NativeFunction) (signature : FunctionSignature) :
    Except JsError (JsObject NativeFunction) :=
  match callables.set signature.name ⟨signature⟩ with
  | .error e => .error e
  | .ok callables =>
    let camel := toCamelCase signature.name
    if camel ≠ signature.name then callables.set camel ⟨signature⟩ else .ok callables

def fileAll : List FunctionSignature → JsObject NativeFunction →
    Except JsError (JsObject NativeFunction)
  | [], callables => .ok callables
  | signature :: manifest, callables =>
    match fileFunction callables signature with
    | .error e => .error e
    | .ok callables => fileAll manifest callables

def buildCallables (manifest : List FunctionSignature) : Except JsError (JsObject NativeFunction) :=
  fileAll manifest .empty

def FunctionSignature.keys (signature : FunctionSignature) : List String :=
  [signature.name, toCamelCase signature.name]

/-- An alias in its own right has a capital letter or a digit. -/
theorem alias_not_sealed {name : String} (h : toCamelCase name ≠ name) :
    toCamelCase name ∉ sealedKeys := by
  rcases camelChars_eq_or name.toList with heq | ⟨c, hc, hcase⟩
  · rw [toCamelCase, heq, String.ofList_toList] at h
    exact absurd rfl h
  · intro hmem
    have hsealed : sealedKeys.all (fun key => key.toList.all fun c => !c.isUpper && !c.isDigit) = true := by
      decide
    have hkey := List.all_eq_true.mp hsealed _ hmem
    rw [toCamelCase, String.toList_ofList] at hkey
    have hchar := List.all_eq_true.mp hkey c hc
    rw [Bool.and_eq_true, Bool.not_eq_true', Bool.not_eq_true'] at hchar
    rcases hcase with hupper | hdigit
    · exact absurd (hupper.symm.trans hchar.1) (by decide)
    · exact absurd (hdigit.symm.trans hchar.2) (by decide)

theorem fileFunction_cases {o o' : JsObject NativeFunction} {s : FunctionSignature}
    (h : fileFunction o s = .ok o') :
    (∃ o₁, o.set s.name ⟨s⟩ = .ok o₁) ∧
      ∀ k, o'.get k = if k ∈ s.keys then some ⟨s⟩ else o.get k := by
  unfold fileFunction at h
  split at h
  · cases h
  · rename_i o₁ hset
    refine ⟨⟨o₁, hset⟩, fun k => ?_⟩
    have hname := JsObject.get_set hset k
    simp only [FunctionSignature.keys, List.mem_cons, List.not_mem_nil, or_false]
    by_cases hcamel : toCamelCase s.name = s.name
    · simp only [hcamel, ne_eq, not_true_eq_false, if_false, Except.ok.injEq] at h
      subst h
      simp only [hname, hcamel, or_self]
    · simp only [ne_eq, hcamel, not_false_eq_true, if_true] at h
      rw [JsObject.get_set h k, hname]
      by_cases hk : k = toCamelCase s.name
      · rw [if_pos hk, if_pos (Or.inr hk)]
      · rw [if_neg hk]
        simp only [hk, or_false]

theorem fileFunction_ok {o : JsObject NativeFunction} {s : FunctionSignature} :
    (∃ o', fileFunction o s = .ok o') ↔ ∃ o₁, o.set s.name ⟨s⟩ = .ok o₁ := by
  constructor
  · rintro ⟨o', h⟩
    exact (fileFunction_cases h).1
  · rintro ⟨o₁, hset⟩
    simp only [fileFunction, hset]
    split
    · rename_i hcamel
      exact JsObject.set_ok_iff.mpr fun _ hkey => absurd hkey (alias_not_sealed hcamel)
    · exact ⟨o₁, rfl⟩

theorem fileAll_get {manifest : List FunctionSignature} {o o' : JsObject NativeFunction}
    (h : fileAll manifest o = .ok o') (k : String) :
    o'.get k = ((manifest.reverse.find? fun s => k ∈ s.keys).map NativeFunction.mk).or (o.get k) := by
  induction manifest generalizing o with
  | nil =>
    cases h
    rfl
  | cons s manifest ih =>
    simp only [fileAll] at h
    split at h
    · cases h
    · rename_i o₁ hfile
      rw [ih h, (fileFunction_cases hfile).2 k, List.reverse_cons, List.find?_append]
      cases hfind : manifest.reverse.find? fun s => k ∈ s.keys with
      | some t => rfl
      | none =>
        by_cases hk : k ∈ s.keys
        · simp [hk]
        · simp [hk]

/-- Every name holds the function of the last signature that writes to it. -/
theorem buildCallables_get {manifest : List FunctionSignature} {callables : JsObject NativeFunction}
    (h : buildCallables manifest = .ok callables) (k : String) :
    callables.get k = (manifest.reverse.find? fun s => k ∈ s.keys).map NativeFunction.mk := by
  rw [fileAll_get h k]
  have hempty : (JsObject.empty : JsObject NativeFunction).get k = none := by
    simp [JsObject.get, JsObject.empty]
  rw [hempty, Option.or_none]

/-! ## Who is reachable -/

/-- Nothing throws while new names are filed unless a function has become the prototype. -/
theorem prototype_fileFunction {o o₁ : JsObject NativeFunction} {s : FunctionSignature}
    (hfile : fileFunction o s = .ok o₁) :
    o₁.prototype.isSome = true ↔ o.prototype.isSome ∨ s.name = "__proto__" := by
  have hget := (fileFunction_cases hfile).2
  rw [JsObject.isSome_prototype, hget, JsObject.isSome_prototype]
  have halias := toCamelCase_ne_proto s.name
  by_cases hname : s.name = "__proto__"
  · simp [FunctionSignature.keys, hname]
  · have hnone : "__proto__" ∉ s.keys := by
      simp [FunctionSignature.keys, Ne.symm hname, halias.symm]
    rw [if_neg hnone]
    simp [hname]

/-- Filing a function does not touch the sealed names of others. -/
theorem get_sealed_fileFunction {o o₁ : JsObject NativeFunction} {s : FunctionSignature}
    (hfile : fileFunction o s = .ok o₁) {name : String} (hkey : name ∈ sealedKeys) (hne : name ≠ s.name) :
    o₁.get name = o.get name := by
  have halias : name ≠ toCamelCase s.name := by
    intro heq
    by_cases hsame : toCamelCase s.name = s.name
    · exact hne (heq.trans hsame)
    · exact alias_not_sealed hsame (heq ▸ hkey)
  rw [(fileFunction_cases hfile).2, if_neg (by simp [FunctionSignature.keys, hne, halias])]

theorem fileAll_ok_iff {manifest : List FunctionSignature} {o : JsObject NativeFunction}
    (hdistinct : (manifest.map FunctionSignature.name).Nodup)
    (hnew : ∀ s ∈ manifest, s.name ∈ sealedKeys → o.get s.name = none) :
    (∃ o', fileAll manifest o = .ok o') ↔
      (o.prototype.isSome → ∀ s ∈ manifest, s.name ∉ sealedKeys) ∧
        manifest.Pairwise fun s t => ¬ (s.name = "__proto__" ∧ t.name ∈ sealedKeys) := by
  induction manifest generalizing o with
  | nil => exact ⟨fun _ => ⟨by simp, .nil⟩, fun _ => ⟨o, rfl⟩⟩
  | cons s manifest ih =>
    obtain ⟨hfirst, hrest⟩ := List.nodup_cons.mp hdistinct
    obtain ⟨hnewHead, hnewTail⟩ := List.forall_mem_cons.mp hnew
    have hhead : (∃ o₁, fileFunction o s = .ok o₁) ↔ (o.prototype.isSome → s.name ∉ sealedKeys) := by
      rw [fileFunction_ok, JsObject.set_ok_iff]
      exact ⟨fun h hsome hkey => h hsome hkey (hnewHead hkey), fun h hsome hkey => absurd hkey (h hsome)⟩
    -- Later names are as new as before, and the prototype may have been replaced.
    have hstep {o₁ : JsObject NativeFunction} (hfile : fileFunction o s = .ok o₁) :
        (∃ o', fileAll manifest o₁ = .ok o') ↔
          (o.prototype.isSome ∨ s.name = "__proto__" → ∀ t ∈ manifest, t.name ∉ sealedKeys) ∧
            manifest.Pairwise fun s t => ¬ (s.name = "__proto__" ∧ t.name ∈ sealedKeys) := by
      rw [ih hrest]
      · rw [prototype_fileFunction hfile]
      · intro t ht hkey
        have hne : t.name ≠ s.name := fun heq => hfirst (heq ▸ List.mem_map_of_mem ht)
        rw [get_sealed_fileFunction hfile hkey hne]
        exact hnewTail t ht hkey
    have hunfold : (∃ o', fileAll (s :: manifest) o = .ok o') ↔
        ∃ o₁, fileFunction o s = .ok o₁ ∧ ∃ o', fileAll manifest o₁ = .ok o' := by
      simp only [fileAll]
      cases fileFunction o s with
      | error e => simp
      | ok o₁ => simp
    rw [hunfold, List.pairwise_cons]
    constructor
    · rintro ⟨o₁, hfile, hall⟩
      obtain ⟨hsealed, hpairs⟩ := (hstep hfile).mp hall
      refine ⟨fun hsome => List.forall_mem_cons.mpr ⟨hhead.mp ⟨o₁, hfile⟩ hsome, hsealed (Or.inl hsome)⟩,
        fun t ht hbad => hsealed (Or.inr hbad.1) t ht hbad.2, hpairs⟩
    · rintro ⟨hsealed, hproto, hpairs⟩
      obtain ⟨o₁, hfile⟩ := hhead.mpr fun hsome => (List.forall_mem_cons.mp (hsealed hsome)).1
      refine ⟨o₁, hfile, (hstep hfile).mpr ⟨fun hcase t ht hkey => ?_, hpairs⟩⟩
      rcases hcase with hsome | hname
      · exact (List.forall_mem_cons.mp (hsealed hsome)).2 t ht hkey
      · exact hproto t ht ⟨hname, hkey⟩

/-- Every declared function stands under its own name, and under its alias where no other
signature lays claim to it. -/
def Reachable (manifest : List FunctionSignature) : Prop :=
  ∃ callables, buildCallables manifest = .ok callables ∧
    (∀ s ∈ manifest, callables.get s.name = some ⟨s⟩) ∧
    ∀ s ∈ manifest,
      (∀ t ∈ manifest, t ≠ s → t.name ≠ toCamelCase s.name ∧ toCamelCase t.name ≠ toCamelCase s.name) →
      callables.get (toCamelCase s.name) = some ⟨s⟩

/-- No later alias is an earlier name, and no `__proto__` comes before a name that a function
as the prototype does not let be assigned. -/
def Clear (manifest : List FunctionSignature) : Prop :=
  manifest.Pairwise fun s t =>
    toCamelCase t.name ≠ s.name ∧ ¬ (s.name = "__proto__" ∧ t.name ∈ sealedKeys)

theorem find_reverse_eq_some {manifest : List FunctionSignature} {p : FunctionSignature → Bool}
    {s : FunctionSignature} :
    manifest.reverse.find? p = some s ↔
      p s = true ∧ ∃ before after, manifest = before ++ s :: after ∧ ∀ t ∈ after, p t = false := by
  rw [List.find?_eq_some_iff_append]
  refine and_congr_right fun _ => ⟨?_, ?_⟩
  · rintro ⟨later, earlier, hsplit, hnone⟩
    refine ⟨earlier.reverse, later.reverse, ?_, fun t ht => ?_⟩
    · rw [← List.reverse_reverse manifest, hsplit]
      simp
    · simpa using hnone t (List.mem_reverse.mp ht)
  · rintro ⟨before, after, rfl, hnone⟩
    refine ⟨after.reverse, before.reverse, by simp, fun t ht => ?_⟩
    simpa using hnone t (List.mem_reverse.mp ht)

theorem pairwise_iff_split {A : Type} {R : A → A → Prop} {l : List A} :
    l.Pairwise R ↔ ∀ before a after, l = before ++ a :: after → ∀ b ∈ after, R a b := by
  constructor
  · rintro h before a after rfl
    exact (List.pairwise_cons.mp (List.pairwise_append.mp h).2.1).1
  · intro h
    induction l with
    | nil => exact .nil
    | cons a l ih =>
      refine List.pairwise_cons.mpr ⟨h [] a l rfl, ih fun before b after hsplit => ?_⟩
      exact h (a :: before) b after (by rw [hsplit, List.cons_append])

/-- A name holds the function of `s` exactly if nothing after `s` writes to it. -/
theorem get_key_iff {manifest : List FunctionSignature} (hnodup : manifest.Nodup)
    {callables : JsObject NativeFunction} (hbuild : buildCallables manifest = .ok callables)
    {s : FunctionSignature} {k : String} (hk : k ∈ s.keys) {before after : List FunctionSignature}
    (hsplit : manifest = before ++ s :: after) :
    callables.get k = some ⟨s⟩ ↔ ∀ t ∈ after, k ∉ t.keys := by
  have hget : callables.get k = some ⟨s⟩ ↔ manifest.reverse.find? (fun t => k ∈ t.keys) = some s := by
    rw [buildCallables_get hbuild]
    simp
  rw [hget, find_reverse_eq_some]
  constructor
  · rintro ⟨_, before', after', hsplit', hnone⟩
    have hs : s ∉ before ∧ s ∉ after := by
      rw [hsplit] at hnodup
      have hcons := List.nodup_cons.mp (List.nodup_append.mp hnodup).2.1
      exact ⟨fun hmem => (List.nodup_append.mp hnodup).2.2 s hmem s List.mem_cons_self rfl, hcons.1⟩
    rw [hsplit, List.append_cons_inj_of_notMem hs.1 hs.2] at hsplit'
    obtain ⟨_, _, rfl⟩ := hsplit'
    exact fun t ht => by simpa using hnone t ht
  · exact fun hnone => ⟨by simpa using hk, before, after, hsplit, fun t ht => by simpa using hnone t ht⟩

theorem name_ne_of_later {manifest : List FunctionSignature}
    (hdistinct : (manifest.map FunctionSignature.name).Nodup) {s : FunctionSignature}
    {before after : List FunctionSignature} (hsplit : manifest = before ++ s :: after)
    {t : FunctionSignature} (ht : t ∈ after) : t.name ≠ s.name := by
  rw [hsplit, List.map_append, List.map_cons] at hdistinct
  have hs := (List.nodup_cons.mp (List.nodup_append.mp hdistinct).2.1).1
  exact fun heq => hs (heq ▸ List.mem_map_of_mem ht)

theorem reachable_iff_clear (manifest : List FunctionSignature)
    (hdistinct : (manifest.map FunctionSignature.name).Nodup) : Reachable manifest ↔ Clear manifest := by
  have hbuilt : (∃ callables, buildCallables manifest = .ok callables) ↔
      manifest.Pairwise fun s t => ¬ (s.name = "__proto__" ∧ t.name ∈ sealedKeys) := by
    rw [buildCallables, fileAll_ok_iff hdistinct (by simp [JsObject.get, JsObject.empty])]
    simp [JsObject.empty]
  have hnodup : manifest.Nodup := hdistinct.of_map
  have hname (s : FunctionSignature) : s.name ∈ s.keys := List.mem_cons_self
  have halias (s : FunctionSignature) : toCamelCase s.name ∈ s.keys :=
    List.mem_cons_of_mem _ List.mem_cons_self
  constructor
  · rintro ⟨callables, hbuild, hnames, _⟩
    refine List.Pairwise.and (pairwise_iff_split.mpr ?_) (hbuilt.mp ⟨callables, hbuild⟩)
    intro before s after hsplit t ht heq
    have hmem : s ∈ manifest := by
      rw [hsplit]
      exact List.mem_append_right _ List.mem_cons_self
    apply (get_key_iff hnodup hbuild (hname s) hsplit).mp (hnames s hmem) t ht
    rw [← heq]
    exact halias t
  · intro hclear
    obtain ⟨callables, hbuild⟩ := hbuilt.mpr (hclear.imp And.right)
    have hpairs := pairwise_iff_split.mp hclear
    refine ⟨callables, hbuild, fun s hs => ?_, fun s hs hfree => ?_⟩
    · obtain ⟨before, after, hsplit⟩ := List.append_of_mem hs
      rw [get_key_iff hnodup hbuild (hname s) hsplit]
      intro t ht
      have hne := name_ne_of_later hdistinct hsplit ht
      simp [FunctionSignature.keys, hne.symm, (hpairs _ _ _ hsplit t ht).1.symm]
    · obtain ⟨before, after, hsplit⟩ := List.append_of_mem hs
      rw [get_key_iff hnodup hbuild (halias s) hsplit]
      intro t ht
      have hmem : t ∈ manifest := by
        rw [hsplit]
        exact List.mem_append_right _ (List.mem_cons_of_mem _ ht)
      have hne : t ≠ s := fun heq =>
        name_ne_of_later hdistinct hsplit ht (congrArg FunctionSignature.name heq)
      obtain ⟨hname, hcamel⟩ := hfree t hmem hne
      simp [FunctionSignature.keys, hname.symm, hcamel.symm]

def scaleManifest : List FunctionSignature :=
  [⟨"scale_all", [⟨"values", "vec<f64>"⟩, ⟨"by", "f64"⟩], "vec<f64>"⟩, ⟨"scale", [⟨"x", "f64"⟩], "f64"⟩]

theorem reachable_iff_clear_scale : Reachable scaleManifest ↔ Clear scaleManifest :=
  reachable_iff_clear scaleManifest (by decide)

/-- `aB` is declared before `a_b`, whose alias it is. -/
def collidingManifest : List FunctionSignature :=
  [⟨"aB", [⟨"x", "f64"⟩], "f64"⟩, ⟨"a_b", [], "f64"⟩]

theorem not_reachable_colliding :
    (collidingManifest.map FunctionSignature.name).Nodup ∧ ¬ Reachable collidingManifest := by
  refine ⟨by decide, ?_⟩
  rintro ⟨callables, hbuild, hnames, _⟩
  have hlost : buildCallables collidingManifest =
      .ok ⟨[("aB", ⟨⟨"a_b", [], "f64"⟩⟩), ("a_b", ⟨⟨"a_b", [], "f64"⟩⟩),
        ("aB", ⟨⟨"aB", [⟨"x", "f64"⟩], "f64"⟩⟩)], none⟩ := by rfl
  rw [hlost] at hbuild
  cases hbuild
  have hown := hnames ⟨"aB", [⟨"x", "f64"⟩], "f64"⟩ List.mem_cons_self
  exact absurd hown (by decide)

end CrossNative.Bridge
