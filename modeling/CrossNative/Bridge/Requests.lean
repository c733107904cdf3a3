import CrossNative.Manifest

/-!
# Two ways to make a request

A declared function is called as `call(name, args)` or as `fns[name](...args)`. The wrapper
converts its arguments; `call` takes those of a declared function as they are. What reaches
the backend is compared as the JSON it is sent as.
-/

namespace CrossNative.Bridge

set_option autoImplicit false

open Basis

/-! ## JSON of arguments -/

/-- A number as `JSON.stringify` writes it: an integer literal, a decimal, or `null`. -/
def numberJson (bits : BitVec 64) : Json :=
  match FloatFormat.binary64.truncate bits.toNat with
  | none => .null
  | some n =>
    if (FloatFormat.binary64.ofInt n = bits.toNat ∨ n = 0 ∧ bits = 0x8000000000000000) ∧
        -2 ^ 63 ≤ n ∧ n < 2 ^ 64 then .int n
    else .float bits

example : numberJson one = .int 1 := by rfl

def View.json : View → Except JsError Json
  | numbers _ elements =>
    .ok (.obj (elements.mapIdx fun i bits => (toString i, numberJson bits)))
  | bigints _ [] | dataView => .ok (.obj [])
  | bigints _ (_ :: _) => .error .engineTypeError

namespace JsArg

mutual

/-- `JSON.stringify`, up to the document; none where there is no text. A view is written as
an object with its indices as keys. -/
def stringify : JsArg → Except JsError (Option Json)
  | undefined | function => .ok none
  | null => .ok (some .null)
  | boolean b => .ok (some (.bool b))
  | number bits => .ok (some (numberJson bits))
  | bigint _ => .error .engineTypeError
  | string s => .ok (some (.str s))
  | throwing reason => .error (.thrown reason)
  | array items => (stringifyItems items).map fun items => some (.arr items)
  | view v => v.json.map some
  | object fields => (stringifyFields fields).map fun fields => some (.obj fields)

def stringifyItems : List JsArg → Except JsError (List Json)
  | [] => .ok []
  | item :: items =>
    match stringify item with
    | .error e => .error e
    | .ok text =>
      match stringifyItems items with
      | .error e => .error e
      | .ok texts => .ok (text.getD .null :: texts)

def stringifyFields : List (String × JsArg) → Except JsError (List (String × Json))
  | [] => .ok []
  | (key, value) :: fields =>
    match stringify value with
    | .error e => .error e
    | .ok text =>
      match stringifyFields fields with
      | .error e => .error e
      | .ok texts => .ok ((text.map fun text => (key, text)).toList ++ texts)

end

def Throws (arg : JsArg) : Prop := ∃ e, arg.stringify = .error e

/-- Neither a boolean nor a view: what the wrapper sends as it is. -/
def Plain : JsArg → Prop
  | boolean _ | view _ => False
  | _ => True

end JsArg

/-! ## The undeclared protocol -/

def NumberArray.name : NumberArray → String
  | float64 => "Float64Array" | float32 => "Float32Array" | float16 => "Float16Array"
  | int32 => "Int32Array" | uint32 => "Uint32Array" | int16 => "Int16Array"
  | uint16 => "Uint16Array" | int8 => "Int8Array" | uint8 => "Uint8Array"
  | uint8Clamped => "Uint8ClampedArray"

def View.constructorName : View → String
  | numbers array _ => array.name
  | bigints signed _ => if signed then "BigInt64Array" else "BigUint64Array"
  | dataView => "DataView"

def typedArrayElementType : NumberArray → Option String
  | .float64 => some "f64" | .float32 => some "f32" | .int32 => some "i32"
  | .uint32 => some "u32" | .int16 => some "i16" | .uint16 => some "u16" | .int8 => some "i8"
  | .uint8 => some "u8" | .float16 | .uint8Clamped => none

def isBufferArg : JsArg → Bool
  | .object fields => fields.any fun field => ["in", "out", "inout"].contains field.1
  | _ => false

section Call

-- The global function `Number`, which only arrays of undeclared functions go through.
variable (number : JsArg → Except JsError (BitVec 64))

def toNumberArray : List JsArg → Except JsError (List JsArg)
  | [] => .ok []
  | item :: items =>
    match number item with
    | .error e => .error e
    | .ok bits =>
      match toNumberArray items with
      | .error e => .error e
      | .ok numbers => .ok (.number bits :: numbers)

def inBuffer (items : List JsArg) (type : String) : JsArg :=
  .object [("in", .array items), ("type", .string type)]

def normalizeArg (arg : JsArg) (index : Nat) : Except JsError JsArg :=
  match arg with
  | .number bits => .ok (.number bits)
  | .boolean b => .ok (.number (if b then one else 0))
  | .view v =>
    let refused : Except JsError JsArg := .error (.typeError ("Argument " ++ toString index ++
      " is a " ++ v.constructorName ++ ", which has no WASM equivalent"))
    match v with
    | .numbers array elements =>
      match typedArrayElementType array with
      | some type => .ok (inBuffer (elements.map .number) type)
      | none => refused
    | _ => refused
  | .array items => (toNumberArray number items).map fun numbers => inBuffer numbers "f64"
  | arg =>
    if isBufferArg arg then .ok arg
    else .error (.typeError ("Argument " ++ toString index ++
      " must be a number, an array, or a buffer helper, got " ++ arg.typeof))

def normalizeArgs : Nat → List JsArg → Except JsError (List JsArg)
  | _, [] => .ok []
  | index, arg :: args =>
    match normalizeArg number arg index with
    | .error e => .error e
    | .ok arg =>
      match normalizeArgs (index + 1) args with
      | .error e => .error e
      | .ok args => .ok (arg :: args)

/-! ## The handle -/

/-- What `call` passes to the backend, or what it throws before. -/
def ModuleHandle.call (handle : ModuleHandle) (disposed : Bool) (method : String)
    (args : List JsArg) : Except JsError (String × List JsArg) :=
  if disposed then .error (.native ("Module '" ++ handle.id ++ "' has been disposed"))
  else if method ∉ handle.functions then
    .error (.native ("Module '" ++ handle.id ++ "' has no exported function '" ++ method ++
      "'. Available: " ++ ", ".intercalate handle.functions))
  else if handle.declares method then .ok (method, args)
  else
    match normalizeArgs number 0 args with
    | .error e => .error e
    | .ok wireArgs => .ok (method, wireArgs)

/-- `fns[name](...args)`. -/
def ModuleHandle.callNamed (handle : ModuleHandle) (disposed : Bool) (name : String)
    (args : List JsArg) : Except JsError (String × List JsArg) :=
  match handle.callables.get name with
  | none => .error .engineTypeError
  | some fn =>
    match fn.apply args with
    | .error e => .error e
    | .ok (method, marshalled) => handle.call number disposed method marshalled

/-- A request on the wire: the method, and the JSON of the arguments if they have one. -/
def sent (request : Except JsError (String × List JsArg)) :
    Except JsError (String × Except JsError (List Json)) :=
  request.map fun (method, args) => (method, JsArg.stringifyItems args)

def SameRequest (handle : ModuleHandle) (disposed : Bool) (name : String) (args : List JsArg) : Prop :=
  sent (handle.call number disposed name args) = sent (handle.callNamed number disposed name args)

end Call

/-! ## What the wrapper changes -/

/-- An accepted argument and what the wrapper makes of it. -/
inductive Converted : JsArg → JsArg → Prop
  | plain {arg} (h : arg.Plain) : Converted arg arg
  | boolean (b : Bool) : Converted (.boolean b) (.number (if b then one else 0))
  | view (v : View) : Converted (.view v) (.array v.elements)

theorem validate_converted {value arg : JsArg} {type functionName paramName : String}
    (h : validate value type functionName paramName = .ok arg) : Converted value arg := by
  unfold validate at h
  simp only at h
  split at h
  · split at h
    · cases h
      exact .plain trivial
    · cases h
  · split at h
    · split at h
      · cases h
        exact .view _
      · cases h
        exact .plain trivial
      · cases h
    · split at h
      · cases h
        exact .boolean _
      · cases h
        exact .plain trivial
      · cases h

theorem marshal_converted {name : String} {params : List SignatureParam} {values args : List JsArg}
    (hlength : values.length = params.length) (h : marshal name params values = .ok args) :
    List.Forall₂ Converted values args := by
  induction params generalizing values args with
  | nil =>
    cases values with
    | nil =>
      cases h
      exact .nil
    | cons value values => cases hlength
  | cons param params ih =>
    cases values with
    | nil => cases hlength
    | cons value values =>
      rw [marshal] at h
      split at h
      · cases h
      · rename_i arg harg
        split at h
        · cases h
        · rename_i rest hrest
          cases h
          exact .cons (validate_converted harg) (ih (Nat.succ.inj hlength) hrest)

theorem apply_converted {fn : NativeFunction} {args marshalled : List JsArg} {method : String}
    (h : fn.apply args = .ok (method, marshalled)) : List.Forall₂ Converted args marshalled := by
  unfold NativeFunction.apply at h
  split at h
  · cases h
  · rename_i hlength
    split at h
    · cases h
    · rename_i values hmarshal
      cases h
      exact marshal_converted (not_not.mp hlength) hmarshal

theorem numberJson_ne_bool (bits : BitVec 64) (b : Bool) : numberJson bits ≠ .bool b := by
  unfold numberJson
  split
  · exact fun h => by cases h
  · split
    · exact fun h => by cases h
    · exact fun h => by cases h

theorem stringifyItems_numbers (elements : List (BitVec 64)) :
    JsArg.stringifyItems (elements.map .number) = .ok (elements.map numberJson) := by
  induction elements with
  | nil => rfl
  | cons bits elements ih =>
    simp only [List.map_cons, JsArg.stringifyItems, JsArg.stringify, ih, Option.getD_some]

/-- Both forms throw the same, or they are the same text exactly for a plain argument. -/
theorem Converted.stringify {arg arg' : JsArg} (h : Converted arg arg') :
    (∃ e, arg.stringify = .error e ∧ arg'.stringify = .error e) ∨
      ∃ text text', arg.stringify = .ok text ∧ arg'.stringify = .ok text' ∧
        (text.getD .null = text'.getD .null ↔ arg.Plain) := by
  cases h with
  | plain hplain =>
    cases hcase : arg.stringify with
    | error e => exact Or.inl ⟨e, rfl, rfl⟩
    | ok text => exact Or.inr ⟨text, text, rfl, rfl, iff_of_true rfl hplain⟩
  | boolean b =>
    refine Or.inr ⟨_, _, by rw [JsArg.stringify], by rw [JsArg.stringify], ?_⟩
    refine iff_of_false (fun heq => ?_) (fun hplain => hplain)
    exact numberJson_ne_bool _ b heq.symm
  | view v =>
    -- An object on one side, an array on the other.
    have hdiffer {fields : List (String × Json)} {items : List Json} (hv : v.json = .ok (.obj fields))
        (hitems : JsArg.stringifyItems v.elements = .ok items) :
        ∃ text text', (JsArg.view v).stringify = .ok text ∧ (JsArg.array v.elements).stringify = .ok text' ∧
          (text.getD .null = text'.getD .null ↔ (JsArg.view v).Plain) := by
      refine ⟨some (.obj fields), some (.arr items), by rw [JsArg.stringify, hv]; rfl,
        by rw [JsArg.stringify, hitems]; rfl, ?_⟩
      exact iff_of_false (fun heq => by cases heq) (fun hplain => hplain)
    cases v with
    | numbers array elements => exact Or.inr (hdiffer rfl (stringifyItems_numbers elements))
    | dataView => exact Or.inr (hdiffer rfl rfl)
    | bigints signed elements =>
      cases elements with
      | nil => exact Or.inr (hdiffer rfl rfl)
      | cons n elements =>
        refine Or.inl ⟨.engineTypeError, by rw [JsArg.stringify]; rfl, ?_⟩
        simp only [View.elements, List.map_cons, JsArg.stringify, JsArg.stringifyItems, Except.map]

theorem stringifyItems_throws (items : List JsArg) :
    (∃ e, JsArg.stringifyItems items = .error e) ↔ ∃ item ∈ items, item.Throws := by
  induction items with
  | nil => simp [JsArg.stringifyItems]
  | cons item items ih =>
    rw [List.exists_mem_cons_iff, ← ih, JsArg.Throws, JsArg.stringifyItems]
    cases item.stringify with
    | error e => simp
    | ok text =>
      cases JsArg.stringifyItems items with
      | error e => simp
      | ok texts => simp

theorem stringifyItems_converted {args marshalled : List JsArg}
    (h : List.Forall₂ Converted args marshalled) :
    JsArg.stringifyItems args = JsArg.stringifyItems marshalled ↔
      (∃ arg ∈ args, arg.Throws) ∨ ∀ arg ∈ args, arg.Plain := by
  induction h with
  | nil => simp
  | @cons arg arg' args marshalled harg _ ih =>
    have hthrows := stringifyItems_throws args
    simp only [JsArg.stringifyItems, List.exists_mem_cons_iff, List.forall_mem_cons]
    rcases harg.stringify with ⟨e, he, he'⟩ | ⟨text, text', htext, htext', hsame⟩
    · rw [he, he']
      exact iff_of_true rfl (Or.inl (Or.inl ⟨e, he⟩))
    · have hquiet : ¬ arg.Throws := by
        rintro ⟨e, he⟩
        rw [htext] at he
        cases he
      rw [htext, htext', ← hsame]
      cases hrest : JsArg.stringifyItems args with
      | error e =>
        have htail := hthrows.mp ⟨e, hrest⟩
        rw [← ih.mpr (Or.inl htail), hrest]
        exact iff_of_true rfl (Or.inl (Or.inr htail))
      | ok texts =>
        have htail : ¬ ∃ item ∈ args, item.Throws := by
          rw [← hthrows, hrest]
          rintro ⟨e, he⟩
          cases he
        rw [hrest] at ih
        simp only [hquiet, htail, false_or] at ih ⊢
        rw [← ih]
        cases JsArg.stringifyItems marshalled with
        | error e => simp
        | ok texts' => simp

/-! ## When the requests are the same -/

theorem append_cancel_middle {a b left right more : String}
    (h : left ++ a ++ right ++ more = left ++ b ++ right ++ more) : a = b := by
  have hlist := congrArg String.toList h
  simp only [String.toList_append] at hlist
  apply String.toList_injective
  exact List.append_cancel_left (List.append_cancel_right (List.append_cancel_right hlist))

theorem callables_declared {id : String} {functions : List String} {manifest : List Json}
    {handle : ModuleHandle} (hcreate : createHandle id functions manifest = .ok handle) {key : String}
    {fn : NativeFunction} (hget : handle.callables.get key = some fn) :
    handle.declares fn.signature.name := by
  unfold createHandle at hcreate
  split at hcreate
  · cases hcreate
  · rename_i read hread
    split at hcreate
    · cases hcreate
    · rename_i callables hbuild
      cases hcreate
      rw [buildCallables_get hbuild] at hget
      obtain ⟨s, hfind, rfl⟩ := Option.map_eq_some_iff.mp hget
      have hmem := List.mem_reverse.mp (List.mem_of_find?_eq_some hfind)
      obtain ⟨i, hi, rfl⟩ := List.mem_iff_getElem.mp hmem
      have hforall := readSignatures_forall hread
      have hdoc : i < manifest.length := by
        rw [hforall.length_eq]
        exact hi
      exact List.mem_map.mpr ⟨manifest[i], List.getElem_mem hdoc,
        readSignature_name (hforall.get hdoc hi)⟩

section Same

variable {number : JsArg → Except JsError (BitVec 64)} {handle : ModuleHandle} {disposed : Bool}

theorem call_declared {method : String} (hdeclared : handle.declares method) (args : List JsArg) :
    handle.call number disposed method args =
      if disposed then .error (.native ("Module '" ++ handle.id ++ "' has been disposed"))
      else if method ∉ handle.functions then
        .error (.native ("Module '" ++ handle.id ++ "' has no exported function '" ++ method ++
          "'. Available: " ++ ", ".intercalate handle.functions))
      else .ok (method, args) := by
  unfold ModuleHandle.call
  rw [if_pos hdeclared]

/-- Two requests to a live handle for different declared functions are told apart. -/
theorem sent_ne_of_name {f g : String} (hf : handle.declares f) (hg : handle.declares g) (hne : f ≠ g)
    (args args' : List JsArg) :
    sent (handle.call number false f args) ≠ sent (handle.call number false g args') := by
  rw [call_declared hf, call_declared hg]
  intro heq
  by_cases hf' : f ∈ handle.functions
  · by_cases hg' : g ∈ handle.functions
    · simp only [Bool.false_eq_true, if_false, hf', hg', not_true_eq_false, sent, Except.map,
        Except.ok.injEq, Prod.mk.injEq] at heq
      exact hne heq.1
    · simp [hf', hg', sent, Except.map] at heq
  · by_cases hg' : g ∈ handle.functions
    · simp [hf', hg', sent, Except.map] at heq
    · simp only [Bool.false_eq_true, if_false, hf', hg', not_false_eq_true, if_true, sent, Except.map,
        Except.error.injEq, JsError.native.injEq] at heq
      exact hne (append_cancel_middle heq)

/-- A function under its own name sends what `call` sends unless an argument is a boolean or
a view; one that an alias has replaced never does. -/
theorem sameRequest_iff {id : String} {functions : List String} {manifest : List Json}
    (hcreate : createHandle id functions manifest = .ok handle) {f : String}
    (hdeclared : handle.declares f) {fn : NativeFunction} (hget : handle.callables.get f = some fn)
    {args marshalled : List JsArg} {method : String}
    (happly : fn.apply args = .ok (method, marshalled)) :
    SameRequest number handle disposed f args ↔
      disposed = true ∨ fn.signature.name = f ∧
        (f ∉ handle.functions ∨ (∃ arg ∈ args, arg.Throws) ∨ ∀ arg ∈ args, arg.Plain) := by
  have hmethod := NativeFunction.apply_method happly
  have hfn := callables_declared hcreate hget
  have hnamed : handle.callNamed number disposed f args = handle.call number disposed method marshalled := by
    simp only [ModuleHandle.callNamed, hget, happly]
  rw [SameRequest, hnamed, hmethod]
  cases disposed with
  | true =>
    refine iff_of_true ?_ (Or.inl rfl)
    rw [call_declared hdeclared, call_declared hfn, if_pos rfl, if_pos rfl]
  | false =>
    simp only [Bool.false_eq_true, false_or]
    by_cases hown : fn.signature.name = f
    · rw [hown, call_declared hdeclared, call_declared hdeclared, ← stringifyItems_converted (apply_converted happly)]
      simp only [Bool.false_eq_true, if_false, true_and]
      by_cases hexported : f ∈ handle.functions
      · simp [hexported, sent, Except.map]
      · simp [hexported]
    · refine iff_of_false ?_ fun h => hown h.1
      exact sent_ne_of_name hdeclared hfn (Ne.symm hown) args marshalled

end Same

def sumManifest : List Json := [signatureDoc "sum_array" [("values", "vec<f64>")] "f64"]

def sumFunction : NativeFunction := ⟨⟨"sum_array", [⟨"values", "vec<f64>"⟩], "f64"⟩⟩

def sumHandle : ModuleHandle where
  id := "compute"
  functions := ["sum_array"]
  declared := [some "sum_array"]
  callables := ⟨[("sumArray", sumFunction), ("sum_array", sumFunction)], none⟩

theorem sumHandle_created : createHandle "compute" ["sum_array"] sumManifest = .ok sumHandle := by rfl

def numberOnly : JsArg → Except JsError (BitVec 64)
  | .number bits => .ok bits
  | _ => .error .engineTypeError

theorem sameRequest_iff_sum :
    SameRequest numberOnly sumHandle false "sum_array" [.array [.number one]] ↔
      false = true ∨ sumFunction.signature.name = "sum_array" ∧
        ("sum_array" ∉ sumHandle.functions ∨ (∃ arg ∈ [JsArg.array [.number one]], arg.Throws) ∨
          ∀ arg ∈ [JsArg.array [.number one]], arg.Plain) := by
  have hdeclared : sumHandle.declares "sum_array" := List.mem_cons_self
  have hget : sumHandle.callables.get "sum_array" = some sumFunction := by decide
  have happly : sumFunction.apply [.array [.number one]] =
      .ok ("sum_array", [.array [.number one]]) := by rfl
  exact sameRequest_iff sumHandle_created hdeclared hget happly

/-- A `Float64Array` is sent as `[1]` by the wrapper and as an object by `call`. -/
theorem sameRequest_fails_sum :
    createHandle "compute" ["sum_array"] sumManifest = .ok sumHandle ∧
      sumHandle.declares "sum_array" ∧
      sumFunction.apply [.view (.numbers .float64 [one])] =
        .ok ("sum_array", [.array [.number one]]) ∧
      ¬ SameRequest numberOnly sumHandle false "sum_array" [.view (.numbers .float64 [one])] := by
  refine ⟨sumHandle_created, List.mem_cons_self, rfl, fun hsame => ?_⟩
  have hcall : sent (sumHandle.call numberOnly false "sum_array" [.view (.numbers .float64 [one])]) =
      .ok ("sum_array", .ok [.obj [("0", .int 1)]]) := by rfl
  have hnamed :
      sent (sumHandle.callNamed numberOnly false "sum_array" [.view (.numbers .float64 [one])]) =
        .ok ("sum_array", .ok [.arr [.int 1]]) := by rfl
  rw [SameRequest, hcall, hnamed] at hsame
  cases hsame

end CrossNative.Bridge
