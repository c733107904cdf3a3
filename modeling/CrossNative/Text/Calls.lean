import CrossNative.Rust.Agreement
import CrossNative.Text.Wire

/-!
# Calls of a WASM module as texts

`WasmRuntime::call` from the text of the arguments to the text of the envelope. Whatever a call
leaves in its envelope can be printed, except a returned string that is not UTF-8.
-/

namespace CrossNative.Wire

set_option autoImplicit false

open Basis Text

variable {σ : Type}

/-- The runtime with the library's own parser and printer; `readManifest` drops a parser's message. -/
def textEnv (P : Platform) : Env where
  platform := P
  parse text :=
    match Text.parse text with
    | .ok doc => .ok doc
    | .error _ => .error "parse error"
  dumpError text :=
    match Serializer.dumpEscaped text with
    | .error (.thrown what) => (textOf? what).getD ""
    | _ => ""

/-- A returned string is dumped as the bytes it is. -/
def dumpReturned : Returned → Except Abort (List UInt8)
  | .json j => Serializer.dump j
  | .bytes text => do
    let text ← Serializer.dumpEscaped text
    .ok (quote :: text ++ [quote])

/-- `dump` of the response of a call that succeeded. -/
def dumpSuccess (result : Returned) (outputs : List Json) : Except Abort (List UInt8) := do
  let outputs ← Serializer.dump (.arr outputs)
  let result ← dumpReturned result
  .ok (bytesOf "\x7b\"outputs\":" ++ outputs ++ bytesOf ",\"result\":" ++ result ++ bytesOf ",\"success\":true\x7d")

def readCallText (P : Platform) (g : Guest σ) (sig : Option Signature) (results : List Val) :
    HostProc σ (Except Abort (List UInt8)) := do
  let outputs ← Proc.mapFault (prefixReason "reading output buffers") (ArgumentBinder.readOutputs P)
  let result ← readResult P g sig results
  pure (dumpSuccess result outputs)

/-- Everything between the construction of the binder and its destruction. -/
def runCallText (P : Platform) (g : Guest σ) (entry : ModuleEntry) (func : Func) (args : List Json) :
    HostProc σ (Except Abort (List UInt8)) := do
  let sig := entry.signatures.lookup func.name
  bindCall (textEnv P) g func args sig
  let h ← Proc.get
  let reply ← callWasmA g func func.type.results.length h.vals
  record (.finished func.name reply.toOption)
  match reply with
  | .error exc => Proc.fail (callFailure exc)
  | .ok results => readCallText P g sig results

/-- `errorResult(reason).dump()`. -/
def dumpError (reason : List UInt8) : Except Abort (List UInt8) := dumpFailure reason [("success", .bool false)]

/-- What is returned or thrown: a reported reason becomes an envelope, an exception leaves the call. -/
def returned (reply : Except Fault (Except Abort (List UInt8))) : Except Abort (List UInt8) :=
  match reply with
  | .ok text => text
  | .error (.error reason) => dumpError (bytesOf reason)
  | .error (.exception what) => .error (.thrown (bytesOf what))

/-- Run a call with a fresh binder and destroy the binder however the call ends. -/
def withBinderText (g : Guest σ) (body : HostProc σ (Except Abort (List UInt8))) (h : Host σ) :
    Except Abort (List UInt8) × Host σ :=
  let (reply, h₁) := body { h with vals := [], allocations := [] }
  let h₂ := (freeBlocks g h₁.allocations h₁).2
  (returned reply, { h₂ with vals := [], allocations := [] })

/-- `WasmRuntime::call` from the point where the module entry is found. -/
def wasmCall (P : Platform) (g : Guest σ) (entry : ModuleEntry) (moduleId functionName : String)
    (argsJson : List UInt8) (h : Host σ) : Except Abort (List UInt8) × Host σ :=
  match Text.parse argsJson with
  | .error what => (dumpError (bytesOf "invalid args JSON: " ++ what), h)
  | .ok (.arr items) =>
    match g.lookup functionName with
    | none => (dumpError (bytesOf ("Function '" ++ functionName ++ "' not found in module '" ++ moduleId ++ "'")), h)
    | some func => withBinderText g (runCallText P g entry func items) h
  | .ok _ => (dumpError (bytesOf "args must be a JSON array"), h)

/-- The document of an envelope. -/
def envelopeJson : Envelope → Json
  | .success result outputs => .obj [("outputs", .arr outputs), ("result", result), ("success", .bool true)]
  | .failure error => .obj [("error", .str error), ("success", .bool false)]

/-- The outcome on documents, as a text. -/
def printed : Except Fault Envelope → Except Abort (List UInt8)
  | .ok envelope => Serializer.dump (envelopeJson envelope)
  | .error fault => .error (.thrown (bytesOf fault.what))

/-! ## Printing what prints as null -/

theorem dumpItems_cons (j j' : Json) (items : List Json) :
    Serializer.dumpItems (j :: j' :: items) =
      (Serializer.dump j >>= fun text =>
        Serializer.dumpItems (j' :: items) >>= fun texts => .ok (text ++ 0x2C :: texts)) := by
  rw [Serializer.dumpItems]
  simp

theorem dumpFields_cons (field field' : String × Json) (fields : List (String × Json)) :
    Serializer.dumpFields (field :: field' :: fields) =
      (Serializer.dumpString field.1 >>= fun name => Serializer.dump field.2 >>= fun text =>
        Serializer.dumpFields (field' :: fields) >>= fun texts => .ok (name ++ 0x3A :: (text ++ 0x2C :: texts))) := by
  rw [Serializer.dumpFields]
  simp

theorem dumpItems_dump {items : List Json} (h : ∀ j ∈ items, Serializer.dump j.dump = Serializer.dump j) :
    Serializer.dumpItems (items.map Json.dump) = Serializer.dumpItems items := by
  induction items with
  | nil => rfl
  | cons j items ih =>
    obtain ⟨hj, hitems⟩ := List.forall_mem_cons.mp h
    cases items with
    | nil => exact hj
    | cons j' items =>
      have hrest := ih hitems
      rw [List.map_cons] at hrest
      rw [List.map_cons, List.map_cons, dumpItems_cons, dumpItems_cons, hj, hrest]

theorem dumpFields_dump {fields : List (String × Json)}
    (h : ∀ field ∈ fields, Serializer.dump field.2.dump = Serializer.dump field.2) :
    Serializer.dumpFields (fields.map fun field => (field.1, field.2.dump)) = Serializer.dumpFields fields := by
  induction fields with
  | nil => rfl
  | cons field fields ih =>
    obtain ⟨hfield, hfields⟩ := List.forall_mem_cons.mp h
    cases fields with
    | nil =>
      rw [List.map_cons, List.map_nil, Serializer.dumpFields, Serializer.dumpFields, hfield]
    | cons field' fields =>
      have hrest := ih hfields
      rw [List.map_cons] at hrest
      rw [List.map_cons, List.map_cons, dumpFields_cons, dumpFields_cons, hfield, hrest]

theorem dump_dump {j : Json} (h : Stored j) : Serializer.dump j.dump = Serializer.dump j := by
  induction h with
  | null => rfl
  | bool b => rfl
  | int hlow hhigh => rw [Json.dump_int]
  | str s => rfl
  | float bits =>
    rw [Json.dump]
    split
    · rfl
    · rename_i hfinite
      rw [Serializer.dump, Serializer.dump, Serializer.dumpFloat, if_neg hfinite]
  | @arr items h ih =>
    rw [Json.dump, Json.dumpItems_eq_map, Serializer.dump, Serializer.dump, dumpItems_dump ih]
    cases items <;> rfl
  | @obj fields hsorted h ih =>
    rw [Json.dump, Json.dumpFields_eq_map, Serializer.dump, Serializer.dump, dumpFields_dump ih]
    cases fields <;> rfl

theorem settled_dump {j : Json} (h : Stored j) : Settled j.dump := by
  obtain ⟨text, -, hdenotes, -⟩ := h.denotes
  exact hdenotes.settled

/-! ## What a call puts into its envelope -/

theorem stored_elemToJson {k : ElemKind} (v : Elem k) : Stored (elemToJson v) := by
  have hsigned {w : Nat} (hw : w ≤ 64) (x : BitVec w) : Stored (.int x.toInt) := by
    have hpow : (2 : Int) ^ (w - 1) ≤ 2 ^ 63 := pow_le_pow_right₀ (by decide) (by omega)
    have hlow := x.le_toInt
    have hhigh := x.toInt_lt
    exact .int (by omega) (by omega)
  have hunsigned {w : Nat} (hw : w ≤ 64) (x : BitVec w) : Stored (.int x.toNat) := by
    have hpow : 2 ^ w ≤ 2 ^ 64 := Nat.pow_le_pow_right (by decide) hw
    have hx := x.isLt
    exact .int (by omega) (by omega)
  cases k with
  | f64 => exact .float v
  | f32 => exact .float _
  | i32 | i64 | i16 | i8 => exact hsigned (by decide) v
  | u32 | u64 | u16 | u8 => exact hunsigned (by decide) v

theorem stored_valToJson (v : Val) : Stored (valToJson v) := by
  cases v with
  | i32 x => exact stored_elemToJson (k := .i32) x
  | i64 x => exact stored_elemToJson (k := .i64) x
  | f32 x => exact .float _
  | f64 x => exact .float x
  | foreign _ => exact .null

theorem stored_readReturnValues (rets : List Val) : Stored (readReturnValues rets) := by
  unfold readReturnValues
  split
  · exact .null
  · exact stored_valToJson _
  · refine .arr ?_
    intro j hj
    obtain ⟨v, -, rfl⟩ := List.mem_map.mp hj
    exact stored_valToJson v

def AllStored (items : List Json) : Prop := ∀ j ∈ items, Stored j

def ReturnedStored : Returned → Prop
  | .json j => Stored j
  | .bytes _ => True

open Proc

theorem readElems_gives (P : Platform) (kind : ElemKind) (mem e n : Nat) :
    Gives AllStored (readElems (σ := σ) P kind mem e n) := by
  induction n generalizing e with
  | zero => exact .pure (by simp [AllStored])
  | succ n ih =>
    refine (Gives.any _).bind fun bs _ => (ih (e + 1)).bind fun rest hrest => .pure ?_
    exact List.forall_mem_cons.mpr ⟨stored_elemToJson _, hrest⟩

theorem readBlocks_gives (P : Platform) (blocks : List Allocation) : Gives AllStored (readBlocks (σ := σ) P blocks) := by
  induction blocks with
  | nil => exact .pure (by simp [AllStored])
  | cons a rest ih =>
    rw [readBlocks]
    split
    · refine (Gives.any _).bind fun mem _ => ?_
      split
      · refine (readElems_gives P _ _ _ _).bind fun values hvalues => ih.bind fun others hothers => .pure ?_
        exact List.forall_mem_cons.mpr ⟨.arr hvalues, hothers⟩
      · exact .fail _
    · exact ih

theorem readOutputs_gives (P : Platform) : Gives AllStored (ArgumentBinder.readOutputs (σ := σ) P) :=
  (Gives.any _).bind fun h _ => readBlocks_gives P h.allocations

theorem readTypedReturn_gives (P : Platform) (g : Guest σ) (returns : ValueType) (results : List Val) :
    Gives ReturnedStored (readTypedReturn P g returns results) := by
  unfold readTypedReturn
  cases returns with
  | void => exact .pure .null
  | scalar e => exact .pure (stored_readReturnValues results)
  | text =>
    dsimp only
    split
    · exact .pure trivial
    · refine (Gives.any _).bind fun _ _ => (Gives.any _).bind fun mem _ => ?_
      split
      · exact (Gives.any _).bind fun _ _ => (Gives.any _).bind fun _ _ => .pure trivial
      · exact .fail _
  | vector e =>
    dsimp only
    split
    · exact .pure (.arr (by simp))
    · refine (Gives.any _).bind fun _ _ => (Gives.any _).bind fun mem _ => ?_
      split
      · exact (readElems_gives P _ _ _ _).bind fun values hvalues => (Gives.any _).bind fun _ _ => .pure (.arr hvalues)
      · exact .fail _

theorem readResult_gives (P : Platform) (g : Guest σ) (sig : Option Signature) (results : List Val) :
    Gives ReturnedStored (readResult P g sig results) := by
  cases sig with
  | none => exact .pure (stored_readReturnValues results)
  | some sig => exact (readTypedReturn_gives P g sig.returns results).mapFault _

def EnvelopeSettled : Envelope → Prop
  | .success result outputs => Settled result ∧ ∀ j ∈ outputs, Settled j
  | .failure _ => True

theorem respond_gives {env : Env} {result : Returned} {outputs : List Json} (hresult : ReturnedStored result)
    (houtputs : AllStored outputs) {envelope : Envelope} (h : respond env result outputs = .ok envelope) :
    EnvelopeSettled envelope := by
  have hsettled : ∀ j ∈ outputs.map Json.dump, Settled j := by
    intro j hj
    obtain ⟨output, houtput, rfl⟩ := List.mem_map.mp hj
    exact settled_dump (houtputs output houtput)
  cases result with
  | json j =>
    obtain rfl := Except.ok.inj h
    exact ⟨settled_dump hresult, hsettled⟩
  | bytes text =>
    rw [respond] at h
    split at h
    · obtain rfl := Except.ok.inj h
      exact ⟨settled_str _, hsettled⟩
    · cases h

theorem readCall_gives (env : Env) (g : Guest σ) (sig : Option Signature) (results : List Val) :
    Gives EnvelopeSettled (readCall env g sig results) := by
  refine ((readOutputs_gives env.platform).mapFault _).bind fun outputs houtputs => ?_
  refine (readResult_gives env.platform g sig results).bind fun result hresult => ?_
  exact .lift fun envelope h => respond_gives hresult houtputs h

theorem runCall_gives (env : Env) (g : Guest σ) (entry : ModuleEntry) (func : Func) (args : List Json) :
    Gives EnvelopeSettled (runCall env g entry func args) := by
  unfold runCall
  refine (Gives.any _).bind fun _ _ => (Gives.any _).bind fun h _ => (Gives.any _).bind fun reply _ =>
    (Gives.any _).bind fun _ _ => ?_
  cases reply with
  | error exc => exact .fail _
  | ok results => exact readCall_gives env g _ results

/-- Every envelope of a call settles. -/
theorem callEntry_gives (env : Env) (g : Guest σ) (entry : ModuleEntry) (moduleId functionName : String)
    (args : Except String Json) : Gives EnvelopeSettled (callEntry env g entry moduleId functionName args) := by
  unfold callEntry
  split
  · exact .pure trivial
  · split
    · exact .pure trivial
    · rename_i items _ func _
      intro h h' envelope henvelope
      have hbody := runCall_gives env g entry func items { h with vals := [], allocations := [] }
      unfold withBinder at henvelope
      cases hrun : runCall env g entry func items { h with vals := [], allocations := [] } with
      | mk reply h₁ =>
        rw [hrun] at henvelope
        cases reply with
        | ok envelope' =>
          obtain rfl := Except.ok.inj (congrArg Prod.fst henvelope)
          exact hbody h₁ envelope' hrun
        | error fault =>
          cases fault with
          | error reason =>
            obtain rfl := Except.ok.inj (congrArg Prod.fst henvelope)
            trivial
          | exception what => cases congrArg Prod.fst henvelope
  · exact .pure trivial

/-! ## What it prints -/

theorem dump_response (outputs result : Json) :
    Serializer.dump (.obj [("outputs", outputs), ("result", result), ("success", .bool true)]) =
      (Serializer.dump outputs >>= fun outputs => Serializer.dump result >>= fun result =>
        .ok (bytesOf "\x7b\"outputs\":" ++ outputs ++ bytesOf ",\"result\":" ++ result ++
          bytesOf ",\"success\":true\x7d")) := by
  have houtputs : Serializer.dumpString "outputs" = .ok (bytesOf "\"outputs\"") := rfl
  have hresult : Serializer.dumpString "result" = .ok (bytesOf "\"result\"") := rfl
  have hsuccess : Serializer.dumpFields [("success", .bool true)] = .ok (bytesOf "\"success\":true") := by
    rw [Serializer.dumpFields]
    rfl
  have hopening : bytesOf "\x7b\"outputs\":" = 0x7B :: (bytesOf "\"outputs\"" ++ [0x3A]) := rfl
  have hbetween : bytesOf ",\"result\":" = 0x2C :: (bytesOf "\"result\"" ++ [0x3A]) := rfl
  have hclosing : bytesOf ",\"success\":true\x7d" = 0x2C :: (bytesOf "\"success\":true" ++ [0x7D]) := rfl
  rw [Serializer.dump, dumpFields_cons, dumpFields_cons, houtputs, hresult, hsuccess, hopening, hbetween, hclosing]
  cases Serializer.dump outputs with
  | error abort => rfl
  | ok outputs =>
    cases Serializer.dump result with
    | error abort => rfl
    | ok result => simp [bind, Except.bind]

/-- The text of a response is that of the document, and a returned string that is not UTF-8 throws
in the one case as in the other. -/
theorem dumpSuccess_eq (P : Platform) {result : Returned} {outputs : List Json} (hresult : ReturnedStored result)
    (houtputs : AllStored outputs) :
    dumpSuccess result outputs = printed (respond (textEnv P) result outputs) := by
  have harr : Serializer.dump (.arr (outputs.map Json.dump)) = Serializer.dump (.arr outputs) := by
    have hdump := dump_dump (Stored.arr houtputs)
    rwa [Json.dump, Json.dumpItems_eq_map] at hdump
  obtain ⟨printedOutputs, hprinted, -⟩ := (Stored.arr houtputs).denotes
  cases result with
  | json j =>
    rw [respond, printed, envelopeJson, dump_response, harr, dump_dump hresult]
    rfl
  | bytes text =>
    rw [dumpSuccess, hprinted, dumpReturned]
    cases htext : textOf? text with
    | some s =>
      have hrespond : respond (textEnv P) (.bytes text) outputs = .ok (.success (.str s) (outputs.map Json.dump)) := by
        rw [respond, ← textOf?, htext]
      rw [hrespond, printed, envelopeJson, dump_response, harr, hprinted, Serializer.dump, Serializer.dumpString,
        bytesOf_of_textOf? htext]
    | none =>
      have hnot : ¬ IsUtf8 text := by
        intro hutf
        have hsome := textOf?_isSome.mpr hutf
        rw [htext] at hsome
        cases hsome
      obtain ⟨message, hthrown, hmessage⟩ := Serializer.dumpEscaped_not_utf8 hnot
      have hwhat : IsUtf8 (bytesOf "[json.exception.type_error.316] " ++ message) := (isUtf8_bytesOf _).append hmessage
      obtain ⟨what, hsome⟩ := Option.isSome_iff_exists.mp (textOf?_isSome.mpr hwhat)
      have herror : (textEnv P).dumpError text = what := by
        simp only [textEnv, hthrown, Serializer.typeError316, hsome, Option.getD_some]
      have hrespond : respond (textEnv P) (.bytes text) outputs = .error (.exception what) := by
        rw [respond, ← textOf?, htext, herror]
      rw [hrespond, hthrown, printed, Fault.what, bytesOf_of_textOf? hsome]
      rfl

/-! ## The call on texts is the call on documents -/

/-- What `withBinder` makes of the outcome of a body. -/
def reported : Except Fault Envelope → Except Fault Envelope
  | .error (.error reason) => .ok (.failure reason)
  | reply => reply

/-- The computations end in one state, and the first returns the text of what the second returns. -/
def SamePrint (text : HostProc σ (Except Abort (List UInt8))) (doc : HostProc σ Envelope) : Prop :=
  ∀ h, returned (text h).1 = printed (reported (doc h).1) ∧ (text h).2 = (doc h).2

theorem dumpError_eq (reason : String) : dumpError (bytesOf reason) = printed (.ok (.failure reason)) :=
  dumpFailure_text reason _ _

theorem SamePrint.fault (fault : Fault) : returned (.error fault) = printed (reported (.error fault)) := by
  cases fault with
  | error reason => exact dumpError_eq reason
  | exception what => rfl

theorem SamePrint.fail (fault : Fault) : SamePrint (σ := σ) (Proc.fail fault) (Proc.fail fault) :=
  fun _ => ⟨SamePrint.fault fault, rfl⟩

theorem SamePrint.bind {A : Type} {Q : A → Prop} {p : HostProc σ A} {f : A → HostProc σ (Except Abort (List UInt8))}
    {f' : A → HostProc σ Envelope} (hp : Gives Q p) (hf : ∀ a, Q a → SamePrint (f a) (f' a)) :
    SamePrint (p >>= f) (p >>= f') := by
  intro h
  cases hrun : p h with
  | mk reply h' =>
    cases reply with
    | ok a =>
      rw [Proc.bind_of_ok hrun, Proc.bind_of_ok hrun]
      exact hf a (hp h h' a hrun) h'
    | error fault =>
      rw [Proc.bind_of_error hrun, Proc.bind_of_error hrun]
      exact ⟨SamePrint.fault fault, rfl⟩

theorem samePrint_respond (P : Platform) {result : Returned} {outputs : List Json} (hresult : ReturnedStored result)
    (houtputs : AllStored outputs) :
    SamePrint (σ := σ) (pure (dumpSuccess result outputs)) (Proc.lift (respond (textEnv P) result outputs)) := by
  intro h
  refine ⟨?_, rfl⟩
  change dumpSuccess result outputs = printed (reported (respond (textEnv P) result outputs))
  rw [dumpSuccess_eq P hresult houtputs]
  cases result with
  | json j => rfl
  | bytes text =>
    rw [respond]
    cases String.fromUTF8? ⟨text.toArray⟩ <;> rfl

theorem samePrint_readCall (P : Platform) (g : Guest σ) (sig : Option Signature) (results : List Val) :
    SamePrint (readCallText P g sig results) (readCall (textEnv P) g sig results) := by
  refine .bind ((readOutputs_gives P).mapFault _) fun _ houtputs => ?_
  exact .bind (readResult_gives P g sig results) fun _ hresult => samePrint_respond P hresult houtputs

theorem samePrint_runCall (P : Platform) (g : Guest σ) (entry : ModuleEntry) (func : Func) (args : List Json) :
    SamePrint (runCallText P g entry func args) (runCall (textEnv P) g entry func args) := by
  unfold runCallText runCall
  refine .bind (Gives.any _) fun _ _ => .bind (Gives.any _) fun h _ => .bind (Gives.any _) fun reply _ =>
    .bind (Gives.any _) fun _ _ => ?_
  cases reply with
  | error exc => exact .fail _
  | ok results => exact samePrint_readCall P g _ results

/-- On arguments that parse, the call returns the text of the envelope that the call on documents
returns, or throws what it throws, and leaves the same state. -/
theorem wasmCall_eq (P : Platform) (g : Guest σ) (entry : ModuleEntry) (moduleId functionName : String)
    {argsJson : List UInt8} {args : Json} (hargs : Text.parse argsJson = .ok args) (h : Host σ) :
    wasmCall P g entry moduleId functionName argsJson h =
      (printed (callEntry (textEnv P) g entry moduleId functionName (.ok args) h).1,
        (callEntry (textEnv P) g entry moduleId functionName (.ok args) h).2) := by
  unfold wasmCall
  rw [hargs]
  cases args with
  | arr items =>
    simp only [callEntry]
    cases g.lookup functionName with
    | none =>
      dsimp only
      rw [dumpError_eq]
      rfl
    | some func =>
      obtain ⟨hreply, hstate⟩ := samePrint_runCall P g entry func items { h with vals := [], allocations := [] }
      simp only [withBinderText, withBinder, hreply, hstate]
      generalize (runCall (textEnv P) g entry func items { h with vals := [], allocations := [] }).1 = reply
      cases reply with
      | ok envelope => rfl
      | error fault => cases fault <;> rfl
  | _ =>
    dsimp only [callEntry]
    rw [dumpError_eq]
    rfl

/-! ## What arrives -/

/-- The result of a call, by how it ends on documents. -/
def callOutcome (reply : Except Fault Envelope) (m : ExecutionMetrics) : CrossNative.NativeResult :=
  match reply with
  | .ok (.success result outputs) => ⟨true, some (.obj [("outputs", .arr outputs), ("result", result)]), "", m⟩
  | .ok (.failure error) => ⟨false, none, error, m⟩
  | .error fault => ⟨false, none, "Exception: " ++ fault.what, m⟩

theorem settled_envelopeJson {envelope : Envelope} (h : EnvelopeSettled envelope) : Settled (envelopeJson envelope) := by
  cases envelope with
  | success result outputs =>
    exact settled_obj (by simp [SortedFields]; decide) (by simp [h.1, settled_arr h.2, settled_bool])
  | failure error => exact settled_obj (by simp [SortedFields]; decide) (by simp [settled_str, settled_bool])

theorem unwrapEnvelope_envelopeJson (envelope : Envelope) (m : ExecutionMetrics) :
    CrossNative.unwrapEnvelope (envelopeJson envelope) m = callOutcome (.ok envelope) m := by
  cases envelope with
  | success result outputs => rfl
  | failure error => rfl

theorem executeCall_printed {reply : Except Fault Envelope} (h : ∀ envelope, reply = .ok envelope → EnvelopeSettled envelope)
    {m : ExecutionMetrics} (htime : Stored m.executionTime) (hqueue : Stored m.queueTime) :
    ∃ r, executeCall (printed reply) m = .ok r ∧ Delivers r (callOutcome reply m) := by
  cases reply with
  | ok envelope =>
    obtain ⟨line, hdump, -, hdenotes⟩ := settled_printed (settled_envelopeJson (h envelope rfl))
    obtain ⟨r, hunwrap, hdelivers⟩ := unwrapEnvelope_delivers hdenotes htime hqueue
    rw [unwrapEnvelope_envelopeJson] at hdelivers
    exact ⟨r, by rw [printed, hdump, executeCall_ok, hunwrap], hdelivers⟩
  | error fault =>
    exact ⟨.failed (bytesOf "Exception: " ++ bytesOf fault.what) ⟨.int 0, .int 0, ""⟩, rfl,
      delivers_failed (bytesOf_append _ _) _ htime hqueue⟩

/-- A call of a WASM function, whatever the module does: arguments that denote a document leave the
module as the call on documents leaves it, and its outcome is delivered on both routes; other
arguments do not reach the module, and a failure is delivered. -/
theorem wasm_calls (P : Platform) (g : Guest σ) (entry : ModuleEntry) (moduleId functionName : String)
    (argsJson : List UInt8) (h : Host σ) {m : ExecutionMetrics} (htime : Stored m.executionTime)
    (hqueue : Stored m.queueTime) :
    (∀ args, Denotes argsJson args →
      (wasmCall P g entry moduleId functionName argsJson h).2 =
          (callEntry (textEnv P) g entry moduleId functionName (.ok args) h).2 ∧
        ∃ r, executeCall (wasmCall P g entry moduleId functionName argsJson h).1 m = .ok r ∧
          Delivers r (callOutcome (callEntry (textEnv P) g entry moduleId functionName (.ok args) h).1 m)) ∧
    ∀ what, Text.parse argsJson = .error what →
      (wasmCall P g entry moduleId functionName argsJson h).2 = h ∧
        ∃ r text, executeCall (wasmCall P g entry moduleId functionName argsJson h).1 m = .ok r ∧
          Delivers r ⟨false, none, text, m⟩ ∧ Reports (bytesOf "invalid args JSON: " ++ what) text := by
  constructor
  · intro args hargs
    rw [wasmCall_eq P g entry moduleId functionName (parse_of_denotes hargs)]
    have hgives := callEntry_gives (textEnv P) g entry moduleId functionName (.ok args) h
    refine ⟨rfl, executeCall_printed ?_ htime hqueue⟩
    intro envelope henvelope
    exact hgives _ envelope (Proc.run_eq_of_outcome henvelope)
  · intro what hwhat
    unfold wasmCall
    rw [hwhat]
    exact ⟨rfl, executeCall_dumpFailure _ htime hqueue⟩

/-- An object for arguments. -/
theorem wasm_calls_object : ∃ r,
    executeCall (wasmCall default Rust.joinModule.guest Rust.joinEntry "sample" "join" (bytesOf "\x7b\x7d") Rust.joinHost).1
      ⟨.int 1, .int 0, "7"⟩ = .ok r ∧
    Delivers r ⟨false, none, "args must be a JSON array", ⟨.int 1, .int 0, "7"⟩⟩ := by
  have hone : Stored (.int 1) := .int (by decide) (by decide)
  have hzero : Stored (.int 0) := .int (by decide) (by decide)
  exact ((wasm_calls default Rust.joinModule.guest Rust.joinEntry "sample" "join" (bytesOf "\x7b\x7d") Rust.joinHost
    (m := ⟨.int 1, .int 0, "7"⟩) hone hzero).1 (.obj []) (denotes_of_parse rfl)).2

theorem callOutcome_success {reply : Except Fault Envelope} (m : ExecutionMetrics) :
    (callOutcome reply m).success = true ↔ Succeeded reply := by
  constructor
  · intro h
    cases reply with
    | ok envelope =>
      cases envelope with
      | success result outputs => exact ⟨result, outputs, rfl⟩
      | failure error => cases h
    | error fault => cases h
  · rintro ⟨result, outputs, rfl⟩
    rfl

/-- The sample call, in an environment that parses and prints. -/
def joinText : Rust.TypedCall Rust.Arena := { Rust.joinSample with env := textEnv default }

end CrossNative.Wire
