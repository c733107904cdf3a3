import CrossNative.Promises
import CrossNative.Linked.Dispatch
import CrossNative.Text.HostLines
import Mathlib.Data.List.TakeWhile

/-!
# Envelopes and results as texts

The functions that take an envelope from a module to JavaScript, on the bytes they read and
write. They refine the functions on documents: a line denotes what the document says, and
`dump` throws exactly at a failure text that is not UTF-8.
-/

namespace CrossNative.Wire

set_option autoImplicit false

open Basis Text

/-- `catch (const std::exception& e)`; a failed assertion is no exception. -/
def catchStd {α : Type} (x : Except Abort α) (handler : List UInt8 → Except Abort α) : Except Abort α :=
  match x with
  | .error (.thrown what) => handler what
  | x => x

def lift {α : Type} (x : Except Fault α) : Except Abort α :=
  match x with
  | .ok a => .ok a
  | .error fault => .error (.thrown (bytesOf fault.what))

def parse (text : List UInt8) : Except Abort Json :=
  match Text.parse text with
  | .ok j => .ok j
  | .error what => .error (.thrown what)

/-- A result with its strings as the bytes they are. -/
structure NativeResult where
  success : Bool
  data : List UInt8
  error : List UInt8
  metrics : ExecutionMetrics

def NativeResult.failed (error : List UInt8) (metrics : ExecutionMetrics) : NativeResult := ⟨false, [], error, metrics⟩

/-- `unwrapEnvelope`, and the metrics `executeCall` puts in. -/
def unwrapEnvelope (envelope : List UInt8) (metrics : ExecutionMetrics) : Except Abort NativeResult :=
  catchStd
    (do
      let j ← parse envelope
      match ← lift (readEnvelope j) with
      | .ok payload =>
        let data ← Serializer.dump payload
        .ok { success := true, data := data, error := [], metrics := metrics }
      | .error error => .ok (.failed (bytesOf error) metrics))
    fun what => .ok (.failed (bytesOf "Malformed result from module: " ++ what) metrics)

/-- The text of an object whose first field is an error of any bytes. -/
def dumpFailure (error : List UInt8) (others : List (String × Json)) : Except Abort (List UInt8) := do
  let text ← Serializer.dumpEscaped error
  let texts ← Serializer.dumpFields others
  .ok (bytesOf "\x7b\"error\":\"" ++ text ++ bytesOf "\"," ++ texts ++ bytesOf "\x7d")

/-- What both routes take from the payload. -/
def NativeResult.fields (r : NativeResult) : Except Abort (Json × Json) := do
  let payload ← parse r.data
  let result ← lift (payload.valueAs .ok "result" .null)
  let outputs ← lift (payload.valueAs .ok "outputs" (.arr []))
  .ok (result, outputs)

def toEnvelopeJson (r : NativeResult) : Except Abort (List UInt8) :=
  let others : List (String × Json) := [("success", .bool false)]
  if r.success then
    match r.fields with
    | .ok (result, outputs) =>
      Serializer.dump (.obj [("metrics", r.metrics.toJson), ("outputs", outputs), ("result", result),
        ("success", .bool true)])
    | .error (.thrown what) => dumpFailure (bytesOf "Malformed payload: " ++ what) others
    | .error .assertion => .error .assertion
  else dumpFailure r.error others

/-- `toResponse`, and the `dump` of `respond`. -/
def toResponse (id : Json) (r : NativeResult) : Except Abort (List UInt8) :=
  let others : List (String × Json) := [("id", id), ("success", .bool false)]
  if r.success then
    match r.fields with
    | .ok (result, outputs) =>
      Serializer.dump (.obj [("id", id), ("metrics", r.metrics.toJson), ("outputs", outputs), ("result", result),
        ("success", .bool true)])
    | .error (.thrown what) => dumpFailure (bytesOf "Malformed payload: " ++ what) others
    | .error .assertion => .error .assertion
  else dumpFailure r.error others

/-- `std::string` of a `const char*`. -/
def cString (bytes : List UInt8) : List UInt8 := bytes.takeWhile fun b => b != 0

/-- What `call` makes of what the library returns, a C string or null. -/
def answer : Option (List UInt8) → List UInt8
  | none => bytesOf "\x7b\"success\":false,\"error\":\"Library returned null\"\x7d"
  | some result => cString result

/-- `callFunc_` in a state of the library. -/
abbrev CallFunc (σ : Type) : Type := List UInt8 → σ → Option (List UInt8) × σ

/-- `SharedLibraryModule::call`; the library sees the request as a C string. -/
def libraryCall {σ : Type} (callFunc : Option (CallFunc σ)) (functionName : String) (argsJson : List UInt8)
    (zeroCopy : Bool) (s : σ) : Except Abort (List UInt8) × σ :=
  match callFunc with
  | none => (.ok (bytesOf "\x7b\"success\":false,\"error\":\"Library not loaded\"\x7d"), s)
  | some callFunc =>
    let request := do
      let args ← parse argsJson
      Serializer.dump (Linked.linkedRequest functionName args zeroCopy)
    match request with
    | .ok request => (.ok (answer (callFunc (cString request) s).1), (callFunc (cString request) s).2)
    | .error abort =>
      (catchStd (.error abort) fun what => dumpFailure (bytesOf "Exception: " ++ what) [("success", .bool false)], s)

/-- `executeCall` for a module that is there, on what its `call` gives or throws. -/
def executeCall (called : Except Abort (List UInt8)) (metrics : ExecutionMetrics) : Except Abort NativeResult :=
  catchStd
    (do
      let envelope ← called
      unwrapEnvelope envelope metrics)
    fun what => .ok (.failed (bytesOf "Exception: " ++ what) ⟨.int 0, .int 0, ""⟩)

/-! ## Failures -/

theorem dumpFailure_text (s : String) (other : String × Json) (others : List (String × Json)) :
    dumpFailure (bytesOf s) (other :: others) = Serializer.dump (.obj (("error", .str s) :: other :: others)) := by
  have hname : Serializer.dumpString "error" = .ok (bytesOf "\"error\"") := rfl
  obtain ⟨chars, hchars⟩ := isUtf8_bytesOf s
  have hstring : Serializer.dumpEscaped (bytesOf s) = .ok (Serializer.escapeText chars) := by
    rw [hchars, Serializer.dumpEscaped_utf8]
  have hopening : bytesOf "\x7b\"error\":\"" = 0x7B :: (bytesOf "\"error\"" ++ [0x3A, quote]) := rfl
  have hcomma : bytesOf "\"," = [quote, 0x2C] := rfl
  have hclosing : bytesOf "\x7d" = [0x7D] := rfl
  rw [Serializer.dump, Serializer.dumpFields, hname, Serializer.dump, Serializer.dumpString, dumpFailure, hstring,
    hopening, hcomma, hclosing]
  · cases Serializer.dumpFields (other :: others) with
    | error abort => rfl
    | ok texts => simp [bind, Except.bind]
  · simp

theorem dumpFailure_thrown {error : List UInt8} (h : ¬ IsUtf8 error) (others : List (String × Json)) :
    ∃ message, dumpFailure error others = .error (Serializer.typeError316 message) ∧ IsUtf8 message := by
  obtain ⟨message, hmessage, hutf⟩ := Serializer.dumpEscaped_not_utf8 h
  exact ⟨message, by rw [dumpFailure, hmessage]; rfl, hutf⟩

/-! ## Documents a result holds -/

theorem settled_value {j v : Json} {key : String} (h : Settled j) (hv : j.find? key = some v) : Settled v where
  stored := stored_value h.stored hv
  dump_eq := by
    cases j with
    | obj fields =>
      have hfields := Json.obj.inj h.dump_eq
      rw [Json.dumpFields_eq_map] at hfields
      obtain ⟨front, back, hsplit, -⟩ := List.lookup_eq_some_iff.mp hv
      have hself := List.map_inj_left.mp (hfields.trans (List.map_id fields).symm) (key, v) (by rw [hsplit]; simp)
      exact (Prod.mk.inj hself).2
    | _ => cases hv

theorem settled_valueAs {j v fallback : Json} {key : String} (h : Settled j) (hfallback : Settled fallback)
    (hv : j.valueAs .ok key fallback = .ok v) : Settled v := by
  cases j with
  | obj fields =>
    simp only [Json.valueAs] at hv
    cases hlookup : fields.lookup key with
    | none =>
      rw [hlookup] at hv
      exact Except.ok.inj hv ▸ hfallback
    | some w =>
      rw [hlookup] at hv
      exact Except.ok.inj hv ▸ settled_value h hlookup
  | _ => cases hv

theorem settled_null : Settled .null := ⟨.null, rfl⟩

theorem settled_empty : Settled (.arr []) := settled_arr (by simp)

theorem settled_payload {j payload : Json} (h : Settled j) (hread : readEnvelope j = .ok (.ok payload)) :
    Settled payload := by
  obtain ⟨success, -, hrest⟩ := Parser.of_bind_ok hread
  cases success with
  | true =>
    obtain ⟨result, hresult, hrest⟩ := Parser.of_bind_ok hrest
    obtain ⟨outputs, houtputs, hpayload⟩ := Parser.of_bind_ok hrest
    obtain rfl := Except.ok.inj (Except.ok.inj hpayload)
    refine settled_obj (by simp [SortedFields]; decide) ?_
    simp [settled_valueAs h settled_null hresult, settled_valueAs h settled_empty houtputs]
  | false =>
    obtain ⟨error, -, hpayload⟩ := Parser.of_bind_ok hrest
    cases Except.ok.inj hpayload

/-! ## Refinement -/

/-- The bytes of a result carry what the result on documents says. -/
structure Represents (r : NativeResult) (raw : RawResult) : Prop where
  success : r.success = raw.success
  error : r.error = raw.error.data.toList
  payload : raw.success = true →
    ∃ payload, raw.data = some payload ∧ Settled payload ∧ Serializer.dump payload = .ok r.data
  metrics : raw.success = true → r.metrics = raw.metrics

theorem parse_ok {text : List UInt8} {j : Json} (h : Denotes text j) : parse text = .ok j := by
  rw [parse, parse_of_denotes h]

theorem represents_failed {error : List UInt8} (metrics : ExecutionMetrics) {raw : RawResult} (hsuccess : raw.success = false)
    (herror : raw.error.data.toList = error) : Represents (.failed error metrics) raw where
  success := hsuccess.symm
  error := herror.symm
  payload := by
    intro h
    rw [hsuccess] at h
    cases h
  metrics := by
    intro h
    rw [hsuccess] at h
    cases h

theorem toList_append (s : String) (what : List UInt8) :
    (s.toUTF8 ++ ⟨what.toArray⟩ : ByteArray).data.toList = bytesOf s ++ what := by
  simp [bytesOf]

/-- `unwrapEnvelope` gives a result for every text. -/
theorem unwrapEnvelope_refines (envelope : List UInt8) (metrics : ExecutionMetrics) :
    ∃ r, unwrapEnvelope envelope metrics = .ok r ∧ Represents r (unwrapText parseLine envelope metrics) := by
  unfold unwrapEnvelope unwrapText
  cases hparse : Text.parse envelope with
  | error what =>
    have hline : parseLine envelope = .error ⟨what.toArray⟩ := by rw [parseLine, hparse]
    rw [hline, parse, hparse]
    exact ⟨_, rfl, represents_failed metrics rfl (toList_append _ _)⟩
  | ok j =>
    have hline : parseLine envelope = .ok j := by rw [parseLine, hparse]
    have hsettled := (denotes_of_parse hparse).settled
    rw [hline, parse, hparse]
    dsimp only
    cases hread : readEnvelope j with
    | error fault =>
      rw [CrossNative.unwrapEnvelope, hread]
      refine ⟨.failed (bytesOf "Malformed result from module: " ++ bytesOf fault.what) metrics, ?_,
        represents_failed metrics rfl (bytesOf_append _ _)⟩
      simp only [bind, Except.bind, hread, lift, catchStd]
    | ok outcome =>
      cases outcome with
      | error error =>
        rw [CrossNative.unwrapEnvelope, hread]
        refine ⟨.failed (bytesOf error) metrics, ?_, represents_failed metrics rfl rfl⟩
        simp only [bind, Except.bind, hread, lift, catchStd]
      | ok payload =>
        have hpayload := settled_payload hsettled hread
        obtain ⟨data, hdump, -⟩ := hpayload.stored.denotes
        rw [CrossNative.unwrapEnvelope, hread]
        refine ⟨⟨true, data, [], metrics⟩, ?_, rfl, rfl, fun _ => ⟨payload, rfl, hpayload, hdump⟩, fun _ => rfl⟩
        simp only [bind, Except.bind, hread, lift, hdump, catchStd]

theorem represents_fields {r : NativeResult} {d : CrossNative.NativeResult} (h : Represents r d.raw) (hsuccess : d.success = true) :
    r.fields = lift d.fields := by
  obtain ⟨payload, hdata, hsettled, hdump⟩ := h.payload hsuccess
  obtain ⟨text, htext, hdenotes, -⟩ := hsettled.stored.denotes
  obtain rfl := Except.ok.inj (hdump.symm.trans htext)
  rw [hsettled.dump_eq] at hdenotes
  have hdata : d.data = some payload := hdata
  rw [NativeResult.fields, parse_ok hdenotes, CrossNative.NativeResult.fields, CrossNative.NativeResult.payload, hdata]
  change (do
    let result ← lift (payload.valueAs .ok "result" .null)
    let outputs ← lift (payload.valueAs .ok "outputs" (.arr []))
    .ok (result, outputs)) = lift (do
    let result ← payload.valueAs .ok "result" .null
    let outputs ← payload.valueAs .ok "outputs" (.arr [])
    return (result, outputs))
  cases payload.valueAs .ok "result" .null with
  | error fault => rfl
  | ok result =>
    cases payload.valueAs .ok "outputs" (.arr []) with
    | error fault => rfl
    | ok outputs => rfl

theorem toEnvelopeJson_refines {r : NativeResult} {d : CrossNative.NativeResult} (h : Represents r d.raw) :
    toEnvelopeJson r = Serializer.dump (CrossNative.toEnvelopeJson d) := by
  have hsuccess : r.success = d.success := h.success
  unfold toEnvelopeJson CrossNative.toEnvelopeJson
  rw [hsuccess]
  cases hcase : d.success with
  | false =>
    have herror : r.error = bytesOf d.error := h.error
    simp only [herror]
    exact dumpFailure_text d.error _ _
  | true =>
    have hmetrics : r.metrics = d.metrics := h.metrics hcase
    simp only [represents_fields h hcase, hmetrics, if_true]
    cases d.fields with
    | error fault =>
      simp only [lift, ← bytesOf_append]
      exact dumpFailure_text _ _ _
    | ok fields => rfl

theorem toResponse_refines (id : Json) {r : NativeResult} {d : CrossNative.NativeResult} (h : Represents r d.raw) :
    toResponse id r = Serializer.dump (CrossNative.toResponse id d) := by
  have hsuccess : r.success = d.success := h.success
  unfold toResponse CrossNative.toResponse
  rw [hsuccess]
  cases hcase : d.success with
  | false =>
    have herror : r.error = bytesOf d.error := h.error
    simp only [herror]
    exact dumpFailure_text d.error _ _
  | true =>
    have hmetrics : r.metrics = d.metrics := h.metrics hcase
    simp only [represents_fields h hcase, hmetrics, if_true]
    cases d.fields with
    | error fault =>
      simp only [lift, ← bytesOf_append]
      exact dumpFailure_text _ _ _
    | ok fields => rfl

/-! ## Both routes -/

/-- The text is one line that reads as the document. -/
def Prints (x : Except Abort (List UInt8)) (doc : Json) : Prop :=
  ∃ line, x = .ok line ∧ OneLine line ∧ Text.parse line = .ok doc.dump

theorem prints_dump {doc : Json} (h : Stored doc) : Prints (Serializer.dump doc) doc := by
  obtain ⟨line, hdump, hdenotes, hline⟩ := h.denotes
  exact ⟨line, hdump, hline, parse_of_denotes hdenotes⟩

theorem stored_metrics {m : ExecutionMetrics} (htime : Stored m.executionTime) (hqueue : Stored m.queueTime) :
    Stored m.toJson :=
  stored_obj ["executionTime", "queueTime", "threadId"] rfl (by decide) (by simp [htime, hqueue, Stored.str])

theorem stored_toEnvelopeJson {d : CrossNative.NativeResult} (h : ResultStored d) :
    Stored (CrossNative.toEnvelopeJson d) := by
  unfold CrossNative.toEnvelopeJson
  split
  · split
    · rename_i result outputs hfields
      obtain ⟨hresult, houtputs⟩ := stored_fields h hfields
      exact stored_obj ["metrics", "outputs", "result", "success"] rfl (by decide)
        (by simp [stored_metrics h.executionTime h.queueTime, houtputs, hresult, Stored.bool])
    · exact stored_obj ["error", "success"] rfl (by decide) (by simp [Stored.bool, Stored.str])
  · exact stored_obj ["error", "success"] rfl (by decide) (by simp [Stored.bool, Stored.str])

/-- The texts of a result on the two routes, for a result on documents. -/
def Delivers (r : NativeResult) (d : CrossNative.NativeResult) : Prop :=
  Prints (toEnvelopeJson r) (CrossNative.toEnvelopeJson d) ∧
    ∀ id, Stored id → Prints (toResponse id r) (CrossNative.toResponse id d)

theorem Represents.delivers {r : NativeResult} {d : CrossNative.NativeResult} (h : Represents r d.raw)
    (hd : ResultStored d) : Delivers r d := by
  refine ⟨?_, fun id hid => ?_⟩
  · rw [toEnvelopeJson_refines h]
    exact prints_dump (stored_toEnvelopeJson hd)
  · rw [toResponse_refines id h]
    exact prints_dump (stored_toResponse hid hd)

/-- Neither route can report the failure. -/
def Throws (r : NativeResult) : Prop :=
  (∃ message, toEnvelopeJson r = .error (Serializer.typeError316 message)) ∧
    ∀ id, ∃ message, toResponse id r = .error (Serializer.typeError316 message)

theorem throws_failed {error : List UInt8} (h : ¬ IsUtf8 error) (metrics : ExecutionMetrics) :
    Throws (.failed error metrics) := by
  constructor
  · obtain ⟨message, hmessage, -⟩ := dumpFailure_thrown h [("success", .bool false)]
    exact ⟨message, hmessage⟩
  · intro id
    obtain ⟨message, hmessage, -⟩ := dumpFailure_thrown h [("id", id), ("success", .bool false)]
    exact ⟨message, hmessage⟩

theorem delivers_failed {error : List UInt8} {text : String} (h : bytesOf text = error) (kept : ExecutionMetrics)
    {m : ExecutionMetrics} (htime : Stored m.executionTime) (hqueue : Stored m.queueTime) :
    Delivers (.failed error kept) ⟨false, none, text, m⟩ := by
  have hrepresents : Represents (.failed error kept) (CrossNative.NativeResult.mk false none text m).raw :=
    represents_failed kept rfl h
  refine hrepresents.delivers ⟨?_, htime, hqueue⟩
  intro payload hpayload
  cases hpayload

theorem resultStored_unwrapEnvelope {j : Json} (h : Settled j) {m : ExecutionMetrics} (htime : Stored m.executionTime)
    (hqueue : Stored m.queueTime) : ResultStored (CrossNative.unwrapEnvelope j m) := by
  unfold CrossNative.unwrapEnvelope
  split
  · rename_i payload hread
    refine ⟨?_, htime, hqueue⟩
    intro other hother
    obtain rfl := Option.some.inj hother
    exact (settled_payload h hread).stored
  · refine ⟨?_, htime, hqueue⟩
    intro payload hpayload
    cases hpayload
  · refine ⟨?_, htime, hqueue⟩
    intro payload hpayload
    cases hpayload

theorem string_of_utf8 {bytes : List UInt8} (h : IsUtf8 bytes) : ∃ s, bytesOf s = bytes := by
  obtain ⟨s, hs⟩ := Option.isSome_iff_exists.mp (textOf?_isSome.mpr h)
  exact ⟨s, bytesOf_of_textOf? hs⟩

theorem malformed_utf8 {what : List UInt8} :
    IsUtf8 (bytesOf "Malformed result from module: " ++ what) ↔ IsUtf8 what :=
  (isUtf8_bytesOf _).append_iff what

theorem unwrapEnvelope_delivers {envelope : List UInt8} {j : Json} (h : Denotes envelope j) {m : ExecutionMetrics}
    (htime : Stored m.executionTime) (hqueue : Stored m.queueTime) :
    ∃ r, unwrapEnvelope envelope m = .ok r ∧ Delivers r (CrossNative.unwrapEnvelope j m) := by
  obtain ⟨r, hunwrap, hrepresents⟩ := unwrapEnvelope_refines envelope m
  rw [unwrapText, parseLine_denotes.mpr h] at hrepresents
  exact ⟨r, hunwrap, hrepresents.delivers (resultStored_unwrapEnvelope h.settled htime hqueue)⟩

/-- Whatever bytes a module returns as its envelope: a text that denotes a document is delivered on
both routes as that document would be, any other text as a failure that quotes the parser, unless
the quotation is not UTF-8, where both routes throw. -/
theorem routes_on_texts (envelope : List UInt8) {m : ExecutionMetrics} (htime : Stored m.executionTime)
    (hqueue : Stored m.queueTime) :
    ∃ r, unwrapEnvelope envelope m = .ok r ∧
      (∀ j, Denotes envelope j → Delivers r (CrossNative.unwrapEnvelope j m)) ∧
      ∀ what, Text.parse envelope = .error what →
        (IsUtf8 what → ∃ error, bytesOf error = bytesOf "Malformed result from module: " ++ what ∧
          Delivers r ⟨false, none, error, m⟩) ∧
        (¬ IsUtf8 what → Throws r) := by
  obtain ⟨r, hunwrap, -⟩ := unwrapEnvelope_refines envelope m
  refine ⟨r, hunwrap, ?_, ?_⟩
  · intro j hj
    obtain ⟨r', hunwrap', hdelivers⟩ := unwrapEnvelope_delivers hj htime hqueue
    obtain rfl := Except.ok.inj (hunwrap.symm.trans hunwrap')
    exact hdelivers
  · intro what hwhat
    have hr : r = .failed (bytesOf "Malformed result from module: " ++ what) m := by
      rw [unwrapEnvelope, parse, hwhat] at hunwrap
      exact (Except.ok.inj hunwrap).symm
    subst hr
    constructor
    · intro hutf
      obtain ⟨error, herror⟩ := string_of_utf8 (malformed_utf8.mpr hutf)
      exact ⟨error, herror, delivers_failed herror m htime hqueue⟩
    · intro hnot
      exact throws_failed (fun hutf => hnot (malformed_utf8.mp hutf)) m

/-- A success, and a byte of no UTF-8. -/
theorem routes_on_texts_sample :
    (∃ r, unwrapEnvelope (bytesOf "\x7b\"success\": true, \"result\": 5\x7d") ⟨.int 1, .int 0, "7"⟩ = .ok r ∧
      Delivers r ⟨true, some (.obj [("outputs", .arr []), ("result", .int 5)]), "", ⟨.int 1, .int 0, "7"⟩⟩) ∧
      ∃ r, unwrapEnvelope [0xFF] ⟨.int 1, .int 0, "7"⟩ = .ok r ∧ Throws r := by
  have hone : Stored (.int 1) := .int (by decide) (by decide)
  have hzero : Stored (.int 0) := .int (by decide) (by decide)
  constructor
  · obtain ⟨r, hr, hdelivers, -⟩ := routes_on_texts (bytesOf "\x7b\"success\": true, \"result\": 5\x7d")
      (m := ⟨.int 1, .int 0, "7"⟩) hone hzero
    exact ⟨r, hr, hdelivers (.obj [("result", .int 5), ("success", .bool true)]) (denotes_of_parse rfl)⟩
  · obtain ⟨r, hr, -, hthrows⟩ := routes_on_texts [0xFF] (m := ⟨.int 1, .int 0, "7"⟩) hone hzero
    refine ⟨r, hr, (hthrows (letterMessage 0xFF) rfl).2 ?_⟩
    intro hutf
    have hnone : (textOf? (letterMessage 0xFF)).isSome = false := by decide +kernel
    rw [textOf?_isSome.mpr hutf] at hnone
    cases hnone

/-! ## Calls of a library -/

theorem cString_of_oneLine {line : List UInt8} (h : OneLine line) : cString line = line := by
  refine List.takeWhile_eq_self_iff.mpr ?_
  intro b hb
  have hprintable := h.printable b hb
  refine bne_iff_ne.mpr ?_
  rintro rfl
  simp at hprintable

theorem settled_str (s : String) : Settled (.str s) := ⟨.str s, rfl⟩

theorem settled_bool (b : Bool) : Settled (.bool b) := ⟨.bool b, rfl⟩

theorem settled_printed {j : Json} (h : Settled j) :
    ∃ line, Serializer.dump j = .ok line ∧ OneLine line ∧ Denotes line j := by
  obtain ⟨line, hdump, hdenotes, hline⟩ := h.stored.denotes
  rw [h.dump_eq] at hdenotes
  exact ⟨line, hdump, hline, hdenotes⟩

theorem settled_linkedRequest {args : Json} (h : Settled args) (functionName : String) (zeroCopy : Bool) :
    Settled (Linked.linkedRequest functionName args zeroCopy) :=
  settled_obj (by simp [SortedFields]; decide) (by simp [h, settled_str, settled_bool])

theorem libraryCall_denotes {argsJson : List UInt8} {args : Json} (h : Denotes argsJson args) (functionName : String)
    (zeroCopy : Bool) :
    ∃ line, OneLine line ∧ Denotes line (Linked.linkedRequest functionName args zeroCopy) ∧
      ∀ {σ : Type} (library : CallFunc σ) (s : σ), libraryCall (some library) functionName argsJson zeroCopy s =
        (.ok (answer (library line s).1), (library line s).2) := by
  obtain ⟨line, hdump, hline, hdenotes⟩ := settled_printed (settled_linkedRequest h.settled functionName zeroCopy)
  refine ⟨line, hline, hdenotes, ?_⟩
  intro σ library s
  simp only [libraryCall, parse_ok h, hdump, cString_of_oneLine hline, bind, Except.bind]

theorem libraryCall_malformed {argsJson what : List UInt8} (h : Text.parse argsJson = .error what) {σ : Type}
    (library : CallFunc σ) (functionName : String) (zeroCopy : Bool) (s : σ) :
    libraryCall (some library) functionName argsJson zeroCopy s =
      (dumpFailure (bytesOf "Exception: " ++ what) [("success", .bool false)], s) := by
  have hparse : parse argsJson = .error (.thrown what) := by rw [parse, h]
  simp only [libraryCall, hparse, bind, Except.bind, catchStd]

theorem executeCall_ok (envelope : List UInt8) (m : ExecutionMetrics) :
    executeCall (.ok envelope) m = unwrapEnvelope envelope m := by
  obtain ⟨r, hunwrap, -⟩ := unwrapEnvelope_refines envelope m
  simp only [executeCall, hunwrap, bind, Except.bind, catchStd]

/-- The failure's text; one that is not UTF-8 is reported as the failure to print it. -/
def Reports (error : List UInt8) (text : String) : Prop :=
  (IsUtf8 error → bytesOf text = error) ∧
    (¬ IsUtf8 error → ∃ message, bytesOf text = bytesOf "Exception: [json.exception.type_error.316] " ++ message)

theorem executeCall_dumpFailure (error : List UInt8) {m : ExecutionMetrics} (htime : Stored m.executionTime)
    (hqueue : Stored m.queueTime) :
    ∃ r text, executeCall (dumpFailure error [("success", .bool false)]) m = .ok r ∧
      Delivers r ⟨false, none, text, m⟩ ∧ Reports error text := by
  by_cases hutf : IsUtf8 error
  · obtain ⟨text, rfl⟩ := string_of_utf8 hutf
    have hsettled : Settled (.obj [("error", .str text), ("success", .bool false)]) :=
      settled_obj (by simp [SortedFields]; decide) (by simp [settled_str, settled_bool])
    obtain ⟨line, hdump, -, hdenotes⟩ := settled_printed hsettled
    obtain ⟨r, hunwrap, hdelivers⟩ := unwrapEnvelope_delivers hdenotes htime hqueue
    refine ⟨r, text, ?_, hdelivers, fun _ => rfl, fun h => (h hutf).elim⟩
    rw [dumpFailure_text, hdump, executeCall_ok, hunwrap]
  · obtain ⟨message, hthrown, hmessage⟩ := dumpFailure_thrown hutf [("success", .bool false)]
    have hwhat : IsUtf8 (bytesOf "Exception: [json.exception.type_error.316] " ++ message) := (isUtf8_bytesOf _).append hmessage
    obtain ⟨text, htext⟩ := string_of_utf8 hwhat
    refine ⟨.failed (bytesOf "Exception: " ++ (bytesOf "[json.exception.type_error.316] " ++ message)) ⟨.int 0, .int 0, ""⟩,
      text, ?_, delivers_failed ?_ _ htime hqueue, fun h => (hutf h).elim, fun _ => ⟨message, htext⟩⟩
    · rw [hthrown]
      rfl
    · rw [htext, ← List.append_assoc, ← bytesOf_append]
      rfl

/-- A call of a library: arguments that denote a document reach it as one line that denotes the
request, and what it answers is unwrapped as it stands. With any other arguments it is not called,
in whatever state it is, and a failure is delivered on both routes, whatever bytes they are. -/
theorem library_calls {σ : Type} (functionName : String) (argsJson : List UInt8) (zeroCopy : Bool) {m : ExecutionMetrics}
    (htime : Stored m.executionTime) (hqueue : Stored m.queueTime) :
    (∀ args, Denotes argsJson args →
      ∃ line, OneLine line ∧ Denotes line (Linked.linkedRequest functionName args zeroCopy) ∧
        ∀ (library : CallFunc σ) (s : σ),
          (libraryCall (some library) functionName argsJson zeroCopy s).2 = (library line s).2 ∧
          executeCall (libraryCall (some library) functionName argsJson zeroCopy s).1 m =
            unwrapEnvelope (answer (library line s).1) m ∧
          ∀ j, Denotes (answer (library line s).1) j →
            ∃ r, executeCall (libraryCall (some library) functionName argsJson zeroCopy s).1 m = .ok r ∧
              Delivers r (CrossNative.unwrapEnvelope j m)) ∧
    ∀ what, Text.parse argsJson = .error what →
      ∃ r text, (∀ (library : CallFunc σ) (s : σ),
          (libraryCall (some library) functionName argsJson zeroCopy s).2 = s ∧
          executeCall (libraryCall (some library) functionName argsJson zeroCopy s).1 m = .ok r) ∧
        Delivers r ⟨false, none, text, m⟩ ∧ Reports (bytesOf "Exception: " ++ what) text := by
  constructor
  · intro args hargs
    obtain ⟨line, hline, hdenotes, hcall⟩ := libraryCall_denotes hargs functionName zeroCopy
    refine ⟨line, hline, hdenotes, fun library s => ?_⟩
    rw [hcall library s, executeCall_ok]
    exact ⟨rfl, rfl, fun j hj => unwrapEnvelope_delivers hj htime hqueue⟩
  · intro what hwhat
    obtain ⟨r, text, hr, hdelivers, hreports⟩ := executeCall_dumpFailure (bytesOf "Exception: " ++ what) htime hqueue
    refine ⟨r, text, fun library s => ?_, hdelivers, hreports⟩
    rw [libraryCall_malformed hwhat]
    exact ⟨rfl, hr⟩

/-- A library that keeps what it is called with and returns null. -/
def nullLibrary : CallFunc (List (List UInt8)) := fun request requests => (none, requests ++ [request])

/-- The library is called once, and not at all with arguments that end too early. -/
theorem library_calls_sample :
    (∃ line r, (libraryCall (some nullLibrary) "f" (bytesOf "[1]") false []).2 = [line] ∧
      Denotes line (Linked.linkedRequest "f" (.arr [.int 1]) false) ∧
      executeCall (libraryCall (some nullLibrary) "f" (bytesOf "[1]") false []).1 ⟨.int 1, .int 0, "7"⟩ = .ok r ∧
      Delivers r ⟨false, none, "Library returned null", ⟨.int 1, .int 0, "7"⟩⟩) ∧
      ∃ r text, (libraryCall (some nullLibrary) "f" (bytesOf "[1") false []).2 = [] ∧
        executeCall (libraryCall (some nullLibrary) "f" (bytesOf "[1") false []).1 ⟨.int 1, .int 0, "7"⟩ = .ok r ∧
        Delivers r ⟨false, none, text, ⟨.int 1, .int 0, "7"⟩⟩ := by
  have hone : Stored (.int 1) := .int (by decide) (by decide)
  have hzero : Stored (.int 0) := .int (by decide) (by decide)
  have hnull : Denotes (answer none) (.obj [("error", .str "Library returned null"), ("success", .bool false)]) :=
    denotes_of_parse rfl
  constructor
  · obtain ⟨line, -, hdenotes, hlibrary⟩ :=
      (library_calls "f" (bytesOf "[1]") false (m := ⟨.int 1, .int 0, "7"⟩) hone hzero).1
        (.arr [.int 1]) (denotes_of_parse rfl)
    obtain ⟨hcalled, -, hanswered⟩ := hlibrary nullLibrary []
    obtain ⟨r, hr, hdelivers⟩ := hanswered _ hnull
    exact ⟨line, r, hcalled, hdenotes, hr, hdelivers⟩
  · have hparse : ∃ what, Text.parse (bytesOf "[1") = .error what := ⟨_, rfl⟩
    obtain ⟨what, hwhat⟩ := hparse
    obtain ⟨r, text, hr, hdelivers, -⟩ :=
      (library_calls "f" (bytesOf "[1") false (m := ⟨.int 1, .int 0, "7"⟩) hone hzero).2 what hwhat
    exact ⟨r, text, (hr nullLibrary []).1, (hr nullLibrary []).2, hdelivers⟩

end CrossNative.Wire
