import CrossNative.Bridge.NodeHost

/-!
# The two ways of a result

A module answers with an envelope. On a device the core repacks it for JSI, where
`parseEnvelope` reads it; in development the host flattens it into a response line for the
Node backend. Texts are passed as the documents they print.
-/

namespace CrossNative

set_option autoImplicit false

structure ExecutionMetrics where
  executionTime : Json
  queueTime : Json
  threadId : String

def ExecutionMetrics.toJson (m : ExecutionMetrics) : Json :=
  .obj [("executionTime", m.executionTime), ("queueTime", m.queueTime), ("threadId", .str m.threadId)]

structure NativeResult where
  success : Bool
  /-- The document of the payload; nothing is the empty text. -/
  data : Option Json
  error : String
  metrics : ExecutionMetrics

/-- Parsing the payload of a result. -/
def NativeResult.payload (r : NativeResult) : Except Fault Json :=
  match r.data with
  | some payload => .ok payload
  | none => .error (.exception ("[json.exception.parse_error.101] parse error at line 1, column 1: " ++
      "attempting to parse an empty input; check that your input string or stream contains the expected JSON"))

/-- The two fields both routes take from the payload. -/
def NativeResult.fields (r : NativeResult) : Except Fault (Json × Json) := do
  let payload ← r.payload
  let result ← payload.valueAs .ok "result" .null
  let outputs ← payload.valueAs .ok "outputs" (.arr [])
  return (result, outputs)

section Core

/-- The fields of an envelope, read in the order of `unwrapEnvelope`. -/
def readEnvelope (envelope : Json) : Except Fault (Except String Json) := do
  if ← envelope.valueAs Json.getBool "success" false then
    let result ← envelope.valueAs .ok "result" .null
    let outputs ← envelope.valueAs .ok "outputs" (.arr [])
    return .ok (.obj [("outputs", outputs), ("result", result)])
  else
    let error ← envelope.valueString "error" "Unknown error"
    return .error error

def unwrapEnvelope (envelope : Json) (metrics : ExecutionMetrics) : NativeResult :=
  match readEnvelope envelope with
  | .ok (.ok payload) => { success := true, data := some payload, error := "", metrics := metrics }
  | .ok (.error error) => { success := false, data := none, error := error, metrics := metrics }
  | .error fault =>
    { success := false, data := none
      error := "Malformed result from module: " ++ fault.what, metrics := metrics }

def toEnvelopeJson (r : NativeResult) : Json :=
  if r.success then
    match r.fields with
    | .ok (result, outputs) =>
      .obj [("metrics", r.metrics.toJson), ("outputs", outputs), ("result", result),
        ("success", .bool true)]
    | .error fault =>
      .obj [("error", .str ("Malformed payload: " ++ fault.what)), ("success", .bool false)]
  else .obj [("error", .str r.error), ("success", .bool false)]

def toResponse (id : Json) (r : NativeResult) : Json :=
  if r.success then
    match r.fields with
    | .ok (result, outputs) =>
      .obj [("id", id), ("metrics", r.metrics.toJson), ("outputs", outputs), ("result", result),
        ("success", .bool true)]
    | .error fault =>
      .obj [("error", .str ("Malformed payload: " ++ fault.what)), ("id", id),
        ("success", .bool false)]
  else .obj [("error", .str r.error), ("id", id), ("success", .bool false)]

end Core

namespace Bridge

structure CallResponse where
  result : Json
  outputs : Json
  metrics : Option Json

/-- What the promise of a call can be rejected with. -/
inductive CallError
  | backend (message : String)
  | typeError

/-- What a caller sees of a call. -/
inductive Outcome
  | value (result outputs : Json)
  | error (e : CallError)

def Outcome.of : Except CallError CallResponse → Outcome
  | .ok response => .value response.result response.outputs
  | .error e => .error e

/-- The fields a successful message carries. -/
def responseOf (message : Json) : CallResponse where
  result := Json.nullish (message.find? "result") .null
  outputs := Json.nullish (message.find? "outputs") (.arr [])
  metrics := message.find? "metrics"

variable (floatText : BitVec 64 → String)

def parseEnvelope (envelope : Json) : Except CallError CallResponse :=
  if envelope.isNull then .error .typeError
  else if (envelope.find? "success").any Json.truthy then .ok (responseOf envelope)
  else
    match (Json.nullish (envelope.find? "error") (.str "Unknown native error")).toText floatText with
    | some message => .error (.backend message)
    | none => .error .typeError

/-- `NodeHostBackend.call` once its request is settled. -/
def NodeHost.call : Settlement → Except CallError CallResponse
  | .resolved message => .ok (responseOf message)
  | .rejected message => .error (.backend message)

/-! ## What a result means -/

/-- What the caller has to see of a result, whichever way it comes. -/
def Outcome.meaning (r : NativeResult) : Outcome :=
  if r.success then
    match r.fields with
    | .ok (result, outputs) =>
      .value (Json.nullish (some result) .null) (Json.nullish (some outputs) (.arr []))
    | .error fault => .error (.backend ("Malformed payload: " ++ fault.what))
  else .error (.backend r.error)

variable {floatText}

theorem parseEnvelope_toEnvelopeJson (r : NativeResult) :
    Outcome.of (parseEnvelope floatText (toEnvelopeJson r)) = Outcome.meaning r := by
  unfold toEnvelopeJson Outcome.meaning
  cases r.success with
  | false =>
    simp [parseEnvelope, Json.isNull, Json.find?, List.lookup_cons, Json.truthy, Outcome.of]
  | true =>
    cases r.fields with
    | ok fields =>
      simp [parseEnvelope, Json.isNull, Json.find?, List.lookup_cons, Json.truthy, Outcome.of, responseOf]
    | error fault =>
      simp [parseEnvelope, Json.isNull, Json.find?, List.lookup_cons, Json.truthy, Outcome.of]

theorem call_toResponse (id : Json) (r : NativeResult) :
    ∃ o, NodeHost.settlement floatText (toResponse id r) = some o ∧
      Outcome.of (NodeHost.call o) = Outcome.meaning r := by
  unfold toResponse Outcome.meaning
  cases r.success with
  | false =>
    refine ⟨.rejected r.error, ?_, rfl⟩
    simp [NodeHost.settlement, Json.find?, List.lookup_cons, Json.truthy]
  | true =>
    cases r.fields with
    | ok fields =>
      refine ⟨_, rfl, ?_⟩
      simp [NodeHost.call, Outcome.of, responseOf, Json.find?, List.lookup_cons]
    | error fault =>
      refine ⟨.rejected ("Malformed payload: " ++ fault.what), ?_, rfl⟩
      simp [NodeHost.settlement, Json.find?, List.lookup_cons, Json.truthy]

theorem messageId_toResponse (id : Nat) (r : NativeResult) :
    messageId (toResponse (.int id) r) = some id ∧ (toResponse (.int id) r).isNull = false := by
  unfold toResponse
  cases r.success with
  | false => exact ⟨rfl, rfl⟩
  | true =>
    cases r.fields with
    | ok fields => exact ⟨rfl, rfl⟩
    | error fault => exact ⟨rfl, rfl⟩

/-- The times a call has taken do not enter. -/
theorem meaning_unwrapEnvelope (envelope : Json) (m m' : ExecutionMetrics) :
    Outcome.meaning (unwrapEnvelope envelope m) = Outcome.meaning (unwrapEnvelope envelope m') := by
  unfold unwrapEnvelope
  rcases readEnvelope envelope with fault | error | payload
  · rfl
  · rfl
  · rfl

theorem readEnvelope_success {fields : List (String × Json)} {outputs : Json}
    (hsuccess : fields.lookup "success" = some (.bool true))
    (houtputs : fields.lookup "outputs" = some outputs) :
    readEnvelope (.obj fields) =
      .ok (.ok (.obj [("outputs", outputs), ("result", (fields.lookup "result").getD .null)])) := by
  cases hresult : fields.lookup "result" with
  | none =>
    simp only [readEnvelope, Json.valueAs, hsuccess, houtputs, hresult, Json.getBool]
    rfl
  | some result =>
    simp only [readEnvelope, Json.valueAs, hsuccess, houtputs, hresult, Json.getBool]
    rfl

theorem readEnvelope_failure {fields : List (String × Json)} {message : String}
    (hsuccess : fields.lookup "success" = some (.bool false))
    (herror : fields.lookup "error" = some (.str message)) :
    readEnvelope (.obj fields) = .ok (.error message) := by
  simp only [readEnvelope, Json.valueAs, hsuccess, Json.getBool, Json.valueString_of_str herror]
  rfl

theorem meaning_of_error {r : NativeResult} {e : CallError} (h : Outcome.meaning r = .error e) :
    ∃ message, e = .backend message := by
  unfold Outcome.meaning at h
  split at h
  · split at h
    · cases h
    · cases h
      exact ⟨_, rfl⟩
  · cases h
    exact ⟨_, rfl⟩

/-- For every envelope and every request waiting for it, both routes end in the same outcome. -/
theorem routes_agree (envelope : Json) (m m' : ExecutionMetrics) {s : NodeHost} {id : Nat}
    (hpending : id ∈ s.pending) (hopen : s.outcomes id = none) :
    ∃ o outcome,
      (s.handleLine floatText (some (toResponse (.int id) (unwrapEnvelope envelope m)))).outcomes id =
        some o ∧
      Outcome.of (NodeHost.call o) = outcome ∧
      Outcome.of (parseEnvelope floatText (toEnvelopeJson (unwrapEnvelope envelope m'))) = outcome ∧
      (∀ e, outcome = .error e → ∃ message, e = .backend message) ∧
      (∀ fields outputs, envelope = .obj fields → fields.lookup "success" = some (.bool true) →
        fields.lookup "outputs" = some (.arr outputs) →
        outcome = .value ((fields.lookup "result").getD .null) (.arr outputs)) ∧
      ∀ fields message, envelope = .obj fields → fields.lookup "success" = some (.bool false) →
        fields.lookup "error" = some (.str message) → outcome = .error (.backend message) := by
  obtain ⟨o, ho, houtcome⟩ := @call_toResponse floatText (.int id) (unwrapEnvelope envelope m)
  obtain ⟨hid, hnull⟩ := messageId_toResponse id (unwrapEnvelope envelope m)
  refine ⟨o, Outcome.meaning (unwrapEnvelope envelope m),
    NodeHost.handleLine_of_pending hpending hopen hnull hid ho, houtcome, ?_, ?_, ?_, ?_⟩
  · rw [parseEnvelope_toEnvelopeJson]
    exact meaning_unwrapEnvelope envelope m' m
  · intro e he
    exact meaning_of_error he
  · intro fields outputs henvelope hsuccess houtputs
    subst henvelope
    rw [unwrapEnvelope, readEnvelope_success hsuccess houtputs]
    cases fields.lookup "result" with
    | none => rfl
    | some result => cases result <;> rfl
  · intro fields message henvelope hsuccess herror
    subst henvelope
    rw [unwrapEnvelope, readEnvelope_failure hsuccess herror]
    rfl

theorem routes_agree_attached : ∃ o,
    ((NodeHost.attached.issue.handleLine (fun _ => "") (some (toResponse (.int 1)
      (unwrapEnvelope (.arr []) ⟨.int 1, .int 0, "7"⟩)))).outcomes 1 = some o) ∧
    Outcome.of (NodeHost.call o) = .error (.backend
      "Malformed result from module: [json.exception.type_error.306] cannot use value() with array") := by
  obtain ⟨o, outcome, ho, hcall, hparse, _⟩ := @routes_agree (fun _ => "") (.arr [])
    ⟨.int 1, .int 0, "7"⟩ ⟨.int 1, .int 0, "7"⟩ NodeHost.attached.issue 1
    (List.mem_singleton.mpr rfl) rfl
  refine ⟨o, ho, ?_⟩
  rw [hcall, ← hparse, parseEnvelope_toEnvelopeJson]
  rfl

end Bridge

end CrossNative
