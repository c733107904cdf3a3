import CrossNative.Bridge.Envelope
import Mathlib.Data.List.Perm.Basic

/-!
# The host process

`Host::run` reads one request per line and answers it, a call through a helper thread once the
core has finished it. An exception that leaves the loop or a helper thread ends the process.
-/

namespace CrossNative

set_option autoImplicit false

open Basis

/-- What the host asks of the core, for the request of a given number. -/
structure HostCore where
  loadModule : Nat → String → String → String → Bool
  /-- The exported names as a document, or what `dump` throws at them. -/
  getModuleFunctions : Nat → String → Except Fault Json
  getModuleManifest : Nat → String → Except Fault Json
  getStats : Nat → Json
  /-- What the future of a call will hold. -/
  callFunction : Nat → String → String → Json → NativeResult
  /-- Starting a helper thread may fail. -/
  startThread : Nat → Except Fault Unit

/-- What handling one line comes to. -/
inductive LineOutcome
  | skipped
  | answered (response : Json)
  /-- A helper thread waits for the result. -/
  | dispatched (id : Json) (result : NativeResult)
  /-- An exception leaves `run`. -/
  | terminates

structure HostState where
  input : List (List UInt8)
  /-- How many lines have been read. -/
  lines : Nat
  output : List Json
  pending : List (Json × NativeResult)
  terminated : Bool
  returned : Bool

namespace HostProcess

def okResponse (id : Json) : Json := .obj [("id", id), ("success", .bool true)]

def okResult (id result : Json) : Json :=
  .obj [("id", id), ("result", result), ("success", .bool true)]

def errorResponse (id : Json) (message : String) : Json :=
  .obj [("error", .str message), ("id", id), ("success", .bool false)]

def atString (request : Json) (key : String) : Except Fault String := do
  (← request.at? key).getString

variable (core : HostCore) (n : Nat)

def handleLoad (request id : Json) : Except Fault LineOutcome := do
  let moduleId ← atString request "moduleId"
  let language ← request.valueString "language" "wasm"
  let path ← atString request "path"
  if core.loadModule n moduleId language path then
    let functions ← core.getModuleFunctions n moduleId
    let manifest ← core.getModuleManifest n moduleId
    return .answered (.obj [("functions", functions), ("id", id), ("manifest", manifest),
      ("success", .bool true)])
  else
    return .answered (errorResponse id ("Failed to load module '" ++ moduleId ++ "' from " ++ path))

/-- The priority and the zero-copy flag are read for their types only. -/
def handleCall (request id : Json) : Except Fault LineOutcome := do
  let moduleId ← atString request "moduleId"
  let function ← atString request "function"
  let args ← request.valueAs .ok "args" (.arr [])
  let _ ← request.valueString "priority" "normal"
  match request.find? "zeroCopy" with
  | some zeroCopy => let _ ← zeroCopy.getBool
  | none => pure ()
  core.startThread n
  return .dispatched id (core.callFunction n moduleId function args)

def dispatch (request id : Json) (op : String) : Except Fault LineOutcome := do
  if op = "ping" then return .answered (okResult id (.str "pong"))
  else if op = "load" then handleLoad core n request id
  else if op = "call" then handleCall core n request id
  else if op = "functions" then
    let functions ← core.getModuleFunctions n (← atString request "moduleId")
    return .answered (okResult id functions)
  else if op = "unload" then
    let _ ← atString request "moduleId"
    return .answered (okResponse id)
  else if op = "stats" then return .answered (okResult id (core.getStats n))
  else if op = "setLogLevel" then
    let _ ← request.valueString "level" "info"
    return .answered (okResponse id)
  else return .answered (errorResponse id ("Unknown op: " ++ op))

variable (parse : List UInt8 → Except ByteArray Json)

/-- `respondError` in the handler of a parse error: `dump` throws if the message is not UTF-8. -/
def reportMalformed (message : ByteArray) : LineOutcome :=
  match String.fromUTF8? ("Malformed request: ".toUTF8 ++ message) with
  | some text => .answered (errorResponse .null text)
  | none => .terminates

/-- One turn of the loop; `id` and `op` are read outside of its `try`. -/
def handleLine (line : List UInt8) : LineOutcome :=
  if line = [] then .skipped
  else
    match parse line with
    | .error message => reportMalformed message
    | .ok request =>
      match request.valueAs .ok "id" .null, request.valueString "op" "" with
      | .ok id, .ok op =>
        match dispatch core n request id op with
        | .ok outcome => outcome
        | .error fault => .answered (errorResponse id ("Request failed: " ++ fault.what))
      | _, _ => .terminates

end HostProcess

inductive HostAction
  | read
  /-- A helper thread writes its response. -/
  | answer (i : Nat)
  /-- The loop has ended and all helper threads are joined. -/
  | finish

namespace HostProcess

variable (core : HostCore) (parse : List UInt8 → Except ByteArray Json)

def start (lines : List (List UInt8)) : HostState where
  input := lines
  lines := 0
  output := []
  pending := []
  terminated := false
  returned := false

def read (s : HostState) (line : List UInt8) (rest : List (List UInt8)) : HostState :=
  let t := { s with input := rest, lines := s.lines + 1 }
  match handleLine core s.lines parse line with
  | .skipped => t
  | .answered response => { t with output := s.output ++ [response] }
  | .dispatched id result => { t with pending := s.pending ++ [(id, result)] }
  | .terminates => { t with terminated := true }

def step (s : HostState) : HostAction → Option HostState
  | .read =>
    match s.input with
    | line :: rest => if s.terminated then none else some (read core parse s line rest)
    | [] => none
  | .answer i =>
    match s.pending[i]? with
    | some (id, result) =>
      if s.terminated then none
      else some { s with output := s.output ++ [toResponse id result], pending := s.pending.eraseIdx i }
    | none => none
  | .finish =>
    if s.input = [] ∧ s.pending = [] ∧ s.terminated = false then some { s with returned := true }
    else none

/-- The id a response carries. -/
def idOf (response : Json) : Json := (response.find? "id").getD .null

/-- The id the answer to a line has to carry. -/
def requestId (line : List UInt8) : Json :=
  match parse line with
  | .ok request => idOf request
  | .error _ => .null

/-- The ids of the responses the lines ask for. -/
def requestIds (lines : List (List UInt8)) : List Json :=
  (lines.filter (· ≠ [])).map (requestId parse)

/-- An object whose op is missing or a string, or text whose parse error is UTF-8. -/
def Harmless (line : List UInt8) : Prop :=
  line = [] ∨
    match parse line with
    | .ok request => request.isObject = true ∧ ∀ op, request.find? "op" = some op → ∃ s, op = .str s
    | .error message => (String.fromUTF8? ("Malformed request: ".toUTF8 ++ message)).isSome

/-! ## One line -/

/-- The line is answered under an id, now or by a helper thread. -/
def Carries (id : Json) : LineOutcome → Prop
  | .answered response => idOf response = id
  | .dispatched id' _ => id' = id
  | .skipped | .terminates => False

/-- Whatever handling a request comes to without an exception meets `P`. -/
def Gives (P : LineOutcome → Prop) (x : Except Fault LineOutcome) : Prop := ∀ o, x = .ok o → P o

theorem Gives.bind {P : LineOutcome → Prop} {α : Type} {x : Except Fault α}
    {f : α → Except Fault LineOutcome} (h : ∀ a, Gives P (f a)) : Gives P (x >>= f) := by
  intro o ho
  cases x with
  | error fault => cases ho
  | ok a => exact h a o ho

theorem Gives.pure {P : LineOutcome → Prop} {o : LineOutcome} (h : P o) : Gives P (.ok o) := by
  intro o' ho
  cases ho
  exact h

theorem idOf_toResponse (id : Json) (r : NativeResult) : idOf (toResponse id r) = id := by
  unfold toResponse
  split
  · split
    · rfl
    · rfl
  · rfl

section Requests

variable {core : HostCore} {n : Nat} {request id : Json}

theorem handleLoad_gives : Gives (Carries id) (handleLoad core n request id) := by
  unfold handleLoad
  apply Gives.bind
  intro moduleId
  apply Gives.bind
  intro language
  apply Gives.bind
  intro path
  split
  · apply Gives.bind
    intro functions
    apply Gives.bind
    intro manifest
    exact Gives.pure rfl
  · exact Gives.pure rfl

theorem handleCall_gives : Gives (Carries id) (handleCall core n request id) := by
  unfold handleCall
  apply Gives.bind
  intro moduleId
  apply Gives.bind
  intro function
  apply Gives.bind
  intro args
  apply Gives.bind
  intro priority
  have hrest : Gives (Carries id) (do
      core.startThread n
      return .dispatched id (core.callFunction n moduleId function args)) := by
    apply Gives.bind
    intro _
    exact Gives.pure rfl
  split
  · apply Gives.bind
    intro zeroCopy
    exact hrest
  · exact hrest

theorem dispatch_gives {op : String} : Gives (Carries id) (dispatch core n request id op) := by
  unfold dispatch
  split
  · exact Gives.pure rfl
  split
  · exact handleLoad_gives
  split
  · exact handleCall_gives
  split
  · apply Gives.bind
    intro moduleId
    apply Gives.bind
    intro functions
    exact Gives.pure rfl
  split
  · apply Gives.bind
    intro moduleId
    exact Gives.pure rfl
  split
  · exact Gives.pure rfl
  split
  · apply Gives.bind
    intro level
    exact Gives.pure rfl
  · exact Gives.pure rfl

end Requests

variable {core parse}

theorem valueAs_id {request : Json} (h : request.isObject = true) :
    request.valueAs .ok "id" .null = .ok (idOf request) := by
  cases request with
  | obj fields =>
    simp only [Json.valueAs, idOf, Json.find?]
    cases fields.lookup "id" <;> rfl
  | null | bool | int | float | str | arr => cases h

theorem valueString_op {request : Json} :
    (∃ op, request.valueString "op" "" = .ok op) ↔
      request.isObject = true ∧ ∀ op, request.find? "op" = some op → ∃ s, op = .str s := by
  cases request with
  | obj fields =>
    simp only [Json.valueString, Json.isObject, Json.find?, true_and]
    cases fields.lookup "op" with
    | none => simp
    | some op =>
      cases op <;> simp [Json.getString, Json.mustBe, Json.typeError]
  | null | bool | int | float | str | arr => simp [Json.valueString, Json.isObject]

theorem handleLine_harmless {line : List UInt8} {n : Nat} (h : Harmless parse line) (hline : line ≠ []) :
    Carries (requestId parse line) (handleLine core n parse line) := by
  have h := h.resolve_left hline
  unfold handleLine requestId
  rw [if_neg hline]
  cases hparse : parse line with
  | error message =>
    rw [hparse] at h
    obtain ⟨text, htext⟩ := Option.isSome_iff_exists.mp h
    simp only [reportMalformed, htext]
    rfl
  | ok request =>
    rw [hparse] at h
    obtain ⟨op, hop⟩ := valueString_op.mpr h
    simp only [valueAs_id h.1, hop]
    cases hdispatch : dispatch core n request (idOf request) op with
    | ok outcome => exact dispatch_gives outcome hdispatch
    | error fault => rfl

theorem handleLine_harmful {line : List UInt8} {n : Nat} (h : ¬ Harmless parse line) :
    handleLine core n parse line = .terminates := by
  unfold Harmless at h
  obtain ⟨hline, h⟩ := not_or.mp h
  unfold handleLine
  rw [if_neg hline]
  cases hparse : parse line with
  | error message =>
    rw [hparse] at h
    have hnone := Option.not_isSome_iff_eq_none.mp h
    simp only [reportMalformed, hnone]
  | ok request =>
    rw [hparse] at h
    dsimp only
    split
    · rename_i id op _ hop
      exact absurd (valueString_op.mp ⟨op, hop⟩) h
    · rfl

/-! ## Whole runs -/

/-- Every line read so far has its response, written or waited for by a helper thread. -/
structure Serving (parse : List UInt8 → Except ByteArray Json) (lines : List (List UInt8))
    (s : HostState) : Prop where
  alive : s.terminated = false
  split : ∃ done, lines = done ++ s.input ∧
    (s.output.map idOf ++ s.pending.map Prod.fst).Perm (requestIds parse done)
  finished : s.returned = true → s.input = [] ∧ s.pending = []

theorem serving_start (lines : List (List UInt8)) : Serving parse lines (start lines) where
  alive := rfl
  split := ⟨[], rfl, List.Perm.refl _⟩
  finished := fun h => by cases h

theorem requestIds_concat (lines : List (List UInt8)) (line : List UInt8) :
    requestIds parse (lines ++ [line]) =
      requestIds parse lines ++ if line = [] then [] else [requestId parse line] := by
  unfold requestIds
  by_cases hline : line = []
  · simp [hline]
  · simp [hline]

theorem Serving.read {lines rest : List (List UInt8)} {s : HostState} {line : List UInt8}
    (h : Serving parse lines s) (hinput : s.input = line :: rest)
    (hharmless : Harmless parse line) :
    Serving parse lines (read core parse s line rest) := by
  obtain ⟨done, hlines, hperm⟩ := h.split
  have hlines' : lines = (done ++ [line]) ++ rest := by
    rw [hlines, hinput, List.append_assoc]
    rfl
  have hopen : s.returned ≠ true := by
    intro hreturned
    rw [(h.finished hreturned).1] at hinput
    cases hinput
  have hids : requestIds parse (done ++ [line]) = _ := requestIds_concat done line
  unfold HostProcess.read
  by_cases hline : line = []
  · rw [if_pos hline, List.append_nil] at hids
    have hskip : handleLine core s.lines parse line = .skipped := if_pos hline
    rw [hskip]
    exact ⟨h.alive, ⟨_, hlines', hids ▸ hperm⟩, fun hr => absurd hr hopen⟩
  · rw [if_neg hline] at hids
    have hcarries : Carries (requestId parse line) (handleLine core s.lines parse line) :=
      handleLine_harmless hharmless hline
    cases houtcome : handleLine core s.lines parse line with
    | skipped =>
      rw [houtcome] at hcarries
      exact hcarries.elim
    | terminates =>
      rw [houtcome] at hcarries
      exact hcarries.elim
    | answered response =>
      rw [houtcome] at hcarries
      refine ⟨h.alive, ⟨_, hlines', ?_⟩, fun hr => absurd hr hopen⟩
      rw [hids, ← show idOf response = requestId parse line from hcarries]
      dsimp only
      rw [List.map_append, List.append_assoc]
      exact (List.Perm.append_left _ List.perm_append_comm).trans
        (by rw [← List.append_assoc]; exact hperm.append_right _)
    | dispatched id result =>
      rw [houtcome] at hcarries
      refine ⟨h.alive, ⟨_, hlines', ?_⟩, fun hr => absurd hr hopen⟩
      rw [hids, ← show id = requestId parse line from hcarries]
      dsimp only
      rw [List.map_append, ← List.append_assoc]
      exact hperm.append_right _

theorem Serving.answer {lines : List (List UInt8)} {s : HostState} {i : Nat} {id : Json}
    {result : NativeResult} (h : Serving parse lines s)
    (hpending : s.pending[i]? = some (id, result)) :
    Serving parse lines
      { s with output := s.output ++ [toResponse id result], pending := s.pending.eraseIdx i } := by
  obtain ⟨done, hlines, hperm⟩ := h.split
  refine ⟨h.alive, ⟨done, hlines, ?_⟩, ?_⟩
  · refine List.Perm.trans ?_ hperm
    obtain ⟨hlt, heq⟩ := List.getElem?_eq_some_iff.mp hpending
    have herase := List.getElem_cons_eraseIdx_perm hlt
    rw [heq] at herase
    have hids := herase.map Prod.fst
    dsimp only
    rw [List.map_append, List.append_assoc]
    refine List.Perm.append_left _ ?_
    rw [List.map_singleton, idOf_toResponse]
    exact hids
  · intro hreturned
    rw [(h.finished hreturned).2] at hpending
    cases hpending

theorem Serving.step {lines : List (List UInt8)} {s t : HostState} {a : HostAction}
    (hall : ∀ line ∈ lines, Harmless parse line) (h : Serving parse lines s)
    (hstep : HostProcess.step core parse s a = some t) : Serving parse lines t := by
  cases a with
  | read =>
    simp only [HostProcess.step] at hstep
    split at hstep
    · rename_i line rest hinput
      rw [h.alive] at hstep
      cases hstep
      apply h.read hinput
      apply hall
      obtain ⟨done, hlines, _⟩ := h.split
      rw [hlines, hinput]
      exact List.mem_append_right _ List.mem_cons_self
    · cases hstep
  | answer i =>
    simp only [HostProcess.step] at hstep
    split at hstep
    · rename_i id result hpending
      rw [if_neg (by simp [h.alive])] at hstep
      cases hstep
      exact h.answer hpending
    · cases hstep
  | finish =>
    obtain ⟨⟨hinput, hpending, _⟩, heq⟩ := Option.ite_none_right_eq_some.mp hstep
    cases heq
    exact ⟨h.alive, h.split, fun _ => ⟨hinput, hpending⟩⟩

/-- A line that is not harmless ends the process, at the latest when all lines before it have
been read. -/
theorem exists_terminated {lines : List (List UInt8)} (hsome : ∃ line ∈ lines, ¬ Harmless parse line)
    {s : HostState} (hinput : s.input = lines) (halive : s.terminated = false) :
    ∃ actions t, runAll (HostProcess.step core parse) s actions = some t ∧ t.terminated = true := by
  induction lines generalizing s with
  | nil =>
    obtain ⟨line, hmem, _⟩ := hsome
    cases hmem
  | cons line rest ih =>
    have hread : HostProcess.step core parse s .read = some (read core parse s line rest) := by
      simp only [HostProcess.step, hinput, halive]
      rfl
    by_cases hharmless : Harmless parse line
    · have hrest : ∃ line ∈ rest, ¬ Harmless parse line := by
        obtain ⟨bad, hmem, hbad⟩ := hsome
        rcases List.mem_cons.mp hmem with rfl | hmem
        · exact absurd hharmless hbad
        · exact ⟨bad, hmem, hbad⟩
      by_cases hterminated : (read core parse s line rest).terminated = true
      · exact ⟨[.read], _, by rw [runAll, hread]; rfl, hterminated⟩
      · have hinput' : (read core parse s line rest).input = rest := by
          unfold HostProcess.read
          split <;> rfl
        obtain ⟨actions, t, hrun, ht⟩ := ih hrest hinput' (Bool.eq_false_iff.mpr hterminated)
        refine ⟨.read :: actions, t, ?_, ht⟩
        rw [runAll, hread]
        exact hrun
    · refine ⟨[.read], _, by rw [runAll, hread]; rfl, ?_⟩
      unfold HostProcess.read
      rw [handleLine_harmful hharmless]

/-- The host serves the lines in every order of completion exactly if every line is harmless. -/
theorem serves_iff (core : HostCore) (parse : List UInt8 → Except ByteArray Json)
    (lines : List (List UInt8)) :
    (∀ actions s, runAll (HostProcess.step core parse) (start lines) actions = some s →
      s.terminated = false ∧
        (s.returned = true → s.input = [] ∧ s.pending = [] ∧
          (s.output.map idOf).Perm (requestIds parse lines))) ↔
      ∀ line ∈ lines, Harmless parse line := by
  constructor
  · intro hserves
    by_contra hnot
    have hsome : ∃ line ∈ lines, ¬ Harmless parse line := by
      simpa only [not_forall, exists_prop] using hnot
    obtain ⟨actions, s, hrun, hterminated⟩ :=
      exists_terminated hsome (s := start lines) rfl rfl
    rw [(hserves actions s hrun).1] at hterminated
    cases hterminated
  · intro hall actions s hrun
    have h : Serving parse lines s := by
      refine runAll_invariant ?_ actions (serving_start lines) (meets_true actions _) hrun
      intro s a t h _ hstep
      exact h.step hall hstep
    refine ⟨h.alive, ?_⟩
    intro hreturned
    obtain ⟨hinput, hpending⟩ := h.finished hreturned
    obtain ⟨done, hlines, hperm⟩ := h.split
    rw [hinput, List.append_nil] at hlines
    rw [hpending, List.map_nil, List.append_nil, ← hlines] at hperm
    exact ⟨hinput, hpending, hperm⟩

/-- A core that knows no module. -/
def emptyCore : HostCore where
  loadModule := fun _ _ _ _ => false
  getModuleFunctions := fun _ _ => .ok (.arr [])
  getModuleManifest := fun _ _ => .ok (.arr [])
  getStats := fun _ => .obj []
  callFunction := fun _ moduleId _ _ =>
    { success := false, data := none, error := "Module not found: " ++ moduleId
      metrics := ⟨.int 0, .int 0, ""⟩ }
  startThread := fun _ => .ok ()

/-- The message of a parse error that has stopped after some bytes. -/
def quoting (bytes : List UInt8) : ByteArray :=
  ("[json.exception.parse_error.101] parse error at line 1, column 1: syntax error " ++
    "while parsing value - invalid literal; last read: '").toUTF8 ++ ⟨bytes.toArray⟩ ++ "'".toUTF8

/-- The parser on the two lines below: `[]` is a document, and at `é` the lexer stops after the
first byte. -/
def parseSample (line : List UInt8) : Except ByteArray Json :=
  if line = [0x5B, 0x5D] then .ok (.arr []) else .error (quoting (line.take 1))

/-- A document that is not an object ends the host, and so does a letter beyond ASCII. -/
theorem terminates_on_array :
    (∃ s, runAll (step emptyCore parseSample) (start [[0x5B, 0x5D]]) [.read] = some s ∧
      s.terminated = true ∧ s.output = []) ∧
    ∃ s, runAll (step emptyCore parseSample) (start [[0xC3, 0xA9]]) [.read] = some s ∧
      s.terminated = true ∧ s.output = [] := by
  refine ⟨⟨_, rfl, rfl, rfl⟩, ?_⟩
  have hraw : handleLine emptyCore 0 parseSample [0xC3, 0xA9] = .terminates := by
    apply handleLine_harmful
    rintro (hempty | htext)
    · cases hempty
    · have hnone : String.fromUTF8? ("Malformed request: ".toUTF8 ++ quoting [0xC3]) = none := by
        decide +kernel
      change (String.fromUTF8? ("Malformed request: ".toUTF8 ++ quoting [0xC3])).isSome = true at htext
      rw [hnone] at htext
      cases htext
  refine ⟨_, rfl, ?_⟩
  rw [read]
  simp only [start]
  rw [hraw]
  exact ⟨rfl, rfl⟩

end HostProcess

end CrossNative
