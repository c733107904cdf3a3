import CrossNative.Host
import CrossNative.Text.Errors
import CrossNative.Text.Reprint

/-!
# The host on the bytes of its lines

The host with the parser and the serializer of the library. What it writes are lines that
read as its responses, and it survives every line that is ASCII or denotes a document.
-/

namespace CrossNative.Text

set_option autoImplicit false

open Basis HostProcess

/-- `json::parse` of a line; an error is known by its `what()`. -/
def parseLine (line : List UInt8) : Except ByteArray Json :=
  match parse line with
  | .ok j => .ok j
  | .error what => .error ⟨what.toArray⟩

theorem parseLine_denotes {line : List UInt8} {j : Json} : parseLine line = .ok j ↔ Denotes line j := by
  unfold parseLine
  cases hparse : parse line with
  | ok k =>
    constructor
    · intro h
      obtain rfl := Except.ok.inj h
      exact denotes_of_parse hparse
    · intro h
      rw [Except.ok.inj (hparse.symm.trans (parse_of_denotes h))]
  | error what =>
    constructor
    · intro h
      cases h
    · intro h
      rw [parse_of_denotes h] at hparse
      cases hparse

/-! ## Responses -/

/-- An object with these keys. -/
theorem stored_obj {fields : List (String × Json)} (keys : List String) (hfields : fields.map Prod.fst = keys)
    (hkeys : keys.Pairwise fun a b => keyLess a b = true) (h : ∀ j ∈ fields.map Prod.snd, Stored j) :
    Stored (.obj fields) := by
  rw [← hfields, List.pairwise_map] at hkeys
  exact .obj hkeys fun field hfield => h field.2 (List.mem_map_of_mem hfield)

theorem stored_errorResponse {id : Json} (h : Stored id) (message : String) : Stored (errorResponse id message) :=
  stored_obj ["error", "id", "success"] rfl (by decide) (by simp [h, Stored.str, Stored.bool])

theorem stored_okResponse {id : Json} (h : Stored id) : Stored (okResponse id) :=
  stored_obj ["id", "success"] rfl (by decide) (by simp [h, Stored.bool])

theorem stored_okResult {id result : Json} (h : Stored id) (hresult : Stored result) : Stored (okResult id result) :=
  stored_obj ["id", "result", "success"] rfl (by decide) (by simp [h, hresult, Stored.bool])

/-- The documents of a result can be held by the library. -/
structure ResultStored (r : NativeResult) : Prop where
  data : ∀ payload, r.data = some payload → Stored payload
  executionTime : Stored r.metrics.executionTime
  queueTime : Stored r.metrics.queueTime

theorem stored_value {request v : Json} {key : String} (h : Stored request) (hv : request.find? key = some v) :
    Stored v := by
  cases h with
  | @obj fields hsorted hfields =>
    obtain ⟨front, back, hsplit, -⟩ := List.lookup_eq_some_iff.mp hv
    exact hfields (key, v) (by rw [hsplit]; simp)
  | _ => cases hv

theorem stored_valueAs {j v fallback : Json} {key : String} (h : Stored j) (hfallback : Stored fallback)
    (hv : j.valueAs .ok key fallback = .ok v) : Stored v := by
  cases j with
  | obj fields =>
    simp only [Json.valueAs] at hv
    cases hlookup : fields.lookup key with
    | none =>
      rw [hlookup] at hv
      exact Except.ok.inj hv ▸ hfallback
    | some w =>
      rw [hlookup] at hv
      exact Except.ok.inj hv ▸ stored_value h hlookup
  | null | bool | int | float | str | arr => cases hv

theorem stored_fields {r : NativeResult} (h : ResultStored r) {result outputs : Json}
    (hfields : r.fields = .ok (result, outputs)) : Stored result ∧ Stored outputs := by
  unfold NativeResult.fields NativeResult.payload at hfields
  cases hdata : r.data with
  | none =>
    rw [hdata] at hfields
    cases hfields
  | some payload =>
    rw [hdata] at hfields
    change (do
      let result ← payload.valueAs .ok "result" .null
      let outputs ← payload.valueAs .ok "outputs" (.arr [])
      return (result, outputs)) = _ at hfields
    obtain ⟨result', hresult, hrest⟩ := Parser.of_bind_ok hfields
    obtain ⟨outputs', houtputs, hpair⟩ := Parser.of_bind_ok hrest
    cases hpair
    exact ⟨stored_valueAs (h.data payload hdata) .null hresult,
      stored_valueAs (h.data payload hdata) (.arr (by simp)) houtputs⟩

theorem stored_toResponse {id : Json} (hid : Stored id) {r : NativeResult} (h : ResultStored r) :
    Stored (toResponse id r) := by
  unfold toResponse
  split
  · split
    · rename_i result outputs hfields
      obtain ⟨hresult, houtputs⟩ := stored_fields h hfields
      have hmetrics : Stored r.metrics.toJson :=
        stored_obj ["executionTime", "queueTime", "threadId"] rfl (by decide) (by simp [h.executionTime, h.queueTime, Stored.str])
      exact stored_obj ["id", "metrics", "outputs", "result", "success"] rfl (by decide)
        (by simp [hid, hmetrics, houtputs, hresult, Stored.bool])
    · exact stored_obj ["error", "id", "success"] rfl (by decide) (by simp [hid, Stored.bool, Stored.str])
  · exact stored_obj ["error", "id", "success"] rfl (by decide) (by simp [hid, Stored.bool, Stored.str])

/-! ## Whole runs -/

/-- The documents the core hands out can be held by the library. -/
structure CoreStored (core : HostCore) : Prop where
  functions : ∀ n moduleId functions, core.getModuleFunctions n moduleId = .ok functions → Stored functions
  manifest : ∀ n moduleId manifest, core.getModuleManifest n moduleId = .ok manifest → Stored manifest
  stats : ∀ n, Stored (core.getStats n)
  result : ∀ n moduleId function args, ResultStored (core.callFunction n moduleId function args)

def OutcomeStored : LineOutcome → Prop
  | .answered response => Stored response
  | .dispatched id r => Stored id ∧ ResultStored r
  | .skipped | .terminates => True

theorem gives_bind {P : LineOutcome → Prop} {α : Type} {x : Except Fault α} {f : α → Except Fault LineOutcome}
    (h : ∀ a, x = .ok a → Gives P (f a)) : Gives P (x >>= f) := by
  intro o ho
  obtain ⟨a, ha, hrest⟩ := Parser.of_bind_ok ho
  exact h a ha o hrest

variable {core : HostCore} {n : Nat} {request id : Json}

theorem handleLoad_stored (hcore : CoreStored core) (hid : Stored id) :
    Gives OutcomeStored (handleLoad core n request id) := by
  unfold handleLoad
  refine Gives.bind fun moduleId => Gives.bind fun language => Gives.bind fun path => ?_
  split
  · refine gives_bind fun functions hfunctions => gives_bind fun manifest hmanifest => Gives.pure ?_
    exact stored_obj ["functions", "id", "manifest", "success"] rfl (by decide)
      (by simp [hcore.functions n moduleId functions hfunctions, hcore.manifest n moduleId manifest hmanifest, hid, Stored.bool])
  · exact Gives.pure (stored_errorResponse hid _)

theorem handleCall_stored (hcore : CoreStored core) (hid : Stored id) :
    Gives OutcomeStored (handleCall core n request id) := by
  unfold handleCall
  refine Gives.bind fun moduleId => Gives.bind fun function => Gives.bind fun args => Gives.bind fun priority => ?_
  have hrest : Gives OutcomeStored (do
      core.startThread n
      return .dispatched id (core.callFunction n moduleId function args)) :=
    Gives.bind fun _ => Gives.pure ⟨hid, hcore.result n moduleId function args⟩
  split
  · exact Gives.bind fun _ => hrest
  · exact hrest

theorem dispatch_stored (hcore : CoreStored core) (hid : Stored id) (op : String) :
    Gives OutcomeStored (dispatch core n request id op) := by
  unfold dispatch
  split
  · exact Gives.pure (stored_okResult hid (.str "pong"))
  split
  · exact handleLoad_stored hcore hid
  split
  · exact handleCall_stored hcore hid
  split
  · exact Gives.bind fun moduleId => gives_bind fun functions hfunctions =>
      Gives.pure (stored_okResult hid (hcore.functions n moduleId functions hfunctions))
  split
  · exact Gives.bind fun _ => Gives.pure (stored_okResponse hid)
  split
  · exact Gives.pure (stored_okResult hid (hcore.stats n))
  split
  · exact Gives.bind fun _ => Gives.pure (stored_okResponse hid)
  · exact Gives.pure (stored_errorResponse hid _)

theorem handleLine_stored (hcore : CoreStored core) (line : List UInt8) :
    OutcomeStored (handleLine core n parseLine line) := by
  unfold handleLine
  split
  · trivial
  split
  · unfold reportMalformed
    split
    · exact stored_errorResponse .null _
    · trivial
  · rename_i request hparse
    have hrequest := (parseLine_denotes.mp hparse).settled.stored
    split
    · rename_i id op hid hop
      have hid : Stored id := stored_valueAs hrequest .null hid
      cases hdispatch : dispatch core n request id op with
      | ok outcome => exact dispatch_stored hcore hid op outcome hdispatch
      | error fault => exact stored_errorResponse hid _
    · trivial

/-- The responses written and waited for can be held by the library. -/
structure Writing (s : HostState) : Prop where
  output : ∀ response ∈ s.output, Stored response
  pending : ∀ entry ∈ s.pending, Stored entry.1 ∧ ResultStored entry.2

theorem Writing.step (hcore : CoreStored core) {s t : HostState} {a : HostAction} (h : Writing s)
    (hstep : HostProcess.step core parseLine s a = some t) : Writing t := by
  cases a with
  | read =>
    simp only [HostProcess.step] at hstep
    split at hstep
    · rename_i line rest hinput
      obtain ⟨-, heq⟩ := Option.ite_none_left_eq_some.mp hstep
      cases heq
      have houtcome := handleLine_stored (n := s.lines) hcore line
      unfold HostProcess.read
      cases hline : handleLine core s.lines parseLine line with
      | skipped => exact ⟨h.output, h.pending⟩
      | terminates => exact ⟨h.output, h.pending⟩
      | answered response =>
        rw [hline] at houtcome
        refine ⟨List.forall_mem_append.mpr ⟨h.output, ?_⟩, h.pending⟩
        intro other hother
        exact List.mem_singleton.mp hother ▸ houtcome
      | dispatched id r =>
        rw [hline] at houtcome
        refine ⟨h.output, List.forall_mem_append.mpr ⟨h.pending, ?_⟩⟩
        intro entry hentry
        exact List.mem_singleton.mp hentry ▸ houtcome
    · cases hstep
  | answer i =>
    simp only [HostProcess.step] at hstep
    split at hstep
    · rename_i id result hpending
      obtain ⟨-, heq⟩ := Option.ite_none_left_eq_some.mp hstep
      cases heq
      obtain ⟨hid, hresult⟩ := h.pending _ (List.mem_of_getElem? hpending)
      refine ⟨List.forall_mem_append.mpr ⟨h.output, ?_⟩, fun entry hentry => h.pending entry (List.mem_of_mem_eraseIdx hentry)⟩
      intro other hother
      exact List.mem_singleton.mp hother ▸ stored_toResponse hid hresult
    · cases hstep
  | finish =>
    obtain ⟨-, heq⟩ := Option.ite_none_right_eq_some.mp hstep
    cases heq
    exact ⟨h.output, h.pending⟩

/-- Every response of every run is one line of UTF-8, and reads as what was written. -/
theorem responses_are_lines (hcore : CoreStored core) {lines : List (List UInt8)} {actions : List HostAction}
    {s : HostState} (hrun : runAll (HostProcess.step core parseLine) (start lines) actions = some s) :
    ∀ response ∈ s.output, ∃ text, Serializer.dump response = .ok text ∧ OneLine text ∧
      parseLine text = .ok response.dump := by
  have hwriting : Writing s := by
    refine runAll_invariant ?_ actions (s := start lines) ⟨by simp [HostProcess.start], by simp [HostProcess.start]⟩
      (meets_true actions _) hrun
    intro s a t h _ hstep
    exact h.step hcore hstep
  intro response hresponse
  obtain ⟨text, hdump, hdenotes, hline⟩ := (hwriting.output response hresponse).denotes
  exact ⟨text, hdump, hline, parseLine_denotes.mpr hdenotes⟩

/-- A core with one module and one function, which answers 42. -/
def answeringCore : HostCore where
  loadModule := fun _ _ _ _ => true
  getModuleFunctions := fun _ _ => .ok (.arr [.str "answer"])
  getModuleManifest := fun _ _ => .ok (.arr [.str "answer"])
  getStats := fun _ => .obj []
  callFunction := fun _ _ _ _ =>
    { success := true, data := some (.obj [("outputs", .arr []), ("result", .int 42)]), error := ""
      metrics := ⟨.int 3, .int 1, "7"⟩ }
  startThread := fun _ => .ok ()

theorem coreStored_answeringCore : CoreStored answeringCore where
  functions := by
    intro n moduleId functions h
    obtain rfl := Except.ok.inj h
    exact .arr (by simp [Stored.str])
  manifest := by
    intro n moduleId manifest h
    obtain rfl := Except.ok.inj h
    exact .arr (by simp [Stored.str])
  stats := fun n => .obj List.Pairwise.nil (by simp)
  result := by
    intro n moduleId function args
    refine ⟨?_, .int (by decide) (by decide), .int (by decide) (by decide)⟩
    intro payload h
    obtain rfl := Option.some.inj h
    have h42 : Stored (.int 42) := .int (by decide) (by decide)
    exact stored_obj ["outputs", "result"] rfl (by decide) (by simp [h42, Stored.arr])

/-- A ping under the id 7. -/
def pingLine : List UInt8 := bytesOf "\x7b\"op\": \"ping\", \"id\": 7\x7d"

/-- A call under the id 8. -/
def callLine : List UInt8 := bytesOf "\x7b\"op\":\"call\",\"id\":8,\"moduleId\":\"m\",\"function\":\"answer\"\x7d"

/-- What the host has written when it has read both lines and the helper thread has answered. -/
def answeredOutput : List Json :=
  [okResult (.int 7) (.str "pong"), toResponse (.int 8) (answeringCore.callFunction 1 "m" "answer" (.arr []))]

theorem responses_are_lines_ping :
    ∃ s, runAll (HostProcess.step answeringCore parseLine) (start [pingLine, callLine]) [.read, .read, .answer 0] = some s ∧
      s.output = answeredOutput ∧
      ∀ response ∈ s.output, ∃ text, Serializer.dump response = .ok text ∧ OneLine text ∧
        parseLine text = .ok response.dump := by
  have hrun : ∃ s, runAll (HostProcess.step answeringCore parseLine) (start [pingLine, callLine]) [.read, .read, .answer 0] =
      some s ∧ s.output = answeredOutput := ⟨_, rfl, rfl⟩
  obtain ⟨s, hrun, houtput⟩ := hrun
  exact ⟨s, hrun, houtput, responses_are_lines coreStored_answeringCore hrun⟩

/-! ## Lines that are ASCII -/

/-- A line of ASCII, or one that denotes a document. -/
def Sane (line : List UInt8) : Prop := (∀ b ∈ line, b < 0x80) ∨ ∃ j, Denotes line j

theorem utf8_of_ascii {line what : List UInt8} (hascii : ∀ b ∈ line, b < 0x80) (h : parse line = .error what) :
    IsUtf8 what := by
  have hraised := parse_yields line
  rw [h] at hraised
  obtain ⟨-, front, quoted, back, hfront, hback, hquoted, rfl⟩ := hraised
  rw [List.append_assoc, hfront.utf8.append_iff, isUtf8_spelled hback]
  have hall : ∀ b ∈ quoted, b < 0x80 := fun b hb => hascii b (hquoted.subset hb)
  clear hquoted h hascii
  induction quoted with
  | nil => exact .nil
  | cons b quoted ih =>
    obtain ⟨hb, hrest⟩ := List.forall_mem_cons.mp hall
    exact (isUtf8_cons_ascii hb quoted).mpr (ih hrest)

theorem malformed_text (what : List UInt8) :
    (String.fromUTF8? ("Malformed request: ".toUTF8 ++ ⟨what.toArray⟩)).isSome = true ↔ IsUtf8 what := by
  have hbytes : "Malformed request: ".toUTF8 ++ ⟨what.toArray⟩ =
      ByteArray.mk (bytesOf "Malformed request: " ++ what).toArray := by
    apply ByteArray.ext
    simp [bytesOf]
  rw [hbytes, ← (isUtf8_bytesOf "Malformed request: ").append_iff what]
  exact textOf?_isSome

/-- An object whose op, if it has one, is a string. -/
def IsRequest (j : Json) : Prop := j.isObject = true ∧ ∀ op, j.find? "op" = some op → ∃ s, op = .str s

/-- What the host survives, in terms of the line alone. -/
theorem harmless_iff {line : List UInt8} (h : Sane line) :
    Harmless parseLine line ↔ line = [] ∨ ∀ j, Denotes line j → IsRequest j := by
  unfold Harmless
  refine or_congr_right ?_
  cases hparse : parseLine line with
  | ok request =>
    have hdenotes := parseLine_denotes.mp hparse
    constructor
    · intro hrequest j hj
      obtain rfl := Except.ok.inj (hparse.symm.trans (parseLine_denotes.mpr hj))
      exact hrequest
    · intro hall
      exact hall request hdenotes
  | error message =>
    have hnone (j : Json) : ¬ Denotes line j := by
      intro hj
      rw [parseLine_denotes.mpr hj] at hparse
      cases hparse
    refine ⟨fun _ j hj => (hnone j hj).elim, fun _ => ?_⟩
    unfold parseLine at hparse
    cases hwhat : parse line with
    | ok j => exact (hnone j (denotes_of_parse hwhat)).elim
    | error what =>
      rw [hwhat] at hparse
      obtain rfl := Except.error.inj hparse
      rcases h with hascii | ⟨j, hj⟩
      · exact (malformed_text what).mpr (utf8_of_ascii hascii hwhat)
      · exact (hnone j hj).elim

/-- The host serves lines of ASCII, and lines that denote a document, exactly if each of the
documents is a request. -/
theorem serves_sane_iff (core : HostCore) {lines : List (List UInt8)} (hsane : ∀ line ∈ lines, Sane line) :
    (∀ actions s, runAll (HostProcess.step core parseLine) (start lines) actions = some s →
      s.terminated = false ∧ (s.returned = true → (s.output.map idOf).Perm (requestIds parseLine lines))) ↔
      ∀ line ∈ lines, line = [] ∨ ∀ j, Denotes line j → IsRequest j := by
  have hiff : (∀ line ∈ lines, Harmless parseLine line) ↔ ∀ line ∈ lines, line = [] ∨ ∀ j, Denotes line j → IsRequest j :=
    forall₂_congr fun line hline => harmless_iff (hsane line hline)
  rw [← hiff]
  constructor
  · intro hserves
    by_contra hnot
    have hsome : ∃ line ∈ lines, ¬ Harmless parseLine line := by simpa using hnot
    obtain ⟨actions, s, hrun, hterminated⟩ := @exists_terminated core parseLine lines hsome (start lines) rfl rfl
    rw [(hserves actions s hrun).1] at hterminated
    cases hterminated
  · intro hall actions s hrun
    have hserving : Serving parseLine lines s := by
      refine runAll_invariant ?_ actions (serving_start lines) (meets_true actions _) hrun
      intro s a t h _ hstep
      exact h.step hall hstep
    refine ⟨hserving.alive, ?_⟩
    intro hreturned
    obtain ⟨hinput, hpending⟩ := hserving.finished hreturned
    obtain ⟨done, hlines, hperm⟩ := hserving.split
    rw [hinput, List.append_nil] at hlines
    rwa [hpending, List.map_nil, List.append_nil, ← hlines] at hperm

theorem serves_sane_iff_ping :
    (∀ actions s, runAll (HostProcess.step emptyCore parseLine) (start [pingLine, [0x5B]]) actions = some s →
      s.terminated = false ∧
        (s.returned = true → (s.output.map idOf).Perm (requestIds parseLine [pingLine, [0x5B]]))) ↔
      ∀ line ∈ [pingLine, [0x5B]], line = [] ∨ ∀ j, Denotes line j → IsRequest j :=
  serves_sane_iff emptyCore (by
    have hascii : [pingLine, [0x5B]].all (fun line => line.all fun b => b < 0x80) = true := by decide +kernel
    intro line hline
    have hline := List.all_eq_true.mp hascii line hline
    exact Or.inl (by simpa using hline))

/-- A letter beyond ASCII that stands by itself ends the host. -/
example : handleLine emptyCore 0 parseLine [0xC3, 0xA9] = .terminates := by
  refine handleLine_harmful ?_
  rintro (hempty | htext)
  · cases hempty
  · have herror : parseLine [0xC3, 0xA9] = .error ⟨(letterMessage 0xC3).toArray⟩ := rfl
    rw [herror] at htext
    have hnone : (textOf? (letterMessage 0xC3)).isSome = false := by decide +kernel
    rw [textOf?_isSome.mpr ((malformed_text _).mp htext)] at hnone
    cases hnone

end CrossNative.Text
