import CrossNative.Basis.Lines
import CrossNative.Bridge.JsText
import CrossNative.Bridge.NodeHost

/-!
# The child's stdout and its end

The host writes lines into a pipe, Node delivers the pipe in chunks, and the `exit` event is a
source of its own: it may arrive while text is still in the pipe.
-/

namespace CrossNative.Bridge

set_option autoImplicit false

open Basis

structure Stdout where
  host : NodeHost
  /-- The text received after the last newline. -/
  buffer : List Char
  /-- Written by the child and not delivered yet. -/
  pipe : List Char
  /-- The first response the child has written for a request. -/
  answers : Nat → Option Json
  /-- Requests the child never got. -/
  lost : List Nat
  /-- The child has written its last character. -/
  finished : Bool

/-- An error a `respondError` of the host can have sent. -/
def hasTextError (message : Json) : Bool :=
  match message.find? "error" with
  | none | some (.str _) => true
  | _ => false

namespace Stdout

def attached : Stdout where
  host := .attached
  buffer := []
  pipe := []
  answers := fun _ => none
  lost := []
  finished := false

variable (parse : List Char → Option Json) (floatText : BitVec 64 → String)

/-- `JSON.parse` of a trimmed line; an empty line is not handled at all. -/
def readLine (line : List Char) : Option Json := if trim line = [] then none else parse (trim line)

/-- The loop of the data handler over the lines of its buffer; an exception leaves the lines
after it in the buffer. -/
def handleLines (s : NodeHost) : List (List Char) → List Char → NodeHost × List Char
  | [], rest => (s, rest)
  | line :: lines, rest =>
    let t := NodeHost.handleLine floatText { s with threw := false } (readLine parse line)
    if t.threw then (t, (lines.map (· ++ ['\n'])).flatten ++ rest)
    else handleLines { t with threw := s.threw } lines rest

def onData (s : Stdout) (chunk : List Char) : Stdout :=
  let cut := cutPieces '\n' (s.buffer ++ chunk)
  let after := handleLines parse floatText s.host cut.1 cut.2
  { s with host := after.1, buffer := after.2 }

/-- The host answers only requests it has received. -/
def received (s : Stdout) (message : Json) : Bool :=
  match messageId message with
  | some id => id ∈ s.host.issued && id ∉ s.lost
  | none => true

/-- A line the host can write: text that is no document, or a response. -/
def canWrite (s : Stdout) (line : List Char) : Bool :=
  '\n' ∉ line && !s.finished &&
    match readLine parse line with
    | some message => !message.isNull && hasTextError message && s.received message
    | none => true

def responseTo (id : Nat) (line : List Char) : Option Json :=
  (readLine parse line).filter fun message => messageId message == some id

/-- The first response to each request is remembered. -/
def record (s : Stdout) (line : List Char) (id : Nat) : Option Json :=
  (s.answers id).or (responseTo parse id line)

end Stdout

inductive StdoutAction
  | request (payload : List (String × JsValue))
  | respond (line : List Char)
  /-- The child's last text, an unfinished line. -/
  | last (text : List Char)
  /-- The next chunk has `n` characters. -/
  | deliver (n : Nat)
  | wrote (id : Nat) (error : Option String)
  | exit (code : Option Int)

namespace Stdout

variable (parse : List Char → Option Json) (floatText : BitVec 64 → String)

/-- A request that could not be serialised, or whose write has failed, is never answered. -/
def step (s : Stdout) : StdoutAction → Option Stdout
  | .request payload =>
    match s.host.request payload with
    | .error _ => some s
    | .ok host =>
      match (JsValue.obj payload).stringify with
      | .ok _ => some { s with host := host }
      | .error _ => some { s with host := host, lost := s.host.nextId :: s.lost }
  | .respond line =>
    if s.canWrite parse line then
      some { s with pipe := s.pipe ++ line ++ ['\n'], answers := s.record parse line }
    else none
  | .last text =>
    if '\n' ∉ text ∧ s.finished = false then
      some { s with pipe := s.pipe ++ text, finished := true }
    else none
  | .deliver n =>
    some (({ s with pipe := s.pipe.drop n } : Stdout).onData parse floatText (s.pipe.take n))
  | .wrote id none => if id ∈ s.host.writing then some { s with host := s.host.wrote id none } else none
  | .wrote id (some error) =>
    if id ∈ s.host.writing ∧ (s.answers id).isNone then
      some { s with host := s.host.wrote id (some error), lost := id :: s.lost }
    else none
  | .exit code => if s.finished then some { s with host := s.host.exit code } else none

/-- `exit` comes when all text has been delivered; the request counter is still exact. -/
def Drained (s : Stdout) : StdoutAction → Prop
  | .request _ => s.host.nextId < 2 ^ 53
  | .exit _ => s.pipe = []
  | _ => True

/-- The first of some lines that responds to a request. -/
def firstResponse (id : Nat) (lines : List (List Char)) : Option Json :=
  lines.findSome? (responseTo parse id)

/-- The lines received or in the pipe and not handled yet. -/
def unhandled (s : Stdout) : List (List Char) := (cutPieces '\n' (s.buffer ++ s.pipe)).1

/-- A line that does not make the handler throw. -/
def Handles (line : List Char) : Prop :=
  ∀ message, readLine parse line = some message →
    message.isNull = false ∧ (NodeHost.settlement floatText message).isSome

structure Invariant (s : Stdout) : Prop where
  bounded : ∀ id ∈ s.host.issued, id < s.host.nextId
  keys : ∀ id ∈ s.host.pending, id ∈ s.host.issued
  known : ∀ id o, s.host.outcomes id = some o → id ∈ s.host.issued
  writers : ∀ id ∈ s.host.writing, id ∈ s.host.issued
  answered : ∀ id m, s.answers id = some m → id ∈ s.host.issued
  waiting : s.finished = false → ∀ id ∈ s.host.issued, id ∉ s.lost → s.answers id = none →
    id ∈ s.host.pending ∧ s.host.outcomes id = none
  whole : s.finished = false → (cutPieces '\n' (s.buffer ++ s.pipe)).2 = []
  partly : '\n' ∉ s.buffer
  handles : ∀ line ∈ s.unhandled, Handles parse floatText line
  silent : ∀ id, s.answers id = none → firstResponse parse id s.unhandled = none
  delivers : ∀ id m, s.answers id = some m →
    (id ∈ s.host.pending ∧ s.host.outcomes id = none ∧
        firstResponse parse id s.unhandled = some m) ∨
      ∃ o, NodeHost.settlement floatText m = some o ∧ s.host.outcomes id = some o

theorem invariant_attached : Invariant parse floatText attached := by
  constructor <;> simp [attached, NodeHost.attached, unhandled, cutPieces, firstResponse]

/-! ## Handling lines -/

variable {parse floatText}

theorem responseTo_eq_some {id : Nat} {line : List Char} {message : Json} :
    responseTo parse id line = some message ↔
      readLine parse line = some message ∧ messageId message = some id := by
  simp [responseTo, Option.filter_eq_some_iff]

theorem responseTo_eq_none {line : List Char} {message : Json} {id : Nat}
    (hline : readLine parse line = some message) (hne : messageId message ≠ some id) :
    responseTo parse id line = none := by
  apply Option.eq_none_iff_forall_not_mem.mpr
  intro m hm
  obtain ⟨hread, hid⟩ := responseTo_eq_some.mp hm
  rw [hline] at hread
  cases hread
  exact hne hid

theorem firstResponse_cons_nil {id : Nat} {line : List Char} :
    firstResponse parse id [line] = responseTo parse id line := by
  rw [firstResponse, List.findSome?_cons]
  cases responseTo parse id line <;> rfl

/-- `t` is `s` after the lines have been handled. -/
structure Handled (parse : List Char → Option Json) (floatText : BitVec 64 → String)
    (s t : NodeHost) (lines : List (List Char)) : Prop where
  issued : t.issued = s.issued
  nextId : t.nextId = s.nextId
  writing : t.writing = s.writing
  child : t.child = s.child
  keys : ∀ id ∈ t.pending, id ∈ s.pending
  known : ∀ id o, t.outcomes id = some o → s.outcomes id = some o ∨ id ∈ s.pending
  keeps : ∀ id o, s.outcomes id = some o → t.outcomes id = some o
  silent : ∀ id ∈ s.pending, s.outcomes id = none → firstResponse parse id lines = none →
    id ∈ t.pending ∧ t.outcomes id = none
  answered : ∀ id ∈ s.pending, s.outcomes id = none → ∀ m, firstResponse parse id lines = some m →
    ∃ o, NodeHost.settlement floatText m = some o ∧ t.outcomes id = some o

theorem Handled.nil (s : NodeHost) : Handled parse floatText s s [] where
  issued := rfl
  nextId := rfl
  writing := rfl
  child := rfl
  keys := fun _ hid => hid
  known := fun _ _ ho => Or.inl ho
  keeps := fun _ _ ho => ho
  silent := fun _ hid hnone _ => ⟨hid, hnone⟩
  answered := fun _ _ _ _ hm => by cases hm

/-- A line without a response leaves everything as it is. -/
theorem Handled.skip (s : NodeHost) {line : List Char}
    (h : ∀ id ∈ s.pending, responseTo parse id line = none) :
    Handled parse floatText s s [line] where
  issued := rfl
  nextId := rfl
  writing := rfl
  child := rfl
  keys := fun _ hid => hid
  known := fun _ _ ho => Or.inl ho
  keeps := fun _ _ ho => ho
  silent := fun _ hid hnone _ => ⟨hid, hnone⟩
  answered := fun id hid _ m hm => by
    rw [firstResponse_cons_nil, h id hid] at hm
    cases hm

theorem Handled.trans {s t u : NodeHost} {line : List Char} {lines : List (List Char)}
    (hst : Handled parse floatText s t [line])
    (htu : Handled parse floatText t u lines) :
    Handled parse floatText s u (line :: lines) where
  issued := htu.issued.trans hst.issued
  nextId := htu.nextId.trans hst.nextId
  writing := htu.writing.trans hst.writing
  child := htu.child.trans hst.child
  keys := fun id hid => hst.keys id (htu.keys id hid)
  known := fun id o ho => by
    rcases htu.known id o ho with ht | hid
    · exact hst.known id o ht
    · exact Or.inr (hst.keys id hid)
  keeps := fun id o ho => htu.keeps id o (hst.keeps id o ho)
  silent := fun id hid hnone hfirst => by
    rw [firstResponse, List.findSome?_cons] at hfirst
    cases hline : responseTo parse id line with
    | some m =>
      rw [hline] at hfirst
      cases hfirst
    | none =>
      rw [hline] at hfirst
      obtain ⟨hid', hnone'⟩ := hst.silent id hid hnone (firstResponse_cons_nil.trans hline)
      exact htu.silent id hid' hnone' hfirst
  answered := fun id hid hnone m hfirst => by
    rw [firstResponse, List.findSome?_cons] at hfirst
    cases hline : responseTo parse id line with
    | some m' =>
      rw [hline] at hfirst
      cases hfirst
      obtain ⟨o, ho, ht⟩ := hst.answered id hid hnone m (firstResponse_cons_nil.trans hline)
      exact ⟨o, ho, htu.keeps id o ht⟩
    | none =>
      rw [hline] at hfirst
      obtain ⟨hid', hnone'⟩ := hst.silent id hid hnone (firstResponse_cons_nil.trans hline)
      exact htu.answered id hid' hnone' m hfirst

/-- A response settles its own call and no other. -/
theorem Handled.settle (s : NodeHost) {line : List Char} {message : Json} {id : Nat}
    {o : Settlement} (hline : readLine parse line = some message)
    (hid : messageId message = some id) (hmem : id ∈ s.pending)
    (ho : NodeHost.settlement floatText message = some o) :
    Handled parse floatText s
      { s with toRequests := (s.toRequests.delete id).settle id o } [line] := by
  rw [Requests.settle_eq]
  refine ⟨rfl, rfl, rfl, rfl, fun id' hid' => List.mem_of_mem_erase hid', ?_, ?_, ?_, ?_⟩
  · intro id' o' ho'
    by_cases heq : id' = id
    · exact Or.inr (heq ▸ hmem)
    · exact Or.inl ((Requests.settle_of_ne (s := s.toRequests.delete id) heq).symm.trans ho')
  · intro id' o' ho'
    exact Requests.settle_keeps (s := s.toRequests.delete id) ho'
  · intro id' hid' hnone hfirst
    have hne : id' ≠ id := by
      intro heq
      have hsome : responseTo parse id' line = some message :=
        responseTo_eq_some.mpr ⟨hline, heq ▸ hid⟩
      rw [firstResponse_cons_nil, hsome] at hfirst
      cases hfirst
    exact ⟨(List.mem_erase_of_ne hne).mpr hid',
      (Requests.settle_of_ne (s := s.toRequests.delete id) hne).trans hnone⟩
  · intro id' _ hnone m hfirst
    rw [firstResponse_cons_nil] at hfirst
    obtain ⟨hread, hid'⟩ := responseTo_eq_some.mp hfirst
    rw [hline] at hread
    cases hread
    obtain rfl : id = id' := Option.some.inj (hid.symm.trans hid')
    exact ⟨o, ho, Requests.settle_self (s := s.toRequests.delete id) hnone⟩

theorem Handles.handleLine {line : List Char} (h : Handles parse floatText line) (s : NodeHost) :
    Handled parse floatText s
        (s.handleLine floatText (readLine parse line)) [line] ∧
      (s.handleLine floatText (readLine parse line)).threw = s.threw := by
  cases hline : readLine parse line with
  | none =>
    refine ⟨Handled.skip s ?_, rfl⟩
    intro id _
    simp [responseTo, hline]
  | some message =>
    obtain ⟨hnull, hsettles⟩ := h message hline
    obtain ⟨o, ho⟩ := Option.isSome_iff_exists.mp hsettles
    simp only [NodeHost.handleLine, hnull, Bool.false_eq_true, if_false]
    cases hid : messageId message with
    | none =>
      refine ⟨Handled.skip s ?_, rfl⟩
      intro id _
      apply responseTo_eq_none hline
      rw [hid]
      simp
    | some id =>
      by_cases hmem : id ∈ s.pending
      · simp only [hmem, if_true, ho]
        exact ⟨Handled.settle s hline hid hmem ho, trivial⟩
      · simp only [hmem, if_false]
        refine ⟨Handled.skip s ?_, trivial⟩
        intro id' hid'
        apply responseTo_eq_none hline
        rw [hid]
        intro heq
        exact hmem (Option.some.inj heq ▸ hid')

theorem handleLines_handled (lines : List (List Char)) (rest : List Char) (s : NodeHost)
    (h : ∀ line ∈ lines, Handles parse floatText line) :
    Handled parse floatText s
        (handleLines parse floatText s lines rest).1 lines ∧
      (handleLines parse floatText s lines rest).2 = rest := by
  induction lines generalizing s with
  | nil => exact ⟨Handled.nil s, rfl⟩
  | cons line lines ih =>
    obtain ⟨hline, hthrew⟩ := (h line List.mem_cons_self).handleLine { s with threw := false }
    rw [handleLines, if_neg (by rw [hthrew]; simp)]
    obtain ⟨hrest, hbuffer⟩ := ih
      { NodeHost.handleLine floatText { s with threw := false } (readLine parse line) with
        threw := s.threw } (fun l hl => h l (List.mem_cons_of_mem _ hl))
    refine ⟨?_, hbuffer⟩
    refine Handled.trans (t := { NodeHost.handleLine floatText { s with threw := false }
      (readLine parse line) with threw := s.threw }) ?_ hrest
    exact ⟨hline.issued, hline.nextId, hline.writing, hline.child, hline.keys, hline.known,
      hline.keeps, hline.silent, hline.answered⟩

/-! ## The steps -/

variable {s t : Stdout}

theorem received_iff {message : Json} :
    s.received message = true ↔
      ∀ id, messageId message = some id → id ∈ s.host.issued ∧ id ∉ s.lost := by
  unfold received
  cases messageId message with
  | none => simp
  | some id => simp

theorem canWrite_iff {line : List Char} :
    s.canWrite parse line = true ↔ '\n' ∉ line ∧ s.finished = false ∧
      ∀ message, readLine parse line = some message →
        message.isNull = false ∧ hasTextError message = true ∧ s.received message = true := by
  unfold canWrite
  cases readLine parse line with
  | none => simp
  | some message => simp [and_assoc]

theorem settlement_isSome {message : Json} (h : hasTextError message = true) :
    (NodeHost.settlement floatText message).isSome := by
  unfold NodeHost.settlement hasTextError at *
  split
  · rfl
  · cases herror : message.find? "error" with
    | none => simp
    | some error =>
      rw [herror] at h
      cases error with
      | str text => simp
      | null | bool | int | float | arr | obj => cases h

theorem firstResponse_append {id : Nat} {lines : List (List Char)} {line : List Char} :
    firstResponse parse id (lines ++ [line]) =
      (firstResponse parse id lines).or (responseTo parse id line) := by
  rw [firstResponse, List.findSome?_append, ← firstResponse_cons_nil]
  rfl

theorem Invariant.respond {line : List Char} (h : Invariant parse floatText s)
    (hstep : s.step parse floatText (.respond line) = some t) : Invariant parse floatText t := by
  obtain ⟨hwrite, heq⟩ := Option.ite_none_right_eq_some.mp hstep
  cases heq
  obtain ⟨hline, hopen, hmessage⟩ := canWrite_iff.mp hwrite
  have hcut : cutPieces '\n' (s.buffer ++ (s.pipe ++ line ++ ['\n'])) =
      (s.unhandled ++ [line], []) := by
    rw [List.append_assoc, ← List.append_assoc, cutPieces_append, h.whole hopen,
      List.nil_append, cutPieces_piece hline]
    rfl
  have hnew : ∀ id m, responseTo parse id line = some m → id ∈ s.host.issued ∧ id ∉ s.lost := by
    intro id m hm
    obtain ⟨hread, hid⟩ := responseTo_eq_some.mp hm
    exact received_iff.mp (hmessage m hread).2.2 id hid
  have hnone : ∀ id, s.record parse line id = none →
      s.answers id = none ∧ responseTo parse id line = none := by
    intro id hid
    exact Option.or_eq_none_iff.mp hid
  have hunhandled : Stdout.unhandled { s with
      pipe := s.pipe ++ line ++ ['\n'], answers := s.record parse line } = s.unhandled ++ [line] := by
    rw [unhandled, hcut]
  refine ⟨h.bounded, h.keys, h.known, h.writers, ?_, ?_, ?_, h.partly, ?_, ?_, ?_⟩
  · intro id m hm
    rcases Option.or_eq_some_iff.mp hm with hm | ⟨_, hm⟩
    · exact h.answered id m hm
    · exact (hnew id m hm).1
  · intro _ id hissued hlost hrecord
    exact h.waiting hopen id hissued hlost (hnone id hrecord).1
  · intro _
    rw [hcut]
  · rw [hunhandled]
    intro l hl
    rcases List.mem_append.mp hl with hl | hl
    · exact h.handles l hl
    · rw [List.mem_singleton.mp hl]
      intro message hread
      obtain ⟨hnull, herror, _⟩ := hmessage message hread
      exact ⟨hnull, settlement_isSome herror⟩
  · intro id hrecord
    obtain ⟨hanswer, hresponse⟩ := hnone id hrecord
    rw [hunhandled, firstResponse_append, h.silent id hanswer, hresponse]
    rfl
  · intro id m hm
    rw [hunhandled, firstResponse_append]
    rcases Option.or_eq_some_iff.mp hm with hanswer | ⟨hanswer, hresponse⟩
    · rcases h.delivers id m hanswer with ⟨hpending, houtcome, hfirst⟩ | hsettled
      · left
        rw [hfirst]
        exact ⟨hpending, houtcome, rfl⟩
      · exact Or.inr hsettled
    · obtain ⟨hissued, hlost⟩ := hnew id m hresponse
      obtain ⟨hpending, houtcome⟩ := h.waiting hopen id hissued hlost hanswer
      left
      rw [h.silent id hanswer, hresponse]
      exact ⟨hpending, houtcome, rfl⟩

theorem Invariant.last {text : List Char} (h : Invariant parse floatText s)
    (hstep : s.step parse floatText (.last text) = some t) : Invariant parse floatText t := by
  obtain ⟨⟨htext, hopen⟩, heq⟩ := Option.ite_none_right_eq_some.mp hstep
  cases heq
  have hunhandled : Stdout.unhandled { s with pipe := s.pipe ++ text, finished := true } =
      s.unhandled := by
    simp only [unhandled]
    rw [← List.append_assoc, cutPieces_append, h.whole hopen, List.nil_append,
      cutPieces_of_notMem htext, List.append_nil]
  refine ⟨h.bounded, h.keys, h.known, h.writers, h.answered, ?_, ?_, h.partly, ?_, ?_, ?_⟩
  · intro hfalse
    cases hfalse
  · intro hfalse
    cases hfalse
  · rw [hunhandled]
    exact h.handles
  · rw [hunhandled]
    exact h.silent
  · rw [hunhandled]
    exact h.delivers

theorem firstResponse_join {id : Nat} {lines more : List (List Char)} :
    firstResponse parse id (lines ++ more) =
      (firstResponse parse id lines).or (firstResponse parse id more) :=
  List.findSome?_append

theorem Invariant.deliver {n : Nat} (h : Invariant parse floatText s)
    (hstep : s.step parse floatText (.deliver n) = some t) : Invariant parse floatText t := by
  cases hstep
  unfold onData
  have hsplit : s.buffer ++ s.pipe = (s.buffer ++ s.pipe.take n) ++ s.pipe.drop n := by
    rw [List.append_assoc, List.take_append_drop]
  have hcut : cutPieces '\n' (s.buffer ++ s.pipe.take n ++ s.pipe.drop n) = _ :=
    cutPieces_append (s.buffer ++ s.pipe.take n) (s.pipe.drop n)
  have hrest : '\n' ∉ (cutPieces '\n' (s.buffer ++ s.pipe.take n)).2 := notMem_rest _
  rw [← hsplit] at hcut
  dsimp only
  generalize cutPieces '\n' (s.buffer ++ s.pipe.take n) = cut at hcut hrest ⊢
  obtain ⟨lines, rest⟩ := cut
  have hlines : s.unhandled = lines ++ (cutPieces '\n' (rest ++ s.pipe.drop n)).1 := by
    rw [unhandled, hcut]
  have hhandles : ∀ line ∈ lines, Handles parse floatText line := fun line hmem =>
    h.handles line (hlines ▸ List.mem_append_left _ hmem)
  obtain ⟨hhandled, hbuffer⟩ := handleLines_handled lines rest s.host hhandles
  generalize handleLines parse floatText s.host lines rest = after at hhandled hbuffer ⊢
  obtain ⟨host, buffer⟩ := after
  obtain rfl : buffer = rest := hbuffer
  dsimp only at hhandled
  refine ⟨?_, ?_, ?_, ?_, ?_, ?_, ?_, hrest, ?_, ?_, ?_⟩
  · intro id hid
    rw [hhandled.nextId]
    exact h.bounded id (hhandled.issued ▸ hid)
  · intro id hid
    exact hhandled.issued ▸ h.keys id (hhandled.keys id hid)
  · intro id o ho
    rw [hhandled.issued]
    rcases hhandled.known id o ho with ho | hpending
    · exact h.known id o ho
    · exact h.keys id hpending
  · intro id hid
    rw [hhandled.issued]
    exact h.writers id (hhandled.writing ▸ hid)
  · intro id m hm
    exact hhandled.issued ▸ h.answered id m hm
  · intro hopen id hissued hlost hanswer
    obtain ⟨hpending, hnone⟩ := h.waiting hopen id (hhandled.issued ▸ hissued) hlost hanswer
    apply hhandled.silent id hpending hnone
    have hfirst := h.silent id hanswer
    rw [hlines, firstResponse_join] at hfirst
    exact (Option.or_eq_none_iff.mp hfirst).1
  · intro hopen
    have hwhole := h.whole hopen
    rw [hcut] at hwhole
    exact hwhole
  · intro line hmem
    apply h.handles line
    rw [hlines]
    exact List.mem_append_right _ hmem
  · intro id hanswer
    have hfirst := h.silent id hanswer
    rw [hlines, firstResponse_join] at hfirst
    exact (Option.or_eq_none_iff.mp hfirst).2
  · intro id m hanswer
    rcases h.delivers id m hanswer with ⟨hpending, hnone, hfirst⟩ | ⟨o, hsettles, ho⟩
    · rw [hlines, firstResponse_join] at hfirst
      rcases Option.or_eq_some_iff.mp hfirst with hnow | ⟨hnot, hlater⟩
      · exact Or.inr (hhandled.answered id hpending hnone m hnow)
      · obtain ⟨hpending, hnone⟩ := hhandled.silent id hpending hnone hnot
        exact Or.inl ⟨hpending, hnone, hlater⟩
    · exact Or.inr ⟨o, hsettles, hhandled.keeps id o ho⟩

/-- A new id, with a promise that may have been rejected at once. -/
theorem Invariant.issue {host : NodeHost} {lost : List Nat} (h : Invariant parse floatText s)
    (hsmall : s.host.nextId < 2 ^ 53) (hissued : host.issued = s.host.issued ++ [s.host.nextId])
    (hnext : host.nextId = increment s.host.nextId)
    (hpending : host.pending = s.host.pending ++ [s.host.nextId])
    (hothers : ∀ id, id ≠ s.host.nextId → host.outcomes id = s.host.outcomes id)
    (hwriting : ∀ id ∈ host.writing, id = s.host.nextId ∨ id ∈ s.host.writing)
    (hlost : ∀ id ∈ s.lost, id ∈ lost)
    (hself : s.host.nextId ∉ lost → host.outcomes s.host.nextId = s.host.outcomes s.host.nextId) :
    Invariant parse floatText { s with host := host, lost := lost } := by
  have hfresh : s.host.nextId ∉ s.host.issued := fun hmem => Nat.lt_irrefl _ (h.bounded _ hmem)
  have hold : ∀ id ∈ s.host.issued, host.outcomes id = s.host.outcomes id := by
    intro id hid
    apply hothers
    intro heq
    exact hfresh (heq ▸ hid)
  refine ⟨?_, ?_, ?_, ?_, ?_, ?_, h.whole, h.partly, h.handles, h.silent, ?_⟩
  · intro id hid
    have hincrement : increment s.host.nextId = s.host.nextId + 1 := if_pos hsmall
    dsimp only at hid ⊢
    rw [hnext, hincrement]
    rw [hissued] at hid
    rcases List.mem_append.mp hid with hid | hid
    · exact Nat.lt_succ_of_lt (h.bounded id hid)
    · rw [List.mem_singleton.mp hid]
      exact Nat.lt_succ_self _
  · intro id hid
    dsimp only at hid ⊢
    rw [hpending] at hid
    rw [hissued]
    exact (List.mem_append.mp hid).elim (fun hid => List.mem_append_left _ (h.keys id hid))
      (List.mem_append_right _)
  · intro id o ho
    dsimp only at ho ⊢
    rw [hissued]
    by_cases heq : id = s.host.nextId
    · exact List.mem_append_right _ (List.mem_singleton.mpr heq)
    · exact List.mem_append_left _ (h.known id o ((hothers id heq).symm.trans ho))
  · intro id hid
    dsimp only at hid ⊢
    rw [hissued]
    rcases hwriting id hid with heq | hid
    · exact List.mem_append_right _ (List.mem_singleton.mpr heq)
    · exact List.mem_append_left _ (h.writers id hid)
  · intro id m hm
    dsimp only
    rw [hissued]
    exact List.mem_append_left _ (h.answered id m hm)
  · intro hopen id hid hnotLost hanswer
    dsimp only at hid hnotLost ⊢
    rw [hissued] at hid
    rw [hpending]
    rcases List.mem_append.mp hid with hid | hid
    · obtain ⟨hmem, hnone⟩ := h.waiting hopen id hid (fun hl => hnotLost (hlost id hl)) hanswer
      exact ⟨List.mem_append_left _ hmem, (hold id hid).trans hnone⟩
    · obtain rfl := List.mem_singleton.mp hid
      refine ⟨List.mem_append_right _ hid, (hself hnotLost).trans ?_⟩
      cases ho : s.host.outcomes s.host.nextId with
      | none => rfl
      | some o => exact absurd (h.known _ o ho) hfresh
  · intro id m hanswer
    dsimp only
    rw [hpending, hold id (h.answered id m hanswer)]
    rcases h.delivers id m hanswer with ⟨hmem, hrest⟩ | hsettled
    · exact Or.inl ⟨List.mem_append_left _ hmem, hrest⟩
    · exact Or.inr hsettled

theorem Invariant.request {payload : List (String × JsValue)} (h : Invariant parse floatText s)
    (hsmall : s.host.nextId < 2 ^ 53)
    (hstep : s.step parse floatText (.request payload) = some t) : Invariant parse floatText t := by
  have hkey : s.host.nextId ∉ s.host.pending := fun hmem =>
    Nat.lt_irrefl _ (h.bounded _ (h.keys _ hmem))
  have hpending := NodeHost.issue_pending hkey
  simp only [step] at hstep
  cases hrequest : s.host.request payload with
  | error message =>
    rw [hrequest] at hstep
    cases hstep
    exact h
  | ok host =>
    rw [hrequest] at hstep
    obtain ⟨_, _, ⟨j, hj, rfl⟩ | ⟨error, herror, rfl⟩⟩ := NodeHost.request_ok hrequest
    · rw [hj] at hstep
      cases hstep
      refine h.issue hsmall rfl rfl hpending (fun _ _ => rfl) ?_
        (fun _ hl => hl) (fun _ => rfl)
      intro id hid
      exact List.mem_cons.mp hid
    · rw [herror] at hstep
      cases hstep
      refine h.issue hsmall ?_ ?_ ?_ ?_ ?_ (fun id hl => List.mem_cons_of_mem _ hl) ?_
      · rw [Requests.settle_eq]
        rfl
      · rw [Requests.settle_eq]
        rfl
      · rw [Requests.settle_eq]
        exact hpending
      · intro id hne
        exact Requests.settle_of_ne (s := s.host.issue.toRequests) hne
      · intro id hid
        exact Or.inr hid
      · intro hlost
        exact absurd List.mem_cons_self hlost

theorem Invariant.wrote {id : Nat} {error : Option String} (h : Invariant parse floatText s)
    (hstep : s.step parse floatText (.wrote id error) = some t) : Invariant parse floatText t := by
  cases error with
  | none =>
    obtain ⟨_, heq⟩ := Option.ite_none_right_eq_some.mp hstep
    cases heq
    exact ⟨h.bounded, h.keys, h.known, fun id' hid' => h.writers id' (List.mem_of_mem_erase hid'),
      h.answered, h.waiting, h.whole, h.partly, h.handles, h.silent, h.delivers⟩
  | some error =>
    obtain ⟨⟨hmem, hanswer⟩, heq⟩ := Option.ite_none_right_eq_some.mp hstep
    cases heq
    rw [Option.isNone_iff_eq_none] at hanswer
    have hissued := h.writers id hmem
    simp only [NodeHost.wrote]
    rw [Requests.settle_eq]
    refine ⟨h.bounded, fun id' hid' => h.keys id' (List.mem_of_mem_erase hid'), ?_,
      fun id' hid' => h.writers id' (List.mem_of_mem_erase hid'), h.answered, ?_, h.whole, h.partly,
      h.handles, h.silent, ?_⟩
    · intro id' o ho
      by_cases heq : id' = id
      · exact heq ▸ hissued
      · exact h.known id' o ((Requests.settle_of_ne (s := s.host.toRequests.delete id) heq).symm.trans ho)
    · intro hopen id' hid' hlost hanswer'
      have hne : id' ≠ id := List.ne_of_not_mem_cons hlost
      obtain ⟨hpending, hnone⟩ :=
        h.waiting hopen id' hid' (List.not_mem_of_not_mem_cons hlost) hanswer'
      exact ⟨(List.mem_erase_of_ne hne).mpr hpending,
        (Requests.settle_of_ne (s := s.host.toRequests.delete id) hne).trans hnone⟩
    · intro id' m hm
      have hne : id' ≠ id := by
        intro heq
        rw [heq, hanswer] at hm
        cases hm
      rcases h.delivers id' m hm with ⟨hpending, hnone, hfirst⟩ | ⟨o, hsettles, ho⟩
      · left
        exact ⟨(List.mem_erase_of_ne hne).mpr hpending,
          (Requests.settle_of_ne (s := s.host.toRequests.delete id) hne).trans hnone, hfirst⟩
      · exact Or.inr ⟨o, hsettles, Requests.settle_keeps (s := s.host.toRequests.delete id) ho⟩

/-- With nothing in the pipe, every response has settled its request. -/
theorem Invariant.settled (h : Invariant parse floatText s) (hpipe : s.pipe = []) {id : Nat} {m : Json}
    (hanswer : s.answers id = some m) :
    ∃ o, NodeHost.settlement floatText m = some o ∧ s.host.outcomes id = some o := by
  rcases h.delivers id m hanswer with ⟨_, _, hfirst⟩ | hsettled
  · rw [unhandled, hpipe, List.append_nil, cutPieces_of_notMem h.partly] at hfirst
    cases hfirst
  · exact hsettled

theorem Invariant.exit {code : Option Int} (h : Invariant parse floatText s) (hpipe : s.pipe = [])
    (hstep : s.step parse floatText (.exit code) = some t) : Invariant parse floatText t := by
  obtain ⟨hfinished, heq⟩ := Option.ite_none_right_eq_some.mp hstep
  cases heq
  have hkeeps : ∀ id o, s.host.outcomes id = some o → (s.host.exit code).outcomes id = some o :=
    fun id o ho => Requests.foldl_settle_keeps s.host.pending s.host.toRequests ho
  simp only [NodeHost.exit] at hkeeps ⊢
  rw [Requests.rejectAll_eq] at hkeeps ⊢
  refine ⟨h.bounded, fun id hid => (List.not_mem_nil hid).elim, ?_, h.writers, h.answered, ?_, h.whole, h.partly,
    h.handles, h.silent, ?_⟩
  · intro id o ho
    by_cases hmem : id ∈ s.host.pending
    · exact h.keys id hmem
    · exact h.known id o
        ((Requests.foldl_settle_of_notMem s.host.pending s.host.toRequests hmem).symm.trans ho)
  · intro hopen
    exact absurd (hfinished.symm.trans hopen) (by simp)
  · intro id m hanswer
    obtain ⟨o, hsettles, ho⟩ := h.settled hpipe hanswer
    exact Or.inr ⟨o, hsettles, hkeeps id o ho⟩

theorem Invariant.step {a : StdoutAction} (h : Invariant parse floatText s) (hallowed : s.Drained a)
    (hstep : s.step parse floatText a = some t) : Invariant parse floatText t := by
  cases a with
  | request payload => exact h.request hallowed hstep
  | respond line => exact h.respond hstep
  | last text => exact h.last hstep
  | deliver n => exact h.deliver hstep
  | wrote id error => exact h.wrote hstep
  | exit code => exact h.exit hallowed hstep

/-- In a run in which `exit` comes after all the text, a request that has been answered is
settled by its answer once that is delivered, and by nothing else before. -/
theorem answered_settled (actions : List StdoutAction) {id : Nat} {m : Json}
    (hmeets : Meets (step parse floatText) Drained attached actions)
    (hrun : runAll (step parse floatText) attached actions = some s)
    (hanswer : s.answers id = some m) :
    ∃ o, NodeHost.settlement floatText m = some o ∧
      (s.host.outcomes id = none ∨ s.host.outcomes id = some o) ∧
      (s.pipe = [] → s.host.outcomes id = some o) := by
  have h : Invariant parse floatText s := by
    apply runAll_invariant _ actions (invariant_attached parse floatText) hmeets hrun
    intro s a t h hallowed hstep
    exact h.step hallowed hstep
  rcases h.delivers id m hanswer with ⟨_, hnone, hfirst⟩ | ⟨o, hsettles, ho⟩
  · obtain ⟨line, hmem, hresponse⟩ := List.exists_of_findSome?_eq_some hfirst
    have hread := (responseTo_eq_some.mp hresponse).1
    obtain ⟨o, hsettles⟩ := Option.isSome_iff_exists.mp (h.handles line hmem m hread).2
    refine ⟨o, hsettles, Or.inl hnone, ?_⟩
    intro hpipe
    obtain ⟨o', hsettles', ho'⟩ := h.settled hpipe hanswer
    exact ho'.trans (hsettles'.symm.trans hsettles)
  · exact ⟨o, hsettles, Or.inr ho, fun _ => ho⟩

/-- The line `{"id":1,"success":true}`, and a parser that knows it. -/
def pong : List Char :=
  ['{', '"', 'i', 'd', '"', ':', '1', ',', '"', 's', 'u', 'c', 'c', 'e', 's', 's', '"', ':', 't',
    'r', 'u', 'e', '}']

def pongMessage : Json := .obj [("id", .int 1), ("success", .bool true)]

def parsePong (line : List Char) : Option Json := if line = pong then some pongMessage else none

def drained : List StdoutAction :=
  [.request [("op", .json (.str "ping"))], .respond pong, .last [], .deliver 24, .exit (some 0)]

theorem drained_meets : Meets (step parsePong fun _ => "") Drained attached drained := by
  refine .cons (Nat.one_lt_two_pow (by simp)) rfl ?_
  refine .cons trivial rfl ?_
  refine .cons trivial rfl ?_
  refine .cons trivial rfl ?_
  exact ⟨rfl, fun _ _ => trivial⟩

theorem answered_settled_pong :
    ∃ s, runAll (step parsePong fun _ => "") attached drained = some s ∧
      s.host.outcomes 1 = some (.resolved pongMessage) := by
  refine ⟨_, rfl, ?_⟩
  obtain ⟨o, ho, _, hdelivered⟩ := @answered_settled parsePong (fun _ => "") _ drained 1 pongMessage
    drained_meets rfl rfl
  cases ho
  exact hdelivered rfl

/-- The child answers, writes its last character and exits; Node reports the exit first. -/
theorem answered_rejected :
    ∃ s, runAll (step parsePong fun _ => "") attached
        [.request [("op", .json (.str "ping"))], .respond pong, .last [], .exit (some 0),
          .deliver 24] = some s ∧
      s.answers 1 = some pongMessage ∧
        s.host.outcomes 1 = some (.rejected "crossnative-host exited with code 0") :=
  ⟨_, rfl, rfl, rfl⟩

end Stdout

end CrossNative.Bridge
