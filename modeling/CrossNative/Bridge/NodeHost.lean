import CrossNative.Basis.Transition
import CrossNative.Bridge.JsValue
import Mathlib.Algebra.Group.Nat.Defs
import Mathlib.Data.List.Nodup

/-!
# The request table of the Node backend

`NodeHostBackend` keeps one `pending` entry for each request it has written and not yet
settled. Responses, write callbacks, the child's events and `dispose` all work on it.
-/

namespace CrossNative.Bridge

set_option autoImplicit false

open Basis

inductive Settlement
  | resolved (message : Json)
  | rejected (message : String)

/-- The `pending` map, with the promises behind it. -/
structure Requests where
  nextId : Nat
  /-- The keys of the map, in insertion order. -/
  pending : List Nat
  /-- The ids of the promises handed out, and what they have been settled with. -/
  issued : List Nat
  outcomes : Nat → Option Settlement

namespace Requests

/-- `resolve` or `reject`; a promise that is settled stays as it is. -/
def settle (s : Requests) (id : Nat) (settlement : Settlement) : Requests :=
  match s.outcomes id with
  | some _ => s
  | none => { s with outcomes := Function.update s.outcomes id (some settlement) }

def delete (s : Requests) (id : Nat) : Requests := { s with pending := s.pending.erase id }

def rejectAll (s : Requests) (error : String) : Requests :=
  { s.pending.foldl (fun t id => t.settle id (.rejected error)) s with pending := [] }

/-- The keys are the unsettled promises, and no id was handed out twice. -/
structure Exact (s : Requests) : Prop where
  unsettled : ∀ id, id ∈ s.pending ↔ id ∈ s.issued ∧ s.outcomes id = none
  keys : s.pending.Nodup
  distinct : s.issued.Nodup
  bounded : ∀ id ∈ s.issued, id < s.nextId
  known : ∀ id o, s.outcomes id = some o → id ∈ s.issued

/-- `t` is `s` after some pending promises have been settled as `P` allows. -/
structure Progress (P : Nat → Settlement → Prop) (s t : Requests) : Prop where
  issued : t.issued = s.issued
  nextId : t.nextId = s.nextId
  keys : t.pending.Nodup
  pending : ∀ id, id ∈ t.pending ↔ id ∈ s.pending ∧ t.outcomes id = none
  keeps : ∀ id o, s.outcomes id = some o → t.outcomes id = some o
  only : ∀ id o, t.outcomes id = some o → s.outcomes id = none → id ∈ s.issued ∧ P id o

variable {P : Nat → Settlement → Prop} {s t : Requests} {id : Nat} {o : Settlement}

theorem settle_eq (s : Requests) (id : Nat) (o : Settlement) :
    s.settle id o = { s with outcomes := (s.settle id o).outcomes } := by
  unfold settle
  split <;> rfl

theorem settle_keeps {id' : Nat} {o' : Settlement} (h : s.outcomes id' = some o') :
    (s.settle id o).outcomes id' = some o' := by
  unfold settle
  split
  · exact h
  · rename_i hnone
    have hne : id' ≠ id := by
      intro heq
      rw [heq, hnone] at h
      cases h
    exact (Function.update_of_ne hne _ _).trans h

theorem settle_self (h : s.outcomes id = none) : (s.settle id o).outcomes id = some o := by
  unfold settle
  rw [h]
  exact Function.update_self _ _ _

theorem settle_of_ne {id' : Nat} (h : id' ≠ id) : (s.settle id o).outcomes id' = s.outcomes id' := by
  unfold settle
  split
  · rfl
  · exact Function.update_of_ne h _ _

theorem settle_ne_none : (s.settle id o).outcomes id ≠ none := by
  cases h : s.outcomes id with
  | none => simp [settle_self h]
  | some o' => simp [settle_keeps h]

theorem foldl_settle_eq (ids : List Nat) (s : Requests) :
    ids.foldl (fun t id => t.settle id o) s =
      { s with outcomes := (ids.foldl (fun t id => t.settle id o) s).outcomes } := by
  induction ids generalizing s with
  | nil => rfl
  | cons id ids ih =>
    rw [List.foldl_cons, ih, settle_eq]

theorem foldl_settle_keeps (ids : List Nat) {id' : Nat} {o' : Settlement} (s : Requests)
    (h : s.outcomes id' = some o') :
    (ids.foldl (fun t id => t.settle id o) s).outcomes id' = some o' := by
  induction ids generalizing s with
  | nil => exact h
  | cons id ids ih => exact ih _ (settle_keeps h)

theorem foldl_settle_of_notMem (ids : List Nat) {id' : Nat} (s : Requests) (h : id' ∉ ids) :
    (ids.foldl (fun t id => t.settle id o) s).outcomes id' = s.outcomes id' := by
  induction ids generalizing s with
  | nil => rfl
  | cons id ids ih =>
    have hne := List.ne_of_not_mem_cons h
    exact (ih _ (List.not_mem_of_not_mem_cons h)).trans (settle_of_ne hne)

theorem foldl_settle_of_mem (ids : List Nat) {id' : Nat} (s : Requests) (h : id' ∈ ids)
    (hnone : s.outcomes id' = none) :
    (ids.foldl (fun t id => t.settle id o) s).outcomes id' = some o := by
  induction ids generalizing s with
  | nil => cases h
  | cons id ids ih =>
    by_cases heq : id' = id
    · subst heq
      exact foldl_settle_keeps ids _ (settle_self hnone)
    · have hmem : id' ∈ ids := (List.mem_cons.mp h).resolve_left heq
      exact ih _ hmem ((settle_of_ne heq).trans hnone)

theorem rejectAll_eq (s : Requests) (error : String) :
    s.rejectAll error = { s with pending := [], outcomes := (s.rejectAll error).outcomes } := by
  unfold rejectAll
  rw [foldl_settle_eq]

namespace Exact

theorem refl (h : Exact s) : Progress P s s where
  issued := rfl
  nextId := rfl
  keys := h.keys
  pending := fun id => ⟨fun hid => ⟨hid, ((h.unsettled id).mp hid).2⟩, fun hid => hid.1⟩
  keeps := fun _ _ ho => ho
  only := fun id o hsome hnone => by
    rw [hnone] at hsome
    cases hsome

theorem settle (h : Exact s) (hid : id ∈ s.issued) (hP : P id o) :
    Progress P s ((s.delete id).settle id o) := by
  rw [settle_eq]
  refine ⟨rfl, rfl, h.keys.erase id, ?_, ?_, ?_⟩
  · intro id'
    change id' ∈ s.pending.erase id ↔ _
    rw [h.keys.mem_erase_iff]
    constructor
    · rintro ⟨hne, hmem⟩
      exact ⟨hmem, (settle_of_ne hne).trans ((h.unsettled id').mp hmem).2⟩
    · rintro ⟨hmem, hnone⟩
      refine ⟨?_, hmem⟩
      intro heq
      subst heq
      exact settle_ne_none hnone
  · intro id' o' ho
    exact settle_keeps ho
  · intro id' o' ho hnone
    by_cases heq : id' = id
    · subst heq
      have hself := settle_self (s := s.delete id') (o := o) hnone
      rw [hself] at ho
      cases ho
      exact ⟨hid, hP⟩
    · have hsame := settle_of_ne (s := s.delete id) (o := o) heq
      exact absurd (hnone.symm.trans (hsame.symm.trans ho)) (by simp)

theorem rejectAll (h : Exact s) {error : String} (hP : ∀ id, P id (.rejected error)) :
    Progress P s (s.rejectAll error) := by
  rw [rejectAll_eq]
  refine ⟨rfl, rfl, List.nodup_nil, ?_, ?_, ?_⟩
  · intro id
    constructor
    · intro hmem
      cases hmem
    · rintro ⟨hmem, hnone⟩
      have hsome := foldl_settle_of_mem (o := .rejected error) s.pending s hmem
        ((h.unsettled id).mp hmem).2
      exact absurd (hnone.symm.trans hsome) (by simp)
  · intro id o ho
    exact foldl_settle_keeps s.pending s ho
  · intro id o ho hnone
    by_cases hmem : id ∈ s.pending
    · have hsome := foldl_settle_of_mem (o := .rejected error) s.pending s hmem hnone
      obtain rfl : Settlement.rejected error = o := Option.some.inj (hsome.symm.trans ho)
      exact ⟨((h.unsettled id).mp hmem).1, hP id⟩
    · have hsame := foldl_settle_of_notMem (o := .rejected error) s.pending s hmem
      exact absurd (hnone.symm.trans (hsame.symm.trans ho)) (by simp)

/-- Settling keeps the table exact. -/
theorem progress (h : Exact s) (hp : Progress P s t) : Exact t where
  unsettled := fun id => by
    rw [hp.pending, h.unsettled, hp.issued]
    constructor
    · rintro ⟨⟨hissued, _⟩, hnone⟩
      exact ⟨hissued, hnone⟩
    · rintro ⟨hissued, hnone⟩
      refine ⟨⟨hissued, ?_⟩, hnone⟩
      cases ho : s.outcomes id with
      | none => rfl
      | some o => exact absurd (hnone.symm.trans (hp.keeps id o ho)) (by simp)
  keys := hp.keys
  distinct := hp.issued ▸ h.distinct
  bounded := by
    rw [hp.issued, hp.nextId]
    exact h.bounded
  known := fun id o ho => by
    rw [hp.issued]
    cases hs : s.outcomes id with
    | none => exact (hp.only id o ho hs).1
    | some o' => exact h.known id o' hs

end Exact

end Requests

/-- The backend object, and what happens to its child's streams. -/
structure NodeHost extends Requests where
  /-- Whether `child` is set. -/
  child : Bool
  disposed : Bool
  /-- Requests whose write callback has not run. -/
  writing : List Nat
  /-- The handler of the child's stdout has thrown. -/
  threw : Bool

/-- `n + 1` of a JavaScript number: doubles are exact up to 2^53. -/
def increment (n : Nat) : Nat := if n < 2 ^ 53 then n + 1 else n

/-- The key `pending.get(message.id)` looks for, where it can be one of the ids. -/
def messageId (message : Json) : Option Nat :=
  match message.find? "id" with
  | some (.int n) => if 0 ≤ n then some n.toNat else none
  | _ => none

namespace NodeHost

/-- After `attach`. -/
def attached : NodeHost where
  nextId := 1
  pending := []
  issued := []
  outcomes := fun _ => none
  child := true
  disposed := false
  writing := []
  threw := false

/-- `this.nextId++`, and the new promise with its `pending.set`. -/
def issue (s : NodeHost) : NodeHost :=
  { s with
    nextId := increment s.nextId
    pending := if s.nextId ∈ s.pending then s.pending else s.pending ++ [s.nextId]
    issued := s.issued ++ [s.nextId] }

/-- An error is the rejection of a promise that has no id. -/
def request (s : NodeHost) (payload : List (String × JsValue)) : Except String NodeHost :=
  if s.disposed || !s.child then .error "Backend has been disposed"
  else
    match (JsValue.obj payload).stringify with
    | .ok _ => .ok { s.issue with writing := s.nextId :: s.writing }
    -- what the executor throws rejects the promise
    | .error error =>
      .ok { s.issue with toRequests := s.issue.toRequests.settle s.nextId (.rejected error) }

section Lines

variable (floatText : BitVec 64 → String)

/-- How a response settles its request, unless `new BackendError` throws. -/
def settlement (message : Json) : Option Settlement :=
  if (message.find? "success").any Json.truthy then some (.resolved message)
  else
    ((Json.nullish (message.find? "error") (.str "Unknown native error")).toText floatText).map
      .rejected

/-- A line that `JSON.parse` rejects is `none`. -/
def handleLine (s : NodeHost) (line : Option Json) : NodeHost :=
  match line with
  | none => s
  | some message =>
    if message.isNull then { s with threw := true }
    else
      match messageId message with
      | some id =>
        if id ∈ s.pending then
          match settlement floatText message with
          | some o => { s with toRequests := (s.toRequests.delete id).settle id o }
          | none => { s with toRequests := s.toRequests.delete id, threw := true }
        else s
      | none => s

end Lines

/-- The callback of `stdin.write`. -/
def wrote (s : NodeHost) (id : Nat) (error : Option String) : NodeHost :=
  match error with
  | some error =>
    { s with
      writing := s.writing.erase id
      toRequests := (s.toRequests.delete id).settle id (.rejected ("Failed to write to host: " ++ error)) }
  | none => { s with writing := s.writing.erase id }

def exitText : Option Int → String
  | some code => "crossnative-host exited with code " ++ toString code
  | none => "crossnative-host exited"

def exit (s : NodeHost) (code : Option Int) : NodeHost :=
  { s with toRequests := s.toRequests.rejectAll (exitText code), child := false }

def error (s : NodeHost) (message : String) : NodeHost :=
  { s with toRequests := s.toRequests.rejectAll ("crossnative-host failed: " ++ message) }

def dispose (s : NodeHost) : NodeHost :=
  if s.disposed then s
  else { s with disposed := true, toRequests := s.toRequests.rejectAll "Backend disposed", child := false }

end NodeHost

inductive NodeHostAction
  | request (payload : List (String × JsValue))
  | line (message : Option Json)
  | wrote (id : Nat) (error : Option String)
  | exit (code : Option Int)
  | error (message : String)
  | dispose

namespace NodeHost

variable (floatText : BitVec 64 → String)

def step (s : NodeHost) : NodeHostAction → Option NodeHost
  | .request payload =>
    match s.request payload with
    | .ok t => some t
    | .error _ => some s
  | .line message => some (s.handleLine floatText message)
  | .wrote id error => if id ∈ s.writing then some (s.wrote id error) else none
  | .exit code => some (s.exit code)
  | .error message => some (s.error message)
  | .dispose => some s.dispose

/-- A line the data handler can digest: not `null`, and if it fails a pending request, with an
error that can be made a message. -/
def Digestible (s : NodeHost) (message : Json) : Prop :=
  message.isNull = false ∧
    ∀ id ∈ s.pending, messageId message = some id → (settlement floatText message).isSome

/-- What is sent can be serialised, and the counter is still exact. -/
def Allowed (s : NodeHost) : NodeHostAction → Prop
  | .request payload => s.disposed = false → s.child = true →
      (∃ j, (JsValue.obj payload).stringify = .ok j) ∧ s.nextId < 2 ^ 53
  | .line (some message) => s.Digestible floatText message
  | _ => True

/-- The events after which no request is accepted. -/
def Ends : NodeHostAction → Prop
  | .exit _ | .dispose => True
  | _ => False

/-- The events that may settle a promise, and how. -/
def Settles : NodeHostAction → Nat → Settlement → Prop
  | .line (some message), id, o => messageId message = some id ∧ settlement floatText message = some o
  | .wrote id' (some _), id, .rejected _ => id' = id
  | .exit _, _, .rejected _ => True
  | .error _, _, .rejected _ => True
  | .dispose, _, .rejected _ => True
  | _, _, _ => False

structure Invariant (s : NodeHost) : Prop extends s.toRequests.Exact where
  writers : ∀ id ∈ s.writing, id ∈ s.issued
  quiet : s.threw = false
  closed : s.child = false → s.pending = []
  ended : s.disposed = true → s.child = false

theorem invariant_attached : Invariant attached := by
  refine ⟨⟨?_, ?_, ?_, ?_, ?_⟩, ?_, ?_, ?_, ?_⟩ <;> simp [attached]

variable {floatText} {s t : NodeHost}

theorem Invariant.progress (h : Invariant s) {P : Nat → Settlement → Prop}
    (hp : Requests.Progress P s.toRequests t.toRequests) (hwriting : ∀ id ∈ t.writing, id ∈ s.writing)
    (hthrew : t.threw = s.threw) (hchild : t.child = false → s.child = false ∨ t.pending = [])
    (hended : t.disposed = true → t.child = false) : Invariant t where
  toExact := h.toExact.progress hp
  writers := fun id hid => by
    rw [hp.issued]
    exact h.writers id (hwriting id hid)
  quiet := hthrew.trans h.quiet
  closed := by
    intro hfalse
    rcases hchild hfalse with hs | hempty
    · apply List.eq_nil_iff_forall_not_mem.mpr
      intro id hid
      have hmem := ((hp.pending id).mp hid).1
      rw [h.closed hs] at hmem
      cases hmem
    · exact hempty
  ended := hended

theorem handleLine_of_pending {id : Nat} {message : Json} {o : Settlement} (hmem : id ∈ s.pending)
    (hopen : s.outcomes id = none) (hnull : message.isNull = false)
    (hid : messageId message = some id) (ho : settlement floatText message = some o) :
    (s.handleLine floatText (some message)).outcomes id = some o := by
  simp only [handleLine, hnull, Bool.false_eq_true, if_false, hid, hmem, if_true, ho]
  exact Requests.settle_self (s := s.toRequests.delete id) hopen

/-- What a request that is not refused does. -/
theorem request_ok {payload : List (String × JsValue)} (h : s.request payload = .ok t) :
    s.disposed = false ∧ s.child = true ∧
      ((∃ j, (JsValue.obj payload).stringify = .ok j ∧
          t = { s.issue with writing := s.nextId :: s.writing }) ∨
        ∃ error, (JsValue.obj payload).stringify = .error error ∧
          t = { s.issue with toRequests := s.issue.toRequests.settle s.nextId (.rejected error) }) := by
  unfold NodeHost.request at h
  split at h
  · cases h
  · rename_i hopen
    simp only [Bool.or_eq_true, not_or, Bool.not_eq_true, Bool.not_eq_false'] at hopen
    refine ⟨hopen.1, hopen.2, ?_⟩
    cases hjson : (JsValue.obj payload).stringify with
    | ok j =>
      rw [hjson] at h
      cases h
      exact Or.inl ⟨j, rfl, rfl⟩
    | error error =>
      rw [hjson] at h
      cases h
      exact Or.inr ⟨error, rfl, rfl⟩

theorem issue_pending (h : s.nextId ∉ s.pending) : s.issue.pending = s.pending ++ [s.nextId] :=
  if_neg h

theorem Invariant.request (h : Invariant s) {payload : List (String × JsValue)}
    (hallowed : s.Allowed floatText (.request payload)) (hrequest : s.request payload = .ok t) :
    Invariant t ∧ t.outcomes = s.outcomes := by
  obtain ⟨hdisposed, hchild, ⟨_, _, rfl⟩ | ⟨error, herror, _⟩⟩ := request_ok hrequest
  · obtain ⟨_, hsmall⟩ := hallowed hdisposed hchild
    have hfresh : s.nextId ∉ s.issued := fun hmem => Nat.lt_irrefl _ (h.bounded _ hmem)
    have hkey : s.nextId ∉ s.pending := fun hmem => hfresh ((h.unsettled _).mp hmem).1
    have hnone : s.outcomes s.nextId = none := by
      cases ho : s.outcomes s.nextId with
      | none => rfl
      | some o => exact absurd (h.known _ o ho) hfresh
    have hpending := issue_pending hkey
    refine ⟨⟨⟨?_, ?_, ?_, ?_, ?_⟩, ?_, h.quiet, ?_, ?_⟩, rfl⟩
    · intro id
      change id ∈ s.issue.pending ↔ id ∈ s.issued ++ [s.nextId] ∧ s.outcomes id = none
      rw [hpending, List.mem_append, List.mem_append, List.mem_singleton, h.unsettled]
      constructor
      · rintro (⟨hissued, hid⟩ | rfl)
        · exact ⟨Or.inl hissued, hid⟩
        · exact ⟨Or.inr rfl, hnone⟩
      · rintro ⟨hissued | rfl, hid⟩
        · exact Or.inl ⟨hissued, hid⟩
        · exact Or.inr rfl
    · change s.issue.pending.Nodup
      rw [hpending, ← List.concat_eq_append]
      exact h.keys.concat hkey
    · change (s.issued ++ [s.nextId]).Nodup
      rw [← List.concat_eq_append]
      exact h.distinct.concat hfresh
    · intro id hid
      have hnext : increment s.nextId = s.nextId + 1 := if_pos hsmall
      change id < increment s.nextId
      rw [hnext]
      rcases List.mem_append.mp hid with hid | hid
      · exact Nat.lt_succ_of_lt (h.bounded id hid)
      · rw [List.mem_singleton.mp hid]
        exact Nat.lt_succ_self _
    · intro id o ho
      exact List.mem_append_left _ (h.known id o ho)
    · intro id hid
      rcases List.mem_cons.mp hid with rfl | hid
      · exact List.mem_append_right _ (List.mem_singleton.mpr rfl)
      · exact List.mem_append_left _ (h.writers id hid)
    · intro hclosed
      exact absurd (hchild.symm.trans hclosed) (by simp)
    · intro hended
      exact absurd (hdisposed.symm.trans hended) (by simp)
  · obtain ⟨⟨j, hj⟩, _⟩ := hallowed hdisposed hchild
    exact absurd (hj.symm.trans herror) (by simp)

/-- Every event but a request settles pending promises, each event in its own way. -/
theorem Invariant.event (h : Invariant s) {a : NodeHostAction}
    (hevent : ∀ payload, a ≠ .request payload) (hallowed : s.Allowed floatText a)
    (hstep : s.step floatText a = some t) :
    Requests.Progress (Settles floatText a) s.toRequests t.toRequests ∧ Invariant t := by
  cases a with
  | request payload => exact absurd rfl (hevent payload)
  | line line =>
    cases hstep
    cases line with
    | none => exact ⟨h.toExact.refl, h⟩
    | some message =>
      obtain ⟨hnull, hdigest⟩ := hallowed
      simp only [handleLine, hnull, Bool.false_eq_true, if_false]
      cases hid : messageId message with
      | none => exact ⟨h.toExact.refl, h⟩
      | some id =>
        by_cases hmem : id ∈ s.pending
        · obtain ⟨o, ho⟩ := Option.isSome_iff_exists.mp (hdigest id hmem hid)
          simp only [hmem, if_true, ho]
          have hp := h.toExact.settle (P := Settles floatText (.line (some message)))
            ((h.unsettled id).mp hmem).1 ⟨hid, ho⟩
          exact ⟨hp, h.progress hp (fun _ hw => hw) rfl Or.inl h.ended⟩
        · simp only [hmem, if_false]
          exact ⟨h.toExact.refl, h⟩
  | wrote id error =>
    obtain ⟨hmem, heq⟩ := Option.ite_none_right_eq_some.mp hstep
    cases heq
    cases error with
    | none =>
      have hp := h.toExact.refl (P := Settles floatText (.wrote id none))
      exact ⟨hp, h.progress (t := s.wrote id none) hp (fun _ => List.mem_of_mem_erase) rfl Or.inl h.ended⟩
    | some error =>
      have hp := h.toExact.settle (P := Settles floatText (.wrote id (some error)))
        (o := .rejected ("Failed to write to host: " ++ error)) (h.writers id hmem) rfl
      exact ⟨hp, h.progress (t := s.wrote id (some error)) hp (fun _ => List.mem_of_mem_erase) rfl
        Or.inl h.ended⟩
  | exit code =>
    cases hstep
    have hp : Requests.Progress (Settles floatText (.exit code)) s.toRequests
        (s.toRequests.rejectAll (exitText code)) := h.toExact.rejectAll fun _ => trivial
    exact ⟨hp, h.progress (t := s.exit code) hp (fun _ hw => hw) rfl (fun _ => Or.inr rfl)
      fun _ => rfl⟩
  | error message =>
    cases hstep
    have hp : Requests.Progress (Settles floatText (.error message)) s.toRequests
        (s.toRequests.rejectAll ("crossnative-host failed: " ++ message)) :=
      h.toExact.rejectAll fun _ => trivial
    exact ⟨hp, h.progress (t := s.error message) hp (fun _ hw => hw) rfl Or.inl h.ended⟩
  | dispose =>
    cases hstep
    unfold NodeHost.dispose
    split
    · exact ⟨h.toExact.refl, h⟩
    · have hp : Requests.Progress (Settles floatText .dispose) s.toRequests
          (s.toRequests.rejectAll "Backend disposed") := h.toExact.rejectAll fun _ => trivial
      exact ⟨hp, h.progress hp (fun _ hw => hw) rfl (fun _ => Or.inr rfl) fun _ => rfl⟩

/-! ## Runs -/

theorem Invariant.step {a : NodeHostAction} (h : Invariant s) (hallowed : s.Allowed floatText a)
    (hstep : s.step floatText a = some t) : Invariant t := by
  cases a with
  | request payload =>
    simp only [NodeHost.step] at hstep
    cases hrequest : s.request payload with
    | error message =>
      rw [hrequest] at hstep
      cases hstep
      exact h
    | ok u =>
      rw [hrequest] at hstep
      cases hstep
      exact (h.request hallowed hrequest).1
  | line | wrote | exit | error | dispose => exact (h.event (by simp) hallowed hstep).2

theorem request_of_closed (h : s.child = false) (payload : List (String × JsValue)) :
    s.request payload = .error "Backend has been disposed" := by
  unfold NodeHost.request
  rw [h]
  simp

theorem child_of_closed {a : NodeHostAction} (h : s.child = false)
    (hstep : s.step floatText a = some t) : t.child = false := by
  cases a with
  | request payload =>
    simp only [NodeHost.step, request_of_closed h] at hstep
    cases hstep
    exact h
  | line line =>
    cases hstep
    unfold handleLine
    repeat' split
    all_goals exact h
  | wrote id error =>
    obtain ⟨_, heq⟩ := Option.ite_none_right_eq_some.mp hstep
    cases heq
    cases error <;> exact h
  | exit code =>
    cases hstep
    rfl
  | error message =>
    cases hstep
    exact h
  | dispose =>
    cases hstep
    unfold NodeHost.dispose
    split
    · exact h
    · rfl

theorem child_of_ends {a : NodeHostAction} (h : Invariant s) (hends : Ends a)
    (hstep : s.step floatText a = some t) : t.child = false := by
  cases a with
  | request | line | wrote | error => exact hends.elim
  | exit code =>
    cases hstep
    rfl
  | dispose =>
    cases hstep
    unfold NodeHost.dispose
    split
    · rename_i hdisposed
      exact h.ended hdisposed
    · rfl

/-- Once an event has ended the backend, it stays closed. -/
theorem closed_of_ends (actions : List NodeHostAction)
    (hmeets : Meets (step floatText) (Allowed floatText) attached actions)
    (hrun : runAll (step floatText) attached actions = some s) (hends : ∃ a ∈ actions, Ends a) :
    s.child = false := by
  refine runAll_reached (P := fun s => s.child = false) ?_ ?_ ?_ actions invariant_attached hmeets
    hrun (Or.inr hends)
  · intro s a t h hallowed hstep
    exact h.step hallowed hstep
  · intro s a t h hends hstep
    exact child_of_ends h hends hstep
  · intro s a t hclosed hstep
    exact child_of_closed hclosed hstep

theorem step_keeps {a : NodeHostAction} (h : Invariant s) (hallowed : s.Allowed floatText a)
    (hstep : s.step floatText a = some t) :
    (∀ id o, s.outcomes id = some o → t.outcomes id = some o) ∧
      ∀ id o, s.outcomes id = none → t.outcomes id = some o → Settles floatText a id o := by
  cases a with
  | request payload =>
    have hsame : t.outcomes = s.outcomes := by
      simp only [NodeHost.step] at hstep
      cases hrequest : s.request payload with
      | error message =>
        rw [hrequest] at hstep
        cases hstep
        rfl
      | ok u =>
        rw [hrequest] at hstep
        cases hstep
        exact (h.request hallowed hrequest).2
    rw [hsame]
    constructor
    · intro id o ho
      exact ho
    · intro id o hnone ho
      exact absurd (hnone.symm.trans ho) (by simp)
  | line | wrote | exit | error | dispose =>
    have hp := (h.event (by simp) hallowed hstep).1
    constructor
    · exact hp.keeps
    · intro id o hnone ho
      exact (hp.only id o ho hnone).2

/-- In a run in which every payload can be serialised and every line digested, the keys of the
table are the unsettled promises. -/
theorem table_exact (actions : List NodeHostAction)
    (hmeets : Meets (step floatText) (Allowed floatText) attached actions)
    (hrun : runAll (step floatText) attached actions = some s) :
    (∀ id, id ∈ s.pending ↔ id ∈ s.issued ∧ s.outcomes id = none) ∧ s.issued.Nodup ∧
      s.threw = false ∧
      ((∃ a ∈ actions, Ends a) → (∀ id ∈ s.issued, s.outcomes id ≠ none) ∧
        ∀ payload, s.request payload = .error "Backend has been disposed") ∧
      ∀ a t, s.Allowed floatText a → s.step floatText a = some t →
        (∀ id o, s.outcomes id = some o → t.outcomes id = some o) ∧
        ∀ id o, s.outcomes id = none → t.outcomes id = some o → Settles floatText a id o := by
  have h : Invariant s := by
    apply runAll_invariant _ actions invariant_attached hmeets hrun
    intro s a t h hallowed hstep
    exact h.step hallowed hstep
  refine ⟨h.unsettled, h.distinct, h.quiet, ?_, ?_⟩
  · intro hends
    have hclosed := closed_of_ends actions hmeets hrun hends
    constructor
    · intro id hid hnone
      have hmem := (h.unsettled id).mpr ⟨hid, hnone⟩
      rw [h.closed hclosed] at hmem
      cases hmem
    · exact request_of_closed hclosed
  · intro a t hallowed hstep
    exact step_keeps h hallowed hstep

theorem table_exact_ping :
    ∃ s, runAll (step fun _ => "") attached
        [.request [("op", .json (.str "ping"))],
          .line (some (.obj [("id", .int 1), ("success", .bool true)]))] = some s ∧
      ∀ id, id ∈ s.pending ↔ id ∈ s.issued ∧ s.outcomes id = none := by
  refine ⟨_, rfl, (table_exact [.request [("op", .json (.str "ping"))],
    .line (some (.obj [("id", .int 1), ("success", .bool true)]))] ?_ rfl).1⟩
  refine .cons (fun _ _ => ⟨⟨_, rfl⟩, by simp [attached]⟩) rfl ?_
  refine .cons ⟨rfl, fun id _ _ => rfl⟩ rfl ?_
  trivial

/-- A payload with a BigInt leaves its key behind, a `null` line makes the handler throw, and so
does an error that has no text. -/
theorem table_inexact :
    (∃ s, runAll (step fun _ => "") attached
        [.request [("op", .json (.str "call")), ("args", .arr [.bigint 1])]] = some s ∧
      1 ∈ s.pending ∧
        s.outcomes 1 = some (.rejected "Do not know how to serialize a BigInt")) ∧
    (∃ s, runAll (step fun _ => "") attached [.line (some .null)] = some s ∧ s.threw = true) ∧
    ∃ s, runAll (step fun _ => "") attached
        [.request [("op", .json (.str "ping"))],
          .line (some (.obj [("id", .int 1), ("error", .obj [("toString", .int 0)])]))] = some s ∧
      1 ∈ s.issued ∧ 1 ∉ s.pending ∧ s.outcomes 1 = none := by
  refine ⟨⟨_, rfl, List.mem_singleton.mpr rfl, rfl⟩, ⟨_, rfl, rfl⟩, ?_⟩
  exact ⟨_, rfl, List.mem_singleton.mpr rfl, List.not_mem_nil, rfl⟩

end NodeHost

end CrossNative.Bridge
