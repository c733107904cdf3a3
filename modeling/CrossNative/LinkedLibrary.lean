import CrossNative.Basis.Transition

/-!
# The kept-alive answer of a linked library

A linked library answers calls and manifest requests with a pointer to a string that it
keeps alive in one slot, whoever asks. Storing an answer frees the one before it. The host
copies the string afterwards, with no lock that covers both.
-/

namespace CrossNative

set_option autoImplicit false

open Basis

variable {Request Response : Type}

/-- How far one call of `crossnative_call` or `crossnative_manifest` has come. -/
inductive Phase (Request Response : Type)
  | idle
  | computed (request : Request)
  /-- `respond` has put the string into the slot and returned the pointer. -/
  | returned (request : Request) (ptr : Nat)
  /-- The host has copied a live string, with the call it was stored by, or a freed one. -/
  | copied (request : Request) (text : Option (Nat × Response))

structure LinkedLibrary (Request Response : Type) where
  heap : Nat → Option (Nat × Response)
  /-- `LAST_RESULT`. -/
  slot : Option Nat
  calls : Nat → Phase Request Response

namespace LinkedLibrary

def fresh : LinkedLibrary Request Response where
  heap := fun _ => none
  slot := none
  calls := fun _ => .idle

inductive Action (Request : Type)
  | compute (c : Nat) (request : Request)
  | store (c : Nat) (ptr : Nat)
  | copy (c : Nat)

def free (heap : Nat → Option (Nat × Response)) : Option Nat → Nat → Option (Nat × Response)
  | none => heap
  | some ptr => Function.update heap ptr none

/-- One step; `answer` is what the library computes for a request. The string that `respond`
stores may lie at any address that is free once the one before it is: Rust allocates it
before that, Zig after. -/
def step (answer : Request → Response) (s : LinkedLibrary Request Response) :
    Action Request → Option (LinkedLibrary Request Response)
  | .compute c request =>
    match s.calls c with
    | .idle => some { s with calls := Function.update s.calls c (.computed request) }
    | _ => none
  | .store c ptr =>
    match s.calls c, free s.heap s.slot ptr with
    | .computed request, none =>
      some {
        heap := Function.update (free s.heap s.slot) ptr (some (c, answer request))
        slot := some ptr
        calls := Function.update s.calls c (.returned request ptr) }
    | _, _ => none
  | .copy c =>
    match s.calls c with
    | .returned request ptr =>
      some { s with calls := Function.update s.calls c (.copied request (s.heap ptr)) }
    | _ => none

/-- Every finished call has copied the very string that was stored for its own request. -/
def OwnAnswers (answer : Request → Response) (s : LinkedLibrary Request Response) : Prop :=
  ∀ c request text, s.calls c = .copied request text → text = some (c, answer request)

/-- No answer is stored while another call has not copied its own. -/
def Exclusive (s : LinkedLibrary Request Response) : Action Request → Prop
  | .store _ _ => ∀ c request ptr, s.calls c ≠ .returned request ptr
  | _ => True

structure Invariant (answer : Request → Response) (s : LinkedLibrary Request Response) : Prop where
  returned : ∀ c request ptr, s.calls c = .returned request ptr → s.heap ptr = some (c, answer request)
  copied : s.OwnAnswers answer

variable {answer : Request → Response} {s t : LinkedLibrary Request Response}

theorem invariant_fresh : Invariant answer (fresh : LinkedLibrary Request Response) := by
  constructor
  · intro c request ptr hc
    cases hc
  · intro c request text hc
    cases hc

theorem Invariant.compute (h : Invariant answer s) {c : Nat} {request : Request}
    (hstep : s.step answer (.compute c request) = some t) : Invariant answer t := by
  simp only [step] at hstep
  split at hstep
  · cases hstep
    constructor
    · intro d r p hd
      rcases update_cases hd with ⟨_, heq⟩ | ⟨_, hd⟩
      · cases heq
      · exact h.returned d r p hd
    · intro d r text hd
      rcases update_cases hd with ⟨_, heq⟩ | ⟨_, hd⟩
      · cases heq
      · exact h.copied d r text hd
  · cases hstep

theorem Invariant.store (h : Invariant answer s) {c ptr : Nat}
    (hallowed : s.Exclusive (.store c ptr)) (hstep : s.step answer (.store c ptr) = some t) :
    Invariant answer t := by
  simp only [step] at hstep
  split at hstep
  · cases hstep
    constructor
    · intro d r p hd
      rcases update_cases hd with ⟨rfl, heq⟩ | ⟨_, hd⟩
      · cases heq
        exact Function.update_self _ _ _
      -- nobody is waiting for the string that is freed
      · exact absurd hd (hallowed d r p)
    · intro d r text hd
      rcases update_cases hd with ⟨_, heq⟩ | ⟨_, hd⟩
      · cases heq
      · exact h.copied d r text hd
  · cases hstep

theorem Invariant.copy (h : Invariant answer s) {c : Nat}
    (hstep : s.step answer (.copy c) = some t) : Invariant answer t := by
  simp only [step] at hstep
  split at hstep
  · rename_i request ptr hcall
    cases hstep
    constructor
    · intro d r p hd
      rcases update_cases hd with ⟨_, heq⟩ | ⟨_, hd⟩
      · cases heq
      · exact h.returned d r p hd
    · intro d r text hd
      rcases update_cases hd with ⟨rfl, heq⟩ | ⟨_, hd⟩
      · cases heq
        exact h.returned d request ptr hcall
      · exact h.copied d r text hd
  · cases hstep

theorem Invariant.step {a : Action Request} (h : Invariant answer s) (hallowed : s.Exclusive a)
    (hstep : s.step answer a = some t) : Invariant answer t := by
  cases a with
  | compute c request => exact h.compute hstep
  | store c ptr => exact h.store hallowed hstep
  | copy c => exact h.copy hstep

/-- In every run whose stores are exclusive, each call returns the answer to its own request. -/
theorem linked_own_answers {actions : List (Action Request)}
    (hmeets : Meets (LinkedLibrary.step answer) Exclusive fresh actions)
    (hrun : runAll (LinkedLibrary.step answer) fresh actions = some s) : s.OwnAnswers answer := by
  have hinvariant : Invariant answer s :=
    runAll_invariant (fun _ _ _ h => h.step) actions invariant_fresh hmeets hrun
  exact hinvariant.copied

def serial : List (Action String) :=
  [.compute 0 "add", .compute 1 "manifest", .store 0 8, .copy 0, .store 1 8, .copy 1]

theorem serial_meets : Meets (LinkedLibrary.step id) Exclusive
    (fresh : LinkedLibrary String String) serial := by
  refine .cons trivial rfl ?_
  refine .cons trivial rfl ?_
  refine .cons ?_ rfl ?_
  · intro c request ptr hc
    rcases update_cases hc with ⟨_, heq⟩ | ⟨_, hc⟩
    · cases heq
    rcases update_cases hc with ⟨_, heq⟩ | ⟨_, hc⟩
    · cases heq
    · cases hc
  refine .cons trivial rfl ?_
  refine ⟨?_, fun s₅ h₅ => ⟨trivial, fun _ _ => trivial⟩⟩
  intro c request ptr hc
  rcases update_cases hc with ⟨_, heq⟩ | ⟨hfirst, hc⟩
  · cases heq
  rcases update_cases hc with ⟨heq, _⟩ | ⟨_, hc⟩
  · exact hfirst heq
  rcases update_cases hc with ⟨_, heq⟩ | ⟨_, hc⟩
  · cases heq
  rcases update_cases hc with ⟨_, heq⟩ | ⟨_, hc⟩
  · cases heq
  · cases hc

theorem linked_own_answers_serial :
    ∃ s, runAll (LinkedLibrary.step id) fresh serial = some s ∧
      s.calls 0 = .copied "add" (some (0, "add")) ∧ s.OwnAnswers id :=
  ⟨_, rfl, rfl, linked_own_answers serial_meets rfl⟩

/-- The second store frees the string that the first call is about to copy. -/
theorem linked_stale_answer : ¬ ∀ (actions : List (Action String)) (s : LinkedLibrary String String),
    runAll (LinkedLibrary.step id) fresh actions = some s → s.OwnAnswers id := by
  intro hall
  have hown := hall [.compute 0 "add", .compute 1 "sub", .store 0 8, .store 1 16, .copy 0] _ rfl
  exact absurd (hown 0 "add" none rfl) (by simp)

end LinkedLibrary

end CrossNative
