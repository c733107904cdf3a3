import CrossNative.Basis.BinaryFloat
import CrossNative.Bridge.Plugins

/-!
# Bounding the wait on a call

`guardCall` races the promise of a call against a timer and an abort signal. A promise settles
at one moment and its reaction runs as a job at a later one; a timer and the listeners of a
signal run when they fire.
-/

namespace CrossNative.Bridge

set_option autoImplicit false

open Basis

abbrev Settled : Type := Except Thrown JsArg

/-- What `guardCall` reads of the options: the timeout, and whether the signal is aborted. -/
structure GuardOptions where
  timeout : Option (BitVec 64)
  signal : Option Bool

/-- A number counts as true unless it is a zero or NaN. -/
def truthyNumber (bits : BitVec 64) : Bool :=
  let magnitude := FloatFormat.binary64.magnitude bits.toNat
  0 < magnitude && magnitude ≤ FloatFormat.binary64.infinity

def GuardOptions.deadline (options : GuardOptions) : Option (BitVec 64) :=
  options.timeout.filter truthyNumber

/-- What `then` has registered. -/
inductive Reaction
  | unregistered
  | waiting
  /-- The job is in the queue. -/
  | queued (result : Settled)
  | ran

def Reaction.isRegistered : Reaction → Bool
  | .unregistered => false
  | _ => true

structure CallGuard where
  /-- There is nothing to guard against: the promise itself was returned. -/
  passes : Bool
  /-- What the promise of the call has been settled with. -/
  underlying : Option Settled
  reaction : Reaction
  /-- The flag that `finish` checks. -/
  settled : Bool
  /-- The variable `timer` is set. -/
  timer : Bool
  /-- The timer is pending. -/
  armed : Bool
  /-- `onAbort` is registered. -/
  listening : Bool
  /-- The calls of `resolve` and `reject`. -/
  settlements : List Settled

inductive GuardEvent
  /-- The promise of the call fulfils or rejects. -/
  | settles (result : Settled)
  /-- The job of its reaction runs. -/
  | reacts
  | timerFires
  | abortFires

def GuardEvent.settlement : GuardEvent → Option Settled
  | .settles result => some result
  | _ => none

namespace CallGuard

section Guard

variable (numberText : BitVec 64 → String) (moduleId methodId : String)

def aborted : Settled := .error (.error (.native ("Call to " ++ moduleId ++ "." ++ methodId ++ " was aborted")))

def timedOut (timeout : BitVec 64) : Settled :=
  .error (.failedCall ("Native call timed out after " ++ numberText timeout ++ "ms: " ++ moduleId ++ "." ++ methodId)
    moduleId methodId)

def cleanup (g : CallGuard) : CallGuard :=
  { g with armed := g.armed && !g.timer, listening := false }

def finish (g : CallGuard) (value : Settled) : CallGuard :=
  if g.settled then g
  else
    let g := cleanup { g with settled := true }
    { g with settlements := g.settlements ++ [value] }

/-- Before the executor runs. -/
def start (underlying : Option Settled) (passes : Bool) : CallGuard where
  passes := passes
  underlying := underlying
  reaction := .unregistered
  settled := false
  timer := false
  armed := false
  listening := false
  settlements := []

/-- `promise.then(..)`: of a settled promise, a job is queued at once. -/
def attach (g : CallGuard) : CallGuard :=
  { g with reaction := match g.underlying with | none => .waiting | some result => .queued result }

def executor (options : GuardOptions) (g : CallGuard) : CallGuard :=
  let g := g.attach
  if options.signal = some true then g.finish (aborted moduleId methodId)
  else
    let g := if options.deadline.isSome then { g with timer := true, armed := true } else g
    { g with listening := options.signal.isSome }

def guardCall (options : GuardOptions) (underlying : Option Settled) : CallGuard :=
  if options.deadline.isNone ∧ options.signal.isNone then
    { start underlying true with settlements := underlying.toList }
  else executor moduleId methodId options (start underlying false)

/-- A settled promise stays as it is, and what is not registered does not run. -/
def step (options : GuardOptions) (g : CallGuard) : GuardEvent → CallGuard
  | .settles result =>
    if g.underlying.isSome then g
    else if g.passes then { g with underlying := some result, settlements := [result] }
    else
      match g.reaction with
      | .waiting => { g with underlying := some result, reaction := .queued result }
      | _ => { g with underlying := some result }
  | .reacts =>
    match g.reaction with
    | .queued result => finish { g with reaction := .ran } result
    | _ => g
  | .timerFires =>
    match options.deadline with
    | some timeout =>
      if g.armed then finish { g with armed := false } (timedOut numberText moduleId methodId timeout) else g
    | none => g
  | .abortFires => if g.listening then g.finish (aborted moduleId methodId) else g

def run (options : GuardOptions) (underlying : Option Settled) (events : List GuardEvent) : CallGuard :=
  events.foldl (step numberText moduleId methodId options) (guardCall moduleId methodId options underlying)

/-! ## Which event comes first -/

/-- The outcome of the first event, the promise of the call counting when it settles. -/
def firstToHappen (options : GuardOptions) (underlying : Option Settled) : List GuardEvent → Option Settled
  | events =>
    if options.signal = some true then some (aborted moduleId methodId)
    else underlying.or (events.findSome? fun
      | .settles result => some result
      | .reacts => none
      | .timerFires => options.deadline.map (timedOut numberText moduleId methodId)
      | .abortFires => options.signal.map fun _ => aborted moduleId methodId)

/-- The outcome of the first event to reach the code, `queued` being the settlement of a promise
whose reaction has not run. -/
def firstToReach (options : GuardOptions) : Option Settled → List GuardEvent → Option Settled
  | _, [] => none
  | queued, .settles result :: events => firstToReach options (queued.or (some result)) events
  | some result, .reacts :: _ => some result
  | none, .reacts :: events => firstToReach options none events
  | queued, .timerFires :: events =>
    match options.deadline with
    | some timeout => some (timedOut numberText moduleId methodId timeout)
    | none => firstToReach options queued events
  | queued, .abortFires :: events =>
    match options.signal with
    | some _ => some (aborted moduleId methodId)
    | none => firstToReach options queued events

def firstToArrive (options : GuardOptions) (underlying : Option Settled) (events : List GuardEvent) :
    Option Settled :=
  if options.signal = some true then some (aborted moduleId methodId)
  else if options.deadline.isNone ∧ options.signal.isNone then
    underlying.or (events.findSome? GuardEvent.settlement)
  else firstToReach numberText moduleId methodId options underlying events

end Guard

/-- Settled at most once, by what came first; then there is nothing left to fire. -/
structure FirstWins (first : Option Settled) (g : CallGuard) : Prop where
  outcome : g.settlements = first.toList
  clean : g.settlements ≠ [] → g.armed = false ∧ g.listening = false
  handled : g.passes = false → g.reaction.isRegistered = true

section Runs

variable {numberText : BitVec 64 → String} {moduleId methodId : String} {options : GuardOptions}
  {g : CallGuard} {queued : Option Settled}

/-- The promise of the call has settled with `queued`, or not yet, and nothing has reached the code. -/
structure Open (options : GuardOptions) (queued : Option Settled) (g : CallGuard) : Prop where
  passes : g.passes = false
  underlying : g.underlying = queued
  reaction : g.reaction = match queued with | none => .waiting | some result => .queued result
  settled : g.settled = false
  timer : g.timer = options.deadline.isSome
  armed : g.armed = options.deadline.isSome
  listening : g.listening = options.signal.isSome
  settlements : g.settlements = []

structure Closed (value : Settled) (g : CallGuard) : Prop where
  passes : g.passes = false
  settled : g.settled = true
  armed : g.armed = false
  listening : g.listening = false
  settlements : g.settlements = [value]
  reaction : g.reaction.isRegistered = true

theorem Closed.firstWins {value : Settled} (h : Closed value g) : FirstWins (some value) g where
  outcome := h.settlements
  clean := fun _ => ⟨h.armed, h.listening⟩
  handled := fun _ => h.reaction

theorem Open.firstWins (h : Open options queued g) : FirstWins none g where
  outcome := h.settlements
  clean := fun hne => absurd h.settlements hne
  handled := fun _ => by
    rw [h.reaction]
    cases queued <;> rfl

theorem finish_settled (h : g.settled = true) (value : Settled) : g.finish value = g := if_pos h

/-- Whatever fires after the first event finds the flag set. -/
theorem Closed.step {value : Settled} (h : Closed value g) (event : GuardEvent) :
    Closed value (g.step numberText moduleId methodId options event) := by
  cases event with
  | settles result =>
    simp only [CallGuard.step, h.passes, Bool.false_eq_true, if_false]
    split
    · exact h
    · split
      · exact ⟨rfl, h.settled, h.armed, h.listening, h.settlements, rfl⟩
      · exact ⟨rfl, h.settled, h.armed, h.listening, h.settlements, h.reaction⟩
  | reacts =>
    simp only [CallGuard.step]
    split
    · rw [finish_settled (g := { g with reaction := .ran }) h.settled]
      exact ⟨h.passes, h.settled, h.armed, h.listening, h.settlements, rfl⟩
    · exact h
  | timerFires =>
    simp only [CallGuard.step, h.armed, Bool.false_eq_true, if_false]
    split <;> exact h
  | abortFires =>
    simp only [CallGuard.step, h.listening, Bool.false_eq_true, if_false]
    exact h

theorem Closed.run {value : Settled} (h : Closed value g) (events : List GuardEvent) :
    Closed value (events.foldl (CallGuard.step numberText moduleId methodId options) g) := by
  induction events generalizing g with
  | nil => exact h
  | cons event events ih => exact ih (h.step event)

/-- `finish` before anything else has called it. -/
theorem finish_open (hsettled : g.settled = false) (hpasses : g.passes = false)
    (harmed : g.armed = true → g.timer = true) (hsettlements : g.settlements = [])
    (hreaction : g.reaction.isRegistered = true) (value : Settled) : Closed value (g.finish value) := by
  have hfinish : g.finish value =
      { g with settled := true, armed := g.armed && !g.timer, listening := false, settlements := g.settlements ++ [value] } :=
    if_neg (Bool.eq_false_iff.mp hsettled)
  rw [hfinish, hsettlements]
  refine ⟨hpasses, rfl, ?_, rfl, rfl, hreaction⟩
  cases harm : g.armed with
  | false => rfl
  | true => simp [harmed harm]

theorem Open.isRegistered (h : Open options queued g) : g.reaction.isRegistered = true :=
  h.firstWins.handled h.passes

theorem Open.finish (h : Open options queued g) (value : Settled) : Closed value (g.finish value) :=
  finish_open h.settled h.passes (fun harmed => h.timer.trans (h.armed.symm.trans harmed)) h.settlements
    h.isRegistered value

/-! ## What each event does to a call that is open -/

theorem Open.settles (h : Open options queued g) (result : Settled) :
    Open options (queued.or (some result)) (g.step numberText moduleId methodId options (.settles result)) := by
  cases queued with
  | none =>
    simp only [CallGuard.step, h.underlying, h.passes, h.reaction, Option.isSome_none, Bool.false_eq_true, if_false]
    exact ⟨rfl, rfl, rfl, h.settled, h.timer, h.armed, h.listening, h.settlements⟩
  | some earlier =>
    simp only [CallGuard.step, h.underlying, Option.isSome_some, if_true]
    exact h

theorem Open.reacts {result : Settled} (h : Open options (some result) g) :
    Closed result (g.step numberText moduleId methodId options .reacts) := by
  simp only [CallGuard.step, h.reaction]
  exact finish_open (g := { g with reaction := .ran }) h.settled h.passes
    (fun harmed => h.timer.trans (h.armed.symm.trans harmed)) h.settlements rfl result

theorem Open.timerFires (h : Open options queued g) {timeout : BitVec 64}
    (hdeadline : options.deadline = some timeout) :
    Closed (timedOut numberText moduleId methodId timeout) (g.step numberText moduleId methodId options .timerFires) := by
  have harmed : g.armed = true := h.armed.trans (by rw [hdeadline]; rfl)
  simp only [CallGuard.step, hdeadline, harmed, if_true]
  exact finish_open (g := { g with armed := false }) h.settled h.passes (fun hcontra => by cases hcontra)
    h.settlements h.isRegistered _

theorem Open.abortFires (h : Open options queued g) {isAborted : Bool} (hsignal : options.signal = some isAborted) :
    Closed (aborted moduleId methodId) (g.step numberText moduleId methodId options .abortFires) := by
  have hlistening : g.listening = true := h.listening.trans (by rw [hsignal]; rfl)
  simp only [CallGuard.step, hlistening, if_true]
  exact h.finish _

/-- From the moment the executor has returned, the first event to reach the code decides. -/
theorem Open.run (h : Open options queued g) (events : List GuardEvent) :
    FirstWins (firstToReach numberText moduleId methodId options queued events)
      (events.foldl (CallGuard.step numberText moduleId methodId options) g) := by
  induction events generalizing g queued with
  | nil =>
    cases queued <;> exact h.firstWins
  | cons event events ih =>
    rw [List.foldl_cons]
    cases event with
    | settles result =>
      have hopen : Open options (queued.or (some result))
          (CallGuard.step numberText moduleId methodId options g (.settles result)) := h.settles result
      cases queued <;> exact ih hopen
    | reacts =>
      cases queued with
      | none =>
        simp only [CallGuard.step, h.reaction]
        exact ih h
      | some result => exact (h.reacts.run events).firstWins
    | timerFires =>
      cases hdeadline : options.deadline with
      | none =>
        have hreach : firstToReach numberText moduleId methodId options queued (.timerFires :: events) =
            firstToReach numberText moduleId methodId options queued events := by
          cases queued <;> simp only [firstToReach, hdeadline]
        simp only [CallGuard.step, hdeadline]
        rw [hreach]
        exact ih h
      | some timeout =>
        have hreach : firstToReach numberText moduleId methodId options queued (.timerFires :: events) =
            some (timedOut numberText moduleId methodId timeout) := by
          cases queued <;> simp only [firstToReach, hdeadline]
        rw [hreach]
        exact ((h.timerFires hdeadline).run events).firstWins
    | abortFires =>
      cases hsignal : options.signal with
      | none =>
        have hlistening : g.listening = false := h.listening.trans (by rw [hsignal]; rfl)
        have hreach : firstToReach numberText moduleId methodId options queued (.abortFires :: events) =
            firstToReach numberText moduleId methodId options queued events := by
          cases queued <;> simp only [firstToReach, hsignal]
        simp only [CallGuard.step, hlistening, Bool.false_eq_true, if_false]
        rw [hreach]
        exact ih h
      | some isAborted =>
        have hreach : firstToReach numberText moduleId methodId options queued (.abortFires :: events) =
            some (aborted moduleId methodId) := by
          cases queued <;> simp only [firstToReach, hsignal]
        rw [hreach]
        exact ((h.abortFires hsignal).run events).firstWins

/-- Without a deadline and a signal the promise itself is returned. -/
theorem passes_run (events : List GuardEvent) (hpasses : g.passes = true) (harmed : g.armed = false)
    (hlistening : g.listening = false) (hreaction : g.reaction = .unregistered)
    (hsettlements : g.settlements = g.underlying.toList) :
    FirstWins (g.underlying.or (events.findSome? GuardEvent.settlement))
      (events.foldl (CallGuard.step numberText moduleId methodId options) g) := by
  induction events generalizing g with
  | nil =>
    refine ⟨?_, fun _ => ⟨harmed, hlistening⟩, fun hcontra => ?_⟩
    · rw [List.findSome?_nil, Option.or_none]
      exact hsettlements
    · exact absurd hcontra (by simp [hpasses])
  | cons event events ih =>
    rw [List.foldl_cons, List.findSome?_cons]
    cases event with
    | settles result =>
      cases hunderlying : g.underlying with
      | none =>
        have hrun := ih (g := { g with underlying := some result, settlements := [result] }) hpasses harmed
          hlistening hreaction rfl
        rw [hpasses] at hrun
        simp only [CallGuard.step, hunderlying, hpasses, Option.isSome_none, Bool.false_eq_true, if_false, if_true]
        exact hrun
      | some earlier =>
        have hrun := ih hpasses harmed hlistening hreaction hsettlements
        simp only [CallGuard.step, hunderlying, Option.isSome_some, if_true, Option.some_or] at hrun ⊢
        exact hrun
    | reacts =>
      simp only [CallGuard.step, hreaction]
      exact ih hpasses harmed hlistening hreaction hsettlements
    | timerFires =>
      have hstep : g.step numberText moduleId methodId options .timerFires = g := by
        simp only [CallGuard.step, harmed, Bool.false_eq_true, if_false]
        split <;> rfl
      rw [hstep]
      exact ih hpasses harmed hlistening hreaction hsettlements
    | abortFires =>
      simp only [CallGuard.step, hlistening, Bool.false_eq_true, if_false]
      exact ih hpasses harmed hlistening hreaction hsettlements

theorem open_executor (moduleId methodId : String) (options : GuardOptions) (underlying : Option Settled)
    (h : options.signal ≠ some true) :
    Open options underlying (executor moduleId methodId options (start underlying false)) := by
  rw [executor, if_neg h]
  cases hdeadline : options.deadline with
  | none => cases underlying <;> constructor <;> simp [attach, start, hdeadline]
  | some timeout => cases underlying <;> constructor <;> simp [attach, start, hdeadline]

/-- Of a signal that is aborted already, nothing else is looked at. -/
theorem closed_executor (moduleId methodId : String) (underlying : Option Settled) (h : options.signal = some true) :
    Closed (aborted moduleId methodId) (executor moduleId methodId options (start underlying false)) := by
  rw [executor, if_pos h]
  refine finish_open rfl rfl (fun hcontra => by cases hcontra) rfl ?_ _
  cases underlying <;> rfl

/-- Whatever fires in whatever order, the returned promise is settled by what reaches the code
first, and afterwards no timer is pending and no listener registered. -/
theorem guardCall_first (numberText : BitVec 64 → String) (moduleId methodId : String) (options : GuardOptions)
    (underlying : Option Settled) (events : List GuardEvent) :
    FirstWins (firstToArrive numberText moduleId methodId options underlying events)
      (run numberText moduleId methodId options underlying events) := by
  rw [run, guardCall, firstToArrive]
  by_cases haborted : options.signal = some true
  · have hguarded : ¬ (options.deadline.isNone ∧ options.signal.isNone) := by simp [haborted]
    rw [if_pos haborted, if_neg hguarded]
    exact ((closed_executor moduleId methodId underlying haborted).run events).firstWins
  · rw [if_neg haborted]
    by_cases hpasses : options.deadline.isNone ∧ options.signal.isNone
    · rw [if_pos hpasses, if_pos hpasses]
      exact passes_run (g := { start underlying true with settlements := underlying.toList }) events rfl rfl rfl rfl rfl
    · rw [if_neg hpasses, if_neg hpasses]
      exact (open_executor moduleId methodId options underlying haborted).run events

end Runs

/-- The call returns, the signal is aborted before the reaction has run. -/
def lateAbort : List GuardEvent := [.settles (.ok .null), .abortFires, .reacts]

theorem guardCall_not_first_to_happen :
    ¬ ∀ (options : GuardOptions) (underlying : Option Settled) (events : List GuardEvent),
      (∀ result, (run (fun _ => "") "compute" "add" options underlying events).reaction ≠ .queued result) →
      FirstWins (firstToHappen (fun _ => "") "compute" "add" options underlying events)
        (run (fun _ => "") "compute" "add" options underlying events) := by
  intro h
  have houtcome := (h ⟨none, some false⟩ none lateAbort (fun result hqueued => by cases hqueued)).outcome
  cases houtcome

end CallGuard

end CrossNative.Bridge
