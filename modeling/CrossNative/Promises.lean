import CrossNative.Host
import CrossNative.Basis.History
import Mathlib.Data.List.Perm.Basic

/-!
# The promises of the JSI proxy

A proxy method makes a promise and queues a task; the task settles the promise's `Deferred` once,
which hands a closure to the JS thread; the closure calls `resolve` or `reject` there unless its
installation is no longer alive. Texts that need not be UTF-8 are bytes.
-/

namespace CrossNative

set_option autoImplicit false

open Basis

/-! ## What a worker makes of a call -/

/-- How `module->call` ends on the worker. -/
inductive CallOutcome
  | notFound (moduleId : String)
  | envelope (bytes : List UInt8) (metrics : ExecutionMetrics)
  | stdException (what : ByteArray)
  | otherException

/-- How `installWasmModule` ends on the worker. -/
inductive LoadOutcome
  | loaded
  | stdException (what : ByteArray)
  | otherException

/-- A `NativeResult` whose error is whatever bytes it was made from. -/
structure RawResult where
  success : Bool
  data : Option Json
  error : ByteArray
  metrics : ExecutionMetrics

def NativeResult.raw (r : NativeResult) : RawResult := ⟨r.success, r.data, r.error.toUTF8, r.metrics⟩

/-- `{.success = false, .error = error}`. -/
def RawResult.failed (error : ByteArray) : RawResult := ⟨false, none, error, ⟨.int 0, .int 0, ""⟩⟩

/-- The envelope for JavaScript; `dump` throws on an error text that is not UTF-8. -/
def RawResult.toEnvelopeJson (r : RawResult) : Option Json :=
  if r.success then some (CrossNative.toEnvelopeJson ⟨true, r.data, "", r.metrics⟩)
  else
    (String.fromUTF8? r.error).map fun error =>
      CrossNative.toEnvelopeJson ⟨false, r.data, error, r.metrics⟩

section Core

-- `json::parse`, with `what()` of its error, which quotes the bytes it stopped at.
variable (parse : List UInt8 → Except ByteArray Json)

/-- `unwrapEnvelope` on the text itself. -/
def unwrapText (bytes : List UInt8) (metrics : ExecutionMetrics) : RawResult :=
  match parse bytes with
  | .error message => RawResult.failed ("Malformed result from module: ".toUTF8 ++ message)
  | .ok envelope => (unwrapEnvelope envelope metrics).raw

/-- The result of the call; none when an exception that is no `std::exception` leaves it. -/
def executeCall : CallOutcome → Option RawResult
  | .notFound moduleId => some (RawResult.failed ("Module not found: " ++ moduleId).toUTF8)
  | .envelope bytes metrics => some (unwrapText parse bytes metrics)
  | .stdException what => some (RawResult.failed ("Exception: ".toUTF8 ++ what))
  | .otherException => none

/-- The result that the task of `callFunctionAsync` hands to its callback. -/
def callResult (outcome : CallOutcome) : RawResult :=
  (executeCall parse outcome).getD (RawResult.failed "Unknown error during native call".toUTF8)

/-- The failures of a call that are reported as UTF-8. -/
def CallOutcome.Reportable : CallOutcome → Prop
  | .envelope bytes _ =>
    match parse bytes with
    | .error message => (String.fromUTF8? ("Malformed result from module: ".toUTF8 ++ message)).isSome
    | .ok _ => True
  | .stdException what => (String.fromUTF8? ("Exception: ".toUTF8 ++ what)).isSome
  | .notFound _ | .otherException => True

end Core

theorem fromUTF8_toUTF8 (s : String) : String.fromUTF8? s.toUTF8 = some s := by
  rw [String.fromUTF8?, String.toUTF8_eq_toByteArray, dif_pos s.isValidUTF8]
  rfl

theorem RawResult.toEnvelopeJson_failed {error : ByteArray} (h : (String.fromUTF8? error).isSome) :
    (RawResult.failed error).toEnvelopeJson.isSome = true := by
  simpa [RawResult.toEnvelopeJson, RawResult.failed] using h

theorem RawResult.toEnvelopeJson_raw (r : NativeResult) : r.raw.toEnvelopeJson.isSome = true := by
  unfold RawResult.toEnvelopeJson NativeResult.raw
  simp only [fromUTF8_toUTF8]
  split <;> rfl

theorem callResult_isSome {parse : List UInt8 → Except ByteArray Json} {outcome : CallOutcome}
    (h : outcome.Reportable parse) : (callResult parse outcome).toEnvelopeJson.isSome = true := by
  have htext (s : String) : (RawResult.failed s.toUTF8).toEnvelopeJson.isSome = true := by
    apply RawResult.toEnvelopeJson_failed
    rw [fromUTF8_toUTF8]
    rfl
  cases outcome with
  | notFound moduleId => exact htext _
  | otherException => exact htext _
  | stdException what => exact RawResult.toEnvelopeJson_failed h
  | envelope bytes metrics =>
    simp only [callResult, executeCall, Option.getD_some, unwrapText]
    simp only [CallOutcome.Reportable] at h
    cases hparse : parse bytes with
    | error message =>
      rw [hparse] at h
      exact RawResult.toEnvelopeJson_failed h
    | ok envelope => exact RawResult.toEnvelopeJson_raw _

/-! ## The machine -/

/-- What the closure of a settled promise will do. -/
inductive PromiseSettlement
  /-- Resolve with `true`. -/
  | loaded
  | envelope (j : Json)
  | reject (message : ByteArray)

inductive PromiseTask
  | load
  | call
  | finished
  deriving DecidableEq, Repr

/-- A promise and its `Deferred`. -/
structure Promise where
  installation : Nat
  settled : Bool
  task : PromiseTask

structure Closure where
  promise : Nat
  settlement : PromiseSettlement

inductive PromiseEvent
  /-- The alive flag of an installation was cleared. -/
  | cleared (installation : Nat)
  | called (promise installation : Nat) (settlement : PromiseSettlement)
  /-- The runtime threw a `JSIException` out of the closure. -/
  | interrupted (promise : Nat)

structure JsiProxy where
  installations : Nat
  alive : Nat → Bool
  /-- `gInstallations`: the installation of each runtime. -/
  current : Nat → Option Nat
  nextPromise : Nat
  promises : Nat → Promise
  /-- The closures handed to the dispatcher. -/
  queue : List Closure
  log : List PromiseEvent

inductive JsiAction
  | installCrossNative (runtime : Nat)
  | uninstallCrossNative (runtime : Nat)
  | loadFromBuffer (installation : Nat)
  /-- `readable`: `readWasmFile` has returned bytes. -/
  | loadFromPath (installation : Nat) (path : String) (readable : Bool)
  | callFunction (installation : Nat)
  | runLoad (promise : Nat) (outcome : LoadOutcome)
  | runCall (promise : Nat) (outcome : CallOutcome)
  | deliver (k : Nat) (throws : Bool)

namespace JsiProxy

def initial : JsiProxy where
  installations := 0
  alive := fun _ => false
  current := fun _ => none
  nextPromise := 0
  promises := fun _ => ⟨0, false, .finished⟩
  queue := []
  log := []

/-- Clear the alive flag of the runtime's installation, if it has one. -/
def clear (s : JsiProxy) (runtime : Nat) : JsiProxy :=
  match s.current runtime with
  | some i =>
    { s with
      alive := Function.update s.alive i false
      current := Function.update s.current runtime none
      log := s.log ++ [.cleared i] }
  | none => s

def installCrossNative (s : JsiProxy) (runtime : Nat) : JsiProxy :=
  let t := s.clear runtime
  { t with
    installations := t.installations + 1
    alive := Function.update t.alive t.installations true
    current := Function.update t.current runtime (some t.installations) }

/-- `makePromise`, with the task its executor queues. -/
def makePromise (s : JsiProxy) (installation : Nat) (task : PromiseTask) : JsiProxy :=
  { s with
    nextPromise := s.nextPromise + 1
    promises := Function.update s.promises s.nextPromise ⟨installation, false, task⟩ }

/-- `Deferred::settle`: the first settlement goes to the dispatcher. -/
def settle (s : JsiProxy) (p : Nat) (settlement : PromiseSettlement) : JsiProxy :=
  if (s.promises p).settled then s
  else
    { s with
      promises := Function.update s.promises p { s.promises p with settled := true }
      queue := s.queue ++ [⟨p, settlement⟩] }

def finishTask (s : JsiProxy) (p : Nat) : JsiProxy :=
  { s with promises := Function.update s.promises p { s.promises p with task := .finished } }

/-- The task of `loadModuleFromBytesAsync`: it catches `std::exception`, and nothing else. -/
def runLoad (s : JsiProxy) (p : Nat) : LoadOutcome → JsiProxy
  | .loaded => s.settle p .loaded
  | .stdException what =>
    s.settle p (.reject (if what.isEmpty then "Failed to load module".toUTF8 else what))
  | .otherException => s

section Machine

variable (parse : List UInt8 → Except ByteArray Json)

/-- The task of `callFunctionAsync`: its callback is outside of the `try`, so an exception of
`dump` in it ends the task. -/
def runCall (s : JsiProxy) (p : Nat) (outcome : CallOutcome) : JsiProxy :=
  match (callResult parse outcome).toEnvelopeJson with
  | some envelope => s.settle p (.envelope envelope)
  | none => s

/-- The closure that `settle` has dispatched. -/
def deliver (s : JsiProxy) (c : Closure) (throws : Bool) : JsiProxy :=
  if s.alive (s.promises c.promise).installation then
    if throws then { s with log := s.log ++ [.interrupted c.promise] }
    else
      { s with log := s.log ++ [.called c.promise (s.promises c.promise).installation c.settlement] }
  else s

/-- JavaScript may keep the proxy of an installation that is no longer current. -/
def step (s : JsiProxy) : JsiAction → Option JsiProxy
  | .installCrossNative runtime => some (s.installCrossNative runtime)
  | .uninstallCrossNative runtime => some (s.clear runtime)
  | .loadFromBuffer i => if i < s.installations then some (s.makePromise i .load) else none
  | .loadFromPath i path readable =>
    if i < s.installations then
      if readable then some (s.makePromise i .load)
      else
        some ((s.makePromise i .finished).settle s.nextPromise
          (.reject ("Could not read WASM file: " ++ path).toUTF8))
    else none
  | .callFunction i => if i < s.installations then some (s.makePromise i .call) else none
  | .runLoad p outcome =>
    if p < s.nextPromise ∧ (s.promises p).task = .load then some ((s.runLoad p outcome).finishTask p)
    else none
  | .runCall p outcome =>
    if p < s.nextPromise ∧ (s.promises p).task = .call then
      some ((s.runCall parse p outcome).finishTask p)
    else none
  | .deliver k throws =>
    match s.queue[k]? with
    | some c => some ({ s with queue := s.queue.eraseIdx k }.deliver c throws)
    | none => none

/-- The outcomes of the core that are passed on to the promise. -/
def PassedOn (_ : JsiProxy) : JsiAction → Prop
  | .runLoad _ outcome => outcome ≠ .otherException
  | .runCall _ outcome => outcome.Reportable parse
  | _ => True

end Machine

/-! ## What holds in every state -/

def isCallOf (p : Nat) : PromiseEvent → Bool
  | .called q _ _ => q == p
  | _ => false

/-- How often the resolve or the reject function of a promise has been called. -/
def calls (s : JsiProxy) (p : Nat) : Nat := s.log.countP (isCallOf p)

def isFor (p : Nat) (c : Closure) : Bool := c.promise == p

/-- The closures of a promise that have not been delivered. -/
def undelivered (s : JsiProxy) (p : Nat) : Nat := s.queue.countP (isFor p)

/-- A function is called only while no alive flag of its installation has been cleared. -/
def BeforeClearing (before : List PromiseEvent) (e : PromiseEvent) : Prop :=
  ∀ p i settlement, e = .called p i settlement → PromiseEvent.cleared i ∉ before

structure Exact (s : JsiProxy) : Prop where
  alive : ∀ i, s.alive i = true → i < s.installations ∧ PromiseEvent.cleared i ∉ s.log
  cleared : ∀ i, PromiseEvent.cleared i ∈ s.log → i < s.installations
  current : ∀ runtime i, s.current runtime = some i → i < s.installations
  installed : ∀ p, p < s.nextPromise → (s.promises p).installation < s.installations
  fresh : ∀ p, (s.promises p).settled = true → p < s.nextPromise
  /-- A settled promise has one closure, and the closure makes one call. -/
  once : ∀ p, s.undelivered p + s.calls p ≤ (s.promises p).settled.toNat
  kept : ∀ p, (s.promises p).settled = true → s.alive (s.promises p).installation = true →
    PromiseEvent.interrupted p ∉ s.log → s.undelivered p + s.calls p = 1
  guarded : Guarded BeforeClearing s.log

/-- A task has settled its promise when it is finished. -/
def Served (s : JsiProxy) : Prop :=
  ∀ p, p < s.nextPromise → (s.promises p).task = .finished → (s.promises p).settled = true

theorem initial_exact : initial.Exact where
  alive := by simp [initial]
  cleared := by simp [initial]
  current := by simp [initial]
  installed := by simp [initial]
  fresh := by simp [initial]
  once := by simp [initial, undelivered, calls]
  kept := by simp [initial]
  guarded := Guarded.nil

namespace Exact

variable {s : JsiProxy}

theorem clear (h : s.Exact) (runtime : Nat) : (s.clear runtime).Exact := by
  unfold JsiProxy.clear
  split
  · rename_i i hcurrent
    have hcalls (p : Nat) : (s.log ++ [PromiseEvent.cleared i]).countP (isCallOf p) = s.calls p := by
      simp [calls, isCallOf]
    exact {
      alive := fun j hj => by
        rcases update_cases hj with ⟨_, hfalse⟩ | ⟨hne, hj⟩
        · cases hfalse
        · have halive := h.alive j hj
          refine ⟨halive.1, ?_⟩
          simp only [List.mem_append, List.mem_singleton, PromiseEvent.cleared.injEq, not_or]
          exact ⟨halive.2, hne⟩
      cleared := fun j hj => by
        rcases List.mem_append.mp hj with hj | hj
        · exact h.cleared j hj
        · cases List.mem_singleton.mp hj
          exact h.current runtime i hcurrent
      current := fun r j hj => by
        rcases update_cases hj with ⟨_, hnone⟩ | ⟨_, hj⟩
        · cases hnone
        · exact h.current r j hj
      installed := h.installed
      fresh := h.fresh
      once := fun p => by
        have honce := h.once p
        simp only [undelivered, calls, hcalls] at honce ⊢
        exact honce
      kept := fun p hsettled halive hinterrupted => by
        have hne : s.alive (s.promises p).installation = true := by
          rcases update_cases halive with ⟨_, hfalse⟩ | ⟨_, halive⟩
          · cases hfalse
          · exact halive
        have hkept := h.kept p hsettled hne (fun hmem => hinterrupted (List.mem_append_left _ hmem))
        simp only [undelivered, calls, hcalls] at hkept ⊢
        exact hkept
      guarded := h.guarded.snoc fun _ _ _ heq => by cases heq }
  · exact h

theorem installCrossNative (h : s.Exact) (runtime : Nat) : (s.installCrossNative runtime).Exact := by
  have hclear := h.clear runtime
  unfold JsiProxy.installCrossNative
  generalize s.clear runtime = t at hclear
  exact {
    alive := fun i hi => by
      rcases update_cases hi with ⟨rfl, _⟩ | ⟨_, hi⟩
      · refine ⟨Nat.lt_succ_self _, fun hmem => ?_⟩
        exact Nat.lt_irrefl _ (hclear.cleared _ hmem)
      · exact ⟨Nat.lt_succ_of_lt (hclear.alive i hi).1, (hclear.alive i hi).2⟩
    cleared := fun i hi => Nat.lt_succ_of_lt (hclear.cleared i hi)
    current := fun r i hi => by
      rcases update_cases hi with ⟨_, heq⟩ | ⟨_, hi⟩
      · cases heq
        exact Nat.lt_succ_self _
      · exact Nat.lt_succ_of_lt (hclear.current r i hi)
    installed := fun p hp => Nat.lt_succ_of_lt (hclear.installed p hp)
    fresh := hclear.fresh
    once := hclear.once
    kept := fun p hsettled halive => by
      have hlt := hclear.installed p (hclear.fresh p hsettled)
      rcases update_cases halive with ⟨heq, _⟩ | ⟨_, halive⟩
      · simp only at heq
        omega
      · exact hclear.kept p hsettled halive
    guarded := hclear.guarded }

theorem makePromise (h : s.Exact) {i : Nat} (hi : i < s.installations) (task : PromiseTask) :
    (s.makePromise i task).Exact where
  alive := h.alive
  cleared := h.cleared
  current := h.current
  installed p hp := by
    simp only [JsiProxy.makePromise, Function.update_apply] at hp ⊢
    split
    · exact hi
    · exact h.installed p (by omega)
  fresh p hsettled := by
    simp only [JsiProxy.makePromise, Function.update_apply] at hsettled ⊢
    split at hsettled
    · cases hsettled
    · exact Nat.lt_succ_of_lt (h.fresh p hsettled)
  once p := by
    have honce := h.once p
    simp only [JsiProxy.makePromise, undelivered, calls, Function.update_apply] at honce ⊢
    split
    · rename_i heq
      have hunsettled : (s.promises p).settled = false := by
        rw [Bool.eq_false_iff]
        intro hsettled
        have hlt := h.fresh p hsettled
        omega
      rw [hunsettled] at honce
      exact honce
    · exact honce
  kept p hsettled halive := by
    simp only [JsiProxy.makePromise, Function.update_apply] at hsettled halive
    split at hsettled
    · cases hsettled
    · rename_i hne
      rw [if_neg hne] at halive
      exact h.kept p hsettled halive
  guarded := h.guarded

theorem settle (h : s.Exact) {p : Nat} (hp : p < s.nextPromise) (settlement : PromiseSettlement) :
    (s.settle p settlement).Exact := by
  unfold JsiProxy.settle
  split
  · exact h
  · rename_i hunsettled
    have hpending (q : Nat) : (s.queue ++ [Closure.mk p settlement]).countP (isFor q) =
        s.undelivered q + (p == q).toNat := by
      by_cases heq : p = q
      · simp [undelivered, isFor, heq]
      · simp [undelivered, isFor, heq]
    have hzero : s.undelivered p + s.calls p = 0 := by
      have honce := h.once p
      rw [Bool.not_eq_true] at hunsettled
      rw [hunsettled] at honce
      exact Nat.le_zero.mp honce
    have hself : s.undelivered p + (p == p).toNat + s.calls p = 1 := by
      rw [beq_self_eq_true, Bool.toNat_true]
      omega
    have hother {q : Nat} (hne : q ≠ p) : s.undelivered q + (p == q).toNat + s.calls q =
        s.undelivered q + s.calls q := by
      rw [beq_eq_false_iff_ne.mpr hne.symm, Bool.toNat_false, Nat.add_zero]
    exact {
      alive := h.alive
      cleared := h.cleared
      current := h.current
      installed := fun q hq => by
        simp only [Function.update_apply]
        split
        · exact h.installed p hp
        · exact h.installed q hq
      fresh := fun q hq => by
        simp only [Function.update_apply] at hq
        split at hq
        · rename_i heq
          rw [heq]
          exact hp
        · exact h.fresh q hq
      once := fun q => by
        show (s.queue ++ [Closure.mk p settlement]).countP (isFor q) + s.calls q ≤ _
        rw [hpending]
        by_cases heq : q = p
        · subst heq
          rw [hself]
          simp only [Function.update_self]
          exact Nat.le_refl _
        · rw [hother heq]
          simp only [Function.update_of_ne heq]
          exact h.once q
      kept := fun q hsettled halive hinterrupted => by
        show (s.queue ++ [Closure.mk p settlement]).countP (isFor q) + s.calls q = 1
        rw [hpending]
        by_cases heq : q = p
        · subst heq
          exact hself
        · rw [hother heq]
          simp only [Function.update_of_ne heq] at hsettled halive
          exact h.kept q hsettled halive hinterrupted
      guarded := h.guarded }

theorem finishTask (h : s.Exact) (p : Nat) : (s.finishTask p).Exact := by
  have hsame (q : Nat) : ((s.finishTask p).promises q).installation = (s.promises q).installation ∧
      ((s.finishTask p).promises q).settled = (s.promises q).settled := by
    simp only [JsiProxy.finishTask, Function.update_apply]
    split
    · rename_i heq
      rw [heq]
      exact ⟨rfl, rfl⟩
    · exact ⟨rfl, rfl⟩
  exact {
    alive := h.alive
    cleared := h.cleared
    current := h.current
    installed := fun q hq => by
      rw [(hsame q).1]
      exact h.installed q hq
    fresh := fun q hq => by
      rw [(hsame q).2] at hq
      exact h.fresh q hq
    once := fun q => by
      rw [(hsame q).2]
      exact h.once q
    kept := fun q hsettled halive => by
      rw [(hsame q).2] at hsettled
      rw [(hsame q).1] at halive
      exact h.kept q hsettled halive
    guarded := h.guarded }

theorem runLoad (h : s.Exact) {p : Nat} (hp : p < s.nextPromise) (outcome : LoadOutcome) :
    (s.runLoad p outcome).Exact := by
  cases outcome with
  | loaded => exact h.settle hp _
  | stdException what => exact h.settle hp _
  | otherException => exact h

theorem runCall (h : s.Exact) (parse : List UInt8 → Except ByteArray Json) {p : Nat}
    (hp : p < s.nextPromise) (outcome : CallOutcome) : (s.runCall parse p outcome).Exact := by
  unfold JsiProxy.runCall
  split
  · exact h.settle hp _
  · exact h

theorem undelivered_eraseIdx {k : Nat} {c : Closure} (hk : s.queue[k]? = some c) (q : Nat) :
    (s.queue.eraseIdx k).countP (isFor q) + (c.promise == q).toNat = s.undelivered q := by
  obtain ⟨hlt, hget⟩ := List.getElem?_eq_some_iff.mp hk
  have hperm := (List.getElem_cons_eraseIdx_perm hlt).countP_eq (isFor q)
  rw [hget, List.countP_cons] at hperm
  rw [undelivered, ← hperm]
  cases hfor : c.promise == q <;> simp [isFor, hfor]

/-- A closure has left the queue. It logs at most its call, and not even that only where the
installation is gone or the runtime has thrown. -/
theorem leave (h : s.Exact) {k : Nat} {c : Closure} (hk : s.queue[k]? = some c) {new : List PromiseEvent}
    (hclear : ∀ i, PromiseEvent.cleared i ∉ new)
    (hcalls : ∀ q, new.countP (isCallOf q) ≤ (c.promise == q).toNat)
    (hcalled : s.alive (s.promises c.promise).installation = true →
      PromiseEvent.interrupted c.promise ∉ new → new.countP (isCallOf c.promise) = 1)
    (hguarded : Guarded BeforeClearing (s.log ++ new)) :
    ({ s with queue := s.queue.eraseIdx k, log := s.log ++ new } : JsiProxy).Exact := by
  have hlog (q : Nat) : (s.log ++ new).countP (isCallOf q) = s.calls q + new.countP (isCallOf q) :=
    List.countP_append
  exact {
    alive := fun i hi => by
      refine ⟨(h.alive i hi).1, fun hmem => ?_⟩
      rcases List.mem_append.mp hmem with hold | hnew
      · exact (h.alive i hi).2 hold
      · exact hclear i hnew
    cleared := fun i hi => by
      rcases List.mem_append.mp hi with hold | hnew
      · exact h.cleared i hold
      · exact absurd hnew (hclear i)
    current := h.current
    installed := h.installed
    fresh := h.fresh
    once := fun q => by
      have honce := h.once q
      have hcount := undelivered_eraseIdx hk q
      have hcall := hcalls q
      simp only [undelivered, calls, hlog] at honce hcount ⊢
      omega
    kept := fun q hsettled halive hinterrupted => by
      have hkept := h.kept q hsettled halive fun hmem => hinterrupted (List.mem_append_left _ hmem)
      have hcount := undelivered_eraseIdx hk q
      have hcall := hcalls q
      have hdone : new.countP (isCallOf q) = (c.promise == q).toNat := by
        by_cases heq : c.promise = q
        · subst heq
          rw [beq_self_eq_true, Bool.toNat_true]
          exact hcalled halive fun hmem => hinterrupted (List.mem_append_right _ hmem)
        · rw [beq_eq_false_iff_ne.mpr heq, Bool.toNat_false] at hcall ⊢
          exact Nat.le_zero.mp hcall
      simp only [undelivered, calls, hlog] at hkept hcount ⊢
      omega
    guarded := hguarded }

theorem deliver (h : s.Exact) {k : Nat} {c : Closure} (hk : s.queue[k]? = some c) (throws : Bool) :
    ({ s with queue := s.queue.eraseIdx k }.deliver c throws).Exact := by
  unfold JsiProxy.deliver
  split
  · rename_i halive
    split
    · apply h.leave hk
      · simp
      · intro q
        exact Nat.zero_le _
      · intro _ hinterrupted
        exact absurd (List.mem_singleton.mpr rfl) hinterrupted
      · exact h.guarded.snoc fun _ _ _ heq => by cases heq
    · apply h.leave hk
      · simp
      · intro q
        cases heq : c.promise == q <;> simp [isCallOf, heq]
      · intro _ _
        simp [isCallOf]
      · apply h.guarded.snoc
        intro p i settlement heq
        cases heq
        exact (h.alive _ halive).2
  · rename_i hdead
    have hguarded : Guarded BeforeClearing (s.log ++ []) := by
      rw [List.append_nil]
      exact h.guarded
    have hleave := h.leave hk (fun i => List.not_mem_nil) (fun q => Nat.zero_le _)
      (fun halive => absurd halive hdead) hguarded
    rw [List.append_nil] at hleave
    exact hleave

theorem step (h : s.Exact) {parse : List UInt8 → Except ByteArray Json} {a : JsiAction}
    {s' : JsiProxy} (hstep : s.step parse a = some s') : s'.Exact := by
  cases a with
  | installCrossNative runtime =>
    cases hstep
    exact h.installCrossNative runtime
  | uninstallCrossNative runtime =>
    cases hstep
    exact h.clear runtime
  | loadFromBuffer i =>
    obtain ⟨hi, hs'⟩ := Option.ite_none_right_eq_some.mp hstep
    cases hs'
    exact h.makePromise hi _
  | loadFromPath i path readable =>
    obtain ⟨hi, hs'⟩ := Option.ite_none_right_eq_some.mp hstep
    split at hs'
    · cases hs'
      exact h.makePromise hi _
    · cases hs'
      exact (h.makePromise hi _).settle (Nat.lt_succ_self _) _
  | callFunction i =>
    obtain ⟨hi, hs'⟩ := Option.ite_none_right_eq_some.mp hstep
    cases hs'
    exact h.makePromise hi _
  | runLoad p outcome =>
    obtain ⟨hp, hs'⟩ := Option.ite_none_right_eq_some.mp hstep
    cases hs'
    exact (h.runLoad hp.1 outcome).finishTask p
  | runCall p outcome =>
    obtain ⟨hp, hs'⟩ := Option.ite_none_right_eq_some.mp hstep
    cases hs'
    exact (h.runCall parse hp.1 outcome).finishTask p
  | deliver k throws =>
    simp only [JsiProxy.step] at hstep
    split at hstep
    · rename_i c hk
      cases hstep
      exact h.deliver hk throws
    · cases hstep

end Exact

/-! ## Tasks that settle their promise -/

theorem settle_self (s : JsiProxy) (p : Nat) (settlement : PromiseSettlement) :
    ((s.settle p settlement).promises p).settled = true := by
  unfold settle
  split
  · assumption
  · simp only [Function.update_self]

theorem settle_frame (s : JsiProxy) (p : Nat) (settlement : PromiseSettlement) (q : Nat) :
    (s.settle p settlement).nextPromise = s.nextPromise ∧
      ((s.settle p settlement).promises q).task = (s.promises q).task ∧
      ((s.promises q).settled = true → ((s.settle p settlement).promises q).settled = true) := by
  unfold settle
  split
  · exact ⟨rfl, rfl, id⟩
  · simp only [Function.update_apply]
    split
    · rename_i heq
      rw [heq]
      exact ⟨trivial, rfl, fun _ => rfl⟩
    · exact ⟨trivial, rfl, id⟩

namespace Served

variable {s : JsiProxy}

theorem of_promises {t : JsiProxy} (h : s.Served) (hnext : t.nextPromise = s.nextPromise)
    (hpromises : t.promises = s.promises) : t.Served := by
  intro p hp hfinished
  rw [hnext] at hp
  rw [hpromises] at hfinished ⊢
  exact h p hp hfinished

theorem settle (h : s.Served) (p : Nat) (settlement : PromiseSettlement) :
    (s.settle p settlement).Served := by
  intro q hq hfinished
  obtain ⟨hnext, htask, hkeeps⟩ := settle_frame s p settlement q
  rw [hnext] at hq
  rw [htask] at hfinished
  exact hkeeps (h q hq hfinished)

theorem makePromise (h : s.Served) (i : Nat) {task : PromiseTask} (htask : task ≠ .finished) :
    (s.makePromise i task).Served := by
  intro p hp hfinished
  simp only [JsiProxy.makePromise, Function.update_apply] at hp hfinished ⊢
  split at hfinished
  · exact absurd hfinished htask
  · rename_i hne
    rw [if_neg hne]
    exact h p (by omega) hfinished

/-- The promise whose task is finished has been settled before. -/
theorem finishTask (h : s.Served) {p : Nat} (hsettled : (s.promises p).settled = true) :
    (s.finishTask p).Served := by
  intro q hq hfinished
  simp only [JsiProxy.finishTask, Function.update_apply] at hq hfinished ⊢
  split at hfinished
  · rename_i heq
    rw [if_pos heq]
    exact hsettled
  · rename_i hne
    rw [if_neg hne]
    exact h q hq hfinished

theorem unreadable (h : s.Served) (i : Nat) (settlement : PromiseSettlement) :
    ((s.makePromise i .finished).settle s.nextPromise settlement).Served := by
  intro p hp hfinished
  obtain ⟨hnext, _, _⟩ := settle_frame (s.makePromise i .finished) s.nextPromise settlement p
  rw [hnext] at hp
  by_cases heq : p = s.nextPromise
  · rw [heq]
    exact settle_self _ _ _
  · have hold : (s.makePromise i .finished).promises p = s.promises p := by
      simp only [JsiProxy.makePromise, Function.update_of_ne heq]
    obtain ⟨_, htask, hkeeps⟩ := settle_frame (s.makePromise i .finished) s.nextPromise settlement p
    rw [htask, hold] at hfinished
    rw [hold] at hkeeps
    simp only [JsiProxy.makePromise] at hp
    exact hkeeps (h p (by omega) hfinished)

theorem runLoad (h : s.Served) (p : Nat) {outcome : LoadOutcome}
    (houtcome : outcome ≠ .otherException) : ((s.runLoad p outcome).finishTask p).Served := by
  cases outcome with
  | loaded => exact (h.settle p _).finishTask (settle_self _ _ _)
  | stdException what => exact (h.settle p _).finishTask (settle_self _ _ _)
  | otherException => exact absurd rfl houtcome

theorem runCall (h : s.Served) {parse : List UInt8 → Except ByteArray Json} (p : Nat)
    {outcome : CallOutcome} (houtcome : outcome.Reportable parse) :
    ((s.runCall parse p outcome).finishTask p).Served := by
  have hresult := callResult_isSome houtcome
  unfold JsiProxy.runCall
  split
  · exact (h.settle p _).finishTask (settle_self _ _ _)
  · rename_i hnone
    rw [hnone] at hresult
    cases hresult

theorem step (h : s.Served) {parse : List UInt8 → Except ByteArray Json} {a : JsiAction}
    (hpassed : s.PassedOn parse a) {s' : JsiProxy} (hstep : s.step parse a = some s') : s'.Served := by
  have hclear (runtime : Nat) : (s.clear runtime).Served := by
    unfold JsiProxy.clear
    split
    · exact h.of_promises rfl rfl
    · exact h
  cases a with
  | installCrossNative runtime =>
    cases hstep
    exact (hclear runtime).of_promises rfl rfl
  | uninstallCrossNative runtime =>
    cases hstep
    exact hclear runtime
  | loadFromBuffer i =>
    obtain ⟨_, hs'⟩ := Option.ite_none_right_eq_some.mp hstep
    cases hs'
    exact h.makePromise i (by decide)
  | loadFromPath i path readable =>
    obtain ⟨_, hs'⟩ := Option.ite_none_right_eq_some.mp hstep
    split at hs'
    · cases hs'
      exact h.makePromise i (by decide)
    · cases hs'
      exact h.unreadable i _
  | callFunction i =>
    obtain ⟨_, hs'⟩ := Option.ite_none_right_eq_some.mp hstep
    cases hs'
    exact h.makePromise i (by decide)
  | runLoad p outcome =>
    obtain ⟨_, hs'⟩ := Option.ite_none_right_eq_some.mp hstep
    cases hs'
    exact h.runLoad p hpassed
  | runCall p outcome =>
    obtain ⟨_, hs'⟩ := Option.ite_none_right_eq_some.mp hstep
    cases hs'
    exact h.runCall p hpassed
  | deliver k throws =>
    simp only [JsiProxy.step] at hstep
    split at hstep
    · cases hstep
      unfold JsiProxy.deliver
      split
      · split
        · exact h.of_promises rfl rfl
        · exact h.of_promises rfl rfl
      · exact h.of_promises rfl rfl
    · cases hstep

end Served

/-- While every outcome of the core is passed on, a promise is settled once, never after its
installation is gone, and never lost. -/
theorem promises_settle_once (parse : List UInt8 → Except ByteArray Json) (actions : List JsiAction)
    {s : JsiProxy} (hpassed : Meets (step parse) (PassedOn parse) initial actions)
    (hrun : runAll (step parse) initial actions = some s) :
    (∀ p, s.calls p ≤ 1) ∧ Guarded BeforeClearing s.log ∧
    ∀ p, p < s.nextPromise → (s.promises p).task = .finished → s.undelivered p = 0 →
      s.alive (s.promises p).installation = true → PromiseEvent.interrupted p ∉ s.log →
      s.calls p = 1 := by
  have hinv : s.Exact ∧ s.Served := by
    apply runAll_invariant (I := fun s => s.Exact ∧ s.Served) _ actions
      ⟨initial_exact, fun p hp => absurd hp (Nat.not_lt_zero p)⟩ hpassed hrun
    intro s a t hs ha hstep
    exact ⟨hs.1.step hstep, hs.2.step ha hstep⟩
  obtain ⟨h, hserved⟩ := hinv
  refine ⟨fun p => ?_, h.guarded, fun p hp hfinished hdelivered halive hinterrupted => ?_⟩
  · have honce := h.once p
    have hle := (s.promises p).settled.toNat_le
    omega
  · have hkept := h.kept p (hserved p hp hfinished) halive hinterrupted
    omega

/-- A parser of the one envelope below. -/
def parseSuccess (_ : List UInt8) : Except ByteArray Json := .ok (.obj [("success", .bool true)])

/-- A call that succeeds while a load fails. -/
def settledRun : List JsiAction :=
  [.installCrossNative 0, .callFunction 0, .loadFromBuffer 0, .runLoad 1 (.stdException .empty),
    .runCall 0 (.envelope "\x7b\"success\":true\x7d".toUTF8.toList ⟨.int 0, .int 0, "1"⟩), .deliver 1 false,
    .deliver 0 false]

theorem promises_settle_once_served : ∃ s, runAll (step parseSuccess) initial settledRun = some s ∧
    s.calls 0 = 1 ∧ s.calls 1 = 1 := by
  have hpassed : Meets (step parseSuccess) (PassedOn parseSuccess) initial settledRun := by
    repeat' apply Meets.cons
    all_goals first | exact trivial | exact rfl | exact LoadOutcome.noConfusion
  have hrun : ∃ s, runAll (step parseSuccess) initial settledRun = some s ∧
      s.nextPromise = 2 ∧ (s.promises 0).task = .finished ∧ (s.promises 1).task = .finished ∧
      s.undelivered 0 = 0 ∧ s.undelivered 1 = 0 ∧ s.alive (s.promises 0).installation = true ∧
      s.alive (s.promises 1).installation = true ∧
      ∃ settlement₀ settlement₁, s.log = [.called 0 0 settlement₀, .called 1 0 settlement₁] :=
    ⟨_, rfl, rfl, rfl, rfl, rfl, rfl, rfl, rfl, _, _, rfl⟩
  obtain ⟨s, hrun, hnext, hfinished₀, hfinished₁, hdelivered₀, hdelivered₁, halive₀, halive₁, _, _,
    hlog⟩ := hrun
  have hquiet (p : Nat) : PromiseEvent.interrupted p ∉ s.log := by
    rw [hlog]
    simp
  obtain ⟨_, _, honce⟩ := promises_settle_once parseSuccess settledRun hpassed hrun
  refine ⟨s, hrun, ?_, ?_⟩
  · exact honce 0 (by omega) hfinished₀ hdelivered₀ halive₀ (hquiet 0)
  · exact honce 1 (by omega) hfinished₁ hdelivered₁ halive₁ (hquiet 1)

/-- A module answers with the byte `0xFF`; a load ends with an exception that is no
`std::exception`. -/
theorem promises_hang :
    (∃ s, runAll (step fun _ => .error (HostProcess.quoting [0xFF])) initial
        [.installCrossNative 0, .callFunction 0,
          .runCall 0 (.envelope [0xFF] ⟨.int 0, .int 0, "1"⟩)] = some s ∧
      (s.promises 0).task = .finished ∧ s.undelivered 0 = 0 ∧
      s.alive (s.promises 0).installation = true ∧ s.calls 0 = 0) ∧
    ∃ s, runAll (step fun _ => .ok .null) initial
        [.installCrossNative 0, .loadFromBuffer 0, .runLoad 0 .otherException] = some s ∧
      (s.promises 0).task = .finished ∧ s.undelivered 0 = 0 ∧
      s.alive (s.promises 0).installation = true ∧ s.calls 0 = 0 := by
  constructor
  · have hbytes : String.fromUTF8? ("Malformed result from module: ".toUTF8 ++
        HostProcess.quoting [0xFF]) = none := by
      decide +kernel
    have hlost (s : JsiProxy) : s.runCall (fun _ => .error (HostProcess.quoting [0xFF])) 0
        (.envelope [0xFF] ⟨.int 0, .int 0, "1"⟩) = s := by
      have hresult : (callResult (fun _ => .error (HostProcess.quoting [0xFF]))
          (.envelope [0xFF] ⟨.int 0, .int 0, "1"⟩)).toEnvelopeJson = none := by
        simp only [callResult, executeCall, unwrapText, RawResult.failed, RawResult.toEnvelopeJson,
          Option.getD_some, hbytes]
        rfl
      rw [runCall, hresult]
    have hstep : runAll (step fun _ => .error (HostProcess.quoting [0xFF])) initial
        [.installCrossNative 0, .callFunction 0,
          .runCall 0 (.envelope [0xFF] ⟨.int 0, .int 0, "1"⟩)] =
        some ((((initial.installCrossNative 0).makePromise 0 .call).runCall
          (fun _ => .error (HostProcess.quoting [0xFF])) 0
          (.envelope [0xFF] ⟨.int 0, .int 0, "1"⟩)).finishTask 0) := rfl
    rw [hlost] at hstep
    exact ⟨_, hstep, rfl, rfl, rfl, rfl⟩
  · exact ⟨_, rfl, rfl, rfl, rfl, rfl⟩

end JsiProxy

end CrossNative
