import CrossNative.Basis.Transition

/-!
# Destroying the core while its pool has work

The destructor's body empties `modules_`; then the members go in the reverse of their
declaration, `modules_` and its mutex before the pool. The pool's destructor lets the workers
drain the queue before it joins them.
-/

namespace CrossNative

set_option autoImplicit false

open Basis

inductive Member
  | wasmRuntime
  | threadPool
  | modulesMutex
  | modules
  | buffersMutex
  | buffers
  deriving DecidableEq, Repr

/-- As declared in the class. -/
def Member.declared : List Member :=
  [.wasmRuntime, .threadPool, .modulesMutex, .modules, .buffersMutex, .buffers]

theorem Member.mem_declared (m : Member) : m ∈ Member.declared.reverse := by
  cases m <;> simp [Member.declared]

/-- The runtime goes last. -/
theorem Member.nil_of_wasmRuntime {rest : List Member}
    (h : Member.wasmRuntime :: rest <:+ Member.declared.reverse) : rest = [] := by
  simpa [Member.declared, List.suffix_cons_iff] using h

/-- What a task does next with a member of the object. -/
inductive TaskStep
  | callLock (id : String)
  | callFind (id : String)
  | callUnlock (found : Bool)
  /-- `module->call`, through the runtime pointer of the module. -/
  | callRun
  /-- The call's pointer goes; the last one disposes the module in the runtime. -/
  | callRelease
  | loadRuntime (id : String)
  /-- `module->getFunctions()` in `registerModule`. -/
  | registerCount (id : String)
  | registerLock (id : String)
  | registerStore (id : String)
  /-- The replaced pointer goes. -/
  | registerRelease
  | registerUnlock
  deriving DecidableEq, Repr

inductive PoolTask
  | executeCall (id : String)
  | installWasmModule (id : String)
  deriving DecidableEq, Repr

namespace PoolTask

def first : PoolTask → TaskStep
  | executeCall id => .callLock id
  | installWasmModule id => .loadRuntime id

end PoolTask

namespace TaskStep

/-- The member the step touches. -/
def uses : TaskStep → Member
  | callLock _ | callUnlock _ | registerLock _ | registerUnlock => .modulesMutex
  | callFind _ | registerStore _ => .modules
  | callRun | callRelease | loadRuntime _ | registerCount _ | registerRelease => .wasmRuntime

/-- The members a task may still touch, from this step on. -/
def needs : TaskStep → List Member
  | callLock _ | callFind _ => [.modulesMutex, .modules, .wasmRuntime]
  | callUnlock _ => [.modulesMutex, .wasmRuntime]
  | callRun | callRelease => [.wasmRuntime]
  | loadRuntime _ | registerCount _ | registerLock _ | registerStore _ =>
    [.modulesMutex, .modules, .wasmRuntime]
  | registerRelease => [.modulesMutex, .wasmRuntime]
  | registerUnlock => [.modulesMutex]

/-- The step after this one: `found` is what `modules_` has under the id, `ok` whether the runtime
has loaded the module. -/
def next (found ok : Bool) : TaskStep → Option TaskStep
  | callLock id => some (callFind id)
  | callFind _ => some (callUnlock found)
  | callUnlock found => if found then some callRun else none
  | callRun => some callRelease
  | callRelease => none
  | loadRuntime id => if ok then some (registerCount id) else none
  | registerCount id => some (registerLock id)
  | registerLock id => some (registerStore id)
  | registerStore _ => some (if found then registerRelease else registerUnlock)
  | registerRelease => some registerUnlock
  | registerUnlock => none

def locks : TaskStep → Bool
  | callLock _ | registerLock _ => true
  | _ => false

def unlocks : TaskStep → Bool
  | callUnlock _ | registerUnlock => true
  | _ => false

theorem uses_mem_needs (step : TaskStep) : step.uses ∈ step.needs := by
  cases step <;> simp [uses, needs]

theorem needs_of_next {step step' : TaskStep} {found ok : Bool} (h : step.next found ok = some step')
    {m : Member} (hm : m ∈ step'.needs) : m ∈ step.needs := by
  cases step with
  | callRelease | registerUnlock => cases h
  | callUnlock found' =>
    obtain ⟨_, heq⟩ := Option.ite_none_right_eq_some.mp h
    cases heq
    exact List.mem_cons_of_mem _ hm
  | loadRuntime id =>
    obtain ⟨_, heq⟩ := Option.ite_none_right_eq_some.mp h
    cases heq
    exact hm
  | callLock id | callRun | registerCount id | registerLock id =>
    cases h
    exact hm
  | callFind id =>
    cases h
    simp only [needs, List.mem_cons] at hm ⊢
    exact hm.imp_right Or.inr
  | registerStore id =>
    cases h
    cases found with
    | true =>
      simp only [if_true, needs, List.mem_cons] at hm ⊢
      exact hm.imp_right Or.inr
    | false => exact List.mem_cons.mpr (Or.inl (List.mem_singleton.mp hm))
  | registerRelease =>
    cases h
    exact List.mem_cons.mpr (Or.inl (List.mem_singleton.mp hm))

theorem not_needs_buffers (step : TaskStep) {m : Member} (hm : m = .buffers ∨ m = .buffersMutex) :
    m ∉ step.needs := by
  rcases hm with rfl | rfl <;> cases step <;> simp [needs]

end TaskStep

inductive MutexHolder
  | worker (i : Nat)
  | destructor
  deriving DecidableEq, Repr

inductive DestructionPhase
  | alive
  /-- In the body, with `modulesMutex_` held. -/
  | body
  | members
  deriving DecidableEq, Repr

structure CoreObject where
  queue : List PoolTask
  /-- The next step of each worker's task. -/
  workers : List (Option TaskStep)
  mutex : Option MutexHolder
  modules : String → Bool
  phase : DestructionPhase
  /-- The members still there, in the order of their destruction. -/
  remaining : List Member
  stop : Bool

inductive CoreAction
  | enqueue (task : PoolTask)
  /-- A worker takes a task from the queue, in whatever order. -/
  | take (worker task : Nat)
  | work (worker : Nat) (ok : Bool)
  | beginDestructor
  | finishBody
  /-- `stop_` is set and the workers are notified. -/
  | shutdown
  | destroyMember

namespace CoreObject

def constructed (poolSize : Nat) : CoreObject where
  queue := []
  workers := List.replicate poolSize none
  mutex := none
  modules := fun _ => false
  phase := .alive
  remaining := Member.declared.reverse
  stop := false

def found (s : CoreObject) : TaskStep → Bool
  | .callFind id | .registerStore id => s.modules id
  | _ => false

def store (s : CoreObject) : TaskStep → String → Bool
  | .registerStore id => Function.update s.modules id true
  | _ => s.modules

def work (s : CoreObject) (i : Nat) (step : TaskStep) (ok : Bool) : CoreObject :=
  { s with
    workers := s.workers.set i (step.next (s.found step) ok)
    mutex := if step.locks then some (.worker i) else if step.unlocks then none else s.mutex
    modules := s.store step }

/-- The workers have left their loops. -/
def joined (s : CoreObject) : Bool := s.stop && s.queue.isEmpty && s.workers.all Option.isNone

/-- No task is handed to an object whose destructor has begun. -/
def step (s : CoreObject) : CoreAction → Option CoreObject
  | .enqueue task => if s.phase = .alive then some { s with queue := s.queue ++ [task] } else none
  | .take i n =>
    match s.workers[i]?, s.queue[n]? with
    | some none, some task =>
      some { s with workers := s.workers.set i (some task.first), queue := s.queue.eraseIdx n }
    | _, _ => none
  | .work i ok =>
    match s.workers[i]? with
    | some (some step) => if step.locks && s.mutex.isSome then none else some (s.work i step ok)
    | _ => none
  | .beginDestructor =>
    if s.phase = .alive ∧ s.mutex = none then
      some { s with phase := .body, mutex := some .destructor }
    else none
  | .finishBody =>
    if s.phase = .body then
      some { s with phase := .members, mutex := none, modules := fun _ => false }
    else none
  | .shutdown =>
    if s.phase = .members ∧ s.remaining.head? = some .threadPool then some { s with stop := true }
    else none
  | .destroyMember =>
    match s.phase, s.remaining with
    | .members, .threadPool :: rest => if s.joined then some { s with remaining := rest } else none
    | .members, _ :: rest => some { s with remaining := rest }
    | _, _ => none

/-- A queued or running task may still touch the member. -/
def Needed (s : CoreObject) (m : Member) : Prop :=
  (∃ task ∈ s.queue, m ∈ task.first.needs) ∨ ∃ step, some step ∈ s.workers ∧ m ∈ step.needs

/-- `modules_` and its mutex go when no task needs them. -/
def Unneeded (s : CoreObject) : CoreAction → Prop
  | .destroyMember => ∀ m, s.remaining.head? = some m → m = .modules ∨ m = .modulesMutex → ¬ s.Needed m
  | _ => True

structure Invariant (s : CoreObject) : Prop where
  order : s.remaining <:+ Member.declared.reverse
  gone : ∀ m, m ∉ s.remaining → ¬ s.Needed m
  joined : .threadPool ∉ s.remaining → ∀ m, ¬ s.Needed m
  dying : s.remaining ≠ Member.declared.reverse → s.phase = .members

theorem invariant_constructed (poolSize : Nat) : Invariant (constructed poolSize) where
  order := List.suffix_rfl
  gone := fun m hm => absurd (Member.mem_declared m) hm
  joined := fun hpool => absurd (Member.mem_declared _) hpool
  dying := fun h => absurd rfl h

variable {s t : CoreObject}

/-- Nothing becomes needed, and no member goes. -/
theorem Invariant.of_needed (h : Invariant s) (hremaining : t.remaining = s.remaining)
    (hphase : s.phase = .members → t.phase = .members) (hneeded : ∀ m, t.Needed m → s.Needed m) :
    Invariant t where
  order := hremaining ▸ h.order
  gone := fun m hm hn => h.gone m (hremaining ▸ hm) (hneeded m hn)
  joined := fun hpool m hn => h.joined (hremaining ▸ hpool) m (hneeded m hn)
  dying := fun hne => hphase (h.dying (hremaining ▸ hne))

theorem Invariant.enqueue (h : Invariant s) {task : PoolTask}
    (hstep : s.step (.enqueue task) = some t) : Invariant t := by
  obtain ⟨halive, heq⟩ := Option.ite_none_right_eq_some.mp hstep
  cases heq
  have hall : s.remaining = Member.declared.reverse := by
    by_contra hne
    rw [h.dying hne] at halive
    cases halive
  refine ⟨h.order, ?_, ?_, h.dying⟩
  · intro m hm
    dsimp only at hm
    rw [hall] at hm
    exact absurd (Member.mem_declared m) hm
  · intro hpool
    dsimp only at hpool
    rw [hall] at hpool
    exact absurd (Member.mem_declared _) hpool

theorem Invariant.take (h : Invariant s) {i n : Nat} (hstep : s.step (.take i n) = some t) :
    Invariant t := by
  simp only [step] at hstep
  split at hstep
  · rename_i task _ htask
    cases hstep
    have hmem := List.mem_of_getElem? htask
    refine h.of_needed rfl id ?_
    rintro m (⟨task', htask', hneeds⟩ | ⟨step, hworker, hneeds⟩)
    · exact Or.inl ⟨task', List.mem_of_mem_eraseIdx htask', hneeds⟩
    · rcases List.mem_or_eq_of_mem_set hworker with hworker | heq
      · exact Or.inr ⟨step, hworker, hneeds⟩
      · cases heq
        exact Or.inl ⟨task, hmem, hneeds⟩
  · cases hstep

theorem Invariant.work (h : Invariant s) {i : Nat} {ok : Bool}
    (hstep : s.step (.work i ok) = some t) : Invariant t := by
  simp only [step] at hstep
  split at hstep
  · rename_i step hworker
    split at hstep
    · cases hstep
    · cases hstep
      have hmem := List.mem_of_getElem? hworker
      refine h.of_needed rfl id ?_
      rintro m (hqueue | ⟨step', hworker', hneeds⟩)
      · exact Or.inl hqueue
      · rcases List.mem_or_eq_of_mem_set hworker' with hworker' | heq
        · exact Or.inr ⟨step', hworker', hneeds⟩
        · exact Or.inr ⟨step, hmem, TaskStep.needs_of_next heq.symm hneeds⟩
  · cases hstep

theorem not_needed_of_joined (h : s.joined = true) (m : Member) : ¬ s.Needed m := by
  simp only [joined, Bool.and_eq_true, List.isEmpty_iff, List.all_eq_true] at h
  obtain ⟨⟨_, hqueue⟩, hworkers⟩ := h
  rintro (⟨task, htask, _⟩ | ⟨step, hstep, _⟩)
  · rw [hqueue] at htask
    cases htask
  · cases hworkers _ hstep

theorem not_needed_of_buffers {m : Member} (hm : m = .buffers ∨ m = .buffersMutex) : ¬ s.Needed m := by
  rintro (⟨task, _, hneeds⟩ | ⟨step, _, hneeds⟩)
  · exact TaskStep.not_needs_buffers _ hm hneeds
  · exact TaskStep.not_needs_buffers _ hm hneeds

/-- The next member is only destroyed when no task needs it: for the pool and the runtime the
join sees to that. -/
theorem Invariant.destroyed (h : Invariant s) (hallowed : s.Unneeded .destroyMember) {m : Member}
    {rest : List Member} (hremaining : s.remaining = m :: rest)
    (hpool : m = .threadPool → s.joined = true) (hmembers : s.phase = .members) :
    Invariant { s with remaining := rest } := by
  have hm : ¬ s.Needed m := by
    cases m with
    | buffers => exact not_needed_of_buffers (Or.inl rfl)
    | buffersMutex => exact not_needed_of_buffers (Or.inr rfl)
    | modules => exact hallowed _ (by rw [hremaining]; rfl) (Or.inl rfl)
    | modulesMutex => exact hallowed _ (by rw [hremaining]; rfl) (Or.inr rfl)
    | threadPool => exact not_needed_of_joined (hpool rfl) _
    | wasmRuntime =>
      have hlast := Member.nil_of_wasmRuntime (hremaining ▸ h.order)
      apply h.joined
      rw [hremaining, hlast]
      simp
  refine ⟨?_, ?_, ?_, fun _ => hmembers⟩
  · have horder := h.order
    rw [hremaining] at horder
    exact (List.suffix_cons m rest).trans horder
  · intro m' hm' hneeded
    by_cases heq : m' = m
    · subst heq
      exact hm hneeded
    · refine h.gone m' ?_ hneeded
      rw [hremaining]
      exact List.not_mem_cons_of_ne_of_not_mem heq hm'
  · intro hgone m' hneeded
    by_cases heq : m = .threadPool
    · exact not_needed_of_joined (hpool heq) m' hneeded
    · refine h.joined ?_ m' hneeded
      rw [hremaining]
      exact List.not_mem_cons_of_ne_of_not_mem (Ne.symm heq) hgone

theorem Invariant.destroyMember (h : Invariant s) (hallowed : s.Unneeded .destroyMember)
    (hstep : s.step .destroyMember = some t) : Invariant t := by
  simp only [step] at hstep
  split at hstep
  · rename_i rest hphase hremaining
    obtain ⟨hjoined, heq⟩ := Option.ite_none_right_eq_some.mp hstep
    cases heq
    exact h.destroyed hallowed hremaining (fun _ => hjoined) hphase
  · rename_i m rest hother hphase hremaining
    cases hstep
    refine h.destroyed hallowed hremaining ?_ hphase
    intro heq
    exact (hother heq).elim
  · cases hstep

theorem Invariant.step {a : CoreAction} (h : Invariant s) (hallowed : s.Unneeded a)
    (hstep : s.step a = some t) : Invariant t := by
  cases a with
  | enqueue task => exact h.enqueue hstep
  | take i n => exact h.take hstep
  | work i ok => exact h.work hstep
  | beginDestructor =>
    obtain ⟨⟨halive, _⟩, heq⟩ := Option.ite_none_right_eq_some.mp hstep
    cases heq
    refine ⟨h.order, h.gone, h.joined, ?_⟩
    intro hne
    have hmembers := h.dying hne
    rw [halive] at hmembers
    cases hmembers
  | finishBody =>
    obtain ⟨_, heq⟩ := Option.ite_none_right_eq_some.mp hstep
    cases heq
    exact h.of_needed rfl (fun _ => rfl) (fun _ hn => hn)
  | shutdown =>
    obtain ⟨_, heq⟩ := Option.ite_none_right_eq_some.mp hstep
    cases heq
    exact h.of_needed rfl id (fun _ hn => hn)
  | destroyMember => exact h.destroyMember hallowed hstep

/-- In a run in which `modules_` and its mutex are destroyed only when no queued or running task
needs them, no task touches a member that is gone. -/
theorem uses_remaining (actions : List CoreAction) {poolSize : Nat}
    (hmeets : Meets CoreObject.step Unneeded (constructed poolSize) actions)
    (hrun : runAll CoreObject.step (constructed poolSize) actions = some s) {step : TaskStep}
    (hworker : some step ∈ s.workers) : step.uses ∈ s.remaining := by
  have h : Invariant s := by
    apply runAll_invariant _ actions (invariant_constructed poolSize) hmeets hrun
    intro s a t h hallowed hstep
    exact h.step hallowed hstep
  by_contra hgone
  exact h.gone _ hgone (Or.inr ⟨step, hworker, step.uses_mem_needs⟩)

/-- A call that is past `modules_` when the object goes: it is drained, and then the rest goes. -/
def drained : List CoreAction :=
  [.enqueue (.installWasmModule "m"), .take 0 0, .work 0 true, .work 0 true, .work 0 true,
    .work 0 true, .work 0 true, .enqueue (.executeCall "m"), .take 0 0, .work 0 true, .work 0 true,
    .work 0 true, .beginDestructor, .finishBody, .destroyMember, .destroyMember, .destroyMember,
    .destroyMember]

/-- A worker with a call that is past `modules_` needs neither the map nor the mutex. -/
theorem not_needed_of_callRun {m : Member} (hqueue : s.queue = [])
    (hworkers : s.workers = [some .callRun]) (hm : m ≠ .wasmRuntime) : ¬ s.Needed m := by
  rintro (⟨task, htask, _⟩ | ⟨step, hstep, hneeds⟩)
  · rw [hqueue] at htask
    cases htask
  · rw [hworkers] at hstep
    cases List.mem_singleton.mp hstep
    exact hm (List.mem_singleton.mp hneeds)

theorem drained_meets : Meets CoreObject.step Unneeded (constructed 1) drained := by
  iterate 14
    refine .cons trivial rfl ?_
  iterate 4
    refine .cons (fun m hm hor => not_needed_of_callRun rfl rfl ?_) rfl ?_
    · rcases hor with rfl | rfl <;> simp
  trivial

theorem uses_remaining_drained :
    ∃ s, runAll CoreObject.step (constructed 1) drained = some s ∧
      s.workers = [some .callRun] ∧ Member.wasmRuntime ∈ s.remaining :=
  ⟨_, rfl, rfl, uses_remaining drained drained_meets rfl (List.mem_singleton.mpr rfl)⟩

/-- A call that is queued when the destructor runs is started by the draining pool: it locks a
mutex and reads a map that are gone. -/
theorem uses_destroyed :
    (∃ s, runAll CoreObject.step (constructed 1)
        [.enqueue (.executeCall "m"), .beginDestructor, .finishBody, .destroyMember, .destroyMember,
          .destroyMember, .destroyMember, .shutdown, .take 0 0] = some s ∧
      some (.callLock "m") ∈ s.workers ∧ Member.modulesMutex ∉ s.remaining) ∧
    ∃ s, runAll CoreObject.step (constructed 1)
        [.enqueue (.executeCall "m"), .beginDestructor, .finishBody, .destroyMember, .destroyMember,
          .destroyMember, .destroyMember, .shutdown, .take 0 0, .work 0 true] = some s ∧
      some (.callFind "m") ∈ s.workers ∧ Member.modules ∉ s.remaining :=
  ⟨⟨_, rfl, List.mem_singleton.mpr rfl, by simp⟩, ⟨_, rfl, List.mem_singleton.mpr rfl, by simp [work]⟩⟩

end CoreObject

end CrossNative
