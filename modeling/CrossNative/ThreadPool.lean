import CrossNative.Basis.History
import CrossNative.Basis.Transition
import Mathlib.Data.List.Count

/-!
# The thread pool

Workers take tasks from one queue, highest priority first. Taking a task, cancelling all tasks and
setting the stop flag each happen under the queue's mutex; the counter of active workers goes up
just before a body starts and down just after it has ended.
-/

namespace CrossNative

set_option autoImplicit false

open Basis

/-- `TaskPriority`; `resolveSettings` casts any integer to it. -/
abbrev TaskPriority := Int

/-- A queued task. `id` stands for its body, `cancelled` for the address of a flag. -/
structure Task where
  id : Nat
  priority : TaskPriority
  cancelled : Option Nat
  deriving DecidableEq, Repr

/-- `operator<`: a lower number is a higher priority. -/
def Task.less (a b : Task) : Bool := decide (a.priority > b.priority)

/-- What `std::priority_queue` may have at its top: an element below no other. -/
def IsTop (tasks : List Task) (t : Task) : Prop := t ∈ tasks ∧ ∀ u ∈ tasks, t.less u = false

instance (tasks : List Task) (t : Task) : Decidable (IsTop tasks t) := by
  unfold IsTop
  infer_instance

theorem IsTop.priority_le {tasks : List Task} {t : Task} (h : IsTop tasks t) :
    ∀ u ∈ tasks, t.priority ≤ u.priority := by
  intro u hu
  have hless := h.2 u hu
  rw [Task.less, decide_eq_false_iff_not] at hless
  exact Int.not_lt.mp hless

/-- How a body ends; `workerLoop` catches whatever escapes it. -/
inductive BodyEnding
  | returned
  | stdException
  | otherException
  deriving DecidableEq, Repr

inductive WorkerState
  /-- At the head of the loop, waiting for the condition. -/
  | waiting
  /-- The task has been moved out of the queue. -/
  | fetched (t : Task)
  /-- Between the two updates of `activeCount_`. -/
  | running (t : Task)
  | exited
  deriving DecidableEq, Repr

inductive PoolEvent
  | accepted (id : Nat)
  | refused
  | dequeued (t : Task) (queued : List Task)
  | started (id : Nat)
  | ended (id : Nat)
  /-- Emptied out of the queue by `cancelAll`. -/
  | removed (id : Nat)
  | shutdown
  deriving DecidableEq, Repr

structure ThreadPool where
  workers : List WorkerState
  tasks : List Task
  stop : Bool
  activeCount : Nat
  flags : Nat → Bool
  nextTask : Nat
  log : List PoolEvent

inductive PoolAction
  | enqueue (priority : TaskPriority)
  | fetch (worker : Nat) (t : Task)
  | exit (worker : Nat)
  | skip (worker : Nat)
  | start (worker : Nat)
  | finish (worker : Nat) (ending : BodyEnding)
  | cancelAll
  | shutdown
  deriving DecidableEq, Repr

namespace WorkerState

def isRunning : WorkerState → Bool
  | running _ => true
  | _ => false

/-- The worker has taken the task and not yet started it. -/
def fetchedId (id : Nat) : WorkerState → Bool
  | fetched t => t.id == id
  | _ => false

def runningId (id : Nat) : WorkerState → Bool
  | running t => t.id == id
  | _ => false

end WorkerState

namespace ThreadPool

def create (numThreads : Nat) : ThreadPool where
  workers := List.replicate numThreads .waiting
  tasks := []
  stop := false
  activeCount := 0
  flags := fun _ => false
  nextTask := 0
  log := []

def setWorker (s : ThreadPool) (worker : Nat) (w : WorkerState) : ThreadPool :=
  { s with workers := s.workers.set worker w }

def record (s : ThreadPool) (events : List PoolEvent) : ThreadPool := { s with log := s.log ++ events }

/-- Refused once the pool is stopped. A new task has no flag to cancel it by. -/
def enqueue (s : ThreadPool) (priority : TaskPriority) : ThreadPool :=
  if s.stop then s.record [.refused]
  else
    { s with
      tasks := s.tasks ++ [⟨s.nextTask, priority, none⟩]
      nextTask := s.nextTask + 1
      log := s.log ++ [.accepted s.nextTask] }

/-- Raise the flag of every queued task that has one, then empty the queue. -/
def cancelAll (s : ThreadPool) : ThreadPool :=
  { s with
    flags := fun address => s.flags address || s.tasks.any fun t => t.cancelled == some address
    tasks := []
    log := s.log ++ s.tasks.map fun t => .removed t.id }

def isCancelled (s : ThreadPool) (t : Task) : Bool := t.cancelled.any s.flags

/-- One step of a worker or of a caller, if it is possible. -/
def step (s : ThreadPool) : PoolAction → Option ThreadPool
  | .enqueue priority => some (s.enqueue priority)
  | .fetch worker t =>
    if s.workers[worker]? = some .waiting ∧ IsTop s.tasks t then
      some (({ s with tasks := s.tasks.erase t }.setWorker worker (.fetched t)).record
        [.dequeued t s.tasks])
    else none
  | .exit worker =>
    if s.workers[worker]? = some .waiting ∧ s.stop = true ∧ s.tasks = [] then
      some (s.setWorker worker .exited)
    else none
  | .skip worker =>
    match s.workers[worker]? with
    | some (.fetched t) => if s.isCancelled t then some (s.setWorker worker .waiting) else none
    | _ => none
  | .start worker =>
    match s.workers[worker]? with
    | some (.fetched t) =>
      if s.isCancelled t then none
      else
        some (({ s with activeCount := s.activeCount + 1 }.setWorker worker (.running t)).record
          [.started t.id])
    | _ => none
  | .finish worker _ =>
    match s.workers[worker]? with
    | some (.running t) =>
      some (({ s with activeCount := s.activeCount - 1 }.setWorker worker .waiting).record
        [.ended t.id])
    | _ => none
  | .cancelAll => some s.cancelAll
  | .shutdown => some ({ s with stop := true }.record [.shutdown])

/-- All workers have left their loop, as `shutdown` waits for. -/
def Joined (s : ThreadPool) : Prop := ∀ w ∈ s.workers, w = .exited

/-! ## Every task is somewhere -/

/-- The condition under which `enqueue` may have logged its answer. -/
def AnswersEnqueue (before : List PoolEvent) (e : PoolEvent) : Prop :=
  (e = .refused → PoolEvent.shutdown ∈ before) ∧
    ∀ id, e = .accepted id → PoolEvent.shutdown ∉ before

structure Accounted (s : ThreadPool) : Prop where
  accepted : ∀ id, id < s.nextTask → s.log.count (.accepted id) = 1
  fresh : ∀ id, s.nextTask ≤ id → s.log.count (.accepted id) = 0
  /-- A task is queued, in a worker's hands, ended or removed. -/
  kept : ∀ id, s.tasks.countP (fun t => t.id == id) + s.workers.countP (WorkerState.fetchedId id) +
    s.workers.countP (WorkerState.runningId id) + s.log.count (.ended id) +
    s.log.count (.removed id) = s.log.count (.accepted id)
  begun : ∀ id, s.log.count (.started id) =
    s.workers.countP (WorkerState.runningId id) + s.log.count (.ended id)
  unflagged : (∀ t ∈ s.tasks, t.cancelled = none) ∧
    ∀ t, WorkerState.fetched t ∈ s.workers → t.cancelled = none
  drained : WorkerState.exited ∈ s.workers → s.stop = true ∧ s.tasks = []
  active : s.activeCount = s.workers.countP WorkerState.isRunning
  dequeued : ∀ t queued, PoolEvent.dequeued t queued ∈ s.log → IsTop queued t
  stopped : s.stop = true ↔ PoolEvent.shutdown ∈ s.log
  answers : Guarded AnswersEnqueue s.log

theorem create_accounted (numThreads : Nat) : (create numThreads).Accounted where
  accepted := by simp [create]
  fresh := by simp [create]
  kept := by simp [create, List.countP_replicate, WorkerState.fetchedId, WorkerState.runningId]
  begun := by simp [create, List.countP_replicate, WorkerState.runningId]
  unflagged := by simp [create]
  drained := by simp [create]
  active := by simp [create, List.countP_replicate, WorkerState.isRunning]
  dequeued := by simp [create]
  stopped := by simp [create]
  answers := Guarded.nil

/-- Replacing a worker's state, counted without subtraction. -/
theorem countP_set_add {l : List WorkerState} {i : Nat} {w : WorkerState} (h : l[i]? = some w)
    (w' : WorkerState) (p : WorkerState → Bool) :
    (l.set i w').countP p + (p w).toNat = l.countP p + (p w').toNat := by
  obtain ⟨hi, hw⟩ := List.getElem?_eq_some_iff.mp h
  have hpos : (p w).toNat ≤ l.countP p := by
    cases hp : p w with
    | false => exact Nat.zero_le _
    | true => exact List.countP_pos_iff.mpr ⟨w, List.mem_of_getElem? h, hp⟩
  have htoNat (b : Bool) : (if b = true then 1 else 0) = b.toNat := by cases b <;> rfl
  rw [List.countP_set hi, hw, htoNat, htoNat]
  omega

namespace Accounted

variable {s : ThreadPool}

theorem enqueue (h : s.Accounted) (priority : TaskPriority) : (s.enqueue priority).Accounted := by
  unfold ThreadPool.enqueue
  split
  · rename_i hstop
    exact {
      accepted := fun id hid => by simpa [record] using h.accepted id hid
      fresh := fun id hid => by simpa [record] using h.fresh id hid
      kept := fun id => by simpa [record] using h.kept id
      begun := fun id => by simpa [record] using h.begun id
      unflagged := h.unflagged
      drained := h.drained
      active := h.active
      dequeued := fun t queued hmem => h.dequeued t queued (by simpa [record] using hmem)
      stopped := by simpa [record] using h.stopped
      answers := h.answers.snoc ⟨fun _ => h.stopped.mp hstop, fun _ heq => by cases heq⟩ }
  · rename_i hrunning
    have hother {id : Nat} (hne : s.nextTask ≠ id) :
        (s.log ++ [PoolEvent.accepted s.nextTask]).count (.accepted id) = s.log.count (.accepted id) := by
      simp [hne]
    have hself : (s.log ++ [PoolEvent.accepted s.nextTask]).count (.accepted s.nextTask) = 1 := by
      simp [h.fresh s.nextTask (Nat.le_refl _)]
    exact {
      accepted := fun id hid => by
        by_cases heq : s.nextTask = id
        · rw [← heq]
          exact hself
        · rw [hother heq]
          exact h.accepted id (by simp only at hid; omega)
      fresh := fun id hid => by
        simp only at hid
        rw [hother (by omega)]
        exact h.fresh id (by omega)
      kept := fun id => by
        have hkept := h.kept id
        by_cases heq : s.nextTask = id
        · have hfresh := h.fresh id (by omega)
          subst heq
          simp [List.countP_append] at hkept ⊢
          omega
        · simpa [List.countP_append, heq] using hkept
      begun := fun id => by simpa using h.begun id
      unflagged := by
        refine ⟨fun t hmem => ?_, h.unflagged.2⟩
        rcases List.mem_append.mp hmem with hmem | hmem
        · exact h.unflagged.1 t hmem
        · rw [List.mem_singleton.mp hmem]
      drained := fun hexited => absurd (h.drained hexited).1 hrunning
      active := h.active
      dequeued := fun t queued hmem => h.dequeued t queued (by simpa using hmem)
      stopped := by simpa using h.stopped
      answers := by
        apply h.answers.snoc
        exact ⟨fun heq => (by cases heq), fun _ _ hmem => hrunning (h.stopped.mpr hmem)⟩ }

theorem unflagged_set (h : s.Accounted) (worker : Nat) {state : WorkerState}
    (hstate : ∀ t, state ≠ .fetched t) :
    ∀ t, WorkerState.fetched t ∈ s.workers.set worker state → t.cancelled = none := by
  intro t hmem
  rcases List.mem_or_eq_of_mem_set hmem with hmem | heq
  · exact h.unflagged.2 t hmem
  · exact absurd heq.symm (hstate t)

theorem drained_set (h : s.Accounted) {worker : Nat} {state : WorkerState} (hstate : state ≠ .exited)
    (hexited : WorkerState.exited ∈ s.workers.set worker state) : s.stop = true ∧ s.tasks = [] := by
  rcases List.mem_or_eq_of_mem_set hexited with hmem | heq
  · exact h.drained hmem
  · exact absurd heq.symm hstate

theorem fetch (h : s.Accounted) {worker : Nat} {t : Task}
    (hworker : s.workers[worker]? = some .waiting) (htop : IsTop s.tasks t) :
    (({ s with tasks := s.tasks.erase t }.setWorker worker (.fetched t)).record
      [.dequeued t s.tasks]).Accounted where
  accepted id hid := by simpa [record, setWorker] using h.accepted id hid
  fresh id hid := by simpa [record, setWorker] using h.fresh id hid
  kept id := by
    have hkept := h.kept id
    have hqueue := (List.perm_cons_erase htop.1).countP_eq fun u => u.id == id
    have hfetched := countP_set_add hworker (.fetched t) (WorkerState.fetchedId id)
    have hrunning := countP_set_add hworker (.fetched t) (WorkerState.runningId id)
    rw [List.countP_cons] at hqueue
    cases hid : t.id == id with
    | true =>
      simp [record, setWorker, WorkerState.fetchedId, WorkerState.runningId, hid] at hkept hqueue hfetched hrunning ⊢
      omega
    | false =>
      simp [record, setWorker, WorkerState.fetchedId, WorkerState.runningId, hid] at hkept hqueue hfetched hrunning ⊢
      omega
  begun id := by
    have hbegun := h.begun id
    have hrunning := countP_set_add hworker (.fetched t) (WorkerState.runningId id)
    simp [record, setWorker, WorkerState.runningId] at hbegun hrunning ⊢
    omega
  unflagged := by
    refine ⟨fun u hu => h.unflagged.1 u (List.mem_of_mem_erase hu), fun u hmem => ?_⟩
    rcases List.mem_or_eq_of_mem_set hmem with hmem | heq
    · exact h.unflagged.2 u hmem
    · cases heq
      exact h.unflagged.1 t htop.1
  drained hexited := by
    have hempty := (h.drained_set (by simp) hexited).2
    exact absurd htop.1 (by rw [hempty]; exact List.not_mem_nil)
  active := by
    have hrunning := countP_set_add hworker (.fetched t) WorkerState.isRunning
    have hactive := h.active
    simp [record, setWorker, WorkerState.isRunning] at hrunning hactive ⊢
    omega
  dequeued u queued hmem := by
    rcases List.mem_append.mp hmem with hmem | hmem
    · exact h.dequeued u queued hmem
    · cases List.mem_singleton.mp hmem
      exact htop
  stopped := by simpa [record, setWorker] using h.stopped
  answers := h.answers.snoc ⟨fun heq => (by cases heq), fun _ heq => by cases heq⟩

theorem exit (h : s.Accounted) {worker : Nat} (hworker : s.workers[worker]? = some .waiting)
    (hstop : s.stop = true) (hempty : s.tasks = []) : (s.setWorker worker .exited).Accounted where
  accepted := h.accepted
  fresh := h.fresh
  kept id := by
    have hkept := h.kept id
    have hfetched := countP_set_add hworker .exited (WorkerState.fetchedId id)
    have hrunning := countP_set_add hworker .exited (WorkerState.runningId id)
    simp only [WorkerState.fetchedId, WorkerState.runningId, setWorker] at hkept hfetched hrunning ⊢
    omega
  begun id := by
    have hbegun := h.begun id
    have hrunning := countP_set_add hworker .exited (WorkerState.runningId id)
    simp only [WorkerState.runningId, setWorker] at hbegun hrunning ⊢
    omega
  unflagged := ⟨h.unflagged.1, h.unflagged_set worker (by simp)⟩
  drained _ := ⟨hstop, hempty⟩
  active := by
    have hactive := h.active
    have hrunning := countP_set_add hworker .exited WorkerState.isRunning
    simp only [WorkerState.isRunning, setWorker] at hactive hrunning ⊢
    omega
  dequeued := h.dequeued
  stopped := h.stopped
  answers := h.answers

theorem start (h : s.Accounted) {worker : Nat} {t : Task}
    (hworker : s.workers[worker]? = some (.fetched t)) :
    (({ s with activeCount := s.activeCount + 1 }.setWorker worker (.running t)).record
      [.started t.id]).Accounted where
  accepted id hid := by simpa [record, setWorker] using h.accepted id hid
  fresh id hid := by simpa [record, setWorker] using h.fresh id hid
  kept id := by
    have hkept := h.kept id
    have hfetched := countP_set_add hworker (.running t) (WorkerState.fetchedId id)
    have hrunning := countP_set_add hworker (.running t) (WorkerState.runningId id)
    simp [record, setWorker, WorkerState.fetchedId, WorkerState.runningId] at hkept hfetched hrunning ⊢
    omega
  begun id := by
    have hbegun := h.begun id
    have hrunning := countP_set_add hworker (.running t) (WorkerState.runningId id)
    cases hid : t.id == id with
    | true =>
      have heq := beq_iff_eq.mp hid
      simp [record, setWorker, WorkerState.runningId, heq] at hbegun hrunning ⊢
      omega
    | false =>
      have hne := beq_eq_false_iff_ne.mp hid
      simp [record, setWorker, WorkerState.runningId, hid, hne] at hbegun hrunning ⊢
      omega
  unflagged := ⟨h.unflagged.1, h.unflagged_set worker (by simp)⟩
  drained hexited := h.drained_set (by simp) hexited
  active := by
    have hactive := h.active
    have hrunning := countP_set_add hworker (.running t) WorkerState.isRunning
    simp [record, setWorker, WorkerState.isRunning] at hactive hrunning ⊢
    omega
  dequeued u queued hmem := h.dequeued u queued (by simpa [record, setWorker] using hmem)
  stopped := by simpa [record, setWorker] using h.stopped
  answers := h.answers.snoc ⟨fun heq => (by cases heq), fun _ heq => by cases heq⟩

theorem finish (h : s.Accounted) {worker : Nat} {t : Task}
    (hworker : s.workers[worker]? = some (.running t)) :
    (({ s with activeCount := s.activeCount - 1 }.setWorker worker .waiting).record
      [.ended t.id]).Accounted where
  accepted id hid := by simpa [record, setWorker] using h.accepted id hid
  fresh id hid := by simpa [record, setWorker] using h.fresh id hid
  kept id := by
    have hkept := h.kept id
    have hfetched := countP_set_add hworker .waiting (WorkerState.fetchedId id)
    have hrunning := countP_set_add hworker .waiting (WorkerState.runningId id)
    cases hid : t.id == id with
    | true =>
      have heq := beq_iff_eq.mp hid
      simp [record, setWorker, WorkerState.fetchedId, WorkerState.runningId, heq] at hkept hfetched hrunning ⊢
      omega
    | false =>
      have hne := beq_eq_false_iff_ne.mp hid
      simp [record, setWorker, WorkerState.fetchedId, WorkerState.runningId, hid, hne] at hkept hfetched hrunning ⊢
      omega
  begun id := by
    have hbegun := h.begun id
    have hrunning := countP_set_add hworker .waiting (WorkerState.runningId id)
    cases hid : t.id == id with
    | true =>
      have heq := beq_iff_eq.mp hid
      simp [record, setWorker, WorkerState.runningId, heq] at hbegun hrunning ⊢
      omega
    | false =>
      have hne := beq_eq_false_iff_ne.mp hid
      simp [record, setWorker, WorkerState.runningId, hid, hne] at hbegun hrunning ⊢
      omega
  unflagged := ⟨h.unflagged.1, h.unflagged_set worker (by simp)⟩
  drained hexited := h.drained_set (by simp) hexited
  active := by
    have hactive := h.active
    have hrunning := countP_set_add hworker .waiting WorkerState.isRunning
    simp [record, setWorker, WorkerState.isRunning] at hactive hrunning ⊢
    omega
  dequeued u queued hmem := h.dequeued u queued (by simpa [record, setWorker] using hmem)
  stopped := by simpa [record, setWorker] using h.stopped
  answers := h.answers.snoc ⟨fun heq => (by cases heq), fun _ heq => by cases heq⟩

theorem count_removed (tasks : List Task) (id : Nat) :
    (tasks.map fun t => PoolEvent.removed t.id).count (.removed id) =
      tasks.countP fun t => t.id == id := by
  induction tasks with
  | nil => rfl
  | cons t tasks ih => simp [List.countP_cons, List.count_cons, ih]

theorem cancelAll (h : s.Accounted) : s.cancelAll.Accounted := by
  have hother (e : PoolEvent) (he : ∀ t ∈ s.tasks, PoolEvent.removed t.id ≠ e) :
      (s.log ++ s.tasks.map fun t => PoolEvent.removed t.id).count e = s.log.count e := by
    have habsent : e ∉ s.tasks.map fun t => PoolEvent.removed t.id := by
      intro hmem
      obtain ⟨t, ht, heq⟩ := List.mem_map.mp hmem
      exact he t ht heq
    rw [List.count_append, List.count_eq_zero.mpr habsent, Nat.add_zero]
  exact {
    accepted := fun id hid => (hother _ (by simp)).trans (h.accepted id hid)
    fresh := fun id hid => (hother _ (by simp)).trans (h.fresh id hid)
    kept := fun id => by
      have hkept := h.kept id
      have hended := hother (.ended id) (by simp)
      have haccepted := hother (.accepted id) (by simp)
      have hremoved := count_removed s.tasks id
      simp only [ThreadPool.cancelAll, List.countP_nil, List.count_append] at hended haccepted ⊢
      omega
    begun := fun id => by
      have hbegun := h.begun id
      have hended := hother (.ended id) (by simp)
      have hstarted := hother (.started id) (by simp)
      simp only [ThreadPool.cancelAll] at hended hstarted ⊢
      omega
    unflagged := ⟨by simp [ThreadPool.cancelAll], h.unflagged.2⟩
    drained := fun hexited => ⟨(h.drained hexited).1, rfl⟩
    active := h.active
    dequeued := fun t queued hmem => h.dequeued t queued (by simpa [ThreadPool.cancelAll] using hmem)
    stopped := by simpa [ThreadPool.cancelAll] using h.stopped
    answers := by
      apply h.answers.append_of_forall
      intro e hmem before
      obtain ⟨t, _, rfl⟩ := List.mem_map.mp hmem
      exact ⟨fun heq => (by cases heq), fun _ heq => by cases heq⟩ }

theorem shutdown (h : s.Accounted) : ({ s with stop := true }.record [.shutdown]).Accounted where
  accepted id hid := by simpa [record] using h.accepted id hid
  fresh id hid := by simpa [record] using h.fresh id hid
  kept id := by simpa [record] using h.kept id
  begun id := by simpa [record] using h.begun id
  unflagged := h.unflagged
  drained hexited := ⟨rfl, (h.drained hexited).2⟩
  active := h.active
  dequeued t queued hmem := h.dequeued t queued (by simpa [record] using hmem)
  stopped := by simp [record]
  answers := h.answers.snoc ⟨fun heq => (by cases heq), fun _ heq => by cases heq⟩

theorem isCancelled (h : s.Accounted) {worker : Nat} {t : Task}
    (hworker : s.workers[worker]? = some (.fetched t)) : s.isCancelled t = false := by
  rw [ThreadPool.isCancelled, h.unflagged.2 t (List.mem_of_getElem? hworker)]
  rfl

theorem step (h : s.Accounted) {a : PoolAction} {s' : ThreadPool} (hstep : s.step a = some s') :
    s'.Accounted := by
  cases a with
  | enqueue priority =>
    cases hstep
    exact h.enqueue priority
  | fetch worker t =>
    obtain ⟨hpossible, hs'⟩ := Option.ite_none_right_eq_some.mp hstep
    cases hs'
    exact h.fetch hpossible.1 hpossible.2
  | exit worker =>
    obtain ⟨hpossible, hs'⟩ := Option.ite_none_right_eq_some.mp hstep
    cases hs'
    exact h.exit hpossible.1 hpossible.2.1 hpossible.2.2
  | skip worker =>
    simp only [ThreadPool.step] at hstep
    split at hstep
    · rename_i t hworker
      rw [h.isCancelled hworker] at hstep
      cases hstep
    · cases hstep
  | start worker =>
    simp only [ThreadPool.step] at hstep
    split at hstep
    · rename_i t hworker
      obtain ⟨_, hs'⟩ := Option.ite_none_left_eq_some.mp hstep
      cases hs'
      exact h.start hworker
    · cases hstep
  | finish worker ending =>
    simp only [ThreadPool.step] at hstep
    split at hstep
    · rename_i t hworker
      cases hstep
      exact h.finish hworker
    · cases hstep
  | cancelAll =>
    cases hstep
    exact h.cancelAll
  | shutdown =>
    cases hstep
    exact h.shutdown

end Accounted

theorem length_workers {s s' : ThreadPool} {a : PoolAction} (hstep : s.step a = some s') :
    s'.workers.length = s.workers.length := by
  cases a with
  | enqueue priority =>
    cases hstep
    unfold enqueue
    split <;> rfl
  | fetch worker t =>
    obtain ⟨_, hs'⟩ := Option.ite_none_right_eq_some.mp hstep
    cases hs'
    exact List.length_set
  | exit worker =>
    obtain ⟨_, hs'⟩ := Option.ite_none_right_eq_some.mp hstep
    cases hs'
    exact List.length_set
  | skip worker =>
    simp only [step] at hstep
    split at hstep
    · obtain ⟨_, hs'⟩ := Option.ite_none_right_eq_some.mp hstep
      cases hs'
      exact List.length_set
    · cases hstep
  | start worker =>
    simp only [step] at hstep
    split at hstep
    · obtain ⟨_, hs'⟩ := Option.ite_none_left_eq_some.mp hstep
      cases hs'
      exact List.length_set
    · cases hstep
  | finish worker ending =>
    simp only [step] at hstep
    split at hstep
    · cases hstep
      exact List.length_set
    · cases hstep
  | cancelAll =>
    cases hstep
    rfl
  | shutdown =>
    cases hstep
    rfl

theorem Joined.countP {s : ThreadPool} (h : s.Joined) {p : WorkerState → Bool}
    (hp : p .exited = false) : s.workers.countP p = 0 := by
  apply List.countP_eq_zero.mpr
  intro w hw
  rw [h w hw, hp]
  exact Bool.false_ne_true

namespace Accounted

variable {s : ThreadPool}

theorem started_le (h : s.Accounted) (id : Nat) : s.log.count (.started id) ≤ 1 := by
  have hkept := h.kept id
  have hbegun := h.begun id
  rcases Nat.lt_or_ge id s.nextTask with hid | hid
  · have haccepted := h.accepted id hid
    omega
  · have hfresh := h.fresh id hid
    omega

theorem accepted_le (h : s.Accounted) (id : Nat) : s.log.count (.accepted id) ≤ 1 := by
  rcases Nat.lt_or_ge id s.nextTask with hid | hid
  · exact Nat.le_of_eq (h.accepted id hid)
  · rw [h.fresh id hid]
    exact Nat.zero_le 1

theorem not_started (h : s.Accounted) {id : Nat} (hremoved : PoolEvent.removed id ∈ s.log) :
    PoolEvent.started id ∉ s.log := by
  have hkept := h.kept id
  have hbegun := h.begun id
  have haccepted := h.accepted_le id
  have hpos := List.count_pos_iff.mpr hremoved
  apply List.count_eq_zero.mp
  omega

/-- Once a worker has left its loop nothing is queued, and nothing will be. -/
theorem executed (h : s.Accounted) (hworkers : s.workers ≠ []) (hjoined : s.Joined) {id : Nat}
    (haccepted : PoolEvent.accepted id ∈ s.log) (hkeep : PoolEvent.removed id ∉ s.log) :
    s.log.count (.started id) = 1 ∧ s.log.count (.ended id) = 1 := by
  obtain ⟨w, hw⟩ := List.exists_mem_of_ne_nil _ hworkers
  have hexited : WorkerState.exited ∈ s.workers := by
    rw [← hjoined w hw]
    exact hw
  have hkept := h.kept id
  have hbegun := h.begun id
  have hle := h.accepted_le id
  have hpos := List.count_pos_iff.mpr haccepted
  have hremoved := List.count_eq_zero.mpr hkeep
  have hqueue : s.tasks.countP (fun t => t.id == id) = 0 := by
    rw [(h.drained hexited).2]
    rfl
  have hfetched : s.workers.countP (WorkerState.fetchedId id) = 0 := hjoined.countP rfl
  have hrunning : s.workers.countP (WorkerState.runningId id) = 0 := hjoined.countP rfl
  omega

end Accounted

/-- Two tasks, the second more urgent; the pool is shut down while both are queued. -/
def drainedRun : List PoolAction :=
  [.enqueue 3, .enqueue 1, .shutdown, .enqueue 0, .fetch 0 ⟨1, 1, none⟩, .start 0,
    .finish 0 .otherException, .fetch 0 ⟨0, 3, none⟩, .start 0, .finish 0 .returned, .exit 0]

end ThreadPool

end CrossNative
