import CrossNative.Bridge.Guard

/-!
# How a call ends for the plugins

After a call every plugin should hear of one ending: its result, by `afterCall`, or its failure,
by `onError`. The call is the guarded one, so it may also have timed out or been aborted.
-/

namespace CrossNative.Bridge

set_option autoImplicit false

open Basis

section Call

variable {S : Type}

/-- `call(method, args, options)` of a wrapped module; `guarded` is the call under `guardCall`. -/
def hookedCall (engine : Engine S) (plugins : List (Plugin S)) (moduleId : String) (options : JsArg)
    (guarded : String → List JsArg → Proc S Thrown JsArg) (method : String) (args : List JsArg) :
    Proc S Thrown JsArg :=
  if plugins.isEmpty then guarded method args
  else do
    let s ← Proc.get
    let context ← runBefore plugins { newContext engine s moduleId method args with options := options }
    Proc.rescue
      (do
        let result ← guarded method context.args
        runAfter plugins context result
        pure result)
      (reportError engine plugins context)

/-- Without options it is the call of a module that is not guarded. -/
theorem hookedCall_pipeline (engine : Engine S) {plugins : List (Plugin S)} (h : plugins ≠ []) (moduleId : String)
    (invoke : String → List JsArg → Proc S Thrown JsArg) (method : String) (args : List JsArg) :
    hookedCall engine plugins moduleId .undefined invoke method args =
      pipeline engine plugins moduleId invoke method args := by
  rw [hookedCall, if_neg (by simpa using h)]
  rfl

/-! ## Hooks that are run one after the other -/

/-- Every hook returns, in the state the ones before it leave. -/
def AllReturn (hook : Plugin S → Option (Proc S Thrown Unit)) : List (Plugin S) → S → Prop
  | [], _ => True
  | plugin :: plugins, s =>
    match hook plugin with
    | none => AllReturn hook plugins s
    | some invoked => (invoked s).1.isOk = true ∧ AllReturn hook plugins (invoked s).2

/-- Every hook returns, but for the last one. -/
def AllReached (hook : Plugin S → Option (Proc S Thrown Unit)) : List (Plugin S) → S → Prop
  | [], _ => True
  | plugin :: plugins, s =>
    match hook plugin with
    | none => AllReached hook plugins s
    | some invoked =>
      (∀ other ∈ plugins, hook other = none) ∨ ((invoked s).1.isOk = true ∧ AllReached hook plugins (invoked s).2)

/-- One event for every plugin with the hook, from the place `k` on. -/
def eventsOf (hook : Plugin S → Option (Proc S Thrown Unit)) (event : Nat → HookEvent) :
    Nat → List (Plugin S) → List HookEvent
  | _, [] => []
  | k, plugin :: plugins =>
    if (hook plugin).isSome then event k :: eventsOf hook event (k + 1) plugins
    else eventsOf hook event (k + 1) plugins

def afterHook (context : CallContext) (result : JsArg) (plugin : Plugin S) : Option (Proc S Thrown Unit) :=
  plugin.afterCall.map fun hook => hook context result

def errorHook (context : CallContext) (error : Thrown) (plugin : Plugin S) : Option (Proc S Thrown Unit) :=
  plugin.onError.map fun hook => hook context error

/-- What the hooks have to do for every plugin to hear of the ending. -/
def Heard (engine : Engine S) (plugins : List (Plugin S)) (context : CallContext) (s : S) : Settled → Prop
  | .ok result => AllReturn (afterHook context result) plugins s
  | .error thrown =>
    match asError engine thrown with
    | .ok error => AllReached (errorHook context error) plugins s
    | .error _ => ∀ plugin ∈ plugins, plugin.onError = none

/-- Every plugin has heard of one ending, the same for all, and it is that of the promise. -/
def OneEnding (plugins : List (Plugin S)) (context : CallContext) (log : List HookEvent) (outcome : Settled)
    (run : Settled × Logged S HookEvent) : Prop :=
  (∃ result, outcome = .ok result ∧ run.1 = .ok result ∧
      run.2.log = log ++ eventsOf (afterHook context result) (.afterCall · context result) 0 plugins) ∨
    ∃ error e, run.1 = .error e ∧
      run.2.log = log ++ eventsOf (errorHook context error) (.onError · context error) 0 plugins

/-! ## What the hooks of a list leave in the log -/

theorem allReached_of_unhooked {hook : Plugin S → Option (Proc S Thrown Unit)} {plugins : List (Plugin S)}
    (h : ∀ plugin ∈ plugins, hook plugin = none) (s : S) : AllReached hook plugins s := by
  induction plugins with
  | nil => trivial
  | cons plugin plugins ih =>
    obtain ⟨hplugin, hrest⟩ := List.forall_mem_cons.mp h
    rw [AllReached, hplugin]
    exact ih hrest

theorem AllReturn.allReached {hook : Plugin S → Option (Proc S Thrown Unit)} {plugins : List (Plugin S)} {s : S}
    (h : AllReturn hook plugins s) : AllReached hook plugins s := by
  induction plugins generalizing s with
  | nil => trivial
  | cons plugin plugins ih =>
    rw [AllReturn] at h
    rw [AllReached]
    cases hhook : hook plugin with
    | none =>
      rw [hhook] at h
      exact ih h
    | some invoked =>
      rw [hhook] at h
      exact Or.inr ⟨h.1, ih h.2⟩

theorem eventsOf_eq_nil_iff {hook : Plugin S → Option (Proc S Thrown Unit)} {event : Nat → HookEvent}
    {plugins : List (Plugin S)} {k : Nat} :
    eventsOf hook event k plugins = [] ↔ ∀ plugin ∈ plugins, hook plugin = none := by
  induction plugins generalizing k with
  | nil => simp [eventsOf]
  | cons plugin plugins ih =>
    rw [eventsOf, List.forall_mem_cons]
    cases hhook : hook plugin with
    | none => simpa using ih
    | some invoked => simp

theorem mem_eventsOf {hook : Plugin S → Option (Proc S Thrown Unit)} {event : Nat → HookEvent}
    {plugins : List (Plugin S)} {k : Nat} {entry : HookEvent} (h : entry ∈ eventsOf hook event k plugins) :
    ∃ i, entry = event i := by
  induction plugins generalizing k with
  | nil => cases h
  | cons plugin plugins ih =>
    rw [eventsOf] at h
    split at h
    · rcases List.mem_cons.mp h with rfl | hrest
      · exact ⟨k, rfl⟩
      · exact ih hrest
    · exact ih h

/-- A run of the hooks of the plugins from the place `k` on: its outcome and what it adds to the log. -/
structure HooksRan (hook : Plugin S → Option (Proc S Thrown Unit)) (event : Nat → HookEvent) (k : Nat)
    (plugins : List (Plugin S)) (s : S) (r : Except Thrown Unit) (entries : List HookEvent) : Prop where
  events : ∀ entry ∈ entries, ∃ i, entry = event i
  returned : r.isOk = true ↔ AllReturn hook plugins s
  reached : entries = eventsOf hook event k plugins ↔ AllReached hook plugins s
  failed : r.isOk = false → entries ≠ []

section ForEach

variable {hook : Plugin S → Option (Proc S Thrown Unit)} {event : Nat → HookEvent}
  {watchedHook : Plugin (Logged S HookEvent) → Option (Proc (Logged S HookEvent) Thrown Unit)}

theorem HooksRan.skip {plugin : Plugin S} {plugins : List (Plugin S)} {k : Nat} {s : S}
    {r : Except Thrown Unit} {entries : List HookEvent} (hhook : hook plugin = none)
    (h : HooksRan hook event (k + 1) plugins s r entries) :
    HooksRan hook event k (plugin :: plugins) s r entries where
  events := h.events
  returned := by
    rw [AllReturn, hhook]
    exact h.returned
  reached := by
    rw [AllReached, eventsOf, hhook]
    exact h.reached
  failed := h.failed

theorem HooksRan.cons {plugin : Plugin S} {plugins : List (Plugin S)} {k : Nat} {s s' : S}
    {invoked : Proc S Thrown Unit} {r : Except Thrown Unit} {entries : List HookEvent}
    (hhook : hook plugin = some invoked) (hinvoked : invoked s = (.ok (), s'))
    (h : HooksRan hook event (k + 1) plugins s' r entries) :
    HooksRan hook event k (plugin :: plugins) s r (event k :: entries) where
  events := List.forall_mem_cons.mpr ⟨⟨k, rfl⟩, h.events⟩
  returned := by
    rw [h.returned, AllReturn, hhook]
    simp only [hinvoked]
    exact (and_iff_right rfl).symm
  reached := by
    rw [AllReached, eventsOf, hhook]
    simp only [hinvoked, Option.isSome_some, if_true, List.cons.injEq, true_and, h.reached]
    constructor
    · exact fun hreached => Or.inr ⟨rfl, hreached⟩
    · rintro (hnone | ⟨_, hreached⟩)
      · exact allReached_of_unhooked hnone s'
      · exact hreached
  failed _ := List.cons_ne_nil _ _

theorem HooksRan.stop {plugin : Plugin S} {plugins : List (Plugin S)} {k : Nat} {s s' : S}
    {invoked : Proc S Thrown Unit} {e : Thrown} (hhook : hook plugin = some invoked)
    (hinvoked : invoked s = (.error e, s')) :
    HooksRan hook event k (plugin :: plugins) s (.error e) [event k] where
  events := List.forall_mem_cons.mpr ⟨⟨k, rfl⟩, List.forall_mem_nil _⟩
  returned := by
    rw [AllReturn, hhook]
    simp only [hinvoked, Except.isOk, Except.toBool, Bool.false_eq_true, false_and]
  reached := by
    rw [AllReached, eventsOf, hhook]
    simp only [hinvoked, Option.isSome_some, if_true, List.cons.injEq, true_and, Except.isOk, Except.toBool,
      Bool.false_eq_true, false_and, or_false]
    rw [eq_comm, eventsOf_eq_nil_iff]
  failed _ := List.cons_ne_nil _ _

/-- By induction on the plugins: each hook returns and leaves its event, or is the last to be invoked. -/
theorem forEachHook_watched
    (hwatched : ∀ place plugin, watchedHook (Plugin.watched place plugin) =
      (hook plugin).map fun invoked => Proc.note (event place) >>= fun _ => Proc.quiet invoked)
    (plugins : List (Plugin S)) (k : Nat) (s : S) (log : List HookEvent) :
    ∃ r s' entries,
      forEachHook watchedHook (plugins.mapIdx fun i => Plugin.watched (i + k)) ⟨s, log⟩ =
        (r, ⟨s', log ++ entries⟩) ∧
      HooksRan hook event k plugins s r entries := by
  induction plugins generalizing k s log with
  | nil =>
    refine ⟨.ok (), s, [], ?_, ⟨List.forall_mem_nil _, iff_of_true rfl trivial, iff_of_true rfl trivial, ?_⟩⟩
    · rw [List.append_nil]
      rfl
    · exact fun h => nomatch h
  | cons plugin plugins ih =>
    have hplaces : (fun i => Plugin.watched (S := S) (i + 1 + k)) = fun i => Plugin.watched (i + (k + 1)) := by
      funext i
      rw [Nat.add_assoc, Nat.add_comm 1 k]
    rw [List.mapIdx_cons, forEachHook, hwatched, Nat.zero_add, hplaces]
    cases hhook : hook plugin with
    | none =>
      obtain ⟨r, s', entries, hrun, hran⟩ := ih (k + 1) s log
      exact ⟨r, s', entries, hrun, hran.skip hhook⟩
    | some invoked =>
      have hnoted : (Proc.note (event k) >>= fun _ => Proc.quiet invoked) (⟨s, log⟩ : Logged S HookEvent) =
          ((invoked s).1, ⟨(invoked s).2, log ++ [event k]⟩) := rfl
      cases hinvoked : invoked s with
      | mk outcome s₁ =>
        rw [hinvoked] at hnoted
        cases outcome with
        | ok u =>
          obtain ⟨r, s', entries, hrun, hran⟩ := ih (k + 1) s₁ (log ++ [event k])
          refine ⟨r, s', event k :: entries, ?_, hran.cons hhook hinvoked⟩
          rw [Option.map_some, Option.getD_some, Proc.bind_of_ok hnoted, hrun, List.append_assoc]
          rfl
        | error e =>
          refine ⟨.error e, s₁, [event k], ?_, .stop hhook hinvoked⟩
          rw [Option.map_some, Option.getD_some, Proc.bind_of_error hnoted]

end ForEach

theorem afterHook_watched (context : CallContext) (result : JsArg) (place : Nat) (plugin : Plugin S) :
    ((Plugin.watched place plugin).afterCall.map fun hook => hook context result) =
      (afterHook context result plugin).map fun invoked =>
        Proc.note (.afterCall place context result) >>= fun _ => Proc.quiet invoked := by
  unfold Plugin.watched afterHook
  cases plugin.afterCall <;> rfl

theorem errorHook_watched (context : CallContext) (error : Thrown) (place : Nat) (plugin : Plugin S) :
    ((Plugin.watched place plugin).onError.map fun hook => hook context error) =
      (errorHook context error plugin).map fun invoked =>
        Proc.note (.onError place context error) >>= fun _ => Proc.quiet invoked := by
  unfold Plugin.watched errorHook
  cases plugin.onError <;> rfl

theorem runAfter_watched (plugins : List (Plugin S)) (context : CallContext) (result : JsArg) (s : S)
    (log : List HookEvent) :
    ∃ r s' entries,
      runAfter (watchAll plugins) context result ⟨s, log⟩ = (r, ⟨s', log ++ entries⟩) ∧
      HooksRan (afterHook context result) (.afterCall · context result) 0 plugins s r entries :=
  forEachHook_watched (afterHook_watched context result) plugins 0 s log

theorem runErrors_watched (plugins : List (Plugin S)) (context : CallContext) (error : Thrown) (s : S)
    (log : List HookEvent) :
    ∃ r s' entries,
      runErrors (watchAll plugins) context error ⟨s, log⟩ = (r, ⟨s', log ++ entries⟩) ∧
      HooksRan (errorHook context error) (.onError · context error) 0 plugins s r entries :=
  forEachHook_watched (errorHook_watched context error) plugins 0 s log

/-! ## The two ways a call ends -/

theorem reportError_heard {engine : Engine S} {thrown error : Thrown} (herror : asError engine thrown = .ok error)
    (plugins : List (Plugin S)) (context : CallContext) (s : S) (log : List HookEvent) :
    ∃ e s' r entries,
      reportError engine.watched (watchAll plugins) context thrown ⟨s, log⟩ = (.error e, ⟨s', log ++ entries⟩) ∧
      HooksRan (errorHook context error) (.onError · context error) 0 plugins s r entries := by
  obtain ⟨r, s', entries, hrun, hran⟩ := runErrors_watched plugins context error s log
  have hlift : (Proc.lift (asError engine.watched thrown) : Proc (Logged S HookEvent) Thrown Thrown) ⟨s, log⟩ =
      (.ok error, ⟨s, log⟩) := by
    rw [show asError engine.watched thrown = .ok error from herror]
    rfl
  rw [reportError, Proc.bind_of_ok hlift]
  cases r with
  | ok u =>
    rw [Proc.bind_of_ok hrun]
    exact ⟨error, s', .ok u, entries, rfl, hran⟩
  | error e =>
    rw [Proc.bind_of_error hrun]
    exact ⟨e, s', .error e, entries, rfl, hran⟩

theorem reportError_unheard {engine : Engine S} {thrown e : Thrown} (herror : asError engine thrown = .error e)
    (plugins : List (Plugin S)) (context : CallContext) (w : Logged S HookEvent) :
    reportError engine.watched (watchAll plugins) context thrown w = (.error e, w) := by
  have hlift : (Proc.lift (asError engine.watched thrown) : Proc (Logged S HookEvent) Thrown Thrown) w =
      (.error e, w) := by
    rw [show asError engine.watched thrown = .error e from herror]
    rfl
  rw [reportError, Proc.bind_of_error hlift]

theorem reportError_fails (engine : Engine S) (thrown : Thrown) (plugins : List (Plugin S)) (context : CallContext)
    (s : S) (log : List HookEvent) :
    ∃ e s' entries,
      reportError engine.watched (watchAll plugins) context thrown ⟨s, log⟩ = (.error e, ⟨s', log ++ entries⟩) := by
  cases herror : asError engine thrown with
  | ok error =>
    obtain ⟨e, s', _, entries, hrun, _⟩ := reportError_heard herror plugins context s log
    exact ⟨e, s', entries, hrun⟩
  | error e =>
    refine ⟨e, s, [], ?_⟩
    rw [reportError_unheard herror, List.append_nil]

/-- What is settled inside the `try` block, and what happens to it. -/
def attempt (plugins : List (Plugin S)) (context : CallContext) (guarded : Proc S Thrown JsArg) :
    Proc S Thrown JsArg := do
  let result ← guarded
  runAfter plugins context result
  pure result

variable {engine : Engine S} {plugins : List (Plugin S)} {context : CallContext} {log : List HookEvent}
  {guarded : Proc S Thrown JsArg} {s₁ s₂ : S}

/-- The call fulfilled: all is well unless a hook throws, and then those before it heard of a result. -/
theorem oneEnding_fulfilled {result : JsArg} (hcall : guarded s₁ = (.ok result, s₂)) :
    OneEnding plugins context log (.ok result)
        (Proc.rescue (attempt (watchAll plugins) context (Proc.quiet guarded))
          (reportError engine.watched (watchAll plugins) context) ⟨s₁, log⟩) ↔
      Heard engine plugins context s₂ (.ok result) := by
  obtain ⟨r, s', entries, hafter, hran⟩ := runAfter_watched plugins context result s₂ log
  have hquiet := Proc.quiet_run (L := HookEvent) hcall log
  cases r with
  | ok u =>
    have hall : AllReturn (afterHook context result) plugins s₂ := hran.returned.mp rfl
    have hattempt : attempt (watchAll plugins) context (Proc.quiet guarded) ⟨s₁, log⟩ =
        (.ok result, ⟨s', log ++ entries⟩) := by
      rw [attempt, Proc.bind_of_ok hquiet, Proc.bind_of_ok hafter]
      rfl
    rw [Proc.rescue_of_ok hattempt]
    refine iff_of_true (Or.inl ⟨result, rfl, rfl, ?_⟩) hall
    rw [← hran.reached.mpr hall.allReached]
  | error e =>
    have hattempt : attempt (watchAll plugins) context (Proc.quiet guarded) ⟨s₁, log⟩ =
        (.error e, ⟨s', log ++ entries⟩) := by
      rw [attempt, Proc.bind_of_ok hquiet, Proc.bind_of_error hafter]
    obtain ⟨e', s'', entries', hreport⟩ := reportError_fails engine e plugins context s' (log ++ entries)
    rw [Proc.rescue_of_error hattempt, hreport]
    refine iff_of_false ?_ fun hall => absurd (hran.returned.mpr hall) Bool.false_ne_true
    rintro (⟨_, _, hok, _⟩ | ⟨error, _, _, hlog⟩)
    · cases hok
    · -- The first thing in the log is a result, which no list of errors contains.
      simp only [List.append_assoc, List.append_cancel_left_eq] at hlog
      obtain ⟨entry, rest, rfl⟩ := List.exists_cons_of_ne_nil (hran.failed rfl)
      obtain ⟨i, rfl⟩ := hran.events entry List.mem_cons_self
      have hmem := List.mem_cons_self (a := HookEvent.afterCall i context result) (l := rest ++ entries')
      rw [List.cons_append] at hlog
      rw [hlog] at hmem
      obtain ⟨j, hj⟩ := mem_eventsOf hmem
      cases hj

/-- The call was rejected: the hooks hear of it until one of them throws. -/
theorem oneEnding_rejected {thrown : Thrown} (hcall : guarded s₁ = (.error thrown, s₂)) :
    OneEnding plugins context log (.error thrown)
        (Proc.rescue (attempt (watchAll plugins) context (Proc.quiet guarded))
          (reportError engine.watched (watchAll plugins) context) ⟨s₁, log⟩) ↔
      Heard engine plugins context s₂ (.error thrown) := by
  have hattempt : attempt (watchAll plugins) context (Proc.quiet guarded) ⟨s₁, log⟩ =
      (.error thrown, ⟨s₂, log⟩) := by
    rw [attempt, Proc.bind_of_error (Proc.quiet_run hcall log)]
  rw [Proc.rescue_of_error hattempt, Heard]
  cases herror : asError engine thrown with
  | ok error =>
    obtain ⟨e, s', r, entries, hreport, hran⟩ := reportError_heard herror plugins context s₂ log
    rw [hreport]
    simp only
    rw [← hran.reached]
    constructor
    · rintro (⟨_, hok, _⟩ | ⟨error', e', _, hlog⟩)
      · cases hok
      · have hentries := List.append_cancel_left hlog
        cases hempty : entries with
        | nil =>
          rw [hempty] at hentries
          have hnone := eventsOf_eq_nil_iff.mp hentries.symm
          refine (eventsOf_eq_nil_iff.mpr fun plugin hmem => ?_).symm
          exact Option.map_eq_none_iff.mpr (Option.map_eq_none_iff.mp (hnone plugin hmem))
        | cons entry rest =>
          -- All events carry one error, so the two lists are of the same error.
          have hmem : entry ∈ entries := hempty ▸ List.mem_cons_self
          obtain ⟨i, hi⟩ := hran.events entry hmem
          obtain ⟨j, hj⟩ := mem_eventsOf (hentries ▸ hmem)
          have hsame : error = error' := by
            rw [hi] at hj
            injection hj
          rw [← hempty, hentries, hsame]
    · exact fun hall => Or.inr ⟨error, e, rfl, congrArg (log ++ ·) hall⟩
  | error e =>
    rw [reportError_unheard herror]
    constructor
    · rintro (⟨_, hok, _⟩ | ⟨error', e', _, hlog⟩)
      · cases hok
      · intro plugin hmem
        have hnone := eventsOf_eq_nil_iff.mp (List.self_eq_append_right.mp hlog)
        exact Option.map_eq_none_iff.mp (hnone plugin hmem)
    · intro hnone
      refine Or.inr ⟨e, e, rfl, List.self_eq_append_right.mpr (eventsOf_eq_nil_iff.mpr fun plugin hmem => ?_)⟩
      exact Option.map_eq_none_iff.mpr (hnone plugin hmem)

/-- Once the hooks before the call have returned and the call has settled, every plugin hears of one
ending exactly when no hook that is told of it stands in the way of those behind it. -/
theorem oneEnding_iff {moduleId method : String} {options : JsArg} {args : List JsArg} {s : S}
    {invoke : String → List JsArg → Proc S Thrown JsArg} {outcome : Settled}
    (hbefore : runBefore (watchAll plugins)
        { newContext engine s moduleId method args with options := options } ⟨s, []⟩ = (.ok context, ⟨s₁, log⟩))
    (hcall : invoke method context.args s₁ = (outcome, s₂)) :
    OneEnding plugins context log outcome
        (hookedCall engine.watched (watchAll plugins) moduleId options
          (fun method args => Proc.quiet (invoke method args)) method args ⟨s, []⟩) ↔
      Heard engine plugins context s₂ outcome := by
  cases plugins with
  | nil =>
    -- Without plugins the promise of the guarded call is returned as it is, and nobody is told.
    cases hbefore
    refine iff_of_true ?_ ?_
    · have hfast := Proc.quiet_run (L := HookEvent) hcall []
      cases outcome with
      | ok result => exact Or.inl ⟨result, rfl, congrArg Prod.fst hfast, congrArg (fun run => run.2.log) hfast⟩
      | error thrown =>
        exact Or.inr ⟨thrown, thrown, congrArg Prod.fst hfast, congrArg (fun run => run.2.log) hfast⟩
    · rw [Heard.eq_def]
      cases outcome with
      | ok result => trivial
      | error thrown =>
        simp only
        cases asError engine thrown with
        | ok error => trivial
        | error e => exact List.forall_mem_nil _
  | cons plugin plugins =>
    have hget : (Proc.get : Proc (Logged S HookEvent) Thrown _) ⟨s, []⟩ = (.ok ⟨s, []⟩, ⟨s, []⟩) := rfl
    rw [hookedCall, if_neg (by simp [watchAll]), Proc.bind_of_ok hget]
    refine (Iff.of_eq (congrArg _ (Proc.bind_of_ok hbefore))).trans ?_
    cases outcome with
    | ok result => exact oneEnding_fulfilled hcall
    | error thrown => exact oneEnding_rejected hcall

end Call

/-- It checks the result, and takes note of errors. -/
def strictPlugin : Plugin Unit where
  beforeCall := none
  afterCall := some fun _ _ => Proc.fail (.error (.native "unexpected result"))
  onError := some fun _ _ => pure ()

def summedContext : CallContext := newContext scriptEngine () "compute" "sum" []

/-- The wait was aborted, and the plugin hears of nothing else. -/
theorem oneEnding_iff_aborted :
    OneEnding [strictPlugin] summedContext [] (CallGuard.aborted "compute" "sum")
        (hookedCall scriptEngine.watched (watchAll [strictPlugin]) "compute" .undefined
          (fun _ _ => Proc.quiet fun s => (CallGuard.aborted "compute" "sum", s)) "sum" [] ⟨(), []⟩) ↔
      Heard scriptEngine [strictPlugin] summedContext () (CallGuard.aborted "compute" "sum") :=
  oneEnding_iff rfl rfl

/-- The call succeeds, the plugin is told so and throws, and then is told of an error. -/
theorem oneEnding_fails :
    runBefore (watchAll [strictPlugin]) summedContext ⟨(), []⟩ = (.ok summedContext, ⟨(), []⟩) ∧
      ¬ OneEnding [strictPlugin] summedContext [] (.ok (.number one))
        (hookedCall scriptEngine.watched (watchAll [strictPlugin]) "compute" .undefined
          (fun _ _ => Proc.quiet (pure (.number one))) "sum" [] ⟨(), []⟩) := by
  refine ⟨rfl, ?_⟩
  rintro (⟨result, _, hok, _⟩ | ⟨error, e, _, hlog⟩)
  · cases hok
  · cases hlog

end CrossNative.Bridge
