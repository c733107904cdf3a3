import CrossNative.Basis.Logging
import CrossNative.Bridge.Requests

/-!
# Plugin hooks around calls

`createNativeModule` wraps `call` so that the hooks of every plugin run around it. The handle
it returns keeps the named functions of the module it wraps.
-/

namespace CrossNative.Bridge

set_option autoImplicit false

open Basis

/-- What a promise rejects with. All but `value` are instances of `Error`. -/
inductive Thrown
  | error (e : JsError)
  /-- A `NativeError` that names the call. -/
  | failedCall (message moduleId methodId : String)
  | backend (message : String)
  | value (v : JsArg)

structure CallContext where
  callId : String
  moduleId : String
  methodId : String
  args : List JsArg
  startTime : BitVec 64
  threadId : Option String
  options : JsArg

/-- The hooks around a call; each may be missing. -/
structure Plugin (S : Type) where
  beforeCall : Option (CallContext → Proc S Thrown (Option CallContext))
  afterCall : Option (CallContext → JsArg → Proc S Thrown Unit)
  onError : Option (CallContext → Thrown → Proc S Thrown Unit)

/-- The response of a backend, whatever its result; its metrics are not looked at. -/
structure CallResult where
  result : JsArg
  outputs : List (List (BitVec 64))

def unwrapResponse (response : CallResult) : JsArg :=
  let numbers (values : List (BitVec 64)) : JsArg := .array (values.map .number)
  match response.outputs, response.result with
  | [], result => result
  | [output], .null => numbers output
  | outputs, result => .object [("result", result), ("outputs", .array (outputs.map numbers))]

/-- What the language and the platform provide. -/
structure Engine (S : Type) where
  /-- The functions `Number` and `String`. -/
  number : JsArg → Except JsError (BitVec 64)
  text : JsArg → Except JsError String
  generateCallId : S → String
  now : S → BitVec 64

/-- A module the bridge has loaded, with the backend that runs it. -/
structure LoadedModule (S : Type) where
  handle : ModuleHandle
  disposed : S → Bool
  backend : String → String → List JsArg → Proc S Thrown CallResult

/-- The handle a caller gets: `fns[key]` is a function if there is one under that key. -/
structure NativeModule (S : Type) where
  call : String → List JsArg → Proc S Thrown JsArg
  fns : String → Option (List JsArg → Proc S Thrown JsArg)

section Pipeline

variable {S : Type}

/-! ## The bridge -/

def nameFailedCall (moduleId methodId : String) : Thrown → Thrown
  | .backend message => .failedCall message moduleId methodId
  | error => error

def LoadedModule.call (engine : Engine S) (m : LoadedModule S) (method : String)
    (args : List JsArg) : Proc S Thrown JsArg := do
  let s ← Proc.get
  let request ← Proc.lift ((m.handle.call engine.number (m.disposed s) method args).mapError .error)
  let response ← Proc.mapFault (nameFailedCall m.handle.id method)
    (m.backend m.handle.id request.1 request.2)
  pure (unwrapResponse response)

/-- The function `buildCallables` makes, which invokes the bridge's own `call`. -/
def LoadedModule.named (engine : Engine S) (m : LoadedModule S) (fn : NativeFunction)
    (args : List JsArg) : Proc S Thrown JsArg := do
  let request ← Proc.lift ((fn.apply args).mapError .error)
  m.call engine request.1 request.2

def LoadedModule.module (engine : Engine S) (m : LoadedModule S) : NativeModule S where
  call := m.call engine
  fns key := (m.handle.callables.get key).map (m.named engine)

/-! ## The hooks -/

/-- `context = (await plugin.beforeCall(context)) ?? context`, if there is the hook. -/
def Plugin.before (plugin : Plugin S) (context : CallContext) : Proc S Thrown CallContext :=
  match plugin.beforeCall with
  | none => pure context
  | some hook => do
    let returned ← hook context
    pure (returned.getD context)

def runBefore : List (Plugin S) → CallContext → Proc S Thrown CallContext
  | [], context => pure context
  | plugin :: plugins, context => do
    let context ← plugin.before context
    runBefore plugins context

/-- `for (const plugin of plugins) await hook?.()`. -/
def forEachHook (hook : Plugin S → Option (Proc S Thrown Unit)) : List (Plugin S) → Proc S Thrown Unit
  | [] => pure ()
  | plugin :: plugins => do
    (hook plugin).getD (pure ())
    forEachHook hook plugins

def runAfter (plugins : List (Plugin S)) (context : CallContext) (result : JsArg) :
    Proc S Thrown Unit :=
  forEachHook (fun plugin => plugin.afterCall.map fun hook => hook context result) plugins

def runErrors (plugins : List (Plugin S)) (context : CallContext) (error : Thrown) :
    Proc S Thrown Unit :=
  forEachHook (fun plugin => plugin.onError.map fun hook => hook context error) plugins

/-- Errors are passed on, anything else is wrapped in one. -/
def asError (engine : Engine S) : Thrown → Except Thrown Thrown
  | .value v => ((engine.text v).map fun text => .error (.native text)).mapError .error
  | error => .ok error

def newContext (engine : Engine S) (s : S) (moduleId method : String) (args : List JsArg) :
    CallContext where
  callId := engine.generateCallId s
  moduleId := moduleId
  methodId := method
  args := args
  startTime := engine.now s
  threadId := none
  options := .undefined

/-- The `catch` block: tell every plugin, then rethrow. -/
def reportError (engine : Engine S) (plugins : List (Plugin S)) (context : CallContext)
    (error : Thrown) : Proc S Thrown JsArg := do
  let nativeError ← Proc.lift (asError engine error)
  runErrors plugins context nativeError
  Proc.fail nativeError

/-- A call without options through the hooks. -/
def pipeline (engine : Engine S) (plugins : List (Plugin S)) (moduleId : String)
    (invoke : String → List JsArg → Proc S Thrown JsArg) (method : String) (args : List JsArg) :
    Proc S Thrown JsArg := do
  let s ← Proc.get
  let context ← runBefore plugins (newContext engine s moduleId method args)
  Proc.rescue
    (do
      let result ← invoke method context.args
      runAfter plugins context result
      pure result)
    (reportError engine plugins context)

/-- `{ ...module, call }`: the named functions stay those of the module. -/
def withPlugins (engine : Engine S) (module : NativeModule S) (moduleId : String)
    (plugins : List (Plugin S)) : NativeModule S where
  call := if plugins.isEmpty then module.call else pipeline engine plugins moduleId module.call
  fns := module.fns

def createNativeModule (engine : Engine S) (m : LoadedModule S) (plugins : List (Plugin S)) :
    NativeModule S :=
  withPlugins engine (m.module engine) m.handle.id plugins

end Pipeline

/-! ## Watching the hooks -/

/-- An invocation of a hook of the plugin at some place of the list. -/
inductive HookEvent
  | beforeCall (plugin : Nat) (context : CallContext)
  | afterCall (plugin : Nat) (context : CallContext) (result : JsArg)
  | onError (plugin : Nat) (context : CallContext) (error : Thrown)

section Watched

variable {S : Type}

/-- The plugin, with every invocation of its hooks noted. -/
def Plugin.watched (place : Nat) (plugin : Plugin S) : Plugin (Logged S HookEvent) where
  beforeCall := plugin.beforeCall.map fun hook context => do
    Proc.note (.beforeCall place context)
    Proc.quiet (hook context)
  afterCall := plugin.afterCall.map fun hook context result => do
    Proc.note (.afterCall place context result)
    Proc.quiet (hook context result)
  onError := plugin.onError.map fun hook context error => do
    Proc.note (.onError place context error)
    Proc.quiet (hook context error)

def watchAll (plugins : List (Plugin S)) : List (Plugin (Logged S HookEvent)) :=
  plugins.mapIdx Plugin.watched

def LoadedModule.watched (m : LoadedModule S) : LoadedModule (Logged S HookEvent) where
  handle := m.handle
  disposed w := m.disposed w.state
  backend id method args := Proc.quiet (m.backend id method args)

def Engine.watched (engine : Engine S) : Engine (Logged S HookEvent) where
  number := engine.number
  text := engine.text
  generateCallId w := engine.generateCallId w.state
  now w := engine.now w.state

/-- `fns[key](...args)` and `call(method, args)` settle alike, with the same hook invocations. -/
def SamePipeline (engine : Engine S) (m : LoadedModule S) (plugins : List (Plugin S))
    (key method : String) (args : List JsArg) (s : S) : Prop :=
  let module := createNativeModule engine.watched m.watched (watchAll plugins)
  ∃ fn, module.fns key = some fn ∧
    Proc.observe (fn args ⟨s, []⟩) = Proc.observe (module.call method args ⟨s, []⟩)

end Watched

/-! ## What the hooks leave in the log -/

section Hooks

variable {S : Type} {plugins : List (Plugin (Logged S HookEvent))}

def AllWatched (plugins : List (Plugin (Logged S HookEvent))) : Prop :=
  ∀ plugin ∈ plugins, ∃ place original, plugin = Plugin.watched place original

theorem allWatched_watchAll (plugins : List (Plugin S)) : AllWatched (watchAll plugins) := by
  intro plugin hmem
  obtain ⟨i, hi, rfl⟩ := List.mem_mapIdx.mp hmem
  exact ⟨i, plugins[i], rfl⟩

theorem runBefore_unhooked {S : Type} {plugins : List (Plugin S)}
    (h : ∀ plugin ∈ plugins, plugin.beforeCall = none) (context : CallContext) :
    runBefore plugins context = pure context := by
  induction plugins with
  | nil => rfl
  | cons plugin plugins ih =>
    obtain ⟨hplugin, hrest⟩ := List.forall_mem_cons.mp h
    rw [runBefore, Plugin.before, hplugin]
    exact ih hrest

theorem forEachHook_unhooked {S : Type} {hook : Plugin S → Option (Proc S Thrown Unit)}
    {plugins : List (Plugin S)} (h : ∀ plugin ∈ plugins, hook plugin = none) :
    forEachHook hook plugins = pure () := by
  induction plugins with
  | nil => rfl
  | cons plugin plugins ih =>
    obtain ⟨hplugin, hrest⟩ := List.forall_mem_cons.mp h
    rw [forEachHook, hplugin]
    exact ih hrest

theorem before_grows {plugin : Plugin (Logged S HookEvent)}
    (hwatched : ∃ place original, plugin = Plugin.watched place original) (context : CallContext) :
    Proc.Ends Proc.Grows Proc.Grows (plugin.before context) := by
  obtain ⟨place, original, rfl⟩ := hwatched
  unfold Plugin.before
  split
  · exact Proc.Ends.pure context
  · rename_i hook hhook
    obtain ⟨inner, _, rfl⟩ := Option.map_eq_some_iff.mp hhook
    exact (Proc.noted_quiet _ _).2.bind fun returned => Proc.Ends.pure _

theorem before_noted {plugin : Plugin (Logged S HookEvent)}
    (hwatched : ∃ place original, plugin = Plugin.watched place original)
    (hhooked : plugin.beforeCall ≠ none) (context : CallContext) : Proc.Noted (plugin.before context) := by
  obtain ⟨place, original, rfl⟩ := hwatched
  unfold Plugin.before
  split
  · rename_i hnone
    exact absurd hnone hhooked
  · rename_i hook hhook
    obtain ⟨inner, _, rfl⟩ := Option.map_eq_some_iff.mp hhook
    exact (Proc.noted_quiet _ _).1.bind fun returned => Proc.Ends.pure _

theorem runBefore_grows (h : AllWatched plugins) (context : CallContext) :
    Proc.Ends Proc.Grows Proc.Grows (runBefore plugins context) := by
  induction plugins generalizing context with
  | nil => exact Proc.Ends.pure context
  | cons plugin plugins ih =>
    obtain ⟨hplugin, hrest⟩ := List.forall_mem_cons.mp h
    rw [runBefore]
    exact (before_grows hplugin context).bind fun context => ih hrest context

theorem runBefore_noted (h : AllWatched plugins) (hhooked : ∃ plugin ∈ plugins, plugin.beforeCall ≠ none)
    (context : CallContext) : Proc.Noted (runBefore plugins context) := by
  induction plugins with
  | nil => cases hhooked.choose_spec.1
  | cons plugin plugins ih =>
    obtain ⟨hplugin, hrest⟩ := List.forall_mem_cons.mp h
    by_cases hhead : plugin.beforeCall = none
    · rw [runBefore, Plugin.before, hhead]
      refine ih hrest ?_
      rcases (List.exists_mem_cons_iff ..).mp hhooked with hsome | htail
      · exact absurd hhead hsome
      · exact htail
    · rw [runBefore]
      exact (before_noted hplugin hhead context).bind fun context => runBefore_grows hrest context

section ForEach

-- A hook that is noted before it runs: `afterCall` or `onError` of a watched plugin.
variable {L : Type} {plugins : List (Plugin (Logged S L))}
  {hook : Plugin (Logged S L) → Option (Proc (Logged S L) Thrown Unit)}
  (hnoted : ∀ plugin ∈ plugins, ∀ invoked, hook plugin = some invoked →
    Proc.Noted invoked ∧ Proc.Ends Proc.Grows Proc.Grows invoked)

include hnoted

theorem forEachHook_grows : Proc.Ends Proc.Grows Proc.Grows (forEachHook hook plugins) := by
  induction plugins with
  | nil => exact Proc.Ends.pure ()
  | cons plugin plugins ih =>
    obtain ⟨hplugin, hrest⟩ := List.forall_mem_cons.mp hnoted
    rw [forEachHook]
    refine Proc.Ends.bind ?_ fun _ => ih hrest
    cases hinvoked : hook plugin with
    | none => exact Proc.Ends.pure ()
    | some invoked => exact (hplugin invoked hinvoked).2

theorem forEachHook_noted (hhooked : ∃ plugin ∈ plugins, hook plugin ≠ none) :
    Proc.Noted (forEachHook hook plugins) := by
  induction plugins with
  | nil => cases hhooked.choose_spec.1
  | cons plugin plugins ih =>
    obtain ⟨hplugin, hrest⟩ := List.forall_mem_cons.mp hnoted
    rw [forEachHook]
    cases hinvoked : hook plugin with
    | none =>
      refine ih hrest ?_
      rcases (List.exists_mem_cons_iff ..).mp hhooked with hsome | htail
      · exact absurd hinvoked hsome
      · exact htail
    | some invoked => exact (hplugin invoked hinvoked).1.bind fun _ => forEachHook_grows hrest

end ForEach

theorem afterCall_noted (h : AllWatched plugins) (context : CallContext) (result : JsArg) :
    ∀ plugin ∈ plugins, ∀ invoked, (plugin.afterCall.map fun hook => hook context result) = some invoked →
      Proc.Noted invoked ∧ Proc.Ends Proc.Grows Proc.Grows invoked := by
  intro plugin hmem invoked hinvoked
  obtain ⟨place, original, rfl⟩ := h plugin hmem
  simp only [Plugin.watched, Option.map_map, Option.map_eq_some_iff] at hinvoked
  obtain ⟨inner, _, rfl⟩ := hinvoked
  exact Proc.noted_quiet _ _

theorem onError_noted (h : AllWatched plugins) (context : CallContext) (error : Thrown) :
    ∀ plugin ∈ plugins, ∀ invoked, (plugin.onError.map fun hook => hook context error) = some invoked →
      Proc.Noted invoked ∧ Proc.Ends Proc.Grows Proc.Grows invoked := by
  intro plugin hmem invoked hinvoked
  obtain ⟨place, original, rfl⟩ := h plugin hmem
  simp only [Plugin.watched, Option.map_map, Option.map_eq_some_iff] at hinvoked
  obtain ⟨inner, _, rfl⟩ := hinvoked
  exact Proc.noted_quiet _ _

theorem reportError_grows (h : AllWatched plugins) (engine : Engine (Logged S HookEvent))
    (context : CallContext) (error : Thrown) :
    Proc.Ends Proc.Grows Proc.Grows (reportError engine plugins context error) := by
  refine (Proc.Ends.lift _).bind fun nativeError => ?_
  exact (forEachHook_grows (onError_noted h context nativeError)).bind fun _ => Proc.Ends.fail _

end Hooks

/-! ## The bridge's own call -/

section Bare

variable {S : Type} {engine : Engine S} {m : LoadedModule S} {method : String} {args : List JsArg} {s : S}

theorem call_refused {e : JsError}
    (h : m.handle.call engine.number (m.disposed s) method args = .error e) :
    m.call engine method args s = (.error (.error e), s) := by
  have hget : (Proc.get : Proc S Thrown S) s = (.ok s, s) := rfl
  rw [LoadedModule.call, Proc.bind_of_ok hget, h]
  rfl

theorem call_sent {request : String × List JsArg}
    (h : m.handle.call engine.number (m.disposed s) method args = .ok request) :
    m.call engine method args s = (Proc.mapFault (nameFailedCall m.handle.id method)
      (m.backend m.handle.id request.1 request.2) >>= fun response => pure (unwrapResponse response)) s := by
  have hget : (Proc.get : Proc S Thrown S) s = (.ok s, s) := rfl
  rw [LoadedModule.call, Proc.bind_of_ok hget, h]
  rfl

theorem call_watched (engine : Engine S) (m : LoadedModule S) (method : String) (args : List JsArg) :
    m.watched.call engine.watched method args = Proc.quiet (m.call engine method args) := by
  funext w
  cases h : m.handle.call engine.number (m.disposed w.state) method args with
  | error e =>
    have hwatched : m.watched.handle.call engine.watched.number (m.watched.disposed w) method args =
      .error e := h
    rw [call_refused hwatched, Proc.quiet_run (call_refused h) w.log]
  | ok request =>
    have hwatched : m.watched.handle.call engine.watched.number (m.watched.disposed w) method args =
      .ok request := h
    rw [call_sent hwatched, Proc.quiet_congr (call_sent h), Proc.quiet_bind, Proc.quiet_mapFault]
    rfl

theorem named_of_apply {fn : NativeFunction} {marshalled : List JsArg}
    (happly : fn.apply args = .ok (method, marshalled)) :
    m.named engine fn args = m.call engine method marshalled := by
  funext s
  rw [LoadedModule.named, happly]
  rfl

end Bare

/-! ## What a call through the hooks ends with -/

section Endings

variable {S : Type} {engine : Engine S} {plugins : List (Plugin S)} {moduleId : String}
  {invoke : String → List JsArg → Proc S Thrown JsArg} {method : String} {args : List JsArg}

theorem pipeline_unhooked (h : ∀ plugin ∈ plugins, plugin.beforeCall = none) (s : S) :
    pipeline engine plugins moduleId invoke method args s =
      Proc.rescue
        (do
          let result ← invoke method args
          runAfter plugins (newContext engine s moduleId method args) result
          pure result)
        (reportError engine plugins (newContext engine s moduleId method args)) s := by
  have hget : (Proc.get : Proc S Thrown S) s = (.ok s, s) := rfl
  rw [pipeline, Proc.bind_of_ok hget, runBefore_unhooked h]
  rfl

theorem reportError_quiet {context : CallContext} {error nativeError : Thrown}
    (herror : asError engine error = .ok nativeError)
    (h : ∀ plugin ∈ plugins, plugin.onError = none) (s : S) :
    reportError engine plugins context error s = (.error nativeError, s) := by
  have hnone : ∀ plugin ∈ plugins, (plugin.onError.map fun hook => hook context nativeError) = none := by
    intro plugin hmem
    rw [h plugin hmem, Option.map_none]
  rw [reportError, herror]
  change (runErrors plugins context nativeError >>= fun _ => Proc.fail nativeError) s = _
  rw [runErrors, forEachHook_unhooked hnone]
  rfl

theorem pipeline_value {s s' : S} {result : JsArg}
    (hbefore : ∀ plugin ∈ plugins, plugin.beforeCall = none)
    (hafter : ∀ plugin ∈ plugins, plugin.afterCall = none) (h : invoke method args s = (.ok result, s')) :
    pipeline engine plugins moduleId invoke method args s = (.ok result, s') := by
  have hnone (context : CallContext) :
      ∀ plugin ∈ plugins, (plugin.afterCall.map fun hook => hook context result) = none := by
    intro plugin hmem
    rw [hafter plugin hmem, Option.map_none]
  rw [pipeline_unhooked hbefore]
  apply Proc.rescue_of_ok
  rw [Proc.bind_of_ok h, runAfter, forEachHook_unhooked (hnone _)]
  rfl

theorem pipeline_fault {s s' : S} {error : Thrown}
    (hbefore : ∀ plugin ∈ plugins, plugin.beforeCall = none) (h : invoke method args s = (.error error, s')) :
    pipeline engine plugins moduleId invoke method args s =
      reportError engine plugins (newContext engine s moduleId method args) error s' := by
  rw [pipeline_unhooked hbefore]
  exact Proc.rescue_of_error (Proc.bind_of_error h)

end Endings

section Noted

variable {S : Type} {engine : Engine (Logged S HookEvent)} {plugins : List (Plugin (Logged S HookEvent))}
  {moduleId : String} {invoke : String → List JsArg → Proc (Logged S HookEvent) Thrown JsArg}
  {method : String} {args : List JsArg}

theorem pipeline_noted_before (hwatched : AllWatched plugins)
    (hinvoke : ∀ method args, Proc.Ends Proc.Grows Proc.Grows (invoke method args))
    (hhooked : ∃ plugin ∈ plugins, plugin.beforeCall ≠ none) (w : Logged S HookEvent) :
    (pipeline engine plugins moduleId invoke method args w).2.log ≠ [] := by
  have hget : (Proc.get : Proc (Logged S HookEvent) Thrown _) w = (.ok w, w) := rfl
  rw [pipeline, Proc.bind_of_ok hget]
  refine (runBefore_noted hwatched hhooked _).bind (fun context => ?_) w
  refine Proc.Ends.rescue ?_ (reportError_grows hwatched engine context)
  refine (hinvoke method context.args).bind fun result => ?_
  exact (forEachHook_grows (afterCall_noted hwatched context result)).bind fun _ => Proc.Ends.pure result

theorem pipeline_noted_after (hwatched : AllWatched plugins)
    (hbefore : ∀ plugin ∈ plugins, plugin.beforeCall = none)
    (hhooked : ∃ plugin ∈ plugins, plugin.afterCall ≠ none) {w w' : Logged S HookEvent} {result : JsArg}
    (h : invoke method args w = (.ok result, w')) :
    (pipeline engine plugins moduleId invoke method args w).2.log ≠ [] := by
  rw [pipeline_unhooked hbefore]
  apply Proc.rescue_log (reportError_grows hwatched engine _)
  rw [Proc.bind_of_ok h]
  refine Proc.Noted.bind ?_ (fun _ => Proc.Ends.pure result) w'
  refine forEachHook_noted (afterCall_noted hwatched _ result) ?_
  obtain ⟨plugin, hmem, hsome⟩ := hhooked
  exact ⟨plugin, hmem, fun hnone => hsome (Option.map_eq_none_iff.mp hnone)⟩

theorem reportError_noted (hwatched : AllWatched plugins)
    (hhooked : ∃ plugin ∈ plugins, plugin.onError ≠ none) {context : CallContext}
    {error nativeError : Thrown} (herror : asError engine error = .ok nativeError)
    (w : Logged S HookEvent) : (reportError engine plugins context error w).2.log ≠ [] := by
  rw [reportError, herror]
  refine Proc.Noted.bind ?_ (fun _ => Proc.Ends.fail nativeError) w
  refine forEachHook_noted (onError_noted hwatched context nativeError) ?_
  obtain ⟨plugin, hmem, hsome⟩ := hhooked
  exact ⟨plugin, hmem, fun hnone => hsome (Option.map_eq_none_iff.mp hnone)⟩

end Noted

/-! ## When a named function goes through the hooks -/

section Same

variable {S : Type} {engine : Engine S} {m : LoadedModule S} {plugins : List (Plugin S)}
  {method : String} {args : List JsArg} {s : S}

theorem forall_watchAll {P : Plugin (Logged S HookEvent) → Prop} {Q : Plugin S → Prop}
    (h : ∀ place plugin, P (Plugin.watched place plugin) ↔ Q plugin) :
    (∀ plugin ∈ watchAll plugins, P plugin) ↔ ∀ plugin ∈ plugins, Q plugin := by
  constructor
  · intro hall plugin hmem
    obtain ⟨i, hi, rfl⟩ := List.mem_iff_getElem.mp hmem
    exact (h i _).mp (hall _ (List.mem_mapIdx.mpr ⟨i, hi, rfl⟩))
  · intro hall plugin hmem
    obtain ⟨i, hi, rfl⟩ := List.mem_mapIdx.mp hmem
    exact (h i _).mpr (hall _ (List.getElem_mem hi))

theorem beforeCall_watchAll : (∀ plugin ∈ watchAll plugins, plugin.beforeCall = none) ↔
    ∀ plugin ∈ plugins, plugin.beforeCall = none :=
  forall_watchAll fun _ _ => Option.map_eq_none_iff

theorem onError_watchAll : (∀ plugin ∈ watchAll plugins, plugin.onError = none) ↔
    ∀ plugin ∈ plugins, plugin.onError = none :=
  forall_watchAll fun _ _ => Option.map_eq_none_iff

/-- How a call through the handle settles, and what it leaves in the log. -/
def seen (engine : Engine S) (m : LoadedModule S) (plugins : List (Plugin S)) (method : String)
    (args : List JsArg) (s : S) : Except Thrown JsArg × List HookEvent :=
  Proc.observe ((createNativeModule engine.watched m.watched (watchAll plugins)).call method args ⟨s, []⟩)

theorem seen_fast : seen engine m [] method args s = ((m.call engine method args s).1, []) := by
  have hcall : (createNativeModule engine.watched m.watched (watchAll [])).call =
    m.watched.call engine.watched := rfl
  rw [seen, hcall, call_watched]
  rfl

theorem seen_wrapped (h : plugins ≠ []) : seen engine m plugins method args s =
    Proc.observe (pipeline engine.watched (watchAll plugins) m.handle.id
      (m.watched.call engine.watched) method args ⟨s, []⟩) := by
  obtain ⟨plugin, rest, rfl⟩ := List.exists_cons_of_ne_nil h
  have hcons : (watchAll (plugin :: rest)).isEmpty = false := by
    rw [watchAll, List.mapIdx_cons, List.isEmpty_cons]
  simp only [seen, createNativeModule, withPlugins, hcons, Bool.false_eq_true, if_false]
  rfl

theorem call_watched_run {r : Except Thrown JsArg} (h : (m.call engine method args s).1 = r) :
    m.watched.call engine.watched method args ⟨s, []⟩ = (r, ⟨(m.call engine method args s).2, []⟩) := by
  rw [call_watched]
  exact Proc.quiet_run (Proc.run_eq_of_outcome h) []

theorem asError_watched (engine : Engine S) (error : Thrown) :
    asError engine.watched error = asError engine error := by
  cases error <;> rfl

theorem seen_silent (h : (seen engine m plugins method args s).2 = []) :
    ∀ plugin ∈ plugins, plugin.beforeCall = none := by
  by_contra hhooked
  have hne : plugins ≠ [] := by
    rintro rfl
    exact hhooked fun plugin hmem => nomatch hmem
  rw [seen_wrapped hne] at h
  rw [← beforeCall_watchAll] at hhooked
  push Not at hhooked
  refine pipeline_noted_before (allWatched_watchAll plugins) (fun method args => ?_) hhooked _ h
  rw [call_watched]
  exact Proc.grows_quiet _

theorem seen_value {result : JsArg} (hcall : (m.call engine method args s).1 = .ok result)
    (h : (seen engine m plugins method args s).2 = []) :
    (seen engine m plugins method args s).1 = .ok result := by
  by_cases hne : plugins = []
  · subst hne
    rw [seen_fast]
    exact hcall
  · have hbefore := beforeCall_watchAll.mpr (seen_silent h)
    have hrun := call_watched_run hcall
    rw [seen_wrapped hne] at h ⊢
    by_cases hafter : ∀ plugin ∈ watchAll plugins, plugin.afterCall = none
    · rw [pipeline_value hbefore hafter hrun]
      rfl
    · push Not at hafter
      exact absurd h (pipeline_noted_after (allWatched_watchAll plugins) hbefore hafter hrun)

/-- Past the hooks a call rejects with the error itself, and no plugin may be told of it. -/
theorem seen_fault {error : Thrown} (hcall : (m.call engine method args s).1 = .error error)
    (hne : plugins ≠ []) (h : (seen engine m plugins method args s).2 = []) :
    (∃ e, asError engine error = .error e ∧ (seen engine m plugins method args s).1 = .error e) ∨
      ∃ e, asError engine error = .ok e ∧ (seen engine m plugins method args s).1 = .error e ∧
        ∀ plugin ∈ plugins, plugin.onError = none := by
  have hbefore := beforeCall_watchAll.mpr (seen_silent h)
  have hrun := call_watched_run hcall
  rw [seen_wrapped hne, pipeline_fault hbefore hrun] at h ⊢
  have hsame := asError_watched engine error
  cases herror : asError engine error with
  | error e =>
    left
    refine ⟨e, rfl, ?_⟩
    rw [reportError, hsame, herror]
    rfl
  | ok e =>
    right
    rw [herror] at hsame
    by_cases honError : ∀ plugin ∈ watchAll plugins, plugin.onError = none
    · refine ⟨e, rfl, ?_, onError_watchAll.mp honError⟩
      rw [reportError_quiet hsame honError]
      rfl
    · push Not at honError
      exact absurd h (reportError_noted (allWatched_watchAll plugins) honError hsame _)

/-- With neither hook in the way, an `Error` comes out as it went in. -/
theorem seen_unheard {error : Thrown} (hcall : (m.call engine method args s).1 = .error error)
    (herror : asError engine error = .ok error)
    (h : ∀ plugin ∈ plugins, plugin.beforeCall = none ∧ plugin.onError = none) :
    seen engine m plugins method args s = (.error error, []) := by
  by_cases hne : plugins = []
  · subst hne
    rw [seen_fast, hcall]
  · have hbefore := beforeCall_watchAll.mpr fun plugin hmem => (h plugin hmem).1
    have honError := onError_watchAll.mpr fun plugin hmem => (h plugin hmem).2
    have hrun := call_watched_run hcall
    rw [← asError_watched] at herror
    rw [seen_wrapped hne, pipeline_fault hbefore hrun, reportError_quiet herror honError]
    rfl

/-- The call is refused before the backend is asked. -/
def ModuleHandle.Refuses (handle : ModuleHandle) (disposed : Bool) (method : String) : Prop :=
  disposed = true ∨ method ∉ handle.functions

def ModuleHandle.refusal (handle : ModuleHandle) (disposed : Bool) (method : String) : JsError :=
  if disposed then .native ("Module '" ++ handle.id ++ "' has been disposed")
  else .native ("Module '" ++ handle.id ++ "' has no exported function '" ++ method ++
    "'. Available: " ++ ", ".intercalate handle.functions)

theorem call_refuses {handle : ModuleHandle} {number : JsArg → Except JsError (BitVec 64)}
    {disposed : Bool} (hdeclared : handle.declares method) (h : handle.Refuses disposed method)
    (args : List JsArg) :
    handle.call number disposed method args = .error (handle.refusal disposed method) := by
  rw [call_declared hdeclared, ModuleHandle.refusal]
  by_cases hdisposed : disposed = true
  · rw [if_pos hdisposed, if_pos hdisposed]
  · rw [if_neg hdisposed, if_pos (h.resolve_left hdisposed), if_neg hdisposed]

theorem refusal_injective {handle : ModuleHandle} {f g : String}
    (h : handle.refusal false f = handle.refusal false g) : f = g := by
  simp only [ModuleHandle.refusal, Bool.false_eq_true, if_false, JsError.native.injEq] at h
  exact append_cancel_middle h

theorem call_passes {handle : ModuleHandle} {number : JsArg → Except JsError (BitVec 64)}
    {disposed : Bool} (hdeclared : handle.declares method) (h : ¬ handle.Refuses disposed method)
    (args : List JsArg) : handle.call number disposed method args = .ok (method, args) := by
  obtain ⟨hdisposed, hexported⟩ := not_or.mp h
  rw [call_declared hdeclared, if_neg hdisposed, if_neg hexported]

/-- A backend that answers with what it is asked. -/
def echo (_ method : String) (args : List JsArg) : Proc S Thrown CallResult :=
  pure ⟨.array (.string method :: args), []⟩

def rejecting (_ _ : String) (_ : List JsArg) : Proc S Thrown CallResult := Proc.fail (.value .undefined)

/-- No hook is in the way, and the function sends what `call` sends. -/
def OnePipeline (handle : ModuleHandle) (disposed : Bool) (plugins : List (Plugin S))
    (fn : NativeFunction) (method : String) (args : List JsArg) : Prop :=
  (plugins = [] ∨ handle.Refuses disposed method ∧
    ∀ plugin ∈ plugins, plugin.beforeCall = none ∧ plugin.onError = none) ∧
  (disposed = true ∨ fn.signature.name = method ∧
    (method ∉ handle.functions ∨ ∀ arg ∈ args, arg.Plain))

theorem converted_eq {arg : JsArg} (h : Converted arg arg) : arg.Plain := by
  cases h with
  | plain hplain => exact hplain

theorem refused_outcome (engine : Engine S) (args : List JsArg)
    (backend : String → String → List JsArg → Proc S Thrown CallResult) {handle : ModuleHandle}
    {disposed : S → Bool} (hdeclared : handle.declares method)
    (h : handle.Refuses (disposed s) method) :
    ((⟨handle, disposed, backend⟩ : LoadedModule S).call engine method args s).1 =
      .error (.error (handle.refusal (disposed s) method)) := by
  rw [call_refused (call_refuses hdeclared h args)]

theorem echo_outcome (engine : Engine S) (args : List JsArg) {handle : ModuleHandle}
    {disposed : S → Bool} (hdeclared : handle.declares method)
    (h : ¬ handle.Refuses (disposed s) method) :
    ((⟨handle, disposed, echo⟩ : LoadedModule S).call engine method args s).1 =
      .ok (.array (.string method :: args)) := by
  rw [call_sent (call_passes hdeclared h args)]
  rfl

theorem rejecting_outcome (engine : Engine S) (args : List JsArg) {handle : ModuleHandle}
    {disposed : S → Bool} (hdeclared : handle.declares method) (h : ¬ handle.Refuses (disposed s) method) :
    ((⟨handle, disposed, rejecting⟩ : LoadedModule S).call engine method args s).1 =
      .error (.value .undefined) := by
  rw [call_sent (call_passes hdeclared h args)]
  rfl

theorem samePipeline_iff_seen {key : String} {fn : NativeFunction} {marshalled : List JsArg} {name : String}
    (hget : m.handle.callables.get key = some fn) (happly : fn.apply args = .ok (name, marshalled)) :
    SamePipeline engine m plugins key method args s ↔
      seen engine m plugins method args s = ((m.call engine name marshalled s).1, []) := by
  have hfn : (createNativeModule engine.watched m.watched (watchAll plugins)).fns key =
      some (m.watched.named engine.watched fn) := by
    change (m.handle.callables.get key).map _ = _
    rw [hget, Option.map_some]
  have hnamed : m.watched.named engine.watched fn args ⟨s, []⟩ =
      Proc.quiet (m.call engine name marshalled) (⟨s, []⟩ : Logged S HookEvent) := by
    rw [named_of_apply happly, call_watched]
  rw [SamePipeline, hfn]
  constructor
  · rintro ⟨_, hsome, hsame⟩
    cases hsome
    rw [hnamed] at hsame
    exact hsame.symm
  · intro hseen
    refine ⟨_, rfl, ?_⟩
    rw [hnamed]
    exact hseen.symm

theorem asError_ne_value {error e : Thrown}
    (h : asError engine error = .error e ∨ asError engine error = .ok e) (v : JsArg) : e ≠ .value v := by
  rintro rfl
  cases error with
  | value u =>
    cases htext : engine.text u with
    | error e => simp [asError, htext, Except.map, Except.mapError] at h
    | ok text => simp [asError, htext, Except.map, Except.mapError] at h
  | error e => simp [asError] at h
  | failedCall message moduleId methodId => simp [asError] at h
  | backend message => simp [asError] at h

section Declared

variable {handle : ModuleHandle} {disposed : S → Bool} {f g : String} {marshalled : List JsArg}
  (hf : handle.declares f) (hg : handle.declares g)

include hf hg

theorem seen_refused_only (hrefuses : handle.Refuses (disposed s) f)
    (h : seen engine ⟨handle, disposed, echo⟩ plugins f args s =
      (((⟨handle, disposed, echo⟩ : LoadedModule S).call engine g marshalled s).1, [])) :
    (plugins = [] ∨ ∀ plugin ∈ plugins, plugin.beforeCall = none ∧ plugin.onError = none) ∧
      (disposed s = true ∨ g = f) := by
  have hsilent : (seen engine ⟨handle, disposed, echo⟩ plugins f args s).2 = [] := by rw [h]
  have hcall := refused_outcome engine args echo hf hrefuses
  have hhooks : (plugins = [] ∨ ∀ plugin ∈ plugins, plugin.beforeCall = none ∧ plugin.onError = none) ∧
      (seen engine ⟨handle, disposed, echo⟩ plugins f args s).1 =
        .error (.error (handle.refusal (disposed s) f)) := by
    by_cases hne : plugins = []
    · refine ⟨Or.inl hne, ?_⟩
      subst hne
      rw [seen_fast]
      exact hcall
    · rcases seen_fault hcall hne hsilent with ⟨e, herror, _⟩ | ⟨e, herror, houtcome, honError⟩
      · cases herror
      · cases herror
        exact ⟨Or.inr fun plugin hmem => ⟨seen_silent hsilent plugin hmem, honError plugin hmem⟩, houtcome⟩
  refine ⟨hhooks.1, ?_⟩
  by_cases hdisposed : disposed s = true
  · exact Or.inl hdisposed
  · right
    have houtcome := hhooks.2.symm.trans (congrArg Prod.fst h)
    by_cases hg' : handle.Refuses (disposed s) g
    · rw [refused_outcome engine marshalled echo hg hg', Bool.eq_false_of_not_eq_true hdisposed] at houtcome
      injection houtcome with herror
      injection herror with herror
      exact (refusal_injective herror).symm
    · rw [echo_outcome engine marshalled hg hg'] at houtcome
      cases houtcome

theorem seen_passed_only (hpasses : ¬ handle.Refuses (disposed s) f)
    (h : ∀ backend, seen engine ⟨handle, disposed, backend⟩ plugins f args s =
      (((⟨handle, disposed, backend⟩ : LoadedModule S).call engine g marshalled s).1, [])) :
    plugins = [] ∧ g = f ∧ marshalled = args := by
  have hecho := h echo
  have hsilent : (seen engine ⟨handle, disposed, echo⟩ plugins f args s).2 = [] := by rw [hecho]
  have houtcome := (seen_value (echo_outcome engine args hf hpasses) hsilent).symm.trans (congrArg Prod.fst hecho)
  by_cases hg' : handle.Refuses (disposed s) g
  · rw [refused_outcome engine marshalled echo hg hg'] at houtcome
    cases houtcome
  · rw [echo_outcome engine marshalled hg hg'] at houtcome
    cases houtcome
    refine ⟨?_, rfl, rfl⟩
    -- A rejection that is no `Error` comes out wrapped in one, unless there are no plugins.
    by_contra hne
    have hrejected := h rejecting
    have hcall := rejecting_outcome engine args hf hpasses
    have hquiet : (seen engine ⟨handle, disposed, rejecting⟩ plugins f args s).2 = [] := by rw [hrejected]
    have hnamed := congrArg Prod.fst hrejected
    rw [hcall] at hnamed
    rcases seen_fault hcall hne hquiet with ⟨e, herror, hout⟩ | ⟨e, herror, hout, _⟩
    · exact asError_ne_value (Or.inl herror) _ (Except.error.inj (hout.symm.trans hnamed))
    · exact asError_ne_value (Or.inr herror) _ (Except.error.inj (hout.symm.trans hnamed))

/-- The bridge settles both calls alike if it refuses both or sends the same. -/
theorem bare_outcome (engine : Engine S)
    (backend : String → String → List JsArg → Proc S Thrown CallResult)
    (h : disposed s = true ∨ g = f ∧ (f ∉ handle.functions ∨ marshalled = args)) :
    ((⟨handle, disposed, backend⟩ : LoadedModule S).call engine g marshalled s).1 =
      ((⟨handle, disposed, backend⟩ : LoadedModule S).call engine f args s).1 := by
  rcases h with hdisposed | ⟨rfl, hexported | rfl⟩
  · rw [refused_outcome engine marshalled backend hg (Or.inl hdisposed),
      refused_outcome engine args backend hf (Or.inl hdisposed)]
    simp only [ModuleHandle.refusal, hdisposed, if_true]
  · rw [refused_outcome engine marshalled backend hg (Or.inr hexported),
      refused_outcome engine args backend hf (Or.inr hexported)]
  · rfl

end Declared

theorem forall₂_plain {args marshalled : List JsArg} (h : List.Forall₂ Converted args marshalled) :
    marshalled = args ↔ ∀ arg ∈ args, arg.Plain := by
  constructor
  · rintro rfl arg hmem
    exact converted_eq (List.forall₂_same.mp h arg hmem)
  · intro hplain
    induction h with
    | nil => rfl
    | @cons arg arg' args marshalled harg _ ih =>
      obtain ⟨hhead, htail⟩ := List.forall_mem_cons.mp hplain
      rw [ih htail]
      cases harg with
      | plain _ => rfl
      | boolean b => exact hhead.elim
      | view v => exact hhead.elim

/-- Whatever the backend does, `fns[key](...args)` is `call(f, args)` exactly when nothing of
the hooks would show and the function is that of `f` and sends what `call` sends. -/
theorem samePipeline_iff {id : String} {functions : List String} {manifest : List Json}
    {handle : ModuleHandle} (hcreate : createHandle id functions manifest = .ok handle) {f key : String}
    (hdeclared : handle.declares f) {fn : NativeFunction} (hget : handle.callables.get key = some fn)
    {marshalled : List JsArg} {name : String} (happly : fn.apply args = .ok (name, marshalled))
    (disposed : S → Bool) :
    (∀ backend, SamePipeline engine ⟨handle, disposed, backend⟩ plugins key f args s) ↔
      OnePipeline handle (disposed s) plugins fn f args := by
  have hname : name = fn.signature.name := NativeFunction.apply_method happly
  subst hname
  have hfn := callables_declared hcreate hget
  have hplain := forall₂_plain (apply_converted happly)
  have hseen (backend : String → String → List JsArg → Proc S Thrown CallResult) :
      SamePipeline engine ⟨handle, disposed, backend⟩ plugins key f args s ↔
        seen engine ⟨handle, disposed, backend⟩ plugins f args s =
          (((⟨handle, disposed, backend⟩ : LoadedModule S).call engine fn.signature.name marshalled s).1, []) :=
    samePipeline_iff_seen hget happly
  simp only [hseen]
  constructor
  · intro h
    by_cases hrefuses : handle.Refuses (disposed s) f
    · obtain ⟨hhooks, hnames⟩ := seen_refused_only hdeclared hfn hrefuses (h echo)
      refine ⟨hhooks.imp_right fun hhooks => ⟨hrefuses, hhooks⟩, ?_⟩
      rcases hrefuses with hdisposed | hexported
      · exact Or.inl hdisposed
      · exact hnames.imp_right fun hnames => ⟨hnames, Or.inl hexported⟩
    · obtain ⟨hhooks, hnames, hargs⟩ := seen_passed_only hdeclared hfn hrefuses h
      exact ⟨Or.inl hhooks, Or.inr ⟨hnames, Or.inr (hplain.mp hargs)⟩⟩
  · rintro ⟨hhooks, hsends⟩ backend
    have hbare := bare_outcome hdeclared hfn engine backend
      (hsends.imp_right fun h => ⟨h.1, h.2.imp_right hplain.mpr⟩)
    rw [hbare]
    rcases hhooks with rfl | ⟨hrefuses, hhooks⟩
    · exact seen_fast
    · have hcall := refused_outcome engine args backend hdeclared hrefuses
      rw [hcall]
      exact seen_unheard hcall rfl hhooks

end Same

def scriptEngine : Engine Unit where
  number := numberOnly
  text _ := .ok "undefined"
  generateCallId _ := "call-0"
  now _ := 0

theorem samePipeline_iff_sum :
    (∀ backend, SamePipeline scriptEngine ⟨sumHandle, fun _ => false, backend⟩ [] "sumArray" "sum_array"
      [.array [.number one]] ()) ↔
      OnePipeline (S := Unit) sumHandle false [] sumFunction "sum_array" [.array [.number one]] := by
  have hget : sumHandle.callables.get "sumArray" = some sumFunction := by decide
  exact samePipeline_iff sumHandle_created List.mem_cons_self hget (by rfl) fun _ => false

/-- A hook that passes the context on. -/
def consolePlugin : Plugin Unit where
  beforeCall := some fun context => pure (some context)
  afterCall := none
  onError := none

def summing (_ _ : String) (_ : List JsArg) : Proc Unit Thrown CallResult := pure ⟨.number one, []⟩

theorem samePipeline_fails_hooked :
    createHandle "compute" ["sum_array"] sumManifest = .ok sumHandle ∧
      sumHandle.declares "sum_array" ∧
      sumHandle.callables.get "sumArray" = some sumFunction ∧
      sumFunction.apply [.array [.number one]] = .ok ("sum_array", [.array [.number one]]) ∧
      ¬ SamePipeline scriptEngine ⟨sumHandle, fun _ => false, summing⟩ [consolePlugin] "sumArray"
        "sum_array" [.array [.number one]] () := by
  have hget : sumHandle.callables.get "sumArray" = some sumFunction := by decide
  have happly : sumFunction.apply [.array [.number one]] = .ok ("sum_array", [.array [.number one]]) := rfl
  refine ⟨sumHandle_created, List.mem_cons_self, hget, happly, fun hsame => ?_⟩
  have hseen := (samePipeline_iff_seen hget happly).mp hsame
  have hsilent := congrArg Prod.snd hseen
  cases seen_silent hsilent consolePlugin List.mem_cons_self

end CrossNative.Bridge
