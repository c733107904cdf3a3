import CrossNative.Bridge.Endings

/-!
# Plugins composed into one

`composePlugins` makes one plugin of several, and compositions may be nested. A composition is
compared with the list of the plugins in it, over the hooks that are invoked, the arguments the
module is given and what the call is settled with.
-/

namespace CrossNative.Bridge

set_option autoImplicit false

open Basis

/-- A plugin by itself: its `beforeCall` may be handed nothing, and may return nothing. -/
structure NamedPlugin (S : Type) where
  name : String
  beforeCall : Option (Option CallContext → Proc S Thrown (Option CallContext))
  afterCall : Option (CallContext → JsArg → Proc S Thrown Unit)
  onError : Option (CallContext → Thrown → Proc S Thrown Unit)

/-- A plugin, or `composePlugins` of some. -/
inductive PluginTree (S : Type)
  | plugin (plugin : NamedPlugin S)
  | composed (parts : List (PluginTree S))

section Compose

variable {S T : Type}

/-- What `withPlugins` makes of the hooks: it always has a context. -/
def NamedPlugin.plugin (p : NamedPlugin S) : Plugin S where
  beforeCall := p.beforeCall.map fun hook context => hook (some context)
  afterCall := p.afterCall
  onError := p.onError

def composeBefore : List (NamedPlugin S) → Option CallContext → Proc S Thrown (Option CallContext)
  | [], current => pure current
  | plugin :: plugins, current =>
    match plugin.beforeCall with
    | none => composeBefore plugins current
    | some hook => do
      let current ← hook current
      composeBefore plugins current

def composePlugins (plugins : List (NamedPlugin S)) : NamedPlugin S where
  name := "composed"
  beforeCall := some (composeBefore plugins)
  afterCall := some fun context result =>
    forEachHook (afterHook context result) (plugins.map NamedPlugin.plugin)
  onError := some fun context error =>
    forEachHook (errorHook context error) (plugins.map NamedPlugin.plugin)

mutual

/-- The plugin that is configured, with `f` around the plugins it is composed of. -/
def PluginTree.build (f : NamedPlugin S → NamedPlugin T) : PluginTree S → NamedPlugin T
  | .plugin p => f p
  | .composed parts => composePlugins (buildAll f parts)

def PluginTree.buildAll (f : NamedPlugin S → NamedPlugin T) : List (PluginTree S) → List (NamedPlugin T)
  | [] => []
  | part :: parts => part.build f :: buildAll f parts

end

mutual

def PluginTree.flatten : PluginTree S → List (NamedPlugin S)
  | .plugin p => [p]
  | .composed parts => flattenAll parts

def PluginTree.flattenAll : List (PluginTree S) → List (NamedPlugin S)
  | [] => []
  | part :: parts => part.flatten ++ flattenAll parts

end

/-! ## A composition is a composition of what it is made of -/

theorem composeBefore_append (plugins others : List (NamedPlugin S)) (current : Option CallContext) :
    composeBefore (plugins ++ others) current =
      composeBefore plugins current >>= fun current => composeBefore others current := by
  induction plugins generalizing current with
  | nil => rfl
  | cons plugin plugins ih =>
    rw [List.cons_append, composeBefore, composeBefore]
    cases plugin.beforeCall with
    | none => exact ih current
    | some hook =>
      simp only [ih]
      rw [bind_assoc]

theorem forEachHook_append (hook : Plugin S → Option (Proc S Thrown Unit)) (plugins others : List (Plugin S)) :
    forEachHook hook (plugins ++ others) = forEachHook hook plugins >>= fun _ => forEachHook hook others := by
  induction plugins with
  | nil => rfl
  | cons plugin plugins ih =>
    rw [List.cons_append, forEachHook, forEachHook, ih, bind_assoc]

theorem runBefore_append (plugins others : List (Plugin S)) (context : CallContext) :
    runBefore (plugins ++ others) context =
      runBefore plugins context >>= fun context => runBefore others context := by
  induction plugins generalizing context with
  | nil => rfl
  | cons plugin plugins ih =>
    rw [List.cons_append, runBefore, runBefore]
    simp only [ih]
    rw [bind_assoc]

mutual

theorem PluginTree.composeBefore_build (f : NamedPlugin S → NamedPlugin T) (tree : PluginTree S)
    (current : Option CallContext) :
    composeBefore [tree.build f] current = composeBefore (tree.flatten.map f) current := by
  cases tree with
  | plugin p => rw [build, flatten, List.map_singleton]
  | composed parts =>
    rw [build, flatten, composeBefore]
    exact (bind_pure _).trans (PluginTree.composeBefore_buildAll f parts current)

theorem PluginTree.composeBefore_buildAll (f : NamedPlugin S → NamedPlugin T) (trees : List (PluginTree S))
    (current : Option CallContext) :
    composeBefore (buildAll f trees) current = composeBefore ((flattenAll trees).map f) current := by
  cases trees with
  | nil => rfl
  | cons tree trees =>
    rw [buildAll, flattenAll, List.map_append, composeBefore_append, ← PluginTree.composeBefore_build f tree]
    simp only [← PluginTree.composeBefore_buildAll f trees]
    exact composeBefore_append [tree.build f] (buildAll f trees) current

end

/-- A composition runs the hooks of its parts; `afterHook` and `errorHook` are such hooks. -/
def Composes (hook : Plugin T → Option (Proc T Thrown Unit)) : Prop :=
  ∀ plugins, hook (composePlugins plugins).plugin = some (forEachHook hook (plugins.map NamedPlugin.plugin))

mutual

theorem PluginTree.forEachHook_build {hook : Plugin T → Option (Proc T Thrown Unit)} (hcomposed : Composes hook)
    (f : NamedPlugin S → NamedPlugin T) (tree : PluginTree S) :
    forEachHook hook [(tree.build f).plugin] = forEachHook hook ((tree.flatten.map f).map NamedPlugin.plugin) := by
  cases tree with
  | plugin p => rw [build, flatten, List.map_singleton, List.map_singleton]
  | composed parts =>
    rw [build, flatten, forEachHook, hcomposed]
    exact (bind_pure _).trans (PluginTree.forEachHook_buildAll hcomposed f parts)

theorem PluginTree.forEachHook_buildAll {hook : Plugin T → Option (Proc T Thrown Unit)}
    (hcomposed : Composes hook) (f : NamedPlugin S → NamedPlugin T) (trees : List (PluginTree S)) :
    forEachHook hook ((buildAll f trees).map NamedPlugin.plugin) =
      forEachHook hook (((flattenAll trees).map f).map NamedPlugin.plugin) := by
  cases trees with
  | nil => rfl
  | cons tree trees =>
    rw [buildAll, flattenAll, List.map_append, List.map_append, forEachHook_append,
      ← PluginTree.forEachHook_build hcomposed f tree, ← PluginTree.forEachHook_buildAll hcomposed f trees]
    exact forEachHook_append hook [(tree.build f).plugin] ((buildAll f trees).map NamedPlugin.plugin)

end

theorem PluginTree.runAfter_buildAll (f : NamedPlugin S → NamedPlugin T) (trees : List (PluginTree S))
    (context : CallContext) (result : JsArg) :
    runAfter ((buildAll f trees).map NamedPlugin.plugin) context result =
      runAfter (((flattenAll trees).map f).map NamedPlugin.plugin) context result :=
  PluginTree.forEachHook_buildAll (fun _ => rfl) f trees

theorem PluginTree.reportError_buildAll (engine : Engine T) (f : NamedPlugin S → NamedPlugin T)
    (trees : List (PluginTree S)) (context : CallContext) :
    reportError engine ((buildAll f trees).map NamedPlugin.plugin) context =
      reportError engine (((flattenAll trees).map f).map NamedPlugin.plugin) context := by
  funext thrown
  have herrors (error : Thrown) : runErrors ((buildAll f trees).map NamedPlugin.plugin) context error =
      runErrors (((flattenAll trees).map f).map NamedPlugin.plugin) context error :=
    PluginTree.forEachHook_buildAll (fun _ => rfl) f trees
  unfold reportError
  simp only [herrors]

/-- In a list, a composition is the composition of all that is in it. -/
theorem PluginTree.before_build (f : NamedPlugin S → NamedPlugin T) (tree : PluginTree S) (context : CallContext) :
    (tree.build f).plugin.before context =
      composeBefore (tree.flatten.map f) (some context) >>= fun returned => pure (returned.getD context) := by
  rw [← PluginTree.composeBefore_build, composeBefore, Plugin.before, NamedPlugin.plugin]
  cases (tree.build f).beforeCall with
  | none => rfl
  | some hook =>
    simp only [composeBefore, Option.map_some, bind_pure]

end Compose

/-! ## Watching the hooks and the module -/

/-- An invocation of a hook of the plugin of some name, or of the module. -/
inductive CallEvent
  | beforeCall (plugin : String) (context : Option CallContext)
  | afterCall (plugin : String) (context : CallContext) (result : JsArg)
  | onError (plugin : String) (context : CallContext) (error : Thrown)
  | invoked (method : String) (args : List JsArg)

structure PluginCall where
  method : String
  args : List JsArg
  options : JsArg

section Watched

variable {S T : Type}

def NamedPlugin.watched (p : NamedPlugin S) : NamedPlugin (Logged S CallEvent) where
  name := p.name
  beforeCall := p.beforeCall.map fun hook context => do
    Proc.note (.beforeCall p.name context)
    Proc.quiet (hook context)
  afterCall := p.afterCall.map fun hook context result => do
    Proc.note (.afterCall p.name context result)
    Proc.quiet (hook context result)
  onError := p.onError.map fun hook context error => do
    Proc.note (.onError p.name context error)
    Proc.quiet (hook context error)

def Engine.comap (f : T → S) (engine : Engine S) : Engine T where
  number := engine.number
  text := engine.text
  generateCallId t := engine.generateCallId (f t)
  now t := engine.now (f t)

/-- The context a call starts with. -/
def PluginCall.context (engine : Engine S) (moduleId : String) (call : PluginCall) (s : S) : CallContext :=
  { newContext engine s moduleId call.method call.args with options := call.options }

/-- What `call` does in a module wrapped with the plugins; `guarded` takes the options first. -/
def watchedCall (engine : Engine S) (plugins : List (NamedPlugin (Logged S CallEvent))) (moduleId : String)
    (guarded : JsArg → String → List JsArg → Proc S Thrown JsArg) (call : PluginCall) (s : S) :
    Settled × Logged S CallEvent :=
  hookedCall (engine.comap Logged.state) (plugins.map NamedPlugin.plugin) moduleId call.options
    (fun method args => do
      Proc.note (.invoked method args)
      Proc.quiet (guarded call.options method args))
    call.method call.args ⟨s, []⟩

/-- Calls one after the other: of each, what it is settled with and what was invoked. -/
def watchedCalls (engine : Engine S) (plugins : List (NamedPlugin (Logged S CallEvent))) (moduleId : String)
    (guarded : JsArg → String → List JsArg → Proc S Thrown JsArg) : List PluginCall → S →
    List (Settled × List CallEvent)
  | [], _ => []
  | call :: calls, s =>
    let run := watchedCall engine plugins moduleId guarded call s
    Proc.observe run :: watchedCalls engine plugins moduleId guarded calls run.2.state

/-! ## When a composition makes no difference -/

/-- How the hooks of a list hand the context on, each to the next one. -/
inductive HandOver
  | threw
  /-- The last hook returned a context, or there was no hook. -/
  | kept (context : CallContext)
  /-- The last hook was handed the context and returned nothing. -/
  | silent (context : CallContext)
  /-- A hook returned nothing and others follow it. -/
  | dropped

def Unhooked (plugins : List (NamedPlugin S)) : Prop := ∀ p ∈ plugins, p.beforeCall = none

instance (plugins : List (NamedPlugin S)) : Decidable (Unhooked plugins) :=
  decidable_of_iff (plugins.all (·.beforeCall.isNone) = true) (by simp [Unhooked, List.all_eq_true])

def handOver : List (NamedPlugin S) → CallContext → S → HandOver × S
  | [], context, s => (.kept context, s)
  | p :: plugins, context, s =>
    match p.beforeCall with
    | none => handOver plugins context s
    | some hook =>
      match hook (some context) s with
      | (.ok (some next), s') => handOver plugins next s'
      | (.ok none, s') => if Unhooked plugins then (.silent context, s') else (.dropped, s')
      | (.error _, s') => (.threw, s')

/-- The module is given the same, and no hook hears of the contexts. -/
def Unseen (engine : Engine S) (plugins : List (NamedPlugin S)) (guarded : List JsArg → Proc S Thrown JsArg)
    (context other : CallContext) (s : S) : Prop :=
  context.args = other.args ∧
    match (guarded context.args s).1 with
    | .ok _ => ∀ p ∈ plugins, p.afterCall = none
    | .error thrown => (asError engine thrown).isOk = true → ∀ p ∈ plugins, p.onError = none

/-- In no composition does a hook that others follow return nothing. When the last one does, either it
was handed the context that the composition was handed, or nobody sees the one that is lost. -/
def Transparent (unseen : CallContext → CallContext → S → Prop) : List (PluginTree S) → CallContext → S → Prop
  | [], _, _ => True
  | tree :: trees, context, s =>
    match handOver tree.flatten context s with
    | (.threw, _) => True
    | (.kept next, s') => Transparent unseen trees next s'
    | (.silent next, s') =>
      next = context ∧ Transparent unseen trees context s' ∨
        Unhooked (PluginTree.flattenAll trees) ∧ unseen context next s'
    | (.dropped, _) => False

/-- The condition for one call. With compositions of nothing only, `withPlugins` still wraps what is
rejected with. -/
def CallTransparent (engine : Engine S) (trees : List (PluginTree S)) (moduleId : String)
    (guarded : JsArg → String → List JsArg → Proc S Thrown JsArg) (call : PluginCall) (s : S) : Prop :=
  Transparent (Unseen engine (PluginTree.flattenAll trees) (guarded call.options call.method)) trees
      (call.context engine moduleId s) s ∧
    (PluginTree.flattenAll trees = [] → trees ≠ [] →
      ∀ v, (guarded call.options call.method call.args s).1 ≠ .error (.value v))

def CallsTransparent (engine : Engine S) (trees : List (PluginTree S)) (moduleId : String)
    (guarded : JsArg → String → List JsArg → Proc S Thrown JsArg) : List PluginCall → S → Prop
  | [], _ => True
  | call :: calls, s =>
    CallTransparent engine trees moduleId guarded call s ∧
      CallsTransparent engine trees moduleId guarded calls
        (watchedCall engine ((PluginTree.flattenAll trees).map NamedPlugin.watched) moduleId guarded call s).2.state

/-! ## The first hook -/

/-- The plugins of the list as they are configured by themselves. -/
def listed (plugins : List (NamedPlugin S)) : List (Plugin (Logged S CallEvent)) :=
  (plugins.map NamedPlugin.watched).map NamedPlugin.plugin

/-- The plugins that are configured, compositions and all. -/
def configured (trees : List (PluginTree S)) : List (Plugin (Logged S CallEvent)) :=
  (PluginTree.buildAll NamedPlugin.watched trees).map NamedPlugin.plugin

theorem runBefore_configured (tree : PluginTree S) (trees : List (PluginTree S)) (context : CallContext) :
    runBefore (configured (tree :: trees)) context =
      composeBefore (tree.flatten.map NamedPlugin.watched) (some context) >>= fun returned =>
        runBefore (configured trees) (returned.getD context) := by
  rw [configured, PluginTree.buildAll, List.map_cons, runBefore, PluginTree.before_build, bind_assoc]
  rfl

theorem runBefore_listed (plugins others : List (NamedPlugin S)) (context : CallContext) :
    runBefore (listed (plugins ++ others)) context =
      runBefore (listed plugins) context >>= fun context => runBefore (listed others) context := by
  rw [listed, List.map_append, List.map_append, runBefore_append]
  rfl

section Cons

variable {p : NamedPlugin S} {plugins : List (NamedPlugin S)}
  {hook : Option CallContext → Proc S Thrown (Option CallContext)}

theorem composeBefore_skip (h : p.beforeCall = none) (current : Option CallContext) :
    composeBefore ((p :: plugins).map NamedPlugin.watched) current =
      composeBefore (plugins.map NamedPlugin.watched) current := by
  rw [List.map_cons, composeBefore, NamedPlugin.watched, h]
  rfl

theorem composeBefore_hook (h : p.beforeCall = some hook) (current : Option CallContext) :
    composeBefore ((p :: plugins).map NamedPlugin.watched) current =
      (Proc.note (.beforeCall p.name current) >>= fun _ => Proc.quiet (hook current)) >>= fun returned =>
        composeBefore (plugins.map NamedPlugin.watched) returned := by
  rw [List.map_cons, composeBefore, NamedPlugin.watched, h]
  rfl

theorem runBefore_skip (h : p.beforeCall = none) (context : CallContext) :
    runBefore (listed (p :: plugins)) context = runBefore (listed plugins) context := by
  rw [listed, List.map_cons, List.map_cons, runBefore, Plugin.before, NamedPlugin.plugin, NamedPlugin.watched, h]
  rfl

theorem runBefore_hook (h : p.beforeCall = some hook) (context : CallContext) :
    runBefore (listed (p :: plugins)) context =
      (Proc.note (.beforeCall p.name (some context)) >>= fun _ => Proc.quiet (hook (some context))) >>=
        fun returned => runBefore (listed plugins) (returned.getD context) := by
  rw [listed, List.map_cons, List.map_cons, runBefore, Plugin.before, NamedPlugin.plugin, NamedPlugin.watched, h]
  simp only [Option.map_some, bind_assoc, pure_bind]
  rfl

end Cons

theorem Unhooked.composeBefore {plugins : List (NamedPlugin S)} (h : Unhooked plugins)
    (current : Option CallContext) : composeBefore (plugins.map NamedPlugin.watched) current = pure current := by
  induction plugins with
  | nil => rfl
  | cons p plugins ih =>
    obtain ⟨hp, hrest⟩ := List.forall_mem_cons.mp h
    rw [composeBefore_skip hp, ih hrest]

theorem Unhooked.runBefore {plugins : List (NamedPlugin S)} (h : Unhooked plugins) (context : CallContext) :
    runBefore (listed plugins) context = pure context := by
  induction plugins with
  | nil => rfl
  | cons p plugins ih =>
    obtain ⟨hp, hrest⟩ := List.forall_mem_cons.mp h
    rw [runBefore_skip hp, ih hrest]

theorem composeBefore_grows (plugins : List (NamedPlugin S)) (current : Option CallContext) :
    Proc.Ends Proc.Grows Proc.Grows (composeBefore (plugins.map NamedPlugin.watched) current) := by
  induction plugins generalizing current with
  | nil => exact Proc.Ends.pure current
  | cons p plugins ih =>
    cases hhook : p.beforeCall with
    | none =>
      rw [composeBefore_skip hhook]
      exact ih current
    | some hook =>
      rw [composeBefore_hook hhook]
      exact (Proc.noted_quiet _ _).2.bind ih

theorem runBefore_listed_grows (plugins : List (NamedPlugin S)) (context : CallContext) :
    Proc.Ends Proc.Grows Proc.Grows (runBefore (listed plugins) context) := by
  induction plugins generalizing context with
  | nil => exact Proc.Ends.pure context
  | cons p plugins ih =>
    cases hhook : p.beforeCall with
    | none =>
      rw [runBefore_skip hhook]
      exact ih context
    | some hook =>
      rw [runBefore_hook hhook]
      exact (Proc.noted_quiet _ _).2.bind fun returned => ih _

theorem runBefore_configured_grows (trees : List (PluginTree S)) (context : CallContext) :
    Proc.Ends Proc.Grows Proc.Grows (runBefore (configured trees) context) := by
  induction trees generalizing context with
  | nil => exact Proc.Ends.pure context
  | cons tree trees ih =>
    rw [runBefore_configured]
    exact (composeBefore_grows _ _).bind fun returned => ih _

/-- The first hook is the same in a composition and in a list, and it is noted with what it is handed. -/
theorem first_of_plugins {plugins : List (NamedPlugin S)} (h : ¬ Unhooked plugins) :
    ∃ name,
      (∀ current w, w.log ++ [.beforeCall name current] <+:
        (composeBefore (plugins.map NamedPlugin.watched) current w).2.log) ∧
      ∀ context w, w.log ++ [.beforeCall name (some context)] <+: (runBefore (listed plugins) context w).2.log := by
  induction plugins with
  | nil => exact absurd (List.forall_mem_nil _) h
  | cons p plugins ih =>
    cases hhook : p.beforeCall with
    | none =>
      obtain ⟨name, hcomposed, hlisted⟩ := ih fun hrest => h (List.forall_mem_cons.mpr ⟨hhook, hrest⟩)
      simp only [composeBefore_skip hhook, runBefore_skip hhook]
      exact ⟨name, hcomposed, hlisted⟩
    | some hook =>
      simp only [composeBefore_hook hhook, runBefore_hook hhook]
      exact ⟨p.name, fun current w => Proc.noted_first _ _ (composeBefore_grows plugins) w,
        fun context w => Proc.noted_first _ _ (fun returned => runBefore_listed_grows plugins _) w⟩

theorem first_of_trees {trees : List (PluginTree S)} (h : ¬ Unhooked (PluginTree.flattenAll trees)) :
    ∃ name, ∀ context w,
      w.log ++ [.beforeCall name (some context)] <+: (runBefore (configured trees) context w).2.log ∧
      w.log ++ [.beforeCall name (some context)] <+:
        (runBefore (listed (PluginTree.flattenAll trees)) context w).2.log := by
  induction trees with
  | nil => exact absurd (List.forall_mem_nil _) h
  | cons tree trees ih =>
    simp only [runBefore_configured, PluginTree.flattenAll, runBefore_listed]
    by_cases htree : Unhooked tree.flatten
    · obtain ⟨name, hfirst⟩ := ih fun hrest => h (List.forall_mem_append.mpr ⟨htree, hrest⟩)
      refine ⟨name, fun context w => ?_⟩
      rw [htree.composeBefore, htree.runBefore]
      exact hfirst context w
    · obtain ⟨name, hcomposed, hlisted⟩ := first_of_plugins htree
      refine ⟨name, fun context w => ⟨(hcomposed (some context) w).trans ?_, (hlisted context w).trans ?_⟩⟩
      · exact Proc.grows_bind _ (fun returned => runBefore_configured_grows trees _) w
      · exact Proc.grows_bind _ (fun context => runBefore_listed_grows _ context) w

/-! ## The hooks before a call -/

theorem handOver_skip {p : NamedPlugin S} (h : p.beforeCall = none) (plugins : List (NamedPlugin S))
    (context : CallContext) (s : S) : handOver (p :: plugins) context s = handOver plugins context s := by
  rw [handOver, h]

theorem handOver_hook {p : NamedPlugin S} {hook : Option CallContext → Proc S Thrown (Option CallContext)}
    (h : p.beforeCall = some hook) (plugins : List (NamedPlugin S)) (context : CallContext) (s : S) :
    handOver (p :: plugins) context s =
      match hook (some context) s with
      | (.ok (some next), s') => handOver plugins next s'
      | (.ok none, s') => if Unhooked plugins then (.silent context, s') else (.dropped, s')
      | (.error _, s') => (.threw, s') := by
  rw [handOver, h]

theorem Unhooked.handOver {plugins : List (NamedPlugin S)} (h : Unhooked plugins) (context : CallContext) (s : S) :
    handOver plugins context s = (.kept context, s) := by
  induction plugins with
  | nil => rfl
  | cons p plugins ih =>
    obtain ⟨hp, hrest⟩ := List.forall_mem_cons.mp h
    rw [handOver_skip hp, ih hrest]

/-- What becomes of the hooks of a composition, and of the same hooks in a list. -/
inductive Compared : HandOver × S → Except Thrown (Option CallContext) × Logged S CallEvent →
    Except Thrown CallContext × Logged S CallEvent → Prop
  | threw (e : Thrown) (s : S) (log : List CallEvent) :
    Compared (.threw, s) (.error e, ⟨s, log⟩) (.error e, ⟨s, log⟩)
  | kept (context : CallContext) (s : S) (log : List CallEvent) :
    Compared (.kept context, s) (.ok (some context), ⟨s, log⟩) (.ok context, ⟨s, log⟩)
  | silent (context : CallContext) (s : S) (log : List CallEvent) :
    Compared (.silent context, s) (.ok none, ⟨s, log⟩) (.ok context, ⟨s, log⟩)
  | dropped {composed : Except Thrown (Option CallContext) × Logged S CallEvent}
    {one : Except Thrown CallContext × Logged S CallEvent} (s : S) (h : Proc.Diverged composed.2 one.2) :
    Compared (.dropped, s) composed one

/-- By induction on the plugins; as long as each hook returns a context both hand on the same. -/
theorem compared (plugins : List (NamedPlugin S)) (context : CallContext) (s : S) (log : List CallEvent) :
    Compared (handOver plugins context s)
      (composeBefore (plugins.map NamedPlugin.watched) (some context) ⟨s, log⟩)
      (runBefore (listed plugins) context ⟨s, log⟩) := by
  induction plugins generalizing context s log with
  | nil => exact .kept context s log
  | cons p plugins ih =>
    cases hhook : p.beforeCall with
    | none =>
      rw [handOver_skip hhook, composeBefore_skip hhook, runBefore_skip hhook]
      exact ih context s log
    | some hook =>
      rw [handOver_hook hhook, composeBefore_hook hhook, runBefore_hook hhook]
      cases hrun : hook (some context) s with
      | mk r s' =>
        have hnoted := Proc.note_quiet_run hrun (CallEvent.beforeCall p.name (some context)) log
        cases r with
        | error e =>
          rw [Proc.bind_of_error hnoted, Proc.bind_of_error hnoted]
          exact .threw e s' _
        | ok returned =>
          rw [Proc.bind_of_ok hnoted, Proc.bind_of_ok hnoted]
          cases returned with
          | some next => exact ih next s' _
          | none =>
            simp only [Option.getD_none]
            by_cases hrest : Unhooked plugins
            · rw [if_pos hrest, hrest.composeBefore, hrest.runBefore]
              exact .silent context s' _
            · rw [if_neg hrest]
              obtain ⟨name, hcomposed, hlisted⟩ := first_of_plugins hrest
              have hhanded : CallEvent.beforeCall name none ≠ .beforeCall name (some context) := fun h => nomatch h
              exact .dropped s' ⟨_, _, _, hhanded, hcomposed none _, hlisted context _⟩

theorem Unhooked.configured {trees : List (PluginTree S)} (h : Unhooked (PluginTree.flattenAll trees))
    (context : CallContext) : Bridge.runBefore (configured trees) context = pure context := by
  induction trees with
  | nil => rfl
  | cons tree trees ih =>
    obtain ⟨htree, hrest⟩ := List.forall_mem_append.mp h
    rw [runBefore_configured, Unhooked.composeBefore htree, pure_bind]
    exact ih hrest

theorem observe_ne_of_diverged {run run' : Settled × Logged S CallEvent} (h : Proc.Diverged run.2 run'.2) :
    Proc.observe run ≠ Proc.observe run' := fun hsame => h.log_ne (congrArg Prod.snd hsame)

section Rest

-- What follows the hooks, and when it does not depend on the context it is given.
variable {rest : CallContext → Proc (Logged S CallEvent) Thrown JsArg}
  {unseen : CallContext → CallContext → S → Prop}

/-- By induction on the plugins that are configured, with one case for each way of handing on. -/
theorem transparent_of_observe (hgrows : ∀ context, Proc.Ends Proc.Grows Proc.Grows (rest context))
    (hunseen : ∀ {context other : CallContext} {s : S} {log : List CallEvent},
      Proc.observe (rest context ⟨s, log⟩) = Proc.observe (rest other ⟨s, log⟩) →
        context = other ∨ unseen context other s)
    {trees : List (PluginTree S)} {context : CallContext} {s : S} {log : List CallEvent}
    (h : Proc.observe ((runBefore (configured trees) context >>= rest) ⟨s, log⟩) =
      Proc.observe ((runBefore (listed (PluginTree.flattenAll trees)) context >>= rest) ⟨s, log⟩)) :
    Transparent unseen trees context s := by
  induction trees generalizing context s log with
  | nil => trivial
  | cons tree trees ih =>
    rw [runBefore_configured, PluginTree.flattenAll, runBefore_listed, bind_assoc, bind_assoc] at h
    have hcompared := compared tree.flatten context s log
    rw [Transparent]
    generalize handOver tree.flatten context s = handed at hcompared ⊢
    generalize hcomposed : composeBefore (tree.flatten.map NamedPlugin.watched) (some context) ⟨s, log⟩ = composed
      at hcompared
    generalize hone : runBefore (listed tree.flatten) context ⟨s, log⟩ = one at hcompared
    cases hcompared with
    | threw e s' log' => trivial
    | kept next s' log' =>
      rw [Proc.bind_of_ok hcomposed, Proc.bind_of_ok hone] at h
      exact ih h
    | silent next s' log' =>
      rw [Proc.bind_of_ok hcomposed, Proc.bind_of_ok hone] at h
      simp only [Option.getD_none] at h
      by_cases hsame : next = context
      · subst hsame
        exact Or.inl ⟨rfl, ih h⟩
      · refine Or.inr ?_
        by_cases hrest : Unhooked (PluginTree.flattenAll trees)
        · rw [hrest.configured, hrest.runBefore, pure_bind, pure_bind] at h
          rcases hunseen h with heq | hother
          · exact absurd heq.symm hsame
          · exact ⟨hrest, hother⟩
        · obtain ⟨name, hfirst⟩ := first_of_trees hrest
          have hhanded : CallEvent.beforeCall name (some context) ≠ .beforeCall name (some next) := by
            intro heq
            injection heq with _ heq
            exact hsame (Option.some.inj heq).symm
          have hdiverged : Proc.Diverged (runBefore (configured trees) context ⟨s', log'⟩).2
              (runBefore (listed (PluginTree.flattenAll trees)) next ⟨s', log'⟩).2 :=
            ⟨log', _, _, hhanded, (hfirst context ⟨s', log'⟩).1, (hfirst next ⟨s', log'⟩).2⟩
          exact absurd h (observe_ne_of_diverged
            (hdiverged.grows (Proc.grows_bind _ hgrows _) (Proc.grows_bind _ hgrows _)))
    | dropped s' hdiverged =>
      subst hcomposed hone
      refine absurd h (observe_ne_of_diverged (hdiverged.grows ?_ ?_))
      · exact Proc.grows_bind _ (fun returned => (runBefore_configured_grows trees _).bind hgrows) _
      · exact Proc.grows_bind _ (fun context => (runBefore_listed_grows _ context).bind hgrows) _

theorem run_of_transparent
    (hunseen : ∀ {context other : CallContext} {s : S} {log : List CallEvent}, unseen context other s →
      rest context ⟨s, log⟩ = rest other ⟨s, log⟩)
    {trees : List (PluginTree S)} {context : CallContext} {s : S} (log : List CallEvent)
    (h : Transparent unseen trees context s) :
    (runBefore (configured trees) context >>= rest) ⟨s, log⟩ =
      (runBefore (listed (PluginTree.flattenAll trees)) context >>= rest) ⟨s, log⟩ := by
  induction trees generalizing context s log with
  | nil => rfl
  | cons tree trees ih =>
    rw [runBefore_configured, PluginTree.flattenAll, runBefore_listed, bind_assoc, bind_assoc]
    have hcompared := compared tree.flatten context s log
    rw [Transparent] at h
    generalize handOver tree.flatten context s = handed at hcompared h
    generalize hcomposed : composeBefore (tree.flatten.map NamedPlugin.watched) (some context) ⟨s, log⟩ = composed
      at hcompared
    generalize hone : runBefore (listed tree.flatten) context ⟨s, log⟩ = one at hcompared
    cases hcompared with
    | threw e s' log' => rw [Proc.bind_of_error hcomposed, Proc.bind_of_error hone]
    | kept next s' log' =>
      rw [Proc.bind_of_ok hcomposed, Proc.bind_of_ok hone]
      exact ih log' h
    | silent next s' log' =>
      rw [Proc.bind_of_ok hcomposed, Proc.bind_of_ok hone]
      simp only [Option.getD_none]
      rcases h with ⟨rfl, hrest⟩ | ⟨hrest, hother⟩
      · exact ih log' hrest
      · rw [hrest.configured, hrest.runBefore, pure_bind, pure_bind]
        exact hunseen hother
    | dropped s' hdiverged => exact absurd h id

end Rest

/-! ## The hooks after a call -/

theorem mem_listed {plugins : List (NamedPlugin S)} {plugin : Plugin (Logged S CallEvent)}
    (h : plugin ∈ listed plugins) : ∃ p ∈ plugins, p.watched.plugin = plugin := by
  rw [listed, List.map_map] at h
  exact List.mem_map.mp h

section After

variable {hook : NamedPlugin S → Option (Proc S Thrown Unit)} {event : NamedPlugin S → CallEvent}
  {watchedHook : Plugin (Logged S CallEvent) → Option (Proc (Logged S CallEvent) Thrown Unit)}
  (hwatched : ∀ p : NamedPlugin S, watchedHook p.watched.plugin =
    (hook p).map fun invoked => Proc.note (event p) >>= fun _ => Proc.quiet invoked)

include hwatched

theorem forEachHook_listed_grows (plugins : List (NamedPlugin S)) :
    Proc.Ends Proc.Grows Proc.Grows (forEachHook watchedHook (listed plugins)) := by
  refine forEachHook_grows fun plugin hmem invoked hinvoked => ?_
  obtain ⟨p, _, rfl⟩ := mem_listed hmem
  rw [hwatched] at hinvoked
  obtain ⟨inner, _, rfl⟩ := Option.map_eq_some_iff.mp hinvoked
  exact Proc.noted_quiet _ _

theorem forEachHook_listed_unhooked {plugins : List (NamedPlugin S)} (h : ∀ p ∈ plugins, hook p = none) :
    forEachHook watchedHook (listed plugins) = pure () := by
  refine forEachHook_unhooked fun plugin hmem => ?_
  obtain ⟨p, hp, rfl⟩ := mem_listed hmem
  rw [hwatched, h p hp, Option.map_none]

theorem forEachHook_listed_first {skipped plugins : List (NamedPlugin S)} {p : NamedPlugin S}
    (hskipped : ∀ q ∈ skipped, hook q = none) (hp : hook p ≠ none) (w : Logged S CallEvent) :
    w.log ++ [event p] <+: (forEachHook watchedHook (listed (skipped ++ p :: plugins)) w).2.log := by
  obtain ⟨invoked, hinvoked⟩ := Option.ne_none_iff_exists'.mp hp
  rw [listed, List.map_append, List.map_append, forEachHook_append]
  rw [show forEachHook watchedHook ((skipped.map NamedPlugin.watched).map NamedPlugin.plugin) = pure () from
    forEachHook_listed_unhooked hwatched hskipped, pure_bind]
  rw [List.map_cons, List.map_cons, forEachHook, hwatched, hinvoked]
  exact Proc.noted_first _ _ (fun _ => forEachHook_listed_grows hwatched plugins) w

end After

theorem afterHook_named (context : CallContext) (result : JsArg) (p : NamedPlugin S) :
    (p.watched.plugin.afterCall.map fun hook => hook context result) =
      (p.afterCall.map fun hook => hook context result).map fun invoked =>
        Proc.note (.afterCall p.name context result) >>= fun _ => Proc.quiet invoked := by
  unfold NamedPlugin.plugin NamedPlugin.watched
  cases p.afterCall <;> rfl

theorem errorHook_named (context : CallContext) (error : Thrown) (p : NamedPlugin S) :
    (p.watched.plugin.onError.map fun hook => hook context error) =
      (p.onError.map fun hook => hook context error).map fun invoked =>
        Proc.note (.onError p.name context error) >>= fun _ => Proc.quiet invoked := by
  unfold NamedPlugin.plugin NamedPlugin.watched
  cases p.onError <;> rfl

/-- What follows the hooks before a call. -/
def afterwards (engine : Engine T) (plugins : List (Plugin T)) (invoke : List JsArg → Proc T Thrown JsArg)
    (context : CallContext) : Proc T Thrown JsArg :=
  Proc.rescue (attempt plugins context (invoke context.args)) (reportError engine plugins context)

theorem afterwards_configured (engine : Engine (Logged S CallEvent)) (trees : List (PluginTree S)) :
    afterwards engine (configured trees) = afterwards engine (listed (PluginTree.flattenAll trees)) := by
  funext invoke context
  have hafter (result : JsArg) := PluginTree.runAfter_buildAll NamedPlugin.watched trees context result
  have herror := PluginTree.reportError_buildAll engine NamedPlugin.watched trees context
  simp only [afterwards, attempt, configured, hafter, herror, listed]

section Guarded

variable {engine : Engine S} {plugins : List (NamedPlugin S)} {method : String}
  {guarded : List JsArg → Proc S Thrown JsArg}

/-- The module is noted and then called. -/
def invoking (method : String) (guarded : List JsArg → Proc S Thrown JsArg) (args : List JsArg) :
    Proc (Logged S CallEvent) Thrown JsArg := do
  Proc.note (.invoked method args)
  Proc.quiet (guarded args)

/-- With the plugins in a list. -/
def afterListed (engine : Engine S) (plugins : List (NamedPlugin S)) (method : String)
    (guarded : List JsArg → Proc S Thrown JsArg) (context : CallContext) : Proc (Logged S CallEvent) Thrown JsArg :=
  afterwards (engine.comap Logged.state) (listed plugins) (invoking method guarded) context

theorem reportError_listed_grows (context : CallContext) (thrown : Thrown) :
    Proc.Ends Proc.Grows Proc.Grows (reportError (engine.comap Logged.state) (listed plugins) context thrown) := by
  refine (Proc.Ends.lift _).bind fun error => ?_
  exact (forEachHook_listed_grows (errorHook_named context error) plugins).bind fun _ => Proc.Ends.fail _

theorem runAfter_listed_grows (context : CallContext) (result : JsArg) :
    Proc.Ends Proc.Grows Proc.Grows (runAfter (listed plugins) context result >>= fun _ =>
      (pure result : Proc (Logged S CallEvent) Thrown JsArg)) :=
  (forEachHook_listed_grows (afterHook_named context result) plugins).bind fun _ => Proc.Ends.pure result

theorem afterListed_grows (context : CallContext) :
    Proc.Ends Proc.Grows Proc.Grows (afterListed engine plugins method guarded context) :=
  ((Proc.noted_quiet _ _).2.bind (runAfter_listed_grows context)).rescue (reportError_listed_grows context)

theorem afterListed_invokes (context : CallContext) (w : Logged S CallEvent) :
    w.log ++ [.invoked method context.args] <+: (afterListed engine plugins method guarded context w).2.log :=
  (Proc.noted_first _ _ (runAfter_listed_grows context) w).trans
    (Proc.grows_rescue _ (reportError_listed_grows context) w)

theorem afterListed_ok {context : CallContext} {s s' : S} {result : JsArg}
    (h : guarded context.args s = (.ok result, s')) (log : List CallEvent) :
    afterListed engine plugins method guarded context ⟨s, log⟩ =
      Proc.rescue (runAfter (listed plugins) context result >>= fun _ => pure result)
        (reportError (engine.comap Logged.state) (listed plugins) context)
        ⟨s', log ++ [.invoked method context.args]⟩ := by
  have hattempt : attempt (listed plugins) context (invoking method guarded context.args) ⟨s, log⟩ =
      (runAfter (listed plugins) context result >>= fun _ => pure result)
        ⟨s', log ++ [.invoked method context.args]⟩ := by
    rw [attempt]
    exact Proc.bind_of_ok (Proc.note_quiet_run h _ log)
  simp only [afterListed, afterwards, Proc.rescue, hattempt]

theorem afterListed_error {context : CallContext} {s s' : S} {thrown : Thrown}
    (h : guarded context.args s = (.error thrown, s')) (log : List CallEvent) :
    afterListed engine plugins method guarded context ⟨s, log⟩ =
      reportError (engine.comap Logged.state) (listed plugins) context thrown
        ⟨s', log ++ [.invoked method context.args]⟩ := by
  have hattempt : attempt (listed plugins) context (invoking method guarded context.args) ⟨s, log⟩ =
      (.error thrown, ⟨s', log ++ [.invoked method context.args]⟩) := by
    rw [attempt]
    exact Proc.bind_of_error (Proc.note_quiet_run h _ log)
  rw [afterListed, afterwards, Proc.rescue_of_error hattempt]

theorem exists_first {A : Type} {hook : NamedPlugin S → Option A} {plugins : List (NamedPlugin S)}
    (h : ¬ ∀ p ∈ plugins, hook p = none) :
    ∃ skipped p others, plugins = skipped ++ p :: others ∧ (∀ q ∈ skipped, hook q = none) ∧ hook p ≠ none := by
  induction plugins with
  | nil => exact absurd (List.forall_mem_nil _) h
  | cons p plugins ih =>
    by_cases hp : hook p = none
    · obtain ⟨skipped, q, others, rfl, hskipped, hq⟩ := ih fun hrest => h (List.forall_mem_cons.mpr ⟨hp, hrest⟩)
      exact ⟨p :: skipped, q, others, rfl, List.forall_mem_cons.mpr ⟨hp, hskipped⟩, hq⟩
    · exact ⟨[], p, plugins, rfl, List.forall_mem_nil _, hp⟩

section First

variable {skipped others : List (NamedPlugin S)} {p : NamedPlugin S}

theorem afterCall_first (hskipped : ∀ q ∈ skipped, q.afterCall = none) (hp : p.afterCall ≠ none)
    (context : CallContext) (result : JsArg) (w : Logged S CallEvent) :
    w.log ++ [.afterCall p.name context result] <+:
      (Proc.rescue (runAfter (listed (skipped ++ p :: others)) context result >>= fun _ => pure result)
        (reportError (engine.comap Logged.state) (listed (skipped ++ p :: others)) context) w).2.log := by
  have hnone : ∀ q ∈ skipped, (q.afterCall.map fun hook => hook context result) = none := fun q hq =>
    Option.map_eq_none_iff.mpr (hskipped q hq)
  have hfirst : w.log ++ [.afterCall p.name context result] <+:
      (runAfter (listed (skipped ++ p :: others)) context result w).2.log :=
    @forEachHook_listed_first S _ (fun q => .afterCall q.name context result) _ (afterHook_named context result)
      skipped others p hnone (mt Option.map_eq_none_iff.mp hp) w
  exact (hfirst.trans (Proc.grows_bind _ (fun _ => Proc.Ends.pure result) w)).trans
    (Proc.grows_rescue _ (reportError_listed_grows context) w)

theorem reportError_ok {thrown error : Thrown} (herror : asError engine thrown = .ok error)
    (plugins : List (NamedPlugin S)) (context : CallContext) (w : Logged S CallEvent) :
    reportError (engine.comap Logged.state) (listed plugins) context thrown w =
      (runErrors (listed plugins) context error >>= fun _ => Proc.fail error) w := by
  have hcomap : asError (engine.comap (Logged.state (L := CallEvent))) thrown = .ok error := herror
  rw [reportError, hcomap]
  exact Proc.bind_of_ok rfl

theorem reportError_error {thrown e : Thrown} (herror : asError engine thrown = .error e)
    (plugins : List (NamedPlugin S)) (context : CallContext) (w : Logged S CallEvent) :
    reportError (engine.comap Logged.state) (listed plugins) context thrown w = (.error e, w) := by
  have hcomap : asError (engine.comap (Logged.state (L := CallEvent))) thrown = .error e := herror
  rw [reportError, hcomap]
  exact Proc.bind_of_error rfl

theorem onError_first (hskipped : ∀ q ∈ skipped, q.onError = none) (hp : p.onError ≠ none) {thrown error : Thrown}
    (herror : asError engine thrown = .ok error) (context : CallContext) (w : Logged S CallEvent) :
    w.log ++ [.onError p.name context error] <+:
      (reportError (engine.comap Logged.state) (listed (skipped ++ p :: others)) context thrown w).2.log := by
  have hnone : ∀ q ∈ skipped, (q.onError.map fun hook => hook context error) = none := fun q hq =>
    Option.map_eq_none_iff.mpr (hskipped q hq)
  have hfirst : w.log ++ [.onError p.name context error] <+:
      (runErrors (listed (skipped ++ p :: others)) context error w).2.log :=
    @forEachHook_listed_first S _ (fun q => .onError q.name context error) _ (errorHook_named context error)
      skipped others p hnone (mt Option.map_eq_none_iff.mp hp) w
  rw [reportError_ok herror]
  exact hfirst.trans (Proc.grows_bind _ (fun _ => Proc.Ends.fail error) w)

end First

theorem unseen_of_observe {context other : CallContext} {s : S} {log : List CallEvent}
    (h : Proc.observe (afterListed engine plugins method guarded context ⟨s, log⟩) =
      Proc.observe (afterListed engine plugins method guarded other ⟨s, log⟩)) :
    context = other ∨ Unseen engine plugins guarded context other s := by
  by_cases hsame : context = other
  · exact Or.inl hsame
  · have hargs : context.args = other.args := by
      by_contra hne
      have hinvoked : CallEvent.invoked method context.args ≠ .invoked method other.args := by
        intro heq
        injection heq with _ heq
        exact hne heq
      exact observe_ne_of_diverged ⟨log, _, _, hinvoked, afterListed_invokes context ⟨s, log⟩,
        afterListed_invokes other ⟨s, log⟩⟩ h
    refine Or.inr ⟨hargs, ?_⟩
    cases hcall : guarded context.args s with
    | mk r s' =>
      have hother : guarded other.args s = (r, s') := hargs ▸ hcall
      cases r with
      | ok result =>
        rw [afterListed_ok hcall, afterListed_ok hother, hargs] at h
        simp only
        by_contra hhooked
        obtain ⟨skipped, p, others, rfl, hskipped, hp⟩ := exists_first hhooked
        have hevents : CallEvent.afterCall p.name context result ≠ .afterCall p.name other result := by
          intro heq
          injection heq with _ heq
          exact hsame heq
        exact observe_ne_of_diverged ⟨_, _, _, hevents,
          afterCall_first hskipped hp context result _, afterCall_first hskipped hp other result _⟩ h
      | error thrown =>
        rw [afterListed_error hcall, afterListed_error hother, hargs] at h
        simp only
        intro hok
        by_contra hhooked
        obtain ⟨skipped, p, others, rfl, hskipped, hp⟩ := exists_first hhooked
        cases herror : asError engine thrown with
        | error e =>
          rw [herror] at hok
          cases hok
        | ok error =>
          have hevents : CallEvent.onError p.name context error ≠ .onError p.name other error := by
            intro heq
            injection heq with _ heq
            exact hsame heq
          exact observe_ne_of_diverged ⟨_, _, _, hevents, onError_first hskipped hp herror context _,
            onError_first hskipped hp herror other _⟩ h

theorem run_of_unseen {context other : CallContext} {s : S} {log : List CallEvent}
    (h : Unseen engine plugins guarded context other s) :
    afterListed engine plugins method guarded context ⟨s, log⟩ =
      afterListed engine plugins method guarded other ⟨s, log⟩ := by
  obtain ⟨hargs, hheard⟩ := h
  cases hcall : guarded context.args s with
  | mk r s' =>
    have hother : guarded other.args s = (r, s') := hargs ▸ hcall
    rw [hcall] at hheard
    cases r with
    | ok result =>
      have hafter (context : CallContext) : runAfter (listed plugins) context result = pure () :=
        forEachHook_listed_unhooked (afterHook_named context result) fun q hq =>
          Option.map_eq_none_iff.mpr (hheard q hq)
      rw [afterListed_ok hcall, afterListed_ok hother, hargs, hafter, hafter]
      rfl
    | error thrown =>
      rw [afterListed_error hcall, afterListed_error hother, hargs]
      cases herror : asError engine thrown with
      | error e => rw [reportError_error herror, reportError_error herror]
      | ok error =>
        have herrors (context : CallContext) : runErrors (listed plugins) context error = pure () :=
          forEachHook_listed_unhooked (errorHook_named context error) fun q hq =>
            Option.map_eq_none_iff.mpr (hheard (by rw [herror]; rfl) q hq)
        rw [reportError_ok herror, reportError_ok herror, herrors, herrors]

/-! ## Compositions of nothing -/

theorem reportError_value_ne (engine : Engine S) (v : JsArg) (w : Logged S CallEvent) (context : CallContext) :
    (reportError (engine.comap Logged.state) (listed []) context (.value v) w).1 ≠ .error (.value v) := by
  cases htext : engine.text v with
  | ok text =>
    have herror : asError engine (.value v) = .ok (.error (.native text)) := by
      rw [asError, htext]
      rfl
    rw [reportError_ok herror]
    intro h
    cases h
  | error e =>
    have herror : asError engine (.value v) = .error (.error e) := by
      rw [asError, htext]
      rfl
    rw [reportError_error herror]
    intro h
    cases h

/-- Without any plugin in them what is thrown passes through, if it is an error. -/
theorem afterListed_nil (context : CallContext) (s : S) (log : List CallEvent)
    (h : ∀ v, (guarded context.args s).1 ≠ .error (.value v)) :
    afterListed engine [] method guarded context ⟨s, log⟩ = invoking method guarded context.args ⟨s, log⟩ := by
  cases hcall : guarded context.args s with
  | mk r s' =>
    rw [hcall] at h
    rw [invoking, Proc.note_quiet_run hcall]
    cases r with
    | ok result =>
      rw [afterListed_ok hcall]
      rfl
    | error thrown =>
      rw [afterListed_error hcall]
      cases thrown with
      | value v => exact absurd rfl (h v)
      | error e => rfl
      | failedCall message moduleId methodId => rfl
      | backend message => rfl

theorem observe_afterListed_nil {context : CallContext} {s : S} {log : List CallEvent}
    (h : Proc.observe (afterListed engine [] method guarded context ⟨s, log⟩) =
      Proc.observe (invoking method guarded context.args ⟨s, log⟩)) (v : JsArg) :
    (guarded context.args s).1 ≠ .error (.value v) := by
  intro hvalue
  have hcall := Proc.run_eq_of_outcome hvalue
  rw [afterListed_error hcall, invoking, Proc.note_quiet_run hcall] at h
  exact reportError_value_ne engine v _ context (congrArg Prod.fst h)

theorem transparent_of_unhooked {unseen : CallContext → CallContext → S → Prop} {trees : List (PluginTree S)}
    (h : Unhooked (PluginTree.flattenAll trees)) (context : CallContext) (s : S) :
    Transparent unseen trees context s := by
  induction trees with
  | nil => trivial
  | cons tree trees ih =>
    obtain ⟨htree, hrest⟩ := List.forall_mem_append.mp h
    rw [Transparent, Unhooked.handOver htree]
    exact ih hrest

end Guarded

/-! ## One call, and calls one after the other -/

variable {engine : Engine S} {trees : List (PluginTree S)} {moduleId : String}
  {guarded : JsArg → String → List JsArg → Proc S Thrown JsArg}

theorem watchedCall_hooked {plugins : List (NamedPlugin (Logged S CallEvent))} (h : plugins ≠ []) (call : PluginCall)
    (s : S) :
    watchedCall engine plugins moduleId guarded call s =
      (runBefore (plugins.map NamedPlugin.plugin) (call.context engine moduleId s) >>=
        afterwards (engine.comap Logged.state) (plugins.map NamedPlugin.plugin)
          (invoking call.method (guarded call.options call.method))) ⟨s, []⟩ := by
  have hnonempty : ¬ (plugins.map NamedPlugin.plugin).isEmpty = true := by simpa using h
  rw [watchedCall, hookedCall, if_neg hnonempty]
  rfl

theorem watchedCall_configured (h : trees ≠ []) (call : PluginCall) (s : S) :
    watchedCall engine (PluginTree.buildAll NamedPlugin.watched trees) moduleId guarded call s =
      (runBefore (configured trees) (call.context engine moduleId s) >>=
        afterListed engine (PluginTree.flattenAll trees) call.method (guarded call.options call.method)) ⟨s, []⟩ := by
  have hbuilt : PluginTree.buildAll NamedPlugin.watched trees ≠ [] := by
    cases trees with
    | nil => exact absurd rfl h
    | cons tree trees => exact List.cons_ne_nil _ _
  rw [watchedCall_hooked hbuilt]
  change (runBefore (configured trees) _ >>= afterwards _ (configured trees) _) _ = _
  rw [afterwards_configured]
  rfl

theorem watchedCall_listed {plugins : List (NamedPlugin S)} (h : plugins ≠ []) (call : PluginCall) (s : S) :
    watchedCall engine (plugins.map NamedPlugin.watched) moduleId guarded call s =
      (runBefore (listed plugins) (call.context engine moduleId s) >>=
        afterListed engine plugins call.method (guarded call.options call.method)) ⟨s, []⟩ :=
  watchedCall_hooked (mt List.map_eq_nil_iff.mp h) call s

theorem watchedCall_same {call : PluginCall} {s : S} (h : CallTransparent engine trees moduleId guarded call s) :
    watchedCall engine (PluginTree.buildAll NamedPlugin.watched trees) moduleId guarded call s =
      watchedCall engine ((PluginTree.flattenAll trees).map NamedPlugin.watched) moduleId guarded call s := by
  by_cases htrees : trees = []
  · subst htrees
    rfl
  rw [watchedCall_configured htrees]
  by_cases hplugins : PluginTree.flattenAll trees = []
  · have hunhooked : Unhooked (PluginTree.flattenAll trees) := hplugins ▸ List.forall_mem_nil _
    rw [hunhooked.configured, pure_bind, hplugins]
    exact afterListed_nil _ s [] (h.2 hplugins htrees)
  · rw [watchedCall_listed hplugins]
    exact run_of_transparent run_of_unseen [] h.1

theorem callTransparent_of_observe {call : PluginCall} {s : S}
    (h : Proc.observe (watchedCall engine (PluginTree.buildAll NamedPlugin.watched trees) moduleId guarded call s) =
      Proc.observe (watchedCall engine ((PluginTree.flattenAll trees).map NamedPlugin.watched) moduleId guarded
        call s)) :
    CallTransparent engine trees moduleId guarded call s := by
  by_cases htrees : trees = []
  · subst htrees
    exact ⟨trivial, fun _ hne => absurd rfl hne⟩
  rw [watchedCall_configured htrees] at h
  by_cases hplugins : PluginTree.flattenAll trees = []
  · have hunhooked : Unhooked (PluginTree.flattenAll trees) := hplugins ▸ List.forall_mem_nil _
    rw [hunhooked.configured, pure_bind, hplugins] at h
    exact ⟨transparent_of_unhooked hunhooked _ s, fun _ _ => observe_afterListed_nil h⟩
  · rw [watchedCall_listed hplugins] at h
    exact ⟨transparent_of_observe afterListed_grows unseen_of_observe h, fun hnil => absurd hnil hplugins⟩

/-- However plugins are composed, calls go as with the plugins in one list exactly when in every call
no hook of a composition leaves out a context that would be seen elsewhere. -/
theorem composed_calls_iff (engine : Engine S) (trees : List (PluginTree S)) (moduleId : String)
    (guarded : JsArg → String → List JsArg → Proc S Thrown JsArg) (calls : List PluginCall) (s : S) :
    watchedCalls engine (PluginTree.buildAll NamedPlugin.watched trees) moduleId guarded calls s =
        watchedCalls engine ((PluginTree.flattenAll trees).map NamedPlugin.watched) moduleId guarded calls s ↔
      CallsTransparent engine trees moduleId guarded calls s := by
  induction calls generalizing s with
  | nil => exact iff_of_true rfl trivial
  | cons call calls ih =>
    rw [watchedCalls, watchedCalls, CallsTransparent, ← ih, List.cons.injEq]
    constructor
    · rintro ⟨hcall, hcalls⟩
      have htransparent := callTransparent_of_observe hcall
      rw [watchedCall_same htransparent] at hcalls
      exact ⟨htransparent, hcalls⟩
    · rintro ⟨htransparent, hcalls⟩
      rw [watchedCall_same htransparent]
      exact ⟨rfl, hcalls⟩

end Watched

/-- It takes the arguments away. -/
def clearing : NamedPlugin Unit where
  name := "clearing"
  beforeCall := some fun context => pure (context.map fun context => { context with args := [] })
  afterCall := none
  onError := none

/-- It looks at the context and returns nothing. -/
def looking : NamedPlugin Unit where
  name := "looking"
  beforeCall := some fun _ => pure none
  afterCall := none
  onError := none

/-- In a list the module gets no arguments; composed, it gets those of the call. -/
theorem composed_calls_fails :
    watchedCalls scriptEngine
        (PluginTree.buildAll NamedPlugin.watched [.composed [.plugin clearing, .plugin looking]]) "compute"
        (fun _ _ args => pure (.array args)) [⟨"sum", [.null], .undefined⟩] () ≠
      watchedCalls scriptEngine ([clearing, looking].map NamedPlugin.watched) "compute"
        (fun _ _ args => pure (.array args)) [⟨"sum", [.null], .undefined⟩] () := by
  intro h
  cases h

end CrossNative.Bridge
