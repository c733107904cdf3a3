import CrossNative.Bridge.NativeBridge

/-!
# Who owns a loaded module

Every `createNativeModule` makes a bridge of its own, but all of them share the backend, where a
module is known by its name. A hook gives its module up when its component goes, and disposes it
once the load has come through.
-/

namespace CrossNative.Bridge

set_option autoImplicit false

open Basis

/-- What a creation asks the backend for: bytes or a file, or a module linked into the app. -/
structure LoadRequest where
  name : String
  linked : Bool
  deriving DecidableEq, Repr

inductive CreationPhase
  | requested
  /-- The runtime has an instance for a WASM load, which is not registered yet. -/
  | stored
  /-- The native load has taken effect, the promise is not resolved yet. -/
  | effective
  | delivered
  | failed
  deriving DecidableEq, Repr

/-- One call of `createNativeModule`. -/
structure Creation where
  request : LoadRequest
  /-- The component whose effect made the call. -/
  component : Option Nat
  phase : CreationPhase
  /-- The caller has disposed the handle, or its component has let go of it. -/
  released : Bool
  /-- `module.dispose()` has run. -/
  disposed : Bool
  /-- The load has taken effect, and no unload of its id after it. -/
  backed : Bool
  deriving DecidableEq, Repr

/-- What is registered under an id. -/
inductive Registered
  | wasm
  | linked
  deriving DecidableEq, Repr

structure Ownership where
  creations : Nat → Option Creation
  count : Nat
  /-- `loadRef.current` of each component. -/
  current : Nat → Option Nat
  /-- `modules_` of the core. -/
  modules : String → Option Registered
  /-- The ids the WASM runtime has an instance for. -/
  entries : String → Bool
  /-- How many replaced WASM modules of an id have not been destroyed yet: a call may hold one. -/
  replaced : String → Nat

def Creation.name (c : Creation) : String := c.request.name

/-- Calls of the id reach a loaded module. -/
def Ownership.Reaches (s : Ownership) (name : String) : Prop :=
  s.modules name = some .linked ∨ s.modules name = some .wasm ∧ s.entries name = true

instance (s : Ownership) (name : String) : Decidable (s.Reaches name) :=
  inferInstanceAs (Decidable (_ ∨ _))

namespace Creation

/-- The module is there, and somebody has it or is going to get it. -/
def Holds (c : Creation) : Prop :=
  (c.phase = .effective ∨ c.phase = .delivered) ∧ c.released = false

/-- The handle has been delivered and not been given up. -/
def Live (c : Creation) : Prop := c.phase = .delivered ∧ c.released = false

end Creation

section Wrapped

variable {s : ModuleCache}

theorem foldl_disposeKey_of_none (keys : List String) (h : ∀ name, s.modules name = none) :
    keys.foldl ModuleCache.disposeKey s = s := by
  induction keys with
  | nil => rfl
  | cons key keys ih =>
    have hkey : s.disposeKey key = s := by
      unfold ModuleCache.disposeKey
      rw [h key]
    rw [List.foldl_cons, hkey, ih]

/-- On the bridge of one creation, `module.dispose()` and then `bridge.dispose()` ask for one
unload. -/
theorem history_of_wrapped_dispose {name : String} {h : Nat}
    (hlive : s.handles h = some ⟨name, false⟩)
    (honly : ∀ name', name' ≠ name → s.modules name' = none) :
    (s.disposeHandle h).disposeAll.history =
      Function.update s.history name (.unload :: s.history name) := by
  have hnone : ∀ name', (s.disposeHandle h).modules name' = none := by
    intro name'
    by_cases heq : name' = name
    · rw [heq, ModuleCache.disposeHandle_of_live hlive]
      exact Function.update_self _ _ _
    · rcases ModuleCache.disposeHandle_modules s h name' with hmodules | hmodules
      · exact hmodules
      · exact hmodules.trans (honly name' heq)
  rw [ModuleCache.disposeAll, foldl_disposeKey_of_none _ hnone,
    ModuleCache.disposeHandle_of_live hlive]

end Wrapped

namespace Ownership

def empty : Ownership where
  creations := fun _ => none
  count := 0
  current := fun _ => none
  modules := fun _ => none
  entries := fun _ => false
  replaced := fun _ => 0

def set (s : Ownership) (k : Nat) (c : Creation) : Ownership :=
  { s with creations := Function.update s.creations k (some c) }

/-- `createNativeModule` up to `backend.load`. -/
def create (s : Ownership) (request : LoadRequest) (component : Option Nat) : Ownership :=
  { s.set s.count ⟨request, component, .requested, false, false, false⟩ with count := s.count + 1 }

def release (s : Ownership) (k : Nat) : Ownership :=
  match s.creations k with
  | some c => s.set k { c with released := true }
  | none => s

/-- The effect of the hook. -/
def mount (s : Ownership) (component : Nat) (request : LoadRequest) : Ownership :=
  { s.create request (some component) with
    current := Function.update s.current component (some s.count) }

/-- The cleanup of that effect. -/
def unmount (s : Ownership) (component k : Nat) : Ownership :=
  { s.release k with current := Function.update s.current component none }

/-- A WASM module that is disposed erases the instance the runtime has for its id, whoever
stored it. -/
def evict (s : Ownership) (name : String) : Ownership :=
  { s with entries := Function.update s.entries name false }

/-- `registerModule`: the module that was registered before is dropped, not disposed. -/
def registerModule (s : Ownership) (name : String) (kind : Registered) : Ownership :=
  { s with
    modules := Function.update s.modules name (some kind)
    replaced :=
      if s.modules name = some .wasm then Function.update s.replaced name (s.replaced name + 1)
      else s.replaced }

/-- The destructor of a replaced module disposes it. -/
def destroyReplaced (s : Ownership) (name : String) : Ownership :=
  { s.evict name with replaced := Function.update s.replaced name (s.replaced name - 1) }

/-- `backend.unload`; over JSI it takes effect at once, and the host serves loads and unloads in
the order of their requests. -/
def unload (s : Ownership) (name : String) : Ownership :=
  { (if s.modules name = some .wasm then s.evict name else s) with
    modules := Function.update s.modules name none
    creations := fun k => (s.creations k).map fun c =>
      if c.name = name then { c with backed := false } else c }

/-- `module.dispose()`, then `bridge.dispose()`. -/
def disposeModule (s : Ownership) (k : Nat) (c : Creation) : Ownership :=
  if c.disposed then s
  else (s.set k { c with released := true, disposed := true }).unload c.name

end Ownership

inductive OwnershipAction
  | create (request : LoadRequest)
  | mount (component : Nat) (request : LoadRequest)
  /-- A render with a changed config: the cleanup, then the effect. -/
  | rerender (component : Nat) (request : LoadRequest)
  | unmount (component : Nat)
  /-- `dispose` of the hook's own handle. -/
  | disposeHook (component : Nat)
  /-- `wasmRuntime_->loadModule`. -/
  | loadStore (k : Nat)
  /-- `registerModule`. -/
  | loadEffect (k : Nat)
  | destroyReplaced (name : String)
  /-- The native load fails; or the handle cannot be made, or a plugin throws, after it. -/
  | loadFails (k : Nat)
  | deliver (k : Nat)
  /-- A caller of `createNativeModule` disposes its handle. -/
  | dispose (k : Nat)
  /-- The continuation of a cleanup, or of the hook's `dispose`. -/
  | deferredDispose (k : Nat)

namespace Ownership

def step (s : Ownership) : OwnershipAction → Option Ownership
  | .create request => some (s.create request none)
  | .mount component request =>
    if s.current component = none then some (s.mount component request) else none
  | .rerender component request =>
    (s.current component).map fun k => (s.unmount component k).mount component request
  | .unmount component => (s.current component).map (s.unmount component)
  | .disposeHook component => (s.current component).map s.release
  | .loadStore k =>
    match s.creations k with
    | some c =>
      if c.phase = .requested ∧ c.request.linked = false then
        some { s.set k { c with phase := .stored } with
          entries := Function.update s.entries c.name true }
      else none
    | none => none
  | .loadEffect k =>
    match s.creations k with
    | some c =>
      if c.phase = (if c.request.linked then .requested else .stored) then
        some ((s.set k { c with phase := .effective, backed := true }).registerModule c.name
          (if c.request.linked then .linked else .wasm))
      else none
    | none => none
  | .destroyReplaced name => if 0 < s.replaced name then some (s.destroyReplaced name) else none
  | .loadFails k =>
    match s.creations k with
    | some c =>
      if c.phase = .requested ∨ c.phase = .effective then some (s.set k { c with phase := .failed })
      else none
    | none => none
  | .deliver k =>
    match s.creations k with
    | some c => if c.phase = .effective then some (s.set k { c with phase := .delivered }) else none
    | none => none
  | .dispose k =>
    match s.creations k with
    | some c =>
      if c.phase = .delivered ∧ c.component = none then some (s.disposeModule k c) else none
    | none => none
  | .deferredDispose k =>
    match s.creations k with
    | some c =>
      if c.phase = .delivered ∧ c.released = true then some (s.disposeModule k c) else none
    | none => none

/-- A module is disposed when nobody else has, or is going to get, one of its name. A load begins to
take effect while no WASM module is registered under its name, and no other instance waits for that. -/
def Apart (s : Ownership) : OwnershipAction → Prop
  | .dispose k | .deferredDispose k => ∀ c, s.creations k = some c → c.disposed = false →
      ∀ k' c', k' ≠ k → s.creations k' = some c' → c'.name = c.name → ¬ c'.Holds
  | .loadStore k => ∀ c, s.creations k = some c → s.modules c.name ≠ some .wasm ∧
      ∀ k' c', k' ≠ k → s.creations k' = some c' → c'.name = c.name → c'.phase ≠ .stored
  | .loadEffect k => ∀ c, s.creations k = some c → c.request.linked = true →
      s.modules c.name ≠ some .wasm
  | _ => True

/-- Every module that somebody has is loaded, and has been since its load. An instance that waits
for its registration is the only one of its id that does, and nothing is about to erase it. -/
structure Backed (s : Ownership) : Prop where
  held : ∀ k c, s.creations k = some c → c.Holds → c.backed = true ∧ s.Reaches c.name
  waiting : ∀ k c, s.creations k = some c → c.phase = .stored →
    s.modules c.name ≠ some .wasm ∧ s.entries c.name = true
  single : ∀ k c k' c', s.creations k = some c → s.creations k' = some c' → c.phase = .stored →
    c'.phase = .stored → c.name = c'.name → k = k'
  intact : ∀ name, s.replaced name = 0

theorem backed_empty : Backed empty where
  held k c hc := by cases hc
  waiting k c hc := by cases hc
  single k c k' c' hc := by cases hc
  intact _ := rfl

variable {s t : Ownership}

/-- Where every instance that waits has been waiting under the same name, only one of its id waits. -/
theorem Backed.single_of (h : Backed s)
    (hwaiting : ∀ k c, t.creations k = some c → c.phase = .stored →
      ∃ c₀, s.creations k = some c₀ ∧ c₀.phase = .stored ∧ c₀.name = c.name) :
    ∀ k c k' c', t.creations k = some c → t.creations k' = some c' → c.phase = .stored →
      c'.phase = .stored → c.name = c'.name → k = k' := by
  intro k c k' c' hk hk' hstored hstored' hname
  obtain ⟨d, hd, hphase, hsame⟩ := hwaiting k c hk hstored
  obtain ⟨d', hd', hphase', hsame'⟩ := hwaiting k' c' hk' hstored'
  exact h.single k d k' d' hd hd' hphase hphase' (hsame.trans (hname.trans hsame'.symm))

/-- A creation that is replaced by one that is not waiting, and holds nothing or is backed. -/
theorem Backed.set (h : Backed s) {k : Nat} {c : Creation} (hphase : c.phase ≠ .stored)
    (hc : c.Holds → c.backed = true ∧ s.Reaches c.name) : Backed (s.set k c) := by
  have hkept : ∀ k' c', (s.set k c).creations k' = some c' → c'.phase = .stored →
      s.creations k' = some c' := by
    intro k' c' hk' hstored
    rcases update_cases hk' with ⟨rfl, heq⟩ | ⟨_, hk'⟩
    · cases heq
      exact absurd hstored hphase
    · exact hk'
  refine ⟨?_, ?_, ?_, ?_⟩
  · intro k' c' hk' hholds
    rcases update_cases hk' with ⟨rfl, heq⟩ | ⟨_, hk'⟩
    · cases heq
      exact hc hholds
    · exact h.held k' c' hk' hholds
  · exact fun k' c' hk' hstored => h.waiting k' c' (hkept k' c' hk' hstored) hstored
  · exact h.single_of fun k' c' hk' hstored => ⟨c', hkept k' c' hk' hstored, hstored, rfl⟩
  · exact h.intact

theorem Backed.create (h : Backed s) (request : LoadRequest) (component : Option Nat) :
    Backed (s.create request component) := by
  have hset : Backed (s.set s.count ⟨request, component, .requested, false, false, false⟩) := by
    refine h.set (by simp) ?_
    rintro ⟨hphase | hphase, _⟩
    · cases hphase
    · cases hphase
  exact ⟨hset.held, hset.waiting, hset.single, hset.intact⟩

/-- A creation that is given up keeps its phase. -/
theorem Backed.setReleased (h : Backed s) {k : Nat} {c : Creation} (hk : s.creations k = some c)
    (disposed : Bool) : Backed (s.set k { c with released := true, disposed := disposed }) := by
  have hsame : ∀ k' c', (s.set k { c with released := true, disposed := disposed }).creations k' =
      some c' → ∃ c₀, s.creations k' = some c₀ ∧ c'.phase = c₀.phase ∧ c'.name = c₀.name ∧
        (c'.Holds → c' = c₀) := by
    intro k' c' hk'
    rcases update_cases hk' with ⟨rfl, heq⟩ | ⟨_, hk'⟩
    · cases heq
      refine ⟨c, hk, rfl, rfl, ?_⟩
      rintro ⟨_, hreleased⟩
      cases hreleased
    · exact ⟨c', hk', rfl, rfl, fun _ => rfl⟩
  refine ⟨?_, ?_, ?_, ?_⟩
  · intro k' c' hk' hholds
    obtain ⟨c₀, hk₀, _, _, heq⟩ := hsame k' c' hk'
    obtain rfl := heq hholds
    exact h.held k' c' hk₀ hholds
  · intro k' c' hk' hstored
    obtain ⟨c₀, hk₀, hphase, hname, _⟩ := hsame k' c' hk'
    rw [hname]
    exact h.waiting k' c₀ hk₀ (hphase.symm.trans hstored)
  · refine h.single_of fun k' c' hk' hstored => ?_
    obtain ⟨c₀, hk₀, hphase, hname, _⟩ := hsame k' c' hk'
    exact ⟨c₀, hk₀, hphase.symm.trans hstored, hname.symm⟩
  · exact h.intact

theorem Backed.release (h : Backed s) (k : Nat) : Backed (s.release k) := by
  unfold Ownership.release
  split
  · rename_i c hc
    exact h.setReleased hc c.disposed
  · exact h

theorem Backed.unmount (h : Backed s) (component k : Nat) : Backed (s.unmount component k) := by
  have hrelease := h.release k
  exact ⟨hrelease.held, hrelease.waiting, hrelease.single, hrelease.intact⟩

theorem Backed.mount (h : Backed s) (component : Nat) (request : LoadRequest) :
    Backed (s.mount component request) := by
  have hcreate := h.create request (some component)
  exact ⟨hcreate.held, hcreate.waiting, hcreate.single, hcreate.intact⟩

theorem evict_entries_of_ne (s : Ownership) {name other : String} (hne : other ≠ name) :
    (s.evict name).entries other = s.entries other := Function.update_of_ne hne _ _

/-- A registration or an unload under one name leaves what is reached under another. -/
theorem Reaches.of_same {name : String} (h : s.Reaches name) (hmodules : t.modules name = s.modules name)
    (hentries : t.entries name = s.entries name) : t.Reaches name := by
  rw [Reaches, hmodules, hentries]
  exact h

/-- An unload leaves the other names alone, and an instance that waits for its registration. -/
theorem Backed.unload (h : Backed s) {name : String}
    (hnone : ∀ k c, s.creations k = some c → c.name = name → ¬ c.Holds) : Backed (s.unload name) := by
  have hsame : ∀ k c, (s.unload name).creations k = some c →
      ∃ c₀, s.creations k = some c₀ ∧ c.phase = c₀.phase ∧ c.name = c₀.name ∧ (c.Holds ↔ c₀.Holds) ∧
        (c₀.name ≠ name → c = c₀) := by
    intro k c hk
    obtain ⟨c₀, hk₀, rfl⟩ := Option.map_eq_some_iff.mp hk
    by_cases hname : c₀.name = name
    · rw [if_pos hname]
      exact ⟨c₀, hk₀, rfl, rfl, Iff.rfl, fun hne => absurd hname hne⟩
    · rw [if_neg hname]
      exact ⟨c₀, hk₀, rfl, rfl, Iff.rfl, fun _ => rfl⟩
  have hentries : ∀ other, other ≠ name ∨ s.modules name ≠ some .wasm →
      (s.unload name).entries other = s.entries other := by
    intro other hor
    simp only [Ownership.unload]
    split
    · rename_i hwasm
      exact evict_entries_of_ne s (hor.resolve_right (not_not.mpr hwasm))
    · rfl
  have hreplaced : (s.unload name).replaced = s.replaced := by
    simp only [Ownership.unload]
    split <;> rfl
  refine ⟨?_, ?_, ?_, ?_⟩
  · intro k c hk hholds
    obtain ⟨c₀, hk₀, _, hname, hheld, heq⟩ := hsame k c hk
    have hne : c₀.name ≠ name := fun hsame => hnone k c₀ hk₀ hsame (hheld.mp hholds)
    rw [heq hne] at hholds ⊢
    obtain ⟨hbacked, hreaches⟩ := h.held k c₀ hk₀ hholds
    exact ⟨hbacked, hreaches.of_same (Function.update_of_ne hne _ _) (hentries _ (Or.inl hne))⟩
  · intro k c hk hstored
    obtain ⟨c₀, hk₀, hphase, hname, _, _⟩ := hsame k c hk
    obtain ⟨hmodules, hentry⟩ := h.waiting k c₀ hk₀ (hphase.symm.trans hstored)
    rw [hname]
    by_cases heq : c₀.name = name
    · rw [heq] at hmodules hentry ⊢
      refine ⟨?_, (hentries _ (Or.inr hmodules)).trans hentry⟩
      simp [Ownership.unload]
    · refine ⟨?_, (hentries _ (Or.inl heq)).trans hentry⟩
      simp only [Ownership.unload, Function.update_of_ne heq]
      exact hmodules
  · refine h.single_of fun k' c' hk' hstored => ?_
    obtain ⟨c₀, hk₀, hphase, hname, _⟩ := hsame k' c' hk'
    exact ⟨c₀, hk₀, hphase.symm.trans hstored, hname.symm⟩
  · intro other
    rw [hreplaced]
    exact h.intact other

theorem Backed.disposeModule (h : Backed s) {k : Nat} {c : Creation} (hk : s.creations k = some c)
    (hlast : c.disposed = false →
      ∀ k' c', k' ≠ k → s.creations k' = some c' → c'.name = c.name → ¬ c'.Holds) :
    Backed (s.disposeModule k c) := by
  unfold Ownership.disposeModule
  split
  · exact h
  · rename_i hdisposed
    refine (h.setReleased hk true).unload ?_
    intro k' c' hk' hname
    rcases update_cases hk' with ⟨rfl, heq⟩ | ⟨hne, hk'⟩
    · cases heq
      rintro ⟨_, hreleased⟩
      cases hreleased
    · exact hlast (Bool.eq_false_iff.mpr hdisposed) k' c' hne hk' hname

/-- An instance is stored where none is registered, and none waits. -/
theorem Backed.loadStore (h : Backed s) {k : Nat} {c : Creation} (hwasm : s.modules c.name ≠ some .wasm)
    (hothers : ∀ k' c', k' ≠ k → s.creations k' = some c' → c'.name = c.name → c'.phase ≠ .stored) :
    Backed { s.set k { c with phase := .stored } with
      entries := Function.update s.entries c.name true } := by
  have hkept : ∀ name, s.entries name = true → Function.update s.entries c.name true name = true := by
    intro name hname
    by_cases heq : name = c.name
    · rw [heq]
      exact Function.update_self _ _ _
    · exact (Function.update_of_ne heq _ _).trans hname
  refine ⟨?_, ?_, ?_, ?_⟩
  · intro k' c' hk' hholds
    rcases update_cases hk' with ⟨rfl, heq⟩ | ⟨_, hk'⟩
    · cases heq
      rcases hholds.1 with hphase | hphase <;> cases hphase
    · obtain ⟨hbacked, hreaches⟩ := h.held k' c' hk' hholds
      exact ⟨hbacked, hreaches.imp_right fun hentry => ⟨hentry.1, hkept _ hentry.2⟩⟩
  · intro k' c' hk' hstored
    rcases update_cases hk' with ⟨rfl, heq⟩ | ⟨_, hk'⟩
    · cases heq
      exact ⟨hwasm, Function.update_self _ _ _⟩
    · obtain ⟨hmodules, hentries⟩ := h.waiting k' c' hk' hstored
      exact ⟨hmodules, hkept _ hentries⟩
  · intro k₁ c₁ k₂ c₂ hk₁ hk₂ hs₁ hs₂ hname
    rcases update_cases hk₁ with ⟨rfl, heq₁⟩ | ⟨hne₁, hk₁⟩
    · cases heq₁
      rcases update_cases hk₂ with ⟨rfl, _⟩ | ⟨hne₂, hk₂⟩
      · rfl
      · exact absurd hs₂ (hothers k₂ c₂ hne₂ hk₂ hname.symm)
    · rcases update_cases hk₂ with ⟨heq, heq₂⟩ | ⟨_, hk₂⟩
      · cases heq₂
        exact absurd hs₁ (hothers k₁ c₁ hne₁ hk₁ hname)
      · exact h.single k₁ c₁ k₂ c₂ hk₁ hk₂ hs₁ hs₂ hname
  · exact h.intact

/-- A registration makes its module the one that is reached; a WASM module needs its instance. -/
theorem reaches_registered (s : Ownership) (name : String) {linked : Bool}
    (hentry : linked = false → s.entries name = true) :
    (s.registerModule name (if linked then .linked else .wasm)).Reaches name := by
  cases linked with
  | true => exact Or.inl (Function.update_self _ _ _)
  | false => exact Or.inr ⟨Function.update_self _ _ _, hentry rfl⟩

/-- A registration replaces no WASM module. -/
theorem Backed.loadEffect (h : Backed s) {k : Nat} {c : Creation} (hk : s.creations k = some c)
    (hphase : c.phase = if c.request.linked then .requested else .stored)
    (hlinked : c.request.linked = true → s.modules c.name ≠ some .wasm) :
    Backed ((s.set k { c with phase := .effective, backed := true }).registerModule c.name
      (if c.request.linked then .linked else .wasm)) := by
  have hwaiting : c.request.linked = false → s.modules c.name ≠ some .wasm ∧ s.entries c.name = true := by
    intro hwasm
    rw [hwasm] at hphase
    exact h.waiting k c hk hphase
  have hwasm : s.modules c.name ≠ some .wasm := by
    cases hcase : c.request.linked with
    | true => exact hlinked hcase
    | false => exact (hwaiting hcase).1
  have hreached := reaches_registered (s.set k { c with phase := .effective, backed := true }) c.name
    fun hcase => (hwaiting hcase).2
  refine ⟨?_, ?_, ?_, ?_⟩
  · intro k' c' hk' hholds
    rcases update_cases hk' with ⟨rfl, heq⟩ | ⟨_, hk'⟩
    · cases heq
      exact ⟨rfl, hreached⟩
    · obtain ⟨hbacked, hreaches⟩ := h.held k' c' hk' hholds
      refine ⟨hbacked, ?_⟩
      by_cases hname : c'.name = c.name
      · rw [hname]
        exact hreached
      · exact hreaches.of_same (Function.update_of_ne hname _ _) rfl
  · intro k' c' hk' hstored
    rcases update_cases hk' with ⟨rfl, heq⟩ | ⟨hne, hk'⟩
    · cases heq
      cases hstored
    · obtain ⟨hmodules, hentries⟩ := h.waiting k' c' hk' hstored
      refine ⟨?_, hentries⟩
      by_cases hname : c'.name = c.name
      · -- another instance of the name waits, so this registration is of a linked module
        have hcase : c.request.linked = true := by
          by_contra hcase
          rw [if_neg hcase] at hphase
          exact hne (h.single k' c' k c hk' hk hstored hphase hname)
        simp [registerModule, hname, hcase]
      · simp only [registerModule, Function.update_of_ne hname]
        exact hmodules
  · refine h.single_of fun k' c' hk' hstored => ?_
    rcases update_cases hk' with ⟨rfl, heq⟩ | ⟨_, hk'⟩
    · cases heq
      cases hstored
    · exact ⟨c', hk', hstored, rfl⟩
  · intro name
    have hsame : (s.set k { c with phase := .effective, backed := true }).modules c.name ≠
        some .wasm := hwasm
    simp only [registerModule, if_neg hsame]
    exact h.intact name

theorem Backed.step {a : OwnershipAction} (h : Backed s) (hallowed : s.Apart a)
    (hstep : s.step a = some t) : Backed t := by
  cases a with
  | create request =>
    cases hstep
    exact h.create request none
  | mount component request =>
    obtain ⟨_, heq⟩ := Option.ite_none_right_eq_some.mp hstep
    cases heq
    exact h.mount component request
  | rerender component request =>
    obtain ⟨k, _, rfl⟩ := Option.map_eq_some_iff.mp hstep
    exact (h.unmount component k).mount component request
  | unmount component =>
    obtain ⟨k, _, rfl⟩ := Option.map_eq_some_iff.mp hstep
    exact h.unmount component k
  | disposeHook component =>
    obtain ⟨k, _, rfl⟩ := Option.map_eq_some_iff.mp hstep
    exact h.release k
  | loadStore k =>
    simp only [Ownership.step] at hstep
    split at hstep
    · rename_i c hc
      obtain ⟨_, heq⟩ := Option.ite_none_right_eq_some.mp hstep
      cases heq
      obtain ⟨hwasm, hothers⟩ := hallowed c hc
      exact h.loadStore hwasm hothers
    · cases hstep
  | loadEffect k =>
    simp only [Ownership.step] at hstep
    split at hstep
    · rename_i c hc
      obtain ⟨hphase, heq⟩ := Option.ite_none_right_eq_some.mp hstep
      cases heq
      exact h.loadEffect hc hphase (hallowed c hc)
    · cases hstep
  | destroyReplaced name =>
    obtain ⟨hpos, _⟩ := Option.ite_none_right_eq_some.mp hstep
    exact absurd (h.intact name) (Nat.ne_of_gt hpos)
  | loadFails k =>
    simp only [Ownership.step] at hstep
    split at hstep
    · obtain ⟨_, heq⟩ := Option.ite_none_right_eq_some.mp hstep
      cases heq
      refine h.set (by simp) ?_
      rintro ⟨hphase | hphase, _⟩
      · cases hphase
      · cases hphase
    · cases hstep
  | deliver k =>
    simp only [Ownership.step] at hstep
    split at hstep
    · rename_i c hc
      obtain ⟨hphase, heq⟩ := Option.ite_none_right_eq_some.mp hstep
      cases heq
      refine h.set (by simp) ?_
      rintro ⟨_, hreleased⟩
      exact h.held k c hc ⟨Or.inl hphase, hreleased⟩
    · cases hstep
  | dispose k =>
    simp only [Ownership.step] at hstep
    split at hstep
    · rename_i c hc
      obtain ⟨_, heq⟩ := Option.ite_none_right_eq_some.mp hstep
      cases heq
      exact h.disposeModule hc (hallowed c hc)
    · cases hstep
  | deferredDispose k =>
    simp only [Ownership.step] at hstep
    split at hstep
    · rename_i c hc
      obtain ⟨_, heq⟩ := Option.ite_none_right_eq_some.mp hstep
      cases heq
      exact h.disposeModule hc (hallowed c hc)
    · cases hstep

/-- In a run in which a module is only disposed when nobody else has one of its name, and a load
only takes effect when no WASM module is registered under its name, a live handle is backed by a
loaded module. -/
theorem live_backed (actions : List OwnershipAction)
    (hmeets : Meets step Apart empty actions) (hrun : runAll step empty actions = some s)
    {k : Nat} {c : Creation} (hc : s.creations k = some c) (hlive : c.Live) :
    c.backed = true ∧ s.Reaches c.name := by
  have h : Backed s := by
    apply runAll_invariant _ actions backed_empty hmeets hrun
    intro s a t h hallowed hstep
    exact h.step hallowed hstep
  exact h.held k c hc ⟨Or.inr hlive.1, hlive.2⟩

/-- A module that is loaded from bytes or a file. -/
def sampleRequest : LoadRequest := ⟨"m", false⟩

/-- A component that is mounted, unmounted and mounted again, each time with its load complete. -/
def remounted : List OwnershipAction :=
  [.mount 0 sampleRequest, .loadStore 0, .loadEffect 0, .deliver 0, .unmount 0, .deferredDispose 0,
    .mount 0 sampleRequest, .loadStore 1, .loadEffect 1, .deliver 1]

theorem remounted_meets : Meets step Apart empty remounted := by
  refine .cons trivial rfl ?_
  refine .cons ?_ rfl ?_
  · intro c _
    refine ⟨by simp [mount, create, set, empty], ?_⟩
    intro k' c' hne hk'
    simp [mount, create, set, empty, Function.update_of_ne hne] at hk'
  refine .cons (fun c hc hlinked => by cases hc; cases hlinked) rfl ?_
  refine .cons trivial rfl ?_
  refine .cons trivial rfl ?_
  refine .cons ?_ rfl ?_
  · intro c _ _ k' c' hne hk'
    simp [mount, create, unmount, release, registerModule, set, empty,
      Function.update_of_ne hne] at hk'
  refine .cons trivial rfl ?_
  refine .cons ?_ rfl ?_
  · intro c hc
    cases hc
    refine ⟨by decide, ?_⟩
    intro k' c' hne hk' _ hphase
    rcases k' with _ | _ | k'
    · cases hk'
      cases hphase
    · exact hne rfl
    · cases hk'
  refine .cons (fun c hc hlinked => by cases hc; cases hlinked) rfl ?_
  exact ⟨trivial, fun _ _ => trivial⟩

theorem live_backed_remounted :
    ∃ s, runAll step empty remounted = some s ∧ s.Reaches "m" :=
  ⟨_, rfl, (live_backed remounted remounted_meets rfl (k := 1)
    (c := ⟨sampleRequest, some 0, .delivered, false, false, true⟩) rfl ⟨rfl, rfl⟩).2⟩

/-- Mount, unmount, mount before the first load completes: the deferred dispose of the first
unloads the module of the second. Two plain creations of one name do the same; and without any
dispose the second load replaces the first module, whose destructor erases the new instance. -/
theorem live_not_backed :
    (∃ s, runAll step empty
        [.mount 0 sampleRequest, .unmount 0, .mount 0 sampleRequest, .loadStore 0, .loadEffect 0,
          .loadStore 1, .loadEffect 1, .deliver 1, .deliver 0, .deferredDispose 0] = some s ∧
      s.creations 1 = some ⟨sampleRequest, some 0, .delivered, false, false, false⟩ ∧
      ¬ s.Reaches "m") ∧
    (∃ s, runAll step empty
        [.create ⟨"m", true⟩, .create ⟨"m", true⟩, .loadEffect 0, .loadEffect 1, .deliver 0, .deliver 1,
          .dispose 0] = some s ∧
      s.creations 1 = some ⟨⟨"m", true⟩, none, .delivered, false, false, false⟩ ∧ ¬ s.Reaches "m") ∧
    ∃ s, runAll step empty
        [.create sampleRequest, .create sampleRequest, .loadStore 0, .loadEffect 0, .deliver 0,
          .loadStore 1, .loadEffect 1, .destroyReplaced "m", .deliver 1] = some s ∧
      s.creations 0 = some ⟨sampleRequest, none, .delivered, false, false, true⟩ ∧
      s.creations 1 = some ⟨sampleRequest, none, .delivered, false, false, true⟩ ∧ ¬ s.Reaches "m" :=
  ⟨⟨_, rfl, rfl, by decide⟩, ⟨_, rfl, rfl, by decide⟩, ⟨_, rfl, rfl, rfl, by decide⟩⟩

end Ownership

end CrossNative.Bridge
