import CrossNative.Basis.Transition
import Mathlib.Data.List.Chain

/-!
# Loads and disposals on one bridge

`NativeBridge.loadModule` is suspended while the backend starts and again while it loads; any
other load, the disposal of a handle, and `dispose` of the bridge itself may run in between.
-/

namespace CrossNative.Bridge

set_option autoImplicit false

open Basis

structure Handle where
  name : String
  disposed : Bool
  deriving DecidableEq, Repr

/-- `assertLive`, the first thing a call does. -/
def Handle.assertLive (handle : Handle) : Except String Unit :=
  if handle.disposed then .error ("Module '" ++ handle.name ++ "' has been disposed") else .ok ()

/-- What `backend.load` answers with: the names in the manifest, none for a document whose
name is no string. -/
structure LoadAnswer where
  names : List (Option String)
  deriving DecidableEq, Repr

/-- `createHandle` and `buildCallables` throw at the first document without a name. -/
def LoadAnswer.named (reply : LoadAnswer) : Bool := reply.names.all Option.isSome

/-- What the backend is asked for under one name: successful loads and unloads. -/
inductive BackendEvent
  | loaded
  | unload
  deriving DecidableEq, Repr

/-- The `modules` map, and the handles the bridge has made. -/
structure ModuleCache where
  modules : String → Option Nat
  /-- The keys of `modules` in insertion order. -/
  keys : List String
  handles : Nat → Option Handle
  handleCount : Nat
  /-- The events under a name, latest first. -/
  history : String → List BackendEvent
  /-- The handles `loadModule` has returned since the last disposal of the name. -/
  returned : String → List Nat

namespace ModuleCache

def empty : ModuleCache where
  modules := fun _ => none
  keys := []
  handles := fun _ => none
  handleCount := 0
  history := fun _ => []
  returned := fun _ => []

def hand (s : ModuleCache) (name : String) (h : Nat) : ModuleCache :=
  { s with returned := Function.update s.returned name (h :: s.returned name) }

/-- `createHandle` and `modules.set`. -/
def store (s : ModuleCache) (name : String) : ModuleCache :=
  { s with
    handles := Function.update s.handles s.handleCount (some ⟨name, false⟩)
    handleCount := s.handleCount + 1
    modules := Function.update s.modules name (some s.handleCount)
    keys := if name ∈ s.keys then s.keys else s.keys ++ [name]
    history := Function.update s.history name (.loaded :: s.history name) }

/-- `backend.load` has succeeded, and `createHandle` throws. -/
def abandon (s : ModuleCache) (name : String) : ModuleCache :=
  { s with history := Function.update s.history name (.loaded :: s.history name) }

/-- `dispose` of a handle. -/
def disposeHandle (s : ModuleCache) (h : Nat) : ModuleCache :=
  match s.handles h with
  | some ⟨name, false⟩ =>
    { s with
      handles := Function.update s.handles h (some ⟨name, true⟩)
      modules := Function.update s.modules name none
      keys := s.keys.erase name
      history := Function.update s.history name (.unload :: s.history name)
      returned := Function.update s.returned name [] }
  | _ => s

def disposeKey (s : ModuleCache) (name : String) : ModuleCache :=
  match s.modules name with
  | some h => s.disposeHandle h
  | none => s

/-- The loop of `NativeBridge.dispose`, and `modules.clear()`. -/
def disposeAll (s : ModuleCache) : ModuleCache :=
  { s.keys.foldl disposeKey s with modules := fun _ => none, keys := [] }

/-- What is stored is what is alive, and what the callers hold. -/
structure Exact (s : ModuleCache) : Prop where
  stored : ∀ name h, s.modules name = some h → s.handles h = some ⟨name, false⟩
  live : ∀ name h, s.handles h = some ⟨name, false⟩ → s.modules name = some h
  listed : ∀ name h, s.modules name = some h → name ∈ s.keys
  fresh : ∀ h, s.handleCount ≤ h → s.handles h = none
  latest : ∀ name, (s.history name).head? = some .loaded ↔ (s.modules name).isSome
  once : ∀ name, (s.history name).IsChain fun later earlier => ¬ (later = .loaded ∧ earlier = .loaded)
  shared : ∀ name, ∀ h ∈ s.returned name, s.modules name = some h

variable {s : ModuleCache} {name : String} {h : Nat}

theorem exact_empty : Exact empty := by
  constructor <;> simp [empty]

theorem Exact.hand (hs : Exact s) (hstored : s.modules name = some h) : Exact (s.hand name h) := by
  refine ⟨hs.stored, hs.live, hs.listed, hs.fresh, hs.latest, hs.once, ?_⟩
  intro name' h' hmem
  by_cases heq : name' = name
  · subst heq
    simp only [ModuleCache.hand, Function.update_self] at hmem
    rcases List.mem_cons.mp hmem with rfl | hmem
    · exact hstored
    · exact hs.shared name' h' hmem
  · simp only [ModuleCache.hand, Function.update_of_ne heq] at hmem
    exact hs.shared name' h' hmem

theorem Exact.store (hs : Exact s) (hnone : s.modules name = none) : Exact (s.store name) := by
  have hnew : s.handles s.handleCount = none := hs.fresh _ (Nat.le_refl _)
  refine ⟨?_, ?_, ?_, ?_, ?_, ?_, ?_⟩
  · intro name' h' hstored
    rcases update_cases hstored with ⟨rfl, heq⟩ | ⟨hne, hstored⟩
    · cases heq
      exact Function.update_self _ _ _
    · have hhandle := hs.stored name' h' hstored
      have hne' : h' ≠ s.handleCount := by
        intro heq
        rw [heq, hnew] at hhandle
        cases hhandle
      exact (Function.update_of_ne hne' _ _).trans hhandle
  · intro name' h' hlive
    rcases update_cases hlive with ⟨rfl, heq⟩ | ⟨_, hlive⟩
    · cases heq
      exact Function.update_self _ _ _
    · have hstored := hs.live name' h' hlive
      have hne : name' ≠ name := by
        intro heq
        rw [heq, hnone] at hstored
        cases hstored
      exact (Function.update_of_ne hne _ _).trans hstored
  · intro name' h' hstored
    simp only [ModuleCache.store]
    rcases update_cases hstored with ⟨rfl, _⟩ | ⟨_, hstored⟩
    · split
      · assumption
      · exact List.mem_append_right _ (List.mem_singleton.mpr rfl)
    · have hlisted := hs.listed name' h' hstored
      split
      · exact hlisted
      · exact List.mem_append_left _ hlisted
  · intro h' hle
    have hlt : s.handleCount < h' := hle
    exact (Function.update_of_ne (Nat.ne_of_gt hlt) _ _).trans (hs.fresh h' (Nat.le_of_lt hlt))
  · intro name'
    by_cases heq : name' = name
    · subst heq
      simp [ModuleCache.store]
    · simp only [ModuleCache.store, Function.update_of_ne heq]
      exact hs.latest name'
  · intro name'
    by_cases heq : name' = name
    · subst heq
      simp only [ModuleCache.store, Function.update_self]
      refine List.isChain_cons.mpr ⟨?_, hs.once name'⟩
      rintro event hhead ⟨_, rfl⟩
      have hsome := (hs.latest name').mp hhead
      rw [hnone] at hsome
      cases hsome
    · simp only [ModuleCache.store, Function.update_of_ne heq]
      exact hs.once name'
  · intro name' h' hmem
    have hstored := hs.shared name' h' hmem
    have hne : name' ≠ name := by
      intro heq
      rw [heq, hnone] at hstored
      cases hstored
    exact (Function.update_of_ne hne _ _).trans hstored

/-- Disposing a live handle takes its own name out of the map, and nothing else. -/
theorem disposeHandle_of_live (hlive : s.handles h = some ⟨name, false⟩) :
    s.disposeHandle h = { s with
      handles := Function.update s.handles h (some ⟨name, true⟩)
      modules := Function.update s.modules name none
      keys := s.keys.erase name
      history := Function.update s.history name (.unload :: s.history name)
      returned := Function.update s.returned name [] } := by
  unfold disposeHandle
  rw [hlive]

theorem disposeHandle_of_not_live (hlive : ∀ name, s.handles h ≠ some ⟨name, false⟩) :
    s.disposeHandle h = s := by
  unfold disposeHandle
  split
  · rename_i name hname
    exact absurd hname (hlive name)
  · rfl

theorem Exact.disposeHandle (hs : Exact s) (h : Nat) : Exact (s.disposeHandle h) := by
  by_cases hlive : ∃ name, s.handles h = some ⟨name, false⟩
  · obtain ⟨name, hlive⟩ := hlive
    rw [disposeHandle_of_live hlive]
    have hstored := hs.live name h hlive
    have hother : ∀ name' h', name' ≠ name → s.modules name' = some h' → h' ≠ h := by
      intro name' h' hne hstored' heq
      have hhandle := hs.stored name' h' hstored'
      rw [heq, hlive] at hhandle
      cases hhandle
      exact hne rfl
    refine ⟨?_, ?_, ?_, ?_, ?_, ?_, ?_⟩
    · intro name' h' hstored'
      rcases update_cases hstored' with ⟨_, heq⟩ | ⟨hne, hstored'⟩
      · cases heq
      · exact (Function.update_of_ne (hother name' h' hne hstored') _ _).trans
          (hs.stored name' h' hstored')
    · intro name' h' hlive'
      rcases update_cases hlive' with ⟨_, heq⟩ | ⟨hne, hlive'⟩
      · cases heq
      · have hstored' := hs.live name' h' hlive'
        have hne' : name' ≠ name := by
          rintro rfl
          exact hne (Option.some.inj (hstored'.symm.trans hstored))
        exact (Function.update_of_ne hne' _ _).trans hstored'
    · intro name' h' hstored'
      rcases update_cases hstored' with ⟨_, heq⟩ | ⟨hne, hstored'⟩
      · cases heq
      · exact (List.mem_erase_of_ne hne).mpr (hs.listed name' h' hstored')
    · intro h' hle
      have hne : h' ≠ h := by
        rintro rfl
        rw [hs.fresh h' hle] at hlive
        cases hlive
      exact (Function.update_of_ne hne _ _).trans (hs.fresh h' hle)
    · intro name'
      by_cases heq : name' = name
      · subst heq
        simp
      · simp only [Function.update_of_ne heq]
        exact hs.latest name'
    · intro name'
      by_cases heq : name' = name
      · subst heq
        simp only [Function.update_self]
        refine List.isChain_cons.mpr ⟨?_, hs.once name'⟩
        rintro event _ ⟨heq, _⟩
        cases heq
      · simp only [Function.update_of_ne heq]
        exact hs.once name'
    · intro name' h' hmem
      by_cases heq : name' = name
      · subst heq
        simp only [Function.update_self] at hmem
        cases hmem
      · simp only [Function.update_of_ne heq] at hmem ⊢
        exact hs.shared name' h' hmem
  · rw [disposeHandle_of_not_live fun name hname => hlive ⟨name, hname⟩]
    exact hs

/-- The live handles of other names are not touched. -/
theorem Exact.disposeHandle_other (hs : Exact s) {h' : Nat} (hne : h ≠ h')
    (hlive : s.handles h' = some ⟨name, false⟩) :
    (s.disposeHandle h).modules name = some h' ∧
      (s.disposeHandle h).history name = s.history name := by
  have hstored := hs.live name h' hlive
  by_cases hother : ∃ name', s.handles h = some ⟨name', false⟩
  · obtain ⟨name', hother⟩ := hother
    have hname : name ≠ name' := by
      rintro rfl
      exact hne (Option.some.inj ((hs.live name h hother).symm.trans hstored))
    rw [disposeHandle_of_live hother]
    exact ⟨(Function.update_of_ne hname _ _).trans hstored, Function.update_of_ne hname _ _⟩
  · rw [disposeHandle_of_not_live fun name' hname => hother ⟨name', hname⟩]
    exact ⟨hstored, rfl⟩

theorem disposeHandle_modules (s : ModuleCache) (h : Nat) (name : String) :
    (s.disposeHandle h).modules name = none ∨ (s.disposeHandle h).modules name = s.modules name := by
  unfold disposeHandle
  split
  · rename_i name' _
    by_cases heq : name = name'
    · subst heq
      exact Or.inl (Function.update_self _ _ _)
    · exact Or.inr (Function.update_of_ne heq _ _)
  · exact Or.inr rfl

theorem Exact.disposeKey (hs : Exact s) (key : String) :
    Exact (s.disposeKey key) ∧ (s.disposeKey key).modules key = none ∧
      ∀ name, s.modules name = none → (s.disposeKey key).modules name = none := by
  unfold ModuleCache.disposeKey
  cases hkey : s.modules key with
  | none => exact ⟨hs, hkey, fun _ hnone => hnone⟩
  | some h =>
    refine ⟨hs.disposeHandle h, ?_, ?_⟩
    · dsimp only
      rw [disposeHandle_of_live (hs.stored key h hkey)]
      exact Function.update_self _ _ _
    · intro name hnone
      rcases disposeHandle_modules s h name with hmodules | hmodules
      · exact hmodules
      · exact hmodules.trans hnone

theorem Exact.foldl_disposeKey (hs : Exact s) (keys : List String) :
    Exact (keys.foldl ModuleCache.disposeKey s) ∧
      ∀ name, name ∈ keys ∨ s.modules name = none →
        (keys.foldl ModuleCache.disposeKey s).modules name = none := by
  induction keys generalizing s with
  | nil => exact ⟨hs, fun name hname => hname.resolve_left List.not_mem_nil⟩
  | cons key keys ih =>
    obtain ⟨hkey, hgone, hkeeps⟩ := hs.disposeKey key
    obtain ⟨hrest, hnone⟩ := ih hkey
    refine ⟨hrest, ?_⟩
    intro name hname
    apply hnone
    rcases hname with hmem | hname
    · rcases List.mem_cons.mp hmem with rfl | hmem
      · exact Or.inr hgone
      · exact Or.inl hmem
    · exact Or.inr (hkeeps name hname)

theorem Exact.disposeAll (hs : Exact s) : Exact s.disposeAll := by
  obtain ⟨hexact, hnone⟩ := hs.foldl_disposeKey s.keys
  have hmodules : ∀ name, (s.keys.foldl ModuleCache.disposeKey s).modules name = none := by
    intro name
    apply hnone
    cases hname : s.modules name with
    | none => exact Or.inr rfl
    | some h => exact Or.inl (hs.listed name h hname)
  refine ⟨?_, ?_, ?_, hexact.fresh, ?_, hexact.once, ?_⟩
  · intro name h hstored
    cases hstored
  · intro name h hlive
    have hstored := hexact.live name h hlive
    rw [hmodules name] at hstored
    cases hstored
  · intro name h hstored
    cases hstored
  · intro name
    have hlatest := hexact.latest name
    rw [hmodules name] at hlatest
    exact hlatest
  · intro name h hmem
    have hstored := hexact.shared name h hmem
    rw [hmodules name] at hstored
    cases hstored

end ModuleCache

/-- Where a call of `loadModule` stands. -/
inductive LoadState
  /-- It awaits `this.initializing`, the promise of that number. -/
  | initializing (promise : Nat)
  /-- `initialize` has returned. -/
  | resuming
  /-- It awaits `backend.load`. -/
  | loading
  | returned (handle : Nat)
  | failed
  deriving DecidableEq, Repr

structure Load where
  name : String
  state : LoadState
  deriving DecidableEq, Repr

structure NativeBridge extends ModuleCache where
  /-- Whether the options name a backend, and whether JSI is there. -/
  given : Bool
  jsiAvailable : Bool
  /-- Whether `this.backend` is set. -/
  backend : Bool
  initializing : Option Nat
  /-- How the promises of `createBackend` have been settled. -/
  created : Nat → Option Bool
  creations : Nat
  ownsBackend : Bool
  loads : Nat → Option Load
  loadCount : Nat
  /-- Calls of `dispose` that await `backend.dispose`. -/
  closing : Nat
  /-- `dispose` has been called. -/
  tornDown : Bool

namespace NativeBridge

def create (given jsiAvailable : Bool) : NativeBridge where
  toModuleCache := .empty
  given := given
  jsiAvailable := jsiAvailable
  backend := false
  initializing := none
  created := fun _ => none
  creations := 0
  ownsBackend := false
  loads := fun _ => none
  loadCount := 0
  closing := 0
  tornDown := false

def setLoad (s : NativeBridge) (k : Nat) (load : Load) : NativeBridge :=
  { s with loads := Function.update s.loads k (some load) }

/-- `createBackend`, up to its first await. -/
def createBackend (s : NativeBridge) : NativeBridge :=
  { s with
    initializing := some s.creations
    creations := s.creations + 1
    ownsBackend := s.ownsBackend || (!s.given && s.jsiAvailable) }

/-- `loadModule`, up to its first await. -/
def loadModule (s : NativeBridge) (name : String) : NativeBridge :=
  let t := { s with loadCount := s.loadCount + 1 }
  if s.backend then t.setLoad s.loadCount ⟨name, .resuming⟩
  else
    match s.initializing with
    | some promise => t.setLoad s.loadCount ⟨name, .initializing promise⟩
    | none => t.createBackend.setLoad s.loadCount ⟨name, .initializing s.creations⟩

/-- The end of `initialize`. -/
def initialized (s : NativeBridge) (k : Nat) (name : String) (ok : Bool) : NativeBridge :=
  if ok then { s with backend := true, initializing := none }.setLoad k ⟨name, .resuming⟩
  else { s with initializing := none }.setLoad k ⟨name, .failed⟩

/-- `loadModule` between its two awaits: the cache, then `backend.load`, which throws if
`this.backend` has become null. -/
def resume (s : NativeBridge) (k : Nat) (name : String) : NativeBridge :=
  match s.modules name with
  | some h => { s with toModuleCache := s.hand name h }.setLoad k ⟨name, .returned h⟩
  | none => s.setLoad k ⟨name, if s.backend then .loading else .failed⟩

/-- The end of `loadModule`, with the answer of `backend.load`. -/
def loaded (s : NativeBridge) (k : Nat) (name : String) (answer : Option LoadAnswer) : NativeBridge :=
  match answer with
  | none => s.setLoad k ⟨name, .failed⟩
  | some reply =>
    if reply.named then
      { s with toModuleCache := (s.store name).hand name s.handleCount }.setLoad k
        ⟨name, .returned s.handleCount⟩
    else { s with toModuleCache := s.abandon name }.setLoad k ⟨name, .failed⟩

/-- `dispose`, up to the await of `backend.dispose`. -/
def dispose (s : NativeBridge) : NativeBridge :=
  let t := { s with toModuleCache := s.disposeAll, tornDown := true }
  if s.ownsBackend then { t with closing := t.closing + 1 } else { t with backend := false }

end NativeBridge

inductive BridgeAction
  | loadModule (name : String)
  | created (promise : Nat) (ok : Bool)
  | initialized (k : Nat)
  | resume (k : Nat)
  | loaded (k : Nat) (answer : Option LoadAnswer)
  | disposeHandle (h : Nat)
  | dispose
  /-- The rest of `dispose`, after `backend.dispose`. -/
  | closed

namespace NativeBridge

/-- `createBackend` succeeds with a given backend, and fails with neither that nor JSI. -/
def canCreate (s : NativeBridge) (ok : Bool) : Bool :=
  if s.given then ok else s.jsiAvailable || !ok

def step (s : NativeBridge) : BridgeAction → Option NativeBridge
  | .loadModule name => some (s.loadModule name)
  | .created promise ok =>
    if promise < s.creations ∧ s.created promise = none ∧ s.canCreate ok then
      some { s with created := Function.update s.created promise (some ok) }
    else none
  | .initialized k =>
    match s.loads k with
    | some ⟨name, .initializing promise⟩ => (s.created promise).map (s.initialized k name)
    | _ => none
  | .resume k =>
    match s.loads k with
    | some ⟨name, .resuming⟩ => some (s.resume k name)
    | _ => none
  | .loaded k answer =>
    match s.loads k with
    | some ⟨name, .loading⟩ => some (s.loaded k name answer)
    | _ => none
  | .disposeHandle h =>
    if (s.handles h).isSome then
      some { s with toModuleCache := s.toModuleCache.disposeHandle h }
    else none
  | .dispose => some s.dispose
  | .closed => if 0 < s.closing then some { s with closing := s.closing - 1, backend := false } else none

/-- `backend.load` succeeds only with a name in every document of the manifest, and while no
handle is stored under the name of the module. -/
def Unstored (s : NativeBridge) : BridgeAction → Prop
  | .loaded k (some reply) =>
    reply.named = true ∧ ∀ load, s.loads k = some load → s.modules load.name = none
  | _ => True

/-- And not after the bridge has been disposed. -/
def Undisposed (s : NativeBridge) (a : BridgeAction) : Prop :=
  s.Unstored a ∧ ∀ k reply, a = .loaded k (some reply) → s.tornDown = false

/-- What a step does to the map and the handles. -/
inductive CacheStep (s : NativeBridge) : BridgeAction → ModuleCache → Prop
  | same (a : BridgeAction) (hother : a ≠ .dispose) : CacheStep s a s.toModuleCache
  | cached (k : Nat) (name : String) (h : Nat) (hstored : s.modules name = some h) :
      CacheStep s (.resume k) (s.hand name h)
  | loaded (k : Nat) (name : String) (reply : LoadAnswer) (hload : s.loads k = some ⟨name, .loading⟩)
      (hnamed : reply.named = true) :
      CacheStep s (.loaded k (some reply)) ((s.store name).hand name s.handleCount)
  | abandoned (k : Nat) (name : String) (reply : LoadAnswer) (hnamed : reply.named = false) :
      CacheStep s (.loaded k (some reply)) (s.abandon name)
  | disposed (h : Nat) : CacheStep s (.disposeHandle h) (s.toModuleCache.disposeHandle h)
  | cleared : CacheStep s .dispose s.disposeAll

variable {s t : NativeBridge}

theorem step_cache {a : BridgeAction} (hstep : s.step a = some t) :
    CacheStep s a t.toModuleCache ∧ (t.tornDown = true ↔ s.tornDown = true ∨ a = .dispose) := by
  cases a with
  | loadModule name =>
    cases hstep
    unfold loadModule
    split
    · exact ⟨.same _ (by simp), by simp [setLoad]⟩
    · split
      · exact ⟨.same _ (by simp), by simp [setLoad]⟩
      · exact ⟨.same _ (by simp), by simp [setLoad, createBackend]⟩
  | created promise ok =>
    obtain ⟨_, heq⟩ := Option.ite_none_right_eq_some.mp hstep
    cases heq
    exact ⟨.same _ (by simp), by simp⟩
  | initialized k =>
    simp only [step] at hstep
    split at hstep
    · obtain ⟨ok, _, rfl⟩ := Option.map_eq_some_iff.mp hstep
      cases ok <;> exact ⟨.same _ (by simp), by simp [initialized, setLoad]⟩
    · cases hstep
  | resume k =>
    simp only [step] at hstep
    split at hstep
    · rename_i name _
      cases hstep
      unfold resume
      cases hname : s.modules name with
      | none => exact ⟨.same _ (by simp), by simp [setLoad]⟩
      | some h => exact ⟨.cached k name h hname, by simp [setLoad]⟩
    · cases hstep
  | loaded k answer =>
    simp only [step] at hstep
    split at hstep
    · rename_i name hload
      cases hstep
      cases answer with
      | none => exact ⟨.same _ (by simp), by simp [loaded, setLoad]⟩
      | some reply =>
        simp only [loaded]
        by_cases hnamed : reply.named = true
        · rw [if_pos hnamed]
          exact ⟨.loaded k name reply hload hnamed, by simp [setLoad]⟩
        · rw [if_neg hnamed]
          exact ⟨.abandoned k name reply (Bool.eq_false_iff.mpr hnamed), by simp [setLoad]⟩
    · cases hstep
  | disposeHandle h =>
    obtain ⟨_, heq⟩ := Option.ite_none_right_eq_some.mp hstep
    cases heq
    exact ⟨.disposed h, by simp⟩
  | dispose =>
    cases hstep
    unfold dispose
    cases s.ownsBackend with
    | true => exact ⟨.cleared, by simp⟩
    | false => exact ⟨.cleared, by simp⟩
  | closed =>
    obtain ⟨_, heq⟩ := Option.ite_none_right_eq_some.mp hstep
    cases heq
    exact ⟨.same _ (by simp), by simp⟩

theorem exact_step {a : BridgeAction} (hs : s.toModuleCache.Exact) (hallowed : s.Unstored a)
    (hstep : s.step a = some t) : t.toModuleCache.Exact := by
  obtain ⟨hcache, _⟩ := step_cache hstep
  generalize t.toModuleCache = cache at hcache
  cases hcache with
  | same => exact hs
  | cached k name h hstored => exact hs.hand hstored
  | loaded k name reply hload =>
    have hnone : s.modules name = none := hallowed.2 _ hload
    exact (hs.store hnone).hand (Function.update_self _ _ _)
  | abandoned k name reply hunnamed =>
    have hnamed : reply.named = true := hallowed.1
    rw [hunnamed] at hnamed
    cases hnamed
  | disposed h => exact hs.disposeHandle h
  | cleared => exact hs.disposeAll

/-- The answer for a module of one function. -/
def sampleReply : LoadAnswer := ⟨[some "sum"]⟩

/-- Two loads of one name, one after the other. -/
def reused : List BridgeAction :=
  [.loadModule "m", .created 0 true, .initialized 0, .resume 0, .loaded 0 (some sampleReply), .loadModule "m",
    .resume 1]

theorem reused_meets : Meets step Unstored (create true false) reused := by
  refine .cons trivial rfl ?_
  refine .cons trivial rfl ?_
  refine .cons trivial rfl ?_
  refine .cons trivial rfl ?_
  refine .cons ⟨rfl, fun load _ => rfl⟩ rfl ?_
  refine .cons trivial rfl ?_
  exact ⟨trivial, fun _ _ => trivial⟩

structure Closed (s : NativeBridge) : Prop extends s.toModuleCache.Exact where
  emptied : s.tornDown = true → ∀ name, s.modules name = none

theorem closed_create (given jsiAvailable : Bool) : Closed (create given jsiAvailable) where
  toExact := ModuleCache.exact_empty
  emptied := fun _ _ => rfl

theorem Closed.step {a : BridgeAction} (hs : Closed s) (hallowed : s.Undisposed a)
    (hstep : s.step a = some t) : Closed t := by
  obtain ⟨hunstored, hopen⟩ := hallowed
  obtain ⟨hcache, htorn⟩ := step_cache hstep
  refine ⟨exact_step hs.toExact hunstored hstep, ?_⟩
  intro ht name
  have hor := htorn.mp ht
  generalize t.toModuleCache = cache at hcache
  cases hcache with
  | same _ hother => exact hs.emptied (hor.resolve_right hother) name
  | cached k name' h hstored => exact hs.emptied (hor.resolve_right (by simp)) name
  | loaded k name' reply =>
    have hfalse := hopen k reply rfl
    exact absurd (hor.resolve_right (by simp)) (by simp [hfalse])
  | abandoned k name' reply => exact hs.emptied (hor.resolve_right (by simp)) name
  | disposed h =>
    have hnone := hs.emptied (hor.resolve_right (by simp)) name
    rcases ModuleCache.disposeHandle_modules s.toModuleCache h name with hmodules | hmodules
    · exact hmodules
    · exact hmodules.trans hnone
  | cleared => rfl

theorem tornDown_of_dispose (actions : List BridgeAction) {given jsiAvailable : Bool}
    (hmeets : Meets step Undisposed (create given jsiAvailable) actions)
    (hrun : runAll step (create given jsiAvailable) actions = some s) (hmem : .dispose ∈ actions) :
    s.tornDown = true := by
  refine runAll_reached (I := Closed) (P := fun s => s.tornDown = true) (Q := fun a => a = .dispose)
    ?_ ?_ ?_ actions (closed_create given jsiAvailable) hmeets hrun (Or.inr ⟨_, hmem, rfl⟩)
  · intro s a t hs hallowed hstep
    exact hs.step hallowed hstep
  · intro s a t _ ha hstep
    exact (step_cache hstep).2.mpr (Or.inr ha)
  · intro s a t htorn hstep
    exact (step_cache hstep).2.mpr (Or.inl htorn)

/-- An event that is not the latest has been followed by an unload. -/
theorem unload_of_latest {history later earlier : List BackendEvent}
    (hlatest : history.head? ≠ some .loaded) (hsplit : history = later ++ .loaded :: earlier) :
    .unload ∈ later := by
  cases later with
  | nil =>
    rw [hsplit] at hlatest
    exact absurd rfl hlatest
  | cons event later =>
    cases event with
    | unload => exact List.mem_cons_self
    | loaded =>
      rw [hsplit] at hlatest
      exact absurd rfl hlatest

def finished : List BridgeAction :=
  [.loadModule "m", .created 0 true, .initialized 0, .resume 0, .loaded 0 (some sampleReply), .dispose]

theorem finished_meets : Meets step Undisposed (create true false) finished := by
  refine .cons ⟨trivial, fun k reply hk => by cases hk⟩ rfl ?_
  refine .cons ⟨trivial, fun k reply hk => by cases hk⟩ rfl ?_
  refine .cons ⟨trivial, fun k reply hk => by cases hk⟩ rfl ?_
  refine .cons ⟨trivial, fun k reply hk => by cases hk⟩ rfl ?_
  refine .cons ⟨⟨rfl, fun load _ => rfl⟩, fun _ _ _ => rfl⟩ rfl ?_
  exact ⟨⟨trivial, fun k reply hk => by cases hk⟩, fun _ _ => trivial⟩

end NativeBridge

end CrossNative.Bridge
