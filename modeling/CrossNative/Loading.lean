import CrossNative.Basis.Ledger
import CrossNative.Json
import CrossNative.Registry

/-!
# Loading a module

A load acquires a WAMR module, an instance and an execution environment, and registers the
entry that owns them. A step that fails releases by hand what the entry has got so far and
nulls it, so that the destructor of the entry finds nothing; after the third handle the
destructor releases all of them.
-/

namespace CrossNative

set_option autoImplicit false

open Basis Basis.ResourceEvent

inductive WamrHandle
  | module
  | inst
  | execEnv
  deriving DecidableEq, Repr

def WamrHandle.all : List WamrHandle := [.module, .inst, .execEnv]

/-- The owning part of a `ModuleEntry`: which handles are not null. The entry is named by its
load, and `id` is the key it is stored under. -/
structure EntryHandles where
  id : String
  load : Nat
  module : Bool
  inst : Bool
  execEnv : Bool
  deriving DecidableEq, Repr

namespace EntryHandles

def fresh (id : String) (load : Nat) : EntryHandles := ⟨id, load, false, false, false⟩

def full (id : String) (load : Nat) : EntryHandles := ⟨id, load, true, true, true⟩

/-- `~ModuleEntry`. -/
def destroy (e : EntryHandles) : List (ResourceEvent WamrHandle) :=
  (if e.execEnv then [.released e.load .execEnv] else []) ++
    (if e.inst then [.released e.load .inst] else []) ++
    (if e.module then [.released e.load .module] else [])

@[simp] theorem destroy_full (id : String) (load : Nat) :
    (full id load).destroy = release load WamrHandle.all := rfl

end EntryHandles

/-- What WAMR and the metadata exports answer during one load. -/
structure WamrAnswers where
  load : Except String Unit
  instantiate : Except String Unit
  createExecEnv : Bool
  readManifest : Except Fault Unit

/-- `WasmRuntime::loadModule` up to the registration, on a new entry. -/
def openEntry (answers : WamrAnswers) (entry : EntryHandles) :
    EntryHandles × List (ResourceEvent WamrHandle) × Except Fault Unit :=
  match answers.load with
  | .error reason => (entry, [], .error (.error ("WAMR load failed: " ++ reason)))
  | .ok () =>
    let entry := { entry with module := true }
    match answers.instantiate with
    | .error reason =>
      ({ entry with module := false },
        [.acquired entry.load .module, .released entry.load .module],
        .error (.error ("WAMR instantiate failed: " ++ reason)))
    | .ok () =>
      let entry := { entry with inst := true }
      if answers.createExecEnv then
        ({ entry with execEnv := true },
          [.acquired entry.load .module, .acquired entry.load .inst, .acquired entry.load .execEnv],
          answers.readManifest)
      else
        ({ entry with inst := false, module := false },
          [.acquired entry.load .module, .acquired entry.load .inst,
            .released entry.load .inst, .released entry.load .module],
          .error (.error "WAMR: failed to create exec_env"))

/-- A load ends with a full entry, or its entry and the releases by hand give back what it got. -/
theorem openEntry_cases (answers : WamrAnswers) (id : String) (load : Nat) :
    openEntry answers (.fresh id load) =
        (.full id load, acquire load WamrHandle.all, .ok ()) ∨
      ∃ entry events fault got, openEntry answers (.fresh id load) = (entry, events, .error fault) ∧
        got <+: WamrHandle.all ∧ events ++ entry.destroy = acquire load got ++ release load got := by
  obtain ⟨loaded, instantiated, created, manifest⟩ := answers
  cases loaded with
  | error reason =>
    exact Or.inr ⟨_, _, _, [], rfl, List.nil_prefix, rfl⟩
  | ok _ =>
    cases instantiated with
    | error reason => exact Or.inr ⟨_, _, _, [.module], rfl, ⟨[.inst, .execEnv], rfl⟩, rfl⟩
    | ok _ =>
      cases created with
      | false => exact Or.inr ⟨_, _, _, [.module, .inst], rfl, ⟨[.execEnv], rfl⟩, rfl⟩
      | true =>
        cases manifest with
        | ok _ => exact Or.inl rfl
        | error fault => exact Or.inr ⟨_, _, _, WamrHandle.all, rfl, List.prefix_rfl, rfl⟩

/-! ## The runtime's map -/

structure WasmRuntime where
  modules : String → Option EntryHandles
  /-- The pointers that running calls have copied. -/
  held : List EntryHandles
  loads : Nat
  log : List (ResourceEvent WamrHandle)

namespace WasmRuntime

def empty : WasmRuntime where
  modules := fun _ => none
  held := []
  loads := 0
  log := []

/-- Some `shared_ptr` still points to the entry. -/
def Alive (s : WasmRuntime) (e : EntryHandles) : Prop := s.modules e.id = some e ∨ e ∈ s.held

instance (s : WasmRuntime) (e : EntryHandles) : Decidable (s.Alive e) :=
  inferInstanceAs (Decidable (_ ∨ _))

/-- No pointer to the entry of a load is left. -/
def Gone (s : WasmRuntime) (load : Nat) : Prop := ∀ e, s.Alive e → e.load ≠ load

/-- A pointer has been dropped; the last one destroys the entry. -/
def dropped (s : WasmRuntime) (e : EntryHandles) : WasmRuntime :=
  if s.Alive e then s else { s with log := s.log ++ e.destroy }

/-- Assign to a place of the map, which drops the pointer that was there. -/
def assign (s : WasmRuntime) (id : String) (e : Option EntryHandles) : WasmRuntime :=
  let t := { s with modules := Function.update s.modules id e }
  match s.modules id with
  | some old => t.dropped old
  | none => t

def loadModule (s : WasmRuntime) (id : String) (answers : WamrAnswers) :
    WasmRuntime × Except Fault Unit :=
  match openEntry answers (.fresh id s.loads) with
  | (entry, events, .error fault) =>
    ({ s with loads := s.loads + 1, log := s.log ++ (events ++ entry.destroy) }, .error fault)
  | (entry, events, .ok ()) =>
    ({ s with loads := s.loads + 1, log := s.log ++ events }.assign id (some entry), .ok ())

def unloadModule (s : WasmRuntime) (id : String) : WasmRuntime := s.assign id none

end WasmRuntime

inductive RuntimeAction
  | loadModule (id : String) (answers : WamrAnswers)
  | unloadModule (id : String)
  /-- A call copies the pointer it finds. -/
  | find (id : String)
  | finish (e : EntryHandles)

namespace WasmRuntime

def step (s : WasmRuntime) : RuntimeAction → Option WasmRuntime
  | .loadModule id answers => some (s.loadModule id answers).1
  | .unloadModule id => some (s.unloadModule id)
  | .find id => (s.modules id).map fun e => { s with held := e :: s.held }
  | .finish e =>
    if e ∈ s.held then some ({ s with held := s.held.erase e }.dropped e) else none

theorem loadModule_cases (s : WasmRuntime) (id : String) (answers : WamrAnswers) :
    s.loadModule id answers =
        ({ s with loads := s.loads + 1, log := s.log ++ acquire s.loads WamrHandle.all }.assign id
          (some (.full id s.loads)), .ok ()) ∨
      ∃ fault got, got <+: WamrHandle.all ∧ s.loadModule id answers =
        ({ s with
          loads := s.loads + 1
          log := s.log ++ (acquire s.loads got ++ release s.loads got) }, .error fault) := by
  rcases openEntry_cases answers id s.loads with
    heq | ⟨entry, events, fault, got, heq, hgot, hevents⟩
  · left
    rw [loadModule, heq]
  · right
    refine ⟨fault, got, hgot, ?_⟩
    rw [loadModule, heq, ← hevents]

/-- Entries are stored under their own id, and every one that can be reached owns all three
handles. -/
structure Invariant (s : WasmRuntime) : Prop where
  key : ∀ id e, s.modules id = some e → e.id = id
  whole : ∀ e, s.Alive e → e = .full e.id e.load
  ledger : Ledger WamrHandle.all EntryHandles.load s.Alive s.loads s.log

theorem invariant_empty : Invariant empty := by
  refine ⟨fun _ _ h => (by cases h), ?_, Ledger.empty.congr ?_⟩
  · rintro e (he | he)
    · cases he
    · cases he
  · intro e
    simp [Alive, empty]

variable {s t : WasmRuntime} {e : EntryHandles}

/-- One pointer to an entry goes, the others stay. -/
theorem invariant_dropped (hkey : ∀ id e, s.modules id = some e → e.id = id)
    (hwhole : ∀ x, s.Alive x ∨ x = e → x = .full x.id x.load)
    (hledger : Ledger WamrHandle.all EntryHandles.load (fun x => s.Alive x ∨ x = e) s.loads s.log) :
    Invariant (s.dropped e) := by
  rw [dropped]
  split
  · rename_i halive
    refine ⟨hkey, fun x hx => hwhole x (Or.inl hx), hledger.congr ?_⟩
    intro x
    constructor
    · exact Or.inl
    · rintro (hx | rfl)
      · exact hx
      · exact halive
  · rename_i hlast
    refine ⟨hkey, fun x hx => hwhole x (Or.inl hx), ?_⟩
    have hdestroy : e.destroy = release e.load WamrHandle.all := by
      rw [hwhole e (Or.inr rfl)]
      exact EntryHandles.destroy_full e.id e.load
    rw [hdestroy]
    apply (hledger.destroyed (Or.inr rfl)).congr
    intro x
    constructor
    · intro hx
      refine ⟨Or.inl hx, fun heq => hlast (heq ▸ hx)⟩
    · rintro ⟨hx | rfl, hne⟩
      · exact hx
      · exact absurd rfl hne

theorem Invariant.assign (hkey : ∀ id e, s.modules id = some e → e.id = id)
    {id : String} {new : Option EntryHandles} (hid : ∀ e, new = some e → e.id = id)
    (hwhole : ∀ x, s.Alive x ∨ new = some x → x = .full x.id x.load)
    (hledger : Ledger WamrHandle.all EntryHandles.load (fun x => s.Alive x ∨ new = some x)
      s.loads s.log) :
    Invariant (s.assign id new) := by
  have hkey' : ∀ id' e, Function.update s.modules id new id' = some e → e.id = id' := by
    intro id' e he
    rcases update_cases he with ⟨rfl, hnew⟩ | ⟨_, hother⟩
    · exact hid e hnew
    · exact hkey id' e hother
  -- what is reachable afterwards, together with the pointer that goes
  have halive : ∀ x, ({ s with modules := Function.update s.modules id new } : WasmRuntime).Alive x ∨
      s.modules id = some x ↔ s.Alive x ∨ new = some x := by
    intro x
    constructor
    · rintro ((hx | hx) | hx)
      · rcases update_cases hx with ⟨_, hnew⟩ | ⟨_, hother⟩
        · exact Or.inr hnew
        · exact Or.inl (Or.inl hother)
      · exact Or.inl (Or.inr hx)
      · exact Or.inl (Or.inl ((hkey id x hx).symm ▸ hx))
    · rintro ((hx | hx) | hx)
      · by_cases heq : x.id = id
        · exact Or.inr (heq ▸ hx)
        · refine Or.inl (Or.inl ?_)
          exact (Function.update_of_ne heq new s.modules).trans hx
      · exact Or.inl (Or.inr hx)
      · refine Or.inl (Or.inl ?_)
        rw [hid x hx]
        exact (Function.update_self id new s.modules).trans hx
  rw [WasmRuntime.assign]
  split
  · rename_i old hold
    have halive' : ∀ x, ({ s with
        modules := Function.update s.modules id new } : WasmRuntime).Alive x ∨ x = old ↔
        s.Alive x ∨ new = some x := by
      intro x
      rw [← halive x, hold, Option.some.injEq, eq_comm (a := x)]
    apply invariant_dropped hkey'
    · intro x hx
      exact hwhole x ((halive' x).mp hx)
    · exact hledger.congr halive'
  · rename_i hnone
    have halive' : ∀ x, ({ s with
        modules := Function.update s.modules id new } : WasmRuntime).Alive x ↔
        s.Alive x ∨ new = some x := by
      intro x
      rw [← halive x, hnone]
      simp
    exact ⟨hkey', fun x hx => hwhole x ((halive' x).mp hx), hledger.congr halive'⟩

theorem Invariant.loadModule (h : Invariant s) (id : String) (answers : WamrAnswers) :
    Invariant (s.loadModule id answers).1 := by
  rcases s.loadModule_cases id answers with heq | ⟨fault, got, hgot, heq⟩
  · rw [heq]
    apply Invariant.assign (s := { s with
      loads := s.loads + 1, log := s.log ++ acquire s.loads WamrHandle.all }) h.key
    · intro e he
      cases he
      rfl
    · rintro x (hx | hx)
      · exact h.whole x hx
      · cases hx
        rfl
    · apply (h.ledger.created (e := EntryHandles.full id s.loads) rfl).congr
      intro x
      rw [Option.some.injEq, eq_comm (a := EntryHandles.full id s.loads)]
      exact Iff.rfl
  · rw [heq]
    exact ⟨h.key, h.whole, h.ledger.failed hgot⟩

theorem Invariant.unloadModule (h : Invariant s) (id : String) : Invariant (s.unloadModule id) := by
  apply Invariant.assign h.key
  · intro e he
    cases he
  · rintro x (hx | hx)
    · exact h.whole x hx
    · cases hx
  · apply h.ledger.congr
    intro x
    simp

theorem Invariant.find (h : Invariant s) {id : String} (hfind : s.modules id = some e) :
    Invariant { s with held := e :: s.held } := by
  have halive : ∀ x, ({ s with held := e :: s.held } : WasmRuntime).Alive x ↔ s.Alive x := by
    intro x
    constructor
    · rintro (hx | hx)
      · exact Or.inl hx
      · rcases List.mem_cons.mp hx with rfl | hx
        · exact Or.inl ((h.key id x hfind).symm ▸ hfind)
        · exact Or.inr hx
    · exact Or.imp_right (List.mem_cons_of_mem _)
  exact ⟨h.key, fun x hx => h.whole x ((halive x).mp hx), h.ledger.congr halive⟩

theorem Invariant.finish (h : Invariant s) (hheld : e ∈ s.held) :
    Invariant ({ s with held := s.held.erase e }.dropped e) := by
  have halive : ∀ x, ({ s with held := s.held.erase e } : WasmRuntime).Alive x ∨ x = e ↔
      s.Alive x := by
    intro x
    constructor
    · rintro ((hx | hx) | rfl)
      · exact Or.inl hx
      · exact Or.inr (List.mem_of_mem_erase hx)
      · exact Or.inr hheld
    · rintro (hx | hx)
      · exact Or.inl (Or.inl hx)
      · by_cases heq : x = e
        · exact Or.inr heq
        · exact Or.inl (Or.inr ((List.mem_erase_of_ne heq).mpr hx))
  exact invariant_dropped h.key (fun x hx => h.whole x ((halive x).mp hx)) (h.ledger.congr halive)

theorem Invariant.step {a : RuntimeAction} (h : Invariant s) (hstep : s.step a = some t) :
    Invariant t := by
  cases a with
  | loadModule id answers =>
    cases hstep
    exact h.loadModule id answers
  | unloadModule id =>
    cases hstep
    exact h.unloadModule id
  | find id =>
    obtain ⟨e, hfind, rfl⟩ := Option.map_eq_some_iff.mp hstep
    exact h.find hfind
  | finish e =>
    simp only [WasmRuntime.step] at hstep
    split at hstep
    · rename_i hheld
      cases hstep
      exact h.finish hheld
    · cases hstep

theorem dropped_modules (s : WasmRuntime) (e : EntryHandles) : (s.dropped e).modules = s.modules := by
  rw [dropped]
  split
  · rfl
  · rfl

theorem dropped_loads (s : WasmRuntime) (e : EntryHandles) : (s.dropped e).loads = s.loads := by
  rw [dropped]
  split
  · rfl
  · rfl

theorem assign_modules (s : WasmRuntime) (id : String) (new : Option EntryHandles) :
    (s.assign id new).modules = Function.update s.modules id new := by
  rw [assign]
  split
  · exact dropped_modules _ _
  · rfl

theorem assign_loads (s : WasmRuntime) (id : String) (new : Option EntryHandles) :
    (s.assign id new).loads = s.loads := by
  rw [assign]
  split
  · exact dropped_loads _ _
  · rfl

/-- The map with every entry known by its load. -/
def entryLoads (s : WasmRuntime) (id : String) : Option Nat := (s.modules id).map EntryHandles.load

theorem assign_entryLoads (s : WasmRuntime) (id : String) (new : Option EntryHandles) :
    (s.assign id new).entryLoads =
      Function.update s.entryLoads id (new.map EntryHandles.load) := by
  funext id'
  rw [entryLoads, assign_modules]
  by_cases hid : id' = id
  · rw [hid, Function.update_self, Function.update_self]
  · rw [Function.update_of_ne hid, Function.update_of_ne hid]
    rfl

theorem loadModule_ok {id : String} {answers : WamrAnswers}
    (h : s.loadModule id answers = (t, .ok ())) :
    t = { s with loads := s.loads + 1, log := s.log ++ acquire s.loads WamrHandle.all }.assign id
      (some (.full id s.loads)) := by
  rcases s.loadModule_cases id answers with heq | ⟨fault, got, _, heq⟩
  · rw [heq] at h
    cases h
    rfl
  · rw [heq] at h
    cases h

/-! The log only grows. -/

theorem dropped_log (s : WasmRuntime) (e : EntryHandles) : s.log <+: (s.dropped e).log := by
  rw [dropped]
  split
  · exact List.prefix_rfl
  · exact List.prefix_append _ _

theorem assign_log (s : WasmRuntime) (id : String) (new : Option EntryHandles) :
    s.log <+: (s.assign id new).log := by
  rw [assign]
  split
  · rename_i old hold
    exact dropped_log { s with modules := Function.update s.modules id new } old
  · exact List.prefix_rfl

theorem step_log {a : RuntimeAction} (hstep : s.step a = some t) : s.log <+: t.log := by
  cases a with
  | loadModule id answers =>
    cases hstep
    rcases s.loadModule_cases id answers with heq | ⟨fault, got, _, heq⟩
    · rw [heq]
      have hassign := assign_log
        { s with loads := s.loads + 1, log := s.log ++ acquire s.loads WamrHandle.all } id
        (some (.full id s.loads))
      exact (List.prefix_append _ _).trans hassign
    · rw [heq]
      exact List.prefix_append _ _
  | unloadModule id =>
    cases hstep
    exact assign_log _ _ _
  | find id =>
    obtain ⟨e, _, rfl⟩ := Option.map_eq_some_iff.mp hstep
    exact List.prefix_rfl
  | finish e =>
    simp only [step] at hstep
    split at hstep
    · cases hstep
      exact dropped_log { s with held := s.held.erase e } e
    · cases hstep

theorem run_log {actions : List RuntimeAction} (hrun : runAll step s actions = some t) :
    s.log <+: t.log :=
  runAll_invariant (I := fun u => s.log <+: u.log) (fun _ _ _ hlog _ hstep => hlog.trans (step_log hstep))
    actions List.prefix_rfl (meets_true actions s) hrun

theorem run_invariant {actions : List RuntimeAction} (h : Invariant s)
    (hrun : runAll step s actions = some t) : Invariant t :=
  runAll_invariant (fun _ _ _ h _ hstep => h.step hstep) actions h (meets_true actions s) hrun

end WasmRuntime

/-! ## The core's map -/

structure Core where
  modules : String → Option NativeModule
  runtime : WasmRuntime
  /-- Modules whose `runtime_` is null. -/
  detached : List WasmModule
  /-- The pointers that running calls keep. -/
  inFlight : List NativeModule

namespace Core

def empty : Core where
  modules := fun _ => none
  runtime := .empty
  detached := []
  inFlight := []

def Refers (s : Core) (m : WasmModule) : Prop :=
  .wasm m ∈ s.inFlight ∨ s.modules m.id = some (.wasm m)

instance (s : Core) (m : WasmModule) : Decidable (s.Refers m) :=
  inferInstanceAs (Decidable (_ ∨ _))

def disposeWasm (s : Core) (m : WasmModule) : Core :=
  if m ∈ s.detached then s
  else { s with runtime := s.runtime.unloadModule m.id, detached := m :: s.detached }

def dropped (s : Core) : NativeModule → Core
  | .wasm m => if s.Refers m then s else s.disposeWasm m
  | .sharedLibrary _ _ => s

def registerModule (s : Core) (id : String) (module : NativeModule) : Core :=
  let t := { s with modules := Function.update s.modules id (some module) }
  match s.modules id with
  | some old => t.dropped old
  | none => t

def installWasmModule (s : Core) (id : String) (answers : WamrAnswers) : Core × Except Fault Unit :=
  match s.runtime.loadModule id answers with
  | (runtime, .error fault) => ({ s with runtime := runtime }, .error fault)
  | (runtime, .ok ()) =>
    ({ s with runtime := runtime }.registerModule id (.wasm ⟨id, s.runtime.loads⟩), .ok ())

def loadSharedLibrary (_moduleId _libraryPath : String) : Option NativeModule := none

def installSharedLibrary (s : Core) (id libraryPath : String) : Core × Except Fault Unit :=
  match loadSharedLibrary id libraryPath with
  | none => (s, .error (.exception ("Could not load shared library: " ++ libraryPath)))
  | some module => (s.registerModule id module, .ok ())

def hasSuffix (path ending : String) : Bool := ending.toList.isSuffixOf path.toList

def isWasmArtifact (path : String) : Bool := hasSuffix path ".wasm" || hasSuffix path ".aot"

/-- The body of `loadModule`'s task; `file` is what `readWasmFile` returns or throws. -/
def installPath (s : Core) (id sourcePath : String) (file : Except String (List UInt8))
    (answers : WamrAnswers) : Core × Except Fault Unit :=
  if isWasmArtifact sourcePath then
    match file with
    | .error what => (s, .error (.exception what))
    | .ok [] => (s, .error (.exception ("Could not read WASM file: " ++ sourcePath)))
    | .ok _ => s.installWasmModule id answers
  else s.installSharedLibrary id sourcePath

/-- The constructor of a linked `SharedLibraryModule`; `found` is what `dlsym` says. -/
def linkedModule (id symbolSuffix : String) (found : Bool) : Except Fault NativeModule :=
  if found then .ok (.sharedLibrary id "<linked>")
  else .error (.exception ("No linked '" ++ "crossnative_call" ++ symbolSuffix ++
    "' symbol found. Is the static library linked into the app (with -force_load)?"))

def installLinked (s : Core) (id symbolSuffix : String) (found : Bool) : Core × Except Fault Unit :=
  match linkedModule id symbolSuffix found with
  | .error fault => (s, .error fault)
  | .ok module => (s.registerModule id module, .ok ())

end Core

/-- A request to load, with what the file system, WAMR and the linker answer to it. -/
inductive LoadAttempt
  | path (id sourcePath : String) (file : Except String (List UInt8)) (answers : WamrAnswers)
  | bytes (id : String) (answers : WamrAnswers)
  | linked (id symbolSuffix : String) (found : Bool)

namespace Core

/-- A failure is logged and reported as `false`. -/
def reported (failure : String) : Core × Except Fault Unit → Core × Except String Unit
  | (t, .ok ()) => (t, .ok ())
  | (t, .error fault) => (t, .error (failure ++ ": " ++ fault.what))

def load (s : Core) : LoadAttempt → Core × Except String Unit
  | .path id sourcePath file answers =>
    reported ("Failed to load module " ++ id) (s.installPath id sourcePath file answers)
  | .bytes id answers => reported ("Failed to load module " ++ id) (s.installWasmModule id answers)
  | .linked id symbolSuffix found =>
    reported ("Failed to load linked module " ++ id) (s.installLinked id symbolSuffix found)

/-- A call finds the module, not disposed, and for a WASM module its entry. -/
def Callable (s : Core) (id : String) : Prop :=
  ∃ module, s.modules id = some module ∧
    ∀ m, module = .wasm m → m ∉ s.detached ∧ (s.runtime.modules m.id).isSome

/-- All that a failed attempt leaves behind is a balanced piece of the log. -/
structure Unharmed (s t : Core) : Prop where
  modules : t.modules = s.modules
  entries : t.runtime.modules = s.runtime.modules
  detached : t.detached = s.detached
  balanced : ∃ got, got <+: WamrHandle.all ∧
    t.runtime.log = s.runtime.log ++ (acquire s.runtime.loads got ++ release s.runtime.loads got)

theorem Unharmed.refl (s : Core) : Unharmed s s :=
  ⟨rfl, rfl, rfl, [], List.nil_prefix, (List.append_nil _).symm⟩

theorem Unharmed.callable {s t : Core} (h : Unharmed s t) {id : String} (hid : s.Callable id) :
    t.Callable id := by
  obtain ⟨module, hmodule, hwasm⟩ := hid
  refine ⟨module, h.modules ▸ hmodule, fun m hm => ?_⟩
  rw [h.detached, h.entries]
  exact hwasm m hm

theorem installWasmModule_failed {s t : Core} {id : String} {answers : WamrAnswers} {fault : Fault}
    (hfailed : s.installWasmModule id answers = (t, .error fault)) : Unharmed s t := by
  rcases s.runtime.loadModule_cases id answers with heq | ⟨fault', got, hgot, heq⟩
  · simp only [installWasmModule, heq] at hfailed
    cases hfailed
  · simp only [installWasmModule, heq] at hfailed
    cases hfailed
    exact ⟨rfl, rfl, rfl, got, hgot, rfl⟩

theorem installPath_failed {s t : Core} {id sourcePath : String}
    {file : Except String (List UInt8)} {answers : WamrAnswers} {fault : Fault}
    (hfailed : s.installPath id sourcePath file answers = (t, .error fault)) : Unharmed s t := by
  simp only [installPath] at hfailed
  split at hfailed
  · split at hfailed
    · cases hfailed
      exact Unharmed.refl s
    · cases hfailed
      exact Unharmed.refl s
    · exact installWasmModule_failed hfailed
  · cases hfailed
    exact Unharmed.refl s

theorem installLinked_failed {s t : Core} {id symbolSuffix : String} {found : Bool} {fault : Fault}
    (hfailed : s.installLinked id symbolSuffix found = (t, .error fault)) : Unharmed s t := by
  simp only [installLinked] at hfailed
  split at hfailed
  · cases hfailed
    exact Unharmed.refl s
  · cases hfailed

theorem reported_failed {failure report : String} {outcome : Core × Except Fault Unit} {t : Core}
    (h : reported failure outcome = (t, .error report)) :
    ∃ fault, outcome = (t, .error fault) ∧ report = failure ++ ": " ++ fault.what := by
  obtain ⟨u, result⟩ := outcome
  cases result with
  | ok _ => cases h
  | error fault =>
    cases h
    exact ⟨fault, rfl, rfl⟩

theorem load_failed {s t : Core} {attempt : LoadAttempt} {report : String}
    (hfailed : s.load attempt = (t, .error report)) : Unharmed s t := by
  cases attempt with
  | path id sourcePath file answers =>
    obtain ⟨fault, houtcome, _⟩ := reported_failed hfailed
    exact installPath_failed houtcome
  | bytes id answers =>
    obtain ⟨fault, houtcome, _⟩ := reported_failed hfailed
    exact installWasmModule_failed houtcome
  | linked id symbolSuffix found =>
    obtain ⟨fault, houtcome, _⟩ := reported_failed hfailed
    exact installLinked_failed houtcome

/-! ## Successful loads -/

theorem disposeWasm_runtime (s : Core) (m : WasmModule) :
    ∃ actions, runAll WasmRuntime.step s.runtime actions = some (s.disposeWasm m).runtime := by
  rw [disposeWasm]
  split
  · exact ⟨[], rfl⟩
  · exact ⟨[.unloadModule m.id], rfl⟩

/-- What registering does to the runtime, it does through the runtime's own operations. -/
theorem registerModule_runtime (s : Core) (id : String) (module : NativeModule) :
    ∃ actions, runAll WasmRuntime.step s.runtime actions =
      some (s.registerModule id module).runtime := by
  rw [registerModule]
  split
  · rename_i old hold
    cases old with
    | wasm m =>
      rw [dropped]
      split
      · exact ⟨[], rfl⟩
      · exact disposeWasm_runtime { s with modules := Function.update s.modules id (some module) } m
    | sharedLibrary id' libraryPath => exact ⟨[], rfl⟩
  · exact ⟨[], rfl⟩

theorem installWasmModule_ok {s t : Core} {id : String} {answers : WamrAnswers}
    (h : s.installWasmModule id answers = (t, .ok ())) :
    ∃ runtime, s.runtime.loadModule id answers = (runtime, .ok ()) ∧
      t = { s with runtime := runtime }.registerModule id (.wasm ⟨id, s.runtime.loads⟩) := by
  simp only [installWasmModule] at h
  split at h
  · cases h
  · rename_i runtime hload
    cases h
    exact ⟨runtime, hload, rfl⟩

/-- The state as the model of the registry has it: entries are known by their loads. -/
def registry (s : Core) : Registry where
  modules := s.modules
  entries := s.runtime.entryLoads
  detached := s.detached
  loading := []
  inFlight := s.inFlight
  holder := none
  loads := s.runtime.loads

theorem registry_disposeWasm (s : Core) (m : WasmModule) :
    (s.disposeWasm m).registry = s.registry.disposeWasm m := by
  rw [disposeWasm, Registry.disposeWasm]
  by_cases hdetached : m ∈ s.detached
  · rw [if_pos hdetached, if_pos (show m ∈ s.registry.detached from hdetached)]
  · rw [if_neg hdetached, if_neg (show m ∉ s.registry.detached from hdetached)]
    simp only [registry, WasmRuntime.unloadModule, WasmRuntime.assign_entryLoads,
      WasmRuntime.assign_loads, Option.map_none]

theorem registry_dropped (s : Core) (module : NativeModule) :
    (s.dropped module).registry = s.registry.dropped module := by
  cases module with
  | sharedLibrary id libraryPath => rfl
  | wasm m =>
    have hrefers : s.registry.Refers m ↔ s.Refers m := by
      simp [Registry.Refers, Refers, registry]
    rw [dropped, Registry.dropped]
    by_cases h : s.Refers m
    · rw [if_pos h, if_pos (hrefers.mpr h)]
    · rw [if_neg h, if_neg fun hr => h (hrefers.mp hr)]
      exact registry_disposeWasm s m

/-- A successful load is the registry's two steps, and a third one where a module is replaced. -/
theorem installWasmModule_registry {s t : Core} {id : String} {answers : WamrAnswers}
    (h : s.installWasmModule id answers = (t, .ok ())) :
    runAll Registry.step s.registry (.loadEntry id :: .register ⟨id, s.runtime.loads⟩ ::
      (if (s.modules id).isSome then [.release] else [])) = some t.registry := by
  obtain ⟨runtime, hload, rfl⟩ := installWasmModule_ok h
  have hruntime := WasmRuntime.loadModule_ok hload
  have hentries : runtime.entryLoads =
      Function.update s.runtime.entryLoads id (some s.runtime.loads) := by
    rw [hruntime]
    exact WasmRuntime.assign_entryLoads _ _ _
  have hloads : runtime.loads = s.runtime.loads + 1 := by
    rw [hruntime]
    exact WasmRuntime.assign_loads _ _ _
  cases hold : s.modules id with
  | none =>
    simp [runAll, Registry.step, Registry.store, registry, registerModule, hold, hentries, hloads]
  | some old =>
    simp only [registerModule, hold, registry_dropped]
    simp [runAll, Registry.step, Registry.store, registry, hold, hentries, hloads]

/-- Loaded, and whatever happens afterwards: the handles stay until the last pointer to the entry
is gone, and then go in reverse order. -/
theorem installed_given_back {before after : List RuntimeAction} {s t : Core} {u : WasmRuntime}
    {id : String} {answers : WamrAnswers}
    (hbefore : runAll WasmRuntime.step .empty before = some s.runtime)
    (hload : s.installWasmModule id answers = (t, .ok ()))
    (hafter : runAll WasmRuntime.step t.runtime after = some u) :
    (u.Gone s.runtime.loads → ofOwner s.runtime.loads u.log =
      acquire s.runtime.loads WamrHandle.all ++ release s.runtime.loads WamrHandle.all) ∧
    (¬ u.Gone s.runtime.loads →
      ofOwner s.runtime.loads u.log = acquire s.runtime.loads WamrHandle.all) := by
  obtain ⟨runtime, hopened, rfl⟩ := installWasmModule_ok hload
  obtain ⟨actions, hregister⟩ := registerModule_runtime { s with runtime := runtime } id
    (.wasm ⟨id, s.runtime.loads⟩)
  have hs : s.runtime.Invariant := WasmRuntime.run_invariant WasmRuntime.invariant_empty hbefore
  have hopen : runtime.Invariant := by
    have hinvariant := hs.loadModule id answers
    rw [hopened] at hinvariant
    exact hinvariant
  have hu : u.Invariant := WasmRuntime.run_invariant (WasmRuntime.run_invariant hopen hregister) hafter
  -- right after the load the entry holds all three, and nothing later takes events away
  have hopenLog : ofOwner s.runtime.loads runtime.log = acquire s.runtime.loads WamrHandle.all := by
    apply hopen.ledger.held (EntryHandles.full id s.runtime.loads)
    left
    rw [WasmRuntime.loadModule_ok hopened, WasmRuntime.assign_modules]
    exact Function.update_self _ _ _
  obtain ⟨more, hmore⟩ := (WasmRuntime.run_log hregister).trans (WasmRuntime.run_log hafter)
  constructor
  · intro hgone
    rw [← hmore]
    exact Ledger.given_back (hmore.symm ▸ hu.ledger) hopenLog hgone
  · intro hleft
    simp only [WasmRuntime.Gone, not_forall, not_not] at hleft
    obtain ⟨e, halive, hload⟩ := hleft
    rw [← hload]
    exact hu.ledger.held e halive

/-- A load that fails leaves every module and every entry where it was, and the handles it got are
given back in reverse order; those of a load that succeeds are, once its entry is destroyed. -/
theorem loads_settled :
    (∀ (s t : Core) (attempt : LoadAttempt) (report : String), s.load attempt = (t, .error report) →
      Unharmed s t ∧ ∀ id, s.Callable id → t.Callable id) ∧
    ∀ (before after : List RuntimeAction) (s t : Core) (u : WasmRuntime) (id : String)
      (answers : WamrAnswers),
      runAll WasmRuntime.step .empty before = some s.runtime →
      s.installWasmModule id answers = (t, .ok ()) →
      runAll WasmRuntime.step t.runtime after = some u →
      (u.Gone s.runtime.loads → ofOwner s.runtime.loads u.log =
        acquire s.runtime.loads WamrHandle.all ++ release s.runtime.loads WamrHandle.all) ∧
      (¬ u.Gone s.runtime.loads →
        ofOwner s.runtime.loads u.log = acquire s.runtime.loads WamrHandle.all) := by
  constructor
  · intro s t attempt report hfailed
    have hunharmed := load_failed hfailed
    exact ⟨hunharmed, fun id hid => hunharmed.callable hid⟩
  · intro before after s t u id answers hbefore hload hafter
    exact installed_given_back hbefore hload hafter

/-- No execution environment for the first load; the second is loaded, called and unloaded. -/
theorem loads_settled_unloaded :
    (∃ t, empty.load (.bytes "a" ⟨.ok (), .ok (), false, .ok ()⟩) =
        (t, .error "Failed to load module a: WAMR: failed to create exec_env") ∧
      Unharmed empty t) ∧
    ∃ t u, empty.installWasmModule "a" ⟨.ok (), .ok (), true, .ok ()⟩ = (t, .ok ()) ∧
      runAll WasmRuntime.step t.runtime
        [.find "a", .unloadModule "a", .finish (.full "a" 0)] = some u ∧
      ofOwner 0 u.log = acquire 0 WamrHandle.all ++ release 0 WamrHandle.all := by
  refine ⟨⟨_, rfl, ?_⟩, _, _, rfl, rfl, ?_⟩
  · exact (loads_settled.1 empty _ (.bytes "a" ⟨.ok (), .ok (), false, .ok ()⟩)
      "Failed to load module a: WAMR: failed to create exec_env" rfl).1
  apply (loads_settled.2 [] [.find "a", .unloadModule "a", .finish (.full "a" 0)] empty _ _ "a"
    ⟨.ok (), .ok (), true, .ok ()⟩ rfl rfl rfl).1
  intro e he
  simp [WasmRuntime.Alive, WasmRuntime.dropped, WasmRuntime.unloadModule, WasmRuntime.assign,
    WasmRuntime.empty, EntryHandles.full, EntryHandles.fresh, registerModule, empty] at he

end Core

end CrossNative
