import CrossNative.Basis.Transition
import Mathlib.Data.List.Nodup

/-!
# The module registry

Two maps hold the loaded modules: the core's `modules_`, and the map of the WASM runtime.
Each has a mutex of its own, so a load or an unload updates them in separate steps, and
the destructor of a WASM module erases from the second map by id alone.
-/

namespace CrossNative

set_option autoImplicit false

open Basis

/-- An object backed by the WASM runtime; `load` numbers the load that made it. -/
structure WasmModule where
  id : String
  load : Nat
  deriving DecidableEq, Repr

inductive NativeModule
  | wasm (m : WasmModule)
  | sharedLibrary (id libraryPath : String)
  deriving DecidableEq, Repr

/-- What the thread inside `modulesMutex_` still has to do. -/
inductive Critical
  /-- `registerModule` has stored the new pointer and still holds the replaced one. -/
  | replacing (old : NativeModule)
  /-- `unloadModule` has disposed the module and not erased it yet. -/
  | unloading (id : String)
  deriving DecidableEq, Repr

structure Registry where
  modules : String → Option NativeModule
  /-- The runtime's map; a `ModuleEntry` is named by the load that created it. -/
  entries : String → Option Nat
  /-- Modules whose `runtime_` is null. -/
  detached : List WasmModule
  /-- Loads between `WasmRuntime::loadModule` and `registerModule`. -/
  loading : List WasmModule
  /-- The pointers that running calls keep. -/
  inFlight : List NativeModule
  holder : Option Critical
  loads : Nat

namespace Registry

def empty : Registry where
  modules := fun _ => none
  entries := fun _ => none
  detached := []
  loading := []
  inFlight := []
  holder := none
  loads := 0

def Refers (s : Registry) (m : WasmModule) : Prop :=
  .wasm m ∈ s.inFlight ∨ s.modules m.id = some (.wasm m) ∨
    s.holder = some (.replacing (.wasm m))

instance (s : Registry) (m : WasmModule) : Decidable (s.Refers m) :=
  inferInstanceAs (Decidable (_ ∨ _ ∨ _))

/-- `WasmModule::dispose`: erase by id, once. -/
def disposeWasm (s : Registry) (m : WasmModule) : Registry :=
  if m ∈ s.detached then s
  else { s with entries := Function.update s.entries m.id none, detached := m :: s.detached }

def dispose (s : Registry) : NativeModule → Registry
  | .wasm m => s.disposeWasm m
  | .sharedLibrary _ _ => s

/-- A pointer has been dropped; the last one runs the destructor. No other pointer can come
back in between, so both are one step. -/
def dropped (s : Registry) : NativeModule → Registry
  | .wasm m => if s.Refers m then s else s.disposeWasm m
  | .sharedLibrary _ _ => s

def store (s : Registry) (id : String) (module : NativeModule) : Registry :=
  { s with
    modules := Function.update s.modules id (some module)
    holder := (s.modules id).map .replacing }

end Registry

/-- The lock-protected steps of loads, unloads and calls. Steps that change neither map nor
pointers (a failed load, an id that is not found, reads) are left out. -/
inductive RegistryAction
  | loadEntry (id : String)
  | register (m : WasmModule)
  | registerLibrary (id libraryPath : String)
  /-- The replaced pointer goes, at the end of `registerModule`. -/
  | release
  | dispose (id : String)
  | erase
  | acquire (id : String)
  | finish (module : NativeModule)

namespace Registry

def step (s : Registry) : RegistryAction → Option Registry
  | .loadEntry id =>
    some { s with
      entries := Function.update s.entries id (some s.loads)
      loading := ⟨id, s.loads⟩ :: s.loading
      loads := s.loads + 1 }
  | .register m =>
    if m ∈ s.loading ∧ s.holder = none then
      some ({ s with loading := s.loading.erase m }.store m.id (.wasm m))
    else none
  | .registerLibrary id libraryPath =>
    if s.holder = none then some (s.store id (.sharedLibrary id libraryPath)) else none
  | .release =>
    match s.holder with
    | some (.replacing old) => some ({ s with holder := none }.dropped old)
    | _ => none
  | .dispose id =>
    match s.holder, s.modules id with
    | none, some module => some { s.dispose module with holder := some (.unloading id) }
    | _, _ => none
  | .erase =>
    match s.holder with
    | some (.unloading id) =>
      match s.modules id with
      | some module =>
        some ({ s with modules := Function.update s.modules id none, holder := none }.dropped module)
      | none => none
    | _ => none
  | .acquire id =>
    match s.holder, s.modules id with
    | none, some module => some { s with inFlight := module :: s.inFlight }
    | _, _ => none
  | .finish module =>
    if module ∈ s.inFlight then
      some ({ s with inFlight := s.inFlight.erase module }.dropped module)
    else none

/-- No load or unload is half-way. -/
def Quiet (s : Registry) : Prop := s.loading = [] ∧ s.holder = none

/-- The maps agree: a WASM module has the entry of its own load, and no other id has one. -/
structure Consistent (s : Registry) : Prop where
  own : ∀ id m, s.modules id = some (.wasm m) → s.entries id = some m.load
  none_else : ∀ id, (∀ m, s.modules id ≠ some (.wasm m)) → s.entries id = none

/-- A WASM module that can still erase from the runtime's map. -/
def Attached (s : Registry) (m : WasmModule) : Prop := s.Refers m ∧ m ∉ s.detached

/-- One load of an id at a time, and only once earlier WASM modules of that id have been
unloaded; a library replaces a WASM module that no call holds. -/
def OneAtATime (s : Registry) : RegistryAction → Prop
  | .loadEntry id => (∀ m, s.Attached m → m.id ≠ id) ∧ ∀ m ∈ s.loading, m.id ≠ id
  | .registerLibrary id _ => ∀ m, .wasm m ∈ s.inFlight → m ∉ s.detached → m.id ≠ id
  | _ => True

/-- Where the WASM modules are that can still erase. -/
structure Places (s : Registry) : Prop where
  key : ∀ id m, s.modules id = some (.wasm m) → m.id = id
  kept : ∀ id m, s.modules id = some (.wasm m) → s.holder ≠ some (.unloading id) → m ∉ s.detached
  unloaded : ∀ id m, s.holder = some (.unloading id) → s.modules id = some (.wasm m) → m ∈ s.detached
  placed : ∀ m, s.Attached m →
    s.modules m.id = some (.wasm m) ∨ s.holder = some (.replacing (.wasm m))
  replaced : ∀ m, s.holder = some (.replacing (.wasm m)) → m ∉ s.detached → .wasm m ∉ s.inFlight

structure Owners (s : Registry) : Prop where
  attached : ∀ m, s.Attached m → s.entries m.id = some m.load
  pending : ∀ m ∈ s.loading, s.entries m.id = some m.load ∧ m ∉ s.detached ∧
    ∀ m', s.Attached m' → m'.id ≠ m.id
  distinct : (s.loading.map WasmModule.id).Nodup
  owned : ∀ id n, s.entries id = some n → ∃ m, m.id = id ∧ (s.Attached m ∨ m ∈ s.loading)
  bounded : ∀ m, m ∈ s.detached ∨ m ∈ s.loading ∨ s.Refers m → m.load < s.loads

/-- Two attached modules of one id would own one entry. -/
theorem Owners.eq_of_id {s : Registry} (h : Owners s) {m m' : WasmModule} (hm : s.Attached m)
    (hm' : s.Attached m') (hid : m.id = m'.id) : m = m' := by
  have hload : some m.load = some m'.load := by
    rw [← h.attached m hm, ← h.attached m' hm', hid]
  cases m
  cases m'
  cases hid
  cases hload
  rfl

structure Invariant (s : Registry) : Prop extends Places s, Owners s

theorem invariant_empty : Invariant empty := by
  refine ⟨⟨?_, ?_, ?_, ?_, ?_⟩, ⟨?_, ?_, ?_, ?_, ?_⟩⟩ <;> simp [empty, Attached, Refers]

theorem Invariant.consistent {s : Registry} (h : Invariant s) (hquiet : s.Quiet) : s.Consistent := by
  obtain ⟨hloading, hholder⟩ := hquiet
  constructor
  · intro id m hm
    have hid := h.key id m hm
    have hkept := h.kept id m hm (by rw [hholder]; simp)
    subst hid
    exact h.attached m ⟨Or.inr (Or.inl hm), hkept⟩
  · intro id hnone
    cases hentry : s.entries id with
    | none => rfl
    | some n =>
      obtain ⟨m, rfl, hattached | hload⟩ := h.owned id n hentry
      · rcases h.placed m hattached with hm | hm
        · exact absurd hm (hnone m)
        · rw [hholder] at hm
          cases hm
      · rw [hloading] at hload
        cases hload

/-! ## Loads -/

theorem Invariant.loadEntry {s t : Registry} (h : Invariant s) {id : String}
    (hallowed : s.OneAtATime (.loadEntry id)) (hstep : s.step (.loadEntry id) = some t) :
    Invariant t := by
  obtain ⟨hattached, hloading⟩ := hallowed
  cases hstep
  have hfresh : (⟨id, s.loads⟩ : WasmModule) ∉ s.detached := by
    intro hmem
    exact Nat.lt_irrefl _ (h.bounded _ (Or.inl hmem))
  refine ⟨⟨h.key, h.kept, h.unloaded, h.placed, h.replaced⟩, ⟨?_, ?_, ?_, ?_, ?_⟩⟩
  · intro m hm
    simp only [Function.update_of_ne (hattached m hm)]
    exact h.attached m hm
  · intro m hm
    rcases List.mem_cons.mp hm with rfl | hm
    · exact ⟨Function.update_self _ _ _, hfresh, hattached⟩
    · simp only [Function.update_of_ne (hloading m hm)]
      exact h.pending m hm
  · refine List.nodup_cons.mpr ⟨fun hmem => ?_, h.distinct⟩
    obtain ⟨m, hm, hid⟩ := List.mem_map.mp hmem
    exact hloading m hm hid
  · intro id' n hn
    by_cases hid : id' = id
    · subst hid
      exact ⟨⟨id', s.loads⟩, rfl, Or.inr List.mem_cons_self⟩
    · simp only [Function.update_of_ne hid] at hn
      obtain ⟨m, hm, hor⟩ := h.owned id' n hn
      exact ⟨m, hm, hor.imp_right (List.mem_cons_of_mem _)⟩
  · intro m hm
    apply Nat.lt_succ_of_le
    rcases hm with hm | hm | hm
    · exact Nat.le_of_lt (h.bounded m (Or.inl hm))
    · rcases List.mem_cons.mp hm with rfl | hm
      · exact Nat.le_refl _
      · exact Nat.le_of_lt (h.bounded m (Or.inr (Or.inl hm)))
    · exact Nat.le_of_lt (h.bounded m (Or.inr (Or.inr hm)))

section Store

variable {s : Registry} {id : String} {module : NativeModule}

theorem Places.replaced_of_store (h : Places s) {m : WasmModule}
    (hm : (s.store id module).holder = some (.replacing (.wasm m))) :
    m.id = id ∧ s.modules m.id = some (.wasm m) := by
  obtain ⟨old, hold, heq⟩ := Option.map_eq_some_iff.mp hm
  cases heq
  have hid := h.key id m hold
  exact ⟨hid, hid.symm ▸ hold⟩

theorem Places.refers_of_store (h : Places s) {m : WasmModule}
    (hm : (s.store id module).Refers m) : module = .wasm m ∨ s.Refers m := by
  rcases hm with hm | hm | hm
  · exact Or.inr (Or.inl hm)
  · rcases update_cases hm with ⟨_, heq⟩ | ⟨_, hm⟩
    · exact Or.inl (Option.some.inj heq)
    · exact Or.inr (Or.inr (Or.inl hm))
  · exact Or.inr (Or.inr (Or.inl (h.replaced_of_store hm).2))

theorem Places.store_placed (h : Places s) (hholder : s.holder = none) {m : WasmModule}
    (hm : s.Attached m) :
    (s.store id module).modules m.id = some (.wasm m) ∨
      (s.store id module).holder = some (.replacing (.wasm m)) := by
  have hplace : s.modules m.id = some (.wasm m) := by
    rcases h.placed m hm with hplace | hplace
    · exact hplace
    · rw [hholder] at hplace
      cases hplace
  by_cases hid : m.id = id
  · right
    rw [hid] at hplace
    rw [store, hplace]
    rfl
  · left
    rw [store]
    simp only [Function.update_of_ne hid]
    exact hplace

theorem Places.store_attached (h : Places s) (hholder : s.holder = none) {m : WasmModule}
    (hm : s.Attached m) : (s.store id module).Attached m :=
  ⟨Or.inr (h.store_placed hholder hm), hm.2⟩

/-- A module fits under its own id, when no call keeps the one it replaces. -/
theorem Places.store (h : Places s) (hholder : s.holder = none)
    (hfits : ∀ x, module = .wasm x → x.id = id ∧ x ∉ s.detached)
    (hidle : ∀ x, s.Attached x → x.id = id → .wasm x ∉ s.inFlight) : Places (s.store id module) where
  key := by
    intro id' x hx
    rcases update_cases hx with ⟨hid, heq⟩ | ⟨_, hx⟩
    · exact (hfits x (Option.some.inj heq)).1.trans hid.symm
    · exact h.key id' x hx
  kept := by
    intro id' x hx _
    rcases update_cases hx with ⟨_, heq⟩ | ⟨_, hx⟩
    · exact (hfits x (Option.some.inj heq)).2
    · exact h.kept id' x hx (by rw [hholder]; simp)
  unloaded := by
    intro id' x hunloading
    obtain ⟨old, _, heq⟩ := Option.map_eq_some_iff.mp hunloading
    cases heq
  placed := by
    intro x hx
    rcases h.refers_of_store hx.1 with heq | hrefers
    · left
      rw [(hfits x heq).1, heq]
      exact Function.update_self _ _ _
    · exact h.store_placed hholder ⟨hrefers, hx.2⟩
  replaced := by
    intro x hx hfresh
    obtain ⟨hid, hplace⟩ := h.replaced_of_store hx
    exact hidle x ⟨Or.inr (Or.inl hplace), hfresh⟩ hid

end Store

theorem Invariant.register {s t : Registry} (h : Invariant s) {m : WasmModule}
    (hstep : s.step (.register m) = some t) : Invariant t := by
  simp only [step] at hstep
  split at hstep
  · rename_i hguard
    obtain ⟨hmem, hholder⟩ := hguard
    cases hstep
    have hplaces : Places { s with loading := s.loading.erase m } :=
      ⟨h.key, h.kept, h.unloaded, h.placed, h.replaced⟩
    obtain ⟨hentry, hfresh, hother⟩ := h.pending m hmem
    have hcases : ∀ x, ({ s with loading := s.loading.erase m }.store m.id (.wasm m)).Attached x →
        x = m ∨ s.Attached x := by
      intro x hx
      rcases hplaces.refers_of_store hx.1 with heq | hx'
      · cases heq
        exact Or.inl rfl
      · exact Or.inr ⟨hx', hx.2⟩
    have hself : ({ s with loading := s.loading.erase m }.store m.id (.wasm m)).Attached m :=
      ⟨Or.inr (Or.inl (Function.update_self _ _ _)), hfresh⟩
    have hrest : ∀ x ∈ s.loading.erase m, x ∈ s.loading ∧ x.id ≠ m.id := by
      intro x hx
      obtain ⟨hne, hx⟩ := (List.Nodup.of_map _ h.distinct).mem_erase_iff.mp hx
      exact ⟨hx, fun hid => hne (List.inj_on_of_nodup_map h.distinct hx hmem hid)⟩
    refine ⟨hplaces.store hholder ?_ ?_, ⟨?_, ?_, ?_, ?_, ?_⟩⟩
    · intro x heq
      cases heq
      exact ⟨rfl, hfresh⟩
    · intro x hx hid
      exact absurd hid (hother x hx)
    · intro x hx
      rcases hcases x hx with rfl | hx
      · exact hentry
      · exact h.attached x hx
    · intro x hx
      obtain ⟨hx, hne⟩ := hrest x hx
      obtain ⟨hentry', hfresh', hother'⟩ := h.pending x hx
      refine ⟨hentry', hfresh', fun y hy => ?_⟩
      rcases hcases y hy with rfl | hy
      · exact hne.symm
      · exact hother' y hy
    · exact h.distinct.sublist (List.erase_sublist.map _)
    · intro id n hn
      obtain ⟨x, hx, hor⟩ := h.owned id n hn
      refine ⟨x, hx, ?_⟩
      rcases hor with hattached | hload
      · exact Or.inl (hplaces.store_attached hholder hattached)
      · by_cases heq : x = m
        · subst heq
          exact Or.inl hself
        · exact Or.inr ((List.mem_erase_of_ne heq).mpr hload)
    · intro x hx
      rcases hx with hx | hx | hx
      · exact h.bounded x (Or.inl hx)
      · exact h.bounded x (Or.inr (Or.inl (hrest x hx).1))
      · rcases hplaces.refers_of_store hx with heq | hx
        · cases heq
          exact h.bounded m (Or.inr (Or.inl hmem))
        · exact h.bounded x (Or.inr (Or.inr hx))
  · cases hstep

theorem Invariant.registerLibrary {s t : Registry} (h : Invariant s) {id libraryPath : String}
    (hallowed : s.OneAtATime (.registerLibrary id libraryPath))
    (hstep : s.step (.registerLibrary id libraryPath) = some t) : Invariant t := by
  simp only [step] at hstep
  split at hstep
  · rename_i hholder
    cases hstep
    have hcases : ∀ x, (s.store id (.sharedLibrary id libraryPath)).Attached x → s.Attached x := by
      intro x hx
      rcases h.refers_of_store hx.1 with heq | hx'
      · cases heq
      · exact ⟨hx', hx.2⟩
    refine ⟨h.toPlaces.store hholder ?_ ?_, ⟨?_, ?_, ?_, ?_, ?_⟩⟩
    · intro x heq
      cases heq
    · intro x hx hid hflight
      exact hallowed x hflight hx.2 hid
    · intro x hx
      exact h.attached x (hcases x hx)
    · intro x hx
      obtain ⟨hentry, hfresh, hother⟩ := h.pending x hx
      exact ⟨hentry, hfresh, fun y hy => hother y (hcases y hy)⟩
    · exact h.distinct
    · intro id' n hn
      obtain ⟨x, hx, hor⟩ := h.owned id' n hn
      exact ⟨x, hx, hor.imp_left (h.store_attached hholder)⟩
    · intro x hx
      rcases hx with hx | hx | hx
      · exact h.bounded x (Or.inl hx)
      · exact h.bounded x (Or.inr (Or.inl hx))
      · rcases h.refers_of_store hx with heq | hx
        · cases heq
        · exact h.bounded x (Or.inr (Or.inr hx))
  · cases hstep

/-! ## Pointers that go -/

/-- Between two states only pointers have gone. -/
structure Loses (s s₁ : Registry) : Prop where
  entries : s₁.entries = s.entries
  detached : s₁.detached = s.detached
  loading : s₁.loading = s.loading
  loads : s₁.loads = s.loads
  fewer : ∀ x, s₁.Refers x → s.Refers x

namespace Loses

variable {s s₁ : Registry}

theorem attached_of (h : Loses s s₁) {x : WasmModule} (hx : s₁.Attached x) : s.Attached x :=
  ⟨h.fewer x hx.1, h.detached ▸ hx.2⟩

theorem owners (h : Loses s s₁) (hs : Owners s) (hheld : ∀ x, s.Attached x → s₁.Refers x) :
    Owners s₁ := by
  refine ⟨?_, ?_, ?_, ?_, ?_⟩
  · intro x hx
    rw [h.entries]
    exact hs.attached x (h.attached_of hx)
  · intro x hx
    rw [h.loading] at hx
    obtain ⟨hentry, hfresh, hother⟩ := hs.pending x hx
    rw [h.entries, h.detached]
    exact ⟨hentry, hfresh, fun y hy => hother y (h.attached_of hy)⟩
  · rw [h.loading]
    exact hs.distinct
  · intro id n hn
    rw [h.entries] at hn
    obtain ⟨x, hx, hor⟩ := hs.owned id n hn
    rw [h.loading]
    exact ⟨x, hx, hor.imp_left fun hattached => ⟨hheld x hattached, h.detached.symm ▸ hattached.2⟩⟩
  · intro x hx
    rw [h.detached, h.loading] at hx
    rw [h.loads]
    exact hs.bounded x (hx.imp_right (Or.imp_right (h.fewer x)))

theorem owners_disposeWasm (h : Loses s s₁) (hs : Owners s) {m : WasmModule}
    (hothers : ∀ x, x ≠ m → s.Refers x → s₁.Refers x) (hrefers : s.Refers m) (hm : m ∉ s.detached) :
    Owners (s₁.disposeWasm m) := by
  have hattached : s.Attached m := ⟨hrefers, hm⟩
  have hdispose : s₁.disposeWasm m =
      { s₁ with entries := Function.update s₁.entries m.id none, detached := m :: s₁.detached } := by
    rw [disposeWasm, if_neg (h.detached.symm ▸ hm)]
  have hcases : ∀ x, (s₁.disposeWasm m).Attached x → s.Attached x ∧ x ≠ m := by
    intro x hx
    rw [hdispose] at hx
    obtain ⟨hx, hne⟩ := hx
    exact ⟨h.attached_of ⟨hx, List.not_mem_of_not_mem_cons hne⟩, List.ne_of_not_mem_cons hne⟩
  have hids : ∀ x, s.Attached x → x ≠ m → x.id ≠ m.id :=
    fun x hx hne hid => hne (hs.eq_of_id hx hattached hid)
  refine ⟨?_, ?_, ?_, ?_, ?_⟩
  · intro x hx
    obtain ⟨hx, hne⟩ := hcases x hx
    rw [hdispose, h.entries]
    simp only [Function.update_of_ne (hids x hx hne)]
    exact hs.attached x hx
  · intro x hx
    rw [hdispose, h.loading] at hx
    obtain ⟨hentry, hfresh, hother⟩ := hs.pending x hx
    have hne : x.id ≠ m.id := (hother m hattached).symm
    refine ⟨?_, ?_, fun y hy => hother y (hcases y hy).1⟩
    · rw [hdispose, h.entries]
      simp only [Function.update_of_ne hne]
      exact hentry
    · rw [hdispose, h.detached]
      exact List.not_mem_cons_of_ne_of_not_mem (fun heq => hne (congrArg _ heq)) hfresh
  · rw [hdispose, h.loading]
    exact hs.distinct
  · intro id n hn
    rw [hdispose, h.entries] at hn
    by_cases hid : id = m.id
    · subst hid
      simp only [Function.update_self, reduceCtorEq] at hn
    · simp only [Function.update_of_ne hid] at hn
      obtain ⟨x, hx, hor⟩ := hs.owned id n hn
      rw [hdispose, h.loading]
      refine ⟨x, hx, hor.imp_left fun hattached => ?_⟩
      have hne : x ≠ m := fun heq => hid (heq ▸ hx.symm)
      have hfresh : x ∉ s₁.detached := h.detached.symm ▸ hattached.2
      exact ⟨hothers x hne hattached.1, List.not_mem_cons_of_ne_of_not_mem hne hfresh⟩
  · intro x hx
    rw [hdispose, h.loading] at hx
    rw [hdispose, h.loads]
    rcases hx with hx | hx | hx
    · rw [h.detached] at hx
      rcases List.mem_cons.mp hx with rfl | hx
      · exact hs.bounded _ (Or.inr (Or.inr hrefers))
      · exact hs.bounded x (Or.inl hx)
    · exact hs.bounded x (Or.inr (Or.inl hx))
    · exact hs.bounded x (Or.inr (Or.inr (h.fewer x hx)))

end Loses

theorem Invariant.dropped {s s₁ : Registry} {m : WasmModule} (h : Invariant s)
    (hloses : Loses s s₁) (hothers : ∀ x, x ≠ m → s.Refers x → s₁.Refers x) (hplaces : Places s₁)
    (hrefers : s.Refers m) : Invariant (s₁.dropped (.wasm m)) := by
  change Invariant (if s₁.Refers m then s₁ else s₁.disposeWasm m)
  split
  · rename_i hheld
    refine ⟨hplaces, hloses.owners h.toOwners fun x hx => ?_⟩
    by_cases hne : x = m
    · exact hne ▸ hheld
    · exact hothers x hne hx.1
  · rename_i hlast
    by_cases hdisposed : m ∈ s.detached
    · have hsame : s₁.disposeWasm m = s₁ := by
        rw [disposeWasm, if_pos (hloses.detached.symm ▸ hdisposed)]
      rw [hsame]
      refine ⟨hplaces, hloses.owners h.toOwners fun x hx => ?_⟩
      exact hothers x (fun heq => hx.2 (heq ▸ hdisposed)) hx.1
    · refine ⟨?_, hloses.owners_disposeWasm h.toOwners hothers hrefers hdisposed⟩
      rw [disposeWasm, if_neg (hloses.detached.symm ▸ hdisposed)]
      have hne : ∀ x, s₁.Refers x → x ≠ m := fun x hx heq => hlast (heq ▸ hx)
      refine ⟨hplaces.key, ?_, ?_, ?_, ?_⟩
      · intro id x hx hholder
        have hx' : s₁.modules x.id = some (.wasm x) := (hplaces.key id x hx).symm ▸ hx
        exact List.not_mem_cons_of_ne_of_not_mem (hne x (Or.inr (Or.inl hx')))
          (hplaces.kept id x hx hholder)
      · intro id x hholder hx
        exact List.mem_cons_of_mem _ (hplaces.unloaded id x hholder hx)
      · intro x hx
        exact hplaces.placed x ⟨hx.1, List.not_mem_of_not_mem_cons hx.2⟩
      · intro x hx hfresh
        exact hplaces.replaced x hx (List.not_mem_of_not_mem_cons hfresh)

theorem Invariant.release {s t : Registry} (h : Invariant s) (hstep : s.step .release = some t) :
    Invariant t := by
  simp only [step] at hstep
  split at hstep
  · rename_i old hholder
    cases hstep
    have hkept : ∀ id m, s.modules id = some (.wasm m) → m ∉ s.detached := fun id m hm =>
      h.kept id m hm (by rw [hholder]; simp)
    have hfewer : ∀ x, ({ s with holder := none } : Registry).Refers x → s.Refers x := by
      intro x hx
      rcases hx with hx | hx | hx
      · exact Or.inl hx
      · exact Or.inr (Or.inl hx)
      · cases hx
    have hplaced : ∀ x, ({ s with holder := none } : Registry).Attached x →
        s.modules x.id = some (.wasm x) := by
      intro x hx
      rcases hx.1 with hflight | hplace | hcritical
      · rcases h.placed x ⟨hfewer x hx.1, hx.2⟩ with hplace | hcritical
        · exact hplace
        · exact absurd hflight (h.replaced x hcritical hx.2)
      · exact hplace
      · cases hcritical
    have hplaces : Places { s with holder := none } :=
      ⟨h.key, fun id m hm _ => hkept id m hm, fun _ _ hm => (by cases hm), fun x hx => Or.inl (hplaced x hx),
        fun _ hx => (by cases hx)⟩
    cases old with
    | wasm m =>
      refine h.dropped ⟨rfl, rfl, rfl, rfl, hfewer⟩ ?_ hplaces (Or.inr (Or.inr hholder))
      intro x hne hx
      rcases hx with hx | hx | hx
      · exact Or.inl hx
      · exact Or.inr (Or.inl hx)
      · rw [hholder] at hx
        cases hx
        exact absurd rfl hne
    | sharedLibrary id libraryPath =>
      have hloses : Loses s { s with holder := none } := ⟨rfl, rfl, rfl, rfl, hfewer⟩
      refine ⟨hplaces, hloses.owners h.toOwners fun x hx => ?_⟩
      rcases hx.1 with hx | hx | hx
      · exact Or.inl hx
      · exact Or.inr (Or.inl hx)
      · rw [hholder] at hx
        cases hx
  · cases hstep

theorem Invariant.dispose {s t : Registry} (h : Invariant s) {id : String}
    (hstep : s.step (.dispose id) = some t) : Invariant t := by
  simp only [step] at hstep
  split at hstep
  · rename_i module hholder hmodule
    cases hstep
    have hrefers : ∀ x, ({ s with holder := some (.unloading id) } : Registry).Refers x ↔ s.Refers x := by
      intro x
      simp [Refers, hholder]
    have hloses : Loses s { s with holder := some (.unloading id) } :=
      ⟨rfl, rfl, rfl, rfl, fun x => (hrefers x).mp⟩
    have hplaced : ∀ x, s.Attached x → s.modules x.id = some (.wasm x) := by
      intro x hx
      rcases h.placed x hx with hplace | hcritical
      · exact hplace
      · rw [hholder] at hcritical
        cases hcritical
    have hkept : ∀ id' x, s.modules id' = some (.wasm x) → x ∉ s.detached := fun id' x hx =>
      h.kept id' x hx (by rw [hholder]; simp)
    cases module with
    | sharedLibrary id' libraryPath =>
      refine ⟨⟨h.key, fun id' x hx _ => hkept id' x hx, ?_, fun x hx => ?_, fun _ hx => (by cases hx)⟩,
        hloses.owners h.toOwners fun x hx => (hrefers x).mpr hx.1⟩
      · intro id' x hunloading hx
        cases hunloading
        rw [show s.modules id = some (.wasm x) from hx] at hmodule
        cases hmodule
      · exact Or.inl (hplaced x (hloses.attached_of hx))
    | wasm m =>
      have hid := h.key id m hmodule
      subst hid
      have hfresh := hkept m.id m hmodule
      have hsame : ({ s.dispose (.wasm m) with holder := some (.unloading m.id) } : Registry) =
          ({ s with holder := some (.unloading m.id) } : Registry).disposeWasm m := by
        simp [Registry.dispose, disposeWasm, hfresh]
      rw [hsame]
      refine ⟨?_, hloses.owners_disposeWasm h.toOwners (fun x _ hx => (hrefers x).mpr hx)
        (Or.inr (Or.inl hmodule)) hfresh⟩
      rw [disposeWasm, if_neg hfresh]
      refine ⟨h.key, ?_, ?_, ?_, fun _ hx => (by cases hx)⟩
      · intro id' x hx hother
        refine List.not_mem_cons_of_ne_of_not_mem (fun heq => hother ?_) (hkept id' x hx)
        rw [← heq, h.key id' x hx]
      · intro id' x hunloading hx
        cases hunloading
        rw [show s.modules m.id = some (.wasm x) from hx] at hmodule
        cases hmodule
        exact List.mem_cons_self
      · intro x hx
        exact Or.inl (hplaced x ⟨(hrefers x).mp hx.1, List.not_mem_of_not_mem_cons hx.2⟩)
  · cases hstep

theorem loses_erase (s : Registry) (id : String) : Loses s { s with
    modules := Function.update s.modules id none, holder := none } := by
  refine ⟨rfl, rfl, rfl, rfl, fun x hx => ?_⟩
  rcases hx with hx | hx | hx
  · exact Or.inl hx
  · rcases update_cases hx with ⟨_, heq⟩ | ⟨_, hx⟩
    · cases heq
    · exact Or.inr (Or.inl hx)
  · cases hx

/-- The module that is erased has been disposed, so every attached one keeps its place. -/
theorem Places.erase {s : Registry} (h : Places s) {id : String}
    (hholder : s.holder = some (.unloading id)) : Places { s with
      modules := Function.update s.modules id none, holder := none } where
  key := by
    intro id' x hx
    rcases update_cases hx with ⟨_, heq⟩ | ⟨_, hx⟩
    · cases heq
    · exact h.key id' x hx
  kept := by
    intro id' x hx _
    rcases update_cases hx with ⟨_, heq⟩ | ⟨hid, hx⟩
    · cases heq
    · exact h.kept id' x hx (by rw [hholder]; simpa using hid.symm)
  unloaded := fun _ _ hx => by cases hx
  placed := by
    intro x hx
    left
    have hplace : s.modules x.id = some (.wasm x) := by
      rcases h.placed x ((loses_erase s id).attached_of hx) with hplace | hcritical
      · exact hplace
      · rw [hholder] at hcritical
        cases hcritical
    by_cases hid : x.id = id
    · rw [hid] at hplace
      exact absurd (h.unloaded id x hholder hplace) hx.2
    · exact (Function.update_of_ne hid none s.modules).trans hplace
  replaced := fun _ hx => by cases hx

theorem Invariant.erase {s t : Registry} (h : Invariant s) (hstep : s.step .erase = some t) :
    Invariant t := by
  simp only [step] at hstep
  split at hstep
  · rename_i id hholder
    split at hstep
    · rename_i module hmodule
      cases hstep
      have hothers : ∀ x, module ≠ .wasm x → s.Refers x → ({ s with
          modules := Function.update s.modules id none, holder := none } : Registry).Refers x := by
        intro x hne hx
        rcases hx with hx | hx | hx
        · exact Or.inl hx
        · by_cases hid : x.id = id
          · rw [hid, hmodule] at hx
            cases hx
            exact absurd rfl hne
          · exact Or.inr (Or.inl ((Function.update_of_ne hid none s.modules).trans hx))
        · rw [hholder] at hx
          cases hx
      cases module with
      | wasm m =>
        have hid := h.key id m hmodule
        refine h.dropped (loses_erase s id) (fun x hne hx => hothers x ?_ hx) (h.toPlaces.erase hholder)
          (Or.inr (Or.inl (hid.symm ▸ hmodule)))
        intro heq
        cases heq
        exact hne rfl
      | sharedLibrary id' libraryPath =>
        exact ⟨h.toPlaces.erase hholder,
          (loses_erase s id).owners h.toOwners fun x hx => hothers x (by simp) hx.1⟩
    · cases hstep
  · cases hstep

/-! ## Calls -/

theorem Invariant.acquire {s t : Registry} (h : Invariant s) {id : String}
    (hstep : s.step (.acquire id) = some t) : Invariant t := by
  simp only [step] at hstep
  split at hstep
  · rename_i module hholder hmodule
    cases hstep
    have hfewer : ∀ x, ({ s with inFlight := module :: s.inFlight } : Registry).Refers x →
        s.Refers x := by
      intro x hx
      rcases hx with hx | hx | hx
      · rcases List.mem_cons.mp hx with heq | hx
        · rw [← heq] at hmodule
          exact Or.inr (Or.inl ((h.key id x hmodule).symm ▸ hmodule))
        · exact Or.inl hx
      · exact Or.inr (Or.inl hx)
      · exact Or.inr (Or.inr hx)
    have hloses : Loses s { s with inFlight := module :: s.inFlight } := ⟨rfl, rfl, rfl, rfl, hfewer⟩
    refine ⟨⟨h.key, h.kept, h.unloaded, fun x hx => h.placed x (hloses.attached_of hx), ?_⟩,
      hloses.owners h.toOwners fun x hx => ?_⟩
    · intro x hx
      rw [show s.holder = some (.replacing (.wasm x)) from hx] at hholder
      cases hholder
    · exact hx.1.imp_left (List.mem_cons_of_mem _)
  · cases hstep

theorem Invariant.finish {s t : Registry} (h : Invariant s) {module : NativeModule}
    (hstep : s.step (.finish module) = some t) : Invariant t := by
  simp only [step] at hstep
  split at hstep
  · rename_i hmem
    cases hstep
    have hfewer : ∀ x, ({ s with inFlight := s.inFlight.erase module } : Registry).Refers x →
        s.Refers x := fun x hx => hx.imp_left List.mem_of_mem_erase
    have hothers : ∀ x, module ≠ .wasm x → s.Refers x →
        ({ s with inFlight := s.inFlight.erase module } : Registry).Refers x := fun x hne hx =>
      hx.imp_left fun hflight => (List.mem_erase_of_ne hne.symm).mpr hflight
    have hloses : Loses s { s with inFlight := s.inFlight.erase module } :=
      ⟨rfl, rfl, rfl, rfl, hfewer⟩
    have hplaces : Places { s with inFlight := s.inFlight.erase module } :=
      ⟨h.key, h.kept, h.unloaded, fun x hx => h.placed x (hloses.attached_of hx),
        fun x hx hfresh hflight => h.replaced x hx hfresh (List.mem_of_mem_erase hflight)⟩
    cases module with
    | wasm m =>
      refine h.dropped hloses (fun x hne hx => hothers x ?_ hx) hplaces (Or.inl hmem)
      intro heq
      cases heq
      exact hne rfl
    | sharedLibrary id libraryPath =>
      exact ⟨hplaces, hloses.owners h.toOwners fun x hx => hothers x (by simp) hx.1⟩
  · cases hstep

/-! ## Whole runs -/

theorem Invariant.step {s t : Registry} {a : RegistryAction} (h : Invariant s)
    (hallowed : s.OneAtATime a) (hstep : s.step a = some t) : Invariant t := by
  cases a with
  | loadEntry id => exact h.loadEntry hallowed hstep
  | register m => exact h.register hstep
  | registerLibrary id libraryPath => exact h.registerLibrary hallowed hstep
  | release => exact h.release hstep
  | dispose id => exact h.dispose hstep
  | erase => exact h.erase hstep
  | acquire id => exact h.acquire hstep
  | finish module => exact h.finish hstep

/-- In every run that loads one module of an id at a time, the two maps agree whenever no
load or unload is half-way. -/
theorem registry_consistent {actions : List RegistryAction} {s : Registry}
    (hmeets : Meets step OneAtATime empty actions) (hrun : runAll step empty actions = some s)
    (hquiet : s.Quiet) : s.Consistent := by
  have hinvariant : Invariant s :=
    runAll_invariant (fun _ _ _ h => h.step) actions invariant_empty hmeets hrun
  exact hinvariant.consistent hquiet

/-- A module is unloaded and loaded again while a call still holds the first object. -/
def reloaded : List RegistryAction :=
  [.loadEntry "a", .register ⟨"a", 0⟩, .acquire "a", .dispose "a", .erase, .loadEntry "a",
    .register ⟨"a", 1⟩, .finish (.wasm ⟨"a", 0⟩)]

theorem reloaded_meets : Meets step OneAtATime empty reloaded := by
  refine .cons ⟨by simp [Attached, Refers, empty], by simp [empty]⟩ rfl ?_
  refine .cons trivial rfl ?_
  refine .cons trivial rfl ?_
  refine .cons trivial rfl ?_
  refine .cons trivial rfl ?_
  refine .cons ⟨?_, List.forall_mem_nil _⟩ rfl ?_
  · -- the first object is held by the call, and disposed
    rintro m ⟨hflight | hplace | hcritical, hfresh⟩ hid
    · cases List.mem_singleton.mp hflight
      exact hfresh List.mem_cons_self
    · rw [hid] at hplace
      cases hplace
    · cases hcritical
  refine .cons trivial rfl ?_
  exact ⟨trivial, fun _ _ => trivial⟩

theorem registry_consistent_reloaded :
    ∃ s, runAll step empty reloaded = some s ∧ s.entries "a" = some 1 ∧ s.Consistent :=
  ⟨_, rfl, rfl, registry_consistent reloaded_meets rfl ⟨rfl, rfl⟩⟩

/-- Loading an id twice: the destructor of the first module erases the entry of the second. -/
theorem registry_not_consistent : ¬ ∀ (actions : List RegistryAction) (s : Registry),
    runAll step empty actions = some s → s.Quiet → s.Consistent := by
  intro hall
  have hconsistent := hall [.loadEntry "a", .register ⟨"a", 0⟩, .loadEntry "a", .register ⟨"a", 1⟩, .release]
    _ rfl ⟨rfl, rfl⟩
  exact absurd (hconsistent.own "a" ⟨"a", 1⟩ rfl) (by decide)

end Registry

end CrossNative
