import CrossNative.CallLog
import CrossNative.Rust.Arena
import CrossNative.Rust.Handle

/-!
# Typed calls of macro-built functions

Once binding has succeeded and the counts agree, the outcome of a call is decided by the
shim: a trap, or the value of the body, carried back through its result slot.
-/

namespace CrossNative.Rust

set_option autoImplicit false

open Basis Proc

variable {σ : Type}

/-! ## Typed blocks are not read back -/

def NoReadBack (h h' : Host σ) : Prop :=
  (∀ a ∈ h.allocations, a.readBack = false) → ∀ a ∈ h'.allocations, a.readBack = false

instance : Bindable (NoReadBack (σ := σ)) NoReadBack where
  refl _ hall := hall
  trans h₁ h₂ hall := h₂ (h₁ hall)
  failed _ hall := hall
  after h₁ h₂ hall := h₂ (h₁ hall)
  vals _ _ hall := hall

theorem noReadBack_bytes (g : Guest σ) : PlacesBytes NoReadBack NoReadBack g := by
  intro data count _ h
  have hplaced (st : Store σ) (ptr : Nat) :
      NoReadBack h (h.placed st ⟨ptr, data.length, count, .u8, false⟩ data.length data.length) := by
    intro hall
    simp only [Host.placed, List.forall_mem_append, List.forall_mem_singleton, and_true]
    exact hall
  obtain ⟨st, _, ⟨reason, hrun⟩ | ⟨ptr, _, _, hrun⟩⟩ := placeBlock_run g data.length
    (fun appPtr => ⟨appPtr, data.length, count, .u8, false⟩) data.length
    (fun mem => writeBytes mem data) (fun _ => rfl) h
  · rw [hrun]
    exact fun hall => hall
  · rw [hrun]
    by_cases hin : ptr < st.mem.size
    · rw [if_pos hin]
      exact hplaced st ptr
    · rw [if_neg hin]
      exact hplaced st ptr

theorem readBlocks_of_noReadBack (P : Platform) {blocks : List Allocation}
    (hall : ∀ a ∈ blocks, a.readBack = false) (h : Host σ) : readBlocks P blocks h = (.ok [], h) := by
  induction blocks with
  | nil => rfl
  | cons a rest ih =>
    obtain ⟨ha, hrest⟩ := List.forall_mem_cons.mp hall
    simp [readBlocks, ha, ih hrest]

/-! ## The value of the body -/

/-- The document a returned value is expected to show. -/
def RustValue.shown : RustValue → Json
  | .scalar (.elem e) v => elemToJson (k := e) v
  | .vec (.elem e) vs => .arr (vs.map (elemToJson (k := e)))
  | .text s => .str s
  | _ => .null

/-- A call of a macro-built function whose signature the host has parsed. -/
structure TypedCall (σ : Type) where
  env : Env
  module : RustModule σ
  fn : RustFn
  exported : fn ∈ module.functions
  sig : Signature
  parsed : fn.decl.hostSignature = some sig
  entry : ModuleEntry
  listed : entry.signatures.lookup fn.decl.name.text = some sig
  moduleId : String
  args : List Json
  host : Host σ

namespace TypedCall

variable (c : TypedCall σ)

def func : Func := ⟨c.fn.decl.name.text, c.fn.decl.shimType⟩

def kinds : List Kind := c.fn.decl.params.map ParamDecl.kind

def run : Except Fault Envelope × Host σ :=
  callEntry c.env c.module.guest c.entry c.moduleId c.fn.decl.name.text (.ok (.arr c.args)) c.host

def binding : Except Fault Unit × Host σ :=
  bindCall c.env c.module.guest c.func c.args (some c.sig) { c.host with vals := [], allocations := [] }

/-- The call reaches the body of the function with `values`, and it computes `v`. -/
structure Reached (values : List RustValue) (v : RustValue) : Prop where
  bound : c.binding.1 = .ok ()
  slots : c.binding.2.vals.length = c.fn.decl.shimType.params.length
  decoded : decodeArgs c.module.toolchain c.binding.2.store.mem c.kinds c.binding.2.vals = some values
  body : c.fn.body values = some v

/-- The store in which the shim hands its value back. -/
def returnStore (values : List RustValue) : Store σ :=
  c.module.work c.fn.decl.name.text values c.binding.2.store

def finishedHost (st : Store σ) (cell : BitVec 64) : Host σ :=
  { c.binding.2 with
    store := st
    log := c.binding.2.log ++
      [.finished c.fn.decl.name.text (some (RustModule.shimResults c.fn.decl.returns cell))] }

theorem run_eq : c.run = withBinder c.module.guest
    (runCall c.env c.module.guest c.entry c.func c.args) c.host := by
  have hlookup : c.module.guest.lookup c.fn.decl.name.text = some c.func :=
    RustModule.lookup_function c.exported
  simp only [run, callEntry, hlookup]

theorem binding_noReadBack (a : Allocation) (ha : a ∈ c.binding.2.allocations) :
    a.readBack = false := by
  have hends : Ends NoReadBack NoReadBack (ArgumentBinder.bindTyped c.env.platform c.module.guest
      c.func c.args c.sig) :=
    bindTyped_ends (P := c.env.platform) (noReadBack_bytes c.module.guest) c.func c.args c.sig
  exact (hends.mapFault (prefixReason "argument binding")).state
    { c.host with vals := [], allocations := [] } (by simp) a ha

theorem readCall_finished (st : Store σ) (cell : BitVec 64) :
    readCall c.env c.module.guest (some c.sig) (RustModule.shimResults c.fn.decl.returns cell)
        (c.finishedHost st cell) =
      (readResult c.env.platform c.module.guest (some c.sig)
        (RustModule.shimResults c.fn.decl.returns cell) >>= fun result =>
        Proc.lift (respond c.env result [])) (c.finishedHost st cell) := by
  have houtputs : Proc.mapFault (prefixReason "reading output buffers")
      (ArgumentBinder.readOutputs c.env.platform) (c.finishedHost st cell) =
      (.ok [], c.finishedHost st cell) := by
    rw [mapFault_ok_iff]
    exact readBlocks_of_noReadBack c.env.platform c.binding_noReadBack _
  rw [readCall, bind_of_ok houtputs]

theorem runCall_of_reached {values : List RustValue} {v : RustValue} (hreached : c.Reached values v)
    {cell : BitVec 64} {st : Store σ}
    (hreturn : c.module.returnValue v (c.returnStore values) = (.ok cell, st)) :
    runCall c.env c.module.guest c.entry c.func c.args { c.host with vals := [], allocations := [] } =
      (readResult c.env.platform c.module.guest (some c.sig)
        (RustModule.shimResults c.fn.decl.returns cell) >>= fun result =>
        Proc.lift (respond c.env result [])) (c.finishedHost st cell) := by
  have hshim : c.module.runShim c.fn c.binding.2.vals c.binding.2.store = (.ok cell, st) :=
    RustModule.runShim_ok_iff.mpr ⟨values, v, hreached.decoded, hreached.body, hreturn⟩
  have hbind : bindCall c.env c.module.guest c.func c.args (some c.sig)
      { c.host with vals := [], allocations := [] } = (.ok (), c.binding.2) :=
    Prod.ext hreached.bound rfl
  have hcall : callWasmA c.module.guest c.func c.func.type.results.length c.binding.2.vals
      c.binding.2 = (.ok (.ok (RustModule.shimResults c.fn.decl.returns cell)),
        { c.binding.2 with store := st }) := by
    have h := RustModule.callWasmA_function c.exported c.binding.2.vals c.binding.2
    simp only [hreached.slots, ne_eq, not_true_eq_false, if_false, hshim] at h
    exact h
  rw [← c.readCall_finished]
  rcases runCall_cases c.env c.module.guest c.entry c.func c.args
      { c.host with vals := [], allocations := [] } c.listed with
    ⟨fault, h₁, hfail, _⟩ | ⟨h₁, st₁, hok, _, ⟨exc, htrap, _⟩ | ⟨results, hresults, hrun⟩⟩
  · rw [hbind] at hfail
    cases hfail
  · rw [hbind] at hok
    cases hok
    rw [hcall] at htrap
    cases htrap
  · rw [hbind] at hok
    cases hok
    rw [hcall] at hresults
    cases hresults
    exact hrun

/-- A call that succeeded has reached its body and taken the value back. -/
theorem reached_of_succeeded (h : Succeeded c.run.1) :
    ∃ values v cell st, c.Reached values v ∧
      c.module.returnValue v (c.returnStore values) = (.ok cell, st) := by
  rw [run_eq] at h
  have hsuccess := h.withBinder
  rcases runCall_cases c.env c.module.guest c.entry c.func c.args
      { c.host with vals := [], allocations := [] } c.listed with
    ⟨fault, h₁, _, hrun⟩ | ⟨h₁, st₁, hok, _, ⟨exc, _, hrun⟩ | ⟨results, hcall, hrun⟩⟩
  · rw [hrun] at hsuccess
    exact absurd hsuccess (not_succeeded_error _)
  · rw [hrun] at hsuccess
    exact absurd hsuccess (not_succeeded_error _)
  · have hbound : c.binding = (.ok (), h₁) := hok
    have hfunction := RustModule.callWasmA_function c.exported h₁.vals h₁
    have hsame : callWasmA c.module.guest c.func c.func.type.results.length h₁.vals h₁ =
        callWasmA c.module.guest ⟨c.fn.decl.name.text, c.fn.decl.shimType⟩
          c.fn.decl.shimType.results.length h₁.vals h₁ := rfl
    rw [hsame, hfunction] at hcall
    split at hcall
    · cases hcall
    · rename_i hslots
      cases hshim : c.module.runShim c.fn h₁.vals h₁.store with
      | mk reply st =>
        rw [hshim] at hcall
        cases reply with
        | error trap => cases hcall
        | ok cell =>
          obtain ⟨values, v, hdecode, hbody, hreturn⟩ := RustModule.runShim_ok_iff.mp hshim
          refine ⟨values, v, cell, st, ⟨by rw [hbound], ?_, ?_, hbody⟩, ?_⟩
          · rw [hbound]
            exact not_not.mp hslots
          · rw [hbound]
            exact hdecode
          · rw [returnStore, hbound]
            exact hreturn

end TypedCall

/-- A sample call over an instance with `size` bytes of memory. -/
def joinCall (size : Nat) (h : size ≤ 2 ^ 32) : TypedCall Arena where
  env := default
  module := joinModule
  fn := joinFn
  exported := List.mem_cons_self
  sig := joinSig
  parsed := rfl
  entry := joinEntry
  listed := rfl
  moduleId := "sample"
  args := joinArgs
  host := Host.start (arenaStore size h)

end CrossNative.Rust
