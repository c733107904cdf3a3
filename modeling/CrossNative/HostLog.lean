import CrossNative.Runtime

/-!
# What the host's operations leave in the log

One lemma for each operation that talks to the module: its reply, the store after it
and the events it appends. Everything proved about whole calls is read off these.
-/

namespace CrossNative

set_option autoImplicit false

open Basis

namespace Event

/-- Every byte the host touches has an offset below the memory size of that moment. -/
def InBounds : Event → Prop
  | reads r size | writes r size => ∀ a, r.start ≤ a → a < r.stop → a < size
  | _ => True

/-- A range that starts inside memory also ends inside it. -/
def Fits : Event → Prop
  | handed r size => size ≤ r.start ∨ r.stop ≤ size
  | _ => True

def memSize : Event → Nat
  | handed _ size | reads _ size | writes _ size => size
  | _ => 0

def allocated? : Event → Option Block
  | allocated b => some b
  | _ => none

def freed? : Event → Option Block
  | freed b => some b
  | _ => none

end Event

def allocatedOf (log : List Event) : List Block := log.filterMap Event.allocated?

def freedOf (log : List Event) : List Block := log.filterMap Event.freed?

@[simp] theorem allocatedOf_nil : allocatedOf [] = [] := rfl

@[simp] theorem freedOf_nil : freedOf [] = [] := rfl

@[simp] theorem allocatedOf_append (l₁ l₂ : List Event) :
    allocatedOf (l₁ ++ l₂) = allocatedOf l₁ ++ allocatedOf l₂ := List.filterMap_append

@[simp] theorem freedOf_append (l₁ l₂ : List Event) :
    freedOf (l₁ ++ l₂) = freedOf l₁ ++ freedOf l₂ := List.filterMap_append

@[simp] theorem allocatedOf_map_freed (blocks : List Block) : allocatedOf (blocks.map Event.freed) = [] :=
  List.filterMap_eq_nil_iff.mpr (by simp [Event.allocated?])

@[simp] theorem freedOf_map_freed (blocks : List Block) : freedOf (blocks.map Event.freed) = blocks := by
  rw [freedOf, List.filterMap_map]
  exact List.filterMap_some

variable {σ : Type}

/-- The host between two points of one call: events and blocks are only added, and
memory does not shrink. -/
structure Extends (Q : List Event → List Allocation → Prop) (h h' : Host σ) : Prop where
  grows : h.store.mem.size ≤ h'.store.mem.size
  added : ∃ events blocks, h'.log = h.log ++ events ∧ h'.allocations = h.allocations ++ blocks ∧
    (∀ e ∈ events, e.memSize ≤ h'.store.mem.size) ∧ Q events blocks

/-- What holds of stretches that return (`Q`) and of one that fails at its end (`E`). -/
class Additive (Q E : List Event → List Allocation → Prop) : Prop where
  nil : Q [] []
  append : ∀ {e₁ e₂ b₁ b₂}, Q e₁ b₁ → Q e₂ b₂ → Q (e₁ ++ e₂) (b₁ ++ b₂)
  failed : E [] []
  after : ∀ {e₁ e₂ b₁ b₂}, Q e₁ b₁ → E e₂ b₂ → E (e₁ ++ e₂) (b₁ ++ b₂)

section Extends

variable {Q E : List Event → List Allocation → Prop}

theorem Extends.refl (hnil : Q [] []) (h : Host σ) : Extends Q h h :=
  ⟨Nat.le_refl _, [], [], by simp, by simp, by simp, hnil⟩

theorem Extends.trans {Q₁ Q₂ : List Event → List Allocation → Prop} {h₁ h₂ h₃ : Host σ}
    (happend : ∀ {e₁ e₂ b₁ b₂}, Q₁ e₁ b₁ → Q₂ e₂ b₂ → Q (e₁ ++ e₂) (b₁ ++ b₂))
    (h₁₂ : Extends Q₁ h₁ h₂) (h₂₃ : Extends Q₂ h₂ h₃) : Extends Q h₁ h₃ := by
  obtain ⟨hgrow, e₁, b₁, hlog, hblocks, hsize, hQ⟩ := h₁₂
  obtain ⟨hgrow', e₂, b₂, hlog', hblocks', hsize', hQ'⟩ := h₂₃
  refine ⟨Nat.le_trans hgrow hgrow', e₁ ++ e₂, b₁ ++ b₂, ?_, ?_, ?_, happend hQ hQ'⟩
  · rw [hlog', hlog, List.append_assoc]
  · rw [hblocks', hblocks, List.append_assoc]
  · intro e he
    rcases List.mem_append.mp he with he | he
    · exact Nat.le_trans (hsize e he) hgrow'
    · exact hsize' e he

instance [Additive Q E] : Proc.Sequential (Extends (σ := σ) Q) (Extends E) where
  refl := Extends.refl (Additive.nil E)
  trans := Extends.trans (Additive.append E)
  failed := Extends.refl (Additive.failed Q)
  after := Extends.trans Additive.after

theorem Extends.of_store (hnil : Q [] []) {h : Host σ} {st : Store σ}
    (hgrow : h.store.mem.size ≤ st.mem.size) : Extends Q h { h with store := st } :=
  ⟨hgrow, [], [], by simp, by simp, by simp, hnil⟩

theorem Extends.of_vals (hnil : Q [] []) (h : Host σ) (vals : List Val) :
    Extends Q h { h with vals := vals } :=
  ⟨Nat.le_refl _, [], [], by simp, by simp, by simp, hnil⟩

end Extends

/-! ## Calls into the module -/

theorem callWasmA_run (g : Guest σ) (func : Func) (n : Nat) (args : List Val) (h : Host σ) :
    ∃ reply st, callWasmA g func n args h = (.ok reply, { h with store := st }) ∧
      h.store.mem.size ≤ st.mem.size := by
  unfold callWasmA
  split
  · exact ⟨.error none, h.store, rfl, Nat.le_refl _⟩
  · split
    · exact ⟨.error none, h.store, rfl, Nat.le_refl _⟩
    · have hgrow := g.grows func.name args h.store
      cases hrun : g.run func.name args h.store with
      | mk reply st =>
        rw [hrun] at hgrow
        cases reply with
        | error exc => exact ⟨.error (some exc), st, rfl, hgrow⟩
        | ok cells => exact ⟨.ok _, st, rfl, hgrow⟩

theorem wasmAlloc_run (g : Guest σ) (size : Nat) (h : Host σ) :
    ∃ st, h.store.mem.size ≤ st.mem.size ∧
      ((∃ ptr, 0 < ptr ∧ ptr < 2 ^ 32 ∧ wasmAlloc g size h =
          (.ok ptr, { h with store := st, log := h.log ++ [.allocated ⟨ptr, size⟩] })) ∨
        ∃ reason, wasmAlloc g size h = (.error (.error reason), { h with store := st })) := by
  unfold wasmAlloc
  cases g.lookup kAllocFn with
  | none => exact ⟨h.store, Nat.le_refl _, Or.inr ⟨_, rfl⟩⟩
  | some func =>
    obtain ⟨reply, st, hcall, hgrow⟩ := callWasmA_run g func 1 [.i32 (BitVec.ofNat 32 size)] h
    refine ⟨st, hgrow, ?_⟩
    simp only [Proc.bind_of_ok hcall]
    cases reply with
    | error exc => exact Or.inr ⟨_, rfl⟩
    | ok rets =>
      by_cases hnull : (rets.headD (.i32 0)).ofI32.toNat = 0
      · simp only [hnull, if_true]
        exact Or.inr ⟨_, rfl⟩
      · simp only [hnull, if_false]
        exact Or.inl ⟨_, Nat.pos_of_ne_zero hnull, BitVec.isLt _, rfl⟩

def freeEvents (g : Guest σ) (b : Block) : List Event := if g.frees then [.freed b] else []

theorem wasmFree_log (g : Guest σ) (ptr size : Nat) (h : Host σ) :
    ∃ st, h.store.mem.size ≤ st.mem.size ∧ wasmFree g ptr size h =
      (.ok (), { h with store := st, log := h.log ++ freeEvents g ⟨ptr, size⟩ }) := by
  unfold wasmFree
  cases hfree : g.lookup kFreeFn with
  | none =>
    have hnone : freeEvents g ⟨ptr, size⟩ = [] := if_neg (by simp [Guest.frees, hfree])
    exact ⟨h.store, Nat.le_refl _, by rw [hnone, List.append_nil]; rfl⟩
  | some func =>
    have hevents : freeEvents g ⟨ptr, size⟩ =
        if func.type = freeType then [.freed ⟨ptr, size⟩] else [] := by
      simp [freeEvents, Guest.frees, hfree]
    have hrecord : recordFreed func ⟨ptr, size⟩ h =
        (.ok (), { h with log := h.log ++ freeEvents g ⟨ptr, size⟩ }) := by
      rw [hevents, recordFreed]
      split
      · rfl
      · rw [List.append_nil]
        rfl
    obtain ⟨reply, st, hcall, hgrow⟩ := callWasmA_run g func 0
      [.i32 (BitVec.ofNat 32 ptr), .i32 (BitVec.ofNat 32 size)]
      { h with log := h.log ++ freeEvents g ⟨ptr, size⟩ }
    refine ⟨st, hgrow, ?_⟩
    simp only
    rw [Proc.bind_of_ok hrecord, Proc.bind_of_ok hcall]
    rfl

/-! ## Placing a block -/

def Host.placed (h : Host σ) (st : Store σ) (a : Allocation) (size touched : Nat) : Host σ :=
  { h with
    store := st
    allocations := h.allocations ++ [a]
    log := h.log ++ [.allocated ⟨a.appPtr, size⟩, .handed ⟨a.appPtr, touched⟩ st.mem.size] }

theorem placeBlock_of_alloc {g : Guest σ} {size : Nat} {describe : Nat → Allocation}
    {fill : Nat → HostProc σ Unit} (hdescribe : ∀ p, (describe p).appPtr = p) {h : Host σ} {ptr : Nat}
    {st : Store σ} (halloc : wasmAlloc g size h =
      (.ok ptr, { h with store := st, log := h.log ++ [.allocated ⟨ptr, size⟩] })) (touched : Nat) :
    placeBlock g size describe touched fill h =
      if ptr < st.mem.size then
        (fill ptr >>= fun _ => pure ptr) (h.placed st (describe ptr) size touched)
      else (.error (.error "WASM memory access out of bounds"),
        h.placed st (describe ptr) size touched) := by
  have hhost : h.placed st (describe ptr) size touched =
      { h with
        store := st
        allocations := h.allocations ++ [describe ptr]
        log := (h.log ++ [.allocated ⟨ptr, size⟩]) ++ [.handed ⟨ptr, touched⟩ st.mem.size] } := by
    simp [Host.placed, hdescribe]
  rw [hhost]
  unfold placeBlock
  rw [Proc.bind_of_ok halloc]
  by_cases hin : ptr < st.mem.size
  · rw [if_pos hin]
    simp only [bind, pushAllocation, Proc.modify, handOver, nativePtr, hin, decide_true]
    rfl
  · rw [if_neg hin]
    simp only [bind, pushAllocation, Proc.modify, handOver, nativePtr, hin, decide_false]
    rfl

/-- `placeBlock` either gets no block, or gets one outside memory, or fills it. -/
theorem placeBlock_run (g : Guest σ) (size : Nat) (describe : Nat → Allocation) (touched : Nat)
    (fill : Nat → HostProc σ Unit) (hdescribe : ∀ p, (describe p).appPtr = p) (h : Host σ) :
    ∃ st, h.store.mem.size ≤ st.mem.size ∧
      ((∃ reason, placeBlock g size describe touched fill h =
          (.error (.error reason), { h with store := st })) ∨
        ∃ ptr, 0 < ptr ∧ ptr < 2 ^ 32 ∧ placeBlock g size describe touched fill h =
          if ptr < st.mem.size then
            (fill ptr >>= fun _ => pure ptr) (h.placed st (describe ptr) size touched)
          else (.error (.error "WASM memory access out of bounds"),
            h.placed st (describe ptr) size touched)) := by
  obtain ⟨st, hgrow, ⟨ptr, hpos, hlt, halloc⟩ | ⟨reason, halloc⟩⟩ := wasmAlloc_run g size h
  · exact ⟨st, hgrow, Or.inr ⟨ptr, hpos, hlt, placeBlock_of_alloc hdescribe halloc touched⟩⟩
  · exact ⟨st, hgrow, Or.inl ⟨reason, by rw [placeBlock, Proc.bind_of_error halloc]⟩⟩

end CrossNative
