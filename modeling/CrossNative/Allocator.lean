import CrossNative.Placement

/-!
# Honest allocators

The blocks a module's allocator has given out and not taken back are ghost state of the
instance. An honest answer is null, or a block inside memory that touches no live block;
live blocks keep their bytes until somebody with a right to them writes.
-/

namespace CrossNative

set_option autoImplicit false

open Basis Proc

variable {σ : Type}

/-- Every live block of the first store is live in the second, with the same bytes. -/
structure Keeps (live : Store σ → List Block) (st st' : Store σ) : Prop where
  size : st.mem.size ≤ st'.mem.size
  alive : ∀ b ∈ live st, b ∈ live st'
  bytes : ∀ b ∈ live st, st'.mem.read b.start b.length = st.mem.read b.start b.length

theorem Keeps.refl (live : Store σ → List Block) (st : Store σ) : Keeps live st st :=
  ⟨Nat.le_refl _, fun _ h => h, fun _ _ => rfl⟩

theorem Keeps.trans {live : Store σ → List Block} {st₁ st₂ st₃ : Store σ} (h₁₂ : Keeps live st₁ st₂)
    (h₂₃ : Keeps live st₂ st₃) : Keeps live st₁ st₃ where
  size := Nat.le_trans h₁₂.size h₂₃.size
  alive b hb := h₂₃.alive b (h₁₂.alive b hb)
  bytes b hb := by rw [h₂₃.bytes b (h₁₂.alive b hb), h₁₂.bytes b hb]

/-- A block the allocator may answer with: new, inside memory and alive afterwards. -/
structure Granted (live : Store σ → List Block) (st st' : Store σ) (b : Block) : Prop where
  keeps : Keeps live st st'
  inside : b.stop ≤ st'.mem.size
  disjoint : ∀ c ∈ live st, b.Disjoint c
  alive : b ∈ live st'

def Store.fill (st : Store σ) (off : Nat) (bs : List UInt8) : Store σ :=
  { st with mem := st.mem.write off bs }

/-- A guest whose `cn_alloc` is honest about the blocks it gives out. -/
structure HonestAlloc (g : Guest σ) where
  live : Store σ → List Block
  exported : g.lookup kAllocFn = some ⟨kAllocFn, [.i32], [.i32]⟩
  grants : ∀ (size : BitVec 32) cells st st',
    g.run kAllocFn [.i32 size] st = (.ok cells, st') → (cells 0).setWidth 32 ≠ (0 : BitVec 32) →
    Granted live st st' ⟨((cells 0).setWidth 32 : BitVec 32).toNat, size.toNat⟩
  unnoticed : ∀ st (b : Block), b ∈ live st → ∀ bs : List UInt8, bs.length = b.length →
    live (st.fill b.start bs) = live st

namespace HonestAlloc

variable {g : Guest σ} (honest : HonestAlloc g)

theorem wasmAlloc_granted {size ptr : Nat} {h h' : Host σ} (hsize : size < 2 ^ 32)
    (hrun : wasmAlloc g size h = (.ok ptr, h')) :
    Granted honest.live h.store h'.store ⟨ptr, size⟩ ∧ 0 < ptr ∧ ptr < 2 ^ 32 ∧ h'.vals = h.vals := by
  unfold wasmAlloc at hrun
  simp only [honest.exported] at hrun
  cases hcall : g.run kAllocFn [.i32 (BitVec.ofNat 32 size)] h.store with
  | mk reply st =>
    cases reply with
    | error exc =>
      have hreply : callWasmA g ⟨kAllocFn, [.i32], [.i32]⟩ 1 [.i32 (BitVec.ofNat 32 size)] h =
          (.ok (.error (some exc)), { h with store := st }) := by
        simp [callWasmA, hcall]
      rw [bind_of_ok hreply] at hrun
      cases hrun
    | ok cells =>
      have hreply : callWasmA g ⟨kAllocFn, [.i32], [.i32]⟩ 1 [.i32 (BitVec.ofNat 32 size)] h =
          (.ok (.ok [.i32 ((cells 0).setWidth 32)]), { h with store := st }) := by
        simp [callWasmA, hcall, Val.ofCells]
      rw [bind_of_ok hreply] at hrun
      simp only [List.headD_cons, Val.ofI32_i32] at hrun
      split at hrun
      · cases hrun
      · rename_i hnull
        have hne : (cells 0).setWidth 32 ≠ (0 : BitVec 32) := fun hz => hnull (by rw [hz]; rfl)
        have hgrant := honest.grants _ cells h.store st hcall hne
        simp only [bind, record, Proc.modify, pure, Prod.mk.injEq, Except.ok.injEq] at hrun
        obtain ⟨rfl, rfl⟩ := hrun
        rw [BitVec.toNat_ofNat, Nat.mod_eq_of_lt hsize] at hgrant
        exact ⟨hgrant, Nat.pos_of_ne_zero hnull, BitVec.isLt _, rfl⟩

end HonestAlloc

theorem Granted.fill {live : Store σ → List Block} {st st' : Store σ} {b : Block}
    (h : Granted live st st' b) {bs : List UInt8} (hlen : bs.length = b.length)
    (hunnoticed : live (st'.fill b.start bs) = live st') :
    Keeps live st (st'.fill b.start bs) ∧ b ∈ live (st'.fill b.start bs) ∧
      (st'.fill b.start bs).mem.read b.start b.length = bs := by
  refine ⟨⟨?_, fun c hc => ?_, fun c hc => ?_⟩, ?_, ?_⟩
  · exact h.keeps.size
  · rw [hunnoticed]
    exact h.keeps.alive c hc
  · rw [← h.keeps.bytes c hc]
    apply Memory.read_write_of_disjoint
    rw [hlen]
    exact (h.disjoint c hc).symm
  · rw [hunnoticed]
    exact h.alive
  · rw [← hlen]
    exact Memory.read_write_same _ _ _

end CrossNative
