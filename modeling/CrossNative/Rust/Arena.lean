import CrossNative.Allocator
import CrossNative.Rust.Module

/-!
# Honest global allocators

An honest heap makes the module's `cn_alloc` honest. The arena hands out the bytes of
linear memory from the bottom up and takes none back, which is as honest as it gets.
-/

namespace CrossNative.Rust

set_option autoImplicit false

open Basis

variable {σ : Type}

/-- A global allocator that never traps and answers with null or with a granted block. -/
structure Heap.Honest (heap : Heap σ) where
  live : Store σ → List Block
  answers : ∀ size st, 0 < size → size ≤ maxLayout → ∃ ptr st',
    heap.alloc size st = (.ok ptr, st') ∧ (ptr ≠ 0 → Granted live st st' ⟨ptr.toNat, size⟩)
  unnoticed : ∀ st (b : Block), b ∈ live st → ∀ bs : List UInt8, bs.length = b.length →
    live (st.fill b.start bs) = live st

namespace RustModule

variable {m : RustModule σ}

theorem run_alloc (size : BitVec 32) (st : Store σ) :
    m.guest.run kAllocFn [.i32 size] st =
      ((cnAlloc m.heap size.toNat st).1.map fun ptr _ => ptr.setWidth 64,
        (cnAlloc m.heap size.toNat st).2) := by
  simp only [guest, run, if_true, List.getD_cons_zero, Val.ofI32_i32]

def honestAlloc (honest : m.heap.Honest) : HonestAlloc m.guest where
  live := honest.live
  exported := m.lookup_alloc
  grants size cells st st' hrun hne := by
    rw [run_alloc] at hrun
    unfold cnAlloc at hrun
    by_cases hzero : size.toNat = 0
    · simp only [hzero, if_true, Except.map, Prod.mk.injEq, Except.ok.injEq] at hrun
      obtain ⟨rfl, rfl⟩ := hrun
      exact absurd rfl hne
    · simp only [hzero, if_false] at hrun
      by_cases hlayout : size.toNat ≤ maxLayout
      · obtain ⟨ptr, st₁, halloc, hgrant⟩ :=
          honest.answers size.toNat st (Nat.pos_of_ne_zero hzero) hlayout
        simp only [hlayout, if_true, halloc, Except.map, Prod.mk.injEq, Except.ok.injEq] at hrun
        obtain ⟨rfl, rfl⟩ := hrun
        have hptr : (ptr.setWidth 64).setWidth 32 = ptr := by simp
        rw [hptr] at hne ⊢
        exact hgrant hne
      · simp only [hlayout, if_false, Except.map, Prod.mk.injEq, Except.ok.injEq] at hrun
        obtain ⟨rfl, rfl⟩ := hrun
        exact absurd rfl hne
  unnoticed := honest.unnoticed

end RustModule

/-- The blocks given out so far, all below the next free address. -/
structure Arena where
  blocks : List Block
  top : Nat
  top_pos : 0 < top
  below : ∀ b ∈ blocks, b.stop ≤ top

def Arena.take (a : Arena) (size : Nat) : Arena where
  blocks := ⟨a.top, size⟩ :: a.blocks
  top := a.top + size
  top_pos := Nat.lt_of_lt_of_le a.top_pos (Nat.le_add_right _ _)
  below := List.forall_mem_cons.mpr
    ⟨Nat.le_refl _, fun b hb => Nat.le_trans (a.below b hb) (Nat.le_add_right _ _)⟩

def arenaHeap : Heap Arena where
  alloc size st :=
    if st.guest.top + size < st.mem.size then
      (.ok (BitVec.ofNat 32 st.guest.top), { st with guest := st.guest.take size })
    else (.ok 0, st)
  dealloc _ _ st := (.ok (), st)
  alloc_grows size st := by split <;> exact Nat.le_refl _
  dealloc_grows _ _ st := Nat.le_refl _

def arenaHonest : arenaHeap.Honest where
  live st := st.guest.blocks
  answers size st _ _ := by
    by_cases hroom : st.guest.top + size < st.mem.size
    · refine ⟨BitVec.ofNat 32 st.guest.top, { st with guest := st.guest.take size },
        by simp only [arenaHeap, hroom, if_true], fun _ => ?_⟩
      have hcap := st.mem.size_le
      have htop : (BitVec.ofNat 32 st.guest.top).toNat = st.guest.top := by
        rw [BitVec.toNat_ofNat, Nat.mod_eq_of_lt (by omega)]
      rw [htop]
      refine ⟨⟨Nat.le_refl _, fun b hb => List.mem_cons_of_mem _ hb, fun _ _ => rfl⟩,
        Nat.le_of_lt hroom, fun c hc => Or.inr (st.guest.below c hc), List.mem_cons_self⟩
    · exact ⟨0, st, by simp only [arenaHeap, hroom, if_false], fun h => absurd rfl h⟩
  unnoticed _ _ _ _ _ := rfl

/-- A module of one function over the arena; running it only computes its value. -/
def arenaModule (f : RustFn) (distinct : (exportNames [f]).Nodup) : RustModule Arena where
  functions := [f]
  distinct := distinct
  heap := arenaHeap
  toolchain := default
  work _ _ st := st
  work_grows _ _ _ := Nat.le_refl _

def arenaStore (size : Nat) (h : size ≤ 2 ^ 32) : Store Arena :=
  ⟨⟨[], 8, by decide, by simp⟩, ⟨size, h, fun _ => 0⟩⟩

/-- `fn join(values: Vec<u16>, name: &str, k: i8) -> Vec<u16>`. -/
def joinDecl : FnDecl where
  name := ⟨"join", by decide⟩
  params := [⟨⟨"values", by decide⟩, .slice (.elem .u16) true⟩, ⟨⟨"name", by decide⟩, .text false⟩,
    ⟨⟨"k", by decide⟩, .scalar (.elem .i8)⟩]
  returns := .slice (.elem .u16) true

def joinBody : List RustValue → RustValue
  | .vec (.elem .u16) vs :: _ => .vec (.elem .u16) vs
  | _ => .vec (.elem .u16) []

theorem joinBody_hasKind (values : List RustValue) :
    (joinBody values).HasKind (.slice (.elem .u16) true) := by
  unfold joinBody
  split <;> rfl

def joinFn : RustFn where
  decl := joinDecl
  body values := some (joinBody values)
  body_typed values v h := by
    cases h
    exact joinBody_hasKind values

def joinModule : RustModule Arena := arenaModule joinFn (by decide)

def joinSig : Signature where
  params := [⟨"values", .vector .u16⟩, ⟨"name", .text⟩, ⟨"k", .scalar .i8⟩]
  returns := .vector .u16

def joinArgs : List Json := [.arr [.int 258, .int (-1)], .str "né", .int (-3)]

theorem sampleMemory_le : 64 ≤ 2 ^ 32 := by decide

def joinHost : Host Arena := Host.start (arenaStore 64 sampleMemory_le)

def joinEntry : ModuleEntry := ⟨["cn_alloc", "cn_free", "join", "__cn_meta_join"], [("join", joinSig)], []⟩

end CrossNative.Rust
