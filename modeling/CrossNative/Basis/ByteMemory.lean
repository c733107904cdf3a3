import Mathlib.Data.List.Basic
import Mathlib.Tactic.Ring

/-!
# Little-endian words and byte memories

A number is stored as its `n` low bytes, least significant first. A memory is a
current size and a byte for every address; only the addresses below the size
belong to it, so an access is judged by its range and never by its effect.
-/

namespace Basis

set_option autoImplicit false

/-- The `n` low bytes of a number, least significant first. -/
def leBytes : Nat → Nat → List UInt8
  | 0, _ => []
  | n + 1, v => UInt8.ofNat v :: leBytes n (v / 256)

def leValue : List UInt8 → Nat
  | [] => 0
  | b :: bs => b.toNat + 256 * leValue bs

@[simp] theorem leBytes_length (n v : Nat) : (leBytes n v).length = n := by
  induction n generalizing v with
  | zero => rfl
  | succ n ih => simp [leBytes, ih]

theorem leValue_leBytes (n v : Nat) : leValue (leBytes n v) = v % 256 ^ n := by
  induction n generalizing v with
  | zero => simp [leBytes, leValue, Nat.mod_one]
  | succ n ih =>
    have hbyte : (UInt8.ofNat v).toNat = v % 256 := by simp
    rw [leBytes, leValue, ih, hbyte, Nat.pow_succ, Nat.mul_comm (256 ^ n) 256, Nat.mod_mul]

theorem leValue_leBytes_of_lt {n v : Nat} (h : v < 256 ^ n) : leValue (leBytes n v) = v := by
  rw [leValue_leBytes, Nat.mod_eq_of_lt h]

theorem leValue_lt (bs : List UInt8) : leValue bs < 256 ^ bs.length := by
  induction bs with
  | nil => exact Nat.one_pos
  | cons b bs ih =>
    have hb : b.toNat < 256 := b.toNat_lt
    rw [leValue, List.length_cons, Nat.pow_succ]
    omega

theorem leBytes_leValue (bs : List UInt8) : leBytes bs.length (leValue bs) = bs := by
  induction bs with
  | nil => rfl
  | cons b bs ih =>
    have hb : b.toNat < 256 := b.toNat_lt
    have hhead : UInt8.ofNat (b.toNat + 256 * leValue bs) = b := by
      apply UInt8.toNat_inj.mp
      rw [UInt8.toNat_ofNat']
      omega
    have htail : (b.toNat + 256 * leValue bs) / 256 = leValue bs := by omega
    rw [leValue, List.length_cons, leBytes, hhead, htail, ih]

/-- A linear memory of at most `cap` bytes. -/
structure Memory (cap : Nat) where
  size : Nat
  size_le : size ≤ cap
  byte : Nat → UInt8

namespace Memory

variable {cap : Nat}

def read (m : Memory cap) (off len : Nat) : List UInt8 :=
  (List.range len).map fun i => m.byte (off + i)

def write (m : Memory cap) (off : Nat) (bs : List UInt8) : Memory cap :=
  { m with byte := fun a => if a < off then m.byte a else (bs[a - off]?).getD (m.byte a) }

@[simp] theorem read_length (m : Memory cap) (off len : Nat) : (m.read off len).length = len := by
  simp [read]

@[simp] theorem read_zero (m : Memory cap) (off : Nat) : m.read off 0 = [] := rfl

@[simp] theorem size_write (m : Memory cap) (off : Nat) (bs : List UInt8) :
    (m.write off bs).size = m.size := rfl

@[simp] theorem write_nil (m : Memory cap) (off : Nat) : m.write off [] = m := by
  simp [write]

theorem byte_write_of_lt (m : Memory cap) {off a : Nat} (bs : List UInt8) (h : a < off) :
    (m.write off bs).byte a = m.byte a := by
  simp [write, h]

theorem byte_write_of_le (m : Memory cap) {off a : Nat} (bs : List UInt8)
    (h : off + bs.length ≤ a) : (m.write off bs).byte a = m.byte a := by
  have hle : bs.length ≤ a - off := by omega
  simp [write, List.getElem?_eq_none hle]

theorem byte_write_at (m : Memory cap) (off : Nat) {bs : List UInt8} {i : Nat}
    (h : i < bs.length) : (m.write off bs).byte (off + i) = bs[i] := by
  simp [write, h]

theorem read_congr {m m' : Memory cap} {off len : Nat}
    (h : ∀ a, off ≤ a → a < off + len → m.byte a = m'.byte a) :
    m.read off len = m'.read off len := by
  apply List.map_congr_left
  intro i hi
  have hi' : i < len := List.mem_range.mp hi
  exact h (off + i) (by omega) (by omega)

theorem read_write_same (m : Memory cap) (off : Nat) (bs : List UInt8) :
    (m.write off bs).read off bs.length = bs := by
  apply List.ext_getElem (by simp)
  intro i _ hi
  simp only [read, List.getElem_map, List.getElem_range]
  exact byte_write_at m off hi

theorem read_write_of_disjoint (m : Memory cap) {off o len : Nat} (bs : List UInt8)
    (h : o + len ≤ off ∨ off + bs.length ≤ o) : (m.write off bs).read o len = m.read o len := by
  apply read_congr
  intro a h₁ h₂
  rcases h with h | h
  · exact byte_write_of_lt m bs (by omega)
  · exact byte_write_of_le m bs (by omega)

/-- Two adjacent writes are one. -/
theorem write_append (m : Memory cap) (off : Nat) (bs bs' : List UInt8) :
    (m.write off bs).write (off + bs.length) bs' = m.write off (bs ++ bs') := by
  have hbyte : ((m.write off bs).write (off + bs.length) bs').byte = (m.write off (bs ++ bs')).byte := by
    funext a
    simp only [write]
    by_cases hbefore : a < off
    · rw [if_pos (Nat.lt_add_right _ hbefore), if_pos hbefore, if_pos hbefore]
    · rw [if_neg hbefore, if_neg hbefore]
      by_cases hfirst : a < off + bs.length
      · rw [if_pos hfirst, List.getElem?_append_left (by omega)]
      · have hnone : bs[a - off]? = none := by
          apply List.getElem?_eq_none
          omega
        rw [if_neg hfirst, List.getElem?_append_right (by omega), Nat.sub_sub, hnone, Option.getD_none]
  cases m
  simp only [write, Memory.mk.injEq, true_and] at hbyte ⊢
  exact hbyte

theorem read_add (m : Memory cap) (off a b : Nat) :
    m.read off (a + b) = m.read off a ++ m.read (off + a) b := by
  simp only [read, List.range_add, List.map_append, List.map_map]
  congr 1
  apply List.map_congr_left
  intro i _
  simp [Nat.add_assoc]

/-- Consecutive records of one size, read record by record. -/
def chunks (m : Memory cap) (off size count : Nat) : List (List UInt8) :=
  (List.range count).map fun i => m.read (off + i * size) size

@[simp] theorem chunks_length (m : Memory cap) (off size count : Nat) :
    (m.chunks off size count).length = count := by
  simp [chunks]

theorem chunks_succ (m : Memory cap) (off size count : Nat) :
    m.chunks off size (count + 1) = m.read off size :: m.chunks (off + size) size count := by
  simp only [chunks, List.range_succ_eq_map, List.map_cons, List.map_map]
  congr 1
  · simp
  · apply List.map_congr_left
    intro i _
    simp only [Function.comp, Nat.succ_eq_add_one]
    congr 1
    ring

theorem chunks_flatten (m : Memory cap) (off size count : Nat) :
    (m.chunks off size count).flatten = m.read off (count * size) := by
  induction count generalizing off with
  | zero => simp [chunks]
  | succ count ih =>
    have hsplit : (count + 1) * size = size + count * size := by ring
    rw [chunks_succ, List.flatten_cons, ih, hsplit, read_add]

theorem chunks_of_read_flatten {m : Memory cap} {off size : Nat} {records : List (List UInt8)}
    (hsize : ∀ r ∈ records, r.length = size)
    (h : m.read off (records.length * size) = records.flatten) :
    m.chunks off size records.length = records := by
  induction records generalizing off with
  | nil => rfl
  | cons r rs ih =>
    have hr : r.length = size := hsize r List.mem_cons_self
    have hsplit : (r :: rs).length * size = size + rs.length * size := by
      simp only [List.length_cons]
      ring
    rw [hsplit, read_add, List.flatten_cons] at h
    obtain ⟨hhead, htail⟩ := List.append_inj h (by simp [hr])
    rw [List.length_cons, chunks_succ, hhead,
      ih (fun x hx => hsize x (List.mem_cons_of_mem r hx)) htail]

end Memory

structure Block where
  start : Nat
  length : Nat
  deriving DecidableEq, Repr

namespace Block

def stop (b : Block) : Nat := b.start + b.length

def Disjoint (b c : Block) : Prop := b.stop ≤ c.start ∨ c.stop ≤ b.start

def Within (b c : Block) : Prop := c.start ≤ b.start ∧ b.stop ≤ c.stop

theorem Disjoint.symm {b c : Block} (h : b.Disjoint c) : c.Disjoint b := Or.symm h

end Block

end Basis
