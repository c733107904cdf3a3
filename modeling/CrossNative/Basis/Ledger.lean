import Mathlib.Data.List.Basic
import Mathlib.Tactic.Common

/-!
# Resources of objects that come and go

An object acquires resources in a fixed order and gives them back in the reverse order when it
dies, or when its construction fails half-way. A log records both; the ledger says that what is
recorded for an object that is gone is balanced.
-/

namespace Basis

set_option autoImplicit false

inductive ResourceEvent (R : Type)
  | acquired (owner : Nat) (resource : R)
  | released (owner : Nat) (resource : R)
  deriving DecidableEq, Repr

namespace ResourceEvent

variable {R : Type}

def owner : ResourceEvent R → Nat
  | acquired n _ | released n _ => n

def acquire (n : Nat) (resources : List R) : List (ResourceEvent R) := resources.map (.acquired n)

def release (n : Nat) (resources : List R) : List (ResourceEvent R) :=
  resources.reverse.map (.released n)

def ofOwner (n : Nat) (log : List (ResourceEvent R)) : List (ResourceEvent R) :=
  log.filter fun event => event.owner == n

@[simp] theorem ofOwner_append (n : Nat) (log more : List (ResourceEvent R)) :
    ofOwner n (log ++ more) = ofOwner n log ++ ofOwner n more :=
  List.filter_append log more

@[simp] theorem ofOwner_acquire_self (n : Nat) (resources : List R) :
    ofOwner n (acquire n resources) = acquire n resources := by
  apply List.filter_eq_self.mpr
  intro event hmem
  obtain ⟨_, _, rfl⟩ := List.mem_map.mp hmem
  exact beq_self_eq_true n

@[simp] theorem ofOwner_release_self (n : Nat) (resources : List R) :
    ofOwner n (release n resources) = release n resources := by
  apply List.filter_eq_self.mpr
  intro event hmem
  obtain ⟨_, _, rfl⟩ := List.mem_map.mp hmem
  exact beq_self_eq_true n

theorem ofOwner_acquire_of_ne {n m : Nat} (h : m ≠ n) (resources : List R) :
    ofOwner n (acquire m resources) = [] := by
  apply List.filter_eq_nil_iff.mpr
  intro event hmem
  obtain ⟨_, _, rfl⟩ := List.mem_map.mp hmem
  simpa [owner] using h

theorem ofOwner_release_of_ne {n m : Nat} (h : m ≠ n) (resources : List R) :
    ofOwner n (release m resources) = [] := by
  apply List.filter_eq_nil_iff.mpr
  intro event hmem
  obtain ⟨_, _, rfl⟩ := List.mem_map.mp hmem
  simpa [owner] using h

end ResourceEvent

open ResourceEvent

variable {R E : Type}

/-- `next` objects have been begun; the live ones hold all their resources, the others none. -/
structure Ledger (all : List R) (owner : E → Nat) (alive : E → Prop) (next : Nat)
    (log : List (ResourceEvent R)) : Prop where
  bounded : ∀ e, alive e → owner e < next
  unique : ∀ e e', alive e → alive e' → owner e = owner e' → e = e'
  beyond : ∀ n, next ≤ n → ofOwner n log = []
  held : ∀ e, alive e → ofOwner (owner e) log = acquire (owner e) all
  settled : ∀ n, (∀ e, alive e → owner e ≠ n) →
    ∃ got, got <+: all ∧ ofOwner n log = acquire n got ++ release n got

namespace Ledger

variable {all : List R} {owner : E → Nat} {alive alive' : E → Prop} {next : Nat}
  {log : List (ResourceEvent R)}

theorem empty : Ledger all owner (fun _ => False) 0 [] where
  bounded := fun _ h => h.elim
  unique := fun _ _ h => h.elim
  beyond := fun _ _ => rfl
  held := fun _ h => h.elim
  settled := fun _ _ => ⟨[], List.nil_prefix, rfl⟩

theorem congr (h : Ledger all owner alive next log) (heq : ∀ e, alive' e ↔ alive e) :
    Ledger all owner alive' next log := by
  have hsame : alive' = alive := funext fun e => propext (heq e)
  rw [hsame]
  exact h

/-- A construction that fails gives back what it has got. -/
theorem failed (h : Ledger all owner alive next log) {got : List R} (hgot : got <+: all) :
    Ledger all owner alive (next + 1) (log ++ (acquire next got ++ release next got)) := by
  have hother : ∀ n, n ≠ next →
      ofOwner n (log ++ (acquire next got ++ release next got)) = ofOwner n log := by
    intro n hne
    rw [ofOwner_append, ofOwner_append, ofOwner_acquire_of_ne hne.symm,
      ofOwner_release_of_ne hne.symm, List.append_nil, List.append_nil]
  refine ⟨?_, h.unique, ?_, ?_, ?_⟩
  · intro e he
    exact Nat.lt_succ_of_lt (h.bounded e he)
  · intro n hn
    rw [hother n (Nat.ne_of_gt hn)]
    exact h.beyond n (Nat.le_of_lt hn)
  · intro e he
    rw [hother _ (Nat.ne_of_lt (h.bounded e he))]
    exact h.held e he
  · intro n hnone
    by_cases heq : n = next
    · subst heq
      refine ⟨got, hgot, ?_⟩
      rw [ofOwner_append, h.beyond n (Nat.le_refl _), ofOwner_append, ofOwner_acquire_self,
        ofOwner_release_self, List.nil_append]
    · rw [hother n heq]
      exact h.settled n hnone

theorem created (h : Ledger all owner alive next log) {e : E} (he : owner e = next) :
    Ledger all owner (fun x => alive x ∨ x = e) (next + 1) (log ++ acquire next all) := by
  have hother : ∀ n, n ≠ next → ofOwner n (log ++ acquire next all) = ofOwner n log := by
    intro n hne
    rw [ofOwner_append, ofOwner_acquire_of_ne hne.symm, List.append_nil]
  refine ⟨?_, ?_, ?_, ?_, ?_⟩
  · rintro x (hx | rfl)
    · exact Nat.lt_succ_of_lt (h.bounded x hx)
    · rw [he]
      exact Nat.lt_succ_self _
  · rintro x y (hx | rfl) (hy | rfl) heq
    · exact h.unique x y hx hy heq
    · exact absurd (heq.trans he) (Nat.ne_of_lt (h.bounded x hx))
    · exact absurd (heq.symm.trans he) (Nat.ne_of_lt (h.bounded y hy))
    · rfl
  · intro n hn
    rw [hother n (Nat.ne_of_gt hn)]
    exact h.beyond n (Nat.le_of_lt hn)
  · rintro x (hx | rfl)
    · rw [hother _ (Nat.ne_of_lt (h.bounded x hx))]
      exact h.held x hx
    · rw [he, ofOwner_append, h.beyond next (Nat.le_refl _), ofOwner_acquire_self, List.nil_append]
  · intro n hnone
    have hne : n ≠ next := fun heq => hnone e (Or.inr rfl) (he.trans heq.symm)
    rw [hother n hne]
    exact h.settled n fun x hx => hnone x (Or.inl hx)

theorem destroyed (h : Ledger all owner alive next log) {e : E} (he : alive e) :
    Ledger all owner (fun x => alive x ∧ x ≠ e) next (log ++ release (owner e) all) := by
  have hother : ∀ n, n ≠ owner e → ofOwner n (log ++ release (owner e) all) = ofOwner n log := by
    intro n hne
    rw [ofOwner_append, ofOwner_release_of_ne hne.symm, List.append_nil]
  refine ⟨?_, ?_, ?_, ?_, ?_⟩
  · intro x hx
    exact h.bounded x hx.1
  · intro x y hx hy heq
    exact h.unique x y hx.1 hy.1 heq
  · intro n hn
    rw [hother n (Nat.ne_of_gt (Nat.lt_of_lt_of_le (h.bounded e he) hn))]
    exact h.beyond n hn
  · intro x hx
    rw [hother _ fun heq => hx.2 (h.unique x e hx.1 he heq)]
    exact h.held x hx.1
  · intro n hnone
    by_cases heq : n = owner e
    · subst heq
      refine ⟨all, List.prefix_rfl, ?_⟩
      rw [ofOwner_append, h.held e he, ofOwner_release_self]
    · rw [hother n heq]
      apply h.settled n
      intro x hx hn
      have hxe : x ≠ e := fun hxe => heq (hn.symm.trans (congrArg owner hxe))
      exact hnone x ⟨hx, hxe⟩ hn

/-- Whatever has once acquired everything gives back everything. -/
theorem given_back {more : List (ResourceEvent R)} (h : Ledger all owner alive next (log ++ more))
    {n : Nat} (hlog : ofOwner n log = acquire n all) (hgone : ∀ e, alive e → owner e ≠ n) :
    ofOwner n (log ++ more) = acquire n all ++ release n all := by
  obtain ⟨got, ⟨rest, rfl⟩, heq⟩ := h.settled n hgone
  rw [heq]
  rw [ofOwner_append, hlog] at heq
  cases rest with
  | nil => rw [List.append_nil]
  | cons r rest =>
    have hrest : acquire n (r :: rest) ++ ofOwner n more = release n got := by
      have hsplit : acquire n got ++ (acquire n (r :: rest) ++ ofOwner n more) =
          acquire n got ++ release n got := by
        rw [← heq, acquire, acquire, acquire, List.map_append, List.append_assoc]
      exact List.append_cancel_left hsplit
    have hmem : ResourceEvent.acquired n r ∈ release n got := by
      rw [← hrest]
      exact List.mem_append_left _ List.mem_cons_self
    obtain ⟨_, _, hne⟩ := List.mem_map.mp hmem
    cases hne

end Ledger

end Basis
