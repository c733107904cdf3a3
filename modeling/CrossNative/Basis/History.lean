import Mathlib.Data.List.Basic
import Mathlib.Tactic.Common

/-!
# Logs whose entries depend on what precedes them

A condition on an event is judged by the log before it. It holds of a whole log when it holds at
each event, and stays true when the log only grows.
-/

namespace Basis

set_option autoImplicit false

variable {E : Type}

/-- Every event of the log was allowed by what had been logged before it. -/
def Guarded (allowed : List E → E → Prop) (log : List E) : Prop :=
  ∀ pre e post, log = pre ++ e :: post → allowed pre e

variable {allowed : List E → E → Prop}

theorem Guarded.nil : Guarded allowed [] := by
  intro pre e post h
  simp at h

theorem Guarded.append {log more : List E} (hlog : Guarded allowed log)
    (hmore : Guarded (fun pre e => allowed (log ++ pre) e) more) : Guarded allowed (log ++ more) := by
  intro pre e post h
  rcases List.append_eq_append_iff.mp h with ⟨extra, hpre, hrest⟩ | ⟨extra, hlogeq, hrest⟩
  · subst hpre
    exact hmore extra e post hrest
  · cases extra with
    | nil =>
      rw [List.append_nil] at hlogeq
      subst hlogeq
      have hhead : allowed (log ++ []) e := hmore [] e post hrest.symm
      rwa [List.append_nil] at hhead
    | cons first extra =>
      rw [List.cons_append, List.cons.injEq] at hrest
      obtain ⟨rfl, _⟩ := hrest
      exact hlog pre e extra hlogeq

theorem Guarded.single {e : E} (h : allowed [] e) : Guarded allowed [e] := by
  intro pre e' post heq
  cases pre with
  | nil =>
    cases heq
    exact h
  | cons first pre =>
    rw [List.cons_append, List.cons.injEq] at heq
    simp at heq

theorem Guarded.snoc {log : List E} {e : E} (hlog : Guarded allowed log) (h : allowed log e) :
    Guarded allowed (log ++ [e]) := by
  apply hlog.append
  apply Guarded.single
  rw [List.append_nil]
  exact h

/-- Events on which the condition says nothing may follow in any number. -/
theorem Guarded.append_of_forall {log more : List E} (hlog : Guarded allowed log)
    (h : ∀ e ∈ more, ∀ pre, allowed pre e) : Guarded allowed (log ++ more) := by
  apply hlog.append
  intro pre e post heq
  apply h e
  rw [heq]
  exact List.mem_append_right _ List.mem_cons_self

end Basis
