import Mathlib.Logic.Function.Basic
import Mathlib.Tactic.Common

/-!
# Runs of a state machine

A machine is a partial step function. A run is a list of actions, each of which has to be
possible where it is taken; a condition may restrict the steps of a run.
-/

namespace Basis

set_option autoImplicit false

variable {S A : Type}

/-- The state after a list of actions, if all of them are possible. -/
def runAll (step : S → A → Option S) : S → List A → Option S
  | s, [] => some s
  | s, a :: actions => (step s a).bind fun t => runAll step t actions

/-- Every step of the run meets a condition on the state before it. -/
def Meets (step : S → A → Option S) (allowed : S → A → Prop) : S → List A → Prop
  | _, [] => True
  | s, a :: actions => allowed s a ∧ ∀ t, step s a = some t → Meets step allowed t actions

variable {step : S → A → Option S} {allowed : S → A → Prop}

theorem runAll_cons {s u : S} {a : A} {actions : List A}
    (h : runAll step s (a :: actions) = some u) :
    ∃ t, step s a = some t ∧ runAll step t actions = some u :=
  Option.bind_eq_some_iff.mp h

theorem Meets.cons {s t : S} {a : A} {actions : List A} (hallowed : allowed s a)
    (hstep : step s a = some t) (hrest : Meets step allowed t actions) :
    Meets step allowed s (a :: actions) := by
  refine ⟨hallowed, fun u hu => ?_⟩
  cases Option.some.inj (hstep.symm.trans hu)
  exact hrest

theorem meets_true (actions : List A) (s : S) : Meets step (fun _ _ => True) s actions := by
  induction actions generalizing s with
  | nil => exact trivial
  | cons a actions ih => exact ⟨trivial, fun t _ => ih t⟩

/-- What every allowed step preserves holds at the end of every run that meets the condition. -/
theorem runAll_invariant {I : S → Prop}
    (preserved : ∀ s a t, I s → allowed s a → step s a = some t → I t) (actions : List A) {s u : S}
    (hinit : I s) (hmeets : Meets step allowed s actions) (hrun : runAll step s actions = some u) :
    I u := by
  induction actions generalizing s with
  | nil =>
    cases hrun
    exact hinit
  | cons a actions ih =>
    obtain ⟨t, hstep, hrest⟩ := runAll_cons hrun
    obtain ⟨hallowed, hmeets⟩ := hmeets
    exact ih (preserved s a t hinit hallowed hstep) (hmeets t hstep) hrest

/-- What an action of some kind brings about, and every step keeps, holds at the end of a run
with such an action. -/
theorem runAll_reached {I P : S → Prop} {Q : A → Prop}
    (preserved : ∀ s a t, I s → allowed s a → step s a = some t → I t)
    (brings : ∀ s a t, I s → Q a → step s a = some t → P t)
    (keeps : ∀ s a t, P s → step s a = some t → P t) (actions : List A) {s u : S} (hinit : I s)
    (hmeets : Meets step allowed s actions) (hrun : runAll step s actions = some u)
    (hreached : P s ∨ ∃ a ∈ actions, Q a) : P u := by
  induction actions generalizing s with
  | nil =>
    cases hrun
    rcases hreached with hP | ⟨a, hmem, _⟩
    · exact hP
    · cases hmem
  | cons a actions ih =>
    obtain ⟨t, hstep, hrest⟩ := runAll_cons hrun
    obtain ⟨hallowed, hmeets⟩ := hmeets
    apply ih (preserved s a t hinit hallowed hstep) (hmeets t hstep) hrest
    rcases hreached with hP | ⟨b, hmem, hQ⟩
    · exact Or.inl (keeps s a t hP hstep)
    · rcases List.mem_cons.mp hmem with rfl | hmem
      · exact Or.inl (brings s b t hinit hQ hstep)
      · exact Or.inr ⟨b, hmem, hQ⟩

theorem update_cases {K V : Type} [DecidableEq K] {f : K → V} {k k' : K} {v x : V}
    (h : Function.update f k v k' = x) : (k' = k ∧ v = x) ∨ (k' ≠ k ∧ f k' = x) := by
  by_cases heq : k' = k
  · left
    subst heq
    exact ⟨rfl, (Function.update_self k' v f).symm.trans h⟩
  · right
    exact ⟨heq, (Function.update_of_ne heq v f).symm.trans h⟩

end Basis
