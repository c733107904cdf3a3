import Mathlib.Tactic.Common

/-!
# Computations over a state that may stop with a fault

A `Proc` changes a state and returns a value or stops with a fault. The state
outlives the fault, so cleanup that runs after a failure is ordinary code. Two
kinds of statement are supported: inversion of a sequence that returned, and
relations between the states before and after, for every ending or for a return.
-/

namespace Basis

set_option autoImplicit false

universe u

/-- A value or a fault, together with the state it was reached in. -/
def Proc (S F : Type) (A : Type u) : Type u := S → Except F A × S

namespace Proc

variable {S F : Type} {A B C : Type}

instance : Monad (Proc S F) where
  pure a := fun s => (.ok a, s)
  bind p f := fun s =>
    match p s with
    | (.ok a, s') => f a s'
    | (.error e, s') => (.error e, s')

def get : Proc S F S := fun s => (.ok s, s)

def modify (f : S → S) : Proc S F Unit := fun s => (.ok (), f s)

def fail (e : F) : Proc S F A := fun s => (.error e, s)

def lift (x : Except F A) : Proc S F A := fun s => (x, s)

def mapFault (f : F → F) (p : Proc S F A) : Proc S F A := fun s =>
  match p s with
  | (.ok a, s') => (.ok a, s')
  | (.error e, s') => (.error (f e), s')

/-- Continue with the handler after a fault, from the state the fault left. -/
def rescue (p : Proc S F A) (handler : F → Proc S F A) : Proc S F A := fun s =>
  match p s with
  | (.ok a, s') => (.ok a, s')
  | (.error e, s') => handler e s'

theorem run_eq_of_outcome {p : Except F A × S} {r : Except F A} (h : p.1 = r) : p = (r, p.2) := by
  rw [← h]

theorem run_eq_of_isOk {p : Except F Unit × S} (h : p.1.isOk = true) : p = (.ok (), p.2) := by
  obtain ⟨reply, s⟩ := p
  cases reply with
  | error e => cases h
  | ok u => rfl

theorem pure_run (a : A) (s : S) : (pure a : Proc S F A) s = (.ok a, s) := rfl

theorem bind_of_ok {p : Proc S F A} {f : A → Proc S F B} {s s' : S} {a : A}
    (h : p s = (.ok a, s')) : (p >>= f) s = f a s' := by
  simp only [bind, h]

theorem bind_of_error {p : Proc S F A} {f : A → Proc S F B} {s s' : S} {e : F}
    (h : p s = (.error e, s')) : (p >>= f) s = (.error e, s') := by
  simp only [bind, h]

instance : LawfulMonad (Proc S F) := by
  refine LawfulMonad.mk' _ ?_ (fun a f => rfl) ?_
  · intro A p
    funext s
    cases hp : p s with
    | mk r s' =>
      simp only [Functor.map, hp]
      cases r <;> rfl
  · intro A B C p f g
    funext s
    cases hp : p s with
    | mk r s' => cases r <;> simp only [bind, hp]

theorem rescue_of_ok {p : Proc S F A} {handler : F → Proc S F A} {s s' : S} {a : A}
    (h : p s = (.ok a, s')) : rescue p handler s = (.ok a, s') := by
  simp only [rescue, h]

theorem rescue_of_error {p : Proc S F A} {handler : F → Proc S F A} {s s' : S} {e : F}
    (h : p s = (.error e, s')) : rescue p handler s = handler e s' := by
  simp only [rescue, h]

theorem bind_ok_iff {p : Proc S F A} {f : A → Proc S F B} {s s' : S} {b : B} :
    (p >>= f) s = (.ok b, s') ↔ ∃ a t, p s = (.ok a, t) ∧ f a t = (.ok b, s') := by
  constructor
  · intro h
    cases hp : p s with
    | mk r t =>
      cases r with
      | error e =>
        rw [bind_of_error hp] at h
        simp at h
      | ok a =>
        rw [bind_of_ok hp] at h
        exact ⟨a, t, rfl, h⟩
  · rintro ⟨a, t, hp, hf⟩
    rw [bind_of_ok hp, hf]

theorem lift_ok_iff {x : Except F A} {s s' : S} {a : A} :
    (lift x : Proc S F A) s = (.ok a, s') ↔ x = .ok a ∧ s' = s := by
  simp only [lift, Prod.mk.injEq]
  exact and_congr_right fun _ => eq_comm

theorem map_ok_iff {x : Except F A} {f : A → B} {b : B} : x.map f = .ok b ↔ ∃ a, x = .ok a ∧ f a = b := by
  cases x <;> simp [Except.map]

theorem mapFault_ok_iff {f : F → F} {p : Proc S F A} {s s' : S} {a : A} :
    mapFault f p s = (.ok a, s') ↔ p s = (.ok a, s') := by
  unfold mapFault
  cases hp : p s with
  | mk r t => cases r <;> simp

@[simp] theorem mapFault_state (f : F → F) (p : Proc S F A) (s : S) :
    (mapFault f p s).2 = (p s).2 := by
  unfold mapFault
  cases hp : p s with
  | mk r t => cases r <;> rfl

/-! ## What a run returns, if it returns -/

/-- Every value that a run returns satisfies `Q`. -/
def Gives (Q : A → Prop) (p : Proc S F A) : Prop := ∀ s s' a, p s = (.ok a, s') → Q a

section Gives

variable {Q : A → Prop} {R : B → Prop}

theorem Gives.any (p : Proc S F A) : Gives (fun _ => True) p := fun _ _ _ _ => trivial

theorem Gives.pure {a : A} (h : Q a) : Gives Q (Pure.pure a : Proc S F A) := by
  intro s s' b hb
  cases hb
  exact h

theorem Gives.fail (e : F) : Gives Q (Proc.fail e : Proc S F A) := by
  intro s s' a ha
  cases ha

theorem Gives.lift {x : Except F A} (h : ∀ a, x = .ok a → Q a) : Gives Q (Proc.lift x : Proc S F A) :=
  fun _ _ a ha => h a (lift_ok_iff.mp ha).1

theorem Gives.bind {p : Proc S F A} {f : A → Proc S F B} (hp : Gives Q p) (hf : ∀ a, Q a → Gives R (f a)) :
    Gives R (p >>= f) := by
  intro s s' b hb
  obtain ⟨a, t, ha, hb⟩ := bind_ok_iff.mp hb
  exact hf a (hp s t a ha) t s' b hb

theorem Gives.mapFault {p : Proc S F A} (f : F → F) (h : Gives Q p) : Gives Q (Proc.mapFault f p) :=
  fun s s' a ha => h s s' a (mapFault_ok_iff.mp ha)

end Gives

/-! ## Computations that never fail -/

/-- Every run returns, and what it returns satisfies `Q`. -/
def Returns (Q : A → Prop) (p : Proc S F A) : Prop := ∀ s, ∃ a s', p s = (.ok a, s') ∧ Q a

section Returns

variable {Q : A → Prop} {R : B → Prop}

theorem Returns.pure {a : A} (h : Q a) : Returns Q (Pure.pure a : Proc S F A) := fun s => ⟨a, s, rfl, h⟩

theorem Returns.bind {p : Proc S F A} {f : A → Proc S F B} (hp : Returns Q p)
    (hf : ∀ a, Q a → Returns R (f a)) : Returns R (p >>= f) := by
  intro s
  obtain ⟨a, t, hrun, ha⟩ := hp s
  obtain ⟨b, u, hrest, hb⟩ := hf a ha t
  exact ⟨b, u, by rw [bind_of_ok hrun, hrest], hb⟩

end Returns

/-! ## What an ending leaves behind -/

/-- A run that returns relates its states by `R`, a run that fails by `E`. -/
def Ends (R E : S → S → Prop) (p : Proc S F A) : Prop := ∀ s,
  match p s with
  | (.ok _, s') => R s s'
  | (.error _, s') => E s s'

/-- Relations that can be followed along a sequence: `R` until something fails. -/
class Sequential (R E : S → S → Prop) : Prop where
  refl : ∀ s, R s s
  trans : ∀ {a b c}, R a b → R b c → R a c
  failed : ∀ s, E s s
  after : ∀ {a b c}, R a b → E b c → E a c

section Ends

variable {R E : S → S → Prop}

theorem Ends.of_run {p : Proc S F A} (h : Ends R E p) {s s' : S} {a : A} (hp : p s = (.ok a, s')) :
    R s s' := by
  have hs := h s
  rwa [hp] at hs

theorem Ends.of_failure {p : Proc S F A} (h : Ends R E p) {s s' : S} {e : F}
    (hp : p s = (.error e, s')) : E s s' := by
  have hs := h s
  rwa [hp] at hs

theorem Ends.state {p : Proc S F A} (h : Ends R R p) (s : S) : R s (p s).2 := by
  have hs := h s
  cases hp : p s with
  | mk r t =>
    rw [hp] at hs
    cases r <;> exact hs

theorem Ends.mapFault {p : Proc S F A} (f : F → F) (h : Ends R E p) :
    Ends R E (Proc.mapFault f p) := by
  intro s
  have hs := h s
  unfold Proc.mapFault
  cases hp : p s with
  | mk r t =>
    rw [hp] at hs
    cases r <;> exact hs

theorem Ends.rescue {R : S → S → Prop} [Sequential R R] {p : Proc S F A} {handler : F → Proc S F A}
    (hp : Ends R R p) (hhandler : ∀ e, Ends R R (handler e)) : Ends R R (Proc.rescue p handler) := by
  intro s
  have hs := hp.state s
  cases hrun : p s with
  | mk r t =>
    rw [hrun] at hs
    cases r with
    | ok a =>
      rw [rescue_of_ok hrun]
      exact hs
    | error e =>
      rw [rescue_of_error hrun]
      have hrest := hhandler e t
      cases hend : handler e t with
      | mk r' u =>
        rw [hend] at hrest
        cases r' with
        | ok a => exact Sequential.trans (E := R) hs hrest
        | error e' => exact Sequential.trans (E := R) hs hrest

theorem Ends.modify {f : S → S} (h : ∀ s, R s (f s)) : Ends R E (Proc.modify f : Proc S F Unit) :=
  h

variable [Sequential R E]

theorem Ends.pure (a : A) : Ends R E (Pure.pure a : Proc S F A) := fun s =>
  Sequential.refl (E := E) s

theorem Ends.get : Ends R E (Proc.get : Proc S F S) := fun s => Sequential.refl (E := E) s

theorem Ends.fail (e : F) : Ends R E (Proc.fail e : Proc S F A) := fun s =>
  Sequential.failed (R := R) s

theorem Ends.lift (x : Except F A) : Ends R E (Proc.lift x : Proc S F A) := by
  intro s
  cases x with
  | error e => exact Sequential.failed (R := R) s
  | ok a => exact Sequential.refl (E := E) s

theorem Ends.bind {p : Proc S F A} {f : A → Proc S F B} (hp : Ends R E p)
    (hf : ∀ a, Ends R E (f a)) : Ends R E (p >>= f) := by
  intro s
  cases h : p s with
  | mk r t =>
    cases r with
    | error e =>
      rw [bind_of_error h]
      exact hp.of_failure h
    | ok a =>
      rw [bind_of_ok h]
      have hst := hp.of_run h
      have hrest := hf a t
      cases hq : f a t with
      | mk r' u =>
        rw [hq] at hrest
        cases r' with
        | error e => exact Sequential.after hst hrest
        | ok b => exact Sequential.trans (E := E) hst hrest

theorem Ends.lift_bind {x : Except F A} {f : A → Proc S F B}
    (hf : ∀ a, x = .ok a → Ends R E (f a)) : Ends R E (Proc.lift x >>= f) := by
  intro s
  cases x with
  | error e => exact Sequential.failed (R := R) s
  | ok a => exact hf a rfl s

end Ends

end Proc

end Basis
