import CrossNative.Basis.FaultState

/-!
# Computations that keep a log

A state with a log beside it. Code that knows nothing of the log runs on the state alone, and
what is logged is logged in order.
-/

namespace Basis

set_option autoImplicit false

structure Logged (S L : Type) where
  state : S
  log : List L

namespace Proc

variable {S F L A B : Type}

/-- Run on the state alone. -/
def quiet (p : Proc S F A) : Proc (Logged S L) F A := fun w =>
  ((p w.state).1, ⟨(p w.state).2, w.log⟩)

def note (entry : L) : Proc (Logged S L) F Unit :=
  modify fun w => ⟨w.state, w.log ++ [entry]⟩

/-- The outcome and the log, without the state. -/
def observe (run : Except F A × Logged S L) : Except F A × List L := (run.1, run.2.log)

/-- The log only grows. -/
def Grows (w w' : Logged S L) : Prop := w.log <+: w'.log

instance : Sequential (Grows (S := S) (L := L)) Grows where
  refl w := List.prefix_refl w.log
  trans h h' := List.IsPrefix.trans h h'
  failed w := List.prefix_refl w.log
  after h h' := List.IsPrefix.trans h h'

theorem grows_quiet (p : Proc S F A) : Ends Grows Grows (quiet p : Proc (Logged S L) F A) := by
  intro w
  unfold quiet
  cases (p w.state).1 <;> exact List.prefix_refl w.log

theorem grows_note (entry : L) : Ends Grows Grows (note entry : Proc (Logged S L) F Unit) :=
  Ends.modify fun w => List.prefix_append w.log [entry]

/-- What was logged so far stays in front of what follows. -/
theorem grows_bind (p : Proc (Logged S L) F A) {f : A → Proc (Logged S L) F B}
    (hf : ∀ a, Ends Grows Grows (f a)) (w : Logged S L) : Grows (p w).2 ((p >>= f) w).2 := by
  cases hrun : p w with
  | mk r w' =>
    cases r with
    | ok a =>
      rw [bind_of_ok hrun]
      exact (hf a).state w'
    | error e =>
      rw [bind_of_error hrun]
      exact List.prefix_refl w'.log

theorem grows_rescue (p : Proc (Logged S L) F A) {handler : F → Proc (Logged S L) F A}
    (hhandler : ∀ e, Ends Grows Grows (handler e)) (w : Logged S L) : Grows (p w).2 (rescue p handler w).2 := by
  cases hrun : p w with
  | mk r w' =>
    cases r with
    | ok a =>
      rw [rescue_of_ok hrun]
      exact List.prefix_refl w'.log
    | error e =>
      rw [rescue_of_error hrun]
      exact (hhandler e).state w'

/-! ## Quiet computations -/

theorem quiet_run {p : Proc S F A} {s s' : S} {r : Except F A} (h : p s = (r, s')) (log : List L) :
    quiet p ⟨s, log⟩ = (r, ⟨s', log⟩) := by
  simp only [quiet, h]

theorem note_quiet_run {p : Proc S F A} {s s' : S} {r : Except F A} (h : p s = (r, s')) (entry : L)
    (log : List L) : (note entry >>= fun _ => quiet p) ⟨s, log⟩ = (r, ⟨s', log ++ [entry]⟩) := by
  rw [bind_of_ok (rfl : note entry ⟨s, log⟩ = (.ok (), ⟨s, log ++ [entry]⟩)), quiet_run h]

theorem quiet_congr {p q : Proc S F A} {w : Logged S L} (h : p w.state = q w.state) :
    quiet p w = quiet q w := by
  simp only [quiet, h]

theorem quiet_bind (p : Proc S F A) (f : A → Proc S F B) :
    (quiet (p >>= f) : Proc (Logged S L) F B) = quiet p >>= fun a => quiet (f a) := by
  funext w
  cases hp : p w.state with
  | mk r s' =>
    cases r with
    | ok a => rw [bind_of_ok (quiet_run hp w.log), quiet, bind_of_ok hp, quiet]
    | error e => rw [bind_of_error (quiet_run hp w.log), quiet, bind_of_error hp]

theorem quiet_mapFault (f : F → F) (p : Proc S F A) :
    (quiet (mapFault f p) : Proc (Logged S L) F A) = mapFault f (quiet p) := by
  funext w
  simp only [quiet, mapFault]
  cases hp : p w.state with
  | mk r s' => cases r <;> rfl

/-! ## Computations that log something -/

/-- After every run there is something in the log. -/
def Noted (p : Proc (Logged S L) F A) : Prop := ∀ w, (p w).2.log ≠ []

theorem ne_nil_of_grows {w w' : Logged S L} (h : Grows w w') (hne : w.log ≠ []) : w'.log ≠ [] := by
  intro hempty
  rw [Grows, hempty] at h
  exact hne (List.prefix_nil.mp h)

theorem noted_note (entry : L) : Noted (note entry : Proc (Logged S L) F Unit) := fun w =>
  List.append_ne_nil_of_right_ne_nil w.log (List.cons_ne_nil entry [])

theorem Noted.bind {p : Proc (Logged S L) F A} {f : A → Proc (Logged S L) F B} (hp : Noted p)
    (hf : ∀ a, Ends Grows Grows (f a)) : Noted (p >>= f) := by
  intro w
  have hw := hp w
  cases hrun : p w with
  | mk r w' =>
    rw [hrun] at hw
    cases r with
    | ok a =>
      rw [bind_of_ok hrun]
      exact ne_nil_of_grows ((hf a).state w') hw
    | error e =>
      rw [bind_of_error hrun]
      exact hw

/-- Quiet code behind a note. -/
theorem noted_quiet (entry : L) (p : Proc S F A) :
    Noted ((note entry >>= fun _ => quiet p) : Proc (Logged S L) F A) ∧
      Ends Grows Grows ((note entry >>= fun _ => quiet p) : Proc (Logged S L) F A) := by
  constructor
  · exact (noted_note entry).bind fun _ => grows_quiet p
  · exact (grows_note entry).bind fun _ => grows_quiet p

/-! ## Logs that differ -/

/-- At some place the logs hold different entries. -/
def Diverged (w w' : Logged S L) : Prop :=
  ∃ common a b, a ≠ b ∧ common ++ [a] <+: w.log ∧ common ++ [b] <+: w'.log

theorem Diverged.log_ne {w w' : Logged S L} (h : Diverged w w') : w.log ≠ w'.log := by
  obtain ⟨common, a, b, hne, ha, hb⟩ := h
  intro hlog
  rw [hlog] at ha
  have hlength : (common ++ [a]).length = (common ++ [b]).length := by simp
  have hsame := (List.prefix_of_prefix_length_le ha hb (Nat.le_of_eq hlength)).eq_of_length hlength
  exact hne (List.singleton_inj.mp (List.append_cancel_left hsame))

/-- Nothing that is logged afterwards makes them the same. -/
theorem Diverged.grows {w w' v v' : Logged S L} (h : Diverged w w') (hw : Grows w v) (hw' : Grows w' v') :
    Diverged v v' := by
  obtain ⟨common, a, b, hne, ha, hb⟩ := h
  exact ⟨common, a, b, hne, ha.trans hw, hb.trans hw'⟩

/-- The note in front is the next entry, whatever follows. -/
theorem noted_first (entry : L) (p : Proc S F A) {f : A → Proc (Logged S L) F B}
    (hf : ∀ a, Ends Grows Grows (f a)) (w : Logged S L) :
    w.log ++ [entry] <+: (((note entry >>= fun _ => quiet p) >>= f) w).2.log :=
  grows_bind (note entry >>= fun _ => quiet p) hf w

/-- A handler keeps what was logged before the fault. -/
theorem rescue_log {p : Proc (Logged S L) F A} {handler : F → Proc (Logged S L) F A}
    (hhandler : ∀ e, Ends Grows Grows (handler e)) {w : Logged S L} (h : (p w).2.log ≠ []) :
    (rescue p handler w).2.log ≠ [] := by
  cases hrun : p w with
  | mk r w' =>
    rw [hrun] at h
    cases r with
    | ok a =>
      rw [rescue_of_ok hrun]
      exact h
    | error e =>
      rw [rescue_of_error hrun]
      exact ne_nil_of_grows ((hhandler e).state w') h

end Proc

end Basis
