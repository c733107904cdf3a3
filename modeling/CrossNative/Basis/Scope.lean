import Mathlib.Data.List.Nodup
import Mathlib.Tactic.Common

/-!
# Names and what they are bound to

A scope lists the bindings in force, innermost first; a sequence of `let`s adds to it one by one.
A use of a name comes with the binding it is meant for and resolves if the scope gives that one.
A binding that the `let`s do not make themselves is found behind them exactly if none of them takes
its name.

A run goes by names alone: every name holds a value. Where all uses resolve, it gives what the
bindings stand for.
-/

namespace Basis

set_option autoImplicit false

abbrev Scope (N B : Type) := List (N × B)

/-- A name where it is used, with the binding it is meant for. -/
structure Use (N B : Type) where
  name : N
  meant : B

/-- `let name = op(reads)`. -/
structure LetStmt (N B O : Type) where
  name : N
  binds : B
  op : O
  reads : List (Use N B)

variable {N B O : Type} [DecidableEq N]

def Use.Resolves (scope : Scope N B) (use : Use N B) : Prop :=
  scope.lookup use.name = some use.meant

def enter : Scope N B → List (LetStmt N B O) → Scope N B
  | scope, [] => scope
  | scope, stmt :: stmts => enter ((stmt.name, stmt.binds) :: scope) stmts

def LetsResolve : Scope N B → List (LetStmt N B O) → Prop
  | _, [] => True
  | scope, stmt :: stmts =>
    (∀ use ∈ stmt.reads, use.Resolves scope) ∧ LetsResolve ((stmt.name, stmt.binds) :: scope) stmts

omit [DecidableEq N] in
theorem enter_append (scope : Scope N B) (stmts more : List (LetStmt N B O)) :
    enter scope (stmts ++ more) = enter (enter scope stmts) more := by
  induction stmts generalizing scope with
  | nil => rfl
  | cons stmt stmts ih => exact ih _

theorem letsResolve_append (scope : Scope N B) (stmts more : List (LetStmt N B O)) :
    LetsResolve scope (stmts ++ more) ↔
      LetsResolve scope stmts ∧ LetsResolve (enter scope stmts) more := by
  induction stmts generalizing scope with
  | nil => simp [LetsResolve, enter]
  | cons stmt stmts ih => simp only [List.cons_append, LetsResolve, enter, ih, and_assoc]

/-! ## Looking behind other bindings -/

namespace Use

variable {scope : Scope N B} {use : Use N B}

theorem resolves_cons {m : N} {c : B} (h : c ≠ use.meant) :
    use.Resolves ((m, c) :: scope) ↔ m ≠ use.name ∧ use.Resolves scope := by
  unfold Resolves
  by_cases hmn : m = use.name
  · simp [hmn, h]
  · have hne : (use.name == m) = false := by simpa using Ne.symm hmn
    simp [List.lookup_cons, hne, hmn]

theorem resolves_cons_self : use.Resolves ((use.name, use.meant) :: scope) := List.lookup_cons_self

theorem resolves_append {inner : Scope N B} (h : ∀ entry ∈ inner, entry.2 ≠ use.meant) :
    use.Resolves (inner ++ scope) ↔ use.name ∉ inner.map Prod.fst ∧ use.Resolves scope := by
  induction inner with
  | nil => simp
  | cons entry inner ih =>
    obtain ⟨m, c⟩ := entry
    have hc : c ≠ use.meant := h (m, c) List.mem_cons_self
    have hrest := ih fun entry hentry => h entry (List.mem_cons_of_mem _ hentry)
    rw [List.cons_append, resolves_cons hc, hrest]
    simp only [List.map_cons, List.mem_cons, not_or, and_assoc, ne_comm, ne_eq]

theorem resolves_enter {stmts : List (LetStmt N B O)}
    (h : ∀ stmt ∈ stmts, stmt.binds ≠ use.meant) :
    use.Resolves (enter scope stmts) ↔
      (∀ stmt ∈ stmts, stmt.name ≠ use.name) ∧ use.Resolves scope := by
  induction stmts generalizing scope with
  | nil => simp [enter]
  | cons stmt stmts ih =>
    have hb : stmt.binds ≠ use.meant := h stmt List.mem_cons_self
    have hrest := fun other hother => h other (List.mem_cons_of_mem stmt hother)
    rw [enter, ih hrest, resolves_cons hb, List.forall_mem_cons]
    exact ⟨fun ⟨hrest, hname, hscope⟩ => ⟨⟨hname, hrest⟩, hscope⟩,
      fun ⟨⟨hname, hrest⟩, hscope⟩ => ⟨hrest, hname, hscope⟩⟩

theorem resolves_of_mem {inner : Scope N B} (hnodup : (inner.map Prod.fst).Nodup)
    (h : (use.name, use.meant) ∈ inner) : use.Resolves (inner ++ scope) := by
  induction inner with
  | nil => exact absurd h List.not_mem_nil
  | cons entry inner ih =>
    obtain ⟨m, c⟩ := entry
    rw [List.map_cons, List.nodup_cons] at hnodup
    rcases List.mem_cons.mp h with heq | hmem
    · rw [List.cons_append, ← heq]
      exact resolves_cons_self
    · have hne : (use.name == m) = false := by
        rw [beq_eq_false_iff_ne]
        intro heq
        have hin : (use.name, use.meant).1 ∈ inner.map Prod.fst := List.mem_map_of_mem hmem
        rw [heq] at hin
        exact hnodup.1 hin
      rw [Resolves, List.cons_append, List.lookup_cons, hne]
      exact ih hnodup.2 hmem

theorem resolves_enter_of_fresh {stmts : List (LetStmt N B O)}
    (h : ∀ stmt ∈ stmts, stmt.name ≠ use.name) :
    use.Resolves (enter scope stmts) ↔ use.Resolves scope := by
  induction stmts generalizing scope with
  | nil => rfl
  | cons stmt stmts ih =>
    have hne : (use.name == stmt.name) = false := by
      rw [beq_eq_false_iff_ne]
      exact (h stmt List.mem_cons_self).symm
    rw [enter, ih fun other hother => h other (List.mem_cons_of_mem _ hother), Resolves,
      List.lookup_cons, hne]
    rfl

/-- If all names are different, every binding that was made is found. -/
theorem resolves_enter_of_nodup {stmts : List (LetStmt N B O)}
    (hnodup : (stmts.map LetStmt.name).Nodup) {stmt : LetStmt N B O} (h : stmt ∈ stmts)
    (hname : use.name = stmt.name) (hmeant : use.meant = stmt.binds) :
    use.Resolves (enter scope stmts) := by
  induction stmts generalizing scope with
  | nil => exact absurd h List.not_mem_nil
  | cons first stmts ih =>
    rw [List.map_cons, List.nodup_cons] at hnodup
    rw [enter]
    rcases List.mem_cons.mp h with rfl | hmem
    · have hfresh : ∀ other ∈ stmts, other.name ≠ use.name := by
        intro other hother heq
        rw [← hname, ← heq] at hnodup
        exact hnodup.1 (List.mem_map_of_mem hother)
      rw [resolves_enter_of_fresh hfresh, ← hname, ← hmeant]
      exact resolves_cons_self
    · exact ih hnodup.2 hmem

end Use

/-! ## Running by names -/

section Run

variable {V F : Type} (unbound : F) (exec : O → List V → Except F V)

def readAll (env : Scope N V) : List (Use N B) → Except F (List V)
  | [] => .ok []
  | use :: uses =>
    match env.lookup use.name with
    | none => .error unbound
    | some v => (readAll env uses).map (v :: ·)

def runLets : Scope N V → List (LetStmt N B O) → Except F (Scope N V)
  | env, [] => .ok env
  | env, stmt :: stmts => do
    let values ← readAll unbound env stmt.reads
    let v ← exec stmt.op values
    runLets ((stmt.name, v) :: env) stmts

variable (den : B → V)

/-- The values that the names of a scope hold. -/
def denote (scope : Scope N B) : Scope N V := scope.map fun entry => (entry.1, den entry.2)

/-- The first fault among the `let`s when every use has the value it is meant to have. -/
def checkLets : List (LetStmt N B O) → Except F Unit
  | [] => .ok ()
  | stmt :: stmts => do
    let _ ← exec stmt.op (stmt.reads.map fun use => den use.meant)
    checkLets stmts

omit [DecidableEq N] in
theorem checkLets_append (stmts more : List (LetStmt N B O)) :
    checkLets exec den (stmts ++ more) =
      (checkLets exec den stmts).bind fun _ => checkLets exec den more := by
  induction stmts with
  | nil => rfl
  | cons stmt stmts ih =>
    simp only [List.cons_append, checkLets, ih, bind, Except.bind]
    cases exec stmt.op (stmt.reads.map fun use => den use.meant) <;> rfl

variable {scope : Scope N B}

theorem lookup_denote {use : Use N B} (h : use.Resolves scope) :
    (denote den scope).lookup use.name = some (den use.meant) := by
  induction scope with
  | nil => exact absurd h (by simp [Use.Resolves])
  | cons entry scope ih =>
    obtain ⟨m, b⟩ := entry
    rw [Use.Resolves, List.lookup_cons] at h
    rw [denote, List.map_cons, List.lookup_cons]
    cases hm : use.name == m with
    | true =>
      rw [hm] at h
      simp only [Option.some.injEq] at h
      simp [h]
    | false =>
      rw [hm] at h
      exact ih h

theorem readAll_denote {uses : List (Use N B)} (h : ∀ use ∈ uses, use.Resolves scope) :
    readAll unbound (denote den scope) uses = .ok (uses.map fun use => den use.meant) := by
  induction uses with
  | nil => rfl
  | cons use uses ih =>
    rw [List.forall_mem_cons] at h
    simp only [readAll, lookup_denote den h.1, ih h.2, Except.map, List.map_cons]

theorem runLets_denote {stmts : List (LetStmt N B O)} (h : LetsResolve scope stmts)
    (hden : ∀ stmt ∈ stmts, ∀ v,
      exec stmt.op (stmt.reads.map fun use => den use.meant) = .ok v → v = den stmt.binds) :
    runLets unbound exec (denote den scope) stmts =
      (checkLets exec den stmts).map fun _ => denote den (enter scope stmts) := by
  induction stmts generalizing scope with
  | nil => rfl
  | cons stmt stmts ih =>
    obtain ⟨hreads, hrest⟩ := h
    rw [List.forall_mem_cons] at hden
    simp only [runLets, checkLets, readAll_denote unbound den hreads, bind, Except.bind]
    cases hexec : exec stmt.op (stmt.reads.map fun use => den use.meant) with
    | error e => rfl
    | ok v =>
      rw [hden.1 v hexec]
      exact ih hrest hden.2

end Run

end Basis
