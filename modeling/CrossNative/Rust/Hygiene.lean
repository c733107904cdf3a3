import CrossNative.Basis.Scope
import CrossNative.Rust.Macro
import Mathlib.Data.List.Flatten
import Mathlib.Data.List.Pairwise

/-!
# The names in generated code

The bodies that the attribute writes around a function: the shim for WebAssembly and the closure
for a linked module. Both rebuild the arguments by a row of `let`s under the names of the
parameters, next to names of their own: a pointer and a length for every slice and text, a borrowed
text, `args`, `Ok` and the function. All of them share one scope with the user's names.
-/

namespace CrossNative.Rust

set_option autoImplicit false

open Basis

abbrev Symbol := List Char

/-- `r#x` and `x` are one identifier, and `format_ident!` leaves the `r#` out. -/
def Ident.symbol (ident : Ident) : Symbol :=
  match ident.text.toList with
  | 'r' :: '#' :: rest => rest
  | chars => chars

def ptrName (name : Symbol) : Symbol := name ++ ['_', 'p', 't', 'r']

def lenName (name : Symbol) : Symbol := name ++ ['_', 'l', 'e', 'n']

def refName (name : Symbol) : Symbol := name ++ ['_', 'r', 'e', 'f']

def argsName : Symbol := ['a', 'r', 'g', 's']

def okName : Symbol := ['O', 'k']

/-- What a name stands for; the numbers are those of the parameters. -/
inductive Binding
  | userFn
  | okVariant
  | closureArgs
  | ptr (i : Nat)
  | len (i : Nat)
  | value (i : Nat)
  | borrowed (i : Nat)
  deriving DecidableEq

inductive Decode
  | sliceFrom (elem : Scalar) (owned : Bool)
  | stringFrom
  | asStr
  | argScalar (s : Scalar) (i : Nat)
  | argVec (elem : Scalar) (i : Nat)
  | argString (i : Nat)

abbrev Let := LetStmt Symbol Binding Decode

def ParamDecl.symbol (p : ParamDecl) : Symbol := p.name.symbol

/-- A parameter with its number. -/
abbrev NumberedParam := ParamDecl × Nat

namespace NumberedParam

def symbol (p : NumberedParam) : Symbol := p.1.symbol

def ptrUse (p : NumberedParam) : Use Symbol Binding := ⟨ptrName p.symbol, .ptr p.2⟩

def lenUse (p : NumberedParam) : Use Symbol Binding := ⟨lenName p.symbol, .len p.2⟩

def valueUse (p : NumberedParam) : Use Symbol Binding := ⟨p.symbol, .value p.2⟩

def borrowedUse (p : NumberedParam) : Use Symbol Binding := ⟨refName p.symbol, .borrowed p.2⟩

/-! ## `build_arguments` -/

def signature (p : NumberedParam) : Scope Symbol Binding :=
  match p.1.kind with
  | .scalar _ => [(p.symbol, .value p.2)]
  | .slice _ _ | .text _ => [(ptrName p.symbol, .ptr p.2), (lenName p.symbol, .len p.2)]
  | .unit => []

def prologue (p : NumberedParam) : List Let :=
  match p.1.kind with
  | .scalar _ => []
  | .slice elem owned => [⟨p.symbol, .value p.2, .sliceFrom elem owned, [p.ptrUse, p.lenUse]⟩]
  | .text true => [⟨p.symbol, .value p.2, .stringFrom, [p.ptrUse, p.lenUse]⟩]
  | .text false =>
    [⟨p.symbol, .value p.2, .stringFrom, [p.ptrUse, p.lenUse]⟩,
      ⟨refName p.symbol, .borrowed p.2, .asStr, [p.valueUse]⟩]
  | .unit => []

def callArg (p : NumberedParam) : List (Use Symbol Binding) :=
  match p.1.kind with
  | .scalar _ | .slice _ _ | .text true => [p.valueUse]
  | .text false => [p.borrowedUse]
  | .unit => []

/-! ## `native_decode` and `native_args` -/

def argsUse : Use Symbol Binding := ⟨argsName, .closureArgs⟩

def nativeDecode (p : NumberedParam) : List Let :=
  match p.1.kind with
  | .scalar s => [⟨p.symbol, .value p.2, .argScalar s p.2, [argsUse]⟩]
  | .slice elem _ => [⟨p.symbol, .value p.2, .argVec elem p.2, [argsUse]⟩]
  | .text _ => [⟨p.symbol, .value p.2, .argString p.2, [argsUse]⟩]
  | .unit => []

/-- `x`, `&x` and `x.as_str()` all use `x`. -/
def nativeArg (p : NumberedParam) : List (Use Symbol Binding) :=
  match p.1.kind with
  | .scalar _ | .slice _ _ | .text _ => [p.valueUse]
  | .unit => []

end NumberedParam

/-- The body of a generated function: its parameters, the `let`s, and what the rest of it uses. -/
structure Body where
  params : Scope Symbol Binding
  lets : List Let
  callee : Use Symbol Binding
  args : List (Use Symbol Binding)
  others : List (Use Symbol Binding)

namespace FnDecl

variable (f : FnDecl)

def symbol : Symbol := f.name.symbol

def numbered : List NumberedParam := f.params.zipIdx

def calleeUse : Use Symbol Binding := ⟨f.symbol, .userFn⟩

/-- The module the code stands in, and what every module can name. -/
def globals : Scope Symbol Binding := [(f.symbol, .userFn), (okName, .okVariant)]

/-- The shim; what packs its result is named by a full path. -/
def shimBody : Body where
  params := f.numbered.flatMap NumberedParam.signature
  lets := f.numbered.flatMap NumberedParam.prologue
  callee := f.calleeUse
  args := f.numbered.flatMap NumberedParam.callArg
  others := []

/-- The closure `invoke`, whose value is an `Ok`. -/
def nativeBody : Body where
  params := [(argsName, .closureArgs)]
  lets := f.numbered.flatMap NumberedParam.nativeDecode
  callee := f.calleeUse
  args := f.numbered.flatMap NumberedParam.nativeArg
  others := [⟨okName, .okVariant⟩]

end FnDecl

/-! ## Hygiene -/

/-- Every use in the body gets the binding it is meant for. -/
structure Body.Resolves (globals : Scope Symbol Binding) (body : Body) : Prop where
  lets : LetsResolve (body.params ++ globals) body.lets
  callee : body.callee.Resolves (enter (body.params ++ globals) body.lets)
  args : ∀ use ∈ body.args, use.Resolves (enter (body.params ++ globals) body.lets)
  others : ∀ use ∈ body.others, use.Resolves (enter (body.params ++ globals) body.lets)

/-- The argument for a parameter in the shim: its value, or the `&str` of its text. -/
def NumberedParam.shimArgument (p : NumberedParam) : Binding :=
  if p.1.kind = .text false then .borrowed p.2 else .value p.2

structure FnDecl.Hygienic (f : FnDecl) : Prop where
  distinct : (f.shimBody.params.map Prod.fst).Nodup
  shim : f.shimBody.Resolves f.globals
  native : f.nativeBody.Resolves f.globals
  shimArgs : f.shimBody.args.map Use.meant = f.numbered.map NumberedParam.shimArgument
  nativeArgs : f.nativeBody.args.map Use.meant = f.numbered.map fun p => .value p.2

/-! ## When there is nothing to capture -/

namespace Kind

def isScalar : Kind → Bool
  | .scalar _ => true
  | _ => false

/-- Passed to the shim as a pointer and a length. -/
def isBuffer : Kind → Bool
  | .slice _ _ | .text _ => true
  | _ => false

def isBorrowedText : Kind → Bool
  | .text false => true
  | _ => false

end Kind

/-- The names that the shim makes of the name of a parameter. -/
def ParamDecl.derived (p : ParamDecl) : List Symbol :=
  match p.kind with
  | .slice _ _ | .text true => [ptrName p.symbol, lenName p.symbol]
  | .text false => [ptrName p.symbol, lenName p.symbol, refName p.symbol]
  | _ => []

/-- Of two slices or texts, where `p` stands before `q`. -/
@[mk_iff] structure Undisturbed (p q : ParamDecl) : Prop where
  buffer : p.kind.isBuffer → q.kind.isBuffer →
    p.symbol ≠ ptrName q.symbol ∧ p.symbol ≠ lenName q.symbol
  owned : p.kind.isBuffer → ¬ p.kind.isBorrowedText → q.kind.isBorrowedText →
    p.symbol ≠ refName q.symbol
  borrowed : p.kind.isBorrowedText → q.kind.isBuffer → q.symbol ≠ refName p.symbol

instance (p q : ParamDecl) : Decidable (Undisturbed p q) :=
  decidable_of_iff' _ (undisturbed_iff p q)

@[mk_iff] structure FnDecl.Clear (f : FnDecl) : Prop where
  noUnit : ∀ p ∈ f.params, p.kind ≠ .unit
  scalars : ∀ p ∈ f.params, ∀ q ∈ f.params, p.kind.isScalar → p.symbol ∉ q.derived
  order : f.params.Pairwise Undisturbed
  callee : ∀ p ∈ f.params, f.symbol ≠ p.symbol ∧ f.symbol ∉ p.derived
  fixed : f.symbol ≠ argsName ∧ f.symbol ≠ okName
  ok : ∀ p ∈ f.params, p.symbol ≠ okName
  /-- `args` is read for every parameter, so only the last one may be called so. -/
  args : f.params.Pairwise fun p _ => p.symbol ≠ argsName

instance (f : FnDecl) : Decidable f.Clear := decidable_of_iff' _ (FnDecl.clear_iff f)

/-! ## The names are apart -/

theorem ptrName_inj {x y : Symbol} : ptrName x = ptrName y ↔ x = y := List.append_left_inj _

theorem lenName_inj {x y : Symbol} : lenName x = lenName y ↔ x = y := List.append_left_inj _

theorem refName_inj {x y : Symbol} : refName x = refName y ↔ x = y := List.append_left_inj _

theorem append_ne_append {x y s t : Symbol} (hlength : s.length = t.length) (hne : s ≠ t) :
    x ++ s ≠ y ++ t := by
  intro h
  exact hne (List.append_inj' h hlength).2

theorem ptrName_ne_lenName (x y : Symbol) : ptrName x ≠ lenName y :=
  append_ne_append rfl (by decide)

theorem ptrName_ne_refName (x y : Symbol) : ptrName x ≠ refName y :=
  append_ne_append rfl (by decide)

theorem lenName_ne_refName (x y : Symbol) : lenName x ≠ refName y :=
  append_ne_append rfl (by decide)

/-! ## One parameter -/

namespace NumberedParam

variable {p q : NumberedParam} {S : Scope Symbol Binding}

theorem prologue_binds {stmt : Let} (h : stmt ∈ p.prologue) :
    stmt.binds = .value p.2 ∨ stmt.binds = .borrowed p.2 := by
  unfold prologue at h
  split at h <;> simp only [List.mem_cons, List.not_mem_nil, or_false] at h
  · rw [h]
    exact .inl rfl
  · rw [h]
    exact .inl rfl
  · rcases h with h | h
    · rw [h]
      exact .inl rfl
    · rw [h]
      exact .inr rfl

/-- The names that the `let`s of a parameter introduce. -/
theorem prologue_name_ne_iff {n : Symbol} : (∀ stmt ∈ p.prologue, stmt.name ≠ n) ↔
    (p.1.kind.isBuffer → p.symbol ≠ n) ∧ (p.1.kind.isBorrowedText → refName p.symbol ≠ n) := by
  unfold prologue
  split <;> simp_all [Kind.isBuffer, Kind.isBorrowedText]

theorem forall_callArg {P : Use Symbol Binding → Prop} : (∀ use ∈ p.callArg, P use) ↔
    (p.1.kind.isScalar → P p.valueUse) ∧
      (p.1.kind.isBuffer → ¬ p.1.kind.isBorrowedText → P p.valueUse) ∧
      (p.1.kind.isBorrowedText → P p.borrowedUse) := by
  unfold callArg
  split <;> simp_all [Kind.isScalar, Kind.isBuffer, Kind.isBorrowedText]

theorem callArg_meant {use : Use Symbol Binding} (h : use ∈ p.callArg) :
    use.meant = .value p.2 ∨ use.meant = .borrowed p.2 := by
  have hmeant : ∀ use ∈ p.callArg, use.meant = .value p.2 ∨ use.meant = .borrowed p.2 := by
    rw [forall_callArg]
    simp [valueUse, borrowedUse]
  exact hmeant use h

theorem prologue_resolves : LetsResolve S p.prologue ↔
    (p.1.kind.isBuffer → p.ptrUse.Resolves S ∧ p.lenUse.Resolves S) := by
  unfold prologue
  split <;> simp_all [Kind.isBuffer, LetsResolve, valueUse, Use.Resolves]

theorem enter_prologue_iff {use : Use Symbol Binding}
    (h : use.meant ≠ .value p.2 ∧ use.meant ≠ .borrowed p.2) :
    use.Resolves (enter S p.prologue) ↔
      (∀ stmt ∈ p.prologue, stmt.name ≠ use.name) ∧ use.Resolves S := by
  apply Use.resolves_enter
  intro stmt hstmt
  rcases prologue_binds hstmt with heq | heq
  · rw [heq]
    exact h.1.symm
  · rw [heq]
    exact h.2.symm

/-- What it takes for the pointer and the length of `q` to be read behind the `let`s of `p`. -/
theorem bufferUses_enter : (q.ptrUse.Resolves (enter S p.prologue) ∧
      q.lenUse.Resolves (enter S p.prologue)) ↔
    (p.1.kind.isBuffer → p.symbol ≠ ptrName q.symbol ∧ p.symbol ≠ lenName q.symbol) ∧
      q.ptrUse.Resolves S ∧ q.lenUse.Resolves S := by
  have hptr : q.ptrUse.meant ≠ .value p.2 ∧ q.ptrUse.meant ≠ .borrowed p.2 := by simp [ptrUse]
  have hlen : q.lenUse.meant ≠ .value p.2 ∧ q.lenUse.meant ≠ .borrowed p.2 := by simp [lenUse]
  rw [enter_prologue_iff hptr, enter_prologue_iff hlen, prologue_name_ne_iff, prologue_name_ne_iff]
  have hrefPtr := (ptrName_ne_refName q.symbol p.symbol).symm
  have hrefLen := (lenName_ne_refName q.symbol p.symbol).symm
  simp only [ptrUse, lenUse, ne_eq, hrefPtr, hrefLen, not_false_iff, implies_true, and_true]
  tauto

theorem callArg_resolves : (∀ use ∈ p.callArg, use.Resolves (enter S p.prologue)) ↔
    (p.1.kind.isScalar → p.valueUse.Resolves S) := by
  unfold callArg prologue
  split <;> simp_all [Kind.isScalar, enter, Use.Resolves, valueUse, borrowedUse]

end NumberedParam

/-! ## Rows of parameters -/

section Rows

open NumberedParam

variable {l : List NumberedParam} {S : Scope Symbol Binding}

theorem prologues_resolve_iff : LetsResolve S (l.flatMap prologue) ↔
    (∀ q ∈ l, q.1.kind.isBuffer → q.ptrUse.Resolves S ∧ q.lenUse.Resolves S) ∧
      l.Pairwise fun p q => q.1.kind.isBuffer → p.1.kind.isBuffer →
        p.symbol ≠ ptrName q.symbol ∧ p.symbol ≠ lenName q.symbol := by
  induction l generalizing S with
  | nil => simp [LetsResolve]
  | cons p l ih =>
    rw [List.flatMap_cons, letsResolve_append, prologue_resolves, ih, List.forall_mem_cons,
      List.pairwise_cons]
    simp only [bufferUses_enter, imp_and, forall_and]
    tauto

/-- The numbers of the parameters are different. -/
def Numbered (l : List NumberedParam) : Prop := l.Pairwise fun p q => p.2 ≠ q.2

/-- Later `let`s may take the name of the argument of `p`. -/
theorem callArg_behind_iff {p : NumberedParam} (hp : ∀ q ∈ l, p.2 ≠ q.2) :
    (∀ use ∈ p.callArg, use.Resolves (enter S (l.flatMap prologue))) ↔
      (∀ q ∈ l, ∀ use ∈ p.callArg, ∀ stmt ∈ q.prologue, stmt.name ≠ use.name) ∧
        ∀ use ∈ p.callArg, use.Resolves S := by
  have hone : ∀ use ∈ p.callArg, (use.Resolves (enter S (l.flatMap prologue)) ↔
      (∀ q ∈ l, ∀ stmt ∈ q.prologue, stmt.name ≠ use.name) ∧ use.Resolves S) := by
    intro use huse
    rw [← List.forall_mem_flatMap]
    apply Use.resolves_enter
    intro stmt hstmt
    obtain ⟨q, hq, hstmt⟩ := List.mem_flatMap.mp hstmt
    have hne := hp q hq
    rcases prologue_binds hstmt with heq | heq <;>
      rcases callArg_meant huse with hmeant | hmeant <;>
      simp [heq, hmeant, hne.symm]
  constructor
  · intro h
    exact ⟨fun q hq use huse => ((hone use huse).mp (h use huse)).1 q hq,
      fun use huse => ((hone use huse).mp (h use huse)).2⟩
  · intro ⟨hnames, hresolves⟩ use huse
    exact (hone use huse).mpr ⟨fun q hq => hnames q hq use huse, hresolves use huse⟩

/-- The `let`s of `p` may take the name of a later scalar. -/
theorem scalars_behind_iff {p : NumberedParam} (hp : ∀ q ∈ l, p.2 ≠ q.2) :
    (∀ q ∈ l, q.1.kind.isScalar → q.valueUse.Resolves (enter S p.prologue)) ↔
      ∀ q ∈ l, q.1.kind.isScalar →
        (∀ stmt ∈ p.prologue, stmt.name ≠ q.symbol) ∧ q.valueUse.Resolves S := by
  refine forall₂_congr fun q hq => imp_congr_right fun _ => ?_
  apply enter_prologue_iff
  simp [valueUse, (hp q hq).symm]

theorem callArgs_resolve_iff (hnumbered : Numbered l) :
    (∀ use ∈ l.flatMap callArg, use.Resolves (enter S (l.flatMap prologue))) ↔
      (∀ q ∈ l, q.1.kind.isScalar → q.valueUse.Resolves S) ∧
        l.Pairwise fun p q =>
          (∀ use ∈ p.callArg, ∀ stmt ∈ q.prologue, stmt.name ≠ use.name) ∧
            (q.1.kind.isScalar → ∀ stmt ∈ p.prologue, stmt.name ≠ q.symbol) := by
  induction l generalizing S with
  | nil => simp
  | cons p l ih =>
    obtain ⟨hp, hl⟩ := List.pairwise_cons.mp hnumbered
    rw [List.flatMap_cons, List.flatMap_cons, enter_append, List.forall_mem_append,
      callArg_behind_iff hp, callArg_resolves, ih hl, scalars_behind_iff hp, List.forall_mem_cons,
      List.pairwise_cons]
    simp only [imp_and, forall_and]
    tauto

theorem pairwise_congr {A : Type} {R R' : A → A → Prop} {l : List A}
    (h : l.Pairwise fun a b => R a b ↔ R' a b) : l.Pairwise R ↔ l.Pairwise R' := by
  constructor
  · intro hR
    exact (h.and hR).imp fun ⟨hiff, hab⟩ => hiff.mp hab
  · intro hR
    exact (h.and hR).imp fun ⟨hiff, hab⟩ => hiff.mpr hab

/-- The names of the parameters are different. -/
def Distinct (l : List NumberedParam) : Prop := l.Pairwise fun p q => p.symbol ≠ q.symbol

/-- A scalar does not have the name of a pointer or length. -/
def KeepsClear (p q : NumberedParam) : Prop :=
  p.1.kind.isScalar → q.1.kind.isBuffer → p.symbol ≠ ptrName q.symbol ∧ p.symbol ≠ lenName q.symbol

theorem signature_disjoint_iff {p q : NumberedParam} (hne : p.symbol ≠ q.symbol) :
    (p.signature.map Prod.fst).Disjoint (q.signature.map Prod.fst) ↔
      KeepsClear p q ∧ KeepsClear q p := by
  have hptr : ptrName p.symbol ≠ ptrName q.symbol := mt ptrName_inj.mp hne
  have hlen : lenName p.symbol ≠ lenName q.symbol := mt lenName_inj.mp hne
  have hptrLen := ptrName_ne_lenName p.symbol q.symbol
  have hlenPtr := (ptrName_ne_lenName q.symbol p.symbol).symm
  unfold signature KeepsClear
  split <;> split <;>
    simp_all only [Kind.isScalar, Kind.isBuffer, List.map_cons, List.map_nil,
      List.disjoint_cons_left, List.disjoint_nil_left, List.disjoint_nil_right, List.mem_cons,
      List.not_mem_nil] <;>
    grind

theorem signatures_nodup_iff (hdistinct : Distinct l) :
    ((l.flatMap signature).map Prod.fst).Nodup ↔
      l.Pairwise fun p q => KeepsClear p q ∧ KeepsClear q p := by
  have hone : ∀ p ∈ l, (p.signature.map Prod.fst).Nodup := by
    intro p _
    unfold signature
    split <;> simp [ptrName_ne_lenName]
  rw [List.map_flatMap, List.nodup_flatMap, and_iff_right hone]
  exact pairwise_congr (hdistinct.imp fun hne => signature_disjoint_iff hne)

theorem callArg_undisturbed_iff {p q : NumberedParam} (hne : p.symbol ≠ q.symbol) :
    ((∀ use ∈ p.callArg, ∀ stmt ∈ q.prologue, stmt.name ≠ use.name) ∧
        (q.1.kind.isScalar → ∀ stmt ∈ p.prologue, stmt.name ≠ q.symbol)) ↔
      (p.1.kind.isScalar → q.1.kind.isBorrowedText → p.symbol ≠ refName q.symbol) ∧
        (q.1.kind.isScalar → p.1.kind.isBorrowedText → q.symbol ≠ refName p.symbol) ∧
        (p.1.kind.isBuffer → ¬ p.1.kind.isBorrowedText → q.1.kind.isBorrowedText →
          p.symbol ≠ refName q.symbol) ∧
        (p.1.kind.isBorrowedText → q.1.kind.isBuffer → q.symbol ≠ refName p.symbol) := by
  have href : refName q.symbol ≠ refName p.symbol := mt refName_inj.mp hne.symm
  simp only [forall_callArg, prologue_name_ne_iff, valueUse, borrowedUse]
  grind

theorem not_mem_derived_iff {p : ParamDecl} {n : Symbol} : n ∉ p.derived ↔
    (p.kind.isBuffer → n ≠ ptrName p.symbol ∧ n ≠ lenName p.symbol) ∧
      (p.kind.isBorrowedText → n ≠ refName p.symbol) := by
  unfold ParamDecl.derived
  split <;> simp_all [Kind.isBuffer, Kind.isBorrowedText, and_assoc]

theorem forall_iff_pairwise {A : Type} {C : A → A → Prop} {l : List A} (hrefl : ∀ a ∈ l, C a a) :
    (∀ a ∈ l, ∀ b ∈ l, C a b) ↔ l.Pairwise fun a b => C a b ∧ C b a := by
  constructor
  · intro h
    exact List.pairwise_of_forall_mem_list fun a ha b hb => ⟨h a ha b hb, h b hb a ha⟩
  · intro h
    exact List.Pairwise.forall_of_forall_of_flip hrefl (h.imp And.left) (h.imp And.right)

/-- Parameters of the shim with different names are found. -/
theorem signature_resolves {G : Scope Symbol Binding}
    (hnodup : ((l.flatMap signature).map Prod.fst).Nodup) {q : NumberedParam} (hq : q ∈ l) :
    (q.1.kind.isBuffer → q.ptrUse.Resolves (l.flatMap signature ++ G) ∧
        q.lenUse.Resolves (l.flatMap signature ++ G)) ∧
      (q.1.kind.isScalar → q.valueUse.Resolves (l.flatMap signature ++ G)) := by
  have hfound : ∀ use : Use Symbol Binding, (use.name, use.meant) ∈ q.signature →
      use.Resolves (l.flatMap signature ++ G) := by
    intro use huse
    exact Use.resolves_of_mem hnodup (List.mem_flatMap.mpr ⟨q, hq, huse⟩)
  constructor
  · intro hbuffer
    constructor <;> apply hfound <;> unfold signature <;> split <;>
      simp_all [Kind.isBuffer, ptrUse, lenUse]
  · intro hscalar
    apply hfound
    unfold signature
    split <;> simp_all [Kind.isScalar, valueUse]

theorem shim_lets_iff {G : Scope Symbol Binding}
    (hnodup : ((l.flatMap signature).map Prod.fst).Nodup) :
    LetsResolve (l.flatMap signature ++ G) (l.flatMap prologue) ↔
      l.Pairwise fun p q => q.1.kind.isBuffer → p.1.kind.isBuffer →
        p.symbol ≠ ptrName q.symbol ∧ p.symbol ≠ lenName q.symbol := by
  rw [prologues_resolve_iff]
  exact and_iff_right fun q hq => (signature_resolves hnodup hq).1

theorem shim_args_iff {G : Scope Symbol Binding} (hnumbered : Numbered l)
    (hnodup : ((l.flatMap signature).map Prod.fst).Nodup) :
    (∀ use ∈ l.flatMap callArg,
        use.Resolves (enter (l.flatMap signature ++ G) (l.flatMap prologue))) ↔
      l.Pairwise fun p q =>
        (∀ use ∈ p.callArg, ∀ stmt ∈ q.prologue, stmt.name ≠ use.name) ∧
          (q.1.kind.isScalar → ∀ stmt ∈ p.prologue, stmt.name ≠ q.symbol) := by
  rw [callArgs_resolve_iff hnumbered]
  exact and_iff_right fun q hq => (signature_resolves hnodup hq).2

theorem scalar_not_mem_derived {p : ParamDecl} (h : p.kind.isScalar) : p.symbol ∉ p.derived := by
  rw [not_mem_derived_iff]
  cases hkind : p.kind <;> simp_all [Kind.isScalar, Kind.isBuffer, Kind.isBorrowedText]

theorem shim_clear_iff {G : Scope Symbol Binding} (hnumbered : Numbered l) (hdistinct : Distinct l) :
    (((l.flatMap signature).map Prod.fst).Nodup ∧
        LetsResolve (l.flatMap signature ++ G) (l.flatMap prologue) ∧
        ∀ use ∈ l.flatMap callArg,
          use.Resolves (enter (l.flatMap signature ++ G) (l.flatMap prologue))) ↔
      (∀ p ∈ l, ∀ q ∈ l, p.1.kind.isScalar → p.symbol ∉ q.1.derived) ∧
        l.Pairwise fun p q => Undisturbed p.1 q.1 := by
  rw [forall_iff_pairwise fun p _ => scalar_not_mem_derived, ← List.pairwise_and_iff,
    and_congr_right fun hnodup =>
      and_congr (shim_lets_iff hnodup) (shim_args_iff hnumbered hnodup),
    signatures_nodup_iff hdistinct, ← List.pairwise_and_iff, ← List.pairwise_and_iff]
  refine pairwise_congr (hdistinct.imp fun {p q} hne => ?_)
  rw [callArg_undisturbed_iff hne, undisturbed_iff, not_mem_derived_iff, not_mem_derived_iff]
  constructor
  · intro ⟨⟨hpq, hqp⟩, hbuffer, hscalar, hscalar', howned, hborrowed⟩
    exact ⟨⟨fun h => ⟨hpq h, hscalar h⟩, fun h => ⟨hqp h, hscalar' h⟩⟩,
      fun hp hq => hbuffer hq hp, howned, hborrowed⟩
  · intro ⟨⟨hpq, hqp⟩, hbuffer, howned, hborrowed⟩
    exact ⟨⟨fun h => (hpq h).1, fun h => (hqp h).1⟩, fun hq hp => hbuffer hp hq,
      fun h => (hpq h).2, fun h => (hqp h).2, howned, hborrowed⟩

theorem shim_callee_iff {use : Use Symbol Binding} {G : Scope Symbol Binding}
    (hunit : ∀ p ∈ l, p.1.kind ≠ .unit) (hmeant : use.meant = .userFn) (hG : use.Resolves G) :
    use.Resolves (enter (l.flatMap signature ++ G) (l.flatMap prologue)) ↔
      ∀ p ∈ l, use.name ≠ p.symbol ∧ use.name ∉ p.1.derived := by
  have hbinds : ∀ stmt ∈ l.flatMap prologue, stmt.binds ≠ use.meant := by
    intro stmt hstmt
    obtain ⟨p, -, hstmt⟩ := List.mem_flatMap.mp hstmt
    rcases prologue_binds hstmt with heq | heq <;> simp [heq, hmeant]
  have hparams : ∀ entry ∈ l.flatMap signature, entry.2 ≠ use.meant := by
    rw [List.forall_mem_flatMap, hmeant]
    intro p _
    unfold signature
    split <;> simp
  rw [Use.resolves_enter hbinds, Use.resolves_append hparams, List.map_flatMap,
    List.forall_mem_flatMap, List.mem_flatMap, and_iff_left hG, not_exists]
  simp only [not_and]
  rw [← forall₂_and]
  refine forall₂_congr fun p hp => ?_
  have hkind := hunit p hp
  rw [prologue_name_ne_iff, not_mem_derived_iff]
  unfold signature
  split <;> simp_all [Kind.isBuffer, Kind.isBorrowedText, symbol] <;> grind

theorem nativeDecode_eq {p : NumberedParam} (h : p.1.kind ≠ .unit) :
    ∃ op, p.nativeDecode = [⟨p.symbol, .value p.2, op, [argsUse]⟩] := by
  unfold NumberedParam.nativeDecode
  split
  · exact ⟨_, rfl⟩
  · exact ⟨_, rfl⟩
  · exact ⟨_, rfl⟩
  · contradiction

theorem nativeArg_eq {p : NumberedParam} (h : p.1.kind ≠ .unit) : p.nativeArg = [p.valueUse] := by
  unfold nativeArg
  split <;> first | rfl | contradiction

theorem native_lets_iff (hunit : ∀ p ∈ l, p.1.kind ≠ .unit) :
    LetsResolve S (l.flatMap NumberedParam.nativeDecode) ↔
      (∀ p ∈ l, argsUse.Resolves S) ∧ l.Pairwise fun p _ => p.symbol ≠ argsName := by
  induction l generalizing S with
  | nil => simp [LetsResolve]
  | cons p l ih =>
    rw [List.forall_mem_cons] at hunit
    obtain ⟨op, hop⟩ := nativeDecode_eq hunit.1
    have hargs : argsUse.Resolves ((p.symbol, .value p.2) :: S) ↔
        p.symbol ≠ argsName ∧ argsUse.Resolves S := Use.resolves_cons (by simp [argsUse])
    rw [List.flatMap_cons, hop, List.singleton_append, LetsResolve, ih hunit.2, hargs,
      List.forall_mem_singleton, List.forall_mem_cons, List.pairwise_cons]
    constructor
    · rintro ⟨hread, hrest, hpairs⟩
      exact ⟨⟨hread, fun q hq => (hrest q hq).2⟩, fun q hq => (hrest q hq).1, hpairs⟩
    · rintro ⟨⟨hread, hrest⟩, hnames, hpairs⟩
      exact ⟨hread, fun q hq => ⟨hnames q hq, hrest q hq⟩, hpairs⟩

theorem native_names (hunit : ∀ p ∈ l, p.1.kind ≠ .unit) :
    (l.flatMap NumberedParam.nativeDecode).map LetStmt.name = l.map symbol := by
  induction l with
  | nil => rfl
  | cons p l ih =>
    rw [List.forall_mem_cons] at hunit
    obtain ⟨op, hop⟩ := nativeDecode_eq hunit.1
    rw [List.flatMap_cons, hop, List.singleton_append, List.map_cons, List.map_cons, ih hunit.2]

theorem native_args_resolve (hunit : ∀ p ∈ l, p.1.kind ≠ .unit) (hdistinct : Distinct l) :
    ∀ use ∈ l.flatMap nativeArg,
      use.Resolves (enter S (l.flatMap NumberedParam.nativeDecode)) := by
  rw [List.forall_mem_flatMap]
  intro p hp use huse
  rw [nativeArg_eq (hunit p hp), List.mem_singleton] at huse
  obtain ⟨op, hop⟩ := nativeDecode_eq (hunit p hp)
  have hmem : (⟨p.symbol, .value p.2, op, [argsUse]⟩ : Let) ∈
      l.flatMap NumberedParam.nativeDecode := by
    rw [List.mem_flatMap]
    exact ⟨p, hp, by simp [hop]⟩
  apply Use.resolves_enter_of_nodup _ hmem
  · rw [huse]
    rfl
  · rw [huse]
    rfl
  · rw [native_names hunit]
    exact List.pairwise_map.mpr hdistinct

/-- A name of the closure that stands for no parameter. -/
theorem native_use_iff {use : Use Symbol Binding} (hunit : ∀ p ∈ l, p.1.kind ≠ .unit)
    (hmeant : ∀ i, use.meant ≠ .value i) :
    use.Resolves (enter S (l.flatMap NumberedParam.nativeDecode)) ↔
      (∀ p ∈ l, p.symbol ≠ use.name) ∧ use.Resolves S := by
  have hbinds : ∀ stmt ∈ l.flatMap NumberedParam.nativeDecode, stmt.binds ≠ use.meant := by
    rw [List.forall_mem_flatMap]
    intro p hp stmt hstmt
    obtain ⟨op, hop⟩ := nativeDecode_eq (hunit p hp)
    rw [hop, List.mem_singleton] at hstmt
    rw [hstmt]
    exact (hmeant p.2).symm
  have hnames : (∀ stmt ∈ l.flatMap NumberedParam.nativeDecode, stmt.name ≠ use.name) ↔
      ∀ p ∈ l, p.symbol ≠ use.name := by
    rw [← List.forall_mem_map (f := LetStmt.name) (P := fun name => name ≠ use.name),
      native_names hunit, List.forall_mem_map]
  rw [Use.resolves_enter hbinds, hnames]

/-! ### The arguments are those of the parameters -/

theorem eq_of_number (hnumbered : Numbered l) {p q : NumberedParam} (hp : p ∈ l) (hq : q ∈ l)
    (h : p.2 = q.2) : p = q := by
  by_contra hne
  have : Std.Symm fun p q : NumberedParam => p.2 ≠ q.2 := ⟨fun _ _ => Ne.symm⟩
  exact hnumbered.forall hp hq hne h

theorem callArg_of_ne_unit {p : NumberedParam} (h : p.1.kind ≠ .unit) :
    p.callArg.map Use.meant = [p.shimArgument] := by
  unfold callArg shimArgument
  split <;> simp_all [valueUse, borrowedUse]

theorem nativeArg_of_ne_unit {p : NumberedParam} (h : p.1.kind ≠ .unit) :
    p.nativeArg.map Use.meant = [.value p.2] := by
  rw [nativeArg_eq h]
  rfl

theorem flatMap_eq_map {A C : Type} {g : A → List C} {f : A → C} {l : List A}
    (h : ∀ a ∈ l, g a = [f a]) : l.flatMap g = l.map f := by
  induction l with
  | nil => rfl
  | cons a l ih =>
    rw [List.forall_mem_cons] at h
    rw [List.flatMap_cons, h.1, ih h.2, List.singleton_append, List.map_cons]

/-- A parameter of type `()` is left out of the call. -/
theorem no_unit_of_shimArgs (hnumbered : Numbered l)
    (h : (l.flatMap callArg).map Use.meant = l.map shimArgument) : ∀ p ∈ l, p.1.kind ≠ .unit := by
  intro p hp hunit
  have hvalue : Binding.value p.2 ∈ (l.flatMap callArg).map Use.meant := by
    rw [h]
    exact List.mem_map.mpr ⟨p, hp, by simp [shimArgument, hunit]⟩
  obtain ⟨use, huse, hmeant⟩ := List.mem_map.mp hvalue
  obtain ⟨q, hq, huse⟩ := List.mem_flatMap.mp huse
  have hnumber : q.2 = p.2 := by
    rcases callArg_meant huse with heq | heq <;> simp_all
  rw [eq_of_number hnumbered hq hp hnumber] at huse
  simp [callArg, hunit] at huse

end Rows

section Function

variable (f : FnDecl)

theorem numbered_fst : f.numbered.map Prod.fst = f.params := List.zipIdx_map_fst 0 f.params

theorem forall_numbered {P : ParamDecl → Prop} : (∀ p ∈ f.numbered, P p.1) ↔ ∀ p ∈ f.params, P p := by
  rw [← numbered_fst f, List.forall_mem_map]

theorem pairwise_numbered {R : ParamDecl → ParamDecl → Prop} :
    f.numbered.Pairwise (fun p q => R p.1 q.1) ↔ f.params.Pairwise R := by
  rw [← numbered_fst f, List.pairwise_map]

theorem numbered_numbered : Numbered f.numbered := by
  have hnodup : (f.numbered.map Prod.snd).Nodup := by
    rw [FnDecl.numbered, List.zipIdx_map_snd]
    exact List.nodup_range'
  exact List.pairwise_map.mp hnodup

theorem numbered_distinct (h : (f.params.map ParamDecl.symbol).Nodup) : Distinct f.numbered :=
  (pairwise_numbered f).mpr (List.pairwise_map.mp h)

theorem calleeUse_resolves : f.calleeUse.Resolves f.globals := Use.resolves_cons_self

theorem okUse_resolves_iff :
    (⟨okName, .okVariant⟩ : Use Symbol Binding).Resolves f.globals ↔ f.symbol ≠ okName := by
  rw [FnDecl.globals, Use.resolves_cons (by simp)]
  exact and_iff_left Use.resolves_cons_self

/-- The closure: what may hide `args`, the function and `Ok`. -/
theorem native_clear_iff (hunit : ∀ p ∈ f.numbered, p.1.kind ≠ .unit)
    (hdistinct : Distinct f.numbered) :
    f.nativeBody.Resolves f.globals ↔
      (f.numbered.Pairwise fun p _ => p.symbol ≠ argsName) ∧
        (∀ p ∈ f.numbered, p.symbol ≠ f.symbol) ∧ (∀ p ∈ f.numbered, p.symbol ≠ okName) ∧
        argsName ≠ f.symbol ∧ f.symbol ≠ okName := by
  let S : Scope Symbol Binding := (argsName, .closureArgs) :: f.globals
  have hargs : NumberedParam.argsUse.Resolves S := Use.resolves_cons_self
  have hlets : LetsResolve S f.nativeBody.lets ↔
      f.numbered.Pairwise fun p _ => p.symbol ≠ argsName :=
    (native_lets_iff hunit).trans (and_iff_right fun _ _ => hargs)
  have hcallee : f.calleeUse.Resolves (enter S f.nativeBody.lets) ↔
      (∀ p ∈ f.numbered, p.symbol ≠ f.symbol) ∧ argsName ≠ f.symbol := by
    have hS : f.calleeUse.Resolves S ↔ argsName ≠ f.symbol :=
      (Use.resolves_cons (by simp [FnDecl.calleeUse])).trans (and_iff_left (calleeUse_resolves f))
    rw [← hS]
    exact native_use_iff hunit (by simp [FnDecl.calleeUse])
  have hok : (⟨okName, .okVariant⟩ : Use Symbol Binding).Resolves (enter S f.nativeBody.lets) ↔
      (∀ p ∈ f.numbered, p.symbol ≠ okName) ∧ f.symbol ≠ okName := by
    have hS : (⟨okName, .okVariant⟩ : Use Symbol Binding).Resolves S ↔ f.symbol ≠ okName := by
      rw [← okUse_resolves_iff]
      exact (Use.resolves_cons (by simp)).trans (and_iff_right (by decide))
    rw [← hS]
    exact native_use_iff hunit (by simp)
  constructor
  · intro h
    have hothers := h.others _ List.mem_cons_self
    exact ⟨hlets.mp h.lets, (hcallee.mp h.callee).1, (hok.mp hothers).1, (hcallee.mp h.callee).2,
      (hok.mp hothers).2⟩
  · intro ⟨hpairs, hsymbols, hoks, hfn, hfnOk⟩
    refine ⟨hlets.mpr hpairs, hcallee.mpr ⟨hsymbols, hfn⟩, native_args_resolve hunit hdistinct, ?_⟩
    intro use huse
    rw [List.mem_singleton.mp huse]
    exact hok.mpr ⟨hoks, hfnOk⟩

theorem generated_code_hygienic_iff (h : (f.params.map ParamDecl.symbol).Nodup) :
    f.Hygienic ↔ f.Clear := by
  have hnumbered := numbered_numbered f
  have hdistinct := numbered_distinct f h
  have hshim := shim_clear_iff (G := f.globals) hnumbered hdistinct
  constructor
  · intro hyg
    have hunit := no_unit_of_shimArgs hnumbered hyg.shimArgs
    obtain ⟨hscalars, horder⟩ := hshim.mp ⟨hyg.distinct, hyg.shim.lets, hyg.shim.args⟩
    have hcallee := (shim_callee_iff hunit rfl (calleeUse_resolves f)).mp hyg.shim.callee
    obtain ⟨hargs, -, hok, hfn, hfnOk⟩ := (native_clear_iff f hunit hdistinct).mp hyg.native
    exact
      { noUnit := (forall_numbered f).mp hunit
        scalars := (forall_numbered f).mp fun p hp => (forall_numbered f).mp (hscalars p hp)
        order := (pairwise_numbered f).mp horder
        callee := (forall_numbered f).mp hcallee
        fixed := ⟨hfn.symm, hfnOk⟩
        ok := (forall_numbered f).mp hok
        args := (pairwise_numbered f).mp hargs }
  · intro hclear
    have hunit := (forall_numbered f).mpr hclear.noUnit
    have hscalars : ∀ p ∈ f.numbered, ∀ q ∈ f.numbered,
        p.1.kind.isScalar → p.symbol ∉ q.1.derived := fun p hp =>
      (forall_numbered f).mpr ((forall_numbered f).mpr hclear.scalars p hp)
    obtain ⟨hnames, hlets, hargs⟩ := hshim.mpr ⟨hscalars, (pairwise_numbered f).mpr hclear.order⟩
    have hcallee : ∀ p ∈ f.numbered, f.symbol ≠ p.symbol ∧ f.symbol ∉ p.1.derived :=
      (forall_numbered f).mpr hclear.callee
    have hnative := (native_clear_iff f hunit hdistinct).mpr
      ⟨(pairwise_numbered f).mpr hclear.args, fun p hp => (hcallee p hp).1.symm,
        (forall_numbered f).mpr hclear.ok, hclear.fixed.1.symm, hclear.fixed.2⟩
    refine ⟨hnames, ⟨hlets, ?_, hargs, ?_⟩, hnative, ?_, ?_⟩
    · exact (shim_callee_iff hunit rfl (calleeUse_resolves f)).mpr hcallee
    · exact fun use huse => absurd huse List.not_mem_nil
    · change (f.numbered.flatMap NumberedParam.callArg).map Use.meant = _
      rw [List.map_flatMap]
      exact flatMap_eq_map fun p hp => callArg_of_ne_unit (hunit p hp)
    · change (f.numbered.flatMap NumberedParam.nativeArg).map Use.meant = _
      rw [List.map_flatMap]
      exact flatMap_eq_map fun p hp => nativeArg_of_ne_unit (hunit p hp)

end Function

/-! ## Functions with clear names and with captured ones -/

def plainArg (name : Ident) (ty : SynType) : FnArg := .typed (some name) ty

def scalarType (name : String) : SynType := .path false [.mk name .none]

/-- `fn scale(samples: &[f64], factor: f64)`. -/
def scaleFn : FnDecl where
  name := ⟨"scale", by decide⟩
  params := [⟨⟨"samples", by decide⟩, .slice (.elem .f64) false⟩,
    ⟨⟨"factor", by decide⟩, .scalar (.elem .f64)⟩]
  returns := .unit

theorem scaleFn_hygienic : (scaleFn.params.map ParamDecl.symbol).Nodup ∧ scaleFn.Hygienic := by
  have hnodup : (scaleFn.params.map ParamDecl.symbol).Nodup := by decide
  exact ⟨hnodup, (generated_code_hygienic_iff scaleFn hnodup).mpr (by decide)⟩

/-- `fn mix(args: i32, seed: i32)`. -/
def mixFn : ItemFn where
  ident := ⟨"mix", by decide⟩
  inputs := [plainArg ⟨"args", by decide⟩ (scalarType "i32"),
    plainArg ⟨"seed", by decide⟩ (scalarType "i32")]
  output := none

/-- `fn sum(data: &[f64], data_ptr: i32)`. -/
def sumFn : ItemFn where
  ident := ⟨"sum", by decide⟩
  inputs := [plainArg ⟨"data", by decide⟩ (.reference (.slice (scalarType "f64"))),
    plainArg ⟨"data_ptr", by decide⟩ (scalarType "i32")]
  output := none

/-- In the closure of `mix`, the decoder of `seed` reads the first parameter; the shim of `sum` has
two parameters `data_ptr`. -/
theorem accepted_names_captured : ∃ mix sum : FnDecl,
    crossnative mixFn = .ok mix ∧ (mix.params.map ParamDecl.symbol).Nodup ∧ ¬ mix.Hygienic ∧
      crossnative sumFn = .ok sum ∧ (sum.params.map ParamDecl.symbol).Nodup ∧ ¬ sum.Hygienic := by
  refine ⟨_, _, rfl, by decide, ?_, rfl, by decide, ?_⟩
  · intro h
    have hread := h.native.lets.2.1 NumberedParam.argsUse List.mem_cons_self
    exact absurd hread (by unfold Use.Resolves; decide)
  · intro h
    exact absurd h.distinct (by decide)

end CrossNative.Rust
