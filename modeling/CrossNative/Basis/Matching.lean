import Mathlib.Data.List.Basic
import Mathlib.Data.List.TakeWhile
import Mathlib.Tactic.Common

/-!
# Backtracking matchers

A matcher lists the ways to match at the beginning of a text in the order in which a backtracking
engine tries them, each with the text that follows. The match is the first of them. What any way
of matching says about the text is told by membership; which way is the first one is told by
`first`, where the parts of a sequence may be looked at one after the other if the first way of
each lets the next one match.
-/

namespace Basis

set_option autoImplicit false

def Matcher (C A : Type) : Type := List C → List (A × List C)

namespace Matcher

variable {C A B : Type}

instance : Monad (Matcher C) where
  pure a := fun s => [(a, s)]
  bind m f := fun s => (m s).flatMap fun found => f found.1 found.2

def first (m : Matcher C A) (s : List C) : Option (A × List C) := (m s).head?

/-- One symbol of a class. -/
def one (p : C → Bool) : Matcher C C
  | [] => []
  | c :: s => if p c then [(c, s)] else []

/-- As many symbols of a class as there are, or fewer. -/
def greedy (p : C → Bool) : Matcher C (List C)
  | [] => [([], [])]
  | c :: s => (if p c then (greedy p s).map fun found => (c :: found.1, found.2) else []) ++ [([], c :: s)]

/-- No symbol of a class, or more. -/
def reluctant (p : C → Bool) : Matcher C (List C)
  | [] => [([], [])]
  | c :: s => ([], c :: s) :: if p c then (reluctant p s).map fun found => (c :: found.1, found.2) else []

/-- A symbol of one class and symbols of another. -/
def headed (p q : C → Bool) : Matcher C (List C) := do
  let c ← one p
  let cs ← greedy q
  pure (c :: cs)

def literal [DecidableEq C] (text : List C) : Matcher C Unit := fun s =>
  if text <+: s then [((), s.drop text.length)] else []

def optional (m : Matcher C A) : Matcher C (Option A) := fun s =>
  ((m s).map fun found => (some found.1, found.2)) ++ [(none, s)]

/-! ## What a match says about the text -/

section Members

variable {p q : C → Bool} {s r : List C}

@[simp] theorem mem_pure {a b : A} : (b, r) ∈ (pure a : Matcher C A) s ↔ b = a ∧ r = s := by
  change (b, r) ∈ [(a, s)] ↔ _
  rw [List.mem_singleton, Prod.mk.injEq]

theorem mem_bind {m : Matcher C A} {f : A → Matcher C B} {b : B} :
    (b, r) ∈ (m >>= f) s ↔ ∃ a t, (a, t) ∈ m s ∧ (b, r) ∈ f a t := by
  change (b, r) ∈ (m s).flatMap _ ↔ _
  rw [List.mem_flatMap]
  constructor
  · rintro ⟨⟨a, t⟩, hm, hf⟩
    exact ⟨a, t, hm, hf⟩
  · rintro ⟨a, t, hm, hf⟩
    exact ⟨(a, t), hm, hf⟩

theorem mem_one {c : C} : (c, r) ∈ one p s ↔ s = c :: r ∧ p c = true := by
  cases s with
  | nil => simp [one]
  | cons d s =>
    rw [one]
    split
    · rename_i hd
      rw [List.mem_singleton, Prod.mk.injEq, List.cons.injEq]
      constructor
      · rintro ⟨rfl, rfl⟩
        exact ⟨⟨rfl, rfl⟩, hd⟩
      · rintro ⟨⟨rfl, rfl⟩, _⟩
        exact ⟨rfl, rfl⟩
    · rename_i hd
      refine iff_of_false (List.not_mem_nil) ?_
      rintro ⟨heq, hc⟩
      rw [List.cons.injEq] at heq
      exact hd (heq.1 ▸ hc)

theorem mem_greedy {x : List C} : (x, r) ∈ greedy p s ↔ s = x ++ r ∧ ∀ c ∈ x, p c = true := by
  induction s generalizing x with
  | nil =>
    rw [greedy, List.mem_singleton, Prod.mk.injEq, eq_comm (a := []), List.append_eq_nil_iff]
    constructor
    · rintro ⟨rfl, rfl⟩
      exact ⟨⟨rfl, rfl⟩, List.forall_mem_nil _⟩
    · rintro ⟨⟨rfl, rfl⟩, _⟩
      exact ⟨rfl, rfl⟩
  | cons d s ih =>
    rw [greedy, List.mem_append, List.mem_singleton, Prod.mk.injEq]
    constructor
    · rintro (hmem | ⟨rfl, rfl⟩)
      · split at hmem
        · rename_i hd
          obtain ⟨⟨y, t⟩, hy, heq⟩ := List.mem_map.mp hmem
          cases heq
          obtain ⟨rfl, hall⟩ := ih.mp hy
          exact ⟨rfl, List.forall_mem_cons.mpr ⟨hd, hall⟩⟩
        · cases hmem
      · exact ⟨rfl, List.forall_mem_nil _⟩
    · rintro ⟨heq, hall⟩
      cases x with
      | nil => exact Or.inr ⟨rfl, heq.symm⟩
      | cons c x =>
        obtain ⟨rfl, rfl⟩ := List.cons.inj heq
        obtain ⟨hd, hx⟩ := List.forall_mem_cons.mp hall
        rw [if_pos hd]
        exact Or.inl (List.mem_map.mpr ⟨(x, r), ih.mpr ⟨rfl, hx⟩, rfl⟩)

/-- The same ways, in the opposite order. -/
theorem reluctant_eq (p : C → Bool) (s : List C) : reluctant p s = (greedy p s).reverse := by
  induction s with
  | nil => rfl
  | cons c s ih =>
    rw [reluctant, greedy, List.reverse_append, ih]
    split
    · rw [List.map_reverse]
      rfl
    · rfl

theorem mem_reluctant {x : List C} : (x, r) ∈ reluctant p s ↔ s = x ++ r ∧ ∀ c ∈ x, p c = true := by
  rw [reluctant_eq, List.mem_reverse, mem_greedy]

theorem mem_headed {x : List C} :
    (x, r) ∈ headed p q s ↔ ∃ c cs, x = c :: cs ∧ s = c :: (cs ++ r) ∧ p c = true ∧ ∀ d ∈ cs, q d = true := by
  simp only [headed, mem_bind, mem_one, mem_greedy, mem_pure]
  constructor
  · rintro ⟨c, t, ⟨rfl, hc⟩, cs, u, ⟨rfl, hcs⟩, rfl, rfl⟩
    exact ⟨c, cs, rfl, rfl, hc, hcs⟩
  · rintro ⟨c, cs, rfl, rfl, hc, hcs⟩
    exact ⟨c, cs ++ r, ⟨rfl, hc⟩, cs, r, ⟨rfl, hcs⟩, rfl, rfl⟩

theorem mem_literal [DecidableEq C] {text : List C} {u : Unit} : (u, r) ∈ literal text s ↔ s = text ++ r := by
  rw [literal]
  split
  · rename_i hprefix
    obtain ⟨t, rfl⟩ := hprefix
    simp [eq_comm]
  · rename_i hprefix
    refine iff_of_false List.not_mem_nil ?_
    rintro rfl
    exact hprefix (List.prefix_append text r)

theorem head_of_literal [DecidableEq C] {text : List C} {f : Unit → Matcher C B} {c d : C}
    (h : (literal (d :: text) >>= f) (c :: s) ≠ []) : c = d := by
  obtain ⟨found, hmem⟩ := List.exists_mem_of_ne_nil _ h
  obtain ⟨_, t, hliteral, _⟩ := mem_bind.mp hmem
  exact (List.cons.inj (mem_literal.mp hliteral)).1

theorem mem_optional {m : Matcher C A} {x : Option A} :
    (x, r) ∈ optional m s ↔ (∃ a, x = some a ∧ (a, r) ∈ m s) ∨ x = none ∧ r = s := by
  simp only [optional, List.mem_append, List.mem_map, List.mem_singleton, Prod.mk.injEq]
  refine or_congr_left ?_
  constructor
  · rintro ⟨⟨a, t⟩, ha, rfl, rfl⟩
    exact ⟨a, rfl, ha⟩
  · rintro ⟨a, rfl, ha⟩
    exact ⟨(a, r), ha, rfl, rfl⟩

theorem mem_of_first {m : Matcher C A} {a : A} (h : m.first s = some (a, r)) : (a, r) ∈ m s :=
  List.mem_of_head? h

theorem first_eq_none_iff {m : Matcher C A} : m.first s = none ↔ m s = [] := List.head?_eq_none_iff

end Members

/-! ## The first match -/

section First

variable {p q : C → Bool}

theorem first_pure (a : A) (s : List C) : (pure a : Matcher C A).first s = some (a, s) := rfl

/-- If the first way to match the beginning lets the rest match, it is the one that is taken. -/
theorem first_bind {m : Matcher C A} {f : A → Matcher C B} {s t : List C} {a : A} {x : B × List C}
    (hm : m.first s = some (a, t)) (hf : (f a).first t = some x) : (m >>= f).first s = some x := by
  obtain ⟨others, hothers⟩ := List.head?_eq_some_iff.mp hm
  change ((m s).flatMap _).head? = some x
  rw [first] at hf
  rw [hothers, List.flatMap_cons, List.head?_append, hf]
  rfl

theorem first_one {c : C} (hc : p c = true) (s : List C) : (one p).first (c :: s) = some (c, s) := by
  rw [first, one, if_pos hc]
  rfl

/-- What follows does not begin with a symbol of the class. -/
def Stops (p : C → Bool) (r : List C) : Prop := ∀ c ∈ r.head?, p c = false

theorem first_greedy {x r : List C} (hx : ∀ c ∈ x, p c = true) (hr : Stops p r) :
    (greedy p).first (x ++ r) = some (x, r) := by
  induction x with
  | nil =>
    cases r with
    | nil => rfl
    | cons c r =>
      have hc : p c = false := hr c rfl
      rw [List.nil_append, first, greedy, if_neg (by rw [hc]; exact Bool.false_ne_true)]
      rfl
  | cons c x ih =>
    obtain ⟨hc, hx⟩ := List.forall_mem_cons.mp hx
    have hfirst := ih hx
    rw [first] at hfirst
    rw [List.cons_append, first, greedy, if_pos hc, List.head?_append, List.head?_map, hfirst]
    rfl

/-- A text is cut in one way where a class stops. -/
theorem split_unique {x y r t : List C} (h : x ++ r = y ++ t) (hx : ∀ c ∈ x, p c = true) (hy : ∀ c ∈ y, p c = true)
    (hr : Stops p r) (ht : Stops p t) : x = y ∧ r = t := by
  have hfirst := first_greedy hx hr
  rw [h, first_greedy hy ht, Option.some.injEq, Prod.mk.injEq] at hfirst
  exact ⟨hfirst.1.symm, hfirst.2.symm⟩

/-- The first symbol outside the class `p`, if there is one, belongs to `q`. -/
def Leaves (p q : C → Bool) (s : List C) : Prop := ∀ c ∈ (s.dropWhile p).head?, q c = true

theorem leaves_of_forall {s : List C} (h : ∀ c ∈ s, p c = true) : Leaves p q s := by
  rw [Leaves, List.dropWhile_eq_nil_iff.mpr h]
  exact fun c hc => nomatch hc

theorem leaves_cons_of_pos {c : C} (hc : p c = true) {s : List C} (h : Leaves p q s) : Leaves p q (c :: s) := by
  rwa [Leaves, List.dropWhile_cons_of_pos hc]

theorem leaves_cons_of_neg {c : C} (hc : p c = false) (hq : q c = true) (s : List C) : Leaves p q (c :: s) := by
  rw [Leaves, List.dropWhile_cons_of_neg (Bool.eq_false_iff.mp hc)]
  intro d hd
  cases hd
  exact hq

theorem leaves_append {x y : List C} (hx : Leaves p q x) (hy : Leaves p q y) : Leaves p q (x ++ y) := by
  induction x with
  | nil => exact hy
  | cons c x ih =>
    cases hc : p c with
    | true =>
      rw [Leaves, List.dropWhile_cons_of_pos hc] at hx
      exact leaves_cons_of_pos hc (ih hx)
    | false =>
      refine leaves_cons_of_neg hc (hx c ?_) _
      rw [List.dropWhile_cons_of_neg (Bool.eq_false_iff.mp hc)]
      rfl

/-- A text that is cut behind symbols of the class is cut at the same place if it leaves the class
only with another symbol. -/
theorem cut_unique {x y r t : List C} {stop : C} (h : x ++ stop :: r = y ++ stop :: t) (hstop : p stop = false)
    (hx : Leaves p q x) (hq : q stop = false) (hy : ∀ c ∈ y, p c = true) : x = y ∧ r = t := by
  have hr (r : List C) : Stops p (stop :: r) := by
    intro c hc
    cases hc
    exact hstop
  by_cases hall : ∀ c ∈ x, p c = true
  · obtain ⟨heq, hrest⟩ := split_unique h hall hy (hr r) (hr t)
    exact ⟨heq, (List.cons.inj hrest).2⟩
  · have hdrop := congrArg (List.dropWhile p) h
    have hout : ¬ (x.dropWhile p).isEmpty = true := fun hnil =>
      hall (List.dropWhile_eq_nil_iff.mp (List.isEmpty_iff.mp hnil))
    rw [List.dropWhile_append, if_neg hout, List.dropWhile_append_of_pos hy,
      List.dropWhile_cons_of_neg (Bool.eq_false_iff.mp hstop)] at hdrop
    cases hrest : x.dropWhile p with
    | nil => exact absurd (List.isEmpty_iff.mpr hrest) hout
    | cons c rest =>
      rw [hrest] at hdrop
      have hc : q c = true := hx c (by rw [hrest]; rfl)
      have heq : c = stop := (List.cons.inj hdrop).1
      rw [heq, hq] at hc
      cases hc

theorem first_headed {c : C} {cs r : List C} (hc : p c = true) (hcs : ∀ d ∈ cs, q d = true) (hr : Stops q r) :
    (headed p q).first (c :: (cs ++ r)) = some (c :: cs, r) :=
  first_bind (first_one hc _) (first_bind (first_greedy hcs hr) (first_pure _ _))

theorem first_literal [DecidableEq C] (text r : List C) : (literal text).first (text ++ r) = some ((), r) := by
  rw [first, literal, if_pos (List.prefix_append text r), List.drop_left]
  rfl

theorem first_optional_some {m : Matcher C A} {s r : List C} {a : A} (h : m.first s = some (a, r)) :
    (optional m).first s = some (some a, r) := by
  rw [first] at h
  rw [first, optional, List.head?_append, List.head?_map, h]
  rfl

theorem first_optional_none {m : Matcher C A} {s : List C} (h : m s = []) :
    (optional m).first s = some (none, s) := by
  rw [first, optional, h]
  rfl

end First

/-! ## All matches in a text -/

/-- The matches from left to right, each with the text from its beginning on. The next one is looked
for behind the one before; the matcher should not match an empty text. -/
def scan (m : Matcher C A) : Nat → List C → List (List C × A)
  | _, [] => []
  | skip + 1, _ :: s => scan m skip s
  | 0, c :: s =>
    match m.first (c :: s) with
    | none => scan m 0 s
    | some (a, rest) => (c :: s, a) :: scan m (s.length - rest.length) s

def matchAll (m : Matcher C A) (s : List C) : List (List C × A) := scan m 0 s

/-- There is no match that begins in the segment, before the rest. -/
def NoMatch (m : Matcher C A) : List C → List C → Prop
  | [], _ => True
  | c :: segment, rest => m (c :: (segment ++ rest)) = [] ∧ NoMatch m segment rest

section Scan

variable {m : Matcher C A} {s rest : List C}

theorem scan_drop (m : Matcher C A) (skip : Nat) (s : List C) : scan m skip s = matchAll m (s.drop skip) := by
  induction s generalizing skip with
  | nil =>
    rw [List.drop_nil]
    cases skip <;> rfl
  | cons c s ih =>
    cases skip with
    | zero => rfl
    | succ skip => exact ih skip

theorem matchAll_none {c : C} (h : m (c :: s) = []) : matchAll m (c :: s) = matchAll m s := by
  rw [matchAll, scan, first_eq_none_iff.mpr h]
  rfl

theorem matchAll_some {c : C} {x : List C} {a : A} (h : m.first (c :: (x ++ rest)) = some (a, rest)) :
    matchAll m (c :: (x ++ rest)) = (c :: (x ++ rest), a) :: matchAll m rest := by
  rw [matchAll, scan, h]
  simp only
  rw [scan_drop, List.length_append, Nat.add_sub_cancel, List.drop_left]

/-- A match that is found is the first one at its place. -/
theorem first_of_mem_matchAll {found : List C × A} (h : found ∈ matchAll m s) :
    found.1 <:+ s ∧ ∃ rest, m.first found.1 = some (found.2, rest) := by
  have hscan (skip : Nat) (s : List C) (h : found ∈ scan m skip s) :
      found.1 <:+ s ∧ ∃ rest, m.first found.1 = some (found.2, rest) := by
    induction s generalizing skip with
    | nil =>
      rw [scan] at h
      cases h
    | cons c s ih =>
      cases skip with
      | succ skip =>
        obtain ⟨hsuffix, hfirst⟩ := ih skip h
        exact ⟨hsuffix.trans (List.suffix_cons c s), hfirst⟩
      | zero =>
        rw [scan] at h
        cases hfirst : m.first (c :: s) with
        | none =>
          rw [hfirst] at h
          obtain ⟨hsuffix, hfound⟩ := ih 0 h
          exact ⟨hsuffix.trans (List.suffix_cons c s), hfound⟩
        | some found' =>
          obtain ⟨a, rest⟩ := found'
          rw [hfirst] at h
          rcases List.mem_cons.mp h with rfl | hlater
          · exact ⟨List.suffix_refl _, rest, hfirst⟩
          · obtain ⟨hsuffix, hfound⟩ := ih _ hlater
            exact ⟨hsuffix.trans (List.suffix_cons c s), hfound⟩
  exact hscan 0 s h

theorem matchAll_of_noMatch {segment : List C} (h : NoMatch m segment rest) :
    matchAll m (segment ++ rest) = matchAll m rest := by
  induction segment with
  | nil => rfl
  | cons c segment ih => rw [List.cons_append, matchAll_none h.1, ih h.2]

/-- Otherwise a match that begins in the segment is found first. -/
theorem matchAll_of_match {segment : List C} (h : ¬ NoMatch m segment rest) :
    ∃ found others, matchAll m (segment ++ rest) = found :: others ∧ rest.length < found.1.length := by
  induction segment with
  | nil => exact absurd trivial h
  | cons c segment ih =>
    cases hfirst : m.first (c :: (segment ++ rest)) with
    | none =>
      have hnone := first_eq_none_iff.mp hfirst
      obtain ⟨found, others, hfound, hlength⟩ := ih fun hrest => h ⟨hnone, hrest⟩
      refine ⟨found, others, ?_, hlength⟩
      rw [List.cons_append, matchAll_none hnone, hfound]
    | some found =>
      obtain ⟨a, after⟩ := found
      rw [List.cons_append, matchAll, scan, hfirst]
      refine ⟨(c :: (segment ++ rest), a), _, rfl, ?_⟩
      rw [List.length_cons, List.length_append]
      omega

/-- All that is found lies in the rest, exactly if there is no match in the segment. -/
theorem noMatch_of_found {segment : List C} (h : ∀ found ∈ matchAll m (segment ++ rest), found.1.length ≤ rest.length) :
    NoMatch m segment rest := by
  by_contra hmatch
  obtain ⟨found, others, hfound, hlength⟩ := matchAll_of_match hmatch
  have hle := h found (hfound ▸ List.mem_cons_self)
  omega

theorem exists_of_forall₂ {X Y : Type} {R : X → Y → Prop} {xs : List X} {ys : List Y} (h : List.Forall₂ R xs ys)
    {x : X} (hx : x ∈ xs) : ∃ y ∈ ys, R x y := by
  induction h with
  | nil => cases hx
  | cons hR _ ih =>
    rcases List.mem_cons.mp hx with rfl | hrest
    · exact ⟨_, List.mem_cons_self, hR⟩
    · obtain ⟨y, hy, hRy⟩ := ih hrest
      exact ⟨y, List.mem_cons_of_mem _ hy, hRy⟩

/-- If what is expected to be found lies in the rest, there is no match in the segment. -/
theorem forall₂_matchAll_append {X : Type} {R : List C × A → X → Prop} {segment : List C} {expected : List X}
    (hplace : ∀ found x, R found x → x ∈ expected → found.1.length ≤ rest.length) :
    List.Forall₂ R (matchAll m (segment ++ rest)) expected ↔
      NoMatch m segment rest ∧ List.Forall₂ R (matchAll m rest) expected := by
  constructor
  · intro h
    have hnone : NoMatch m segment rest := by
      refine noMatch_of_found fun found hfound => ?_
      obtain ⟨x, hx, hR⟩ := exists_of_forall₂ h hfound
      exact hplace found x hR hx
    rw [matchAll_of_noMatch hnone] at h
    exact ⟨hnone, h⟩
  · rintro ⟨hnone, h⟩
    rwa [matchAll_of_noMatch hnone]

/-- A matcher that asks for a certain symbol first matches nowhere among the others. -/
theorem noMatch_of_notMem {d : C} (hhead : ∀ c s, m (c :: s) ≠ [] → c = d) {segment : List C} (h : d ∉ segment)
    (rest : List C) : NoMatch m segment rest := by
  induction segment with
  | nil => trivial
  | cons c segment ih =>
    rw [List.mem_cons, not_or] at h
    exact ⟨Decidable.of_not_not fun hmatch => h.1 (hhead c _ hmatch).symm, ih h.2⟩

end Scan

end Matcher

end Basis
