import Mathlib.Data.List.Perm.Basic
import Mathlib.Tactic.Common

/-!
# The first match of a ranked list

A list is sorted by descending rank with a stable sort, and the first element with a property is
taken. The element taken has the highest rank among those with the property. It is the same one
for every order of the list exactly if no other element with the property reaches its rank: among
elements of one rank the first in the list is taken.
-/

namespace Basis

set_option autoImplicit false

variable {A : Type} (rank : A → Nat) (p : A → Bool)

def rankedBefore (a b : A) : Bool := decide (rank b ≤ rank a)

def byRank (l : List A) : List A := l.mergeSort (rankedBefore rank)

def firstByRank (l : List A) : Option A := (byRank rank l).find? p

theorem rankedBefore_trans (a b c : A) (hab : rankedBefore rank a b = true)
    (hbc : rankedBefore rank b c = true) : rankedBefore rank a c = true := by
  simp only [rankedBefore, decide_eq_true_eq] at *
  omega

theorem rankedBefore_total (a b : A) : (rankedBefore rank a b || rankedBefore rank b a) = true := by
  simp only [rankedBefore, Bool.or_eq_true, decide_eq_true_eq]
  omega

theorem byRank_perm (l : List A) : (byRank rank l).Perm l := List.mergeSort_perm l _

@[simp] theorem mem_byRank {l : List A} {a : A} : a ∈ byRank rank l ↔ a ∈ l :=
  (byRank_perm rank l).mem_iff

theorem byRank_pairwise (l : List A) : (byRank rank l).Pairwise fun a b => rank b ≤ rank a := by
  have hsorted := List.pairwise_mergeSort (rankedBefore_trans rank) (rankedBefore_total rank) l
  exact hsorted.imp of_decide_eq_true

/-- What is sorted before the first element of a list has a strictly higher rank. -/
theorem byRank_cons (a : A) (l : List A) :
    ∃ before after, byRank rank (a :: l) = before ++ a :: after ∧
      ∀ b ∈ before, rank a < rank b := by
  obtain ⟨before, after, hcons, -, hbefore⟩ :=
    List.mergeSort_cons (rankedBefore_trans rank) (rankedBefore_total rank) a l
  refine ⟨before, after, hcons, ?_⟩
  intro b hb
  have hnot := hbefore b hb
  simp only [rankedBefore, Bool.not_eq_true', decide_eq_false_iff_not] at hnot
  omega

theorem firstByRank_eq_none_iff {l : List A} :
    firstByRank rank p l = none ↔ ∀ a ∈ l, p a = false := by
  simp [firstByRank]

theorem mem_of_firstByRank {l : List A} {a : A} (h : firstByRank rank p l = some a) : a ∈ l :=
  (mem_byRank rank).mp (List.mem_of_find?_eq_some h)

theorem holds_of_firstByRank {l : List A} {a : A} (h : firstByRank rank p l = some a) :
    p a = true :=
  List.find?_some h

theorem rank_le_of_firstByRank {l : List A} {a b : A} (h : firstByRank rank p l = some a)
    (hb : b ∈ l) (hpb : p b = true) : rank b ≤ rank a := by
  obtain ⟨-, before, after, hl, hbefore⟩ := List.find?_eq_some_iff_append.mp h
  have hpair := byRank_pairwise rank l
  have hmem : b ∈ before ++ a :: after := by
    rw [← hl]
    exact (mem_byRank rank).mpr hb
  rw [hl] at hpair
  rcases List.mem_append.mp hmem with hb | hb
  · have hnot := hbefore b hb
    simp [hpb] at hnot
  · rcases List.mem_cons.mp hb with rfl | hb
    · exact Nat.le_refl _
    · exact List.rel_of_pairwise_cons (List.pairwise_append.mp hpair).2.1 hb

/-- The element is taken if every other one with the property has a lower rank. -/
theorem firstByRank_eq_some {l : List A} {a : A} (ha : a ∈ l) (hpa : p a = true)
    (hbest : ∀ b ∈ l, p b = true → b ≠ a → rank b < rank a) : firstByRank rank p l = some a := by
  cases hfirst : firstByRank rank p l with
  | none =>
    have hnot := (firstByRank_eq_none_iff rank p).mp hfirst a ha
    simp [hpa] at hnot
  | some b =>
    by_cases hab : b = a
    · rw [hab]
    · have hlt := hbest b (mem_of_firstByRank rank p hfirst) (holds_of_firstByRank rank p hfirst) hab
      have hle := rank_le_of_firstByRank rank p hfirst ha hpa
      omega

/-- With another element of at least its rank in front, the element is not taken. -/
theorem firstByRank_cons_ne {l : List A} {a b : A} (hpb : p b = true) (hne : b ≠ a)
    (hrank : rank a ≤ rank b) : firstByRank rank p (b :: l) ≠ some a := by
  intro h
  obtain ⟨before, after, hsorted, hbefore⟩ := byRank_cons rank b l
  rw [firstByRank, hsorted, List.find?_append] at h
  cases hfound : before.find? p with
  | none => simp [hfound, hpb, hne] at h
  | some c =>
    have hca : c = a := by simpa [hfound] using h
    have hlt := hbefore c (List.mem_of_find?_eq_some hfound)
    rw [hca] at hlt
    omega

/-- One answer for every order of the list. -/
theorem forall_perm_firstByRank_iff {l : List A} {a : A} (ha : a ∈ l) (hpa : p a = true) :
    (∀ l' : List A, l'.Perm l → firstByRank rank p l' = some a) ↔
      ∀ b ∈ l, p b = true → b ≠ a → rank b < rank a := by
  constructor
  · intro h b hb hpb hne
    by_contra hlt
    obtain ⟨before, after, rfl⟩ := List.append_of_mem hb
    exact firstByRank_cons_ne rank p hpb hne (Nat.le_of_not_lt hlt)
      (h (b :: (before ++ after)) List.perm_middle.symm)
  · intro h l' hperm
    apply firstByRank_eq_some rank p (hperm.mem_iff.mpr ha) hpa
    intro b hb
    exact h b (hperm.mem_iff.mp hb)

end Basis
