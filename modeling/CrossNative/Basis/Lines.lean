import Mathlib.Data.List.Basic
import Mathlib.Tactic.Common

/-!
# Cutting a stream at a separator

A stream arrives in chunks of any size. What has been received is cut into the pieces that a
separator has ended and the unfinished rest, and more input only continues that rest.
-/

namespace Basis

set_option autoImplicit false

variable {α : Type}

/-- Put one more item in front of the first piece. -/
def extendPiece (a : α) : List (List α) × List α → List (List α) × List α
  | ([], rest) => ([], a :: rest)
  | (piece :: pieces, rest) => ((a :: piece) :: pieces, rest)

theorem rest_of_extendPiece {sep : α} (a : α) (cut : List (List α) × List α) (h : sep ∉ cut.2)
    (hne : a ≠ sep) : sep ∉ (extendPiece a cut).2 := by
  obtain ⟨pieces, rest⟩ := cut
  cases pieces with
  | nil =>
    intro hmem
    rcases List.mem_cons.mp hmem with heq | hmem
    · exact hne heq.symm
    · exact h hmem
  | cons piece pieces => exact h

theorem extendPiece_modifyHead (a : α) {pieces : List (List α)} (h : pieces ≠ [])
    (h' : pieces.modifyHead (List.cons a) ≠ []) :
    extendPiece a (pieces.dropLast, pieces.getLast h) =
      ((pieces.modifyHead (List.cons a)).dropLast, (pieces.modifyHead (List.cons a)).getLast h') := by
  match pieces, h with
  | [piece], _ => rfl
  | piece :: next :: pieces, _ => simp [extendPiece]

variable [DecidableEq α]

/-- The pieces that end with a separator, without it, and what follows the last one. -/
def cutPieces (sep : α) : List α → List (List α) × List α
  | [] => ([], [])
  | a :: text =>
    if a = sep then ([] :: (cutPieces sep text).1, (cutPieces sep text).2)
    else extendPiece a (cutPieces sep text)

variable {sep : α}

theorem cutPieces_of_notMem {text : List α} (h : sep ∉ text) : cutPieces sep text = ([], text) := by
  induction text with
  | nil => rfl
  | cons a text ih =>
    have hne : a ≠ sep := (List.ne_of_not_mem_cons h).symm
    rw [cutPieces, if_neg hne, ih (List.not_mem_of_not_mem_cons h)]
    rfl

theorem notMem_rest (text : List α) : sep ∉ (cutPieces sep text).2 := by
  induction text with
  | nil => exact List.not_mem_nil
  | cons a text ih =>
    rw [cutPieces]
    split
    · exact ih
    · rename_i hne
      exact rest_of_extendPiece a _ ih hne

/-- Later input continues the unfinished rest. -/
theorem cutPieces_append (text more : List α) :
    cutPieces sep (text ++ more) =
      ((cutPieces sep text).1 ++ (cutPieces sep ((cutPieces sep text).2 ++ more)).1,
        (cutPieces sep ((cutPieces sep text).2 ++ more)).2) := by
  induction text with
  | nil => rfl
  | cons a text ih =>
    rw [List.cons_append, cutPieces, cutPieces]
    by_cases heq : a = sep
    · rw [if_pos heq, if_pos heq, ih]
      rfl
    · rw [if_neg heq, if_neg heq, ih]
      cases hcut : cutPieces sep text with
      | mk pieces rest =>
        cases pieces with
        | nil =>
          simp only [List.nil_append, extendPiece, List.cons_append, cutPieces, if_neg heq]
        | cons piece pieces => rfl

theorem cutPieces_piece {piece : List α} (h : sep ∉ piece) (text : List α) :
    cutPieces sep (piece ++ sep :: text) =
      (piece :: (cutPieces sep text).1, (cutPieces sep text).2) := by
  induction piece with
  | nil => rw [List.nil_append, cutPieces, if_pos rfl]
  | cons a piece ih =>
    have hne : a ≠ sep := (List.ne_of_not_mem_cons h).symm
    rw [List.cons_append, cutPieces, if_neg hne, ih (List.not_mem_of_not_mem_cons h)]
    rfl

variable (sep) in
/-- Induction along the pieces of a text. -/
theorem piece_induction {motive : List α → Prop} (rest : ∀ text, sep ∉ text → motive text)
    (piece : ∀ piece text, sep ∉ piece → motive text → motive (piece ++ sep :: text)) (text : List α) :
    motive text := by
  induction hlength : text.length using Nat.strongRecOn generalizing text with
  | ind n ih =>
    by_cases hmem : sep ∈ text
    · obtain ⟨head, tail, heq, hhead⟩ := List.eq_append_cons_of_mem hmem
      subst heq
      apply piece head tail hhead
      apply ih tail.length _ tail rfl
      rw [← hlength, List.length_append, List.length_cons]
      omega
    · exact rest text hmem

/-- Nothing is lost by cutting. -/
theorem cutPieces_join (text : List α) :
    ((cutPieces sep text).1.map (· ++ [sep])).flatten ++ (cutPieces sep text).2 = text := by
  induction text using piece_induction sep with
  | rest text h =>
    rw [cutPieces_of_notMem h]
    rfl
  | piece piece text h ih =>
    rw [cutPieces_piece h, List.map_cons, List.flatten_cons, List.append_assoc, ih, List.append_assoc]
    rfl

/-- The pieces and the rest are what `splitOn` separates. -/
theorem cutPieces_eq_splitOn (text : List α) :
    cutPieces sep text = ((text.splitOn sep).dropLast, (text.splitOn sep).getLast (List.splitOn_ne_nil sep text)) := by
  induction text with
  | nil => rfl
  | cons a text ih =>
    have hne := List.splitOn_ne_nil sep text
    rw [cutPieces, ih]
    by_cases heq : a = sep
    · have hsplit : (a :: text).splitOn sep = [] :: text.splitOn sep := by
        rw [List.splitOn_cons_eq_if_modifyHead, if_pos (by simpa using heq)]
      simp only [if_pos heq, hsplit, List.dropLast_cons_of_ne_nil hne, List.getLast_cons hne]
    · have hsplit : (a :: text).splitOn sep = (text.splitOn sep).modifyHead (List.cons a) := by
        rw [List.splitOn_cons_eq_if_modifyHead, if_neg (by simpa using heq)]
      have hne' := List.splitOn_ne_nil sep (a :: text)
      rw [hsplit] at hne'
      rw [if_neg heq, extendPiece_modifyHead a hne hne']
      simp only [hsplit]

end Basis
