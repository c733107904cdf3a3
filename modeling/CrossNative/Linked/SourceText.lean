import CrossNative.Basis.Matching
import CrossNative.Linked.Signatures
import Mathlib.Data.List.DropRight
import Mathlib.Data.List.Forall2

/-!
# Reading declarations with regular expressions

The source parsers of the linked path find declarations with one regular expression each, and
take the parameters apart with `split` and `trim`. Here is what they have in common, and the
parts that declarations are laid out with.
-/

namespace CrossNative.Linked

set_option autoImplicit false

open Basis Bridge

/-! ## Character classes -/

/-- `\w`. -/
def isWordChar (c : Char) : Bool := c.isAlphanum || c == '_'

/-- `[A-Za-z_]`. -/
def isIdentStart (c : Char) : Bool := c.isAlpha || c == '_'

theorem isWordChar_of_start {c : Char} (h : isIdentStart c = true) : isWordChar c = true := by
  simp only [isIdentStart, isWordChar, Char.isAlphanum, Bool.or_eq_true] at h ⊢
  rcases h with h | h
  · exact Or.inl (Or.inl h)
  · exact Or.inr h

theorem isJsSpace_eq_false {c : Char} (h : isWordChar c = true) : isJsSpace c = false := by
  have hn : 48 ≤ c.toNat ∧ c.toNat ≤ 122 := by
    change (((decide ('A'.val ≤ c.val ∧ c.val ≤ 'Z'.val) ||
      (decide ('a'.val ≤ c.val) && decide (c.val ≤ 'z'.val))) || c.isDigit) || c == '_') = true at h
    simp only [Char.isDigit, Bool.or_eq_true, Bool.and_eq_true, decide_eq_true_eq, beq_iff_eq] at h
    rcases h with ((h | h) | h) | h
    · exact ⟨Nat.le_trans (by decide) (UInt32.le_iff_toNat_le.mp h.1),
        Nat.le_trans (UInt32.le_iff_toNat_le.mp h.2) (by decide)⟩
    · exact ⟨Nat.le_trans (by decide) (UInt32.le_iff_toNat_le.mp h.1),
        Nat.le_trans (UInt32.le_iff_toNat_le.mp h.2) (by decide)⟩
    · exact ⟨Nat.le_trans (by decide) (UInt32.le_iff_toNat_le.mp h.1),
        Nat.le_trans (UInt32.le_iff_toNat_le.mp h.2) (by decide)⟩
    · subst h
      decide
  simp only [isJsSpace, Bool.or_eq_false_iff, Bool.and_eq_false_iff, decide_eq_false_iff_not, beq_eq_false_iff_ne]
  omega

/-! ## Layout -/

/-- Whitespace, or nothing. -/
structure Gap where
  text : Text
  blank : ∀ c ∈ text, isJsSpace c = true

/-- At least one whitespace character. -/
structure Space extends Gap where
  nonempty : text ≠ []

def oneSpace : Space where
  text := [' ']
  blank := List.all_eq_true.mp (by decide)
  nonempty := List.cons_ne_nil _ _

def noGap : Gap where
  text := []
  blank := List.forall_mem_nil _

/-- Whitespace and comments, as C and Go write them. -/
inductive IsCLayout : Text → Prop
  | nil : IsCLayout []
  | space {c : Char} {text : Text} (h : isJsSpace c = true) (rest : IsCLayout text) : IsCLayout (c :: text)
  | block {comment text : Text} (h : ¬ ['*', '/'] <:+: comment ++ ['*']) (rest : IsCLayout text) :
    IsCLayout ('/' :: '*' :: (comment ++ '*' :: '/' :: text))
  | line {comment text : Text} (h : '\n' ∉ comment) (rest : IsCLayout text) :
    IsCLayout ('/' :: '/' :: (comment ++ '\n' :: text))

structure CGap where
  text : Text
  layout : IsCLayout text

structure CSpace extends CGap where
  nonempty : text ≠ []

def cNoGap : CGap := ⟨[], .nil⟩

def cOneSpace : CSpace := ⟨⟨[' '], .space (by decide) .nil⟩, oneSpace.nonempty⟩

/-- The whitespace in front of the first comment. -/
def CGap.blank (gap : CGap) : Gap := ⟨gap.text.takeWhile isJsSpace, fun _ hc => List.mem_takeWhile_imp hc⟩

/-- From the first comment on. -/
def CGap.comments (gap : CGap) : Text := gap.text.dropWhile isJsSpace

theorem CGap.blank_comments (gap : CGap) : gap.blank.text ++ gap.comments = gap.text :=
  List.takeWhile_append_dropWhile

theorem CGap.comments_cases (gap : CGap) : gap.comments = [] ∨ ∃ rest, gap.comments = '/' :: rest := by
  obtain ⟨text, layout⟩ := gap
  rw [CGap.comments]
  simp only
  induction layout with
  | nil => exact Or.inl rfl
  | space hc _ ih =>
    rw [List.dropWhile_cons_of_pos hc]
    exact ih
  | block _ _ _ => exact Or.inr ⟨_, rfl⟩
  | line _ _ _ => exact Or.inr ⟨_, rfl⟩

/-- There are no comments. -/
def CGap.Blank (gap : CGap) : Prop := gap.comments = []

instance (gap : CGap) : Decidable gap.Blank := by
  unfold CGap.Blank
  infer_instance

theorem CGap.Blank.text_eq {gap : CGap} (h : gap.Blank) : gap.text = gap.blank.text := by
  rw [← gap.blank_comments, h, List.append_nil]

theorem CGap.comments_of_not_blank {gap : CGap} (h : ¬ gap.Blank) : ∃ rest, gap.comments = '/' :: rest :=
  gap.comments_cases.resolve_left h

structure Ident where
  text : Text
  start : ∃ c cs, text = c :: cs ∧ isIdentStart c = true
  word : ∀ c ∈ text, isWordChar c = true

theorem Ident.notSpace (name : Ident) : ∀ c ∈ name.text, isJsSpace c = false := fun c hc =>
  isJsSpace_eq_false (name.word c hc)

theorem Ident.ne_nil (name : Ident) : name.text ≠ [] := by
  obtain ⟨c, cs, heq, _⟩ := name.start
  rw [heq]
  exact List.cons_ne_nil c cs

theorem Ident.notMem (name : Ident) {c : Char} (h : isWordChar c = false) : c ∉ name.text := fun hmem =>
  Bool.false_ne_true (h.symm.trans (name.word c hmem))

theorem forall_bne {c : Char} {text : Text} (h : c ∉ text) : ∀ d ∈ text, (d != c) = true := fun _ hd =>
  bne_iff_ne.mpr fun heq => h (heq ▸ hd)

theorem Gap.notMem (gap : Gap) {c : Char} (h : isJsSpace c = false) : c ∉ gap.text := fun hmem =>
  Bool.false_ne_true (h.symm.trans (gap.blank c hmem))

/-! ## Trimming and cutting into words -/

theorem dropWhile_gap {gap text : Text} (hgap : ∀ c ∈ gap, isJsSpace c = true)
    (htext : ∀ c ∈ text.head?, isJsSpace c = false) : (gap ++ text).dropWhile isJsSpace = text := by
  rw [List.dropWhile_append_of_pos hgap]
  cases text with
  | nil => rfl
  | cons c text => rw [List.dropWhile_cons, htext c rfl, if_neg Bool.false_ne_true]

/-- `trim` removes the layout around a text that neither begins nor ends with whitespace. -/
theorem trim_layout {before text after : Text} (hbefore : ∀ c ∈ before, isJsSpace c = true)
    (hafter : ∀ c ∈ after, isJsSpace c = true) (hhead : ∀ c ∈ text.head?, isJsSpace c = false)
    (hlast : ∀ c ∈ text.getLast?, isJsSpace c = false) (hne : text ≠ []) :
    trim (before ++ (text ++ after)) = text := by
  have hhead' : ∀ c ∈ (text ++ after).head?, isJsSpace c = false := by
    rw [List.head?_append_of_ne_nil _ hne]
    exact hhead
  have hafter' : ∀ c ∈ after.reverse, isJsSpace c = true := fun c hc => hafter c (List.mem_reverse.mp hc)
  have hlast' : ∀ c ∈ text.reverse.head?, isJsSpace c = false := by
    rw [List.head?_reverse]
    exact hlast
  rw [trim, dropWhile_gap hbefore hhead', List.reverse_append, dropWhile_gap hafter' hlast', List.reverse_reverse]

theorem trim_ident (before : Gap) (name : Ident) (after : Gap) :
    trim (before.text ++ (name.text ++ after.text)) = name.text :=
  trim_layout before.blank after.blank (fun c hc => name.notSpace c (List.mem_of_head? hc))
    (fun c hc => name.notSpace c (List.mem_of_getLast? hc)) name.ne_nil

theorem trim_word_gap (name : Ident) (gap : Gap) : trim (name.text ++ gap.text) = name.text := trim_ident noGap name gap

theorem trim_gap_word (gap : Gap) (name : Ident) : trim (gap.text ++ name.text) = name.text := by
  have htrim := trim_ident gap name noGap
  rwa [noGap, List.append_nil] at htrim

theorem trim_blank {gap : Text} (h : ∀ c ∈ gap, isJsSpace c = true) : trim gap = [] := by
  have hdrop : (gap ++ []).dropWhile isJsSpace = [] := dropWhile_gap h fun c hc => nomatch hc
  rw [List.append_nil] at hdrop
  rw [trim, hdrop]
  rfl

/-- `split(/\s+/)`, without the empty texts at the ends. -/
def words (text : Text) : List Text := (text.splitOnP isJsSpace).filter (· ≠ [])

theorem words_append (text : Text) {c : Char} (hc : isJsSpace c = true) (rest : Text) :
    words (text ++ c :: rest) = words text ++ words rest := by
  rw [words, List.splitOnP_append_cons text rest hc, List.filter_append, words, words]

theorem words_nil : words [] = [] := rfl

theorem words_gap {gap : Text} (h : ∀ c ∈ gap, isJsSpace c = true) (rest : Text) : words (gap ++ rest) = words rest := by
  induction gap with
  | nil => rfl
  | cons c gap ih =>
    obtain ⟨hc, hgap⟩ := List.forall_mem_cons.mp h
    rw [List.cons_append, ← List.nil_append (c :: (gap ++ rest)), words_append [] hc, words_nil, List.nil_append,
      ih hgap]

theorem words_append_space (text : Text) {gap : Text} (h : ∀ c ∈ gap, isJsSpace c = true) (hne : gap ≠ []) (rest : Text) :
    words (text ++ (gap ++ rest)) = words text ++ words rest := by
  obtain ⟨c, gap', rfl⟩ := List.exists_cons_of_ne_nil hne
  obtain ⟨hc, hgap⟩ := List.forall_mem_cons.mp h
  rw [List.cons_append, words_append text hc, words_gap hgap]

theorem words_word {word : Text} (h : ∀ c ∈ word, isJsSpace c = false) (hne : word ≠ []) : words word = [word] := by
  rw [words, List.splitOnP_eq_singleton h]
  simp [hne]

/-- A word, and what follows behind a space. -/
theorem words_cons {word : Text} (h : ∀ c ∈ word, isJsSpace c = false) (hne : word ≠ []) (space : Space)
    (rest : Text) : words (word ++ (space.text ++ rest)) = word :: words rest := by
  rw [words_append_space word space.blank space.nonempty, words_word h hne]
  rfl

/-- A comment that nothing keeps apart from a word belongs to it. -/
theorem words_slash {word : Text} (h : ∀ c ∈ word, isJsSpace c = false) (rest : Text) :
    ∃ first more, words (word ++ '/' :: rest) = first :: more ∧ '/' ∈ first := by
  let first := rest.takeWhile fun c => !isJsSpace c
  have hblank : ∀ c ∈ word ++ '/' :: first, isJsSpace c = false := by
    refine List.forall_mem_append.mpr ⟨h, List.forall_mem_cons.mpr ⟨by decide, fun c hc => ?_⟩⟩
    simpa using List.mem_takeWhile_imp hc
  have hne : word ++ '/' :: first ≠ [] := List.append_ne_nil_of_right_ne_nil _ (List.cons_ne_nil _ _)
  have hmem : '/' ∈ word ++ '/' :: first := List.mem_append_right _ List.mem_cons_self
  have hrest : word ++ '/' :: rest = (word ++ '/' :: first) ++ rest.dropWhile fun c => !isJsSpace c := by
    rw [List.append_assoc, List.cons_append, List.takeWhile_append_dropWhile]
  rw [hrest]
  cases hlater : rest.dropWhile fun c => !isJsSpace c with
  | nil =>
    rw [List.append_nil]
    exact ⟨_, [], words_word hblank hne, hmem⟩
  | cons c more =>
    have hc : isJsSpace c = true := by
      have hnot := List.head?_dropWhile_not (fun c => !isJsSpace c) rest
      rw [hlater] at hnot
      simpa using hnot
    rw [words_append _ hc, words_word hblank hne]
    exact ⟨_, words more, rfl, hmem⟩

theorem words_trailing {gap : Text} (h : ∀ c ∈ gap, isJsSpace c = true) (text : Text) :
    words (text ++ gap) = words text := by
  cases gap with
  | nil => rw [List.append_nil]
  | cons c gap =>
    obtain ⟨hc, hgap⟩ := List.forall_mem_cons.mp h
    have hblank := words_gap hgap []
    rw [List.append_nil] at hblank
    rw [words_append text hc, hblank, words_nil, List.append_nil]

theorem splitOnP_spec {p : Char → Bool} {text : Text} :
    (∀ w ∈ text.splitOnP p, ∀ c ∈ w, c ∈ text ∧ p c = false) ∧
      ∀ c ∈ text, p c = true ∨ ∃ w ∈ text.splitOnP p, c ∈ w := by
  induction text with
  | nil =>
    refine ⟨fun w hw c hc => ?_, List.forall_mem_nil _⟩
    rw [List.splitOnP_nil, List.mem_singleton] at hw
    rw [hw] at hc
    cases hc
  | cons d text ih =>
    obtain ⟨hpieces, hcover⟩ := ih
    obtain ⟨w, ws, hsplit⟩ := List.exists_cons_of_ne_nil (List.splitOnP_ne_nil p text)
    rw [hsplit] at hpieces hcover
    rw [List.splitOnP_cons_eq_if_modifyHead, hsplit, List.modifyHead_cons]
    have hlater : ∀ v ∈ w :: ws, ∀ c ∈ v, c ∈ d :: text ∧ p c = false := fun v hv c hc =>
      ⟨List.mem_cons_of_mem _ (hpieces v hv c hc).1, (hpieces v hv c hc).2⟩
    by_cases hd : p d = true
    · rw [if_pos hd]
      refine ⟨List.forall_mem_cons.mpr ⟨List.forall_mem_nil _, hlater⟩, List.forall_mem_cons.mpr ⟨Or.inl hd, ?_⟩⟩
      intro c hc
      rcases hcover c hc with hout | ⟨v, hv, hin⟩
      · exact Or.inl hout
      · exact Or.inr ⟨v, List.mem_cons_of_mem _ hv, hin⟩
    · rw [if_neg hd]
      obtain ⟨hw, hws⟩ := List.forall_mem_cons.mp hlater
      refine ⟨List.forall_mem_cons.mpr ⟨List.forall_mem_cons.mpr
        ⟨⟨List.mem_cons_self, Bool.eq_false_iff.mpr hd⟩, hw⟩, hws⟩, List.forall_mem_cons.mpr
        ⟨Or.inr ⟨d :: w, List.mem_cons_self, List.mem_cons_self⟩, ?_⟩⟩
      intro c hc
      rcases hcover c hc with hout | ⟨v, hv, hin⟩
      · exact Or.inl hout
      · rcases List.mem_cons.mp hv with rfl | hv
        · exact Or.inr ⟨d :: v, List.mem_cons_self, List.mem_cons_of_mem _ hin⟩
        · exact Or.inr ⟨v, List.mem_cons_of_mem _ hv, hin⟩

/-- A text without whitespace, and not empty. -/
def IsWord (w : Text) : Prop := w ≠ [] ∧ ∀ c ∈ w, isJsSpace c = false

theorem isWord_of_mem_words {text w : Text} (h : w ∈ words text) : IsWord w := by
  obtain ⟨hw, hne⟩ := List.mem_filter.mp h
  exact ⟨of_decide_eq_true hne, fun c hc => (splitOnP_spec.1 w hw c hc).2⟩

theorem mem_of_mem_words {text w : Text} (h : w ∈ words text) {c : Char} (hc : c ∈ w) : c ∈ text :=
  (splitOnP_spec.1 w (List.mem_filter.mp h).1 c hc).1

theorem mem_words_of_mem {text : Text} {c : Char} (h : c ∈ text) :
    isJsSpace c = true ∨ ∃ w ∈ words text, c ∈ w := by
  rcases splitOnP_spec.2 c h with hspace | ⟨w, hw, hc⟩
  · exact Or.inl hspace
  · exact Or.inr ⟨w, List.mem_filter.mpr ⟨hw, decide_eq_true (List.ne_nil_of_mem hc)⟩, hc⟩

/-- Words with a space between them. -/
def joined (ws : List Text) : Text := [' '].intercalate ws

theorem joined_cons (w : Text) {ws : List Text} (h : ws ≠ []) : joined (w :: ws) = w ++ ' ' :: joined ws := by
  obtain ⟨v, vs, rfl⟩ := List.exists_cons_of_ne_nil h
  rw [joined, List.intercalate_cons_cons, List.append_assoc]
  rfl

theorem words_joined {ws : List Text} (h : ∀ w ∈ ws, IsWord w) : words (joined ws) = ws := by
  induction ws with
  | nil => rfl
  | cons w ws ih =>
    obtain ⟨hw, hws⟩ := List.forall_mem_cons.mp h
    by_cases hnil : ws = []
    · rw [hnil, joined, List.intercalate_singleton, words_word hw.2 hw.1]
    · rw [joined_cons w hnil, words_append w (by decide), words_word hw.2 hw.1, ih hws]
      rfl

theorem head_dropWhile (text : Text) : ∀ c ∈ (text.dropWhile isJsSpace).head?, isJsSpace c = false := by
  intro c hc
  have hnot := List.head?_dropWhile_not isJsSpace text
  rw [Option.mem_def.mp hc] at hnot
  exact hnot

theorem trim_parts (text : Text) : ∃ before after : Gap, text = before.text ++ (trim text ++ after.text) ∧
    (∀ c ∈ (trim text).head?, isJsSpace c = false) ∧ ∀ c ∈ (trim text).getLast?, isJsSpace c = false := by
  have hstart : text.takeWhile isJsSpace ++ text.dropWhile isJsSpace = text := List.takeWhile_append_dropWhile
  have hend : trim text ++ (text.dropWhile isJsSpace).rtakeWhile isJsSpace = text.dropWhile isJsSpace :=
    List.rdropWhile_append_rtakeWhile
  refine ⟨⟨text.takeWhile isJsSpace, fun c hc => List.mem_takeWhile_imp hc⟩,
    ⟨(text.dropWhile isJsSpace).rtakeWhile isJsSpace, fun c hc => List.mem_rtakeWhile_imp hc⟩, ?_, ?_, ?_⟩
  · rw [hend, hstart]
  · intro c hc
    refine head_dropWhile text c ?_
    rw [← hend, List.head?_append, Option.mem_def.mp hc]
    rfl
  · intro c hc
    rw [trim, List.getLast?_reverse] at hc
    exact head_dropWhile _ c hc

theorem words_trim (text : Text) : words (trim text) = words text := by
  obtain ⟨before, after, heq, _, _⟩ := trim_parts text
  conv_rhs => rw [heq, words_gap before.blank, words_trailing after.blank]

/-- `split(',')`, with the empty pieces left out. -/
def commaPieces (paramList : Text) : List Text := ((paramList.splitOn ',').map trim).filter (· ≠ [])

theorem notMem_intercalate {c : Char} (hc : c ≠ ',') {pieces : List Text} (h : ∀ piece ∈ pieces, c ∉ piece) :
    c ∉ [','].intercalate pieces := by
  induction pieces with
  | nil => exact List.not_mem_nil
  | cons piece pieces ih =>
    obtain ⟨hpiece, hpieces⟩ := List.forall_mem_cons.mp h
    cases pieces with
    | nil => rwa [List.intercalate_singleton]
    | cons next pieces =>
      rw [List.intercalate_cons_cons, List.mem_append, List.mem_append, List.mem_singleton]
      rintro ((hmem | hmem) | hmem)
      · exact hpiece hmem
      · exact hc hmem
      · exact ih hpieces hmem

theorem mem_intercalate {c : Char} {piece : Text} {pieces : List Text} (hpiece : piece ∈ pieces) (hc : c ∈ piece) :
    c ∈ [','].intercalate pieces := by
  induction pieces with
  | nil => cases hpiece
  | cons first pieces ih =>
    cases pieces with
    | nil =>
      rw [List.mem_singleton.mp hpiece] at hc
      rwa [List.intercalate_singleton]
    | cons next pieces =>
      rw [List.intercalate_cons_cons, List.mem_append]
      rcases List.mem_cons.mp hpiece with rfl | hlater
      · exact Or.inl (List.mem_append_left _ hc)
      · exact Or.inr (ih hlater)

theorem commaPieces_intercalate {pieces : List Text} (h : ∀ piece ∈ pieces, ',' ∉ piece) :
    commaPieces ([','].intercalate pieces) = (pieces.map trim).filter (· ≠ []) := by
  cases pieces with
  | nil => rfl
  | cons piece pieces => rw [commaPieces, List.splitOn_intercalate ',' h (List.cons_ne_nil _ _)]

/-! ## Parameters between commas, and what may follow the last comma -/

section Lists

variable {A : Type} {laid kept : A → Text} {as : List A} {trailing : Option Gap}

theorem notMem_pieces {c : Char} (hspace : isJsSpace c = false) (h : ∀ a ∈ as, c ∉ laid a) :
    ∀ piece ∈ as.map laid ++ trailing.toList.map Gap.text, c ∉ piece := by
  intro piece hpiece
  rcases List.mem_append.mp hpiece with hparam | htrailing
  · obtain ⟨a, ha, rfl⟩ := List.mem_map.mp hparam
    exact h a ha
  · obtain ⟨gap, _, rfl⟩ := List.mem_map.mp htrailing
    exact gap.notMem hspace

theorem commaPieces_pieces (hcomma : ∀ a ∈ as, ',' ∉ laid a) (htrim : ∀ a ∈ as, trim (laid a) = kept a)
    (hne : ∀ a ∈ as, kept a ≠ []) :
    commaPieces ([','].intercalate (as.map laid ++ trailing.toList.map Gap.text)) = as.map kept := by
  have htrailing : (trailing.toList.map Gap.text).map trim = trailing.toList.map fun _ => [] := by
    rw [List.map_map]
    exact List.map_congr_left fun gap _ => trim_blank gap.blank
  have hparams : (as.map laid).map trim = as.map kept := by
    rw [List.map_map]
    exact List.map_congr_left htrim
  have hkept : ∀ piece ∈ as.map kept, decide (piece ≠ []) = true := by
    intro piece hpiece
    obtain ⟨a, ha, rfl⟩ := List.mem_map.mp hpiece
    exact decide_eq_true (hne a ha)
  rw [commaPieces_intercalate (notMem_pieces (by decide) hcomma), List.map_append, htrailing, hparams,
    List.filter_append, List.filter_eq_self.mpr hkept]
  cases trailing with
  | none => exact List.append_nil _
  | some gap => exact List.append_nil _

end Lists

/-! ## All or the first failure -/

/-- The first failure, or all results. -/
def allOk {A B : Type} (f : A → Except Text B) : List A → Except Text (List B)
  | [] => .ok []
  | a :: as => do
    let b ← f a
    let bs ← allOk f as
    pure (b :: bs)

theorem allOk_iff {A B : Type} {f : A → Except Text B} {as : List A} {bs : List B} :
    allOk f as = .ok bs ↔ List.Forall₂ (fun a b => f a = .ok b) as bs := by
  induction as generalizing bs with
  | nil =>
    rw [allOk, List.forall₂_nil_left_iff, Except.ok.injEq, eq_comm]
  | cons a as ih =>
    rw [allOk, List.forall₂_cons_left_iff]
    cases ha : f a with
    | error e =>
      refine iff_of_false (fun h => nomatch h) ?_
      rintro ⟨b, bs', hb, _⟩
      cases hb
    | ok b =>
      cases has : allOk f as with
      | error e =>
        refine iff_of_false (fun h => nomatch h) ?_
        rintro ⟨b', bs', _, hbs, _⟩
        rw [← ih, has] at hbs
        cases hbs
      | ok bs' =>
        constructor
        · rintro h
          cases h
          exact ⟨b, bs', rfl, ih.mp has, rfl⟩
        · rintro ⟨b', bs'', hb, hbs, rfl⟩
          cases hb
          rw [← ih, has] at hbs
          cases hbs
          rfl

/-- What is found at each place, if the places are left out. -/
theorem allOk_places {P A B : Type} (f : A → Except Text B) (as : List (P × A)) :
    (allOk (fun a => (f a.2).map fun b => (a.1, b)) as).map (List.map Prod.snd) = allOk (fun a => f a.2) as := by
  induction as with
  | nil => rfl
  | cons a as ih =>
    rw [allOk, allOk, ← ih]
    cases f a.2 with
    | error message => rfl
    | ok b =>
      cases allOk (fun a => (f a.2).map fun b => (a.1, b)) as <;> rfl

/-! ## Tables of types -/

/-- What every object inherits from `Object.prototype`, as text. -/
def inheritedValues : List (Text × Text) :=
  [("constructor", "function Object() \x7b [native code] \x7d"),
    ("hasOwnProperty", "function hasOwnProperty() \x7b [native code] \x7d"),
    ("isPrototypeOf", "function isPrototypeOf() \x7b [native code] \x7d"),
    ("propertyIsEnumerable", "function propertyIsEnumerable() \x7b [native code] \x7d"),
    ("toLocaleString", "function toLocaleString() \x7b [native code] \x7d"),
    ("toString", "function toString() \x7b [native code] \x7d"),
    ("valueOf", "function valueOf() \x7b [native code] \x7d"),
    ("__defineGetter__", "function __defineGetter__() \x7b [native code] \x7d"),
    ("__defineSetter__", "function __defineSetter__() \x7b [native code] \x7d"),
    ("__lookupGetter__", "function __lookupGetter__() \x7b [native code] \x7d"),
    ("__lookupSetter__", "function __lookupSetter__() \x7b [native code] \x7d"),
    ("__proto__", "[object Object]")].map fun entry => (entry.1.toList, entry.2.toList)

/-- `table[key]`, for a table that is an object literal. -/
def lookupType (table : List (Text × Text)) (key : Text) : Option Text :=
  (table.lookup key).or (inheritedValues.lookup key)

/-! ## What the regular expressions are made of -/

open Matcher

/-- `\s*`. -/
def spaces : Matcher Char Text := greedy isJsSpace

/-- `\s+`. -/
def someSpaces : Matcher Char Text := headed isJsSpace isJsSpace

/-- `[A-Za-z_]\w*`. -/
def identifier : Matcher Char Text := headed isIdentStart isWordChar

theorem mem_spaces {text s r : Text} (h : (text, r) ∈ spaces s) : ∃ gap : Gap, text = gap.text ∧ s = gap.text ++ r := by
  obtain ⟨heq, hblank⟩ := mem_greedy.mp h
  exact ⟨⟨text, hblank⟩, rfl, heq⟩

theorem mem_someSpaces {text s r : Text} (h : (text, r) ∈ someSpaces s) :
    ∃ space : Space, text = space.text ∧ s = space.text ++ r := by
  obtain ⟨c, cs, rfl, rfl, hc, hcs⟩ := mem_headed.mp h
  exact ⟨⟨⟨c :: cs, List.forall_mem_cons.mpr ⟨hc, hcs⟩⟩, List.cons_ne_nil c cs⟩, rfl, rfl⟩

theorem mem_word {text s r : Text} (h : (text, r) ∈ headed isWordChar isWordChar s) :
    text ≠ [] ∧ (∀ c ∈ text, isWordChar c = true) ∧ s = text ++ r := by
  obtain ⟨c, cs, rfl, rfl, hc, hcs⟩ := mem_headed.mp h
  exact ⟨List.cons_ne_nil c cs, List.forall_mem_cons.mpr ⟨hc, hcs⟩, rfl⟩

theorem mem_identifier {text s r : Text} (h : (text, r) ∈ identifier s) :
    ∃ name : Ident, text = name.text ∧ s = name.text ++ r := by
  obtain ⟨c, cs, rfl, rfl, hc, hcs⟩ := mem_headed.mp h
  exact ⟨⟨c :: cs, ⟨c, cs, rfl, hc⟩, List.forall_mem_cons.mpr ⟨isWordChar_of_start hc, hcs⟩⟩, rfl, rfl⟩

theorem first_spaces (gap : Gap) {r : Text} (hr : Stops isJsSpace r) : spaces.first (gap.text ++ r) = some (gap.text, r) :=
  first_greedy gap.blank hr

theorem first_someSpaces (space : Space) {r : Text} (hr : Stops isJsSpace r) :
    someSpaces.first (space.text ++ r) = some (space.text, r) := by
  obtain ⟨c, gap, heq⟩ := List.exists_cons_of_ne_nil space.nonempty
  have hblank := space.blank
  rw [heq] at hblank ⊢
  obtain ⟨hc, hgap⟩ := List.forall_mem_cons.mp hblank
  exact first_headed hc hgap hr

theorem first_identifier (name : Ident) {r : Text} (hr : Stops isWordChar r) :
    identifier.first (name.text ++ r) = some (name.text, r) := by
  obtain ⟨c, cs, heq, hc⟩ := name.start
  have hword := name.word
  rw [heq] at hword ⊢
  exact first_headed hc (List.forall_mem_cons.mp hword).2 hr

/-! ## Where layout and names stop -/

theorem stops_space_ident (name : Ident) (r : Text) : Stops isJsSpace (name.text ++ r) := by
  obtain ⟨c, cs, heq, hc⟩ := name.start
  rw [heq]
  intro d hd
  cases hd
  exact isJsSpace_eq_false (isWordChar_of_start hc)

theorem stops_cons {p : Char → Bool} {c : Char} (h : p c = false) (r : Text) : Stops p (c :: r) := by
  intro d hd
  cases hd
  exact h

/-- A class without whitespace ends where layout begins, or with what stands behind it. -/
theorem stops_gap {p : Char → Bool} (hp : ∀ d, p d = true → isJsSpace d = false) (gap : Gap) {c : Char}
    (hc : p c = false) (r : Text) : Stops p (gap.text ++ c :: r) := by
  have hblank := gap.blank
  cases htext : gap.text with
  | nil => exact stops_cons hc r
  | cons d rest =>
    refine stops_cons (Bool.eq_false_iff.mpr fun hword => ?_) _
    have hspace := hblank d (htext ▸ List.mem_cons_self)
    exact Bool.false_ne_true ((hp d hword).symm.trans hspace)

theorem stops_cgap {p : Char → Bool} (hp : ∀ d, p d = true → isJsSpace d = false) (hslash : p '/' = false) (gap : CGap)
    {c : Char} (hc : p c = false) (r : Text) : Stops p (gap.text ++ c :: r) := by
  rw [← gap.blank_comments, List.append_assoc]
  rcases gap.comments_cases with hnone | ⟨rest, hcomments⟩
  · rw [hnone]
    exact stops_gap hp gap.blank hc r
  · rw [hcomments]
    exact stops_gap hp gap.blank hslash _

theorem stops_word_gap (gap : Gap) {c : Char} (hc : isWordChar c = false) (r : Text) :
    Stops isWordChar (gap.text ++ c :: r) := stops_gap (fun _ h => isJsSpace_eq_false h) gap hc r

theorem stops_word_space (space : Space) (r : Text) : Stops isWordChar (space.text ++ r) := by
  obtain ⟨c, gap, heq⟩ := List.exists_cons_of_ne_nil space.nonempty
  have hc := space.blank c (heq ▸ List.mem_cons_self)
  rw [heq]
  refine stops_cons (Bool.eq_false_iff.mpr fun hword => ?_) _
  rw [isJsSpace_eq_false hword] at hc
  cases hc

theorem gap_unique {gap gap' : Gap} {r t : Text} (h : gap.text ++ r = gap'.text ++ t) (hr : Stops isJsSpace r)
    (ht : Stops isJsSpace t) : r = t := (split_unique h gap.blank gap'.blank hr ht).2

theorem ident_unique {name name' : Ident} {r t : Text} (h : name.text ++ r = name'.text ++ t)
    (hr : Stops isWordChar r) (ht : Stops isWordChar t) : name.text = name'.text ∧ r = t :=
  split_unique h name.word name'.word hr ht

end CrossNative.Linked
