import CrossNative.Linked.SourceText

/-!
# The exports of a C or C++ source

`parseCExports` finds the functions marked `__attribute__((export_name("E")))` and takes their types
from the words in front of the names.
-/

namespace CrossNative.Linked

set_option autoImplicit false

open Basis Bridge Matcher

/-! ## The parser -/

def C_TO_ZIG : List (Text × Text) :=
  [("double", "f64"), ("float", "f32"), ("uint8_t", "u8"), ("uint16_t", "u16"), ("uint32_t", "u32"),
    ("uint64_t", "u64"), ("int8_t", "i8"), ("int16_t", "i16"), ("int32_t", "i32"), ("int64_t", "i64"),
    ("int", "i32"), ("unsigned", "u32"), ("unsigned int", "u32"), ("long", "i64"), ("unsigned long", "u64"),
    ("size_t", "u64"), ("char", "i8"), ("bool", "bool"), ("_Bool", "bool"), ("void", "void")].map fun entry =>
    (entry.1.toList, entry.2.toList)

/-- `replace(/\s+/g, ' ')`. -/
def collapse : Text → Text
  | [] => []
  | c :: t =>
    if isJsSpace c then
      if t.head?.any isJsSpace then collapse t else ' ' :: collapse t
    else c :: collapse t

def cType (t : Text) : Except Text Text :=
  match lookupType C_TO_ZIG (collapse (trim t)) with
  | some zig => .ok zig
  | none => .error ("unsupported C type '".toList ++ trim t ++ "' on the linked path".toList)

/-- `export_name("`. -/
def exportNameOpen : Text := ['e', 'x', 'p', 'o', 'r', 't', '_', 'n', 'a', 'm', 'e', '(', quoteMark]

def voidKeyword : Text := ['v', 'o', 'i', 'd']

/-- `[A-Za-z0-9_\s]`. -/
def isTypeChar (c : Char) : Bool := isWordChar c || isJsSpace c

/-- `[A-Za-z_][A-Za-z0-9_\s]*?`. -/
def retType : Matcher Char Text := do
  let c ← one isIdentStart
  let cs ← reluctant isTypeChar
  pure (c :: cs)

/-- `export_name\("(\w+)"\)\s*\)\s*\)\s*([A-Za-z_][A-Za-z0-9_\s]*?)\s+([A-Za-z_]\w*)\s*\(([^)]*)\)`,
with the last three groups. -/
def cExport : Matcher Char (Text × Text × Text) := do
  literal exportNameOpen
  let _ ← headed isWordChar isWordChar
  literal [quoteMark, ')']
  let _ ← spaces
  literal [')']
  let _ ← spaces
  literal [')']
  let _ ← spaces
  let ret ← retType
  let _ ← someSpaces
  let name ← identifier
  let _ ← spaces
  literal ['(']
  let paramList ← greedy (· != ')')
  literal [')']
  pure (ret, name, paramList)

/-- `replace(/\*/g, ' ')`. -/
def blankStars (p : Text) : Text := p.map fun c => if c = '*' then ' ' else c

/-- The last word is the name, and the words in front of it are the type. -/
def cParam (p : Text) : Except Text Param :=
  let parts := words (blankStars p)
  (cType (joined parts.dropLast)).map fun type => ⟨parts.getLastD [], type⟩

def cSignature (m : Text × Text × Text) : Except Text FnSig := do
  let params ← allOk cParam ((commaPieces m.2.2).filter (· ≠ voidKeyword))
  let returns ← cType m.1
  pure ⟨m.2.1, params, returns, none⟩

def parseCExports (source : Text) : Except Text (List FnSig) :=
  allOk (fun found => cSignature found.2) (matchAll cExport source)

/-- The signatures that are found, each with the source from its marker on. -/
def cExportsAt (source : Text) : Except Text (List (Text × FnSig)) :=
  allOk (fun found => (cSignature found.2).map fun sig => (found.1, sig)) (matchAll cExport source)

theorem parseCExports_eq (source : Text) :
    parseCExports source = (cExportsAt source).map (List.map Prod.snd) := (allOk_places cSignature _).symm

/-! ## Declarations -/

/-- What stands in front of a declarator. -/
inductive CType
  | words (first : Ident) (rest : List (CSpace × Ident))
  /-- Anything else, such as a template, a qualified name or an attribute. -/
  | other (text : Text)

def CType.text : CType → Text
  | .words first rest => first.text ++ rest.flatMap fun w => w.1.text ++ w.2.text
  | .other text => text

/-- A declarator around the name that is declared, or around what declares a function. -/
inductive CDeclarator (Leaf : Type)
  | base (leaf : Leaf)
  | parens (before : CGap) (inner : CDeclarator Leaf) (after : CGap)
  /-- With the qualifiers of the pointer. -/
  | pointer (after : CGap) (qualifiers : List (Ident × CGap)) (inner : CDeclarator Leaf)
  | reference (rvalue : Bool) (after : CGap) (inner : CDeclarator Leaf)
  | array (inner : CDeclarator Leaf) (before : CGap) (size : Text)
  | function (inner : CDeclarator Leaf) (before : CGap) (params : Text)

def CDeclarator.text {Leaf : Type} (leafText : Leaf → Text) : CDeclarator Leaf → Text
  | .base leaf => leafText leaf
  | .parens before inner after => '(' :: (before.text ++ (inner.text leafText ++ (after.text ++ [')'])))
  | .pointer after qualifiers inner =>
    '*' :: (after.text ++ ((qualifiers.flatMap fun q => q.1.text ++ q.2.text) ++ inner.text leafText))
  | .reference rvalue after inner => '&' :: ((if rvalue then ['&'] else []) ++ (after.text ++ inner.text leafText))
  | .array inner before size => inner.text leafText ++ (before.text ++ '[' :: (size ++ [']']))
  | .function inner before params => inner.text leafText ++ (before.text ++ '(' :: (params ++ [')']))

def CDeclarator.declared {Leaf : Type} : CDeclarator Leaf → Leaf
  | .base leaf => leaf
  | .parens _ inner _ => inner.declared
  | .pointer _ _ inner => inner.declared
  | .reference _ _ inner => inner.declared
  | .array inner _ _ => inner.declared
  | .function inner _ _ => inner.declared

/-- What is declared has another type than the one in front of the declarator. -/
def CDeclarator.derives {Leaf : Type} : CDeclarator Leaf → Bool
  | .base _ => false
  | .parens _ inner _ => inner.derives
  | _ => true

def attributeKeyword : Text := ['_', '_', 'a', 't', 't', 'r', 'i', 'b', 'u', 't', 'e', '_', '_']

/-- What may follow a declarator. -/
inductive CEnding
  | none
  | default (value : Text)
  /-- `__attribute__((text))` or `[[text]]`. -/
  | attributes (gnu : Bool) (text : Text)

def CEnding.text : CEnding → Text
  | .none => []
  | .default value => '=' :: value
  | .attributes true text => attributeKeyword ++ '(' :: '(' :: (text ++ [')', ')'])
  | .attributes false text => '[' :: '[' :: (text ++ [']', ']'])

structure CParam where
  before : CGap
  type : CType
  gap : CGap
  /-- Without a name, if the parameter has none. -/
  declarator : CDeclarator (Option Ident)
  separated : ∀ name, declarator = .base (some name) → gap.text ≠ []
  after : CGap
  ending : CEnding

def nameText (name : Option Ident) : Text := name.elim [] Ident.text

def CParam.text (p : CParam) : Text :=
  p.before.text ++ (p.type.text ++ (p.gap.text ++ (p.declarator.text nameText ++ (p.after.text ++ p.ending.text))))

inductive CParams
  | none (gap : CGap)
  | void (before after : CGap)
  /-- Perhaps with `...` behind the others. -/
  | list (params : List CParam) (variadic : Option (CGap × CGap))

def CParams.pieces : CParams → List Text
  | .none gap => [gap.text]
  | .void before after => [before.text ++ (voidKeyword ++ after.text)]
  | .list params variadic =>
    params.map CParam.text ++ variadic.toList.map fun gaps => gaps.1.text ++ ('.' :: '.' :: '.' :: gaps.2.text)

def CParams.text (params : CParams) : Text := [','].intercalate params.pieces

def CParams.declared : CParams → List CParam
  | .list params _ => params
  | _ => []

/-- The name of a function, perhaps in parentheses. -/
inductive CFnName
  | plain (name : Ident)
  | parens (before : CGap) (inner : CFnName) (after : CGap)

def CFnName.text : CFnName → Text
  | .plain name => name.text
  | .parens before inner after => '(' :: (before.text ++ (inner.text ++ (after.text ++ [')'])))

def CFnName.ident : CFnName → Ident
  | .plain name => name
  | .parens _ inner _ => inner.ident

structure CFnHead where
  name : CFnName
  notVoid : name.ident.text ≠ voidKeyword
  gap : CGap
  params : CParams

def CFnHead.text (head : CFnHead) : Text := head.name.text ++ (head.gap.text ++ '(' :: (head.params.text ++ [')']))

/-- A declaration, from `export_name("E")))` to the end of its declarator. -/
structure CExport where
  /-- `E`. -/
  exportName : Text
  notQuote : quoteMark ∉ exportName
  firstGap : CGap
  secondGap : CGap
  beforeType : CGap
  returns : CType
  gap : CGap
  declarator : CDeclarator CFnHead
  separated : ∀ head name, declarator = .base head → head.name = .plain name → gap.text ≠ []

def CExport.header (e : CExport) : Text :=
  e.beforeType.text ++ (e.returns.text ++ (e.gap.text ++ e.declarator.text CFnHead.text))

def CExport.text (e : CExport) : Text :=
  exportNameOpen ++ (e.exportName ++ (quoteMark :: ')' :: (e.firstGap.text ++ ')' :: (e.secondGap.text ++ ')' ::
    e.header))))

def CExport.head (e : CExport) : CFnHead := e.declarator.declared

/-! ## What is expected of a signature -/

def CType.spelling : CType → Option (List Text)
  | .words first rest => some (first.text :: rest.map fun w => w.2.text)
  | .other _ => none

/-- The entry of the table for the words of a type. -/
def CType.scalar (type : CType) : Option Text := type.spelling.bind fun ws => C_TO_ZIG.lookup (joined ws)

/-- The scalar that is passed; pointers, arrays and functions are none, nor is `void`. -/
def CParam.scalar (p : CParam) : Option Text :=
  if p.declarator.derives then none else p.type.scalar.filter (· ≠ "void".toList)

/-- The scalar that is returned, or `void`. -/
def CExport.result (e : CExport) : Option Text := if e.declarator.derives then none else e.returns.scalar

/-- With the scalar of the declared type, and a name, which is the declared one if there is one. -/
structure CParam.Described (p : CParam) (described : Param) : Prop where
  type : p.scalar = some described.type
  isName : ∃ ident : Ident, described.name = ident.text
  name : ∀ ident ∈ p.declarator.declared, described.name = ident.text

structure Truthful (e : CExport) (sig : FnSig) : Prop where
  name : sig.name = e.exportName
  params : List.Forall₂ CParam.Described e.head.params.declared sig.params
  returns : e.result = some sig.returns

/-! ## When they are met -/

/-- Words, stars and commas. -/
def isListChar (c : Char) : Bool := isTypeChar c || c == '*' || c == ','

/-- The scalar that the words of a type have without the last one. -/
def CType.shortened (type : CType) : Option Text := type.spelling.bind fun ws => C_TO_ZIG.lookup (joined ws.dropLast)

/-- The last word of a parameter without a name is taken for its name. -/
def CParam.Plain (p : CParam) : Prop :=
  p.scalar ≠ none ∧ (p.declarator.declared = none → p.type.shortened = p.scalar)

/-- The exported name is that of the function, and the parameter list consists of words. -/
structure CExport.Plain (e : CExport) : Prop where
  name : ∃ name, e.declarator = .base e.head ∧ e.head.name = .plain name ∧ name.text = e.exportName
  returns : e.result ≠ none
  listChars : ∀ c ∈ e.head.params.text, isListChar c = true
  params : ∀ p ∈ e.head.params.declared, p.Plain

/-! ## The words of a type -/

theorem words_cons_space {c d : Char} (hc : isJsSpace c = false) (hd : isJsSpace d = true) (t : Text) :
    words (c :: d :: t) = [c] :: words (d :: t) := by
  have hword : IsWord [c] := ⟨List.cons_ne_nil _ _, List.forall_mem_singleton.mpr hc⟩
  have hright := words_append [] hd t
  rw [List.nil_append, words_nil, List.nil_append] at hright
  have hboth := words_append [c] hd t
  rw [words_word hword.2 hword.1] at hboth
  rw [hright]
  exact hboth

theorem words_cons_letter {c d : Char} (hc : isJsSpace c = false) (hd : isJsSpace d = false) (t : Text) :
    ∃ w ws, words (d :: t) = w :: ws ∧ words (c :: d :: t) = (c :: w) :: ws := by
  obtain ⟨w, ws, hsplit⟩ := List.exists_cons_of_ne_nil (List.splitOnP_ne_nil isJsSpace t)
  refine ⟨d :: w, ws.filter (· ≠ []), ?_, ?_⟩
  · rw [words, List.splitOnP_cons_eq_if_modifyHead, if_neg (Bool.eq_false_iff.mp hd), hsplit]
    rfl
  · rw [words, List.splitOnP_cons_eq_if_modifyHead, if_neg (Bool.eq_false_iff.mp hc),
      List.splitOnP_cons_eq_if_modifyHead, if_neg (Bool.eq_false_iff.mp hd), hsplit]
    rfl

/-- Whitespace at the beginning is left as one space. -/
theorem collapse_eq {t : Text} (hlast : ∀ c ∈ t.getLast?, isJsSpace c = false) :
    collapse t = (if t.head?.any isJsSpace then [' '] else []) ++ joined (words t) := by
  induction t with
  | nil => rfl
  | cons c t ih =>
    cases t with
    | nil =>
      have hc : isJsSpace c = false := hlast c rfl
      have hword := words_word (List.forall_mem_singleton.mpr hc) (List.cons_ne_nil c [])
      rw [hword, collapse, if_neg (Bool.eq_false_iff.mp hc), List.head?_cons, Option.any_some,
        if_neg (Bool.eq_false_iff.mp hc)]
      rfl
    | cons d t =>
      rw [List.getLast?_cons_cons] at hlast
      have hrest := ih hlast
      rw [List.head?_cons, Option.any_some] at hrest
      rw [collapse, List.head?_cons, Option.any_some, List.head?_cons, Option.any_some, hrest]
      cases hc : isJsSpace c with
      | true =>
        have hwords : words (c :: d :: t) = words (d :: t) := words_gap (List.forall_mem_singleton.mpr hc) (d :: t)
        rw [hwords, if_pos rfl]
        cases isJsSpace d <;> rfl
      | false =>
        rw [if_neg Bool.false_ne_true, if_neg Bool.false_ne_true]
        cases hd : isJsSpace d with
        | true =>
          have hne : words (d :: t) ≠ [] := by
            intro hnil
            obtain ⟨l, hl⟩ := Option.isSome_iff_exists.mp (List.getLast?_isSome.mpr (List.cons_ne_nil d t))
            rcases mem_words_of_mem (List.mem_of_getLast? hl) with hspace | ⟨w, hw, _⟩
            · exact Bool.false_ne_true ((hlast l hl).symm.trans hspace)
            · rw [hnil] at hw
              cases hw
          rw [words_cons_space hc hd, joined_cons [c] hne, if_pos rfl]
          rfl
        | false =>
          obtain ⟨w, ws, hwords, hcons⟩ := words_cons_letter hc hd t
          rw [hwords, hcons, if_neg Bool.false_ne_true]
          cases ws <;> rfl

theorem collapse_trim (t : Text) : collapse (trim t) = joined (words t) := by
  obtain ⟨_, _, _, hhead, hlast⟩ := trim_parts t
  rw [collapse_eq hlast, words_trim]
  cases htrim : (trim t).head? with
  | none => rfl
  | some c =>
    rw [Option.any_some, hhead c htrim]
    rfl

theorem cType_ok_iff {t zig : Text} : cType t = .ok zig ↔ lookupType C_TO_ZIG (joined (words t)) = some zig := by
  rw [cType, collapse_trim]
  cases lookupType C_TO_ZIG (joined (words t)) with
  | none => exact iff_of_false (fun h => nomatch h) (fun h => nomatch h)
  | some zig' => rw [Except.ok.injEq, Option.some.injEq]

theorem isTypeChar_of_space {c : Char} (h : isJsSpace c = true) : isTypeChar c = true := by
  rw [isTypeChar, h, Bool.or_true]

theorem typeChars_of_blank {gap : Text} (h : ∀ c ∈ gap, isJsSpace c = true) : ∀ c ∈ gap, isTypeChar c = true :=
  fun c hc => isTypeChar_of_space (h c hc)

theorem Ident.typeChars (name : Ident) : ∀ c ∈ name.text, isTypeChar c = true := by
  intro c hc
  rw [isTypeChar, name.word c hc, Bool.true_or]

theorem mem_of_lookup {B : Type} {entries : List (Text × B)} {key : Text} {b : B} (h : entries.lookup key = some b) :
    (key, b) ∈ entries := by
  obtain ⟨before, after, rfl, _⟩ := List.lookup_eq_some_iff.mp h
  exact List.mem_append_right _ List.mem_cons_self

theorem isTypeChar_of_lookupType {key zig : Text} (h : lookupType C_TO_ZIG key = some zig) :
    ∀ c ∈ key, isTypeChar c = true := by
  have hkeys : (C_TO_ZIG ++ inheritedValues).all (fun entry => entry.1.all isTypeChar) = true := by decide +kernel
  rw [lookupType, ← List.lookup_append] at h
  exact List.all_eq_true.mp (List.all_eq_true.mp hkeys (key, zig) (mem_of_lookup h))

/-! ## The parameters that are read -/

theorem cParam_ok_iff {piece : Text} {p : Param} :
    cParam piece = .ok p ↔ lookupType C_TO_ZIG (joined (words (blankStars piece)).dropLast) = some p.type ∧
      p.name = (words (blankStars piece)).getLastD [] := by
  have hwords : ∀ w ∈ (words (blankStars piece)).dropLast, IsWord w := fun w hw =>
    isWord_of_mem_words (List.dropLast_subset _ hw)
  have htype := @cType_ok_iff (joined (words (blankStars piece)).dropLast) p.type
  rw [words_joined hwords] at htype
  rw [← htype, cParam]
  cases cType (joined (words (blankStars piece)).dropLast) with
  | error message => exact iff_of_false (fun h => nomatch h) (fun h => nomatch h.1)
  | ok type =>
    constructor
    · intro h
      cases h
      exact ⟨rfl, rfl⟩
    · rintro ⟨htype, hname⟩
      cases htype
      rw [← hname]
      rfl

/-- Types and names have no other characters. -/
theorem char_of_cParam {piece : Text} {p : Param} (h : cParam piece = .ok p) {ident : Ident} (hname : p.name = ident.text) :
    ∀ c ∈ piece, isTypeChar c = true ∨ c = '*' := by
  obtain ⟨htype, hlast⟩ := cParam_ok_iff.mp h
  intro c hc
  by_cases hstar : c = '*'
  · exact Or.inr hstar
  · left
    have hblank : c ∈ blankStars piece := List.mem_map.mpr ⟨c, hc, if_neg hstar⟩
    rcases mem_words_of_mem hblank with hspace | ⟨w, hw, hin⟩
    · exact isTypeChar_of_space hspace
    · have hne := List.ne_nil_of_mem hw
      rw [← List.dropLast_append_getLast hne] at hw
      rcases List.mem_append.mp hw with htypeWord | hnameWord
      · have hwords : ∀ w ∈ (words (blankStars piece)).dropLast, IsWord w := fun w hw =>
          isWord_of_mem_words (List.dropLast_subset _ hw)
        rw [← words_joined hwords] at htypeWord
        exact isTypeChar_of_lookupType htype c (mem_of_mem_words htypeWord hin)
      · have hword : w = ident.text := by
          rw [List.mem_singleton.mp hnameWord, ← hname, hlast, List.getLastD_eq_getLast?,
            List.getLast?_eq_getLast_of_ne_nil hne]
          rfl
        exact ident.typeChars c (hword ▸ hin)

def voidWord : Ident where
  text := voidKeyword
  start := ⟨_, _, rfl, by decide⟩
  word := List.all_eq_true.mp (by decide)

theorem isListChar_of_typeChar {c : Char} (h : isTypeChar c = true) : isListChar c = true := by
  rw [isListChar, h, Bool.true_or, Bool.true_or]

theorem listChars_of_ok {paramList : Text} {params : List Param}
    (hok : allOk cParam ((commaPieces paramList).filter (· ≠ voidKeyword)) = .ok params)
    (hnames : ∀ p ∈ params, ∃ ident : Ident, p.name = ident.text) : ∀ c ∈ paramList, isListChar c = true := by
  intro c hc
  rcases (@splitOnP_spec (· == ',') paramList).2 c hc with hcomma | ⟨piece, hpiece, hin⟩
  · rw [isListChar, hcomma, Bool.or_true]
  · obtain ⟨before, after, heq, _, _⟩ := trim_parts piece
    rw [heq, List.mem_append, List.mem_append] at hin
    rcases hin with hbefore | htrim | hafter
    · exact isListChar_of_typeChar (typeChars_of_blank before.blank c hbefore)
    · by_cases hvoid : trim piece = voidKeyword
      · rw [hvoid] at htrim
        exact isListChar_of_typeChar (voidWord.typeChars c htrim)
      · have hmem : trim piece ∈ (commaPieces paramList).filter (· ≠ voidKeyword) := by
          refine List.mem_filter.mpr ⟨List.mem_filter.mpr ⟨List.mem_map.mpr ⟨piece, hpiece, rfl⟩, ?_⟩, ?_⟩
          · exact decide_eq_true (List.ne_nil_of_mem htrim)
          · exact decide_eq_true hvoid
        obtain ⟨p, hp, hparam⟩ := exists_of_forall₂ (allOk_iff.mp hok) hmem
        obtain ⟨ident, hname⟩ := hnames p hp
        rcases char_of_cParam hparam hname c htrim with htype | hstar
        · exact isListChar_of_typeChar htype
        · rw [hstar]
          decide
    · exact isListChar_of_typeChar (typeChars_of_blank after.blank c hafter)

/-! ## Where declarations leave a class of characters -/

/-- The characters of words, whitespace and perhaps others, but not those that begin a comment. -/
structure WordClass (p : Char → Bool) : Prop where
  typeChar : ∀ c, isTypeChar c = true → p c = true
  slash : p '/' = false

theorem typeClass : WordClass isTypeChar := ⟨fun _ h => h, by decide⟩

theorem listClass : WordClass isListChar := ⟨fun _ h => isListChar_of_typeChar h, by decide⟩

section Classes

variable {p q : Char → Bool} (hp : WordClass p)
include hp

theorem Ident.leaves (name : Ident) : Leaves p q name.text :=
  leaves_of_forall fun c hc => hp.typeChar c (name.typeChars c hc)

theorem CGap.blank_of_forall {gap : CGap} (h : ∀ c ∈ gap.text, p c = true) : ∀ c ∈ gap.text, isJsSpace c = true := by
  obtain ⟨text, layout⟩ := gap
  simp only at h ⊢
  induction layout with
  | nil => exact List.forall_mem_nil _
  | space hc _ ih => exact List.forall_mem_cons.mpr ⟨hc, ih (List.forall_mem_cons.mp h).2⟩
  | block _ _ _ => exact absurd (h '/' List.mem_cons_self) (Bool.eq_false_iff.mp hp.slash)
  | line _ _ _ => exact absurd (h '/' List.mem_cons_self) (Bool.eq_false_iff.mp hp.slash)

variable (hq : q '/' = true)
include hq

theorem CGap.leaves (gap : CGap) : Leaves p q gap.text := by
  obtain ⟨text, layout⟩ := gap
  simp only
  induction layout with
  | nil => exact leaves_of_forall (List.forall_mem_nil _)
  | space hc _ ih => exact leaves_cons_of_pos (hp.typeChar _ (isTypeChar_of_space hc)) ih
  | block _ _ _ => exact leaves_cons_of_neg hp.slash hq _
  | line _ _ _ => exact leaves_cons_of_neg hp.slash hq _

theorem CType.leaves {type : CType} (h : type.spelling ≠ none) : Leaves p q type.text := by
  cases type with
  | other text => exact absurd rfl h
  | words first rest =>
    refine leaves_append (first.leaves hp) ?_
    induction rest with
    | nil => exact leaves_of_forall (List.forall_mem_nil _)
    | cons w rest ih =>
      rw [List.flatMap_cons]
      exact leaves_append (leaves_append (w.1.leaves hp hq) (w.2.leaves hp)) (ih (Option.some_ne_none _))

end Classes

/-! ## Parameter lists -/

/-- Not what ends a parameter list. -/
def notClose (c : Char) : Bool := c != ')'

theorem CParam.derives_of_scalar {p : CParam} (h : p.scalar ≠ none) : p.declarator.derives = false := by
  cases hderives : p.declarator.derives with
  | false => rfl
  | true => exact absurd (if_pos hderives) h

theorem CParam.spelling_of_scalar {p : CParam} (h : p.scalar ≠ none) : p.type.spelling ≠ none := by
  intro hnone
  have hnotDerives := p.derives_of_scalar h
  rw [CParam.scalar, CType.scalar, hnone, hnotDerives] at h
  exact h rfl

theorem leaves_declarator {declarator : CDeclarator (Option Ident)} (h : declarator.derives = false) :
    Leaves isListChar notClose (declarator.text nameText) := by
  cases declarator with
  | base name =>
    cases name with
    | none => exact leaves_of_forall (List.forall_mem_nil _)
    | some name => exact name.leaves listClass
  | parens before inner after => exact leaves_cons_of_neg (by decide) (by decide) _
  | pointer after qualifiers inner => cases h
  | reference rvalue after inner => cases h
  | array inner before size => cases h
  | function inner before params => cases h

theorem CEnding.leaves (ending : CEnding) : Leaves isListChar notClose ending.text := by
  cases ending with
  | none => exact leaves_of_forall (List.forall_mem_nil _)
  | default value => exact leaves_cons_of_neg (by decide) (by decide) _
  | attributes gnu text =>
    cases gnu with
    | false => exact leaves_cons_of_neg (by decide) (by decide) _
    | true =>
      have hkeyword : ∀ c ∈ attributeKeyword, isListChar c = true := List.all_eq_true.mp (by decide)
      exact leaves_append (leaves_of_forall hkeyword) (leaves_cons_of_neg (by decide) (by decide) _)

theorem leaves_param {p : CParam} (h : p.scalar ≠ none) : Leaves isListChar notClose p.text := by
  have hgap (gap : CGap) : Leaves isListChar notClose gap.text := gap.leaves listClass (by decide)
  refine leaves_append (hgap p.before) (leaves_append ?_ (leaves_append (hgap p.gap) (leaves_append ?_ ?_)))
  · exact CType.leaves listClass (by decide) (p.spelling_of_scalar h)
  · exact leaves_declarator (p.derives_of_scalar h)
  · exact leaves_append (hgap p.after) p.ending.leaves

theorem leaves_intercalate {pieces : List Text} (h : ∀ piece ∈ pieces, Leaves isListChar notClose piece) :
    Leaves isListChar notClose ([','].intercalate pieces) := by
  induction pieces with
  | nil => exact leaves_of_forall (List.forall_mem_nil _)
  | cons piece pieces ih =>
    obtain ⟨hpiece, hpieces⟩ := List.forall_mem_cons.mp h
    cases pieces with
    | nil => rwa [List.intercalate_singleton]
    | cons next pieces =>
      rw [List.intercalate_cons_cons, List.append_assoc]
      exact leaves_append hpiece (leaves_cons_of_pos (by decide) (ih hpieces))

/-- A list of scalars leaves the class of words and commas before it is closed. -/
theorem leaves_params {params : CParams} (h : ∀ p ∈ params.declared, p.scalar ≠ none) :
    Leaves isListChar notClose params.text := by
  have hgap (gap : CGap) : Leaves isListChar notClose gap.text := gap.leaves listClass (by decide)
  refine leaves_intercalate fun piece hpiece => ?_
  cases params with
  | none gap =>
    rw [List.mem_singleton.mp hpiece]
    exact hgap gap
  | void before after =>
    rw [List.mem_singleton.mp hpiece]
    exact leaves_append (hgap before) (leaves_append (voidWord.leaves listClass) (hgap after))
  | list list variadic =>
    rcases List.mem_append.mp hpiece with hparam | hvariadic
    · obtain ⟨p, hp, rfl⟩ := List.mem_map.mp hparam
      exact leaves_param (h p hp)
    · obtain ⟨gaps, _, rfl⟩ := List.mem_map.mp hvariadic
      exact leaves_append (hgap gaps.1) (leaves_cons_of_neg (by decide) (by decide) _)

/-! ## Parameter lists of words and commas -/

theorem clean_gap {gap : CGap} (h : ∀ c ∈ gap.text, isListChar c = true) : ∀ c ∈ gap.text, isJsSpace c = true :=
  gap.blank_of_forall listClass h

theorem clean_words (first : Ident) {rest : List (CSpace × Ident)}
    (h : ∀ w ∈ rest, ∀ c ∈ w.1.text, isListChar c = true) :
    words (CType.words first rest).text = first.text :: rest.map fun w => w.2.text := by
  induction rest generalizing first with
  | nil =>
    rw [CType.text, List.flatMap_nil, List.append_nil]
    exact words_word first.notSpace first.ne_nil
  | cons w rest ih =>
    obtain ⟨hw, hrest⟩ := List.forall_mem_cons.mp h
    have hlater := ih w.2 hrest
    rw [CType.text] at hlater
    rw [CType.text, List.flatMap_cons, List.append_assoc,
      words_append_space first.text (clean_gap hw) w.1.nonempty, hlater, words_word first.notSpace first.ne_nil]
    rfl

theorem clean_type {type : CType} {ws : List Text} (hws : type.spelling = some ws)
    (h : ∀ c ∈ type.text, isListChar c = true) : words type.text = ws ∧ ∀ c ∈ type.text, isTypeChar c = true := by
  cases type with
  | other text => cases hws
  | words first rest =>
    cases hws
    obtain ⟨_, hrest⟩ := List.forall_mem_append.mp h
    have hspaces : ∀ w ∈ rest, ∀ c ∈ w.1.text, isListChar c = true := fun w hw c hc =>
      hrest c (List.mem_flatMap.mpr ⟨w, hw, List.mem_append_left _ hc⟩)
    refine ⟨clean_words first hspaces, List.forall_mem_append.mpr ⟨first.typeChars, fun c hc => ?_⟩⟩
    obtain ⟨w, hw, hin⟩ := List.mem_flatMap.mp hc
    rcases List.mem_append.mp hin with hspace | hname
    · exact isTypeChar_of_space (clean_gap (hspaces w hw) c hspace)
    · exact w.2.typeChars c hname

theorem clean_declarator {declarator : CDeclarator (Option Ident)} (hderives : declarator.derives = false)
    (h : ∀ c ∈ declarator.text nameText, isListChar c = true) : ∃ name, declarator = .base name := by
  cases declarator with
  | base name => exact ⟨name, rfl⟩
  | parens before inner after => exact absurd (h '(' List.mem_cons_self) (by decide)
  | pointer after qualifiers inner => cases hderives
  | reference rvalue after inner => cases hderives
  | array inner before size => cases hderives
  | function inner before params => cases hderives

theorem clean_ending {ending : CEnding} (h : ∀ c ∈ ending.text, isListChar c = true) : ending = .none := by
  cases ending with
  | none => rfl
  | default value => exact absurd (h '=' List.mem_cons_self) (by decide)
  | attributes gnu text =>
    cases gnu with
    | false => exact absurd (h '[' List.mem_cons_self) (by decide)
    | true => exact absurd (h '(' (List.mem_append_right _ List.mem_cons_self)) (by decide)

/-- A scalar parameter is then the words of its type, and its name. -/
theorem clean_param {p : CParam} (hscalar : p.scalar ≠ none) (h : ∀ c ∈ p.text, isListChar c = true) :
    ∃ ws, p.type.spelling = some ws ∧ words p.text = ws ++ p.declarator.declared.toList.map Ident.text ∧
      ∀ c ∈ p.text, isTypeChar c = true := by
  obtain ⟨ws, hws⟩ := Option.ne_none_iff_exists'.mp (p.spelling_of_scalar hscalar)
  simp only [CParam.text, List.forall_mem_append] at h
  obtain ⟨hbefore, htype, hgap, hdeclarator, hafter, hending⟩ := h
  obtain ⟨name, hname⟩ := clean_declarator (p.derives_of_scalar hscalar) hdeclarator
  obtain ⟨hwords, htypeChars⟩ := clean_type hws htype
  have hbefore := clean_gap hbefore
  have hgap := clean_gap hgap
  have hafter := clean_gap hafter
  refine ⟨ws, hws, ?_, ?_⟩
  · rw [CParam.text, clean_ending hending, hname, CEnding.text, words_gap hbefore, List.append_nil]
    cases name with
    | none =>
      have hblank : ∀ c ∈ p.gap.text ++ ([] ++ p.after.text), isJsSpace c = true :=
        List.forall_mem_append.mpr ⟨hgap, hafter⟩
      exact ((words_trailing hblank p.type.text).trans hwords).trans (List.append_nil ws).symm
    | some name =>
      rw [words_append_space p.type.text hgap (p.separated name hname), hwords]
      exact congrArg (ws ++ ·) ((words_trailing hafter name.text).trans (words_word name.notSpace name.ne_nil))
  · rw [CParam.text, clean_ending hending, hname]
    simp only [List.forall_mem_append]
    refine ⟨typeChars_of_blank hbefore, htypeChars, typeChars_of_blank hgap, ?_, typeChars_of_blank hafter,
      List.forall_mem_nil _⟩
    cases name with
    | none => exact List.forall_mem_nil _
    | some name => exact name.typeChars

theorem blankStars_eq_self {text : Text} (h : ∀ c ∈ text, isTypeChar c = true) : blankStars text = text := by
  have hstar : ∀ c ∈ text, (if c = '*' then ' ' else c) = c := by
    intro c hc
    refine if_neg fun heq => ?_
    rw [heq] at hc
    exact absurd (h '*' hc) (by decide)
  exact (List.map_congr_left hstar).trans (List.map_id' text)

theorem cParam_trim_iff {text : Text} (h : ∀ c ∈ text, isTypeChar c = true) {described : Param} :
    cParam (trim text) = .ok described ↔ lookupType C_TO_ZIG (joined (words text).dropLast) = some described.type ∧
      described.name = (words text).getLastD [] := by
  obtain ⟨before, after, heq, _, _⟩ := trim_parts text
  have hchars : ∀ c ∈ trim text, isTypeChar c = true := fun c hc =>
    h c (heq ▸ List.mem_append_right _ (List.mem_append_left _ hc))
  rw [cParam_ok_iff, blankStars_eq_self hchars, words_trim]

/-- What is inherited is no scalar of the table. -/
theorem lookup_of_lookupType {key other zig : Text} (h : lookupType C_TO_ZIG key = some zig)
    (hvalue : C_TO_ZIG.lookup other = some zig) : C_TO_ZIG.lookup key = some zig := by
  have hinherited : ∀ entry ∈ inheritedValues, ∀ entry' ∈ C_TO_ZIG, entry.2 ≠ entry'.2 := by decide +kernel
  rw [lookupType] at h
  cases hown : C_TO_ZIG.lookup key with
  | some zig' =>
    rw [hown] at h
    exact h
  | none =>
    rw [hown] at h
    exact absurd rfl (hinherited (key, zig) (mem_of_lookup h) (other, zig) (mem_of_lookup hvalue))

theorem lookupType_of_lookup {key zig : Text} (h : C_TO_ZIG.lookup key = some zig) :
    lookupType C_TO_ZIG key = some zig := by
  rw [lookupType, h]
  rfl

theorem CParam.scalar_eq {p : CParam} {ws : List Text} (h : p.scalar ≠ none) (hws : p.type.spelling = some ws) :
    p.scalar = C_TO_ZIG.lookup (joined ws) := by
  have hderives := p.derives_of_scalar h
  rw [CParam.scalar, CType.scalar, hws, hderives] at h ⊢
  cases hlookup : C_TO_ZIG.lookup (joined ws) with
  | none =>
    rw [Option.bind_some, hlookup] at h
    exact absurd rfl h
  | some zig =>
    rw [Option.bind_some, hlookup, if_neg Bool.false_ne_true, Option.filter_some] at h ⊢
    exact ite_eq_left_iff.mpr fun hvoid => absurd (if_neg hvoid) h

theorem exists_last_ident {type : CType} {ws : List Text} (h : type.spelling = some ws) :
    ws ≠ [] ∧ ∃ ident : Ident, ws.getLastD [] = ident.text := by
  cases type with
  | other text => cases h
  | words first rest =>
    cases h
    refine ⟨List.cons_ne_nil _ _, ?_⟩
    cases hlast : rest.getLast? with
    | none =>
      rw [List.getLast?_eq_none_iff.mp hlast]
      exact ⟨first, rfl⟩
    | some w =>
      refine ⟨w.2, ?_⟩
      rw [List.getLastD_eq_getLast?, List.getLast?_cons, List.getLast?_map, hlast]
      rfl

section Read

variable {p : CParam} {ws : List Text} {described : Param} (hscalar : p.scalar ≠ none)
  (hws : p.type.spelling = some ws)
include hscalar hws

theorem described_named {ident : Ident} (hdeclared : p.declarator.declared = some ident)
    (htype : lookupType C_TO_ZIG (joined ws) = some described.type) (hname : described.name = ident.text) :
    p.Described described := by
  refine ⟨?_, ⟨ident, hname⟩, ?_⟩
  · obtain ⟨zig, hzig⟩ := Option.ne_none_iff_exists'.mp hscalar
    have hlookup := p.scalar_eq hscalar hws
    rw [hzig] at hlookup
    rw [hzig, ← lookupType_of_lookup hlookup.symm, htype]
  · intro ident' hident'
    rw [hdeclared] at hident'
    rw [hname, Option.some.inj hident']

/-- Without a name, the last word of the type has become the name. -/
theorem described_unnamed (hdeclared : p.declarator.declared = none)
    (htype : lookupType C_TO_ZIG (joined ws.dropLast) = some described.type) (hname : described.name = ws.getLastD []) :
    p.Described described ↔ p.type.shortened = p.scalar := by
  have hshortened : p.type.shortened = C_TO_ZIG.lookup (joined ws.dropLast) := by
    rw [CType.shortened, hws]
    rfl
  rw [hshortened]
  constructor
  · intro hdescribed
    have hsame := hdescribed.type
    rw [p.scalar_eq hscalar hws] at hsame
    rw [lookup_of_lookupType htype hsame, hdescribed.type]
  · intro hsame
    obtain ⟨zig, hzig⟩ := Option.ne_none_iff_exists'.mp hscalar
    obtain ⟨_, ident, hident⟩ := exists_last_ident hws
    rw [hzig] at hsame
    rw [lookupType_of_lookup hsame, Option.some.injEq] at htype
    refine ⟨by rw [hzig, htype], ⟨ident, hname.trans hident⟩, fun ident' hident' => ?_⟩
    rw [hdeclared] at hident'
    cases hident'

end Read

theorem described_iff {p : CParam} (h : ∀ c ∈ p.text, isListChar c = true) {described : Param}
    (hok : cParam (trim p.text) = .ok described) : p.Described described ↔ p.Plain := by
  by_cases hscalar : p.scalar = none
  · refine iff_of_false (fun hdescribed => ?_) (fun hplain => hplain.1 hscalar)
    exact Option.some_ne_none _ (hdescribed.type.symm.trans hscalar)
  · obtain ⟨ws, hws, hwords, hchars⟩ := clean_param hscalar h
    obtain ⟨htype, hname⟩ := (cParam_trim_iff hchars).mp hok
    rw [hwords] at htype hname
    cases hdeclared : p.declarator.declared with
    | some ident =>
      rw [hdeclared, Option.toList_some, List.map_singleton, List.dropLast_concat] at htype
      rw [hdeclared, Option.toList_some, List.map_singleton, List.getLastD_concat] at hname
      refine iff_of_true (described_named hscalar hws hdeclared htype hname) ⟨hscalar, fun hnone => ?_⟩
      rw [hdeclared] at hnone
      cases hnone
    | none =>
      rw [hdeclared, Option.toList_none, List.map_nil, List.append_nil] at htype hname
      rw [described_unnamed hscalar hws hdeclared htype hname]
      exact ⟨fun hsame => ⟨hscalar, fun _ => hsame⟩, fun hplain => hplain.2 hdeclared⟩

theorem noComma {text : Text} (h : ∀ c ∈ text, isTypeChar c = true) : ',' ∉ text := fun hmem =>
  absurd (h ',' hmem) (by decide)

theorem noComma_blank {text : Text} (h : ∀ c ∈ text, isJsSpace c = true) : ',' ∉ text := noComma (typeChars_of_blank h)

/-- A scalar is neither nothing nor `void`. -/
theorem trim_scalar {p : CParam} (hscalar : p.scalar ≠ none) (h : ∀ c ∈ p.text, isListChar c = true) :
    trim p.text ≠ [] ∧ trim p.text ≠ voidKeyword := by
  obtain ⟨ws, hws, hwords, _⟩ := clean_param hscalar h
  obtain ⟨hne, _⟩ := exists_last_ident hws
  rw [← words_trim] at hwords
  constructor
  · intro hnil
    rw [hnil, words_nil] at hwords
    exact hne (List.append_eq_nil_iff.mp hwords.symm).1
  · intro hvoid
    have hvoidWords : words voidKeyword = [voidKeyword] := words_word voidWord.notSpace voidWord.ne_nil
    rw [hvoid, hvoidWords] at hwords
    have htype : ws = [voidKeyword] := by
      obtain ⟨w, ws', rfl⟩ := List.exists_cons_of_ne_nil hne
      obtain ⟨hw, hnil⟩ := List.cons.inj hwords
      rw [← hw, (List.append_eq_nil_iff.mp hnil.symm).1]
    have hderives := p.derives_of_scalar hscalar
    have hlookup : (C_TO_ZIG.lookup (joined [voidKeyword])).filter (· ≠ "void".toList) = none := by decide +kernel
    rw [CParam.scalar, CType.scalar, hderives, hws, htype] at hscalar
    exact hscalar hlookup

theorem clean_declared {params : CParams} (h : ∀ c ∈ params.text, isListChar c = true) :
    ∀ p ∈ params.declared, ∀ c ∈ p.text, isListChar c = true := by
  intro p hp c hc
  cases params with
  | none gap => cases hp
  | void before after => cases hp
  | list list variadic =>
    exact h c (mem_intercalate (List.mem_append_left _ (List.mem_map.mpr ⟨p, hp, rfl⟩)) hc)

/-- What is read as parameters are the declared ones. -/
theorem clean_pieces {params : CParams} (hscalar : ∀ p ∈ params.declared, p.scalar ≠ none)
    (h : ∀ c ∈ params.text, isListChar c = true) :
    (commaPieces params.text).filter (· ≠ voidKeyword) = params.declared.map fun p => trim p.text := by
  have hpieces : ∀ piece ∈ params.pieces, ∀ c ∈ piece, isListChar c = true := fun piece hpiece c hc =>
    h c (mem_intercalate hpiece hc)
  cases params with
  | none gap =>
    have hblank := clean_gap (hpieces gap.text List.mem_cons_self)
    rw [CParams.text, CParams.pieces, commaPieces_intercalate (List.forall_mem_singleton.mpr (noComma_blank hblank)),
      List.map_singleton, trim_blank hblank]
    rfl
  | void before after =>
    obtain ⟨hbefore, hrest⟩ := List.forall_mem_append.mp (hpieces _ List.mem_cons_self)
    obtain ⟨_, hafter⟩ := List.forall_mem_append.mp hrest
    have hbefore := clean_gap hbefore
    have hafter := clean_gap hafter
    have hcomma : ',' ∉ before.text ++ (voidKeyword ++ after.text) :=
      List.not_mem_append (noComma_blank hbefore) (List.not_mem_append (by decide) (noComma_blank hafter))
    have htrim : trim (before.text ++ (voidKeyword ++ after.text)) = voidKeyword :=
      trim_ident ⟨before.text, hbefore⟩ voidWord ⟨after.text, hafter⟩
    rw [CParams.text, CParams.pieces, commaPieces_intercalate (List.forall_mem_singleton.mpr hcomma),
      List.map_singleton, htrim]
    rfl
  | list list variadic =>
    have hparams : ∀ p ∈ list, ∀ c ∈ p.text, isListChar c = true := clean_declared h
    cases variadic with
    | some gaps =>
      have hdot : '.' ∈ gaps.1.text ++ ('.' :: '.' :: '.' :: gaps.2.text) :=
        List.mem_append_right _ List.mem_cons_self
      exact absurd (hpieces _ (List.mem_append_right _ List.mem_cons_self) '.' hdot) (by decide)
    | none =>
      have hcomma : ∀ p ∈ list, ',' ∉ p.text := by
        intro p hp
        obtain ⟨_, _, _, hchars⟩ := clean_param (hscalar p hp) (hparams p hp)
        exact noComma hchars
      have htrim (p : CParam) (hp : p ∈ list) := trim_scalar (hscalar p hp) (hparams p hp)
      have hread : commaPieces (CParams.list list none).text = list.map fun p => trim p.text :=
        @commaPieces_pieces _ CParam.text _ list none hcomma (fun _ _ => rfl) fun p hp => (htrim p hp).1
      rw [hread]
      refine List.filter_eq_self.mpr fun text htext => ?_
      obtain ⟨p, hp, rfl⟩ := List.mem_map.mp htext
      exact decide_eq_true (htrim p hp).2

theorem forall₂_iff_forall {A B : Type} {R S : A → B → Prop} {T : A → Prop} {as : List A} {bs : List B}
    (h : List.Forall₂ R as bs) (hiff : ∀ a ∈ as, ∀ b, R a b → (S a b ↔ T a)) :
    List.Forall₂ S as bs ↔ ∀ a ∈ as, T a := by
  induction h with
  | nil => exact iff_of_true .nil (List.forall_mem_nil _)
  | cons hhead _ ih =>
    obtain ⟨hfirst, hrest⟩ := List.forall_mem_cons.mp hiff
    rw [List.forall₂_cons, List.forall_mem_cons, hfirst _ hhead, ih hrest]

theorem params_iff {params : CParams} (hscalar : ∀ p ∈ params.declared, p.scalar ≠ none)
    (h : ∀ c ∈ params.text, isListChar c = true) {described : List Param}
    (hok : allOk cParam ((commaPieces params.text).filter (· ≠ voidKeyword)) = .ok described) :
    List.Forall₂ CParam.Described params.declared described ↔ ∀ p ∈ params.declared, p.Plain := by
  rw [clean_pieces hscalar h, allOk_iff, List.forall₂_map_left_iff] at hok
  exact forall₂_iff_forall hok fun p hp _ hparam => described_iff (clean_declared h p hp) hparam

/-! ## The header that is matched -/

theorem mem_retType {text s r : Text} (h : (text, r) ∈ retType s) :
    (∀ c ∈ text, isTypeChar c = true) ∧ s = text ++ r := by
  obtain ⟨c, t, hfirst, h⟩ := mem_bind.mp h
  obtain ⟨cs, t', hrest, h⟩ := mem_bind.mp h
  obtain ⟨rfl, rfl⟩ := mem_pure.mp h
  obtain ⟨rfl, hc⟩ := mem_one.mp hfirst
  obtain ⟨rfl, hcs⟩ := mem_reluctant.mp hrest
  refine ⟨List.forall_mem_cons.mpr ⟨?_, hcs⟩, rfl⟩
  rw [isTypeChar, isWordChar_of_start hc, Bool.true_or]

/-- How a match cuts the text behind `export_name("E")))`. -/
structure HeaderMatch (m : Text × Text × Text) (header : Text) where
  before : Gap
  space : Space
  name : Ident
  gap : Gap
  rest : Text
  ret : ∀ c ∈ m.1, isTypeChar c = true
  name_eq : m.2.1 = name.text
  noClose : ∀ c ∈ m.2.2, notClose c = true
  text : header = (before.text ++ (m.1 ++ (space.text ++ (name.text ++ gap.text)))) ++ '(' :: (m.2.2 ++ ')' :: rest)

theorem headerMatch_of_mem {e : CExport} {after r : Text} {m : Text × Text × Text}
    (h : (m, r) ∈ cExport (e.text ++ after)) : Nonempty (HeaderMatch m (e.header ++ after)) := by
  obtain ⟨_, t₁, hopen, h⟩ := mem_bind.mp h
  obtain ⟨exported, t₂, hexported, h⟩ := mem_bind.mp h
  obtain ⟨_, t₃, hquote, h⟩ := mem_bind.mp h
  obtain ⟨_, t₄, hfirstGap, h⟩ := mem_bind.mp h
  obtain ⟨_, t₅, hfirst, h⟩ := mem_bind.mp h
  obtain ⟨_, t₆, hsecondGap, h⟩ := mem_bind.mp h
  obtain ⟨_, t₇, hsecond, h⟩ := mem_bind.mp h
  obtain ⟨_, t₈, hbefore, h⟩ := mem_bind.mp h
  obtain ⟨ret, t₉, hret, h⟩ := mem_bind.mp h
  obtain ⟨_, t₁₀, hspace, h⟩ := mem_bind.mp h
  obtain ⟨_, t₁₁, hname, h⟩ := mem_bind.mp h
  obtain ⟨_, t₁₂, hgap, h⟩ := mem_bind.mp h
  obtain ⟨_, t₁₃, hparen, h⟩ := mem_bind.mp h
  obtain ⟨params, t₁₄, hparams, h⟩ := mem_bind.mp h
  obtain ⟨_, t₁₅, hclose, h⟩ := mem_bind.mp h
  obtain ⟨rfl, rfl⟩ := mem_pure.mp h
  obtain ⟨_, hexportedChars, rfl⟩ := mem_word hexported
  obtain ⟨firstGap, _, rfl⟩ := mem_spaces hfirstGap
  obtain ⟨secondGap, _, rfl⟩ := mem_spaces hsecondGap
  obtain ⟨before, _, rfl⟩ := mem_spaces hbefore
  obtain ⟨hretChars, rfl⟩ := mem_retType hret
  obtain ⟨space, _, rfl⟩ := mem_someSpaces hspace
  obtain ⟨name, rfl, rfl⟩ := mem_identifier hname
  obtain ⟨gap, _, rfl⟩ := mem_spaces hgap
  obtain ⟨rfl, hnoClose⟩ := mem_greedy.mp hparams
  cases mem_literal.mp hparen
  cases mem_literal.mp hclose
  cases mem_literal.mp hsecond
  cases mem_literal.mp hfirst
  cases mem_literal.mp hquote
  rw [CExport.text, List.append_assoc] at hopen
  have hmarker := List.append_cancel_left (mem_literal.mp hopen)
  simp only [List.append_assoc, List.cons_append, List.nil_append] at hmarker
  have hdeclared := leaves_of_forall (q := (· != quoteMark)) (forall_bne e.notQuote)
  have hexported : quoteMark ∉ exported := fun hquote => absurd (hexportedChars quoteMark hquote) (by decide)
  have hquoted := (cut_unique hmarker (by decide) hdeclared (by decide) (forall_bne hexported)).2
  have hleaves (gap : CGap) : Leaves isTypeChar notClose gap.text := gap.leaves typeClass (by decide)
  have hblank (gap : Gap) : ∀ d ∈ gap.text, isTypeChar d = true := typeChars_of_blank gap.blank
  have hone := (cut_unique (List.cons.inj hquoted).2 (by decide) (hleaves e.firstGap) (by decide) (hblank firstGap)).2
  have htwo := (cut_unique hone (by decide) (hleaves e.secondGap) (by decide) (hblank secondGap)).2
  refine ⟨before, space, name, gap, r, hretChars, rfl, hnoClose, ?_⟩
  rw [htwo]
  simp only [List.append_assoc]

theorem HeaderMatch.typeChars {m : Text × Text × Text} {header : Text} (hm : HeaderMatch m header) :
    ∀ c ∈ hm.before.text ++ (m.1 ++ (hm.space.text ++ (hm.name.text ++ hm.gap.text))), isTypeChar c = true := by
  simp only [List.forall_mem_append]
  exact ⟨typeChars_of_blank hm.before.blank, hm.ret, typeChars_of_blank hm.space.blank, hm.name.typeChars,
    typeChars_of_blank hm.gap.blank⟩

/-- What stands in front of the first parenthesis is what the expression has read in front of it. -/
theorem HeaderMatch.cut {m : Text × Text × Text} {header text rest : Text} (hm : HeaderMatch m header)
    (htext : header = text ++ '(' :: rest) (h : Leaves isTypeChar (· != '(') text) :
    text = hm.before.text ++ (m.1 ++ (hm.space.text ++ (hm.name.text ++ hm.gap.text))) ∧
      rest = m.2.2 ++ ')' :: hm.rest :=
  cut_unique (htext.symm.trans hm.text) (by decide) h (by decide) hm.typeChars

theorem HeaderMatch.words {m : Text × Text × Text} {header : Text} (hm : HeaderMatch m header) :
    Linked.words (hm.before.text ++ (m.1 ++ (hm.space.text ++ (hm.name.text ++ hm.gap.text)))) =
      Linked.words m.1 ++ [m.2.1] := by
  rw [words_gap hm.before.blank, words_append_space m.1 hm.space.blank hm.space.nonempty, words_trailing hm.gap.blank,
    words_word hm.name.notSpace hm.name.ne_nil, hm.name_eq]

/-- What stands in front of the parameters of a function whose name is in no parentheses. -/
def CExport.front (e : CExport) (name : Ident) : Text :=
  e.beforeType.text ++ (e.returns.text ++ (e.gap.text ++ (name.text ++ e.head.gap.text)))

theorem CExport.leaves_front {e : CExport} (h : e.returns.spelling ≠ none) (name : Ident) :
    Leaves isTypeChar (· != '(') (e.front name) := by
  have hgap (gap : CGap) : Leaves isTypeChar (· != '(') gap.text := gap.leaves typeClass (by decide)
  refine leaves_append (hgap e.beforeType) (leaves_append (CType.leaves typeClass (by decide) h) ?_)
  exact leaves_append (hgap e.gap) (leaves_append (name.leaves typeClass) (hgap e.head.gap))

theorem header_plain {e : CExport} {name : Ident} (hbase : e.declarator = .base e.head) (hname : e.head.name = .plain name)
    (after : Text) : e.header ++ after = e.front name ++ '(' :: (e.head.params.text ++ ')' :: after) := by
  rw [CExport.header, hbase, CDeclarator.text, CFnHead.text, hname, CExport.front, CFnName.text]
  simp only [List.append_assoc, List.cons_append, List.nil_append]

theorem words_front {e : CExport} {name : Ident} (hbase : e.declarator = .base e.head)
    (hname : e.head.name = .plain name) {ws : List Text} (hws : e.returns.spelling = some ws)
    (h : ∀ c ∈ e.front name, isTypeChar c = true) : words (e.front name) = ws ++ [name.text] := by
  have hlist : ∀ c ∈ e.front name, isListChar c = true := fun c hc => isListChar_of_typeChar (h c hc)
  simp only [CExport.front, List.forall_mem_append] at hlist
  obtain ⟨hbefore, hreturns, hgap, _, hafter⟩ := hlist
  rw [CExport.front, words_gap (clean_gap hbefore),
    words_append_space e.returns.text (clean_gap hgap) (e.separated e.head name hbase hname),
    words_trailing (clean_gap hafter), words_word name.notSpace name.ne_nil, (clean_type hws hreturns).1]

/-- The name that is read is that of the function, and the type has the words of the declared one. -/
theorem HeaderMatch.plain {e : CExport} {name : Ident} (hbase : e.declarator = .base e.head)
    (hname : e.head.name = .plain name) {ws : List Text} (hws : e.returns.spelling = some ws) {after : Text}
    {m : Text × Text × Text} (hm : HeaderMatch m (e.header ++ after)) :
    Linked.words m.1 = ws ∧ m.2.1 = name.text ∧ e.head.params.text ++ ')' :: after = m.2.2 ++ ')' :: hm.rest := by
  have hspelling : e.returns.spelling ≠ none := by
    rw [hws]
    exact Option.some_ne_none _
  obtain ⟨hfront, hrest⟩ := hm.cut (header_plain hbase hname after) (e.leaves_front hspelling name)
  have hchars : ∀ c ∈ e.front name, isTypeChar c = true := hfront ▸ hm.typeChars
  have hwords := words_front hbase hname hws hchars
  rw [hfront, hm.words] at hwords
  obtain ⟨hret, hlast⟩ := List.append_inj' hwords rfl
  exact ⟨hret, List.singleton_inj.mp hlast, hrest⟩

/-! ## Functions in parentheses -/

theorem leaves_fnName (name : CFnName) : Leaves isListChar notClose name.text := by
  cases name with
  | plain ident => exact ident.leaves listClass
  | parens before inner after => exact leaves_cons_of_neg (by decide) (by decide) _

theorem leaves_fnDeclarator {declarator : CDeclarator CFnHead} (h : declarator.derives = false) :
    Leaves isListChar notClose (declarator.text CFnHead.text) ∧ '(' ∈ declarator.text CFnHead.text := by
  cases declarator with
  | base head =>
    refine ⟨?_, List.mem_append_right _ (List.mem_append_right _ List.mem_cons_self)⟩
    refine leaves_append (leaves_fnName head.name) (leaves_append ?_ (leaves_cons_of_neg (by decide) (by decide) _))
    exact head.gap.leaves listClass (by decide)
  | parens before inner after => exact ⟨leaves_cons_of_neg (by decide) (by decide) _, List.mem_cons_self⟩
  | pointer after qualifiers inner => cases h
  | reference rvalue after inner => cases h
  | array inner before size => cases h
  | function inner before params => cases h

/-- A name alone has no type. -/
theorem not_ok_of_name {before after : Gap} {name : Ident} (hvoid : name.text ≠ voidKeyword) {params : List Param} :
    allOk cParam ((commaPieces (before.text ++ (name.text ++ after.text))).filter (· ≠ voidKeyword)) ≠ .ok params := by
  intro hok
  have hcomma : ',' ∉ before.text ++ (name.text ++ after.text) :=
    List.not_mem_append (before.notMem (by decide)) (List.not_mem_append (name.notMem (by decide))
      (after.notMem (by decide)))
  have hpieces := commaPieces_intercalate (List.forall_mem_singleton.mpr hcomma)
  have hkept : [name.text].filter (· ≠ []) = [name.text] :=
    List.filter_eq_self.mpr (List.forall_mem_singleton.mpr (decide_eq_true name.ne_nil))
  have hread : [name.text].filter (· ≠ voidKeyword) = [name.text] :=
    List.filter_eq_self.mpr (List.forall_mem_singleton.mpr (decide_eq_true hvoid))
  rw [List.intercalate_singleton, List.map_singleton, trim_ident, hkept] at hpieces
  rw [hpieces, hread, allOk_iff] at hok
  obtain ⟨p, _, hparam, _⟩ := List.forall₂_cons_left_iff.mp hok
  have htype := (cParam_ok_iff.mp hparam).1
  rw [blankStars_eq_self name.typeChars, words_word name.notSpace name.ne_nil] at htype
  have hempty : lookupType C_TO_ZIG [] = none := by decide +kernel
  exact Option.some_ne_none _ (htype.symm.trans hempty)

/-- What is read where a declarator begins with a parenthesis. -/
theorem HeaderMatch.inner {e : CExport} (hspelling : e.returns.spelling ≠ none) {inside rest after : Text}
    (htext : e.declarator.text CFnHead.text = '(' :: (inside ++ ')' :: rest)) {m : Text × Text × Text}
    (hm : HeaderMatch m (e.header ++ after)) (hleaves : Leaves isListChar notClose inside)
    (h : ∀ c ∈ m.2.2, isListChar c = true) : inside = m.2.2 := by
  have hfront : e.header ++ after =
      (e.beforeType.text ++ (e.returns.text ++ e.gap.text)) ++ '(' :: (inside ++ ')' :: (rest ++ after)) := by
    rw [CExport.header, htext]
    simp only [List.append_assoc, List.cons_append]
  have hgap (gap : CGap) : Leaves isTypeChar (· != '(') gap.text := gap.leaves typeClass (by decide)
  obtain ⟨_, hrest⟩ := hm.cut hfront (leaves_append (hgap e.beforeType)
    (leaves_append (CType.leaves typeClass (by decide) hspelling) (hgap e.gap)))
  exact (cut_unique hrest (by decide) hleaves (by decide) h).1

section Unwrapped

variable {e : CExport} {m : Text × Text × Text} {after : Text} (hspelling : e.returns.spelling ≠ none)
  (hm : HeaderMatch m (e.header ++ after)) (h : ∀ c ∈ m.2.2, isListChar c = true)
include hspelling hm h

/-- A name in parentheses is read as the parameter list. -/
theorem not_ok_of_wrapped {head : CFnHead} (hdeclarator : e.declarator = .base head) {before : CGap} {inner : CFnName}
    {behind : CGap} (hname : head.name = .parens before inner behind) {params : List Param} :
    allOk cParam ((commaPieces m.2.2).filter (· ≠ voidKeyword)) ≠ .ok params := by
  intro hok
  have hgap (gap : CGap) : Leaves isListChar notClose gap.text := gap.leaves listClass (by decide)
  have htext : e.declarator.text CFnHead.text = '(' :: ((before.text ++ (inner.text ++ behind.text)) ++ ')' ::
      (head.gap.text ++ '(' :: (head.params.text ++ [')']))) := by
    rw [hdeclarator, CDeclarator.text, CFnHead.text, hname, CFnName.text]
    simp only [List.append_assoc, List.cons_append, List.nil_append]
  have hinside := hm.inner hspelling htext
    (leaves_append (hgap before) (leaves_append (leaves_fnName inner) (hgap behind))) h
  rw [← hinside] at hok h
  cases inner with
  | parens before' inner behind' =>
    have hparen : '(' ∈ before.text ++ ((CFnName.parens before' inner behind').text ++ behind.text) :=
      List.mem_append_right _ (List.mem_append_left _ List.mem_cons_self)
    exact absurd (h '(' hparen) (by decide)
  | plain name =>
    have hvoid : name.text ≠ voidKeyword := by
      have hnotVoid := head.notVoid
      rwa [hname] at hnotVoid
    simp only [List.forall_mem_append] at h
    exact @not_ok_of_name ⟨before.text, clean_gap h.1⟩ ⟨behind.text, clean_gap h.2.2⟩ name hvoid params hok

/-- A function in parentheses brings another parenthesis with it. -/
theorem not_wrapped {before behind : CGap} {inner : CDeclarator CFnHead}
    (hdeclarator : e.declarator = .parens before inner behind) (hderives : inner.derives = false) : False := by
  have hgap (gap : CGap) : Leaves isListChar notClose gap.text := gap.leaves listClass (by decide)
  obtain ⟨hleaves, hparen⟩ := leaves_fnDeclarator hderives
  have htext : e.declarator.text CFnHead.text =
      '(' :: ((before.text ++ (inner.text CFnHead.text ++ behind.text)) ++ ')' :: []) := by
    rw [hdeclarator, CDeclarator.text]
    simp only [List.append_assoc]
  have hinside := hm.inner hspelling htext (leaves_append (hgap before) (leaves_append hleaves (hgap behind))) h
  rw [← hinside] at h
  exact absurd (h '(' (List.mem_append_right _ (List.mem_append_left _ hparen))) (by decide)

/-- If what is read are words, the function stands in no parentheses. -/
theorem HeaderMatch.unwrapped (hderives : e.declarator.derives = false) {params : List Param}
    (hok : allOk cParam ((commaPieces m.2.2).filter (· ≠ voidKeyword)) = .ok params) :
    ∃ name, e.declarator = .base e.head ∧ e.head.name = .plain name := by
  cases hdeclarator : e.declarator with
  | base head =>
    have hhead : e.head = head := by
      rw [CExport.head, hdeclarator, CDeclarator.declared]
    rw [hhead]
    cases hname : head.name with
    | plain name => exact ⟨name, rfl, rfl⟩
    | parens before inner behind => exact absurd hok (not_ok_of_wrapped hspelling hm h hdeclarator hname)
  | parens before inner behind =>
    rw [hdeclarator] at hderives
    exact (not_wrapped hspelling hm h hdeclarator hderives).elim
  | pointer after qualifiers inner =>
    rw [hdeclarator] at hderives
    cases hderives
  | reference rvalue after inner =>
    rw [hdeclarator] at hderives
    cases hderives
  | array inner before size =>
    rw [hdeclarator] at hderives
    cases hderives
  | function inner before params =>
    rw [hdeclarator] at hderives
    cases hderives

end Unwrapped

/-! ## When a signature tells the truth -/

theorem cSignature_ok {m : Text × Text × Text} {sig : FnSig} (h : cSignature m = .ok sig) :
    allOk cParam ((commaPieces m.2.2).filter (· ≠ voidKeyword)) = .ok sig.params ∧ cType m.1 = .ok sig.returns ∧
      sig.name = m.2.1 := by
  rw [cSignature] at h
  cases hparams : allOk cParam ((commaPieces m.2.2).filter (· ≠ voidKeyword)) with
  | error message =>
    rw [hparams] at h
    cases h
  | ok params =>
    rw [hparams] at h
    cases hreturns : cType m.1 with
    | error message =>
      rw [hreturns] at h
      cases h
    | ok returns =>
      rw [hreturns] at h
      cases h
      exact ⟨rfl, rfl, rfl⟩

/-- A signature that is found comes from a match where the declaration stands. -/
theorem match_of_found {source place : Text} {found : List (Text × FnSig)} (hok : cExportsAt source = .ok found)
    {sig : FnSig} (hmem : (place, sig) ∈ found) : ∃ m r, (m, r) ∈ cExport place ∧ cSignature m = .ok sig := by
  have hfound := (allOk_iff.mp hok).flip
  obtain ⟨⟨place', m⟩, hmatch, hsig⟩ := exists_of_forall₂ hfound hmem
  obtain ⟨_, r, hfirst⟩ := first_of_mem_matchAll hmatch
  simp only at hsig hfirst
  cases hsignature : cSignature m with
  | error message =>
    rw [hsignature] at hsig
    cases hsig
  | ok sig' =>
    rw [hsignature] at hsig
    cases hsig
    exact ⟨m, r, mem_of_first hfirst, hsignature⟩

theorem CExport.spelling_of_result {e : CExport} (h : e.result ≠ none) :
    e.declarator.derives = false ∧ e.result = e.returns.scalar ∧ e.returns.spelling ≠ none := by
  cases hderives : e.declarator.derives with
  | true =>
    rw [CExport.result, hderives] at h
    exact absurd rfl h
  | false =>
    have hresult : e.result = e.returns.scalar := by
      rw [CExport.result, hderives]
      rfl
    refine ⟨rfl, hresult, fun hnone => ?_⟩
    rw [hresult, CType.scalar, hnone] at h
    exact h rfl

/-- Behind a plain header, the parameters are read from a list of words as they are declared. -/
theorem truthful_iff_of_clean {e : CExport} {name : Ident} (hbase : e.declarator = .base e.head)
    (hname : e.head.name = .plain name) (hresult : e.result ≠ none)
    (hscalar : ∀ p ∈ e.head.params.declared, p.scalar ≠ none) (hclean : ∀ c ∈ e.head.params.text, isListChar c = true)
    {after : Text} {m : Text × Text × Text} (hm : HeaderMatch m (e.header ++ after)) {sig : FnSig}
    (hsig : cSignature m = .ok sig) :
    Truthful e sig ↔ name.text = e.exportName ∧ ∀ p ∈ e.head.params.declared, p.Plain := by
  obtain ⟨_, hresult_eq, hspelling⟩ := e.spelling_of_result hresult
  obtain ⟨ws, hws⟩ := Option.ne_none_iff_exists'.mp hspelling
  obtain ⟨hwords, hname_eq, hrest⟩ := hm.plain hbase hname hws
  obtain ⟨hparams, hreturns, hsigName⟩ := cSignature_ok hsig
  have hclean' : ∀ c ∈ e.head.params.text, notClose c = true :=
    forall_bne fun hclose => absurd (hclean ')' hclose) (by decide)
  have hlist : e.head.params.text = m.2.2 :=
    (split_unique hrest hclean' hm.noClose (stops_cons (by decide) _) (stops_cons (by decide) _)).1
  rw [← hlist] at hparams
  have hdescribed := params_iff hscalar hclean hparams
  have hreturned : e.result = some sig.returns := by
    rw [cType_ok_iff, hwords] at hreturns
    obtain ⟨zig, hzig⟩ := Option.ne_none_iff_exists'.mp hresult
    have hlookup : C_TO_ZIG.lookup (joined ws) = some zig := by
      rw [← hzig, hresult_eq, CType.scalar, hws]
      rfl
    rw [hzig, ← lookupType_of_lookup hlookup, hreturns]
  rw [← hdescribed]
  constructor
  · intro h
    exact ⟨hname_eq.symm.trans (hsigName.symm.trans h.name), h.params⟩
  · rintro ⟨hsame, hall⟩
    exact ⟨hsigName.trans (hname_eq.trans hsame), hall, hreturned⟩

theorem scalar_of_described {params : List CParam} {described : List Param}
    (h : List.Forall₂ CParam.Described params described) : ∀ p ∈ params, p.scalar ≠ none := by
  intro p hp
  obtain ⟨_, _, hdescribed⟩ := exists_of_forall₂ h hp
  rw [hdescribed.type]
  exact Option.some_ne_none _

/-- A signature that is returned for a function tells the truth exactly if the declaration is plain. -/
theorem cExport_truthful_iff {before after : Text} {e : CExport} {found : List (Text × FnSig)} {sig : FnSig}
    (hok : cExportsAt (before ++ (e.text ++ after)) = .ok found) (hmem : (e.text ++ after, sig) ∈ found) :
    Truthful e sig ↔ e.Plain := by
  obtain ⟨m, r, hmatch, hsig⟩ := match_of_found hok hmem
  obtain ⟨hm⟩ := headerMatch_of_mem hmatch
  constructor
  · intro h
    have hresult : e.result ≠ none := by
      rw [h.returns]
      exact Option.some_ne_none _
    obtain ⟨hderives, _, hspelling⟩ := e.spelling_of_result hresult
    have hscalar := scalar_of_described h.params
    obtain ⟨hparams, _, _⟩ := cSignature_ok hsig
    have hnames : ∀ p ∈ sig.params, ∃ ident : Ident, p.name = ident.text := by
      intro p hp
      obtain ⟨_, _, hdescribed⟩ := exists_of_forall₂ h.params.flip hp
      exact hdescribed.isName
    have hread := listChars_of_ok hparams hnames
    obtain ⟨name, hbase, hname⟩ := HeaderMatch.unwrapped hspelling hm hread hderives hparams
    obtain ⟨ws, hws⟩ := Option.ne_none_iff_exists'.mp hspelling
    obtain ⟨_, _, hrest⟩ := hm.plain hbase hname hws
    have hlist := (cut_unique hrest (by decide) (leaves_params hscalar) (by decide) hread).1
    have hclean : ∀ c ∈ e.head.params.text, isListChar c = true := hlist ▸ hread
    obtain ⟨hsame, hall⟩ := (truthful_iff_of_clean hbase hname hresult hscalar hclean hm hsig).mp h
    exact ⟨⟨name, hbase, hname, hsame⟩, hresult, hclean, hall⟩
  · rintro ⟨⟨name, hbase, hname, hsame⟩, hresult, hclean, hall⟩
    have hscalar : ∀ p ∈ e.head.params.declared, p.scalar ≠ none := fun p hp => (hall p hp).1
    exact (truthful_iff_of_clean hbase hname hresult hscalar hclean hm hsig).mpr ⟨hsame, hall⟩

def doubleIdent : Ident where
  text := ['d', 'o', 'u', 'b', 'l', 'e']
  start := ⟨_, _, rfl, by decide⟩
  word := List.all_eq_true.mp (by decide)

def halfIdent : Ident where
  text := ['h', 'a', 'l', 'f']
  start := ⟨_, _, rfl, by decide⟩
  word := List.all_eq_true.mp (by decide)

def halveIdent : Ident where
  text := ['h', 'a', 'l', 'v', 'e']
  start := ⟨_, _, rfl, by decide⟩
  word := List.all_eq_true.mp (by decide)

def xIdent : Ident where
  text := ['x']
  start := ⟨_, _, rfl, by decide⟩
  word := List.all_eq_true.mp (by decide)

def doubleParam (declarator : CDeclarator (Option Ident)) : CParam where
  before := cNoGap
  type := .words doubleIdent []
  gap := cOneSpace.toCGap
  declarator := declarator
  separated := fun _ _ => cOneSpace.nonempty
  after := cNoGap
  ending := .none

/-- `export_name("E"))) double half(double declarator)`. -/
def halfExport (exportName : Ident) (declarator : CDeclarator (Option Ident)) : CExport where
  exportName := exportName.text
  notQuote := exportName.notMem (by decide)
  firstGap := cNoGap
  secondGap := cNoGap
  beforeType := cOneSpace.toCGap
  returns := .words doubleIdent []
  gap := cOneSpace.toCGap
  declarator := .base ⟨.plain halfIdent, by decide, cNoGap, .list [doubleParam declarator] none⟩
  separated := fun _ _ _ _ => cOneSpace.nonempty

def marker : Text := ['_', '_', 'a', 't', 't', 'r', 'i', 'b', 'u', 't', 'e', '_', '_', '(', '(']

def halfSig : FnSig := ⟨halfIdent.text, [⟨xIdent.text, ['f', '6', '4']⟩], ['f', '6', '4'], none⟩

theorem found_half (e : CExport) (h : (cExportsAt (marker ++ (e.text ++ [';']))).toOption = some [(e.text ++ [';'], halfSig)]) :
    cExportsAt (marker ++ (e.text ++ [';'])) = .ok [(e.text ++ [';'], halfSig)] := by
  cases hfound : cExportsAt (marker ++ (e.text ++ [';'])) with
  | error message =>
    rw [hfound] at h
    cases h
  | ok found =>
    rw [hfound] at h
    exact congrArg _ (Option.some.inj h)

theorem cExport_truthful_iff_half : Truthful (halfExport halfIdent (.base (some xIdent))) halfSig := by
  refine (cExport_truthful_iff (found_half _ (by decide +kernel)) List.mem_cons_self).mpr ?_
  refine ⟨⟨halfIdent, rfl, rfl, rfl⟩, by decide +kernel, List.all_eq_true.mp (by decide +kernel), ?_⟩
  refine List.forall_mem_singleton.mpr ⟨by decide +kernel, fun h => ?_⟩
  cases h

/-- Under another name the function is found by its own, and a pointer is passed as a scalar. -/
theorem cExport_not_truthful :
    (∃ found, cExportsAt (marker ++ ((halfExport halveIdent (.base (some xIdent))).text ++ [';'])) = .ok found ∧
      ((halfExport halveIdent (.base (some xIdent))).text ++ [';'], halfSig) ∈ found ∧
      ¬ Truthful (halfExport halveIdent (.base (some xIdent))) halfSig) ∧
    ∃ found, cExportsAt (marker ++ ((halfExport halfIdent (.pointer cNoGap [] (.base (some xIdent)))).text ++ [';'])) =
        .ok found ∧
      ((halfExport halfIdent (.pointer cNoGap [] (.base (some xIdent)))).text ++ [';'], halfSig) ∈ found ∧
      ¬ Truthful (halfExport halfIdent (.pointer cNoGap [] (.base (some xIdent)))) halfSig := by
  constructor
  · refine ⟨_, found_half _ (by decide +kernel), List.mem_cons_self, fun h => ?_⟩
    exact absurd h.name (by decide)
  · refine ⟨_, found_half _ (by decide +kernel), List.mem_cons_self, fun h => ?_⟩
    obtain ⟨_, _, hdescribed, _⟩ := List.forall₂_cons_left_iff.mp h.params
    exact absurd hdescribed.type nofun

end CrossNative.Linked
