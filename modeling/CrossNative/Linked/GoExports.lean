import CrossNative.Linked.SourceText

/-!
# The exports of a Go source, and their wrappers

`parseGoExports` finds the functions behind `//go:wasmexport` lines. For each of them a cgo wrapper
is written that should call the function, with the types turned back into Go types.
-/

namespace CrossNative.Linked

set_option autoImplicit false

open Basis Bridge Matcher

/-! ## The parser -/

def GO_TO_ZIG : List (Text × Text) :=
  [("float64", "f64"), ("float32", "f32"), ("int8", "i8"), ("int16", "i16"), ("int32", "i32"), ("int64", "i64"),
    ("int", "i64"), ("uint8", "u8"), ("uint16", "u16"), ("uint32", "u32"), ("uint64", "u64"), ("uint", "u64"),
    ("byte", "u8"), ("bool", "bool")].map fun entry => (entry.1.toList, entry.2.toList)

/-- Nothing is `undefined`, which has no `trim`. -/
def goType : Option Text → Except Text Text
  | none => .error "Cannot read properties of undefined (reading 'trim')".toList
  | some t =>
    match lookupType GO_TO_ZIG (trim t) with
    | some zig => .ok zig
    | none => .error ("unsupported Go type '".toList ++ trim t ++ "' on the linked path".toList)

/-- `//go:wasmexport`. -/
def directive : Text := ['/', '/', 'g', 'o', ':', 'w', 'a', 's', 'm', 'e', 'x', 'p', 'o', 'r', 't']

def funcKeyword : Text := ['f', 'u', 'n', 'c']

/-- `\s*\n\s*`. -/
def lineEnd : Matcher Char Unit := do
  let _ ← spaces
  literal ['\n']
  let _ ← spaces
  pure ()

/-- `\s*([A-Za-z_]\w*)?`. -/
def resultName : Matcher Char (Option Text) := do
  let _ ← spaces
  optional identifier

/-- `\/\/go:wasmexport\s+(\w+)\s*\n\s*func\s+\w+\s*\(([^)]*)\)\s*([A-Za-z_]\w*)?`. -/
def wasmexport : Matcher Char (Text × Text × Option Text) := do
  literal directive
  let _ ← someSpaces
  let name ← headed isWordChar isWordChar
  lineEnd
  literal funcKeyword
  let _ ← someSpaces
  let _ ← headed isWordChar isWordChar
  let _ ← spaces
  literal ['(']
  let paramList ← greedy (· != ')')
  literal [')']
  let ret ← resultName
  pure (name, paramList, ret)

def goParam (p : Text) : Except Text Param :=
  (goType (words p)[1]?).map fun type => ⟨(words p).headD [], type⟩

def cgoPrefix : Text := ['c', 'n', '_']

def goReturns : Option Text → Except Text Text
  | none => .ok "void".toList
  | some ret => goType (some ret)

def goSignature (m : Text × Text × Option Text) : Except Text FnSig := do
  let params ← allOk goParam (commaPieces m.2.1)
  let returns ← goReturns m.2.2
  pure ⟨m.1, params, returns, some (cgoPrefix ++ m.1)⟩

def parseGoExports (source : Text) : Except Text (List FnSig) :=
  allOk (fun found => goSignature found.2) (matchAll wasmexport source)

/-! ## The wrappers -/

def goName (zig : Text) : Text :=
  match GO_TO_ZIG.find? fun entry =>
    entry.2 = zig ∧ entry.1 ≠ "int".toList ∧ entry.1 ≠ "uint".toList ∧ entry.1 ≠ "byte".toList with
  | some (go, _) => go
  | none => zig

/-- `func symbol(params) result { callee(args) }`, with `return` if there is a result. -/
structure GoWrapper where
  symbol : Text
  params : List (Text × Text)
  result : Option Text
  callee : Text
  args : List Text

/-- What `compileGoNativeLib` writes for a signature. -/
def goWrapper (sig : FnSig) : GoWrapper where
  symbol := sig.symbol
  params := sig.params.map fun p => (p.name, goName p.type)
  result := if sig.returns = "void".toList then none else some (goName sig.returns)
  callee := sig.name
  args := sig.params.map Param.name

def paramText (p : Text × Text) : Text := p.1 ++ ' ' :: p.2

def GoWrapper.callText (w : GoWrapper) : Text := w.callee ++ '(' :: ([',', ' '].intercalate w.args ++ [')'])

def GoWrapper.text (w : GoWrapper) : Text :=
  let params := [',', ' '].intercalate (w.params.map paramText)
  let body := if w.result.isSome then "return ".toList ++ w.callText else w.callText
  "//export ".toList ++ (w.symbol ++ ("\nfunc ".toList ++ (w.symbol ++ '(' :: (params ++ (") ".toList ++
    (w.result.getD [] ++ (" \x7b ".toList ++ (body ++ " \x7d".toList))))))))

/-! ## Sources -/

/-- The types of the table. -/
inductive GoType
  | float64
  | float32
  | int8
  | int16
  | int32
  | int64
  | int
  | uint8
  | uint16
  | uint32
  | uint64
  | uint
  | byte
  | bool
  deriving DecidableEq

def GoType.text : GoType → Text
  | .float64 => "float64".toList
  | .float32 => "float32".toList
  | .int8 => "int8".toList
  | .int16 => "int16".toList
  | .int32 => "int32".toList
  | .int64 => "int64".toList
  | .int => "int".toList
  | .uint8 => "uint8".toList
  | .uint16 => "uint16".toList
  | .uint32 => "uint32".toList
  | .uint64 => "uint64".toList
  | .uint => "uint".toList
  | .byte => "byte".toList
  | .bool => "bool".toList

def GoType.zig (type : GoType) : Text := (GO_TO_ZIG.lookup type.text).getD []

/-- The type a name stands for; `byte` is another name of `uint8`. -/
def GoType.canonical : GoType → GoType
  | .byte => .uint8
  | type => type

/-- A letter, a digit or an underscore, as far as ASCII goes. -/
def isGoWordChar (c : Char) : Bool := isWordChar c || (128 ≤ c.toNat && !isJsSpace c)

structure GoIdent where
  text : Text
  ne_nil : text ≠ []
  word : ∀ c ∈ text, isGoWordChar c = true

def blankName : Text := ['_']

/-- Layout in a parameter list; its comments have neither a comma nor a closing parenthesis. -/
structure GoGap extends CGap where
  noComma : ',' ∉ text
  noClose : ')' ∉ text

structure GoSpace extends GoGap where
  nonempty : text ≠ []

/-- What stands between two commas of a parameter list. -/
inductive GoPiece
  | typed (name : GoIdent) (space : GoSpace) (type : GoType)
  /-- Its type is that of the next name. -/
  | grouped (name : GoIdent)
  /-- A parameter without a name. -/
  | unnamed (type : GoType)

def GoPiece.text : GoPiece → Text
  | .typed name space type => name.text ++ (space.text ++ type.text)
  | .grouped name => name.text
  | .unnamed type => type.text

def GoPiece.ident : GoPiece → Option GoIdent
  | .typed name _ _ => some name
  | .grouped name => some name
  | .unnamed _ => none

def nextType : List GoPiece → Option GoType
  | .typed _ _ type :: _ => some type
  | .grouped _ :: pieces => nextType pieces
  | _ => none

/-- The parameters that are declared. -/
def declaredParams : List GoPiece → List (Option GoIdent × GoType)
  | [] => []
  | .typed name _ type :: pieces => (some name, type) :: declaredParams pieces
  | .grouped name :: pieces =>
    (nextType pieces).toList.map (fun type => (some name, type)) ++ declaredParams pieces
  | .unnamed type :: pieces => (none, type) :: declaredParams pieces

/-- Either all parameters have names or none has one. -/
def ValidPieces (pieces : List GoPiece) : Prop :=
  (∀ piece ∈ pieces, piece.ident = none) ∨
    (∀ piece ∈ pieces, piece.ident ≠ none) ∧ ∀ piece ∈ pieces.getLast?, ∃ name space type, piece = .typed name space type

structure LaidOut where
  before : GoGap
  piece : GoPiece
  after : GoGap

def LaidOut.text (p : LaidOut) : Text := p.before.text ++ (p.piece.text ++ p.after.text)

structure GoParams where
  list : List LaidOut
  /-- What follows the last comma, or stands in parentheses without parameters. -/
  trailing : Option GoGap
  valid : ValidPieces (list.map LaidOut.piece)
  /-- Only the blank name may be used again. -/
  distinct : (((list.filterMap fun p => p.piece.ident).map GoIdent.text).filter (· ≠ blankName)).Nodup

def GoParams.pieces (params : GoParams) : List GoPiece := params.list.map LaidOut.piece

def GoParams.text (params : GoParams) : Text :=
  [','].intercalate (params.list.map LaidOut.text ++ params.trailing.toList.map fun gap => gap.text)

inductive GoResult
  | none
  | bare (type : GoType)
  /-- `()`. -/
  | empty (gap : CGap)
  /-- In parentheses, with or without a name. -/
  | parenthesised (before : CGap) (ident : Option (GoIdent × CSpace)) (type : GoType) (after : CGap)

def GoResult.text : GoResult → Text
  | .none => []
  | .bare type => type.text
  | .empty gap => '(' :: (gap.text ++ [')'])
  | .parenthesised before ident type after =>
    '(' :: (before.text ++ ((ident.elim [] fun n => n.1.text ++ n.2.text) ++ (type.text ++ (after.text ++ [')']))))

def GoResult.type : GoResult → Option GoType
  | .none => .none
  | .bare type => some type
  | .empty _ => .none
  | .parenthesised _ _ type _ => some type

/-- `//go:wasmexport E` and `func G(params) result {`, with comments behind the line of the directive. -/
structure GoHeader where
  afterDirective : Space
  /-- `E`, a text without whitespace. -/
  exportName : Text
  exportName_ne : exportName ≠ []
  notSpace : ∀ c ∈ exportName, isJsSpace c = false
  beforeEol : Gap
  afterEol : CGap
  afterFunc : CSpace
  /-- `G`. -/
  func : GoIdent
  beforeParen : CGap
  params : GoParams
  afterParen : CGap
  result : GoResult
  beforeBrace : CGap

/-- The result as it is written, and what follows. -/
def GoHeader.ending (e : GoHeader) : Text := e.afterParen.text ++ (e.result.text ++ (e.beforeBrace.text ++ ['{']))

def GoHeader.text (e : GoHeader) : Text :=
  directive ++ (e.afterDirective.text ++ (e.exportName ++ (e.beforeEol.text ++ '\n' :: (e.afterEol.text ++
    (funcKeyword ++ (e.afterFunc.text ++ (e.func.text ++ (e.beforeParen.text ++ '(' :: (e.params.text ++ ')' ::
      e.ending)))))))))

/-- No later line begins with the directive. -/
structure GoExport extends GoHeader where
  single : ¬ '\n' :: directive <:+: toGoHeader.text

/-- Code and comments; no line begins with the directive. -/
structure OtherText where
  text : Text
  noDirective : ¬ '\n' :: directive <:+: '\n' :: text

inductive GoItem
  | other (text : OtherText)
  | exported (e : GoExport)

def goText : List GoItem → Text
  | [] => []
  | .other other :: items => other.text ++ goText items
  | .exported e :: items => e.text ++ goText items

/-- The exports, each with the source from its directive on. -/
def goExports : List GoItem → List (Text × GoExport)
  | [] => []
  | .other _ :: items => goExports items
  | .exported e :: items => (e.text ++ goText items, e) :: goExports items

/-! ## What is expected of a signature and of its wrapper -/

/-- Named `E`, with an entry for every declared parameter and the mapped types. -/
structure Described (e : GoExport) (sig : FnSig) : Prop where
  name : sig.name = e.exportName
  params : List.Forall₂ (fun (d : Option GoIdent × GoType) (p : Param) =>
    (∀ ident ∈ d.1, p.name = ident.text) ∧ p.type = d.2.zig) (declaredParams e.params.pieces) sig.params
  returns : sig.returns = (e.result.type.map GoType.zig).getD "void".toList

/-- The type of an argument of the call, which names a parameter of the wrapper. -/
def GoWrapper.argType (w : GoWrapper) (arg : Text) : Option Text :=
  if arg = blankName then none else w.params.lookup arg

def Denotes (text : Text) (type : GoType) : Prop := ∃ t : GoType, t.text = text ∧ t.canonical = type.canonical

/-- A name, as far as its characters go. -/
def IsGoName (text : Text) : Prop := text ≠ [] ∧ ∀ c ∈ text, isGoWordChar c = true

/-- Names stand where Go reads names. -/
structure GoWrapper.Lexical (w : GoWrapper) : Prop where
  symbol : IsGoName w.symbol
  params : ∀ p ∈ w.params, IsGoName p.1 ∧ IsGoName p.2
  result : ∀ type ∈ w.result, IsGoName type
  callee : IsGoName w.callee
  args : ∀ arg ∈ w.args, IsGoName arg

/-- The wrapper is a call of the declared function, with arguments and a result of the declared types. -/
structure CallsDeclared (e : GoExport) (w : GoWrapper) : Prop where
  lexical : w.Lexical
  callee : w.callee = e.func.text
  notShadowed : ∀ p ∈ w.params, p.1 ≠ w.callee
  args : List.Forall₂ (fun (d : Option GoIdent × GoType) arg => ∃ text, w.argType arg = some text ∧ Denotes text d.2)
    (declaredParams e.params.pieces) w.args
  result : match e.result.type with
    | none => w.result = none
    | some type => ∃ text, w.result = some text ∧ Denotes text type

/-- The signatures that are found, each with the source from its directive on. -/
def goExportsAt (source : Text) : Except Text (List (Text × FnSig)) :=
  allOk (fun found => (goSignature found.2).map fun sig => (found.1, sig)) (matchAll wasmexport source)

theorem parseGoExports_eq (source : Text) :
    parseGoExports source = (goExportsAt source).map (List.map Prod.snd) := (allOk_places goSignature _).symm

/-- Every export is found where it is declared, described as it is declared and called by its wrapper. -/
def ExportsMatch (items : List GoItem) : Prop :=
  ∃ found, goExportsAt (goText items) = .ok found ∧
    List.Forall₂ (fun (f : Text × FnSig) (e : Text × GoExport) =>
      f.1 = e.1 ∧ Described e.2 f.2 ∧ CallsDeclared e.2 (goWrapper f.2)) found (goExports items)

/-! ## When they are met -/

/-- Types that are the first of their size in the table. -/
def GoType.Sized (type : GoType) : Prop := type ≠ .int ∧ type ≠ .uint

/-- A name with a type of its own, both to be used as they are. -/
def GoPiece.Plain (func : GoIdent) : GoPiece → Prop
  | .typed name _ type => type.Sized ∧ name.text ≠ blankName ∧ name.text ≠ func.text
  | _ => False

/-- A name and a type that the parser reads: a comment stands behind them only, and behind whitespace. -/
def LaidOut.Read (p : LaidOut) : Prop :=
  match p.piece with
  | .typed _ space _ => p.before.Blank ∧ space.Blank ∧ (p.after.text = [] ∨ p.after.blank.text ≠ [])
  | _ => False

structure GoParams.Read (params : GoParams) : Prop where
  list : ∀ p ∈ params.list, p.Read
  trailing : ∀ gap ∈ params.trailing, gap.Blank

/-- No result, or one that stands bare behind whitespace. -/
def GoExport.PlainResult (e : GoExport) : Prop :=
  match e.result with
  | .none | .empty _ => True
  | .bare type => e.afterParen.Blank ∧ type.Sized
  | .parenthesised .. => False

/-- What the expression captures of the result. -/
def GoExport.captured (e : GoExport) : Option GoType :=
  match e.result with
  | .bare type => if e.afterParen.Blank then some type else none
  | _ => none

structure GoExport.Plain (e : GoExport) : Prop where
  sameName : e.exportName = e.func.text
  word : ∀ c ∈ e.exportName, isWordChar c = true
  afterEol : e.afterEol.Blank
  afterFunc : e.afterFunc.Blank
  beforeParen : e.beforeParen.Blank
  read : e.params.Read
  params : ∀ piece ∈ e.params.pieces, piece.Plain e.func
  result : e.PlainResult

/-- What the expression leaves of the export. -/
def GoExport.unmatched (e : GoExport) : Text :=
  match e.captured with
  | some _ => e.beforeBrace.text ++ ['{']
  | none => e.ending.dropWhile isJsSpace

/-- Every export is plain, and the regular expression matches nowhere else. -/
def OnlyPlain : List GoItem → Prop
  | [] => True
  | .other other :: items => NoMatch wasmexport other.text (goText items) ∧ OnlyPlain items
  | .exported e :: items => e.Plain ∧ NoMatch wasmexport e.unmatched (goText items) ∧ OnlyPlain items

/-! ## The end of a line -/

theorem mem_lineEnd {u : Unit} {s r : Text} (h : (u, r) ∈ lineEnd s) :
    ∃ gap : Gap, s = gap.text ++ r ∧ '\n' ∈ gap.text := by
  obtain ⟨_, t₁, hbefore, h⟩ := mem_bind.mp h
  obtain ⟨_, t₂, heol, h⟩ := mem_bind.mp h
  obtain ⟨_, t₃, hafter, h⟩ := mem_bind.mp h
  obtain ⟨_, rfl⟩ := mem_pure.mp h
  obtain ⟨before, _, rfl⟩ := mem_spaces hbefore
  obtain ⟨after, _, rfl⟩ := mem_spaces hafter
  cases mem_literal.mp heol
  refine ⟨⟨before.text ++ '\n' :: after.text, ?_⟩, ?_, List.mem_append_right _ List.mem_cons_self⟩
  · exact List.forall_mem_append.mpr ⟨before.blank, List.forall_mem_cons.mpr ⟨by decide, after.blank⟩⟩
  · simp only [List.append_assoc, List.cons_append, List.nil_append]

/-- The whitespace is cut at each of its characters, from the right. -/
theorem lineEnd_cons {c : Char} (hc : isJsSpace c = true) (s : Text) :
    lineEnd (c :: s) = lineEnd s ++ (do literal ['\n']; let _ ← spaces; pure () : Matcher Char Unit) (c :: s) := by
  change (greedy isJsSpace (c :: s)).flatMap _ = (greedy isJsSpace s).flatMap _ ++ _
  rw [greedy, if_pos hc, List.flatMap_append, List.flatMap_map]
  exact congrArg (_ ++ ·) (List.append_nil _)

theorem first_lineEnd (gap : Gap) (hmem : '\n' ∈ gap.text) {r : Text} (hr : Stops isJsSpace r) :
    lineEnd.first (gap.text ++ r) = some ((), r) := by
  obtain ⟨text, hblank⟩ := gap
  simp only at hmem ⊢
  induction text with
  | nil => cases hmem
  | cons c text ih =>
    obtain ⟨hc, htext⟩ := List.forall_mem_cons.mp hblank
    rw [List.cons_append, first, lineEnd_cons hc, List.head?_append]
    by_cases hlater : '\n' ∈ text
    · have hfirst := ih htext hlater
      rw [first] at hfirst
      rw [hfirst]
      rfl
    · have hnewline : c = '\n' := by
        rcases List.mem_cons.mp hmem with heq | hin
        · exact heq.symm
        · exact absurd hin hlater
      have hnone : lineEnd (text ++ r) = [] := by
        refine List.eq_nil_iff_forall_not_mem.mpr fun found hfound => ?_
        obtain ⟨blank, heq, hin⟩ := mem_lineEnd hfound
        rcases List.append_eq_append_iff.mp heq with ⟨more, hblank', hrest⟩ | ⟨more, htext', _⟩
        · cases more with
          | nil =>
            rw [List.append_nil] at hblank'
            exact hlater (hblank' ▸ hin)
          | cons d more =>
            have hd := blank.blank d (hblank' ▸ List.mem_append_right _ List.mem_cons_self)
            have hstop := hr d (by rw [hrest]; rfl)
            exact Bool.false_ne_true (hstop.symm.trans hd)
        · exact hlater (htext' ▸ List.mem_append_left _ hin)
      have hhere : (do literal ['\n']; let _ ← spaces; pure () : Matcher Char Unit).first ('\n' :: (text ++ r)) =
          some ((), r) :=
        first_bind (first_literal ['\n'] (text ++ r))
          (first_bind (first_spaces ⟨text, htext⟩ hr) (first_pure () r))
      rw [hnone, hnewline]
      exact hhere

/-! ## Headers the regular expression matches -/

def GoType.ident (type : GoType) : Ident where
  text := type.text
  start := by cases type <;> exact ⟨_, _, rfl, by decide⟩
  word := by cases type <;> exact List.all_eq_true.mp (by decide)

theorem isGoWordChar_notSpace {c : Char} (h : isGoWordChar c = true) : isJsSpace c = false := by
  rw [isGoWordChar, Bool.or_eq_true, Bool.and_eq_true, Bool.not_eq_true'] at h
  rcases h with hword | hletter
  · exact isJsSpace_eq_false hword
  · exact hletter.2

theorem GoIdent.notSpace (name : GoIdent) : ∀ c ∈ name.text, isJsSpace c = false := fun c hc =>
  isGoWordChar_notSpace (name.word c hc)

theorem GoIdent.notMem (name : GoIdent) {c : Char} (h : isGoWordChar c = false) : c ∉ name.text := fun hmem =>
  Bool.false_ne_true (h.symm.trans (name.word c hmem))

/-- A character of no name that the layout of parameters leaves out is not in a parameter. -/
theorem LaidOut.notMem (p : LaidOut) {c : Char} (hword : isGoWordChar c = false) (hgap : ∀ gap : GoGap, c ∉ gap.text) :
    c ∉ p.text := by
  have hascii : isWordChar c = false := by
    rw [isGoWordChar, Bool.or_eq_false_iff] at hword
    exact hword.1
  have hpiece : c ∉ p.piece.text := by
    cases p.piece with
    | typed name space type =>
      simp only [GoPiece.text, List.mem_append, not_or]
      exact ⟨name.notMem hword, hgap space.toGoGap, type.ident.notMem hascii⟩
    | grouped name => exact name.notMem hword
    | unnamed type => exact type.ident.notMem hascii
  simp only [LaidOut.text, List.mem_append, not_or]
  exact ⟨hgap p.before, hpiece, hgap p.after⟩

theorem GoParams.notMem_pieces (params : GoParams) {c : Char} (hword : isGoWordChar c = false)
    (hgap : ∀ gap : GoGap, c ∉ gap.text) :
    ∀ piece ∈ params.list.map LaidOut.text ++ params.trailing.toList.map fun gap => gap.text, c ∉ piece := by
  intro piece hpiece
  rcases List.mem_append.mp hpiece with hparam | htrailing
  · obtain ⟨p, _, rfl⟩ := List.mem_map.mp hparam
    exact p.notMem hword hgap
  · obtain ⟨gap, _, rfl⟩ := List.mem_map.mp htrailing
    exact hgap gap

theorem GoParams.noClose (params : GoParams) : ∀ c ∈ params.text, (c != ')') = true :=
  forall_bne (notMem_intercalate (by decide) (params.notMem_pieces (by decide) GoGap.noClose))

theorem identifier_eq_nil {c : Char} (h : isIdentStart c = false) (r : Text) : identifier (c :: r) = [] := by
  refine List.eq_nil_iff_forall_not_mem.mpr fun found hfound => ?_
  obtain ⟨d, ds, _, heq, hd, _⟩ := mem_headed.mp hfound
  rw [List.cons.injEq] at heq
  rw [← heq.1, h] at hd
  cases hd

theorem isGoWordChar_slash : isGoWordChar '/' = false := by decide

theorem dropWhile_cgap (gap : CGap) (rest : Text) :
    (gap.text ++ rest).dropWhile isJsSpace = if gap.Blank then rest.dropWhile isJsSpace else gap.comments ++ rest := by
  rw [← gap.blank_comments, List.append_assoc, List.dropWhile_append_of_pos gap.blank.blank]
  split
  · rename_i hblank
    rw [hblank, List.nil_append]
  · rename_i hcomments
    obtain ⟨more, hmore⟩ := gap.comments_of_not_blank hcomments
    rw [hmore]
    rfl

/-- Where no result is captured, what stands behind the parameters is no name. -/
theorem GoExport.ending_dropWhile {e : GoExport} (h : e.captured = none) :
    ∃ c cs, e.ending.dropWhile isJsSpace = c :: cs ∧ isJsSpace c = false ∧ isIdentStart c = false := by
  have hslash {gap : CGap} (hcomments : ¬ gap.Blank) (rest : Text) :
      ∃ c cs, gap.comments ++ rest = c :: cs ∧ isJsSpace c = false ∧ isIdentStart c = false := by
    obtain ⟨more, hmore⟩ := gap.comments_of_not_blank hcomments
    rw [hmore]
    exact ⟨_, _, rfl, by decide, by decide⟩
  rw [GoHeader.ending, dropWhile_cgap]
  split
  · rename_i hblank
    rw [GoExport.captured] at h
    cases hresult : e.result with
    | none =>
      rw [GoResult.text, List.nil_append, dropWhile_cgap]
      split
      · exact ⟨'{', [], rfl, by decide, by decide⟩
      · rename_i hcomments
        exact hslash hcomments _
    | bare type =>
      rw [hresult] at h
      simp only [if_pos hblank] at h
      cases h
    | empty gap => exact ⟨'(', _, rfl, by decide, by decide⟩
    | parenthesised before ident type after => exact ⟨'(', _, rfl, by decide, by decide⟩
  · rename_i hcomments
    exact hslash hcomments _

theorem bare_of_captured {e : GoExport} {type : GoType} (h : e.captured = some type) :
    e.result = .bare type ∧ e.afterParen.Blank := by
  rw [GoExport.captured] at h
  cases hresult : e.result with
  | bare type' =>
    rw [hresult] at h
    obtain ⟨hblank, heq⟩ := Option.ite_none_right_eq_some.mp h
    cases heq
    exact ⟨rfl, hblank⟩
  | _ =>
    rw [hresult] at h
    cases h

theorem first_resultName (e : GoExport) (rest : Text) :
    resultName.first (e.ending ++ rest) = some (e.captured.map GoType.text, e.unmatched ++ rest) := by
  rw [GoExport.unmatched]
  cases hcaptured : e.captured with
  | some type =>
    obtain ⟨hresult, hblank⟩ := bare_of_captured hcaptured
    rw [GoHeader.ending, hresult, hblank.text_eq]
    simp only [GoResult.text, List.append_assoc, List.cons_append, List.nil_append]
    exact first_bind (first_spaces e.afterParen.blank (stops_space_ident type.ident _))
      (first_optional_some (first_identifier type.ident
        (stops_cgap (fun _ h => isJsSpace_eq_false h) (by decide) e.beforeBrace (by decide) _)))
  | none =>
    obtain ⟨c, cs, hrest, hspace, hstart⟩ := GoExport.ending_dropWhile hcaptured
    have hending : e.ending ++ rest = e.ending.takeWhile isJsSpace ++ (c :: (cs ++ rest)) := by
      rw [← List.cons_append, ← hrest, ← List.append_assoc, List.takeWhile_append_dropWhile]
    have hblank : ∀ d ∈ e.ending.takeWhile isJsSpace, isJsSpace d = true := fun d hd => List.mem_takeWhile_imp hd
    rw [hending]
    simp only [hrest, List.cons_append]
    exact first_bind (first_greedy hblank (stops_cons hspace _)) (first_optional_none (identifier_eq_nil hstart _))

/-- The whitespace at the end of the line of the directive, and behind it. -/
def GoExport.lineGap (e : GoExport) : Gap where
  text := e.beforeEol.text ++ '\n' :: e.afterEol.blank.text
  blank := List.forall_mem_append.mpr ⟨e.beforeEol.blank, List.forall_mem_cons.mpr ⟨by decide, e.afterEol.blank.blank⟩⟩

/-- The text of an export in front of another text, with the comments kept apart from the whitespace. -/
theorem GoExport.text_append (e : GoExport) (rest : Text) :
    e.text ++ rest = directive ++ (e.afterDirective.text ++ (e.exportName ++ (e.lineGap.text ++ (e.afterEol.comments ++
      (funcKeyword ++ (e.afterFunc.blank.text ++ (e.afterFunc.comments ++ (e.func.text ++ (e.beforeParen.blank.text ++
        (e.beforeParen.comments ++ '(' :: (e.params.text ++ ')' :: (e.ending ++ rest)))))))))))) := by
  rw [GoHeader.text, ← e.afterEol.blank_comments, ← e.afterFunc.blank_comments, ← e.beforeParen.blank_comments]
  simp only [GoExport.lineGap, List.append_assoc, List.cons_append]

theorem stops_space_text {text : Text} (hne : text ≠ []) (h : ∀ c ∈ text, isJsSpace c = false) (r : Text) :
    Stops isJsSpace (text ++ r) := by
  obtain ⟨c, cs, rfl⟩ := List.exists_cons_of_ne_nil hne
  exact stops_cons (h c List.mem_cons_self) _

theorem first_word {text : Text} (hne : text ≠ []) (h : ∀ c ∈ text, isWordChar c = true) {r : Text}
    (hr : Stops isWordChar r) : (headed isWordChar isWordChar).first (text ++ r) = some (text, r) := by
  obtain ⟨c, cs, rfl⟩ := List.exists_cons_of_ne_nil hne
  obtain ⟨hc, hcs⟩ := List.forall_mem_cons.mp h
  exact first_headed hc hcs hr

theorem GoExport.lineGap_ne (e : GoExport) : e.lineGap.text ≠ [] :=
  List.append_ne_nil_of_right_ne_nil _ (List.cons_ne_nil _ _)

theorem GoExport.stops_lineGap (e : GoExport) (r : Text) : Stops isWordChar (e.lineGap.text ++ r) :=
  stops_word_space ⟨e.lineGap, e.lineGap_ne⟩ r

/-- What the expression needs of an export: names of words, and no comments up to the parameters. -/
structure GoExport.Matched (e : GoExport) : Prop where
  exportName : ∀ c ∈ e.exportName, isWordChar c = true
  func : ∀ c ∈ e.func.text, isWordChar c = true
  afterEol : e.afterEol.Blank
  afterFunc : e.afterFunc.Blank
  beforeParen : e.beforeParen.Blank

theorem CSpace.blank_ne {space : CSpace} (h : space.Blank) : space.blank.text ≠ [] := by
  rw [← CGap.Blank.text_eq h]
  exact space.nonempty

theorem wasmexport_first {e : GoExport} (h : e.Matched) (rest : Text) :
    wasmexport.first (e.text ++ rest) =
      some ((e.exportName, e.params.text, e.captured.map GoType.text), e.unmatched ++ rest) := by
  rw [e.text_append, h.afterEol, h.afterFunc, h.beforeParen, List.nil_append, List.nil_append, List.nil_append]
  apply first_bind (first_literal _ _)
  apply first_bind (first_someSpaces e.afterDirective (stops_space_text e.exportName_ne e.notSpace _))
  apply first_bind (first_word e.exportName_ne h.exportName (e.stops_lineGap _))
  apply first_bind (first_lineEnd e.lineGap (List.mem_append_right _ List.mem_cons_self) (stops_cons (by decide) _))
  apply first_bind (first_literal _ _)
  apply first_bind (first_someSpaces ⟨e.afterFunc.blank, CSpace.blank_ne h.afterFunc⟩
    (stops_space_text e.func.ne_nil e.func.notSpace _))
  apply first_bind (first_word e.func.ne_nil h.func (stops_word_gap e.beforeParen.blank (by decide) _))
  apply first_bind (first_spaces e.beforeParen.blank (stops_cons (by decide) _))
  apply first_bind (first_literal ['('] _)
  apply first_bind (first_greedy e.params.noClose (stops_cons (by decide) _))
  apply first_bind (first_literal [')'] _)
  apply first_bind (first_resultName e rest)
  exact first_pure _ _

theorem stops_notSpace {gap : Gap} (hne : gap.text ≠ []) (r : Text) :
    Stops (fun c => !isJsSpace c) (gap.text ++ r) := by
  obtain ⟨c, cs, heq⟩ := List.exists_cons_of_ne_nil hne
  rw [heq]
  refine stops_cons ?_ _
  rw [gap.blank c (heq ▸ List.mem_cons_self)]
  rfl

theorem notSpace_of_word {text : Text} (h : ∀ c ∈ text, isWordChar c = true) :
    ∀ c ∈ text, isJsSpace c = false := fun c hc => isJsSpace_eq_false (h c hc)

theorem stops_comments (gap : CGap) {r : Text} (hr : Stops isJsSpace r) : Stops isJsSpace (gap.comments ++ r) := by
  rcases gap.comments_cases with hnone | ⟨rest, hcomments⟩
  · rw [hnone]
    exact hr
  · rw [hcomments]
    exact stops_cons (by decide) _

/-- Nothing but a comment begins with a slash. -/
theorem blank_of_comments {gap : CGap} {c : Char} {r t : Text} (h : gap.comments ++ r = c :: t) (hc : c ≠ '/') :
    gap.Blank := by
  by_contra hcomments
  obtain ⟨rest, hrest⟩ := gap.comments_of_not_blank hcomments
  rw [hrest] at h
  exact hc (List.cons.inj h).1.symm

/-- Where the expression matches, both names are words and there are no comments up to the parameters. -/
theorem matched_of_wasmexport {e : GoExport} {rest : Text} (h : wasmexport (e.text ++ rest) ≠ []) : e.Matched := by
  obtain ⟨found, hmem⟩ := List.exists_mem_of_ne_nil _ h
  rw [e.text_append] at hmem
  obtain ⟨_, t₁, hdirective, hmem⟩ := mem_bind.mp hmem
  obtain ⟨_, t₂, hspace, hmem⟩ := mem_bind.mp hmem
  obtain ⟨name, t₃, hname, hmem⟩ := mem_bind.mp hmem
  obtain ⟨_, t₄, hline, hmem⟩ := mem_bind.mp hmem
  obtain ⟨_, t₅, hkeyword, hmem⟩ := mem_bind.mp hmem
  obtain ⟨_, t₆, hspace', hmem⟩ := mem_bind.mp hmem
  obtain ⟨func, t₇, hfunc, hmem⟩ := mem_bind.mp hmem
  obtain ⟨_, t₈, hgap, hmem⟩ := mem_bind.mp hmem
  obtain ⟨_, t₉, hparen, hmem⟩ := mem_bind.mp hmem
  obtain ⟨space, _, rfl⟩ := mem_someSpaces hspace
  obtain ⟨hname_ne, hname_word, rfl⟩ := mem_word hname
  obtain ⟨line, rfl, hnewline⟩ := mem_lineEnd hline
  obtain ⟨space', _, rfl⟩ := mem_someSpaces hspace'
  obtain ⟨hfunc_ne, hfunc_word, rfl⟩ := mem_word hfunc
  obtain ⟨gap, _, rfl⟩ := mem_spaces hgap
  cases mem_literal.mp hkeyword
  cases mem_literal.mp hparen
  have hafter := List.append_cancel_left (mem_literal.mp hdirective)
  have hfirst : e.exportName ++ _ = name ++ _ := @gap_unique e.afterDirective.toGap space.toGap _ _ hafter
    (stops_space_text e.exportName_ne e.notSpace _) (stops_space_text hname_ne (notSpace_of_word hname_word) _)
  have hexport := split_unique (p := fun c => !isJsSpace c) hfirst (by simpa using e.notSpace)
    (by simpa using notSpace_of_word hname_word) (stops_notSpace e.lineGap_ne _)
    (stops_notSpace (List.ne_nil_of_mem hnewline) _)
  have hkeywords := gap_unique hexport.2 (stops_comments e.afterEol (stops_cons (by decide) _)) (stops_cons (by decide) _)
  have hafterEol : e.afterEol.Blank := blank_of_comments hkeywords (by decide)
  rw [hafterEol, List.nil_append] at hkeywords
  have hsecond := @gap_unique e.afterFunc.blank space'.toGap _ _ (List.append_cancel_left hkeywords)
    (stops_comments e.afterFunc.toCGap (stops_space_text e.func.ne_nil e.func.notSpace _))
    (stops_space_text hfunc_ne (notSpace_of_word hfunc_word) _)
  have hafterFunc : e.afterFunc.Blank := by
    obtain ⟨c, cs, rfl⟩ := List.exists_cons_of_ne_nil hfunc_ne
    refine blank_of_comments hsecond ?_
    rintro rfl
    exact absurd (hfunc_word '/' List.mem_cons_self) (by decide)
  rw [hafterFunc, List.nil_append] at hsecond
  have hslash : Stops isGoWordChar (e.beforeParen.blank.text ++ (e.beforeParen.comments ++ '(' :: (e.params.text ++
      ')' :: (e.ending ++ rest)))) := by
    rw [← List.append_assoc, e.beforeParen.blank_comments]
    exact stops_cgap (fun _ => isGoWordChar_notSpace) (by decide) e.beforeParen (by decide) _
  have hdeclared := split_unique hsecond e.func.word (fun c hc => by rw [isGoWordChar, hfunc_word c hc]; rfl)
    hslash (stops_gap (fun _ => isGoWordChar_notSpace) _ (by decide) _)
  have hopen := gap_unique hdeclared.2 (stops_comments e.beforeParen (stops_cons (by decide) _)) (stops_cons (by decide) _)
  exact ⟨hexport.1 ▸ hname_word, hdeclared.1 ▸ hfunc_word, hafterEol, hafterFunc, blank_of_comments hopen (by decide)⟩

/-! ## The signature of an export -/

/-- A relation through a list in between is one element by element. -/
theorem exists_forall₂_iff {A B C : Type} {R : A → B → Prop} {S : B → C → Prop} {as : List A} {cs : List C} :
    (∃ bs, List.Forall₂ R as bs ∧ List.Forall₂ S bs cs) ↔ List.Forall₂ (fun a c => ∃ b, R a b ∧ S b c) as cs := by
  constructor
  · rintro ⟨bs, hR, hS⟩
    induction hR generalizing cs with
    | nil =>
      cases hS
      exact .nil
    | cons ha _ ih =>
      obtain ⟨c, cs', hc, hcs, rfl⟩ := List.forall₂_cons_left_iff.mp hS
      exact .cons ⟨_, ha, hc⟩ (ih hcs)
  · intro h
    induction h with
    | nil => exact ⟨[], .nil, .nil⟩
    | cons hhead _ ih =>
      obtain ⟨b, hR, hS⟩ := hhead
      obtain ⟨bs, hRs, hSs⟩ := ih
      exact ⟨b :: bs, .cons hR hRs, .cons hS hSs⟩

theorem GoType.lookup_text (type : GoType) : lookupType GO_TO_ZIG type.text = some type.zig := by
  cases type <;> decide +kernel

theorem goType_text (type : GoType) : goType (some type.text) = .ok type.zig := by
  have htrim : trim type.text = type.text := trim_eq_self type.ident.notSpace
  rw [goType, htrim, type.lookup_text]

/-- No type has a comment in its name, neither in the table nor among what objects inherit. -/
theorem lookupType_slash {key zig : Text} (h : lookupType GO_TO_ZIG key = some zig) : '/' ∉ key := by
  intro hslash
  have hkeys : ∀ entry ∈ GO_TO_ZIG ++ inheritedValues, '/' ∉ entry.1 := by decide +kernel
  have hother (entry : Text × Text) (hentry : entry ∈ GO_TO_ZIG ++ inheritedValues) : (key != entry.1) = true := by
    refine bne_iff_ne.mpr ?_
    rintro rfl
    exact hkeys entry hentry hslash
  have htable : GO_TO_ZIG.lookup key = none :=
    List.lookup_eq_none_iff.mpr fun entry hentry => hother entry (List.mem_append_left _ hentry)
  have hinherited : inheritedValues.lookup key = none :=
    List.lookup_eq_none_iff.mpr fun entry hentry => hother entry (List.mem_append_right _ hentry)
  rw [lookupType, htable, hinherited] at h
  cases h

theorem goType_slash {word zig : Text} (hword : IsWord word) (h : goType (some word) = .ok zig) : '/' ∉ word := by
  rw [goType, trim_eq_self hword.2] at h
  cases hlookup : lookupType GO_TO_ZIG word with
  | some zig' => exact lookupType_slash hlookup
  | none =>
    rw [hlookup] at h
    cases h

theorem goParam_trim (text : Text) : goParam (trim text) = goParam text := by rw [goParam, goParam, words_trim]

/-- A parameter that is read under a name has two words without comments in front. -/
theorem words_of_goParam {text : Text} {p : Param} (h : goParam text = .ok p)
    (hname : ∀ c ∈ p.name, isGoWordChar c = true) :
    ∃ first second more, words text = first :: second :: more ∧ '/' ∉ first ∧ '/' ∉ second := by
  rw [goParam] at h
  cases hwords : words text with
  | nil =>
    rw [hwords] at h
    cases h
  | cons first others =>
    cases others with
    | nil =>
      rw [hwords] at h
      cases h
    | cons second more =>
      rw [hwords] at h
      have hsecond : IsWord second := isWord_of_mem_words (hwords ▸ List.mem_cons_of_mem _ List.mem_cons_self)
      change (goType (some second)).map _ = _ at h
      cases htype : goType (some second) with
      | error message =>
        rw [htype] at h
        cases h
      | ok zig =>
        rw [htype] at h
        cases h
        refine ⟨first, second, more, rfl, fun hslash => ?_, goType_slash hsecond htype⟩
        exact Bool.false_ne_true (isGoWordChar_slash.symm.trans (hname '/' hslash))

/-- The first word of a piece. -/
def GoPiece.head : GoPiece → Text
  | .typed name _ _ => name.text
  | .grouped name => name.text
  | .unnamed type => type.text

/-- What stands behind it, up to the comma. -/
def LaidOut.tail (p : LaidOut) : Text :=
  match p.piece with
  | .typed _ space type => space.text ++ (type.text ++ p.after.text)
  | _ => p.after.text

theorem LaidOut.text_eq (p : LaidOut) : p.text = p.before.text ++ (p.piece.head ++ p.tail) := by
  rw [LaidOut.text, LaidOut.tail]
  cases p.piece with
  | typed name space type => simp only [GoPiece.text, GoPiece.head, List.append_assoc]
  | grouped name => rfl
  | unnamed type => rfl

theorem LaidOut.tail_typed {p : LaidOut} {name : GoIdent} {space : GoSpace} {type : GoType}
    (h : p.piece = .typed name space type) : p.tail = space.text ++ (type.text ++ p.after.text) := by
  rw [LaidOut.tail, h]

theorem GoPiece.head_ne (piece : GoPiece) : piece.head ≠ [] := by
  cases piece with
  | typed name space type => exact name.ne_nil
  | grouped name => exact name.ne_nil
  | unnamed type => exact type.ident.ne_nil

theorem GoPiece.head_notSpace (piece : GoPiece) : ∀ c ∈ piece.head, isJsSpace c = false := by
  cases piece with
  | typed name space type => exact name.notSpace
  | grouped name => exact name.notSpace
  | unnamed type => exact type.ident.notSpace

/-- Behind layout with a comment the first word has a slash. -/
theorem words_comment {gap : CGap} (h : ¬ gap.Blank) (rest : Text) :
    ∃ first more, words (gap.text ++ rest) = first :: more ∧ '/' ∈ first := by
  obtain ⟨comment, hcomment⟩ := gap.comments_of_not_blank h
  rw [← gap.blank_comments, hcomment, List.append_assoc, words_gap gap.blank.blank]
  exact @words_slash [] (List.forall_mem_nil _) (comment ++ rest)

/-- The words of layout behind a word and in front of more: a comment is in one of the first two. -/
theorem comment_in_words {word : Text} (hne : word ≠ []) (hword : ∀ c ∈ word, isJsSpace c = false) {gap : CGap}
    (hcomments : ¬ gap.Blank) {rest first second : Text} {more : List Text}
    (h : words (word ++ (gap.text ++ rest)) = first :: second :: more) : '/' ∈ first ∨ '/' ∈ second := by
  by_cases hblank : gap.blank.text = []
  · obtain ⟨comment, hcomment⟩ := gap.comments_of_not_blank hcomments
    obtain ⟨first', more', hwords, hslash⟩ := words_slash hword (comment ++ rest)
    rw [← gap.blank_comments, hblank, List.nil_append, hcomment, List.cons_append, hwords] at h
    rw [← (List.cons.inj h).1]
    exact Or.inl hslash
  · obtain ⟨second', more', hwords, hslash⟩ := words_comment hcomments rest
    have hbehind : words (gap.comments ++ rest) = second' :: more' := by
      rw [← hwords, ← words_gap gap.blank.blank, ← List.append_assoc, gap.blank_comments]
    rw [← gap.blank_comments, List.append_assoc, words_append_space word gap.blank.blank hblank,
      words_word hword hne, hbehind] at h
    rw [← (List.cons.inj (List.cons.inj h).2).1]
    exact Or.inr hslash

/-- If the parser finds two words without comments, they are a name and a type that it reads. -/
theorem read_of_words {p : LaidOut} {first second : Text} {more : List Text} (hwords : words p.text = first :: second :: more)
    (hfirst : '/' ∉ first) (hsecond : '/' ∉ second) : p.Read := by
  have hbefore : p.before.Blank := by
    by_contra hcomments
    obtain ⟨first', more', hslashed, hslash⟩ := words_comment hcomments (p.piece.head ++ p.tail)
    rw [← p.text_eq, hwords] at hslashed
    exact hfirst ((List.cons.inj hslashed).1 ▸ hslash)
  have hnoComment : ¬ ('/' ∈ first ∨ '/' ∈ second) := fun h => h.elim hfirst hsecond
  rw [p.text_eq, hbefore.text_eq, words_gap p.before.blank.blank] at hwords
  have hnone (hafter : p.tail = p.after.text) : False := by
    rw [hafter] at hwords
    by_cases hblank : p.after.Blank
    · rw [hblank.text_eq, words_trailing p.after.blank.blank, words_word p.piece.head_notSpace p.piece.head_ne] at hwords
      cases hwords
    · rw [← List.append_nil p.after.text] at hwords
      exact hnoComment (comment_in_words p.piece.head_ne p.piece.head_notSpace hblank hwords)
  rw [LaidOut.Read]
  cases hpiece : p.piece with
  | grouped name => exact hnone (by rw [LaidOut.tail, hpiece])
  | unnamed type => exact hnone (by rw [LaidOut.tail, hpiece])
  | typed name space type =>
    rw [LaidOut.tail_typed hpiece, hpiece] at hwords
    have hspace : space.Blank := by
      by_contra hcomments
      exact hnoComment (comment_in_words name.ne_nil name.notSpace hcomments hwords)
    refine ⟨hbefore, hspace, ?_⟩
    by_contra hafter
    obtain ⟨hne, hblank⟩ := not_or.mp hafter
    rw [not_not] at hblank
    have hsplit := p.after.blank_comments
    rw [hblank, List.nil_append] at hsplit
    obtain ⟨comment, hcomment⟩ := p.after.comments_cases.resolve_left (hsplit ▸ hne)
    obtain ⟨second', more', hslashed, hslash⟩ := words_slash type.ident.notSpace comment
    have hspace_ne : space.blank.text ≠ [] := hspace.text_eq ▸ space.nonempty
    rw [hspace.text_eq, ← hsplit, hcomment] at hwords
    change words (name.text ++ (space.blank.text ++ (type.ident.text ++ _))) = _ at hwords
    rw [words_append_space name.text space.blank.blank hspace_ne, words_word name.notSpace name.ne_nil, hslashed] at hwords
    exact hsecond ((List.cons.inj (List.cons.inj hwords).2).1 ▸ hslash)

/-- A name with its type, and the space between them. -/
abbrev TypedName : Type := GoIdent × GoSpace × GoType

def typedPiece (t : TypedName) : GoPiece := .typed t.1 t.2.1 t.2.2

theorem typedPiece_injective {t t' : TypedName} (h : typedPiece t = typedPiece t') : t = t' := by
  obtain ⟨hname, hspace, htype⟩ := GoPiece.typed.inj h
  exact Prod.ext hname (Prod.ext hspace htype)

def typedParam (t : TypedName) : Param := ⟨t.1.text, t.2.2.zig⟩

theorem goParam_of_read {p : LaidOut} (h : p.Read) :
    ∃ t, p.piece = typedPiece t ∧ goParam p.text = .ok (typedParam t) := by
  rw [LaidOut.Read] at h
  cases hpiece : p.piece with
  | grouped name =>
    rw [hpiece] at h
    exact absurd h id
  | unnamed type =>
    rw [hpiece] at h
    exact absurd h id
  | typed name space type =>
    rw [hpiece] at h
    obtain ⟨hbefore, hspace, hafter⟩ := h
    have hspace_ne : space.blank.text ≠ [] := hspace.text_eq ▸ space.nonempty
    have htype : ∃ more, words (type.text ++ p.after.text) = type.text :: more := by
      rcases hafter with hnone | hblank
      · rw [hnone, List.append_nil]
        exact ⟨[], words_word type.ident.notSpace type.ident.ne_nil⟩
      · rw [← p.after.blank_comments]
        exact ⟨_, words_cons type.ident.notSpace type.ident.ne_nil ⟨p.after.blank, hblank⟩ p.after.comments⟩
    obtain ⟨more, hmore⟩ := htype
    have hwords : words p.text = name.text :: type.text :: more := by
      rw [p.text_eq, LaidOut.tail_typed hpiece, hpiece, hbefore.text_eq, words_gap p.before.blank.blank, hspace.text_eq, ← hmore]
      exact words_cons name.notSpace name.ne_nil ⟨space.blank, hspace_ne⟩ _
    refine ⟨(name, space, type), rfl, ?_⟩
    rw [goParam, hwords]
    exact congrArg (Except.map _) (goType_text type)

theorem trim_ne_nil {text : Text} {c : Char} (hc : c ∈ text) (hspace : isJsSpace c = false) : trim text ≠ [] := by
  intro hnil
  have hwords := words_trim text
  rw [hnil, words_nil] at hwords
  rcases mem_words_of_mem hc with hblank | ⟨w, hw, _⟩
  · exact Bool.false_ne_true (hspace.symm.trans hblank)
  · rw [← hwords] at hw
    cases hw

theorem LaidOut.trim_ne (p : LaidOut) : trim p.text ≠ [] := by
  obtain ⟨c, cs, hhead⟩ := List.exists_cons_of_ne_nil p.piece.head_ne
  have hc : c ∈ p.piece.head := hhead ▸ List.mem_cons_self
  refine trim_ne_nil ?_ (p.piece.head_notSpace c hc)
  rw [p.text_eq]
  exact List.mem_append_right _ (List.mem_append_left _ hc)

theorem GoParams.commaPieces_text (params : GoParams) : commaPieces params.text =
    params.list.map (fun p => trim p.text) ++ (params.trailing.toList.map fun gap => trim gap.text).filter (· ≠ []) := by
  have hkept : ∀ piece ∈ params.list.map fun p => trim p.text, decide (piece ≠ []) = true := by
    intro piece hpiece
    obtain ⟨p, _, rfl⟩ := List.mem_map.mp hpiece
    exact decide_eq_true p.trim_ne
  rw [GoParams.text, commaPieces_intercalate (params.notMem_pieces (by decide) GoGap.noComma), List.map_append,
    List.filter_append, List.map_map, List.map_map]
  exact congrArg (· ++ _) (List.filter_eq_self.mpr hkept)

theorem GoParams.Read.exists_typed {params : GoParams} (h : params.Read) :
    ∃ ts : List TypedName, params.pieces = ts.map typedPiece := by
  have hlist := h.list
  rw [GoParams.pieces]
  generalize params.list = list at hlist
  induction list with
  | nil => exact ⟨[], rfl⟩
  | cons p list ih =>
    obtain ⟨hp, hothers⟩ := List.forall_mem_cons.mp hlist
    obtain ⟨t, ht, _⟩ := goParam_of_read hp
    obtain ⟨ts, hts⟩ := ih hothers
    exact ⟨t :: ts, by rw [List.map_cons, List.map_cons, ht, hts]⟩

theorem allOk_typed {params : GoParams} (h : params.Read) {ts : List TypedName} (hts : params.pieces = ts.map typedPiece) :
    allOk goParam (commaPieces params.text) = .ok (ts.map typedParam) := by
  have htrailing : (params.trailing.toList.map fun gap => trim gap.text).filter (· ≠ []) = [] := by
    refine List.filter_eq_nil_iff.mpr fun piece hpiece => ?_
    obtain ⟨gap, hgap, rfl⟩ := List.mem_map.mp hpiece
    have hblank := h.trailing gap (Option.mem_toList.mp hgap)
    rw [hblank.text_eq, trim_blank gap.blank.blank]
    decide
  rw [params.commaPieces_text, htrailing, List.append_nil, allOk_iff, List.forall₂_map_left_iff, List.forall₂_map_right_iff]
  have hread := h.list
  rw [GoParams.pieces] at hts
  generalize params.list = list at hread hts
  induction list generalizing ts with
  | nil =>
    rw [List.map_eq_nil_iff.mp hts.symm]
    exact .nil
  | cons p list ih =>
    cases ts with
    | nil => cases hts
    | cons t ts =>
      obtain ⟨hpiece, hpieces⟩ := List.cons.inj hts
      obtain ⟨hp, hlist⟩ := List.forall_mem_cons.mp hread
      obtain ⟨t', ht', hparam⟩ := goParam_of_read hp
      have hsame : t' = t := typedPiece_injective (ht'.symm.trans hpiece)
      refine .cons ?_ (ih hlist hpieces)
      rw [goParam_trim, hparam, hsame]

/-- Parameters under names that Go reads are found exactly if the parser reads what is written. -/
theorem goParams_ok_iff {params : GoParams} {ps : List Param} :
    (allOk goParam (commaPieces params.text) = .ok ps ∧ ∀ p ∈ ps, ∀ c ∈ p.name, isGoWordChar c = true) ↔
      params.Read ∧ ∃ ts : List TypedName, params.pieces = ts.map typedPiece ∧ ps = ts.map typedParam := by
  constructor
  · rintro ⟨hok, hnames⟩
    have hwords : ∀ piece ∈ commaPieces params.text, ∃ first second more,
        words piece = first :: second :: more ∧ '/' ∉ first ∧ '/' ∉ second := by
      intro piece hpiece
      obtain ⟨p, hp, hparam⟩ := exists_of_forall₂ (allOk_iff.mp hok) hpiece
      exact words_of_goParam hparam (hnames p hp)
    rw [params.commaPieces_text] at hwords
    have hread : params.Read := by
      refine ⟨fun p hp => ?_, fun gap hgap => ?_⟩
      · obtain ⟨first, second, more, hfound, hfirst, hsecond⟩ :=
          hwords (trim p.text) (List.mem_append_left _ (List.mem_map.mpr ⟨p, hp, rfl⟩))
        rw [words_trim] at hfound
        exact read_of_words hfound hfirst hsecond
      · by_contra hcomments
        obtain ⟨comment, hcomment⟩ := gap.comments_of_not_blank hcomments
        have hslash : '/' ∈ gap.text := by
          rw [← gap.blank_comments, hcomment]
          exact List.mem_append_right _ List.mem_cons_self
        have hkept : trim gap.text ∈ (params.trailing.toList.map fun gap => trim gap.text).filter (· ≠ []) :=
          List.mem_filter.mpr ⟨List.mem_map.mpr ⟨gap, Option.mem_toList.mpr hgap, rfl⟩,
            decide_eq_true (trim_ne_nil hslash (by decide))⟩
        obtain ⟨first, second, more, hfound, hfirst, _⟩ := hwords _ (List.mem_append_right _ hkept)
        obtain ⟨first', more', hslashed, hin⟩ := words_comment hcomments []
        rw [List.append_nil, ← words_trim, hfound] at hslashed
        exact hfirst ((List.cons.inj hslashed).1 ▸ hin)
    obtain ⟨ts, hts⟩ := hread.exists_typed
    rw [allOk_typed hread hts] at hok
    exact ⟨hread, ts, hts, (Except.ok.inj hok).symm⟩
  · rintro ⟨hread, ts, hts, rfl⟩
    refine ⟨allOk_typed hread hts, fun p hp => ?_⟩
    obtain ⟨t, _, rfl⟩ := List.mem_map.mp hp
    exact t.1.word

/-- What the parser takes for the result. -/
def GoExport.seen (e : GoExport) : Text := (e.captured.map GoType.zig).getD "void".toList

/-- The signature of an export whose parameters all have a name and a type. -/
def typedSig (e : GoExport) (ts : List TypedName) : FnSig :=
  ⟨e.exportName, ts.map typedParam, e.seen, some (cgoPrefix ++ e.exportName)⟩

theorem goSignature_ok_iff {e : GoExport} {sig : FnSig} :
    (goSignature (e.exportName, e.params.text, e.captured.map GoType.text) = .ok sig ∧
        ∀ p ∈ sig.params, ∀ c ∈ p.name, isGoWordChar c = true) ↔
      e.params.Read ∧ ∃ ts : List TypedName, e.params.pieces = ts.map typedPiece ∧ sig = typedSig e ts := by
  have hreturns : goReturns (e.captured.map GoType.text) = .ok e.seen := by
    rw [GoExport.seen]
    cases e.captured with
    | some type => exact goType_text type
    | none => rfl
  rw [goSignature, hreturns]
  cases hparams : allOk goParam (commaPieces e.params.text) with
  | error message =>
    refine iff_of_false (fun h => nomatch h.1) ?_
    rintro ⟨hread, ts, hts, _⟩
    rw [allOk_typed hread hts] at hparams
    cases hparams
  | ok params =>
    constructor
    · rintro ⟨hsig, hnames⟩
      cases hsig
      obtain ⟨hread, ts, hts, rfl⟩ := goParams_ok_iff.mp ⟨hparams, hnames⟩
      exact ⟨hread, ts, hts, rfl⟩
    · rintro ⟨hread, ts, hts, rfl⟩
      have hok := goParams_ok_iff.mpr ⟨hread, ts, hts, rfl⟩
      rw [hparams] at hok
      rw [Except.ok.inj hok.1]
      exact ⟨rfl, hok.2⟩

/-! ## The wrapper of an export -/

theorem declaredParams_typed (ts : List TypedName) :
    declaredParams (ts.map typedPiece) = ts.map fun t => (some t.1, t.2.2) := by
  induction ts with
  | nil => rfl
  | cons t ts ih => exact congrArg _ ih

/-- A name that may be used only once names the one value it stands with. -/
theorem lookup_of_distinct {B : Type} {entries : List (Text × B)} {key : Text} {b : B}
    (hdistinct : ((entries.map Prod.fst).filter (· ≠ blankName)).Nodup) (hkey : key ≠ blankName)
    (hmem : (key, b) ∈ entries) : entries.lookup key = some b := by
  induction entries with
  | nil => cases hmem
  | cons entry entries ih =>
    obtain ⟨key', b'⟩ := entry
    rw [List.map_cons, List.filter_cons] at hdistinct
    rcases List.mem_cons.mp hmem with heq | hlater
    · cases heq
      exact List.lookup_cons_self
    · have hin : key ∈ (entries.map Prod.fst).filter (· ≠ blankName) :=
        List.mem_filter.mpr ⟨List.mem_map.mpr ⟨_, hlater, rfl⟩, decide_eq_true hkey⟩
      have hne : key ≠ key' := by
        rintro rfl
        rw [if_pos (decide_eq_true hkey)] at hdistinct
        exact (List.nodup_cons.mp hdistinct).1 hin
      have hrest : ((entries.map Prod.fst).filter (· ≠ blankName)).Nodup := by
        split at hdistinct
        · exact (List.nodup_cons.mp hdistinct).2
        · exact hdistinct
      rw [List.lookup_cons, beq_false_of_ne hne]
      exact ih hrest hlater

def allGoTypes : List GoType :=
  [.float64, .float32, .int8, .int16, .int32, .int64, .int, .uint8, .uint16, .uint32, .uint64, .uint, .byte, .bool]

theorem find_goType (type : GoType) : allGoTypes.find? (fun t => t.text = type.text) = some type := by
  cases type <;> decide +kernel

theorem GoType.text_injective {type other : GoType} (h : type.text = other.text) : type = other := by
  have hfind := find_goType type
  rw [h, find_goType other, Option.some.injEq] at hfind
  exact hfind.symm

/-- The type the table gives back for what it has made of a type. -/
def GoType.back : GoType → GoType
  | .int => .int64
  | .uint => .uint64
  | .byte => .uint8
  | type => type

theorem goName_zig (type : GoType) : goName type.zig = type.back.text := by
  cases type <;> decide +kernel

theorem denotes_goName (type : GoType) : Denotes (goName type.zig) type ↔ type.Sized := by
  have hback : type.back.canonical = type.canonical ↔ type.Sized := by
    unfold GoType.Sized
    cases type <;> decide
  rw [← hback, goName_zig]
  constructor
  · rintro ⟨t, ht, hcanonical⟩
    rwa [GoType.text_injective ht] at hcanonical
  · exact fun h => ⟨type.back, rfl, h⟩

theorem zig_ne_void (type : GoType) : type.zig ≠ "void".toList := by
  cases type <;> decide +kernel

theorem idents_typed {e : GoExport} {ts : List TypedName} (hts : e.params.pieces = ts.map typedPiece) :
    ((ts.map fun t => t.1.text).filter (· ≠ blankName)).Nodup := by
  have hidents : (e.params.list.filterMap fun p => p.piece.ident).map GoIdent.text = ts.map fun t => t.1.text := by
    have hpieces : (e.params.list.map LaidOut.piece).filterMap GoPiece.ident = ts.map Prod.fst := by
      have hsome : (ts.map typedPiece).filterMap GoPiece.ident = ts.map Prod.fst := by
        rw [List.filterMap_map]
        exact congrFun (List.filterMap_eq_map' (f := Prod.fst)) ts
      exact (congrArg (List.filterMap GoPiece.ident) hts).trans hsome
    rw [List.filterMap_map] at hpieces
    rw [show (e.params.list.filterMap fun p => p.piece.ident) = ts.map Prod.fst from hpieces, List.map_map]
    rfl
  have hdistinct := e.params.distinct
  rwa [hidents] at hdistinct

/-- The wrapper's parameters are those of the signature, with the types turned back. -/
theorem argType_typed {e : GoExport} {ts : List TypedName} (hts : e.params.pieces = ts.map typedPiece)
    {w : GoWrapper} (hparams : w.params = ts.map fun t => (t.1.text, goName t.2.2.zig)) {t : TypedName} (ht : t ∈ ts) :
    w.argType t.1.text = if t.1.text = blankName then none else some (goName t.2.2.zig) := by
  rw [GoWrapper.argType]
  split
  · rfl
  · rename_i hne
    rw [hparams]
    refine lookup_of_distinct ?_ hne (List.mem_map.mpr ⟨t, ht, rfl⟩)
    rw [List.map_map]
    exact idents_typed hts

theorem goWrapper_params (e : GoExport) (ts : List TypedName) :
    (goWrapper (typedSig e ts)).params = ts.map fun t => (t.1.text, goName t.2.2.zig) := List.map_map

theorem goWrapper_args (e : GoExport) (ts : List TypedName) :
    (goWrapper (typedSig e ts)).args = ts.map fun t => t.1.text := List.map_map

theorem described_params {e : GoExport} {ts : List TypedName} (hts : e.params.pieces = ts.map typedPiece) :
    List.Forall₂ (fun (d : Option GoIdent × GoType) (p : Param) =>
      (∀ ident ∈ d.1, p.name = ident.text) ∧ p.type = d.2.zig) (declaredParams e.params.pieces)
        (typedSig e ts).params := by
  rw [hts, declaredParams_typed, typedSig, List.forall₂_map_left_iff, List.forall₂_map_right_iff, List.forall₂_same]
  intro t _
  refine ⟨fun ident hident => ?_, rfl⟩
  rw [← Option.some.inj hident]
  rfl

theorem args_iff {e : GoExport} {ts : List TypedName} (hts : e.params.pieces = ts.map typedPiece) :
    List.Forall₂ (fun (d : Option GoIdent × GoType) arg =>
        ∃ text, (goWrapper (typedSig e ts)).argType arg = some text ∧ Denotes text d.2)
      (declaredParams e.params.pieces) (goWrapper (typedSig e ts)).args ↔
        ∀ t ∈ ts, t.2.2.Sized ∧ t.1.text ≠ blankName := by
  have hdeclared : declaredParams e.params.pieces = ts.map fun t => (some t.1, t.2.2) := by
    rw [hts, declaredParams_typed]
  rw [hdeclared, goWrapper_args, List.forall₂_map_left_iff, List.forall₂_map_right_iff, List.forall₂_same]
  refine forall₂_congr fun t ht => ?_
  rw [argType_typed hts (goWrapper_params e ts) ht]
  by_cases hblank : t.1.text = blankName
  · rw [if_pos hblank]
    refine iff_of_false ?_ fun h => h.2 hblank
    rintro ⟨text, hnone, _⟩
    cases hnone
  · rw [if_neg hblank, and_iff_left hblank, ← denotes_goName]
    constructor
    · rintro ⟨text, htext, hdenotes⟩
      rwa [← Option.some.inj htext] at hdenotes
    · exact fun h => ⟨_, rfl, h⟩

theorem goWrapper_result (e : GoExport) (ts : List TypedName) :
    (goWrapper (typedSig e ts)).result = e.captured.map fun type => goName type.zig := by
  change (if e.seen = "void".toList then none else some (goName e.seen)) = _
  rw [GoExport.seen]
  cases e.captured with
  | none => exact if_pos rfl
  | some type => exact if_neg (zig_ne_void type)

/-- The result is found and returned exactly if it is none or a bare one behind whitespace. -/
theorem result_iff (e : GoExport) (ts : List TypedName) :
    (typedSig e ts).returns = (e.result.type.map GoType.zig).getD "void".toList ∧
        (match e.result.type with
          | none => (goWrapper (typedSig e ts)).result = none
          | some type => ∃ text, (goWrapper (typedSig e ts)).result = some text ∧ Denotes text type) ↔
      e.PlainResult := by
  have hvoid {type : GoType} (h : e.captured = none) : e.seen ≠ type.zig := by
    rw [GoExport.seen, h]
    exact (zig_ne_void type).symm
  rw [goWrapper_result, show (typedSig e ts).returns = e.seen from rfl, GoExport.PlainResult]
  have hcaptured : e.captured = match e.result with
    | .bare type => if e.afterParen.Blank then some type else none
    | _ => none := rfl
  cases hresult : e.result with
  | none =>
    rw [hresult] at hcaptured
    rw [GoExport.seen, hcaptured]
    exact iff_of_true ⟨rfl, rfl⟩ trivial
  | empty gap =>
    rw [hresult] at hcaptured
    rw [GoExport.seen, hcaptured]
    exact iff_of_true ⟨rfl, rfl⟩ trivial
  | parenthesised before ident type after =>
    rw [hresult] at hcaptured
    exact iff_of_false (fun h => hvoid hcaptured h.1) id
  | bare type =>
    rw [hresult] at hcaptured
    by_cases hblank : e.afterParen.Blank
    · have hsome : e.captured = some type := hcaptured.trans (if_pos hblank)
      rw [GoExport.seen, hsome]
      change (type.zig = type.zig ∧ ∃ text, some (goName type.zig) = some text ∧ Denotes text type) ↔
        e.afterParen.Blank ∧ type.Sized
      rw [eq_self_iff_true, true_and, and_iff_right hblank, ← denotes_goName]
      constructor
      · rintro ⟨text, htext, hdenotes⟩
        rwa [← Option.some.inj htext] at hdenotes
      · exact fun h => ⟨_, rfl, h⟩
    · exact iff_of_false (fun h => hvoid (hcaptured.trans (if_neg hblank)) h.1) (fun h => hblank h.1)

theorem isGoName_goType (type : GoType) : IsGoName type.text :=
  ⟨type.ident.ne_nil, fun c hc => by rw [isGoWordChar, type.ident.word c hc]; rfl⟩

theorem isGoName_goName (type : GoType) : IsGoName (goName type.zig) := goName_zig type ▸ isGoName_goType type.back

theorem GoIdent.isGoName (name : GoIdent) : IsGoName name.text := ⟨name.ne_nil, name.word⟩

theorem goWrapper_lexical {e : GoExport} (hname : e.exportName = e.func.text) (ts : List TypedName) :
    (goWrapper (typedSig e ts)).Lexical where
  symbol := by
    change IsGoName (cgoPrefix ++ e.exportName)
    rw [hname]
    exact ⟨List.cons_ne_nil _ _, List.forall_mem_append.mpr ⟨List.all_eq_true.mp (by decide), e.func.word⟩⟩
  params := by
    intro p hp
    rw [goWrapper_params] at hp
    obtain ⟨t, _, rfl⟩ := List.mem_map.mp hp
    exact ⟨t.1.isGoName, isGoName_goName t.2.2⟩
  result := by
    intro text htext
    rw [goWrapper_result] at htext
    obtain ⟨type, _, rfl⟩ := Option.map_eq_some_iff.mp htext
    exact isGoName_goName type
  callee := by
    change IsGoName e.exportName
    rw [hname]
    exact e.func.isGoName
  args := by
    intro arg harg
    rw [goWrapper_args] at harg
    obtain ⟨t, _, rfl⟩ := List.mem_map.mp harg
    exact t.1.isGoName

/-- The names of a signature are those of its wrapper. -/
theorem names_of_lexical {sig : FnSig} (h : (goWrapper sig).Lexical) : ∀ p ∈ sig.params, ∀ c ∈ p.name, isGoWordChar c = true :=
  fun p hp => (h.args p.name (List.mem_map.mpr ⟨p, hp, rfl⟩)).2

/-- What stands behind the first entry of a list between commas. -/
def listTail (entries : List Text) : Text := entries.flatMap fun entry => ',' :: ' ' :: entry

theorem intercalate_cons_eq (entry : Text) (entries : List Text) :
    [',', ' '].intercalate (entry :: entries) = entry ++ listTail entries := by
  induction entries generalizing entry with
  | nil => rw [List.intercalate_singleton, listTail, List.flatMap_nil, List.append_nil]
  | cons next entries ih =>
    rw [List.intercalate_cons_cons, ih next, listTail, listTail, List.flatMap_cons]
    exact List.append_assoc _ _ _

/-- An entry of a list between commas. -/
def IsEntry (entry : Text) : Prop := entry ≠ [] ∧ ∀ c ∈ entry, (c != ',') = true

theorem stops_listTail (entries : List Text) : Stops (fun c => c != ',') (listTail entries) := by
  cases entries with
  | nil => exact fun c hc => nomatch hc
  | cons entry entries => exact stops_cons (by decide) _

theorem listTail_injective {xs ys : List Text} (hx : ∀ x ∈ xs, IsEntry x) (hy : ∀ y ∈ ys, IsEntry y)
    (h : listTail xs = listTail ys) : xs = ys := by
  induction xs generalizing ys with
  | nil =>
    cases ys with
    | nil => rfl
    | cons y ys => cases h
  | cons x xs ih =>
    cases ys with
    | nil => cases h
    | cons y ys =>
      obtain ⟨hx₀, hxs⟩ := List.forall_mem_cons.mp hx
      obtain ⟨hy₀, hys⟩ := List.forall_mem_cons.mp hy
      have hentries : x ++ listTail xs = y ++ listTail ys := (List.cons.inj (List.cons.inj h).2).2
      obtain ⟨hentry, htail⟩ := split_unique hentries hx₀.2 hy₀.2 (stops_listTail xs) (stops_listTail ys)
      rw [hentry, ih hxs hys htail]

theorem intercalate_injective {xs ys : List Text} (hx : ∀ x ∈ xs, IsEntry x) (hy : ∀ y ∈ ys, IsEntry y)
    (h : [',', ' '].intercalate xs = [',', ' '].intercalate ys) : xs = ys := by
  have hnil {z : Text} {zs : List Text} (hz : ∀ x ∈ z :: zs, IsEntry x) : [',', ' '].intercalate (z :: zs) ≠ [] := by
    rw [intercalate_cons_eq]
    exact List.append_ne_nil_of_left_ne_nil (hz z List.mem_cons_self).1 _
  cases xs with
  | nil =>
    cases ys with
    | nil => rfl
    | cons y ys => exact absurd h.symm (hnil hy)
  | cons x xs =>
    cases ys with
    | nil => exact absurd h (hnil hx)
    | cons y ys =>
      apply listTail_injective hx hy
      change ',' :: ' ' :: (x ++ listTail xs) = ',' :: ' ' :: (y ++ listTail ys)
      rw [← intercalate_cons_eq, ← intercalate_cons_eq, h]

theorem mem_commaList {c : Char} {entries : List Text} (h : c ∈ [',', ' '].intercalate entries) :
    c = ',' ∨ c = ' ' ∨ ∃ entry ∈ entries, c ∈ entry := by
  cases entries with
  | nil => cases h
  | cons entry entries =>
    rw [intercalate_cons_eq, List.mem_append, listTail, List.mem_flatMap] at h
    rcases h with hentry | ⟨later, hlater, hmem⟩
    · exact Or.inr (Or.inr ⟨entry, List.mem_cons_self, hentry⟩)
    · rcases List.mem_cons.mp hmem with hcomma | hmem
      · exact Or.inl hcomma
      · rcases List.mem_cons.mp hmem with hspace | hmem
        · exact Or.inr (Or.inl hspace)
        · exact Or.inr (Or.inr ⟨later, List.mem_cons_of_mem _ hlater, hmem⟩)

theorem IsGoName.ne {name : Text} (h : IsGoName name) {c d : Char} (hd : isGoWordChar d = false) (hc : c ∈ name) :
    (c != d) = true := by
  refine bne_iff_ne.mpr ?_
  rintro rfl
  exact Bool.false_ne_true (hd.symm.trans (h.2 c hc))

theorem map_paramText_injective {ps qs : List (Text × Text)} (hp : ∀ p ∈ ps, IsGoName p.1) (hq : ∀ q ∈ qs, IsGoName q.1)
    (h : ps.map paramText = qs.map paramText) : ps = qs := by
  induction ps generalizing qs with
  | nil => exact (List.map_eq_nil_iff.mp h.symm).symm
  | cons p ps ih =>
    cases qs with
    | nil => cases h
    | cons q qs =>
      obtain ⟨hp₀, hps⟩ := List.forall_mem_cons.mp hp
      obtain ⟨hq₀, hqs⟩ := List.forall_mem_cons.mp hq
      obtain ⟨hhead, htail⟩ := List.cons.inj h
      obtain ⟨hname, htype⟩ := split_unique hhead hp₀.2 hq₀.2 (stops_cons (by decide) _) (stops_cons (by decide) _)
      rw [ih hps hqs htail, Prod.ext hname (List.cons.inj htype).2]

namespace GoWrapper

theorem Lexical.paramChars {w : GoWrapper} (h : w.Lexical) {d : Char} (hword : isGoWordChar d = false) (hspace : d ≠ ' ')
    {p : Text × Text} (hp : p ∈ w.params) : ∀ c ∈ paramText p, (c != d) = true := by
  obtain ⟨hname, htype⟩ := h.params p hp
  refine List.forall_mem_append.mpr ⟨fun c hc => hname.ne hword hc, ?_⟩
  exact List.forall_mem_cons.mpr ⟨bne_iff_ne.mpr hspace.symm, fun c hc => htype.ne hword hc⟩

theorem Lexical.paramEntries {w : GoWrapper} (h : w.Lexical) : ∀ entry ∈ w.params.map paramText, IsEntry entry := by
  intro entry hentry
  obtain ⟨p, hp, rfl⟩ := List.mem_map.mp hentry
  exact ⟨List.append_ne_nil_of_left_ne_nil (h.params p hp).1.1 _, h.paramChars (by decide) (by decide) hp⟩

theorem Lexical.argEntries {w : GoWrapper} (h : w.Lexical) : ∀ entry ∈ w.args, IsEntry entry := fun entry hentry =>
  ⟨(h.args entry hentry).1, fun _ hc => (h.args entry hentry).ne (by decide) hc⟩

theorem Lexical.paramsOpen {w : GoWrapper} (h : w.Lexical) :
    ∀ c ∈ [',', ' '].intercalate (w.params.map paramText), (c != ')') = true := by
  intro c hc
  rcases mem_commaList hc with rfl | rfl | ⟨entry, hentry, hc⟩
  · decide
  · decide
  · obtain ⟨p, hp, rfl⟩ := List.mem_map.mp hentry
    exact h.paramChars (by decide) (by decide) hp c hc

theorem callText_injective {w w' : GoWrapper} (h : w.Lexical) (h' : w'.Lexical) (heq : w.callText = w'.callText) :
    w.callee = w'.callee ∧ w.args = w'.args := by
  obtain ⟨hcallee, hargs⟩ :=
    split_unique heq h.callee.2 h'.callee.2 (stops_cons (by decide) _) (stops_cons (by decide) _)
  exact ⟨hcallee, intercalate_injective h.argEntries h'.argEntries (List.append_cancel_right (List.cons.inj hargs).2)⟩

theorem result_injective {w w' : GoWrapper} (h : w.Lexical) (h' : w'.Lexical)
    (heq : w.result.getD [] = w'.result.getD []) : w.result = w'.result := by
  cases hresult : w.result with
  | none =>
    cases hresult' : w'.result with
    | none => rfl
    | some type =>
      rw [hresult, hresult'] at heq
      exact absurd heq.symm (h'.result type hresult').1
  | some type =>
    cases hresult' : w'.result with
    | none =>
      rw [hresult, hresult'] at heq
      exact absurd heq (h.result type hresult).1
    | some type' =>
      rw [hresult, hresult'] at heq
      exact congrArg some heq

theorem Lexical.resultChars {w : GoWrapper} (h : w.Lexical) : ∀ c ∈ w.result.getD [], isGoWordChar c = true := by
  intro c hc
  cases hresult : w.result with
  | none =>
    rw [hresult] at hc
    cases hc
  | some type =>
    rw [hresult] at hc
    exact (h.result type hresult).2 c hc

/-- Nothing is lost by judging a wrapper by its parts: they can be read off its text. -/
theorem text_injective {w w' : GoWrapper} (h : w.Lexical) (h' : w'.Lexical) (heq : w.text = w'.text) : w = w' := by
  have hbehind := List.append_cancel_left heq
  obtain ⟨hsymbol, hbehind⟩ :=
    split_unique hbehind h.symbol.2 h'.symbol.2 (stops_cons (by decide) _) (stops_cons (by decide) _)
  have hbehind := List.append_cancel_left hbehind
  rw [hsymbol] at hbehind
  have hbehind := (List.cons.inj (List.append_cancel_left hbehind)).2
  obtain ⟨hparams, hbehind⟩ :=
    split_unique hbehind h.paramsOpen h'.paramsOpen (stops_cons (by decide) _) (stops_cons (by decide) _)
  have hbehind := List.append_cancel_left hbehind
  obtain ⟨hresult, hbody⟩ :=
    split_unique hbehind h.resultChars h'.resultChars (stops_cons (by decide) _) (stops_cons (by decide) _)
  have hbody := List.append_cancel_right (List.append_cancel_left hbody)
  have hparams : w.params = w'.params := map_paramText_injective (fun p hp => (h.params p hp).1)
    (fun p hp => (h'.params p hp).1) (intercalate_injective h.paramEntries h'.paramEntries hparams)
  have hresult : w.result = w'.result := result_injective h h' hresult
  have hcall : w.callText = w'.callText := by
    rw [hresult] at hbody
    split at hbody
    · exact List.append_cancel_left hbody
    · exact hbody
  obtain ⟨hcallee, hargs⟩ := callText_injective h h' hcall
  cases w
  cases w'
  simp only at hsymbol hparams hresult hcallee hargs
  rw [hsymbol, hparams, hresult, hcallee, hargs]

end GoWrapper

theorem export_iff (e : GoExport) :
    (∃ sig, goSignature (e.exportName, e.params.text, e.captured.map GoType.text) = .ok sig ∧ Described e sig ∧
        CallsDeclared e (goWrapper sig)) ↔
      e.exportName = e.func.text ∧ e.params.Read ∧ (∀ piece ∈ e.params.pieces, piece.Plain e.func) ∧ e.PlainResult := by
  constructor
  · rintro ⟨sig, hsig, hdescribed, hcalls⟩
    obtain ⟨hread, ts, hts, rfl⟩ := goSignature_ok_iff.mp ⟨hsig, names_of_lexical hcalls.lexical⟩
    have hname : e.exportName = e.func.text := hcalls.callee
    refine ⟨hname, hread, ?_, (result_iff e ts).mp ⟨hdescribed.returns, hcalls.result⟩⟩
    rw [hts]
    intro piece hpiece
    obtain ⟨t, ht, rfl⟩ := List.mem_map.mp hpiece
    have husable := (args_iff hts).mp hcalls.args t ht
    refine ⟨husable.1, husable.2, fun hshadow => ?_⟩
    have hparam : (t.1.text, goName t.2.2.zig) ∈ (goWrapper (typedSig e ts)).params :=
      goWrapper_params e ts ▸ List.mem_map.mpr ⟨t, ht, rfl⟩
    exact hcalls.notShadowed _ hparam (hshadow.trans hname.symm)
  · rintro ⟨hname, hread, hparams, hresult⟩
    obtain ⟨ts, hts⟩ := hread.exists_typed
    have hplain : ∀ t ∈ ts, (typedPiece t).Plain e.func := fun t ht =>
      hparams _ (hts ▸ List.mem_map.mpr ⟨t, ht, rfl⟩)
    obtain ⟨hreturns, hreturned⟩ := (result_iff e ts).mpr hresult
    refine ⟨typedSig e ts, (goSignature_ok_iff.mpr ⟨hread, ts, hts, rfl⟩).1, ⟨rfl, described_params hts, hreturns⟩,
      goWrapper_lexical hname ts, hname, ?_, ?_, hreturned⟩
    · intro p hp
      rw [goWrapper_params] at hp
      obtain ⟨t, ht, rfl⟩ := List.mem_map.mp hp
      exact fun heq => (hplain t ht).2.2 (heq.trans hname)
    · exact (args_iff hts).mpr fun t ht => ⟨(hplain t ht).1, (hplain t ht).2.1⟩

/-! ## The exports of a source -/

/-- A match stands for an export: found at its place, with the signature and the wrapper that are expected. -/
def StandsFor (m : Text × Text × Text × Option Text) (e : Text × GoExport) : Prop :=
  m.1 = e.1 ∧ ∃ sig, goSignature m.2 = .ok sig ∧ Described e.2 sig ∧ CallsDeclared e.2 (goWrapper sig)

theorem exportsMatch_iff_standsFor (items : List GoItem) :
    ExportsMatch items ↔ List.Forall₂ StandsFor (matchAll wasmexport (goText items)) (goExports items) := by
  rw [ExportsMatch, goExportsAt]
  simp only [allOk_iff]
  rw [exists_forall₂_iff]
  have hone (m : Text × Text × Text × Option Text) (e : Text × GoExport) :
      (∃ f, (goSignature m.2).map (fun sig => (m.1, sig)) = .ok f ∧ f.1 = e.1 ∧ Described e.2 f.2 ∧
        CallsDeclared e.2 (goWrapper f.2)) ↔ StandsFor m e := by
    rw [StandsFor]
    cases goSignature m.2 with
    | error message =>
      constructor
      · rintro ⟨f, hf, _⟩
        cases hf
      · rintro ⟨_, sig, hsig, _⟩
        cases hsig
    | ok sig =>
      constructor
      · rintro ⟨f, hf, hplace, hmatch⟩
        cases hf
        exact ⟨hplace, sig, rfl, hmatch⟩
      · rintro ⟨hplace, sig', hsig, hmatch⟩
        cases hsig
        exact ⟨(m.1, sig), rfl, hplace, hmatch⟩
  simp only [hone]

theorem length_le_goExports {items : List GoItem} {e : Text × GoExport} (h : e ∈ goExports items) :
    e.1.length ≤ (goText items).length := by
  induction items with
  | nil => cases h
  | cons item items ih =>
    cases item with
    | other other =>
      rw [goText, List.length_append]
      exact Nat.le_add_left_of_le (ih h)
    | exported export' =>
      rcases List.mem_cons.mp h with rfl | hlater
      · exact Nat.le_refl _
      · rw [goText, List.length_append]
        exact Nat.le_add_left_of_le (ih hlater)

theorem standsFor_append {segment : Text} (items : List GoItem) :
    List.Forall₂ StandsFor (matchAll wasmexport (segment ++ goText items)) (goExports items) ↔
      NoMatch wasmexport segment (goText items) ∧
        List.Forall₂ StandsFor (matchAll wasmexport (goText items)) (goExports items) :=
  forall₂_matchAll_append fun _ _ hstands hmem => hstands.1 ▸ length_le_goExports hmem

theorem GoExport.unmatched_suffix (e : GoExport) : ∃ x, e.text = '/' :: (x ++ e.unmatched) := by
  have hending : e.unmatched <:+ e.ending := by
    rw [GoExport.unmatched]
    cases hcaptured : e.captured with
    | none => exact List.dropWhile_suffix _
    | some type =>
      obtain ⟨hresult, _⟩ := bare_of_captured hcaptured
      refine ⟨e.afterParen.text ++ type.text, ?_⟩
      rw [GoHeader.ending, hresult, GoResult.text, List.append_assoc]
  obtain ⟨y, hy⟩ := hending
  refine ⟨directive.tail ++ (e.afterDirective.text ++ (e.exportName ++ (e.beforeEol.text ++ '\n' :: (e.afterEol.text ++
    (funcKeyword ++ (e.afterFunc.text ++ (e.func.text ++ (e.beforeParen.text ++ '(' :: (e.params.text ++ ')' ::
      y))))))))), ?_⟩
  rw [GoHeader.text, ← hy]
  simp only [List.append_assoc, List.cons_append]
  rfl

theorem matchAll_export {e : GoExport} (h : e.Matched) (rest : Text) :
    matchAll wasmexport (e.text ++ rest) =
      (e.text ++ rest, e.exportName, e.params.text, e.captured.map GoType.text) ::
        matchAll wasmexport (e.unmatched ++ rest) := by
  have hfirst := wasmexport_first h rest
  obtain ⟨x, hx⟩ := e.unmatched_suffix
  have htext : e.text ++ rest = '/' :: (x ++ (e.unmatched ++ rest)) := by
    rw [hx, List.cons_append, List.append_assoc]
  rw [htext] at hfirst ⊢
  exact matchAll_some hfirst

theorem standsFor_export (e : GoExport) (source : Text) :
    StandsFor (source, e.exportName, e.params.text, e.captured.map GoType.text) (source, e) ↔
      e.exportName = e.func.text ∧ e.params.Read ∧ (∀ piece ∈ e.params.pieces, piece.Plain e.func) ∧ e.PlainResult := by
  rw [StandsFor, and_iff_right rfl]
  exact export_iff e

theorem GoExport.Plain.matched {e : GoExport} (h : e.Plain) : e.Matched :=
  ⟨h.word, h.sameName ▸ h.word, h.afterEol, h.afterFunc, h.beforeParen⟩

/-- By induction on the items of the source. -/
theorem standsFor_items (items : List GoItem) :
    List.Forall₂ StandsFor (matchAll wasmexport (goText items)) (goExports items) ↔ OnlyPlain items := by
  induction items with
  | nil => exact iff_of_true .nil trivial
  | cons item items ih =>
    cases item with
    | other other => rw [goText, goExports, standsFor_append, ih, OnlyPlain]
    | exported e =>
      rw [goText, goExports, OnlyPlain]
      by_cases hmatch : wasmexport (e.text ++ goText items) = []
      · refine iff_of_false (fun hstands => ?_) (fun hplain => ?_)
        · obtain ⟨m, others, ⟨hplace, _⟩, _, heq⟩ := List.forall₂_cons_right_iff.mp hstands
          obtain ⟨_, rest, hfirst⟩ := first_of_mem_matchAll (heq ▸ List.mem_cons_self)
          rw [hplace, first_eq_none_iff.mpr hmatch] at hfirst
          cases hfirst
        · have hfirst := wasmexport_first hplain.1.matched (goText items)
          rw [first_eq_none_iff.mpr hmatch] at hfirst
          cases hfirst
      · have hmatched := matched_of_wasmexport hmatch
        rw [matchAll_export hmatched, List.forall₂_cons, standsFor_append, ih, standsFor_export]
        refine and_congr_left' ⟨fun h => ?_, fun h => ⟨h.sameName, h.read, h.params, h.result⟩⟩
        obtain ⟨hname, hread, hparams, hresult⟩ := h
        exact ⟨hname, hmatched.exportName, hmatched.afterEol, hmatched.afterFunc, hmatched.beforeParen, hread, hparams,
          hresult⟩

def addIdent : GoIdent where
  text := ['a', 'd', 'd']
  ne_nil := List.cons_ne_nil _ _
  word := List.all_eq_true.mp (by decide)

def aIdent : GoIdent where
  text := ['a']
  ne_nil := List.cons_ne_nil _ _
  word := List.all_eq_true.mp (by decide)

def bIdent : GoIdent where
  text := ['b']
  ne_nil := List.cons_ne_nil _ _
  word := List.all_eq_true.mp (by decide)

def goNoGap : GoGap := ⟨cNoGap, List.not_mem_nil, List.not_mem_nil⟩

def goOneSpace : GoSpace := ⟨⟨cOneSpace.toCGap, by decide, by decide⟩, cOneSpace.nonempty⟩

/-- `a, b float64`. -/
def groupedParams : GoParams where
  list := [⟨goNoGap, .grouped aIdent, goNoGap⟩, ⟨goOneSpace.toGoGap, .typed bIdent goOneSpace .float64, goNoGap⟩]
  trailing := none
  valid := by
    refine Or.inr ⟨?_, ?_⟩
    · exact List.forall_mem_cons.mpr ⟨Option.some_ne_none _, List.forall_mem_singleton.mpr (Option.some_ne_none _)⟩
    · intro piece hpiece
      exact ⟨_, _, _, (Option.some.inj hpiece).symm⟩
  distinct := by decide

def noParams : GoParams where
  list := []
  trailing := none
  valid := Or.inl fun _ h => nomatch h
  distinct := List.nodup_nil

/-- `//go:wasmexport E` and `func add(params) float64 {`. -/
def addHeader (exportName : Ident) (params : GoParams) : GoHeader where
  afterDirective := oneSpace
  exportName := exportName.text
  exportName_ne := exportName.ne_nil
  notSpace := exportName.notSpace
  beforeEol := noGap
  afterEol := cNoGap
  afterFunc := cOneSpace
  func := addIdent
  beforeParen := cNoGap
  params := params
  afterParen := cOneSpace.toCGap
  result := .bare .float64
  beforeBrace := cOneSpace.toCGap

def addName : Ident where
  text := ['a', 'd', 'd']
  start := ⟨_, _, rfl, by decide⟩
  word := List.all_eq_true.mp (by decide)

def sumName : Ident where
  text := ['s', 'u', 'm']
  start := ⟨_, _, rfl, by decide⟩
  word := List.all_eq_true.mp (by decide)

def groupedExport : GoExport := ⟨addHeader addName groupedParams, by decide +kernel⟩

def renamedExport : GoExport := ⟨addHeader sumName noParams, by decide +kernel⟩

end CrossNative.Linked
