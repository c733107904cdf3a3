import CrossNative.Linked.SourceText

/-!
# The exports of a Zig source

`parseZigExports` looks for `export fn` with one regular expression. A source is a sequence of
functions, comments and layout; the expression should match where a function is exported and
nowhere else.
-/

namespace CrossNative.Linked

set_option autoImplicit false

open Basis Bridge Matcher

/-! ## The parser -/

/-- The type is `undefined` without a colon. -/
structure FoundParam where
  name : Text
  type : Option Text
  deriving DecidableEq

structure FoundFn where
  name : Text
  params : List FoundParam
  returns : Text
  deriving DecidableEq

def pubKeyword : Text := ['p', 'u', 'b']

def exportKeyword : Text := ['e', 'x', 'p', 'o', 'r', 't']

def fnKeyword : Text := ['f', 'n']

def callconvKeyword : Text := ['c', 'a', 'l', 'l', 'c', 'o', 'n', 'v']

/-- `export\s+fn\s+([A-Za-z_]\w*)\s*\(([^)]*)\)\s*([A-Za-z_]\w*)?\s*\{`. -/
def exportFn : Matcher Char (Text × Text × Option Text) := do
  literal exportKeyword
  let _ ← someSpaces
  literal fnKeyword
  let _ ← someSpaces
  let name ← identifier
  let _ ← spaces
  literal ['(']
  let paramList ← greedy (· != ')')
  literal [')']
  let _ ← spaces
  let ret ← optional identifier
  let _ ← spaces
  literal ['{']
  pure (name, paramList, ret)

/-- `const [pname, ptype] = p.split(':').map(s => s.trim())`. -/
def zigParam (p : Text) : FoundParam where
  name := ((p.splitOn ':').map trim).headD []
  type := ((p.splitOn ':').map trim)[1]?

def zigFunction (m : Text × Text × Option Text) : FoundFn where
  name := m.1
  params := (commaPieces m.2.1).map zigParam
  returns := m.2.2.getD "void".toList

def parseZigExports (source : Text) : List FoundFn := (matchAll exportFn source).map fun found => zigFunction found.2

/-! ## Sources -/

/-- `name: type`, with layout. -/
structure ZigParam where
  before : Gap
  name : Ident
  beforeColon : Gap
  afterColon : Gap
  type : Ident
  after : Gap

def ZigParam.text (p : ZigParam) : Text :=
  p.before.text ++ (p.name.text ++ (p.beforeColon.text ++ ':' :: (p.afterColon.text ++ (p.type.text ++ p.after.text))))

/-- Where in the text of a function a character stands. -/
inductive ZigMode
  | code
  /-- In a comment, or in a line of a multiline string. -/
  | line
  | quoted (close : Char)
  | escaped (close : Char)
  deriving DecidableEq

/-- Where the character behind `c` stands; `text` follows `c`. -/
def ZigMode.next (c : Char) (text : Text) : ZigMode → ZigMode
  | .code =>
    if c = quoteMark ∨ c = apostrophe then .quoted c
    else if c = backslash ∨ c = '/' ∧ text.head? = some '/' then .line
    else .code
  | .line => if c = '\n' then .code else .line
  | .quoted close => if c = backslash then .escaped close else if c = close then .code else .quoted close
  | .escaped close => .quoted close

/-- The text ends in code, with everything closed. `nest` says how a character of the code changes the
depth, and where it may not stand. -/
def closes (nest : Nat → Char → Option Nat) : ZigMode → Nat → Text → Bool
  | mode, depth, [] => mode == .code && depth == 0
  | mode, depth, c :: text =>
    match if mode = .code then nest depth c else some depth with
    | some depth => closes nest (mode.next c text) depth text
    | none => false

/-- A closing brace closes one that the text has opened. -/
def nestBraces (depth : Nat) (c : Char) : Option Nat :=
  if c = '{' then some (depth + 1)
  else if c = '}' then if depth = 0 then none else some (depth - 1)
  else some depth

/-- A brace or a `;` stands inside parentheses or brackets only. -/
def nestParens (depth : Nat) (c : Char) : Option Nat :=
  if c = '(' ∨ c = '[' then some (depth + 1)
  else if c = ')' ∨ c = ']' then if depth = 0 then none else some (depth - 1)
  else if c = '{' ∨ c = '}' ∨ c = ';' then if depth = 0 then none else some depth
  else some depth

/-- What stands between the braces of a function. -/
structure ZigBody where
  text : Text
  closed : closes nestBraces .code 0 text = true

/-- `callconv(...)`. -/
structure Callconv where
  beforeParen : Gap
  convention : Text
  after : Gap

def Callconv.text (c : Callconv) : Text :=
  callconvKeyword ++ (c.beforeParen.text ++ '(' :: (c.convention ++ ')' :: c.after.text))

/-- A function, from the keyword `fn` on. -/
structure ZigFn where
  afterFn : Space
  name : Ident
  beforeParen : Gap
  params : List ZigParam
  /-- What follows the last comma, or stands in parentheses without parameters. -/
  trailing : Option Gap
  afterParen : Gap
  callconv : Option Callconv
  returns : Ident
  beforeBrace : Gap
  body : ZigBody

def ZigFn.paramList (f : ZigFn) : Text :=
  [','].intercalate (f.params.map ZigParam.text ++ f.trailing.toList.map Gap.text)

/-- From the parameters to the body. -/
def ZigFn.header (f : ZigFn) : Text :=
  f.paramList ++ ')' :: (f.afterParen.text ++ ((f.callconv.elim [] Callconv.text) ++
    (f.returns.text ++ (f.beforeBrace.text ++ ['{']))))

/-- The function up to the parameters. -/
def ZigFn.opening (f : ZigFn) : Text :=
  fnKeyword ++ (f.afterFn.text ++ (f.name.text ++ (f.beforeParen.text ++ ['('])))

def ZigFn.closing (f : ZigFn) : Text := f.body.text ++ ['}']

def ZigFn.found (f : ZigFn) : FoundFn where
  name := f.name.text
  params := f.params.map fun p => ⟨p.name.text, some p.type.text⟩
  returns := f.returns.text

/-- A function that is not exported. Its parameters and its return type may be of any form. -/
structure ZigOther where
  afterFn : Space
  name : Ident
  /-- From behind the name to the body. -/
  header : Text
  closed : closes nestParens .code 0 header = true
  body : ZigBody

def ZigOther.text (f : ZigOther) : Text :=
  fnKeyword ++ (f.afterFn.text ++ (f.name.text ++ (f.header ++ '{' :: (f.body.text ++ ['}']))))

/-- What follows `//` in a line. -/
structure Comment where
  text : Text
  oneLine : '\n' ∉ text

inductive ZigItem
  | layout (gap : Gap)
  | comment (line : Comment)
  | function (isPub : Option Space) (f : ZigOther)
  | exported (isPub : Option Space) (afterExport : Space) (f : ZigFn)

def pubText (isPub : Option Space) : Text := isPub.elim [] fun space => pubKeyword ++ space.text

def commentText (line : Comment) : Text := '/' :: '/' :: line.text

def exportText (afterExport : Space) (f : ZigFn) : Text :=
  exportKeyword ++ (afterExport.text ++ (f.opening ++ f.header))

/-- The last line may be a comment without an end of line. -/
structure ZigSource where
  items : List ZigItem
  lastComment : Option Comment

def ZigItem.text : ZigItem → Text
  | .layout gap => gap.text
  | .comment line => commentText line ++ ['\n']
  | .function isPub f => pubText isPub ++ f.text
  | .exported isPub afterExport f => pubText isPub ++ (exportText afterExport f ++ f.closing)

def itemsText (last : Text) : List ZigItem → Text
  | [] => last
  | item :: items => item.text ++ itemsText last items

def ZigSource.last (source : ZigSource) : Text := source.lastComment.elim [] commentText

def ZigSource.text (source : ZigSource) : Text := itemsText source.last source.items

/-- The exported functions, each with the source from its `export` on. -/
def exportedIn (last : Text) : List ZigItem → List (Text × FoundFn)
  | [] => []
  | .layout _ :: items => exportedIn last items
  | .comment _ :: items => exportedIn last items
  | .function _ _ :: items => exportedIn last items
  | .exported _ afterExport f :: items =>
    (exportText afterExport f ++ (f.closing ++ itemsText last items), f.found) :: exportedIn last items

/-- The functions the parser finds, each with the source from its `export` on. -/
def zigExportsAt (source : Text) : List (Text × FoundFn) :=
  (matchAll exportFn source).map fun found => (found.1, zigFunction found.2)

theorem parseZigExports_eq (source : Text) : parseZigExports source = (zigExportsAt source).map Prod.snd := by
  rw [parseZigExports, zigExportsAt, List.map_map]
  rfl

/-- No exported function has a `callconv` clause, and the regular expression matches nowhere in
comments, function bodies and other functions. -/
def OnlyExports (last : Text) : List ZigItem → Prop
  | [] => NoMatch exportFn last []
  | .layout _ :: items => OnlyExports last items
  | .comment line :: items =>
    NoMatch exportFn (commentText line ++ ['\n']) (itemsText last items) ∧ OnlyExports last items
  | .function isPub f :: items =>
    NoMatch exportFn (pubText isPub ++ f.text) (itemsText last items) ∧ OnlyExports last items
  | .exported _ _ f :: items =>
    f.callconv = none ∧ NoMatch exportFn f.closing (itemsText last items) ∧ OnlyExports last items

/-! ## Parameters -/

theorem ZigParam.notMem (p : ZigParam) {c : Char} (hword : isWordChar c = false) (hspace : isJsSpace c = false)
    (hcolon : c ≠ ':') : c ∉ p.text := by
  simp only [ZigParam.text, List.mem_append, List.mem_cons, not_or]
  exact ⟨p.before.notMem hspace, p.name.notMem hword, p.beforeColon.notMem hspace, hcolon,
    p.afterColon.notMem hspace, p.type.notMem hword, p.after.notMem hspace⟩

/-- What `trim` leaves of it. -/
def ZigParam.trimmed (p : ZigParam) : Text :=
  p.name.text ++ (p.beforeColon.text ++ ':' :: (p.afterColon.text ++ p.type.text))

theorem ZigParam.trim_text (p : ZigParam) : trim p.text = p.trimmed := by
  have htext : p.text = p.before.text ++ (p.trimmed ++ p.after.text) := by
    simp only [ZigParam.text, ZigParam.trimmed, List.append_assoc, List.cons_append]
  have hne : p.trimmed ≠ [] := List.append_ne_nil_of_left_ne_nil p.name.ne_nil _
  rw [htext]
  refine trim_layout p.before.blank p.after.blank (fun c hc => ?_) (fun c hc => ?_) hne
  · rw [ZigParam.trimmed, List.head?_append_of_ne_nil _ p.name.ne_nil] at hc
    exact p.name.notSpace c (List.mem_of_head? hc)
  · rw [ZigParam.trimmed, ← List.append_assoc, ← List.cons_append, ← List.append_assoc,
      List.getLast?_append_of_ne_nil _ p.type.ne_nil] at hc
    exact p.type.notSpace c (List.mem_of_getLast? hc)

theorem zigParam_trimmed (p : ZigParam) : zigParam p.trimmed = ⟨p.name.text, some p.type.text⟩ := by
  have hname : ':' ∉ p.name.text ++ p.beforeColon.text :=
    List.not_mem_append (p.name.notMem (by decide)) (p.beforeColon.notMem (by decide))
  have htype : ':' ∉ p.afterColon.text ++ p.type.text :=
    List.not_mem_append (p.afterColon.notMem (by decide)) (p.type.notMem (by decide))
  have hsplit : p.trimmed.splitOn ':' = [p.name.text ++ p.beforeColon.text, p.afterColon.text ++ p.type.text] := by
    rw [ZigParam.trimmed, ← List.append_assoc, List.splitOn_append_cons_self_of_not_mem hname,
      List.splitOn_eq_singleton htype]
  rw [zigParam, hsplit]
  simp only [List.map_cons, List.map_nil, List.headD_cons, List.getElem?_cons_succ, List.getElem?_cons_zero,
    trim_word_gap, trim_gap_word]

theorem ZigFn.commaPieces_paramList (f : ZigFn) : commaPieces f.paramList = f.params.map ZigParam.trimmed :=
  commaPieces_pieces (fun p _ => p.notMem (by decide) (by decide) (by decide)) (fun p _ => p.trim_text)
    fun p _ => List.append_ne_nil_of_left_ne_nil p.name.ne_nil _

theorem zigFunction_found (f : ZigFn) : zigFunction (f.name.text, f.paramList, some f.returns.text) = f.found := by
  rw [zigFunction, ZigFn.found, f.commaPieces_paramList, List.map_map]
  simp only [Option.getD_some, FoundFn.mk.injEq, true_and, and_true]
  exact List.map_congr_left fun p _ => zigParam_trimmed p

/-! ## Headers the regular expression matches -/

theorem ZigFn.noClose (f : ZigFn) : ∀ c ∈ f.paramList, (c != ')') = true :=
  forall_bne (notMem_intercalate (by decide)
    (notMem_pieces (by decide) fun p _ => p.notMem (by decide) (by decide) (by decide)))

theorem exportFn_first {f : ZigFn} (hconv : f.callconv = none) (afterExport : Space) (rest : Text) :
    exportFn.first (exportText afterExport f ++ rest) = some ((f.name.text, f.paramList, some f.returns.text), rest) := by
  have htext : exportText afterExport f ++ rest = exportKeyword ++ (afterExport.text ++ (fnKeyword ++
      (f.afterFn.text ++ (f.name.text ++ (f.beforeParen.text ++ (['('] ++ (f.paramList ++ ([')'] ++
        (f.afterParen.text ++ (f.returns.text ++ (f.beforeBrace.text ++ (['{'] ++ rest)))))))))))) := by
    simp only [exportText, ZigFn.opening, ZigFn.header, hconv, Option.elim_none, List.append_assoc, List.nil_append,
      List.cons_append]
  rw [htext]
  apply first_bind (first_literal _ _)
  apply first_bind (first_someSpaces afterExport (stops_cons (by decide) _))
  apply first_bind (first_literal _ _)
  apply first_bind (first_someSpaces f.afterFn (stops_space_ident f.name _))
  apply first_bind (first_identifier f.name (stops_word_gap f.beforeParen (by decide) _))
  apply first_bind (first_spaces f.beforeParen (stops_cons (by decide) _))
  apply first_bind (first_literal _ _)
  apply first_bind (first_greedy f.noClose (stops_cons (by decide) _))
  apply first_bind (first_literal _ _)
  apply first_bind (first_spaces f.afterParen (stops_space_ident f.returns _))
  apply first_bind (first_optional_some (first_identifier f.returns (stops_word_gap f.beforeBrace (by decide) _)))
  apply first_bind (first_spaces f.beforeBrace (stops_cons (by decide) _))
  apply first_bind (first_literal _ _)
  exact first_pure _ _

/-- The text of a header that was matched. -/
theorem mem_exportFn {m : Text × Text × Option Text} {s r : Text} (h : (m, r) ∈ exportFn s) :
    ∃ (afterExport afterFn : Space) (name : Ident) (beforeParen afterParen beforeBrace : Gap) (params : Text)
      (ret : Option Ident),
      (∀ c ∈ params, (c != ')') = true) ∧
      s = exportKeyword ++ (afterExport.text ++ (fnKeyword ++ (afterFn.text ++ (name.text ++ (beforeParen.text ++
        '(' :: (params ++ ')' :: (afterParen.text ++ (ret.elim [] Ident.text ++ (beforeBrace.text ++ '{' :: r))))))))) := by
  obtain ⟨_, t₁, hexport, h⟩ := mem_bind.mp h
  obtain ⟨_, t₂, hafterExport, h⟩ := mem_bind.mp h
  obtain ⟨_, t₃, hfn, h⟩ := mem_bind.mp h
  obtain ⟨_, t₄, hafterFn, h⟩ := mem_bind.mp h
  obtain ⟨_, t₅, hname, h⟩ := mem_bind.mp h
  obtain ⟨_, t₆, hbeforeParen, h⟩ := mem_bind.mp h
  obtain ⟨_, t₇, hopen, h⟩ := mem_bind.mp h
  obtain ⟨params, t₈, hparams, h⟩ := mem_bind.mp h
  obtain ⟨_, t₉, hclose, h⟩ := mem_bind.mp h
  obtain ⟨_, t₁₀, hafterParen, h⟩ := mem_bind.mp h
  obtain ⟨ret, t₁₁, hret, h⟩ := mem_bind.mp h
  obtain ⟨_, t₁₂, hbeforeBrace, h⟩ := mem_bind.mp h
  obtain ⟨_, t₁₃, hbrace, h⟩ := mem_bind.mp h
  obtain ⟨_, rfl⟩ := mem_pure.mp h
  obtain ⟨afterExport, _, rfl⟩ := mem_someSpaces hafterExport
  obtain ⟨afterFn, _, rfl⟩ := mem_someSpaces hafterFn
  obtain ⟨name, _, rfl⟩ := mem_identifier hname
  obtain ⟨beforeParen, _, rfl⟩ := mem_spaces hbeforeParen
  obtain ⟨rfl, hnoClose⟩ := mem_greedy.mp hparams
  obtain ⟨afterParen, _, rfl⟩ := mem_spaces hafterParen
  obtain ⟨beforeBrace, _, rfl⟩ := mem_spaces hbeforeBrace
  cases mem_literal.mp hexport
  cases mem_literal.mp hfn
  cases mem_literal.mp hopen
  cases mem_literal.mp hclose
  cases mem_literal.mp hbrace
  rcases mem_optional.mp hret with ⟨_, rfl, hident⟩ | ⟨rfl, heq⟩
  · obtain ⟨ret, _, rfl⟩ := mem_identifier hident
    exact ⟨afterExport, afterFn, name, beforeParen, afterParen, beforeBrace, params, some ret, hnoClose, rfl⟩
  · rw [← heq]
    exact ⟨afterExport, afterFn, name, beforeParen, afterParen, beforeBrace, params, none, hnoClose, rfl⟩

theorem noMatch_pubText (isPub : Option Space) (rest : Text) : NoMatch exportFn (pubText isPub) rest := by
  refine noMatch_of_notMem (fun _ _ => head_of_literal) ?_ rest
  cases isPub with
  | none => exact List.not_mem_nil
  | some space => exact List.not_mem_append (by decide) (space.notMem (by decide))

def callconvIdent : Ident where
  text := callconvKeyword
  start := ⟨_, _, rfl, by decide⟩
  word := List.all_eq_true.mp (by decide)

/-- Behind the parameters the expression reads a name and then expects a brace. -/
theorem exportFn_callconv {f : ZigFn} {conv : Callconv} (hconv : f.callconv = some conv) (afterExport : Space)
    (rest : Text) : exportFn (exportText afterExport f ++ rest) = [] := by
  refine List.eq_nil_iff_forall_not_mem.mpr fun found hmem => ?_
  have htext : exportText afterExport f ++ rest = exportKeyword ++ (afterExport.text ++ (fnKeyword ++
      (f.afterFn.text ++ (f.name.text ++ (f.beforeParen.text ++ '(' :: (f.paramList ++ ')' ::
        (f.afterParen.text ++ (callconvKeyword ++ (conv.beforeParen.text ++ '(' :: (conv.convention ++ ')' ::
          (conv.after.text ++ (f.returns.text ++ (f.beforeBrace.text ++ '{' :: rest))))))))))))) := by
    simp only [exportText, ZigFn.opening, ZigFn.header, hconv, Option.elim_some, Callconv.text, List.append_assoc,
      List.nil_append, List.cons_append]
  obtain ⟨afterExport', afterFn, name, beforeParen, afterParen, beforeBrace, params, ret, hparams', heq⟩ :=
    mem_exportFn hmem
  rw [htext] at heq
  have hfn := gap_unique (List.append_cancel_left heq) (stops_cons (by decide) _) (stops_cons (by decide) _)
  have hname := gap_unique (List.append_cancel_left hfn) (stops_space_ident _ _) (stops_space_ident _ _)
  have hopen := gap_unique (ident_unique hname (stops_word_gap _ (by decide) _) (stops_word_gap _ (by decide) _)).2
    (stops_cons (by decide) _) (stops_cons (by decide) _)
  have hclose := (split_unique (List.cons.inj hopen).2 f.noClose hparams' (stops_cons (by decide) _)
    (stops_cons (by decide) _)).2
  have hconvention := (List.cons.inj hclose).2
  cases ret with
  | some ret =>
    have hret := gap_unique hconvention (stops_cons (by decide) _) (stops_space_ident _ _)
    have hparen := @ident_unique callconvIdent ret _ _ hret (stops_word_gap _ (by decide) _)
      (stops_word_gap _ (by decide) _)
    have hbrace := gap_unique hparen.2 (stops_cons (by decide) _) (stops_cons (by decide) _)
    exact absurd (List.cons.inj hbrace).1 (by decide)
  | none =>
    rw [Option.elim_none, List.nil_append] at hconvention
    have hblank : ∀ c ∈ afterParen.text ++ beforeBrace.text, isJsSpace c = true :=
      List.forall_mem_append.mpr ⟨afterParen.blank, beforeBrace.blank⟩
    have hbrace := (split_unique (hconvention.trans (List.append_assoc _ _ _).symm) f.afterParen.blank hblank (stops_cons (by decide) _)
      (stops_cons (by decide) _)).2
    exact absurd (List.cons.inj hbrace).1 (by decide)

/-! ## Sources -/

theorem noMatch_layout (gap : Gap) (rest : Text) : NoMatch exportFn gap.text rest :=
  noMatch_of_notMem (fun _ _ => head_of_literal) (gap.notMem (by decide)) rest

theorem matchAll_exported {f : ZigFn} (hconv : f.callconv = none) (afterExport : Space) (rest : Text) :
    zigExportsAt (exportText afterExport f ++ rest) = (exportText afterExport f ++ rest, f.found) :: zigExportsAt rest := by
  have hfirst := exportFn_first hconv afterExport rest
  have htext : exportText afterExport f ++ rest =
      'e' :: ((exportText afterExport f).tail ++ rest) := rfl
  rw [htext] at hfirst ⊢
  rw [zigExportsAt, matchAll_some hfirst, List.map_cons, zigFunction_found]
  rfl

theorem length_le_of_exported {last : Text} {items : List ZigItem} {found : Text × FoundFn}
    (h : found ∈ exportedIn last items) : found.1.length ≤ (itemsText last items).length := by
  induction items with
  | nil => cases h
  | cons item items ih =>
    rw [itemsText, List.length_append]
    cases item with
    | layout gap => exact Nat.le_add_left_of_le (ih h)
    | comment line => exact Nat.le_add_left_of_le (ih h)
    | function isPub f => exact Nat.le_add_left_of_le (ih h)
    | exported isPub afterExport f =>
      rcases List.mem_cons.mp h with rfl | hlater
      · simp only [ZigItem.text, List.length_append]
        omega
      · exact Nat.le_add_left_of_le (ih hlater)

/-- In front of what is left of the source nothing may be found. -/
theorem zigExportsAt_append {segment rest : Text} {found : List (Text × FoundFn)}
    (hfound : ∀ f ∈ found, f.1.length ≤ rest.length) :
    zigExportsAt (segment ++ rest) = found ↔ NoMatch exportFn segment rest ∧ zigExportsAt rest = found := by
  constructor
  · intro h
    have hnone : NoMatch exportFn segment rest := by
      refine noMatch_of_found fun m hm => ?_
      have hmem : (m.1, zigFunction m.2) ∈ zigExportsAt (segment ++ rest) := List.mem_map.mpr ⟨m, hm, rfl⟩
      rw [h] at hmem
      exact hfound _ hmem
    rw [zigExportsAt, matchAll_of_noMatch hnone] at h
    exact ⟨hnone, h⟩
  · rintro ⟨hnone, h⟩
    rw [zigExportsAt, matchAll_of_noMatch hnone]
    exact h

/-- What is found are the exported functions, each where it is declared, exactly if none of them has
a `callconv` clause and nothing else matches. By induction on the items of the source. -/
theorem zigExportsAt_items (last : Text) (items : List ZigItem) :
    zigExportsAt (itemsText last items) = exportedIn last items ↔ OnlyExports last items := by
  induction items with
  | nil =>
    have hlast := @zigExportsAt_append last [] [] (List.forall_mem_nil _)
    rw [List.append_nil] at hlast
    exact hlast.trans (and_iff_left rfl)
  | cons item items ih =>
    have hlater : ∀ f ∈ exportedIn last items, f.1.length ≤ (itemsText last items).length := fun f =>
      length_le_of_exported
    cases item with
    | layout gap =>
      rw [itemsText, exportedIn, OnlyExports, zigExportsAt_append hlater, ih]
      exact and_iff_right (noMatch_layout gap _)
    | comment line => rw [itemsText, exportedIn, OnlyExports, zigExportsAt_append hlater, ih, ZigItem.text]
    | function isPub f => rw [itemsText, exportedIn, OnlyExports, zigExportsAt_append hlater, ih, ZigItem.text]
    | exported isPub afterExport f =>
      have hall : ∀ g ∈ exportedIn last (.exported isPub afterExport f :: items),
          g.1.length ≤ (exportText afterExport f ++ (f.closing ++ itemsText last items)).length := by
        refine List.forall_mem_cons.mpr ⟨Nat.le_refl _, fun g hg => (hlater g hg).trans ?_⟩
        simp only [List.length_append]
        omega
      rw [itemsText, ZigItem.text, List.append_assoc, List.append_assoc, zigExportsAt_append hall,
        and_iff_right (noMatch_pubText isPub _), exportedIn, OnlyExports]
      cases hconv : f.callconv with
      | none =>
        rw [matchAll_exported hconv, List.cons.injEq, and_iff_right rfl, and_iff_right rfl,
          zigExportsAt_append hlater, ih]
      | some conv =>
        refine iff_of_false (fun hfound => ?_) (fun h => nomatch h.1)
        obtain ⟨m, hm, hfound⟩ := List.mem_map.mp (hfound ▸ List.mem_cons_self)
        obtain ⟨_, rest, hfirst⟩ := first_of_mem_matchAll hm
        have hplace := congrArg Prod.fst hfound
        simp only at hplace
        rw [hplace, first, exportFn_callconv hconv] at hfirst
        cases hfirst

def ZigSource.exported (source : ZigSource) : List (Text × FoundFn) := exportedIn source.last source.items

/-- The parser returns what the source exports, and has found each function where it is declared. -/
def ZigSource.FoundExactly (source : ZigSource) : Prop :=
  parseZigExports source.text = source.exported.map Prod.snd ∧ zigExportsAt source.text = source.exported

/-- The exported functions are found exactly if none has a `callconv` clause and nothing else matches. -/
theorem zigExports_exact_iff (source : ZigSource) : source.FoundExactly ↔ OnlyExports source.last source.items := by
  rw [← zigExportsAt_items]
  constructor
  · exact fun h => h.2
  · intro h
    refine ⟨?_, h⟩
    rw [parseZigExports_eq]
    exact congrArg (List.map Prod.snd) h

def tickIdent : Ident where
  text := ['t', 'i', 'c', 'k']
  start := ⟨_, _, rfl, by decide⟩
  word := List.all_eq_true.mp (by decide)

def voidIdent : Ident where
  text := ['v', 'o', 'i', 'd']
  start := ⟨_, _, rfl, by decide⟩
  word := List.all_eq_true.mp (by decide)

/-- `fn tick() callconv(.c) void {}`. -/
def tickFn : ZigFn where
  afterFn := oneSpace
  name := tickIdent
  beforeParen := noGap
  params := []
  trailing := none
  afterParen := oneSpace.toGap
  callconv := some ⟨noGap, ['.', 'c'], oneSpace.toGap⟩
  returns := voidIdent
  beforeBrace := oneSpace.toGap
  body := ⟨[], by decide⟩

/-- `export fn tick() void {`. -/
def tickComment : Comment where
  text := exportText oneSpace { tickFn with callconv := none }
  oneLine := by decide

/-- An export with a `callconv` clause is skipped, and one in a comment is returned. -/
theorem zigExports_not_exact :
    ¬ (ZigSource.mk [.exported none oneSpace tickFn] none).FoundExactly ∧
      ¬ (ZigSource.mk [.comment tickComment] none).FoundExactly := by
  constructor
  · rintro ⟨hparsed, _⟩
    exact absurd hparsed (by decide +kernel)
  · rintro ⟨hparsed, _⟩
    exact absurd hparsed (by decide +kernel)

end CrossNative.Linked
