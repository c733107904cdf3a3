import CrossNative.Bridge.JsText

/-!
# Signatures of linked functions, and their manifest

What the source parsers of the linked path hand to the generator. The manifest of a library is
JSON text inside a format string inside a Zig string literal; it is read back in that order.
-/

namespace CrossNative.Linked

set_option autoImplicit false

open Bridge

abbrev Text : Type := List Char

structure Param where
  name : Text
  type : Text
  deriving DecidableEq

structure FnSig where
  name : Text
  params : List Param
  returns : Text
  /-- The C symbol to call, if it differs from the name. -/
  cName : Option Text
  deriving DecidableEq

def FnSig.symbol (sig : FnSig) : Text := sig.cName.getD sig.name

/-! ## Documents made of strings -/

inductive Doc
  | text (s : Text)
  | items (docs : List Doc)
  | fields (entries : List (Text × Doc))

mutual

/-- `JSON.stringify`. -/
def Doc.stringify : Doc → Text
  | .text s => stringifyText s
  | .items docs => '[' :: (stringifyItems docs ++ [']'])
  | .fields entries => '{' :: (stringifyFields entries ++ ['}'])

def stringifyItems : List Doc → Text
  | [] => []
  | [doc] => doc.stringify
  | doc :: docs => doc.stringify ++ ',' :: stringifyItems docs

def stringifyFields : List (Text × Doc) → Text
  | [] => []
  | [(key, doc)] => stringifyText key ++ ':' :: doc.stringify
  | (key, doc) :: entries => stringifyText key ++ ':' :: (doc.stringify ++ ',' :: stringifyFields entries)

end

def isJsonSpace (c : Char) : Bool := c = ' ' || c = '\t' || c = '\n' || c = '\r'

/-- The next character that is no whitespace, and what follows it. -/
def nextChar (text : Text) : Option (Char × Text) :=
  match text.dropWhile isJsonSpace with
  | [] => none
  | c :: rest => some (c, rest)

def readString (text : Text) : Option (Text × Text) :=
  match nextChar text with
  | some (c, rest) => if c = quoteMark then readLiteral .plain rest else none
  | none => none

mutual

/-- A document at the beginning of a text, and what follows it. -/
def readDoc : Nat → Text → Option (Doc × Text)
  | 0, _ => none
  | fuel + 1, text =>
    match nextChar text with
    | none => none
    | some (c, rest) =>
      if c = quoteMark then (readLiteral .plain rest).map fun (s, rest) => (.text s, rest)
      else if c = '[' then
        match nextChar rest with
        | some (']', rest) => some (.items [], rest)
        | _ => (readItems fuel rest).map fun (docs, rest) => (.items docs, rest)
      else if c = '{' then
        match nextChar rest with
        | some ('}', rest) => some (.fields [], rest)
        | _ => (readFields fuel rest).map fun (entries, rest) => (.fields entries, rest)
      else none

/-- The items of an array, from the first one on. -/
def readItems : Nat → Text → Option (List Doc × Text)
  | 0, _ => none
  | fuel + 1, text =>
    match readDoc fuel text with
    | none => none
    | some (doc, rest) =>
      match nextChar rest with
      | some (',', rest) => (readItems fuel rest).map fun (docs, rest) => (doc :: docs, rest)
      | some (']', rest) => some ([doc], rest)
      | _ => none

def readFields : Nat → Text → Option (List (Text × Doc) × Text)
  | 0, _ => none
  | fuel + 1, text =>
    match readString text with
    | none => none
    | some (key, rest) =>
      match nextChar rest with
      | some (':', rest) =>
        match readDoc fuel rest with
        | none => none
        | some (doc, rest) =>
          match nextChar rest with
          | some (',', rest) => (readFields fuel rest).map fun (entries, rest) => ((key, doc) :: entries, rest)
          | some ('}', rest) => some ([(key, doc)], rest)
          | _ => none
      | _ => none

end

/-- `JSON.parse` of a document made of strings. -/
def parseDoc (text : Text) : Option Doc :=
  match readDoc text.length text with
  | some (doc, rest) => if (nextChar rest).isNone then some doc else none
  | none => none

/-! ## Reading back what was written -/

theorem nextChar_cons {c : Char} (h : isJsonSpace c = false) (rest : Text) : nextChar (c :: rest) = some (c, rest) := by
  rw [nextChar, List.dropWhile_cons, h, if_neg Bool.false_ne_true]

theorem nextChar_quote (rest : Text) : nextChar (quoteMark :: rest) = some (quoteMark, rest) :=
  nextChar_cons (by decide) rest

theorem readString_stringify (s rest : Text) : readString (stringifyText s ++ rest) = some (s, rest) := by
  rw [stringifyText, List.cons_append, readString, nextChar_quote]
  simp only [if_true]
  rw [List.append_assoc]
  exact readLiteral_stringify s rest

/-- A document begins with a character that is no space and closes nothing. -/
theorem stringify_head (doc : Doc) :
    ∃ c rest, doc.stringify = c :: rest ∧ isJsonSpace c = false ∧ c ≠ ']' := by
  cases doc with
  | text s => exact ⟨quoteMark, _, rfl, by decide, by decide⟩
  | items docs => exact ⟨'[', _, rfl, by decide, by decide⟩
  | fields entries => exact ⟨'{', _, rfl, by decide, by decide⟩

theorem stringifyItems_cons (doc next : Doc) (docs : List Doc) :
    stringifyItems (doc :: next :: docs) = doc.stringify ++ ',' :: stringifyItems (next :: docs) := by
  rw [stringifyItems]
  exact List.cons_ne_nil next docs

theorem stringifyFields_cons (key : Text) (doc : Doc) (next : Text × Doc) (entries : List (Text × Doc)) :
    stringifyFields ((key, doc) :: next :: entries) =
      stringifyText key ++ ':' :: (doc.stringify ++ ',' :: stringifyFields (next :: entries)) := by
  rw [stringifyFields]
  exact List.cons_ne_nil next entries

theorem stringifyItems_head (doc : Doc) (docs : List Doc) (text : Text) :
    ∃ c rest, stringifyItems (doc :: docs) ++ text = c :: rest ∧ isJsonSpace c = false ∧ c ≠ ']' := by
  obtain ⟨c, rest, heq, hspace, hclose⟩ := stringify_head doc
  cases docs with
  | nil => exact ⟨c, rest ++ text, by rw [stringifyItems, heq]; rfl, hspace, hclose⟩
  | cons next docs =>
    exact ⟨c, rest ++ ',' :: stringifyItems (next :: docs) ++ text, by rw [stringifyItems_cons, heq]; rfl, hspace, hclose⟩

theorem stringifyFields_head (entry : Text × Doc) (entries : List (Text × Doc)) (text : Text) :
    ∃ rest, stringifyFields (entry :: entries) ++ text = quoteMark :: rest := by
  obtain ⟨key, doc⟩ := entry
  cases entries with
  | nil => exact ⟨_, rfl⟩
  | cons next entries => exact ⟨_, rfl⟩

mutual

/-- Enough fuel is as much as the text is long. -/
theorem readDoc_stringify (doc : Doc) (fuel : Nat) (rest : Text) (h : doc.stringify.length ≤ fuel) :
    readDoc fuel (doc.stringify ++ rest) = some (doc, rest) := by
  match doc, fuel, h with
  | .text s, fuel + 1, _ =>
    have hread := readLiteral_stringify s rest
    rw [Doc.stringify, stringifyText, List.cons_append, readDoc, nextChar_quote, List.append_assoc]
    simp only [if_true, List.singleton_append]
    rw [hread]
    rfl
  | .items [], fuel + 1, _ => rfl
  | .items (doc :: docs), fuel + 1, h =>
    have hlength : (stringifyItems (doc :: docs)).length < fuel := by
      rw [Doc.stringify, List.length_cons, List.length_append, List.length_singleton] at h
      omega
    have hitems := readItems_stringify (doc :: docs) (List.cons_ne_nil doc docs) fuel rest hlength
    obtain ⟨c, tail, heq, hspace, hclose⟩ := stringifyItems_head doc docs (']' :: rest)
    rw [Doc.stringify, List.cons_append, readDoc, nextChar_cons (by decide), List.append_assoc, List.singleton_append]
    have hnext : nextChar (stringifyItems (doc :: docs) ++ ']' :: rest) = some (c, tail) := by
      rw [heq, nextChar_cons hspace]
    have hquote : ('[' : Char) ≠ quoteMark := by decide
    simp only [if_neg hquote, if_true]
    rw [hnext]
    split
    · rename_i hclosed
      exact absurd (Prod.mk.inj (Option.some.inj hclosed)).1 hclose
    · rw [hitems]
      rfl
  | .fields [], fuel + 1, _ => rfl
  | .fields (entry :: entries), fuel + 1, h =>
    have hlength : (stringifyFields (entry :: entries)).length < fuel := by
      rw [Doc.stringify, List.length_cons, List.length_append, List.length_singleton] at h
      omega
    have hfields := readFields_stringify (entry :: entries) (List.cons_ne_nil entry entries) fuel rest hlength
    obtain ⟨tail, heq⟩ := stringifyFields_head entry entries ('}' :: rest)
    rw [Doc.stringify, List.cons_append, readDoc, nextChar_cons (by decide), List.append_assoc, List.singleton_append]
    have hnext : nextChar (stringifyFields (entry :: entries) ++ '}' :: rest) = some (quoteMark, tail) := by
      rw [heq, nextChar_quote]
    have hquote : ('{' : Char) ≠ quoteMark := by decide
    have hbracket : ('{' : Char) ≠ '[' := by decide
    simp only [if_neg hquote, if_neg hbracket, if_true]
    rw [hnext]
    split
    · rename_i hclosed
      exact absurd (Prod.mk.inj (Option.some.inj hclosed)).1 (by decide)
    · rw [hfields]
      rfl

theorem readItems_stringify (docs : List Doc) (hne : docs ≠ []) (fuel : Nat) (rest : Text)
    (h : (stringifyItems docs).length < fuel) :
    readItems fuel (stringifyItems docs ++ ']' :: rest) = some (docs, rest) := by
  match docs, fuel, h with
  | [doc], fuel + 1, h =>
    have hdoc := readDoc_stringify doc fuel (']' :: rest) (Nat.le_of_lt_succ h)
    rw [stringifyItems, readItems, hdoc]
    rfl
  | doc :: next :: docs, fuel + 1, h =>
    rw [stringifyItems_cons, List.length_append, List.length_cons] at h
    have hdoc := readDoc_stringify doc fuel (',' :: (stringifyItems (next :: docs) ++ ']' :: rest)) (by omega)
    have hrest := readItems_stringify (next :: docs) (List.cons_ne_nil _ _) fuel rest (by omega)
    rw [stringifyItems_cons, List.append_assoc, List.cons_append, readItems, hdoc]
    simp only [nextChar_cons (show isJsonSpace ',' = false by decide), hrest]
    rfl

theorem readFields_stringify (entries : List (Text × Doc)) (hne : entries ≠ []) (fuel : Nat) (rest : Text)
    (h : (stringifyFields entries).length < fuel) :
    readFields fuel (stringifyFields entries ++ '}' :: rest) = some (entries, rest) := by
  match entries, fuel, h with
  | [(key, doc)], fuel + 1, h =>
    rw [stringifyFields, List.length_append, List.length_cons] at h
    have hdoc := readDoc_stringify doc fuel ('}' :: rest) (by omega)
    rw [stringifyFields, List.append_assoc, List.cons_append, readFields, readString_stringify]
    simp only [nextChar_cons (show isJsonSpace ':' = false by decide), hdoc]
    rfl
  | (key, doc) :: next :: entries, fuel + 1, h =>
    rw [stringifyFields_cons, List.length_append, List.length_cons, List.length_append, List.length_cons] at h
    have hdoc := readDoc_stringify doc fuel (',' :: (stringifyFields (next :: entries) ++ '}' :: rest)) (by omega)
    have hrest := readFields_stringify (next :: entries) (List.cons_ne_nil _ _) fuel rest (by omega)
    rw [stringifyFields_cons, List.append_assoc, List.cons_append, List.append_assoc, List.cons_append, readFields,
      readString_stringify]
    simp only [nextChar_cons (show isJsonSpace ':' = false by decide), hdoc,
      nextChar_cons (show isJsonSpace ',' = false by decide), hrest]
    rfl

end

theorem parseDoc_stringify (doc : Doc) : parseDoc doc.stringify = some doc := by
  have hread := readDoc_stringify doc doc.stringify.length [] (Nat.le_refl _)
  rw [List.append_nil] at hread
  rw [parseDoc, hread]
  rfl

/-! ## The manifest -/

def Param.document (param : Param) : Doc :=
  .fields [("name".toList, .text param.name), ("type".toList, .text param.type)]

def FnSig.document (sig : FnSig) : Doc :=
  .fields [("name".toList, .text sig.name), ("params".toList, .items (sig.params.map Param.document)),
    ("returns".toList, .text sig.returns)]

def manifestJson (sigs : List FnSig) : Text := (Doc.items (sigs.map FnSig.document)).stringify

/-- The replacement functions of the three passes. -/
def escapeBackslash (c : Char) : Text := if c = backslash then [backslash, backslash] else [c]

def escapeQuote (c : Char) : Text := if c = quoteMark then [backslash, quoteMark] else [c]

def doubleBrace (c : Char) : Text := if c = '{' ∨ c = '}' then [c, c] else [c]

def quoteLiteral (json : Text) : Text :=
  ((json.flatMap escapeBackslash).flatMap escapeQuote).flatMap doubleBrace

def manifestLiteral (sigs : List FnSig) : Text := quoteLiteral (manifestJson sigs)

/-! ## The two readers of the literal -/

/-- A control character, which the body of a literal may not contain. -/
def isControl (c : Char) : Bool := c.toNat < 32 || c.toNat = 127

inductive ZigReading
  | plain
  | escaped
  /-- In the digits of `\xNN`. -/
  | byte (left value : Nat)
  /-- After `\u`, and in the digits between its braces. -/
  | unicode
  | codePoint (value : Nat)

def apostrophe : Char := Char.ofNat 39

def zigEscape (c : Char) : Option Char :=
  if c = 'n' then some '\n'
  else if c = 'r' then some '\r'
  else if c = 't' then some '\t'
  else if c = backslash ∨ c = quoteMark ∨ c = apostrophe then some c
  else none

/-- The text of a Zig string literal with this body. A byte beyond ASCII makes no text alone. -/
def zigLiteral : ZigReading → Text → Option Text
  | .plain, [] => some []
  | _, [] => none
  | .plain, c :: rest =>
    if isControl c ∨ c = quoteMark then none
    else if c = backslash then zigLiteral .escaped rest
    else (zigLiteral .plain rest).map (c :: ·)
  | .escaped, c :: rest =>
    if c = 'x' then zigLiteral (.byte 1 0) rest
    else if c = 'u' then zigLiteral .unicode rest
    else
      match zigEscape c with
      | none => none
      | some d => (zigLiteral .plain rest).map (d :: ·)
  | .byte left value, c :: rest =>
    match digitValue c with
    | none => none
    | some d =>
      if 16 ≤ d then none
      else
        match left with
        | 0 => if 16 * value + d < 128 then (zigLiteral .plain rest).map (Char.ofNat (16 * value + d) :: ·) else none
        | left + 1 => zigLiteral (.byte left (16 * value + d)) rest
  | .unicode, c :: rest => if c = '{' then zigLiteral (.codePoint 0) rest else none
  | .codePoint value, c :: rest =>
    if c = '}' then (zigLiteral .plain rest).map (Char.ofNat value :: ·)
    else
      match digitValue c with
      | none => none
      | some d => if 16 ≤ d then none else zigLiteral (.codePoint (16 * value + d)) rest

/-- What `std.fmt` prints of a format string without arguments; any placeholder is refused. -/
def formatText : Text → Option Text
  | [] => some []
  | [c] => if c = '{' ∨ c = '}' then none else some [c]
  | c :: d :: rest =>
    if c = '{' ∨ c = '}' then
      if d = c then (formatText rest).map (c :: ·) else none
    else (formatText (d :: rest)).map (c :: ·)

/-- What `crossnative_manifest` of the generated library returns; none if that does not compile. -/
def crossnativeManifest (sigs : List FnSig) : Option Text :=
  (zigLiteral .plain (manifestLiteral sigs)).bind formatText

/-- A character of the document after the three passes. -/
def literalChar (c : Char) : Text := ((escapeBackslash c).flatMap escapeQuote).flatMap doubleBrace

theorem quoteLiteral_eq (json : Text) : quoteLiteral json = json.flatMap literalChar := by
  rw [quoteLiteral, List.flatMap_assoc, List.flatMap_assoc]
  have hchar (c : Char) : (escapeBackslash c).flatMap (fun d => (escapeQuote d).flatMap doubleBrace) = literalChar c :=
    (List.flatMap_assoc ..).symm
  simp only [hchar]

theorem zigLiteral_plain {c : Char} (hcontrol : isControl c = false) (hquote : c ≠ quoteMark) (hslash : c ≠ backslash)
    (rest : Text) : zigLiteral .plain (c :: rest) = (zigLiteral .plain rest).map (c :: ·) := by
  rw [zigLiteral, if_neg (by simp [hcontrol, hquote]), if_neg hslash]

/-- The literal reader undoes the first two passes. -/
theorem zigLiteral_literalChar {c : Char} (hcontrol : isControl c = false) (rest : Text) :
    zigLiteral .plain (literalChar c ++ rest) = (zigLiteral .plain rest).map (doubleBrace c ++ ·) := by
  by_cases hslash : c = backslash
  · subst hslash
    rfl
  · by_cases hquote : c = quoteMark
    · subst hquote
      rfl
    · have hchar : literalChar c = doubleBrace c := by
        simp only [literalChar, escapeBackslash, if_neg hslash, List.flatMap_singleton, escapeQuote, if_neg hquote]
      rw [hchar, doubleBrace]
      split
      · rw [List.cons_append, List.singleton_append, zigLiteral_plain hcontrol hquote hslash,
          zigLiteral_plain hcontrol hquote hslash, Option.map_map]
        rfl
      · exact zigLiteral_plain hcontrol hquote hslash rest

theorem zigLiteral_quoteLiteral {json : Text} (h : ∀ c ∈ json, isControl c = false) :
    zigLiteral .plain (quoteLiteral json) = some (json.flatMap doubleBrace) := by
  rw [quoteLiteral_eq]
  induction json with
  | nil => rfl
  | cons c json ih =>
    obtain ⟨hc, hrest⟩ := List.forall_mem_cons.mp h
    rw [List.flatMap_cons, zigLiteral_literalChar hc, ih hrest]
    rfl

/-- The format reader undoes the third. -/
theorem formatText_doubleBrace (c : Char) (rest : Text) :
    formatText (doubleBrace c ++ rest) = (formatText rest).map (c :: ·) := by
  rw [doubleBrace]
  split
  · rename_i hbrace
    rw [List.cons_append, List.singleton_append, formatText, if_pos hbrace, if_pos rfl]
  · rename_i hbrace
    rw [List.singleton_append]
    cases rest with
    | nil => exact if_neg hbrace
    | cons d rest => rw [formatText, if_neg hbrace]

theorem formatText_flatMap (json : Text) : formatText (json.flatMap doubleBrace) = some json := by
  induction json with
  | nil => rfl
  | cons c json ih =>
    rw [List.flatMap_cons, formatText_doubleBrace, ih]
    rfl

theorem crossnativeManifest_eq {sigs : List FnSig} (h : ∀ c ∈ manifestJson sigs, isControl c = false) :
    crossnativeManifest sigs = some (manifestJson sigs) := by
  rw [crossnativeManifest, manifestLiteral, zigLiteral_quoteLiteral h]
  exact formatText_flatMap _

/-! ## The signatures in a document -/

def Doc.get (doc : Doc) (key : String) : Option Doc :=
  match doc with
  | .fields entries => entries.lookup key.toList
  | _ => none

def Doc.getText (doc : Doc) (key : String) : Option Text :=
  match doc.get key with
  | some (.text s) => some s
  | _ => none

def Doc.readParam (doc : Doc) : Option Param :=
  match doc.getText "name", doc.getText "type" with
  | some name, some type => some ⟨name, type⟩
  | _, _ => none

def readParams : List Doc → Option (List Param)
  | [] => some []
  | doc :: docs =>
    match doc.readParam, readParams docs with
    | some param, some params => some (param :: params)
    | _, _ => none

def Doc.readSignature (doc : Doc) : Option FnSig :=
  match doc.getText "name", doc.get "params", doc.getText "returns" with
  | some name, some (.items docs), some returns => (readParams docs).map fun params => ⟨name, params, returns, none⟩
  | _, _, _ => none

def readSignatures : List Doc → Option (List FnSig)
  | [] => some []
  | doc :: docs =>
    match doc.readSignature, readSignatures docs with
    | some sig, some sigs => some (sig :: sigs)
    | _, _ => none

def readManifest (text : Text) : Option (List FnSig) :=
  match parseDoc text with
  | some (.items docs) => readSignatures docs
  | _ => none

/-- The C symbol is not published. -/
def FnSig.published (sig : FnSig) : FnSig := { sig with cName := none }

theorem readParams_documents (params : List Param) : readParams (params.map Param.document) = some params := by
  induction params with
  | nil => rfl
  | cons param params ih =>
    have hparam : param.document.readParam = some param := rfl
    rw [List.map_cons, readParams, hparam, ih]

theorem readSignature_document (sig : FnSig) : sig.document.readSignature = some sig.published := by
  have hparams := readParams_documents sig.params
  have hread : sig.document.readSignature =
      (readParams (sig.params.map Param.document)).map fun params => ⟨sig.name, params, sig.returns, none⟩ := rfl
  rw [hread, hparams]
  rfl

theorem readManifest_manifestJson (sigs : List FnSig) :
    readManifest (manifestJson sigs) = some (sigs.map FnSig.published) := by
  rw [readManifest, manifestJson, parseDoc_stringify]
  induction sigs with
  | nil => rfl
  | cons sig sigs ih =>
    simp only [List.map_cons, readSignatures, readSignature_document]
    simp only at ih
    rw [ih]

/-- The document comes through the three layers of quoting as it was, and is that of the list. -/
theorem manifest_survives {sigs : List FnSig} (h : ∀ c ∈ manifestJson sigs, isControl c = false) :
    crossnativeManifest sigs = some (manifestJson sigs) ∧
      (crossnativeManifest sigs).bind readManifest = some (sigs.map FnSig.published) := by
  rw [crossnativeManifest_eq h]
  exact ⟨rfl, readManifest_manifestJson sigs⟩

/-- A name with a quote, a backslash and a brace in it. -/
def oddSignature : FnSig where
  name := [quoteMark, backslash, '{']
  params := [⟨['}'], "f64".toList⟩]
  returns := "void".toList
  cName := none

theorem manifest_survives_odd :
    crossnativeManifest [oddSignature] = some (manifestJson [oddSignature]) ∧
      (crossnativeManifest [oddSignature]).bind readManifest = some [oddSignature] := by
  have hcontrol : (manifestJson [oddSignature]).all (fun c => !isControl c) = true := by decide
  exact manifest_survives fun c hc => by simpa using List.all_eq_true.mp hcontrol c hc

end CrossNative.Linked
