import CrossNative.Runtime
import CrossNative.Text.Escapes
import CrossNative.Text.IntegerText
import CrossNative.Text.Language

/-!
# Printing a document and reading it again

Every document the library can hold prints, and the text denotes the document. What the
parser returns is such a document, and prints as a text that is read as the same document.
-/

namespace CrossNative.Text

set_option autoImplicit false

open Basis

/-! ## Objects -/

theorem keyLess_iff {a b : String} : keyLess a b = true ↔ bytesOf a < bytesOf b := by
  simp [keyLess]

theorem keyLess_trans {a b c : String} (h : keyLess a b = true) (h' : keyLess b c = true) : keyLess a c = true :=
  keyLess_iff.mpr (List.lt_trans (keyLess_iff.mp h) (keyLess_iff.mp h'))

theorem keyLess_asymm {a b : String} (h : keyLess a b = true) : ¬ keyLess b a = true := by
  rw [keyLess_iff] at h ⊢
  exact List.lt_asymm h

theorem keyLess_total {a b : String} (h : ¬ keyLess a b = true) (hne : a ≠ b) : keyLess b a = true := by
  rw [keyLess_iff] at h ⊢
  exact Std.lt_of_le_of_ne h fun heq => hne (bytesOf_inj heq.symm)

/-- The keys are different and in the order of a `std::map`. -/
def SortedFields (fields : List (String × Json)) : Prop :=
  fields.Pairwise fun a b => keyLess a.1 b.1 = true

theorem mem_setField {key : String} {v : Json} {fields : List (String × Json)} {field : String × Json}
    (h : field ∈ setField key v fields) : field = (key, v) ∨ field ∈ fields := by
  induction fields with
  | nil => exact Or.inl (List.mem_singleton.mp h)
  | cons head rest ih =>
    obtain ⟨k, w⟩ := head
    unfold setField at h
    split at h
    · exact List.mem_cons.mp h
    split at h
    · rcases List.mem_cons.mp h with rfl | hrest
      · exact Or.inl rfl
      · exact Or.inr (List.mem_cons_of_mem _ hrest)
    · rcases List.mem_cons.mp h with rfl | hrest
      · exact Or.inr List.mem_cons_self
      · exact (ih hrest).imp id (List.mem_cons_of_mem _)

theorem SortedFields.setField {fields : List (String × Json)} (h : SortedFields fields) (key : String) (v : Json) :
    SortedFields (setField key v fields) := by
  induction fields with
  | nil => exact List.pairwise_singleton _ _
  | cons head rest ih =>
    obtain ⟨k, w⟩ := head
    obtain ⟨hhead, hrest⟩ := List.pairwise_cons.mp h
    unfold Text.setField
    by_cases hless : keyLess key k = true
    · rw [if_pos hless]
      refine List.pairwise_cons.mpr ⟨?_, h⟩
      intro field hfield
      rcases List.mem_cons.mp hfield with rfl | hfield
      · exact hless
      · exact keyLess_trans hless (hhead field hfield)
    rw [if_neg hless]
    by_cases heq : key = k
    · rw [if_pos heq]
      exact List.pairwise_cons.mpr ⟨fun field hfield => heq ▸ hhead field hfield, hrest⟩
    · rw [if_neg heq]
      refine List.pairwise_cons.mpr ⟨?_, ih hrest⟩
      intro field hfield
      rcases mem_setField hfield with rfl | hfield
      · exact keyLess_total hless heq
      · exact hhead field hfield

theorem setField_last {key : String} {v : Json} {fields : List (String × Json)}
    (h : ∀ field ∈ fields, keyLess field.1 key = true) : setField key v fields = fields ++ [(key, v)] := by
  induction fields with
  | nil => rfl
  | cons head rest ih =>
    obtain ⟨k, w⟩ := head
    have hless := h (k, w) List.mem_cons_self
    have hne : key ≠ k := by
      rintro rfl
      exact keyLess_asymm hless hless
    rw [setField, if_neg (keyLess_asymm hless), if_neg hne, ih fun field hfield => h field (List.mem_cons_of_mem _ hfield)]
    rfl

theorem collect_sorted {members : List (String × Json)} (h : SortedFields members) : collect members = members := by
  have hfold (before : List (String × Json)) (hall : SortedFields (before ++ members)) :
      members.foldl (fun fields member => setField member.1 member.2 fields) before = before ++ members := by
    induction members generalizing before with
    | nil => simp
    | cons member rest ih =>
      obtain ⟨-, -, hlast⟩ := List.pairwise_append.mp hall
      rw [List.foldl_cons, setField_last fun field hfield => hlast field hfield member List.mem_cons_self,
        ih (List.pairwise_cons.mp h).2 (before ++ [(member.1, member.2)]) (by simpa using hall)]
      simp
  exact hfold [] (by simpa using h)

/-! ## Documents -/

/-- A document the library can hold, with strings of UTF-8. Other strings, binary values and discarded
ones are left out. -/
inductive Stored : Json → Prop
  | null : Stored .null
  | bool (b : Bool) : Stored (.bool b)
  | int {n : Int} (hlow : -2 ^ 63 ≤ n) (hhigh : n < 2 ^ 64) : Stored (.int n)
  | float (bits : BitVec 64) : Stored (.float bits)
  | str (s : String) : Stored (.str s)
  | arr {items : List Json} (h : ∀ j ∈ items, Stored j) : Stored (.arr items)
  | obj {fields : List (String × Json)} (hsorted : SortedFields fields) (h : ∀ field ∈ fields, Stored field.2) :
      Stored (.obj fields)

/-- A value may be followed by the end, a comma or a closing bracket. -/
def Follows (rest : List UInt8) : Prop := ∀ c, rest.head? = some c → c = 0x2C ∨ c = 0x5D ∨ c = 0x7D

/-- The text spells these tokens in front of others. -/
def Extends (ts : List Token) (text : List UInt8) : Prop :=
  ∀ ts' rest, Follows rest → Spells ts' rest → Spells (ts ++ ts') (text ++ rest)

theorem isSpace_nil : IsSpace [] := by simp [IsSpace]

theorem spells_cons {token : Token} (text : List UInt8) {rest : List UInt8} (h : Lexeme token text rest.head?)
    {ts : List Token} (hrest : Spells ts rest) : Spells (token :: ts) (text ++ rest) :=
  show Spells _ ([] ++ (text ++ rest)) from .token isSpace_nil h hrest

theorem extends_lexeme {token : Token} {text : List UInt8}
    (h : ∀ rest, Follows rest → Lexeme token text rest.head?) : Extends [token] text := by
  intro ts' rest hfollows hrest
  exact spells_cons text (h rest hfollows) hrest

theorem ends_of_follows (l : NumberLiteral) {rest : List UInt8} (h : Follows rest) : l.Ends rest.head? := by
  intro c hc
  rcases h c hc with rfl | rfl | rfl
  all_goals
    refine ⟨?_, ?_, ?_⟩
    all_goals
      intro hcontra
      exact absurd hcontra (by decide)

theorem decoded_bytesOf (s : String) : decoded (bytesOf s) = s := by
  rw [decoded, textOf?_bytesOf, Option.getD_some]

theorem Derives.consElement {j : Json} {items : List Json} {ts ts' : List Token} (h : Derives (.value j) ts)
    (h' : Derives (.elements items) ts') : Derives (.elements (j :: items)) (ts ++ .valueSeparator :: ts') := by
  generalize hphrase : Phrase.elements items = phrase at h'
  induction h' generalizing items with
  | oneElement hlast =>
    cases hphrase
    exact .nextElement (.oneElement h) hlast
  | nextElement hitems hlast ih =>
    cases hphrase
    have hmore := Derives.nextElement (ih rfl) hlast
    rw [List.append_assoc, List.cons_append] at hmore
    exact hmore
  | _ => cases hphrase

theorem Derives.consMember (key : String) {j : Json} {members : List (String × Json)} {ts ts' : List Token}
    (h : Derives (.value j) ts) (h' : Derives (.members members) ts') :
    Derives (.members ((key, j) :: members))
      (.valueString (bytesOf key) :: .nameSeparator :: (ts ++ .valueSeparator :: ts')) := by
  have hfirst := Derives.oneMember (bytesOf key) h
  rw [decoded_bytesOf] at hfirst
  generalize hphrase : Phrase.members members = phrase at h'
  induction h' generalizing members with
  | oneMember other hlast =>
    cases hphrase
    exact .nextMember other hfirst hlast
  | nextMember other hmembers hlast ih =>
    cases hphrase
    have hmore := Derives.nextMember other (ih rfl) hlast
    simpa using hmore
  | _ => cases hphrase

/-- ASCII without control characters. -/
def IsPlain (text : List UInt8) : Prop := ∀ b ∈ text, 0x20 ≤ b.toNat ∧ b.toNat < 0x80

instance (text : List UInt8) : Decidable (IsPlain text) :=
  decidable_of_iff (text.all fun b => 0x20 ≤ b.toNat && b.toNat < 0x80) (by simp [IsPlain])

/-- UTF-8 without control characters. -/
structure OneLine (text : List UInt8) : Prop where
  utf8 : IsUtf8 text
  printable : ∀ b ∈ text, 0x20 ≤ b.toNat

theorem OneLine.append {front back : List UInt8} (hfront : OneLine front) (hback : OneLine back) :
    OneLine (front ++ back) where
  utf8 := hfront.utf8.append hback.utf8
  printable := List.forall_mem_append.mpr ⟨hfront.printable, hback.printable⟩

theorem OneLine.ascii {text : List UInt8} (h : IsPlain text) : OneLine text where
  utf8 := by
    induction text with
    | nil => exact .nil
    | cons b text ih =>
      have hb : b < 0x80 := by simpa [UInt8.lt_iff_toNat_lt] using (h b List.mem_cons_self).2
      exact (isUtf8_ascii hb).append (ih fun c hc => h c (List.mem_cons_of_mem _ hc))
  printable := fun b hb => (h b hb).1

theorem OneLine.byte {b : UInt8} (h : 0x20 ≤ b.toNat ∧ b.toNat < 0x80) : OneLine [b] :=
  .ascii fun _ hc => List.mem_singleton.mp hc ▸ h

theorem OneLine.enclose {text : List UInt8} (h : OneLine text) {opening closing : UInt8}
    (hopening : 0x20 ≤ opening.toNat ∧ opening.toNat < 0x80) (hclosing : 0x20 ≤ closing.toNat ∧ closing.toNat < 0x80) :
    OneLine (opening :: text ++ [closing]) :=
  (OneLine.byte hopening).append (h.append (OneLine.byte hclosing))

theorem hexLower_ascii : ∀ n < 16, 0x20 ≤ (Serializer.hexLower n).toNat ∧ (Serializer.hexLower n).toNat < 0x80 := by
  decide

theorem oneLine_unicode (n : Nat) : OneLine (Serializer.unicodeEscape n) := by
  refine .ascii ?_
  simp only [IsPlain, Serializer.unicodeEscape, List.mem_cons, List.not_mem_nil, or_false]
  have hdigit (m : Nat) := hexLower_ascii (m % 16) (Nat.mod_lt _ (by decide))
  rintro b (rfl | rfl | rfl | rfl | rfl | rfl)
  · decide
  · decide
  · exact hdigit _
  · exact hdigit _
  · exact hdigit _
  · exact hdigit _

theorem printable_encode {c : Char} (h : 0x20 ≤ c.toNat) : ∀ b ∈ String.utf8EncodeChar c, 0x20 ≤ b.toNat := by
  by_cases hascii : c.toNat < 0x80
  · rw [utf8EncodeChar_ascii hascii]
    intro b hb
    rw [List.mem_singleton.mp hb, toNat_ofNat_lt (by omega)]
    exact h
  · rw [utf8EncodeChar_eq, if_neg (by omega)]
    have hhigh (n : Nat) (hn : 0x20 ≤ n) (hn' : n < 0x100) : 0x20 ≤ (UInt8.ofNat n).toNat := by
      rwa [toNat_ofNat_lt hn']
    split
    · simp only [List.mem_cons, List.not_mem_nil, or_false]
      rintro b (rfl | rfl) <;> exact hhigh _ (by omega) (by omega)
    split
    · simp only [List.mem_cons, List.not_mem_nil, or_false]
      rintro b (rfl | rfl | rfl) <;> exact hhigh _ (by omega) (by omega)
    · simp only [List.mem_cons, List.not_mem_nil, or_false]
      rintro b (rfl | rfl | rfl | rfl) <;> exact hhigh _ (by omega) (by omega)

theorem oneLine_escapeChar (c : Char) : OneLine (Serializer.escapeChar c) := by
  unfold Serializer.escapeChar
  split
  · exact .ascii (by decide)
  split
  · exact .ascii (by decide)
  split
  · exact .ascii (by decide)
  split
  · exact .ascii (by decide)
  split
  · exact .ascii (by decide)
  split
  · exact .ascii (by decide)
  split
  · exact .ascii (by decide)
  split
  · exact oneLine_unicode _
  · exact ⟨isUtf8_char c, printable_encode (by omega)⟩

theorem oneLine_escapeText (chars : List Char) : OneLine (Serializer.escapeText chars) := by
  induction chars with
  | nil => exact .ascii (by decide)
  | cons c chars ih => exact (oneLine_escapeChar c).append ih

theorem oneLine_digits {digits : List UInt8} (h : IsNumeral digits) : OneLine digits := by
  refine .ascii ?_
  intro b hb
  have := (isDigit_iff b).mp (h b hb)
  omega

theorem oneLine_literal {l : NumberLiteral} (h : l.WellFormed) : OneLine l.text := by
  have hsign : OneLine (NumberLiteral.signText l.negative) := by
    cases l.negative <;> exact .ascii (by decide)
  refine hsign.append ((oneLine_digits h.whole_numeral.1).append (.append ?_ ?_))
  · cases hfraction : l.fraction with
    | none => exact .ascii (by decide)
    | some digits =>
      exact (OneLine.byte (b := point) (by decide)).append (oneLine_digits (h.fraction digits hfraction).1)
  · cases hexponent : l.exponent with
    | none => exact .ascii (by decide)
    | some parts =>
      obtain ⟨mark, sign, digits⟩ := parts
      obtain ⟨hmark, hsign, hdigits, -⟩ := h.exponent mark sign digits hexponent
      have hfirst : OneLine [mark] := by
        simp only [isExponentMark, Bool.or_eq_true, beq_iff_eq] at hmark
        rcases hmark with rfl | rfl <;> exact .ascii (by decide)
      have hsecond : OneLine sign.toList := by
        cases sign with
        | none => exact .ascii (by decide)
        | some c =>
          rcases hsign c rfl with rfl | rfl <;> exact .ascii (by decide)
      exact hfirst.append (hsecond.append (oneLine_digits hdigits))

theorem lexeme_string (s : String) (next : Option UInt8) :
    ∃ text, Serializer.dumpString s = .ok text ∧ Lexeme (.valueString (bytesOf s)) text next ∧ OneLine text := by
  obtain ⟨chars, hchars⟩ := isUtf8_bytesOf s
  have hquote : OneLine [quote] := .ascii (by decide)
  refine ⟨quote :: (Serializer.escapeText chars ++ [quote]), ?_, ?_,
    hquote.append ((oneLine_escapeText chars).append hquote)⟩
  · rw [Serializer.dumpString, hchars, Serializer.dumpEscaped_utf8]
    rfl
  · rw [hchars]
    exact .valueString (Serializer.charsText_escapeText chars) next

/-- The document prints as a spelling of its tokens, on one line. -/
def Prints (j : Json) : Prop :=
  ∃ text ts, Serializer.dump j = .ok text ∧ Derives (.value j.dump) ts ∧ Extends ts text ∧ OneLine text

theorem prints_single {j : Json} (text : List UInt8) (token : Token) (hdump : Serializer.dump j = .ok text)
    (hderives : Derives (.value j.dump) [token]) (h : ∀ rest, Follows rest → Lexeme token text rest.head?)
    (hline : OneLine text) : Prints j := ⟨text, [token], hdump, hderives, extends_lexeme h, hline⟩

theorem derives_integer {n : Int} (hlow : -2 ^ 63 ≤ n) (hhigh : n < 2 ^ 64) {digits : List UInt8}
    (hvalue : decimalValue digits = n.natAbs) :
    Derives (.value (.int n)) [(NumberLiteral.integer (decide (n < 0)) digits).token] := by
  rw [Serializer.token_integer hlow hhigh hvalue]
  split
  · exact .integer n
  · have hunsigned := Derives.unsigned n.natAbs
    rwa [show (n.natAbs : Int) = n by omega] at hunsigned

theorem NumberLiteral.token_float {l : NumberLiteral} (h : l.WellFormed) (hfloat : l.IsFloat) :
    l.token = .valueFloat (strtod l.text) := by
  have hnot : ¬ (l.fraction = none ∧ l.exponent = none) := by
    rintro ⟨hfraction, hexponent⟩
    rcases hfloat with hne | hne
    · exact hne hfraction
    · exact hne hexponent
  rw [NumberLiteral.token, if_neg fun h => hnot ⟨h.1, h.2.1⟩, if_neg fun h => hnot ⟨h.1, h.2.1⟩, ← h.strtod_text]

theorem prints_int {n : Int} (hlow : -2 ^ 63 ≤ n) (hhigh : n < 2 ^ 64) : Prints (.int n) := by
  obtain ⟨digits, hdigits, hvalue, hprint⟩ := Serializer.dumpInteger_ok hlow hhigh
    (List.replicate Serializer.numberBufferSize 0) (by simp)
  have hdump : Serializer.dump (.int n) = .ok (NumberLiteral.integer (decide (n < 0)) digits).text := by
    rw [Serializer.dump, hprint]
  have hwell := NumberLiteral.wellFormed_integer (decide (n < 0)) hdigits
  refine prints_single _ (NumberLiteral.integer (decide (n < 0)) digits).token hdump ?_ ?_ (oneLine_literal hwell)
  · rw [Json.dump_int]
    exact derives_integer hlow hhigh hvalue
  · intro rest hfollows
    exact .number hwell (ends_of_follows _ hfollows)

theorem prints_float (bits : BitVec 64) : Prints (.float bits) := by
  by_cases hfinite : FloatFormat.binary64.IsFinite bits.toNat
  · obtain ⟨l, hprint, hwell, hfloat, -, hstrtod⟩ := toChars_roundTrip bits.isLt hfinite
    have hdump : Serializer.dump (.float bits) = .ok l.text := by
      rw [Serializer.dump, Serializer.dumpFloat, if_pos hfinite, Serializer.numberBufferSize, hprint]
    refine prints_single _ l.token hdump ?_ ?_ (oneLine_literal hwell)
    · rw [NumberLiteral.token_float hwell hfloat, hstrtod, Json.dump, if_pos hfinite]
      have hderives := Derives.float hfinite
      rwa [BitVec.ofNat_toNat, BitVec.setWidth_eq] at hderives
    · intro rest hfollows
      exact .number hwell (ends_of_follows l hfollows)
  · have hdump : Serializer.dump (.float bits) = .ok (bytesOf "null") := by
      rw [Serializer.dump, Serializer.dumpFloat, if_neg hfinite]
    refine prints_single _ .literalNull hdump ?_ ?_ (.ascii (by decide))
    · rw [Json.dump, if_neg hfinite]
      exact .null
    · intro rest hfollows
      exact .literalNull _

theorem prints_str (s : String) : Prints (.str s) := by
  obtain ⟨text, hprint, -, hline⟩ := lexeme_string s none
  refine prints_single text (.valueString (bytesOf s)) (by rw [Serializer.dump, hprint]) ?_ ?_ hline
  · have hderives := Derives.string (bytesOf s)
    rwa [decoded_bytesOf] at hderives
  · intro rest hfollows
    obtain ⟨text', hprint', hlexeme, -⟩ := lexeme_string s rest.head?
    obtain rfl := Except.ok.inj (hprint.symm.trans hprint')
    exact hlexeme

theorem follows_comma (rest : List UInt8) : Follows (0x2C :: rest) := by
  intro c hc
  exact Or.inl (Option.some.inj hc).symm

/-- A bracket closes what stands in front of it. -/
theorem Extends.enclose {ts : List Token} {text : List UInt8} (h : Extends ts text) {first last : Token}
    {opening closing : UInt8} (hopen : ∀ next, Lexeme first [opening] next)
    (hclose : ∀ next, Lexeme last [closing] next) (hclosing : closing = 0x5D ∨ closing = 0x7D) :
    Extends (first :: (ts ++ [last])) (opening :: text ++ [closing]) := by
  intro ts' rest hfollows hrest
  have hlast : Spells (last :: ts') (closing :: rest) := spells_cons [closing] (hclose _) hrest
  have hinner := h (last :: ts') (closing :: rest) (by
    intro c hc
    obtain rfl := Option.some.inj hc
    exact Or.inr hclosing) hlast
  have houter := spells_cons [opening] (hopen _) hinner
  simpa using houter

theorem Extends.comma {ts ts' : List Token} {text text' : List UInt8} (h : Extends ts text) (h' : Extends ts' text') :
    Extends (ts ++ .valueSeparator :: ts') (text ++ 0x2C :: text') := by
  intro us rest hfollows hrest
  have hlast := spells_cons [0x2C] (.valueSeparator _) (h' us rest hfollows hrest)
  have hfirst := h (.valueSeparator :: (ts' ++ us)) (0x2C :: (text' ++ rest)) (follows_comma _) hlast
  simpa using hfirst

theorem Extends.named {ts : List Token} {text name : List UInt8} {key : String} (h : Extends ts text)
    (hname : Serializer.dumpString key = .ok name) :
    Extends (.valueString (bytesOf key) :: .nameSeparator :: ts) (name ++ 0x3A :: text) := by
  intro us rest hfollows hrest
  have hvalue := spells_cons [0x3A] (.nameSeparator _) (h us rest hfollows hrest)
  obtain ⟨name', hname', hlexeme, -⟩ := lexeme_string key (0x3A :: (text ++ rest)).head?
  obtain rfl := Except.ok.inj (hname.symm.trans hname')
  have hkey := spells_cons name hlexeme hvalue
  simpa using hkey

theorem prints_items {j : Json} {items : List Json} (h : ∀ k ∈ j :: items, Prints k) :
    ∃ text ts, Serializer.dumpItems (j :: items) = .ok text ∧
      Derives (.elements ((j :: items).map Json.dump)) ts ∧ Extends ts text ∧ OneLine text := by
  induction items generalizing j with
  | nil =>
    obtain ⟨text, ts, hdump, hderives, hextends, hline⟩ := h j List.mem_cons_self
    exact ⟨text, ts, by rw [Serializer.dumpItems, hdump], .oneElement hderives, hextends, hline⟩
  | cons k items ih =>
    obtain ⟨text, ts, hdump, hderives, hextends, hline⟩ := h j List.mem_cons_self
    obtain ⟨texts, ts', hdumps, hderives', hextends', hline'⟩ := ih fun k hk => h k (List.mem_cons_of_mem _ hk)
    refine ⟨text ++ 0x2C :: texts, ts ++ .valueSeparator :: ts', ?_, hderives.consElement hderives',
      hextends.comma hextends', hline.append ((OneLine.byte (b := 0x2C) (by decide)).append hline')⟩
    rw [Serializer.dumpItems, hdump, hdumps]
    · rfl
    · simp

theorem prints_fields {field : String × Json} {fields : List (String × Json)}
    (h : ∀ other ∈ field :: fields, Prints other.2) :
    ∃ text ts, Serializer.dumpFields (field :: fields) = .ok text ∧
      Derives (.members (Json.dumpFields (field :: fields))) ts ∧ Extends ts text ∧ OneLine text := by
  induction fields generalizing field with
  | nil =>
    obtain ⟨key, j⟩ := field
    obtain ⟨name, hname, -, hnameLine⟩ := lexeme_string key none
    obtain ⟨text, ts, hdump, hderives, hextends, hline⟩ := h (key, j) List.mem_cons_self
    have hmember := Derives.oneMember (bytesOf key) hderives
    rw [decoded_bytesOf] at hmember
    refine ⟨name ++ 0x3A :: text, _, ?_, hmember, hextends.named hname,
      hnameLine.append ((OneLine.byte (b := 0x3A) (by decide)).append hline)⟩
    rw [Serializer.dumpFields, hname, hdump]
    rfl
  | cons next fields ih =>
    obtain ⟨key, j⟩ := field
    obtain ⟨name, hname, -, hnameLine⟩ := lexeme_string key none
    obtain ⟨text, ts, hdump, hderives, hextends, hline⟩ := h (key, j) List.mem_cons_self
    obtain ⟨texts, ts', hdumps, hderives', hextends', hline'⟩ := ih fun other hother => h other (List.mem_cons_of_mem _ hother)
    have hnamed := (hextends.comma hextends').named hname
    have hlines := hline.append ((OneLine.byte (b := 0x2C) (by decide)).append hline')
    refine ⟨name ++ 0x3A :: (text ++ 0x2C :: texts), _, ?_, hderives.consMember key hderives', hnamed,
      hnameLine.append ((OneLine.byte (b := 0x3A) (by decide)).append hlines)⟩
    rw [Serializer.dumpFields, hname, hdump, hdumps]
    · rfl
    · simp

theorem dumpFields_sorted {fields : List (String × Json)} (h : SortedFields fields) :
    SortedFields (Json.dumpFields fields) := by
  rw [Json.dumpFields_eq_map]
  exact List.pairwise_map.mpr h

theorem Stored.prints {j : Json} (h : Stored j) : Prints j := by
  induction h with
  | null =>
    exact prints_single (bytesOf "null") .literalNull (by rw [Serializer.dump]) .null
      (fun rest _ => .literalNull _) (.ascii (by decide))
  | bool b =>
    cases b with
    | true =>
      exact prints_single (bytesOf "true") .literalTrue (by rw [Serializer.dump]) .litTrue
        (fun rest _ => .literalTrue _) (.ascii (by decide))
    | false =>
      exact prints_single (bytesOf "false") .literalFalse (by rw [Serializer.dump]) .litFalse
        (fun rest _ => .literalFalse _) (.ascii (by decide))
  | int hlow hhigh => exact prints_int hlow hhigh
  | float bits => exact prints_float bits
  | str s => exact prints_str s
  | @arr items h ih =>
    cases items with
    | nil =>
      refine ⟨[0x5B, 0x5D], [.beginArray, .endArray], by rw [Serializer.dump]; rfl, .emptyArray, ?_, .ascii (by decide)⟩
      intro ts' rest hfollows hrest
      exact spells_cons [0x5B] (.beginArray _) (spells_cons [0x5D] (.endArray _) hrest)
    | cons j items =>
      obtain ⟨text, ts, hdump, hderives, hextends, hline⟩ := prints_items ih
      refine ⟨0x5B :: text ++ [0x5D], .beginArray :: (ts ++ [.endArray]), ?_, ?_,
        hextends.enclose .beginArray .endArray (Or.inl rfl), hline.enclose (by decide) (by decide)⟩
      · rw [Serializer.dump, hdump]
        rfl
      · rw [Json.dump, Json.dumpItems_eq_map]
        exact .array hderives
  | @obj fields hsorted h ih =>
    cases fields with
    | nil =>
      refine ⟨[0x7B, 0x7D], [.beginObject, .endObject], by rw [Serializer.dump]; rfl, .emptyObject, ?_, .ascii (by decide)⟩
      intro ts' rest hfollows hrest
      exact spells_cons [0x7B] (.beginObject _) (spells_cons [0x7D] (.endObject _) hrest)
    | cons field fields =>
      obtain ⟨text, ts, hdump, hderives, hextends, hline⟩ := prints_fields ih
      refine ⟨0x7B :: text ++ [0x7D], .beginObject :: (ts ++ [.endObject]), ?_, ?_,
        hextends.enclose .beginObject .endObject (Or.inr rfl), hline.enclose (by decide) (by decide)⟩
      · rw [Serializer.dump, hdump]
        rfl
      · have hobject := Derives.object hderives
        rwa [collect_sorted (dumpFields_sorted hsorted)] at hobject

/-- The text of a document denotes it. -/
theorem Stored.denotes {j : Json} (h : Stored j) :
    ∃ text, Serializer.dump j = .ok text ∧ Denotes text j.dump ∧ OneLine text := by
  obtain ⟨text, ts, hdump, hderives, hextends, hline⟩ := h.prints
  have hdone : Spells [] ([] ++ []) := .done isSpace_nil (by simp [AtEnd])
  have hspells := hextends [] [] (by simp [Follows]) hdone
  rw [List.append_nil, List.append_nil] at hspells
  exact ⟨text, hdump, ⟨ts, text, Or.inl rfl, hspells, hderives⟩, hline⟩

end CrossNative.Text
