import CrossNative.Text.RoundTrip

/-!
# Reading, printing and reading again

The parser decides the language of the texts that denote a document. What it returns is
stored without a loss, so a document that has been read once is stable under printing.
-/

namespace CrossNative.Text

set_option autoImplicit false

open Basis

/-! ## What the parser returns -/

/-- The numbers a token can carry. -/
def Token.InRange : Token → Prop
  | .valueUnsigned n => n < 2 ^ 64
  | .valueInteger n => -2 ^ 63 ≤ n ∧ n < 2 ^ 64
  | _ => True

theorem NumberLiteral.token_inRange (l : NumberLiteral) : l.token.InRange := by
  unfold NumberLiteral.token
  split
  · simp only [Token.InRange]
    omega
  split
  · simp only [Token.InRange]
    omega
  · trivial

theorem Lexeme.inRange {token : Token} {text : List UInt8} {next : Option UInt8} (h : Lexeme token text next) :
    token.InRange := by
  cases h with
  | number => exact NumberLiteral.token_inRange _
  | _ => trivial

theorem Spells.inRange {ts : List Token} {text : List UInt8} (h : Spells ts text) : ∀ token ∈ ts, token.InRange := by
  induction h with
  | done => simp
  | token hspace h hrest ih => exact List.forall_mem_cons.mpr ⟨h.inRange, ih⟩

/-- A document the library can hold and that its text denotes: the numbers in it are finite. -/
structure Settled (j : Json) : Prop where
  stored : Stored j
  dump_eq : j.dump = j

theorem settled_int {n : Int} (hlow : -2 ^ 63 ≤ n) (hhigh : n < 2 ^ 64) : Settled (.int n) where
  stored := .int hlow hhigh
  dump_eq := Json.dump_int n

theorem settled_float {bits : Nat} (h : FloatFormat.binary64.IsFinite bits) : Settled (.float (.ofNat 64 bits)) where
  stored := .float _
  dump_eq := by
    have hmod : (BitVec.ofNat 64 bits).toNat % FloatFormat.binary64.signBit = bits % FloatFormat.binary64.signBit := by
      rw [BitVec.toNat_ofNat, show FloatFormat.binary64.signBit = 2 ^ 63 by decide]
      omega
    have hfinite : FloatFormat.binary64.IsFinite (BitVec.ofNat 64 bits).toNat := by
      unfold FloatFormat.IsFinite FloatFormat.magnitude at h ⊢
      rwa [hmod]
    rw [Json.dump, if_pos hfinite]

theorem settled_arr {items : List Json} (h : ∀ j ∈ items, Settled j) : Settled (.arr items) where
  stored := .arr fun j hj => (h j hj).stored
  dump_eq := by
    rw [Json.dump, Json.dumpItems_eq_map, List.map_congr_left fun j hj => (h j hj).dump_eq, List.map_id']

theorem settled_obj {fields : List (String × Json)} (hsorted : SortedFields fields)
    (h : ∀ field ∈ fields, Settled field.2) : Settled (.obj fields) where
  stored := .obj hsorted fun field hfield => (h field hfield).stored
  dump_eq := by
    have hfields : ∀ field ∈ fields, (field.1, field.2.dump) = field := by
      intro field hfield
      rw [(h field hfield).dump_eq]
    rw [Json.dump, Json.dumpFields_eq_map, List.map_congr_left hfields, List.map_id']

theorem collect_spec (members : List (String × Json)) :
    SortedFields (collect members) ∧ ∀ field ∈ collect members, field ∈ members := by
  have hfold (before fields : List (String × Json)) (hsorted : SortedFields fields)
      (hbefore : ∀ field ∈ fields, field ∈ before ++ members) :
      SortedFields (members.foldl (fun fields member => setField member.1 member.2 fields) fields) ∧
        ∀ field ∈ members.foldl (fun fields member => setField member.1 member.2 fields) fields,
          field ∈ before ++ members := by
    induction members generalizing before fields with
    | nil => exact ⟨hsorted, hbefore⟩
    | cons member rest ih =>
      have hstep := ih (before ++ [member]) (setField member.1 member.2 fields) (hsorted.setField _ _) (by
        intro field hfield
        rw [List.append_assoc]
        rcases mem_setField hfield with rfl | hfield
        · simp
        · exact hbefore field hfield)
      rwa [List.append_assoc] at hstep
  exact hfold [] [] List.Pairwise.nil (by simp)

def Phrase.Settled (phrase : Phrase) : Prop :=
  match phrase with
  | .value j => Text.Settled j
  | .elements items => ∀ j ∈ items, Text.Settled j
  | .members named => ∀ member ∈ named, Text.Settled member.2

theorem Derives.settled {phrase : Phrase} {ts : List Token} (h : Derives phrase ts)
    (hrange : ∀ token ∈ ts, token.InRange) : phrase.Settled := by
  induction h with
  | null => exact ⟨.null, rfl⟩
  | litTrue => exact ⟨.bool true, rfl⟩
  | litFalse => exact ⟨.bool false, rfl⟩
  | unsigned n =>
    have hn : n < 2 ^ 64 := hrange _ List.mem_cons_self
    exact settled_int (by omega) (by omega)
  | integer n =>
    have hn : -2 ^ 63 ≤ n ∧ n < 2 ^ 64 := hrange _ List.mem_cons_self
    exact settled_int hn.1 hn.2
  | float h => exact settled_float h
  | string s => exact ⟨.str _, rfl⟩
  | emptyArray => exact settled_arr (by simp)
  | array h ih => exact settled_arr (ih fun token htoken => hrange token (by simp [htoken]))
  | emptyObject => exact settled_obj List.Pairwise.nil (by simp)
  | object h ih =>
    obtain ⟨hsorted, hmem⟩ := collect_spec _
    have hmembers := ih fun token htoken => hrange token (by simp [htoken])
    exact settled_obj hsorted fun field hfield => hmembers field (hmem field hfield)
  | oneElement h ih =>
    intro j hj
    obtain rfl := List.mem_singleton.mp hj
    exact ih hrange
  | nextElement h h' ih ih' =>
    obtain ⟨hfront, hback⟩ := List.forall_mem_append.mp hrange
    intro j hj
    rcases List.mem_append.mp hj with hj | hj
    · exact ih hfront j hj
    · obtain rfl := List.mem_singleton.mp hj
      exact ih' fun token htoken => hback token (by simp [htoken])
  | oneMember key h ih =>
    intro member hmember
    obtain rfl := List.mem_singleton.mp hmember
    exact ih fun token htoken => hrange token (by simp [htoken])
  | nextMember key h h' ih ih' =>
    obtain ⟨hfront, hback⟩ := List.forall_mem_append.mp hrange
    intro member hmember
    rcases List.mem_append.mp hmember with hmember | hmember
    · exact ih hfront member hmember
    · obtain rfl := List.mem_singleton.mp hmember
      exact ih' fun token htoken => hback token (by simp [htoken])

theorem Denotes.settled {text : List UInt8} {j : Json} (h : Denotes text j) : Settled j := by
  obtain ⟨ts, body, -, hspells, hderives⟩ := h
  exact hderives.settled hspells.inRange

/-! ## Round trips -/

/-- Every document is printed on one line of UTF-8, and the text is read as the document; what
is not a number has become null. -/
theorem parse_dump {j : Json} (h : Stored j) :
    ∃ text, Serializer.dump j = .ok text ∧ OneLine text ∧ parse text = .ok j.dump := by
  obtain ⟨text, hdump, hdenotes, hline⟩ := h.denotes
  exact ⟨text, hdump, hline, parse_of_denotes hdenotes⟩

/-- An infinity, an `é` and a line feed. -/
def printSample : Json := .obj [("a", .float 0x7FF0000000000000), ("b", .str "é\n")]

theorem stored_printSample : Stored printSample := by
  refine .obj (by simp [SortedFields, keyLess_iff]; decide) ?_
  simp [Stored.float, Stored.str]

theorem parse_dump_sample : ∃ text, Serializer.dump printSample = .ok text ∧ OneLine text ∧
    parse text = .ok (.obj [("a", .null), ("b", .str "é\n")]) := parse_dump stored_printSample

/-- A document that has been read is printed on one line and read again without a change. -/
theorem dump_parse {text : List UInt8} {j : Json} (h : parse text = .ok j) :
    Stored j ∧ ∃ printed, Serializer.dump j = .ok printed ∧ OneLine printed ∧ parse printed = .ok j := by
  have hsettled := (denotes_of_parse h).settled
  obtain ⟨printed, hdump, hdenotes, hline⟩ := hsettled.stored.denotes
  rw [hsettled.dump_eq] at hdenotes
  exact ⟨hsettled.stored, printed, hdump, hline, parse_of_denotes hdenotes⟩

/-- An object with unsorted keys and a repeated one. -/
def readSample : List UInt8 := bytesOf "[1, \x7b\"b\":2, \"a\":3, \"b\":4\x7d]"

theorem dump_parse_sample : Stored (.arr [.int 1, .obj [("a", .int 3), ("b", .int 4)]]) ∧
    ∃ printed, Serializer.dump (.arr [.int 1, .obj [("a", .int 3), ("b", .int 4)]]) = .ok printed ∧ OneLine printed ∧
      parse printed = .ok (.arr [.int 1, .obj [("a", .int 3), ("b", .int 4)]]) :=
  @dump_parse readSample _ rfl

theorem denotes_literal {l : NumberLiteral} (h : l.WellFormed) {j : Json} (hj : Derives (.value j) [l.token]) :
    Denotes l.text j := by
  have hends : l.Ends ([] : List UInt8).head? := by simp [NumberLiteral.Ends]
  have hdone : Spells [] ([] ++ []) := .done isSpace_nil (by simp [AtEnd])
  have hspells := spells_cons l.text (.number h hends) hdone
  rw [List.append_nil l.text] at hspells
  exact ⟨[l.token], l.text, Or.inl rfl, hspells, hj⟩

/-- `to_chars` prints every finite double within the buffer and without a failed assertion, and
the parser reads the very bits back. -/
theorem toChars_parse {bits : Nat} (hbits : bits < 2 ^ 64) (hfinite : FloatFormat.binary64.IsFinite bits) :
    ∃ text, toChars Serializer.numberBufferSize bits = some text ∧ text.length ≤ 24 ∧ strtod text = bits ∧
      parse text = .ok (.float (.ofNat 64 bits)) := by
  obtain ⟨l, hprint, hwell, hfloat, hlength, hstrtod⟩ := toChars_roundTrip hbits hfinite
  refine ⟨l.text, hprint, hlength, hstrtod, parse_of_denotes (denotes_literal hwell ?_)⟩
  rw [NumberLiteral.token_float hwell hfloat, hstrtod]
  exact .float hfinite

/-- The double nearest to one tenth. -/
theorem toChars_parse_tenth : ∃ text, toChars Serializer.numberBufferSize 0x3FB999999999999A = some text ∧
    text.length ≤ 24 ∧ strtod text = 0x3FB999999999999A ∧ parse text = .ok (.float (.ofNat 64 0x3FB999999999999A)) :=
  toChars_parse (by decide) (by decide)

/-- `dump_integer` prints every integer of the library whatever the number buffer holds. -/
theorem dumpInteger_parse {x : Int} (hlow : -2 ^ 63 ≤ x) (hhigh : x < 2 ^ 64) {buffer : List UInt8}
    (hbuffer : buffer.length = Serializer.numberBufferSize) :
    ∃ text, Serializer.dumpInteger buffer x = .ok text ∧ text.length ≤ 20 ∧ parse text = .ok (.int x) := by
  obtain ⟨digits, hdigits, hvalue, hprint⟩ := Serializer.dumpInteger_ok hlow hhigh buffer hbuffer
  refine ⟨_, hprint, ?_, parse_of_denotes (denotes_literal (NumberLiteral.wellFormed_integer _ hdigits) ?_)⟩
  · have hlength {n : Nat} (hn : 0 < n) (hlt : x.natAbs < 10 ^ n) : digits.length ≤ n := by
      rcases hdigits with rfl | hcanonical
      · exact hn
      · exact hcanonical.length_le (hvalue ▸ hlt)
    rw [NumberLiteral.text_integer, List.length_append]
    by_cases hnegative : x < 0
    · have hdigits := @hlength 19 (by decide) (by omega)
      simp [NumberLiteral.signText, hnegative]
      omega
    · have hdigits := @hlength 20 (by decide) (by omega)
      simp [NumberLiteral.signText, hnegative]
      omega
  · exact derives_integer hlow hhigh hvalue

/-- The least integer, in a buffer full of other bytes. -/
theorem dumpInteger_parse_least :
    ∃ text, Serializer.dumpInteger (List.replicate Serializer.numberBufferSize 0x39) (-2 ^ 63) = .ok text ∧
      text.length ≤ 20 ∧ parse text = .ok (.int (-2 ^ 63)) :=
  dumpInteger_parse (by decide) (by decide) List.length_replicate

/-- `dump_escaped` prints UTF-8 such that the parser reads the same text, and throws at all other
bytes; it never leaves its buffer. -/
theorem dumpEscaped_parse (bytes : List UInt8) :
    (∀ s, bytes = bytesOf s → ∃ text, Serializer.dumpEscaped bytes = .ok text ∧ OneLine text ∧
      parse (quote :: text ++ [quote]) = .ok (.str s)) ∧
    (¬ IsUtf8 bytes → ∃ message, Serializer.dumpEscaped bytes = .error (Serializer.typeError316 message)) := by
  refine ⟨?_, fun h => (Serializer.dumpEscaped_not_utf8 h).imp fun _ hmessage => hmessage.1⟩
  rintro s rfl
  obtain ⟨chars, hchars⟩ := isUtf8_bytesOf s
  refine ⟨Serializer.escapeText chars, by rw [hchars, Serializer.dumpEscaped_utf8], oneLine_escapeText chars, ?_⟩
  have hlexeme : Lexeme (.valueString (utf8Text chars)) (quote :: (Serializer.escapeText chars ++ [quote])) none :=
    .valueString (Serializer.charsText_escapeText chars) none
  have hdone : Spells [] ([] ++ []) := .done isSpace_nil (by simp [AtEnd])
  have hspells := @spells_cons _ _ [] hlexeme _ hdone
  rw [List.append_nil] at hspells
  have hderives := Derives.string (bytesOf s)
  rw [decoded_bytesOf, hchars] at hderives
  exact parse_of_denotes ⟨_, _, Or.inl rfl, hspells, hderives⟩

end CrossNative.Text
