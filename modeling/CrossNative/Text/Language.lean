import CrossNative.Text.Grammar

/-!
# The texts the parser accepts

A text denotes a document if it spells the tokens of a value, with whitespace between them.
The parser returns the document a text denotes and rejects all other texts.
-/

namespace CrossNative.Text

set_option autoImplicit false

open Basis

/-- A text that spells these tokens; a NUL byte where a token may start ends it. -/
inductive Spells : List Token → List UInt8 → Prop
  | done {space rest : List UInt8} (hspace : IsSpace space) (hend : AtEnd rest) : Spells [] (space ++ rest)
  | token {token : Token} {ts : List Token} {space text rest : List UInt8} (hspace : IsSpace space)
      (h : Lexeme token text rest.head?) (hrest : Spells ts rest) : Spells (token :: ts) (space ++ (text ++ rest))

theorem Spells.length_le {ts : List Token} {text : List UInt8} (h : Spells ts text) : ts.length ≤ text.length := by
  induction h with
  | done => simp
  | token hspace h hrest ih =>
    obtain ⟨c, others, rfl, -⟩ := h.head
    simp only [List.length_cons, List.length_append]
    omega

/-- No spelling starts like a byte order mark. -/
theorem Spells.head_ne {ts : List Token} {text : List UInt8} (h : Spells ts text) : text.head? ≠ some 0xEF := by
  have hspace {space : List UInt8} (hspace : IsSpace space) {rest : List UInt8} (hrest : rest.head? ≠ some 0xEF) :
      (space ++ rest).head? ≠ some 0xEF := by
    cases space with
    | nil => exact hrest
    | cons c space =>
      intro hc
      obtain rfl := Option.some.inj hc
      have hnot := hspace 0xEF (by simp)
      revert hnot
      decide
  cases h with
  | done hs hend =>
    refine hspace hs ?_
    intro hc
    have hzero := hend 0xEF hc
    revert hzero
    decide
  | token hs h hrest =>
    refine hspace hs ?_
    obtain ⟨c, others, rfl, -, hne, -⟩ := h.head
    intro hc
    exact hne (Option.some.inj hc)

/-- The tokens of the grammar carry no errors and do not end the input. -/
def Token.Proper (token : Token) : Prop := token ≠ .endOfInput ∧ ∀ message, token ≠ .parseError message

theorem NumberLiteral.token_proper (l : NumberLiteral) : l.token.Proper := by
  unfold NumberLiteral.token
  split
  · simp [Token.Proper]
  split <;> simp [Token.Proper]

theorem Lexeme.proper {token : Token} {text : List UInt8} {next : Option UInt8} (h : Lexeme token text next) :
    token.Proper := by
  cases h with
  | number => exact NumberLiteral.token_proper _
  | _ => simp [Token.Proper]

theorem Spells.first {token : Token} {ts : List Token} {text : List UInt8} (h : Spells (token :: ts) text) {s : Lexer}
    (hs : s.rest = text) :
    ∃ t, s.scanToken = (token, t) ∧ t.position.charsReadTotal ≠ 0 ∧ Spells ts t.rest := by
  cases h with
  | token hspace h hrest =>
    obtain ⟨t, ht, hscan⟩ := Lexer.scanToken_of hspace h hs
    rw [← List.append_assoc] at hs
    obtain ⟨c, others, rfl, -⟩ := h.head
    have htotal := ht.total
    rw [List.length_append, List.length_cons] at htotal
    exact ⟨t, hscan, by omega, by rwa [ht.rest_of hs]⟩

theorem Spells.ended {text : List UInt8} (h : Spells [] text) {s : Lexer} (hs : s.rest = text) :
    s.scanToken.1 = .endOfInput := by
  cases h with
  | done hspace hend => exact Lexer.scanToken_end hspace hend hs

theorem spells_first {s t : Lexer} {token : Token} (h : s.scanToken = (token, t)) (hproper : token.Proper) :
    t.position.charsReadTotal ≠ 0 ∧ ∀ ts, Spells ts t.rest → Spells (token :: ts) s.rest := by
  obtain ⟨space, u, hspace, hu, read, hread, hcases⟩ := Lexer.scanToken_cases s
  rw [h] at hread hcases
  rcases hcases with hlexeme | ⟨hend, -⟩ | ⟨message, herror⟩
  · obtain ⟨c, others, rfl, -⟩ := hlexeme.head
    have htotal := hread.total
    rw [List.length_cons] at htotal
    refine ⟨by simp only at htotal; omega, ?_⟩
    intro ts hts
    rw [hu.rest, hread.rest]
    exact .token hspace hlexeme hts
  · exact (hproper.1 hend).elim
  · exact (hproper.2 message herror).elim

theorem spells_ended {s : Lexer} (h : s.scanToken.1 = .endOfInput) : Spells [] s.rest := by
  obtain ⟨space, u, hspace, hu, read, -, hlexeme | ⟨-, hat⟩ | ⟨message, herror⟩⟩ := Lexer.scanToken_cases s
  · exact (hlexeme.proper.1 h).elim
  · rw [hu.rest]
    exact .done hspace hat
  · rw [h] at herror
    cases herror

/-- Past the first token a lexer returns the tokens its input spells, and no others. -/
theorem scans_iff_spells {s : Lexer} {ts : List Token} (hproper : ∀ token ∈ ts, token.Proper)
    (hstarted : s.position.charsReadTotal ≠ 0) :
    (∃ t, Scans s ts t ∧ t.scan.1 = .endOfInput) ↔ Spells ts s.rest := by
  induction ts generalizing s with
  | nil =>
    constructor
    · rintro ⟨t, hscans, hend⟩
      cases hscans
      rw [Lexer.scan_started hstarted] at hend
      exact spells_ended hend
    · intro h
      refine ⟨s, .nil s, ?_⟩
      rw [Lexer.scan_started hstarted]
      exact h.ended rfl
  | cons token ts ih =>
    have hrest : ∀ token ∈ ts, token.Proper := fun token htoken => hproper token (List.mem_cons_of_mem _ htoken)
    constructor
    · rintro ⟨t, hscans, hend⟩
      cases hscans with
      | cons htoken hscans =>
        rw [Lexer.scan_started hstarted] at htoken hscans
        obtain ⟨hnext, hspells⟩ := spells_first (s := s) (t := s.scanToken.2) (by rw [← htoken]) (hproper token (by simp))
        exact hspells ts ((ih hrest hnext).mp ⟨t, hscans, hend⟩)
    · intro h
      obtain ⟨u, hscan, hnext, hspells⟩ := h.first rfl
      rw [← Lexer.scan_started hstarted] at hscan
      obtain ⟨t, hscans, hend⟩ := (ih hrest hnext).mpr hspells
      exact ⟨t, .cons (by rw [hscan]) (by rw [hscan]; exact hscans), hend⟩

theorem Derives.proper {phrase : Phrase} {ts : List Token} (h : Derives phrase ts) : ∀ token ∈ ts, token.Proper := by
  induction h with
  | null | litTrue | litFalse | unsigned | integer | string | float | emptyArray | emptyObject => simp [Token.Proper]
  | array h ih | object h ih =>
    simp only [List.mem_cons, List.mem_append, List.not_mem_nil, or_false]
    rintro token (rfl | htoken | rfl)
    · simp [Token.Proper]
    · exact ih token htoken
    · simp [Token.Proper]
  | oneElement h ih => exact ih
  | nextElement h h' ih ih' =>
    simp only [List.mem_cons, List.mem_append]
    rintro token (htoken | rfl | htoken)
    · exact ih token htoken
    · simp [Token.Proper]
    · exact ih' token htoken
  | oneMember key h ih =>
    simp only [List.mem_cons]
    rintro token (rfl | rfl | htoken)
    · simp [Token.Proper]
    · simp [Token.Proper]
    · exact ih token htoken
  | nextMember key h h' ih ih' =>
    simp only [List.mem_cons, List.mem_append]
    rintro token (htoken | rfl | rfl | rfl | htoken)
    · exact ih token htoken
    · simp [Token.Proper]
    · simp [Token.Proper]
    · simp [Token.Proper]
    · exact ih' token htoken

/-- The text, after a byte order mark if there is one, spells a value. -/
def Denotes (text : List UInt8) (j : Json) : Prop :=
  ∃ ts body, (text = body ∨ text = Lexer.bom ++ body) ∧ Spells ts body ∧ Derives (.value j) ts

theorem Derives.nonempty {j : Json} {ts : List Token} (h : Derives (.value j) ts) : ∃ token rest, ts = token :: rest := by
  obtain ⟨token, rest, hts, -⟩ := Parser.accepts h
  exact ⟨token, rest, hts⟩

/-- What the tokens from the start of a text say about the text. -/
theorem start_scans_iff {text : List UInt8} {token : Token} {ts : List Token}
    (hproper : ∀ t ∈ token :: ts, t.Proper) :
    (∃ t, Scans (.start text) (token :: ts) t ∧ t.scan.1 = .endOfInput) ↔
      ∃ body, (text = body ∨ text = Lexer.bom ++ body) ∧ Spells (token :: ts) body := by
  have hrest : ∀ t ∈ ts, t.Proper := fun t ht => hproper t (List.mem_cons_of_mem _ ht)
  constructor
  · rintro ⟨t, hscans, hend⟩
    cases hscans with
    | cons htoken hscans =>
      obtain ⟨read, u, hread, ⟨hbom, hscan⟩ | ⟨message, herror⟩⟩ := Lexer.scan_start_cases text
      · rw [hscan] at htoken hscans
        obtain ⟨hnext, hspells⟩ := spells_first (s := u) (t := u.scanToken.2) (by rw [← htoken]) (hproper token (by simp))
        have hbody := hspells ts ((scans_iff_spells hrest hnext).mp ⟨t, hscans, hend⟩)
        refine ⟨u.rest, ?_, hbody⟩
        have htext : text = read ++ u.rest := hread.rest
        rcases hbom with rfl | ⟨rfl, -⟩
        · exact Or.inr htext
        · exact Or.inl htext
      · rw [herror] at htoken
        exact ((hproper token (by simp)).2 message htoken.symm).elim
  · rintro ⟨body, htext, hspells⟩
    have hstart : ∃ u : Lexer, u.rest = body ∧ (Lexer.start text).scan = u.scanToken := by
      rcases htext with rfl | rfl
      · obtain ⟨u, hu, hscan⟩ := Lexer.scan_plain hspells.head_ne
        exact ⟨u, hu.rest.symm, hscan⟩
      · obtain ⟨u, hu, hscan⟩ := Lexer.scan_bom body
        exact ⟨u, hu.rest_of rfl, hscan⟩
    obtain ⟨u, hu, hscan⟩ := hstart
    obtain ⟨v, hfirst, hnext, hrestSpells⟩ := hspells.first hu
    rw [← hscan] at hfirst
    obtain ⟨t, hscans, hend⟩ := (scans_iff_spells hrest hnext).mpr hrestSpells
    exact ⟨t, .cons (by rw [hfirst]) (by rw [hfirst]; exact hscans), hend⟩

theorem parse_of_denotes {text : List UInt8} {j : Json} (h : Denotes text j) : parse text = .ok j := by
  obtain ⟨ts, body, htext, hspells, hderives⟩ := h
  obtain ⟨token, rest, rfl, -, hrun⟩ := Parser.accepts hderives
  obtain ⟨t, hscans, hend⟩ := (start_scans_iff hderives.proper).mpr ⟨body, htext, hspells⟩
  obtain ⟨htoken, hscans⟩ := Parser.scans_cons hscans
  obtain ⟨n, last, hn, hreach⟩ := hrun (Lexer.start text).scan.2 t [] ⟨.null, []⟩ hscans
  have hlength : (token :: rest).length ≤ text.length := by
    have hle := hspells.length_le
    rcases htext with rfl | rfl
    · exact hle
    · rw [List.length_append]
      omega
  have hstart : Parser.start text = ⟨(Lexer.start text).scan.2, token, [], ⟨.null, []⟩⟩ := by
    rw [← htoken]
    rfl
  obtain ⟨fuel, hfuel⟩ : ∃ fuel, text.length + 2 = fuel + 1 + n := ⟨text.length + 1 - n, by omega⟩
  have hfinish : Parser.saxParseInternal (fuel + 1) true ⟨t, last, [], ⟨j, []⟩⟩ = .ok ⟨t, last, [], ⟨j, []⟩⟩ := rfl
  have hsax : Parser.saxParseInternal (text.length + 2) false (.start text) = .ok ⟨t, last, [], ⟨j, []⟩⟩ := by
    rw [hfuel, hstart, hreach, ← hfinish]
    rfl
  rw [parse, hsax]
  change (if t.scan.1 = .endOfInput then _ else _) = _
  rw [if_pos hend]
  rfl

theorem denotes_of_parse {text : List UInt8} {j : Json} (h : parse text = .ok j) : Denotes text j := by
  obtain ⟨p, hsax, hp⟩ := Parser.of_bind_ok h
  have hwaits : Parser.Waits (.start text) [] (.start text) := ⟨.top, Scans.one _⟩
  obtain ⟨ts, ⟨hcomplete, hscans⟩, hstates⟩ := @Parser.saxParseInternal_sound _ _ false _ _ ⟨[], hwaits⟩ hsax
  rw [hstates] at hcomplete
  generalize hdom : p.dom = dom at hcomplete
  cases hcomplete with
  | top hderives =>
    have hend : p.getToken.lastToken = .endOfInput ∧ p.dom.root = j := by
      by_cases hend : p.getToken.lastToken = .endOfInput
      · rw [if_pos hend] at hp
        exact ⟨hend, Except.ok.inj hp⟩
      · rw [if_neg hend] at hp
        cases hp
    obtain ⟨hend, rfl⟩ := hend
    rw [hdom]
    obtain ⟨token, rest, rfl⟩ := hderives.nonempty
    obtain ⟨body, htext, hspells⟩ := (start_scans_iff hderives.proper).mp ⟨p.lexer, hscans, hend⟩
    exact ⟨_, body, htext, hspells, hderives⟩

end CrossNative.Text
