import CrossNative.Text.Lexer

/-!
# Number literals as the lexer finds them

The state machine of `scan_number` reads the longest number literal there is. Its token
carries the integer, or the nearest double when the literal is no integer in 64-bit range.
-/

namespace CrossNative.Text

set_option autoImplicit false

open Basis

namespace NumberLiteral

def integerType (negative : Bool) : Lexer.NumberType := if negative then .integer else .unsigned

def numberType (l : NumberLiteral) : Lexer.NumberType :=
  if l.fraction = none ∧ l.exponent = none then integerType l.negative else .float

/-- What a literal denotes. -/
def token (l : NumberLiteral) : Token :=
  if l.fraction = none ∧ l.exponent = none ∧ l.negative = true ∧ l.mantissa ≤ 2 ^ 63 then
    .valueInteger (-(l.mantissa : Int))
  else if l.fraction = none ∧ l.exponent = none ∧ l.negative = false ∧ l.mantissa < 2 ^ 64 then
    .valueUnsigned l.mantissa
  else .valueFloat (FloatFormat.binary64.ofDecimal l.negative l.mantissa l.scale)

/-- The literal cannot be read on with this byte. -/
def Ends (l : NumberLiteral) (next : Option UInt8) : Prop := ∀ c, next = some c →
  (isDigit c = true → l.whole = [zero] ∧ l.fraction = none ∧ l.exponent = none) ∧
  (c = point → l.fraction ≠ none ∨ l.exponent ≠ none) ∧
  (isExponentMark c = true → l.exponent ≠ none)

def integer (negative : Bool) (whole : List UInt8) : NumberLiteral := ⟨negative, whole, none, none⟩

def withFraction (l : NumberLiteral) (digits : List UInt8) : NumberLiteral := { l with fraction := some digits }

def withExponent (l : NumberLiteral) (mark : UInt8) (sign : Option UInt8) (digits : List UInt8) : NumberLiteral :=
  { l with exponent := some (mark, sign, digits) }

variable {l : NumberLiteral}

@[simp] theorem text_integer (negative : Bool) (whole : List UInt8) :
    (integer negative whole).text = signText negative ++ whole := by
  simp [integer, text, fractionText, exponentText]

theorem text_withFraction (hfraction : l.fraction = none) (hexponent : l.exponent = none) (digits : List UInt8) :
    (l.withFraction digits).text = l.text ++ point :: digits := by
  simp [withFraction, text, fractionText, exponentText, hfraction, hexponent]

theorem text_withExponent (hexponent : l.exponent = none) (mark : UInt8) (sign : Option UInt8) (digits : List UInt8) :
    (l.withExponent mark sign digits).text = l.text ++ mark :: (sign.toList ++ digits) := by
  simp [withExponent, text, exponentText, hexponent]

theorem wellFormed_integer {whole : List UInt8} (negative : Bool) (h : whole = [zero] ∨ IsCanonical whole) :
    (integer negative whole).WellFormed where
  whole := h
  fraction := by simp [integer]
  exponent := by simp [integer]

theorem WellFormed.withFraction (h : l.WellFormed) {digits : List UInt8} (hdigits : IsNumeral digits)
    (hne : digits ≠ []) : (l.withFraction digits).WellFormed where
  whole := h.whole
  fraction := by
    intro other hother
    obtain rfl := Option.some.inj hother
    exact ⟨hdigits, hne⟩
  exponent := h.exponent

theorem WellFormed.withExponent (h : l.WellFormed) {mark : UInt8} {sign : Option UInt8} {digits : List UInt8}
    (hmark : isExponentMark mark = true) (hsign : ∀ c, sign = some c → c = plus ∨ c = minus)
    (hdigits : IsNumeral digits) (hne : digits ≠ []) : (l.withExponent mark sign digits).WellFormed where
  whole := h.whole
  fraction := h.fraction
  exponent := by
    intro mark' sign' digits' hother
    simp only [NumberLiteral.withExponent, Option.some.injEq, Prod.mk.injEq] at hother
    obtain ⟨rfl, rfl, rfl⟩ := hother
    exact ⟨hmark, hsign, hdigits, hne⟩

end NumberLiteral

namespace Lexer

open NumberLiteral

/-! ## What has been read in each state -/

inductive Sofar : NumberState → NumberType → List UInt8 → Prop
  | minus (t : NumberType) : Sofar .minus t (signText true)
  | zero (negative : Bool) : Sofar .zero (integerType negative) (integer negative [Text.zero]).text
  | any1 (negative : Bool) {whole : List UInt8} (h : IsCanonical whole) :
      Sofar .any1 (integerType negative) (integer negative whole).text
  | decimal1 (t : NumberType) {l : NumberLiteral} (h : l.WellFormed) (hfraction : l.fraction = none)
      (hexponent : l.exponent = none) : Sofar .decimal1 t (l.text ++ [point])
  | decimal2 {l : NumberLiteral} {digits : List UInt8} (h : l.WellFormed) (hfraction : l.fraction = none)
      (hexponent : l.exponent = none) (hdigits : IsNumeral digits) (hne : digits ≠ []) :
      Sofar .decimal2 .float (l.withFraction digits).text
  | exponent (t : NumberType) {l : NumberLiteral} {mark : UInt8} (h : l.WellFormed) (hexponent : l.exponent = none)
      (hmark : isExponentMark mark = true) : Sofar .exponent t (l.text ++ [mark])
  | sign {l : NumberLiteral} {mark c : UInt8} (h : l.WellFormed) (hexponent : l.exponent = none)
      (hmark : isExponentMark mark = true) (hc : c = plus ∨ c = Text.minus) :
      Sofar .sign .float (l.text ++ [mark, c])
  | any2 {l : NumberLiteral} {mark : UInt8} {sign : Option UInt8} {digits : List UInt8} (h : l.WellFormed)
      (hexponent : l.exponent = none) (hmark : isExponentMark mark = true)
      (hsign : ∀ c, sign = some c → c = plus ∨ c = Text.minus) (hdigits : IsNumeral digits) (hne : digits ≠ []) :
      Sofar .any2 .float (l.withExponent mark sign digits).text

theorem isCanonical_digit {c : UInt8} (hc : isDigit c = true) (hzero : c ≠ Text.zero) : IsCanonical [c] where
  numeral := IsNumeral.cons_iff.mpr ⟨hc, .nil⟩
  leading := ⟨c, [], rfl, hzero⟩

theorem isCanonical_concat {whole : List UInt8} {c : UInt8} (h : IsCanonical whole) (hc : isDigit c = true) :
    IsCanonical (whole ++ [c]) := by
  rw [← digitChar_digitValue hc]
  exact h.concat (digitValue_le hc)

theorem isNumeral_concat {digits : List UInt8} {c : UInt8} (h : IsNumeral digits) (hc : isDigit c = true) :
    IsNumeral (digits ++ [c]) := IsNumeral.append_iff.mpr ⟨h, IsNumeral.cons_iff.mpr ⟨hc, .nil⟩⟩

/-- A byte that is accepted keeps the invariant. -/
theorem Sofar.goto {state next : NumberState} {t : NumberType} {buffer : List UInt8} (h : Sofar state t buffer)
    {c : UInt8} (hmove : state.move (some c) = .goto next) : Sofar next (state.enter t) (buffer ++ [c]) := by
  cases h with
  | minus t =>
    simp only [NumberState.move, Option.some.injEq, Option.any_some] at hmove
    split at hmove
    · cases hmove
      rename_i hc
      rw [hc]
      exact .zero true
    split at hmove
    · cases hmove
      rename_i hzero hc
      exact .any1 true (isCanonical_digit hc hzero)
    · cases hmove
  | zero negative =>
    simp only [NumberState.move, Option.some.injEq, Option.any_some] at hmove
    split at hmove
    · cases hmove
      rename_i hc
      rw [hc]
      exact .decimal1 _ (wellFormed_integer negative (Or.inl rfl)) rfl rfl
    split at hmove
    · cases hmove
      rename_i hc
      exact .exponent _ (wellFormed_integer negative (Or.inl rfl)) rfl hc
    · cases hmove
  | any1 negative hwhole =>
    simp only [NumberState.move, Option.some.injEq, Option.any_some] at hmove
    split at hmove
    · cases hmove
      rename_i hc
      rw [text_integer, List.append_assoc, ← text_integer]
      exact .any1 negative (isCanonical_concat hwhole hc)
    split at hmove
    · cases hmove
      rename_i hc
      rw [hc]
      exact .decimal1 _ (wellFormed_integer negative (Or.inr hwhole)) rfl rfl
    split at hmove
    · cases hmove
      rename_i hc
      exact .exponent _ (wellFormed_integer negative (Or.inr hwhole)) rfl hc
    · cases hmove
  | @decimal1 t l hl hfraction hexponent =>
    simp only [NumberState.move, Option.any_some] at hmove
    split at hmove
    · cases hmove
      rename_i hc
      rw [List.append_assoc, List.singleton_append, ← text_withFraction hfraction hexponent]
      exact .decimal2 hl hfraction hexponent (IsNumeral.cons_iff.mpr ⟨hc, .nil⟩) (by simp)
    · cases hmove
  | @decimal2 l digits hl hfraction hexponent hdigits hne =>
    simp only [NumberState.move, Option.any_some] at hmove
    split at hmove
    · cases hmove
      rename_i hc
      rw [text_withFraction hfraction hexponent, List.append_assoc, List.cons_append,
        ← text_withFraction hfraction hexponent]
      exact .decimal2 hl hfraction hexponent (isNumeral_concat hdigits hc) (by simp)
    split at hmove
    · cases hmove
      rename_i hc
      exact .exponent _ (hl.withFraction hdigits hne) hexponent hc
    · cases hmove
  | @exponent t l mark hl hexponent hmark =>
    simp only [NumberState.move, Option.some.injEq, Option.any_some] at hmove
    split at hmove
    · cases hmove
      rename_i hc
      rw [List.append_assoc]
      exact .sign hl hexponent hmark hc
    split at hmove
    · cases hmove
      rename_i hc
      rw [List.append_assoc, show [mark] ++ [c] = mark :: ((none : Option UInt8).toList ++ [c]) from rfl,
        ← text_withExponent hexponent]
      exact .any2 hl hexponent hmark (by simp) (IsNumeral.cons_iff.mpr ⟨hc, .nil⟩) (by simp)
    · cases hmove
  | @sign l mark d hl hexponent hmark hd =>
    simp only [NumberState.move, Option.any_some] at hmove
    split at hmove
    · cases hmove
      rename_i hc
      rw [List.append_assoc, show [mark, d] ++ [c] = mark :: ((some d).toList ++ [c]) from rfl,
        ← text_withExponent hexponent]
      refine .any2 hl hexponent hmark ?_ (IsNumeral.cons_iff.mpr ⟨hc, .nil⟩) (by simp)
      intro e he
      obtain rfl := Option.some.inj he
      exact hd
    · cases hmove
  | @any2 l mark sign digits hl hexponent hmark hsign hdigits hne =>
    simp only [NumberState.move, Option.any_some] at hmove
    split at hmove
    · cases hmove
      rename_i hc
      rw [text_withExponent hexponent, List.append_assoc, List.cons_append, List.append_assoc,
        ← text_withExponent hexponent]
      exact .any2 hl hexponent hmark hsign (isNumeral_concat hdigits hc) (by simp)
    · cases hmove

/-- When the machine is done, a literal has been read that cannot be read on. -/
theorem Sofar.done {state : NumberState} {t : NumberType} {buffer : List UInt8} (h : Sofar state t buffer)
    {next : Option UInt8} (hmove : state.move next = .done) :
    ∃ l : NumberLiteral, l.WellFormed ∧ l.text = buffer ∧ l.numberType = state.enter t ∧ l.Ends next := by
  cases h with
  | minus t =>
    simp only [NumberState.move] at hmove
    split at hmove
    · cases hmove
    split at hmove <;> cases hmove
  | zero negative =>
    refine ⟨_, wellFormed_integer negative (Or.inl rfl), rfl, rfl, ?_⟩
    simp only [NumberState.move] at hmove
    split at hmove
    · cases hmove
    split at hmove
    · cases hmove
    rename_i hpoint hmark
    rintro c rfl
    refine ⟨fun _ => ⟨rfl, rfl, rfl⟩, ?_, ?_⟩
    · rintro rfl
      exact (hpoint rfl).elim
    · intro hc
      exact (hmark hc).elim
  | any1 negative hwhole =>
    refine ⟨_, wellFormed_integer negative (Or.inr hwhole), rfl, rfl, ?_⟩
    simp only [NumberState.move] at hmove
    split at hmove
    · cases hmove
    split at hmove
    · cases hmove
    split at hmove
    · cases hmove
    rename_i hdigit hpoint hmark
    rintro c rfl
    refine ⟨?_, ?_, ?_⟩
    · intro hc
      exact (hdigit hc).elim
    · rintro rfl
      exact (hpoint rfl).elim
    · intro hc
      exact (hmark hc).elim
  | decimal1 t hl hfraction hexponent =>
    simp only [NumberState.move] at hmove
    split at hmove <;> cases hmove
  | @decimal2 l digits hl hfraction hexponent hdigits hne =>
    refine ⟨_, hl.withFraction hdigits hne, rfl, by simp [numberType, withFraction, NumberState.enter], ?_⟩
    simp only [NumberState.move] at hmove
    split at hmove
    · cases hmove
    split at hmove
    · cases hmove
    rename_i hdigit hmark
    rintro c rfl
    refine ⟨?_, ?_, ?_⟩
    · intro hc
      exact (hdigit hc).elim
    · intro _
      exact Or.inl (by simp [withFraction])
    · intro hc
      exact (hmark hc).elim
  | exponent t hl hexponent hmark =>
    simp only [NumberState.move] at hmove
    split at hmove
    · cases hmove
    split at hmove <;> cases hmove
  | sign hl hexponent hmark hc =>
    simp only [NumberState.move] at hmove
    split at hmove <;> cases hmove
  | @any2 l mark sign digits hl hexponent hmark hsign hdigits hne =>
    refine ⟨_, hl.withExponent hmark hsign hdigits hne, rfl, by simp [numberType, withExponent, NumberState.enter], ?_⟩
    simp only [NumberState.move] at hmove
    split at hmove
    · cases hmove
    rename_i hdigit
    rintro c rfl
    refine ⟨?_, ?_, ?_⟩
    · intro hc
      exact (hdigit hc).elim
    · intro _
      exact Or.inr (by simp [withExponent])
    · intro _
      simp [withExponent]

/-- No state accepts the end of the input. -/
theorem move_none_ne_goto (state next : NumberState) : state.move none ≠ .goto next := by
  cases state <;> simp [NumberState.move]

theorem convertNumber_text {l : NumberLiteral} (h : l.WellFormed) : convertNumber l.numberType l.text = l.token := by
  have hstrtod := h.strtod_text
  obtain ⟨negative, whole, fraction, exponent⟩ := l
  by_cases hinteger : fraction = none ∧ exponent = none
  · obtain ⟨rfl, rfl⟩ := hinteger
    have hmantissa : (⟨negative, whole, none, none⟩ : NumberLiteral).mantissa = decimalValue whole := by
      simp [mantissa]
    have htext : (⟨negative, whole, none, none⟩ : NumberLiteral).text = signText negative ++ whole :=
      text_integer negative whole
    rw [htext, hmantissa] at hstrtod
    rw [htext, token, hmantissa, ← hstrtod]
    cases negative with
    | true =>
      have htype : (⟨true, whole, none, none⟩ : NumberLiteral).numberType = .integer := rfl
      have hdigits : (signText true ++ whole).tail = whole := rfl
      rw [htype, convertNumber, strtoll, hdigits]
      by_cases hsmall : decimalValue whole ≤ 2 ^ 63
      · rw [if_pos hsmall, if_pos ⟨rfl, rfl, rfl, hsmall⟩]
        rfl
      · rw [if_neg hsmall, if_neg (fun h => hsmall h.2.2.2), if_neg (by simp)]
        rfl
    | false =>
      have htype : (⟨false, whole, none, none⟩ : NumberLiteral).numberType = .unsigned := rfl
      have hdigits : signText false ++ whole = whole := rfl
      rw [htype, convertNumber, strtoull, hdigits, if_neg (c := none = none ∧ _) (by simp)]
      by_cases hsmall : decimalValue whole < 2 ^ 64
      · rw [if_pos hsmall, if_pos ⟨rfl, rfl, rfl, hsmall⟩]
        rfl
      · rw [if_neg hsmall, if_neg (fun h => hsmall h.2.2.2)]
        rfl
  · have htype : (⟨negative, whole, fraction, exponent⟩ : NumberLiteral).numberType = .float := if_neg hinteger
    rw [htype, convertNumber, hstrtod, token, if_neg (fun h => hinteger ⟨h.1, h.2.1⟩),
      if_neg (fun h => hinteger ⟨h.1, h.2.1⟩)]

/-! ## Runs -/

theorem scanNumberLoop_cases {fuel : Nat} {state : NumberState} {t : NumberType} {buffer : List UInt8} {s : Lexer}
    (h : Sofar state t buffer) (hfuel : s.rest.length < fuel) :
    ∃ read, Reads s read (scanNumberLoop fuel state t buffer s).2 ∧
      ((∃ l : NumberLiteral, l.WellFormed ∧ l.text = buffer ++ read ∧
        l.Ends (scanNumberLoop fuel state t buffer s).2.rest.head? ∧
        (scanNumberLoop fuel state t buffer s).1 = l.token) ∨
      ∃ message, (scanNumberLoop fuel state t buffer s).1 = .parseError message) := by
  induction fuel generalizing state t buffer s with
  | zero => omega
  | succ fuel ih =>
    cases hmove : state.move s.get.current with
    | goto next =>
      cases hcurrent : s.get.current with
      | none =>
        rw [hcurrent] at hmove
        exact (move_none_ne_goto state next hmove).elim
      | some c =>
        rw [hcurrent] at hmove
        have hget := Reads.byte hcurrent
        have hlength := congrArg List.length hget.rest
        rw [List.length_append, List.length_singleton] at hlength
        obtain ⟨read, hread, hcases⟩ := ih (h.goto hmove) (s := s.get) (by omega)
        simp only [scanNumberLoop, hcurrent, hmove]
        refine ⟨c :: read, hget.trans hread, ?_⟩
        rw [List.append_assoc] at hcases
        exact hcases
    | done =>
      obtain ⟨l, hl, htext, htype, hends⟩ := h.done hmove
      have hread := Reads.get_unget s
      simp only [scanNumberLoop, hmove]
      refine ⟨[], hread, Or.inl ⟨l, hl, by rw [htext, List.append_nil], ?_, ?_⟩⟩
      · rw [← List.nil_append s.get.unget.rest, ← hread.rest]
        exact hends
      · rw [← htype, ← htext]
        exact convertNumber_text hl
    | fail message =>
      simp only [scanNumberLoop, hmove]
      exact ⟨_, Reads.get s, Or.inr ⟨message, rfl⟩⟩

/-- The loop comes from one state to another by reading. -/
structure Goes (state : NumberState) (t : NumberType) (s : Lexer) (read : List UInt8) (state' : NumberState)
    (t' : NumberType) (u : Lexer) : Prop where
  reads : Reads s read u
  loop : ∀ fuel buffer, s.rest.length < fuel → ∃ fuel', u.rest.length < fuel' ∧
    scanNumberLoop fuel state t buffer s = scanNumberLoop fuel' state' t' (buffer ++ read) u

namespace Goes

variable {state state' : NumberState} {t t' : NumberType} {s u : Lexer} {read : List UInt8}

theorem refl (state : NumberState) (t : NumberType) (s : Lexer) : Goes state t s [] state t s where
  reads := .refl s
  loop := by
    intro fuel buffer hfuel
    exact ⟨fuel, hfuel, by rw [List.append_nil]⟩

theorem trans {state'' : NumberState} {t'' : NumberType} {v : Lexer} {last : List UInt8}
    (h : Goes state t s read state' t' u) (h' : Goes state' t' u last state'' t'' v) :
    Goes state t s (read ++ last) state'' t'' v where
  reads := h.reads.trans h'.reads
  loop := by
    intro fuel buffer hfuel
    obtain ⟨fuel', hfuel', hloop⟩ := h.loop fuel buffer hfuel
    obtain ⟨fuel'', hfuel'', hloop'⟩ := h'.loop fuel' (buffer ++ read) hfuel'
    exact ⟨fuel'', hfuel'', by rw [hloop, hloop', List.append_assoc]⟩

theorem byte {next : NumberState} {c : UInt8} {rest : List UInt8} (t : NumberType) (hs : s.rest = c :: rest)
    (hmove : state.move (some c) = .goto next) : Goes state t s [c] next (state.enter t) s.get where
  reads := Reads.byte (get_current_cons hs)
  loop := by
    intro fuel buffer hfuel
    obtain ⟨fuel, rfl⟩ := Nat.exists_eq_add_one_of_ne_zero (Nat.ne_of_gt (Nat.zero_lt_of_lt hfuel))
    rw [hs, List.length_cons] at hfuel
    refine ⟨fuel, by rw [get_rest_cons hs]; omega, ?_⟩
    simp only [scanNumberLoop, get_current_cons hs, hmove, Option.toList_some]

/-- Digits are read in a state that digits do not leave. -/
theorem digits {digits rest : List UInt8} (hmove : ∀ c, isDigit c = true → state.move (some c) = .goto state)
    (henter : state.enter t = t) (hdigits : IsNumeral digits) (hs : s.rest = digits ++ rest) :
    ∃ u, Goes state t s digits state t u ∧ u.rest = rest := by
  induction digits generalizing s with
  | nil => exact ⟨s, .refl state t s, hs⟩
  | cons c digits ih =>
    obtain ⟨hc, hrest⟩ := IsNumeral.cons_iff.mp hdigits
    have hbyte := Goes.byte t hs (hmove c hc)
    rw [henter] at hbyte
    obtain ⟨u, hu, hurest⟩ := ih hrest (get_rest_cons hs)
    exact ⟨u, hbyte.trans hu, hurest⟩

theorem done (h : Goes state t s read state' t' u) (hmove : state'.move u.rest.head? = .done) {fuel : Nat}
    (buffer : List UInt8) (hfuel : s.rest.length < fuel) :
    ∃ v, Reads s read v ∧ scanNumberLoop fuel state t buffer s = (convertNumber (state'.enter t') (buffer ++ read), v) := by
  obtain ⟨fuel', hfuel', hloop⟩ := h.loop fuel buffer hfuel
  obtain ⟨fuel', rfl⟩ := Nat.exists_eq_add_one_of_ne_zero (Nat.ne_of_gt (Nat.zero_lt_of_lt hfuel'))
  have hread := h.reads.trans (Reads.get_unget u)
  rw [List.append_nil] at hread
  refine ⟨u.get.unget, hread, ?_⟩
  rw [hloop]
  simp only [scanNumberLoop, get_current, hmove]

end Goes

theorem any1_digit (c : UInt8) (h : isDigit c = true) : NumberState.any1.move (some c) = .goto .any1 := by
  simp [NumberState.move, h]

theorem decimal2_digit (c : UInt8) (h : isDigit c = true) : NumberState.decimal2.move (some c) = .goto .decimal2 := by
  simp [NumberState.move, h]

theorem any2_digit (c : UInt8) (h : isDigit c = true) : NumberState.any2.move (some c) = .goto .any2 := by
  simp [NumberState.move, h]

/-- The state after the digits before a point. -/
def wholeState (whole : List UInt8) : NumberState := if whole = [Text.zero] then .zero else .any1

/-- The state after a fraction. -/
def fractionState (whole : List UInt8) (fraction : Option (List UInt8)) : NumberState :=
  if fraction = none then wholeState whole else .decimal2

def finalState (l : NumberLiteral) : NumberState :=
  if l.exponent = none then fractionState l.whole l.fraction else .any2

theorem finalState_done {l : NumberLiteral} {next : Option UInt8} (hends : l.Ends next) : (finalState l).move next = .done := by
  cases next with
  | none =>
    unfold finalState fractionState wholeState
    split
    · split
      · split <;> rfl
      · rfl
    · rfl
  | some c =>
    obtain ⟨hdigit, hpoint, hmark⟩ := hends c rfl
    by_cases hexponent : l.exponent = none
    · have hnotMark : isExponentMark c = false := by
        by_contra hcontra
        exact hmark (Bool.not_eq_false _ ▸ hcontra) hexponent
      rw [finalState, if_pos hexponent]
      by_cases hfraction : l.fraction = none
      · have hnotPoint : c ≠ point := by
          intro hc
          rcases hpoint hc with hne | hne
          · exact hne hfraction
          · exact hne hexponent
        rw [fractionState, if_pos hfraction]
        by_cases hwhole : l.whole = [Text.zero]
        · simp [wholeState, hwhole, NumberState.move, hnotPoint, hnotMark]
        · have hnotDigit : isDigit c = false := by
            by_contra hcontra
            exact hwhole (hdigit (Bool.not_eq_false _ ▸ hcontra)).1
          simp [wholeState, hwhole, NumberState.move, hnotPoint, hnotMark, hnotDigit]
      · have hnotDigit : isDigit c = false := by
          by_contra hcontra
          exact hfraction (hdigit (Bool.not_eq_false _ ▸ hcontra)).2.1
        simp [fractionState, hfraction, NumberState.move, hnotMark, hnotDigit]
    · have hnotDigit : isDigit c = false := by
        by_contra hcontra
        exact hexponent (hdigit (Bool.not_eq_false _ ▸ hcontra)).2.2
      simp [finalState, hexponent, NumberState.move, hnotDigit]

section Literal

variable {l : NumberLiteral} (h : l.WellFormed)

include h

/-- The digits after the first byte of a number. -/
theorem goes_whole (t : NumberType) {s : Lexer} {c : UInt8} {digits rest : List UInt8} (hwhole : l.whole = c :: digits)
    (hs : s.rest = digits ++ rest) :
    ∃ u, Goes (if c = Text.zero then .zero else .any1) t s digits (wholeState l.whole) t u ∧ u.rest = rest := by
  rcases h.whole with hzero | hcanonical
  · rw [hzero] at hwhole
    obtain ⟨rfl, rfl⟩ := List.cons.inj hwhole
    rw [wholeState, if_pos hzero, if_pos rfl]
    exact ⟨s, .refl _ t s, hs⟩
  · obtain ⟨d, others, htext, hne⟩ := hcanonical.leading
    rw [hwhole] at htext
    obtain ⟨rfl, rfl⟩ := List.cons.inj htext
    have hnot : l.whole ≠ [Text.zero] := by
      rw [hwhole]
      intro hzero
      exact hne (List.cons.inj hzero).1
    rw [wholeState, if_neg hnot, if_neg (show c ≠ Text.zero from hne)]
    have hnumeral := hcanonical.numeral
    rw [hwhole] at hnumeral
    exact Goes.digits any1_digit rfl (IsNumeral.cons_iff.mp hnumeral).2 hs

theorem goes_fraction (t : NumberType) {s : Lexer} {rest : List UInt8} (hs : s.rest = fractionText l.fraction ++ rest) :
    ∃ u, Goes (wholeState l.whole) t s (fractionText l.fraction) (fractionState l.whole l.fraction)
      (if l.fraction = none then t else .float) u ∧ u.rest = rest := by
  cases hfraction : l.fraction with
  | none =>
    rw [hfraction] at hs
    rw [fractionState, if_pos rfl, if_pos rfl]
    exact ⟨s, .refl _ t s, hs⟩
  | some digits =>
    rw [hfraction] at hs
    obtain ⟨hnumeral, hne⟩ := h.fraction digits hfraction
    obtain ⟨c, digits, rfl⟩ := List.exists_cons_of_ne_nil hne
    obtain ⟨hc, hrest⟩ := IsNumeral.cons_iff.mp hnumeral
    have hpoint : (wholeState l.whole).move (some point) = .goto .decimal1 := by
      unfold wholeState
      split <;> decide
    have henter : (wholeState l.whole).enter t = t := by
      unfold wholeState
      split <;> rfl
    have hfirst := Goes.byte t hs hpoint
    have hs' := get_rest_cons hs
    have hsecond := Goes.byte t hs' (show NumberState.decimal1.move (some c) = .goto .decimal2 by simp [NumberState.move, hc])
    obtain ⟨u, hu, hurest⟩ := Goes.digits (t := .float) decimal2_digit rfl hrest (get_rest_cons hs')
    rw [henter] at hfirst
    rw [fractionState, if_neg (by simp), if_neg (by simp)]
    exact ⟨u, (hfirst.trans hsecond).trans hu, hurest⟩

theorem goes_exponent (t : NumberType) {s : Lexer} {rest : List UInt8} (hs : s.rest = exponentText l.exponent ++ rest) :
    ∃ u, Goes (fractionState l.whole l.fraction) t s (exponentText l.exponent) (finalState l)
      (if l.exponent = none then t else .float) u ∧ u.rest = rest := by
  cases hexponent : l.exponent with
  | none =>
    rw [hexponent] at hs
    rw [finalState, if_pos hexponent, if_pos rfl]
    exact ⟨s, .refl _ t s, hs⟩
  | some parts =>
    obtain ⟨mark, sign, digits⟩ := parts
    rw [hexponent] at hs
    obtain ⟨hmark, hsign, hnumeral, hne⟩ := h.exponent mark sign digits hexponent
    obtain ⟨hdigit, hpoint⟩ := isDigit_mark hmark
    have hmove : (fractionState l.whole l.fraction).move (some mark) = .goto .exponent := by
      unfold fractionState wholeState
      split
      · split <;> simp [NumberState.move, hmark, hdigit, hpoint]
      · simp [NumberState.move, hmark, hdigit]
    have hfirst := Goes.byte t hs hmove
    have hs' := get_rest_cons hs
    rw [finalState, if_neg (by simp [hexponent]), if_neg (by simp)]
    obtain ⟨c, digits, rfl⟩ := List.exists_cons_of_ne_nil hne
    obtain ⟨hc, hrest⟩ := IsNumeral.cons_iff.mp hnumeral
    obtain ⟨hplus, hminus, -⟩ := isDigit_sign hc
    cases sign with
    | none =>
      have hmove' : NumberState.exponent.move (some c) = .goto .any2 := by simp [NumberState.move, hc, hplus, hminus]
      have hsecond := Goes.byte ((fractionState l.whole l.fraction).enter t) hs' hmove'
      obtain ⟨u, hu, hurest⟩ := Goes.digits (t := .float) any2_digit rfl hrest (get_rest_cons hs')
      exact ⟨u, (hfirst.trans hsecond).trans hu, hurest⟩
    | some d =>
      have hmove' : NumberState.exponent.move (some d) = .goto .sign := by simp [NumberState.move, hsign d rfl]
      have hsecond := Goes.byte ((fractionState l.whole l.fraction).enter t) hs' hmove'
      have hs'' := get_rest_cons hs'
      have hmove'' : NumberState.sign.move (some c) = .goto .any2 := by simp [NumberState.move, hc]
      have hthird := Goes.byte .float hs'' hmove''
      obtain ⟨u, hu, hurest⟩ := Goes.digits (t := .float) any2_digit rfl hrest (get_rest_cons hs'')
      exact ⟨u, ((hfirst.trans hsecond).trans hthird).trans hu, hurest⟩

/-- From the first digit on. -/
theorem scanNumberLoop_of {t : NumberType} (ht : t = integerType l.negative) {s : Lexer} {c : UInt8}
    {digits rest : List UInt8} (hwhole : l.whole = c :: digits)
    (hs : s.rest = digits ++ (fractionText l.fraction ++ (exponentText l.exponent ++ rest)))
    (hends : l.Ends rest.head?) {fuel : Nat} (hfuel : s.rest.length < fuel) :
    ∃ u, Reads s (digits ++ (fractionText l.fraction ++ exponentText l.exponent)) u ∧
      scanNumberLoop fuel (if c = Text.zero then .zero else .any1) t (signText l.negative ++ [c]) s = (l.token, u) := by
  obtain ⟨u, hu, hurest⟩ := goes_whole h t hwhole hs
  obtain ⟨v, hv, hvrest⟩ := goes_fraction h t hurest
  obtain ⟨w, hw, hwrest⟩ := goes_exponent h (if l.fraction = none then t else .float) hvrest
  have hgoes := (hu.trans hv).trans hw
  obtain ⟨x, hx, hloop⟩ := hgoes.done (finalState_done (hwrest ▸ hends)) (signText l.negative ++ [c]) hfuel
  have htype : (finalState l).enter (if l.exponent = none then if l.fraction = none then t else .float else .float) =
      l.numberType := by
    unfold finalState fractionState wholeState numberType
    rw [ht]
    by_cases hexponent : l.exponent = none
    · by_cases hfraction : l.fraction = none
      · by_cases hzero : l.whole = [Text.zero] <;> simp [hexponent, hfraction, hzero, NumberState.enter]
      · simp [hexponent, hfraction, NumberState.enter]
    · simp [hexponent, NumberState.enter]
  have htext : signText l.negative ++ [c] ++ (digits ++ fractionText l.fraction ++ exponentText l.exponent) = l.text := by
    simp [text, hwhole]
  refine ⟨x, by rw [← List.append_assoc]; exact hx, ?_⟩
  rw [hloop, htype, htext, convertNumber_text h]

end Literal

theorem scanNumber_cases {c : UInt8} (hc : c = Text.minus ∨ isDigit c = true) (s : Lexer) :
    ∃ read, Reads s.reset read (scanNumber c s).2 ∧
      ((∃ l : NumberLiteral, l.WellFormed ∧ l.text = c :: read ∧ l.Ends (scanNumber c s).2.rest.head? ∧
        (scanNumber c s).1 = l.token) ∨
      ∃ message, (scanNumber c s).1 = .parseError message) := by
  have hsofar : Sofar (if c = Text.minus then .minus else if c = Text.zero then .zero else .any1) .unsigned [c] := by
    by_cases hminus : c = Text.minus
    · rw [if_pos hminus, hminus]
      exact .minus _
    rw [if_neg hminus]
    by_cases hzero : c = Text.zero
    · rw [if_pos hzero, hzero]
      exact .zero false
    rw [if_neg hzero]
    have hdigit := hc.resolve_left hminus
    have hany := Sofar.any1 false (isCanonical_digit hdigit hzero)
    rwa [text_integer] at hany
  exact scanNumberLoop_cases hsofar (by rw [reset_rest]; omega)

theorem scanNumber_of {l : NumberLiteral} (h : l.WellFormed) {c : UInt8} {read rest : List UInt8}
    (htext : l.text = c :: read) {s : Lexer} (hs : s.rest = read ++ rest) (hends : l.Ends rest.head?) :
    ∃ u, Reads s.reset read u ∧ scanNumber c s = (l.token, u) := by
  obtain ⟨d, digits, hwhole⟩ := List.exists_cons_of_ne_nil h.whole_numeral.2
  have hdigit := h.whole_numeral.1
  rw [hwhole] at hdigit
  have hd := (IsNumeral.cons_iff.mp hdigit).1
  obtain ⟨-, hminus, -⟩ := isDigit_sign hd
  rw [text, hwhole] at htext
  have hfuel : s.reset.rest.length < s.rest.length + 1 := by
    rw [reset_rest]
    omega
  cases hnegative : l.negative with
  | false =>
    rw [hnegative] at htext
    obtain ⟨rfl, rfl⟩ := List.cons.inj htext
    have hs' : s.reset.rest = digits ++ (fractionText l.fraction ++ (exponentText l.exponent ++ rest)) := by
      simp [hs]
    obtain ⟨u, hu, hloop⟩ := scanNumberLoop_of (t := .unsigned) h (by rw [hnegative]; rfl) hwhole hs' hends hfuel
    rw [hnegative] at hloop
    refine ⟨u, hu, ?_⟩
    rw [scanNumber, if_neg hminus]
    exact hloop
  | true =>
    rw [hnegative] at htext
    obtain ⟨rfl, rfl⟩ := List.cons.inj htext
    have hs' : s.reset.rest = d :: (digits ++ (fractionText l.fraction ++ (exponentText l.exponent ++ rest))) := by
      simp [hs]
    have hmove : NumberState.minus.move (some d) = .goto (if d = Text.zero then .zero else .any1) := by
      by_cases hzero : d = Text.zero <;> simp [NumberState.move, hzero, hd]
    have hfirst := Goes.byte .unsigned hs' hmove
    obtain ⟨fuel, hbound, hstart⟩ := hfirst.loop _ [Text.minus] hfuel
    obtain ⟨u, hu, hloop⟩ := scanNumberLoop_of (t := .integer) h (by rw [hnegative]; rfl) hwhole (get_rest_cons hs') hends
      hbound
    rw [hnegative] at hloop
    refine ⟨u, hfirst.reads.trans hu, ?_⟩
    rw [scanNumber, if_pos rfl, hstart]
    exact hloop

end Lexer

end CrossNative.Text
