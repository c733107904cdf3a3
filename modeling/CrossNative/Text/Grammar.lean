import CrossNative.Text.Parser
import CrossNative.Text.Scan

/-!
# The grammar and the loop of the parser

The loop keeps a stack of unfinished phrases. It accepts exactly the phrases of a grammar on
tokens, and builds the documents the grammar gives them.
-/

namespace CrossNative.Text

set_option autoImplicit false

open Basis

/-- The fields of an object: sorted, and of equal keys the last. -/
def collect (members : List (String × Json)) : List (String × Json) :=
  members.foldl (fun fields member => setField member.1 member.2 fields) []

inductive Phrase
  | value (j : Json)
  | elements (items : List Json)
  | members (members : List (String × Json))

/-- The phrases of the language, as tokens. -/
inductive Derives : Phrase → List Token → Prop
  | null : Derives (.value .null) [.literalNull]
  | litTrue : Derives (.value (.bool true)) [.literalTrue]
  | litFalse : Derives (.value (.bool false)) [.literalFalse]
  | unsigned (n : Nat) : Derives (.value (.int n)) [.valueUnsigned n]
  | integer (n : Int) : Derives (.value (.int n)) [.valueInteger n]
  | float {bits : Nat} (h : FloatFormat.binary64.IsFinite bits) :
      Derives (.value (.float (.ofNat 64 bits))) [.valueFloat bits]
  | string (s : List UInt8) : Derives (.value (.str (decoded s))) [.valueString s]
  | emptyArray : Derives (.value (.arr [])) [.beginArray, .endArray]
  | array {items : List Json} {ts : List Token} (h : Derives (.elements items) ts) :
      Derives (.value (.arr items)) (.beginArray :: (ts ++ [.endArray]))
  | emptyObject : Derives (.value (.obj [])) [.beginObject, .endObject]
  | object {members : List (String × Json)} {ts : List Token} (h : Derives (.members members) ts) :
      Derives (.value (.obj (collect members))) (.beginObject :: (ts ++ [.endObject]))
  | oneElement {j : Json} {ts : List Token} (h : Derives (.value j) ts) : Derives (.elements [j]) ts
  | nextElement {items : List Json} {j : Json} {ts ts' : List Token} (h : Derives (.elements items) ts)
      (h' : Derives (.value j) ts') : Derives (.elements (items ++ [j])) (ts ++ .valueSeparator :: ts')
  | oneMember (key : List UInt8) {j : Json} {ts : List Token} (h : Derives (.value j) ts) :
      Derives (.members [(decoded key, j)]) (.valueString key :: .nameSeparator :: ts)
  | nextMember (key : List UInt8) {members : List (String × Json)} {j : Json} {ts ts' : List Token}
      (h : Derives (.members members) ts) (h' : Derives (.value j) ts') :
      Derives (.members (members ++ [(decoded key, j)]))
        (ts ++ .valueSeparator :: .valueString key :: .nameSeparator :: ts')

/-- The lexer returns these tokens, one after the other. -/
inductive Scans : Lexer → List Token → Lexer → Prop
  | nil (s : Lexer) : Scans s [] s
  | cons {s t : Lexer} {token : Token} {ts : List Token} (h : s.scan.1 = token) (hrest : Scans s.scan.2 ts t) :
      Scans s (token :: ts) t

theorem Scans.append_iff {s u : Lexer} {ts ts' : List Token} :
    Scans s (ts ++ ts') u ↔ ∃ t, Scans s ts t ∧ Scans t ts' u := by
  induction ts generalizing s with
  | nil =>
    constructor
    · intro h
      exact ⟨s, .nil s, h⟩
    · rintro ⟨t, hnil, h⟩
      cases hnil
      exact h
  | cons token ts ih =>
    constructor
    · intro h
      cases h with
      | cons htoken hrest =>
        obtain ⟨t, hts, hts'⟩ := ih.mp hrest
        exact ⟨t, .cons htoken hts, hts'⟩
    · rintro ⟨t, h, hts'⟩
      cases h with
      | cons htoken hrest => exact .cons htoken (ih.mpr ⟨t, hrest, hts'⟩)

theorem Scans.one (s : Lexer) : Scans s [s.scan.1] s.scan.2 := .cons rfl (.nil _)

namespace Parser

/-! ## Runs of the loop -/

/-- Some turns of the loop lead from one parser to another. -/
def Reaches (n : Nat) (skip : Bool) (p : Parser) (skip' : Bool) (q : Parser) : Prop :=
  ∀ fuel, saxParseInternal (fuel + n) skip p = saxParseInternal fuel skip' q

variable {p q r : Parser} {skip skip' skip'' : Bool} {m n : Nat}

theorem Reaches.trans (h : Reaches m skip p skip' q) (h' : Reaches n skip' q skip'' r) :
    Reaches (n + m) skip p skip'' r := by
  intro fuel
  rw [← Nat.add_assoc, h, h']

theorem reaches_evaluate (h : p.parseValue = .ok (.evaluate q)) : Reaches 0 false p true q := by
  intro fuel
  cases fuel with
  | zero => rfl
  | succ fuel =>
    simp only [saxParseInternal, h]
    rfl

theorem reaches_next (h : p.parseValue = .ok (.next q)) : Reaches 1 false p false q := by
  intro fuel
  simp only [saxParseInternal, h]
  rfl

theorem reaches_state_next (h : p.evaluateState = .ok (.next q)) : Reaches 1 true p false q := by
  intro fuel
  simp only [saxParseInternal, if_true, bind, Except.bind, h]

theorem reaches_state_evaluate (h : p.evaluateState = .ok (.evaluate q)) : Reaches 1 true p true q := by
  intro fuel
  simp only [saxParseInternal, if_true, bind, Except.bind, h]

/-! ## The loop accepts every phrase -/

/-- A key is read together with its separator. -/
theorem parseKey_ok {s : Lexer} (states : List Bool) (root : Json) (fields : List (String × Json)) (old : String)
    (frames : List Frame) (key : List UInt8) (h : s.scan.1 = .nameSeparator) :
    parseKey ⟨s, .valueString key, states, ⟨root, .object fields old :: frames⟩⟩ =
      .ok ⟨s.scan.2, .nameSeparator, states, ⟨root, .object fields (decoded key) :: frames⟩⟩ := by
  simp only [parseKey, getToken, Dom.key, h, if_pos]

/-- What the loop does with a phrase whose first token, or whose first key, has been read. -/
def Accepts : Phrase → List Token → Prop
  | .value j, ts => ∃ token rest, ts = token :: rest ∧ token ≠ .endArray ∧ ∀ s t states dom, Scans s rest t →
      ∃ n last, n ≤ ts.length ∧ Reaches n false ⟨s, token, states, dom⟩ true ⟨t, last, states, dom.handleValue j⟩
  | .elements items, ts => ∃ token rest, ts = token :: rest ∧ token ≠ .endArray ∧
      ∀ s t states root before frames, Scans s rest t → ∃ n last, n ≤ ts.length ∧
        Reaches n false ⟨s, token, true :: states, ⟨root, .array before :: frames⟩⟩ true
          ⟨t, last, true :: states, ⟨root, .array (before ++ items) :: frames⟩⟩
  | .members members, ts => ∃ key token rest, ts = .valueString key :: .nameSeparator :: token :: rest ∧
      ∀ s t states root fields frames, Scans s rest t → ∃ n last key', n ≤ ts.length ∧
        Reaches n false ⟨s, token, false :: states, ⟨root, .object fields (decoded key) :: frames⟩⟩ true
          ⟨t, last, false :: states, ⟨root, .object
            (members.foldl (fun fields member => setField member.1 member.2 fields) fields) key' :: frames⟩⟩

/-- A phrase of one token. -/
theorem accepts_single {j : Json} {token : Token} (hne : token ≠ .endArray) (h : ∀ s states dom,
    parseValue ⟨s, token, states, dom⟩ = .ok (.evaluate ⟨s, token, states, dom.handleValue j⟩)) :
    Accepts (.value j) [token] := by
  refine ⟨token, [], rfl, hne, ?_⟩
  intro s t states dom hscans
  cases hscans
  exact ⟨0, token, by simp, reaches_evaluate (h s states dom)⟩

theorem parseValue_array {s : Lexer} (states : List Bool) (root : Json) (frames : List Frame)
    (h : s.scan.1 ≠ .endArray) :
    parseValue ⟨s, .beginArray, states, ⟨root, frames⟩⟩ =
      .ok (.next ⟨s.scan.2, s.scan.1, true :: states, ⟨root, .array [] :: frames⟩⟩) := if_neg h

theorem parseValue_object {s : Lexer} (states : List Bool) (root : Json) (frames : List Frame) {key : List UInt8}
    (hkey : s.scan.1 = .valueString key) (hseparator : s.scan.2.scan.1 = .nameSeparator) :
    parseValue ⟨s, .beginObject, states, ⟨root, frames⟩⟩ =
      .ok (.next ⟨s.scan.2.scan.2.scan.2, s.scan.2.scan.2.scan.1, false :: states,
        ⟨root, .object [] (decoded key) :: frames⟩⟩) := by
  have hne : Token.valueString key ≠ .endObject := by simp
  have hparse := parseKey_ok states root [] "" frames key hseparator
  simp only [parseValue, getToken, hkey, if_neg hne, Dom.startObject]
  rw [hparse]
  rfl

theorem evaluateState_next {s : Lexer} (last : Token) (states : List Bool) (dom : Dom)
    (h : s.scan.1 = .valueSeparator) :
    evaluateState ⟨s, last, true :: states, dom⟩ =
      .ok (.next ⟨s.scan.2.scan.2, s.scan.2.scan.1, true :: states, dom⟩) := by
  simp only [evaluateState, getToken, h, if_pos]

theorem evaluateState_endArray {s : Lexer} (last : Token) (states : List Bool) (dom : Dom) (h : s.scan.1 = .endArray) :
    evaluateState ⟨s, last, true :: states, dom⟩ = .ok (.evaluate ⟨s.scan.2, .endArray, states, dom.endContainer⟩) := by
  have hne : Token.endArray ≠ .valueSeparator := by simp
  simp only [evaluateState, getToken, h, if_neg hne, if_pos]
  rfl

theorem evaluateState_member {s : Lexer} (last : Token) (states : List Bool) (root : Json)
    (fields : List (String × Json)) (old : String) (frames : List Frame) {key : List UInt8}
    (h : s.scan.1 = .valueSeparator) (hkey : s.scan.2.scan.1 = .valueString key)
    (hseparator : s.scan.2.scan.2.scan.1 = .nameSeparator) :
    evaluateState ⟨s, last, false :: states, ⟨root, .object fields old :: frames⟩⟩ =
      .ok (.next ⟨s.scan.2.scan.2.scan.2.scan.2, s.scan.2.scan.2.scan.2.scan.1, false :: states,
        ⟨root, .object fields (decoded key) :: frames⟩⟩) := by
  have hparse := parseKey_ok (false :: states) root fields old frames key hseparator
  simp only [evaluateState, getToken, h, if_pos, hkey]
  rw [hparse]
  rfl

theorem evaluateState_endObject {s : Lexer} (last : Token) (states : List Bool) (dom : Dom)
    (h : s.scan.1 = .endObject) :
    evaluateState ⟨s, last, false :: states, dom⟩ = .ok (.evaluate ⟨s.scan.2, .endObject, states, dom.endContainer⟩) := by
  have hne : Token.endObject ≠ .valueSeparator := by simp
  simp only [evaluateState, getToken, h, if_neg hne, if_pos]
  rfl

theorem scans_cons {s t : Lexer} {token : Token} {ts : List Token} (h : Scans s (token :: ts) t) :
    s.scan.1 = token ∧ Scans s.scan.2 ts t := by
  cases h with
  | cons htoken hrest => exact ⟨htoken, hrest⟩

theorem accepts {phrase : Phrase} {ts : List Token} (h : Derives phrase ts) : Accepts phrase ts := by
  induction h with
  | null | litTrue | litFalse | unsigned | integer | string => exact accepts_single (by simp) fun _ _ _ => rfl
  | float hfinite => exact accepts_single (by simp) fun _ _ _ => by simp only [parseValue, if_pos hfinite, value]
  | emptyArray =>
    refine ⟨.beginArray, [.endArray], rfl, by simp, ?_⟩
    intro s t states dom hscans
    obtain ⟨hend, hnil⟩ := scans_cons hscans
    cases hnil
    refine ⟨0, .endArray, by simp, reaches_evaluate ?_⟩
    simp only [parseValue, getToken, hend, if_pos]
    rfl
  | @array items ts h ih =>
    obtain ⟨token, rest, rfl, hne, hrun⟩ := ih
    refine ⟨.beginArray, token :: (rest ++ [.endArray]), rfl, by simp, ?_⟩
    rintro s t states ⟨root, frames⟩ hscans
    obtain ⟨htoken, hscans⟩ := scans_cons hscans
    obtain ⟨u, hu, hclose⟩ := Scans.append_iff.mp hscans
    obtain ⟨hend, hnil⟩ := scans_cons hclose
    cases hnil
    obtain ⟨n, last, hn, hreach⟩ := hrun s.scan.2 u states root [] frames hu
    have hopen := reaches_next (parseValue_array states root frames (htoken ▸ hne))
    rw [htoken] at hopen
    have hdone := reaches_state_evaluate (evaluateState_endArray last states ⟨root, .array items :: frames⟩ hend)
    refine ⟨1 + (n + 1), .endArray, ?_, (hopen.trans hreach).trans hdone⟩
    simp only [List.length_cons, List.length_append, List.length_nil] at hn ⊢
    omega
  | emptyObject =>
    refine ⟨.beginObject, [.endObject], rfl, by simp, ?_⟩
    intro s t states dom hscans
    obtain ⟨hend, hnil⟩ := scans_cons hscans
    cases hnil
    refine ⟨0, .endObject, by simp, reaches_evaluate ?_⟩
    simp only [parseValue, getToken, hend, if_pos]
    rfl
  | @object members ts h ih =>
    obtain ⟨key, token, rest, rfl, hrun⟩ := ih
    refine ⟨.beginObject, .valueString key :: .nameSeparator :: token :: (rest ++ [.endObject]), rfl, by simp, ?_⟩
    rintro s t states ⟨root, frames⟩ hscans
    obtain ⟨hkey, hscans⟩ := scans_cons hscans
    obtain ⟨hseparator, hscans⟩ := scans_cons hscans
    obtain ⟨htoken, hscans⟩ := scans_cons hscans
    obtain ⟨u, hu, hclose⟩ := Scans.append_iff.mp hscans
    obtain ⟨hend, hnil⟩ := scans_cons hclose
    cases hnil
    obtain ⟨n, last, key', hn, hreach⟩ := hrun s.scan.2.scan.2.scan.2 u states root [] frames hu
    have hopen := reaches_next (parseValue_object states root frames hkey hseparator)
    rw [htoken] at hopen
    have hdone := reaches_state_evaluate (evaluateState_endObject last states
      ⟨root, .object (collect members) key' :: frames⟩ hend)
    refine ⟨1 + (n + 1), .endObject, ?_, (hopen.trans hreach).trans hdone⟩
    simp only [List.length_cons, List.length_append, List.length_nil] at hn ⊢
    omega
  | oneElement h ih =>
    obtain ⟨token, rest, rfl, hne, hrun⟩ := ih
    refine ⟨token, rest, rfl, hne, ?_⟩
    intro s t states root before frames hscans
    exact hrun s t (true :: states) ⟨root, .array before :: frames⟩ hscans
  | @nextElement items j ts ts' h h' ih ih' =>
    obtain ⟨token, rest, rfl, hne, hrun⟩ := ih
    obtain ⟨token', rest', rfl, hne', hrun'⟩ := ih'
    refine ⟨token, rest ++ .valueSeparator :: token' :: rest', rfl, hne, ?_⟩
    intro s t states root before frames hscans
    obtain ⟨u, hu, hscans⟩ := Scans.append_iff.mp hscans
    obtain ⟨hseparator, hscans⟩ := scans_cons hscans
    obtain ⟨htoken, hscans⟩ := scans_cons hscans
    obtain ⟨n, last, hn, hreach⟩ := hrun s u states root before frames hu
    obtain ⟨n', last', hn', hreach'⟩ := hrun' u.scan.2.scan.2 t (true :: states)
      ⟨root, .array (before ++ items) :: frames⟩ hscans
    have hnext := reaches_state_next (evaluateState_next last states ⟨root, .array (before ++ items) :: frames⟩ hseparator)
    rw [htoken] at hnext
    refine ⟨n' + (1 + n), last', ?_, ?_⟩
    · simp only [List.length_cons, List.length_append] at hn hn' ⊢
      omega
    · rw [← List.append_assoc]
      exact (hreach.trans hnext).trans hreach'
  | @oneMember key j ts h ih =>
    obtain ⟨token, rest, rfl, hne, hrun⟩ := ih
    refine ⟨key, token, rest, rfl, ?_⟩
    intro s t states root fields frames hscans
    obtain ⟨n, last, hn, hreach⟩ := hrun s t (false :: states) ⟨root, .object fields (decoded key) :: frames⟩ hscans
    refine ⟨n, last, decoded key, ?_, hreach⟩
    simp only [List.length_cons] at hn ⊢
    omega
  | @nextMember key members j ts ts' h h' ih ih' =>
    obtain ⟨key₀, token, rest, rfl, hrun⟩ := ih
    obtain ⟨token', rest', rfl, hne', hrun'⟩ := ih'
    refine ⟨key₀, token, rest ++ .valueSeparator :: .valueString key :: .nameSeparator :: token' :: rest', rfl, ?_⟩
    intro s t states root fields frames hscans
    obtain ⟨u, hu, hscans⟩ := Scans.append_iff.mp hscans
    obtain ⟨hcomma, hscans⟩ := scans_cons hscans
    obtain ⟨hkey, hscans⟩ := scans_cons hscans
    obtain ⟨hseparator, hscans⟩ := scans_cons hscans
    obtain ⟨htoken, hscans⟩ := scans_cons hscans
    obtain ⟨n, last, key', hn, hreach⟩ := hrun s u states root fields frames hu
    obtain ⟨n', last', hn', hreach'⟩ := hrun' u.scan.2.scan.2.scan.2.scan.2 t (false :: states)
      ⟨root, .object (members.foldl (fun fields member => setField member.1 member.2 fields) fields) (decoded key) ::
        frames⟩ hscans
    have hnext := reaches_state_next (evaluateState_member last states root
      (members.foldl (fun fields member => setField member.1 member.2 fields) fields) key' frames hcomma hkey hseparator)
    rw [htoken] at hnext
    refine ⟨n' + (1 + n), last', decoded key, ?_, ?_⟩
    · simp only [List.length_cons, List.length_append] at hn hn' ⊢
      omega
    · rw [List.foldl_append]
      exact (hreach.trans hnext).trans hreach'

/-! ## The loop accepts nothing else -/

/-- The tokens read so far when the loop waits for a value. -/
inductive Open : List Token → List Bool → List Frame → Prop
  | top : Open [] [] []
  | firstElement {ts : List Token} {states : List Bool} {frames : List Frame} (h : Open ts states frames) :
      Open (ts ++ [.beginArray]) (true :: states) (.array [] :: frames)
  | nextElement {ts es : List Token} {states : List Bool} {frames : List Frame} {items : List Json}
      (h : Open ts states frames) (h' : Derives (.elements items) es) :
      Open (ts ++ .beginArray :: (es ++ [.valueSeparator])) (true :: states) (.array items :: frames)
  | firstMember {ts : List Token} {states : List Bool} {frames : List Frame} (key : List UInt8)
      (h : Open ts states frames) :
      Open (ts ++ [.beginObject, .valueString key, .nameSeparator]) (false :: states) (.object [] (decoded key) :: frames)
  | nextMember {ts ms : List Token} {states : List Bool} {frames : List Frame} {members : List (String × Json)}
      (key : List UInt8) (h : Open ts states frames) (h' : Derives (.members members) ms) :
      Open (ts ++ .beginObject :: (ms ++ [.valueSeparator, .valueString key, .nameSeparator])) (false :: states)
        (.object (collect members) (decoded key) :: frames)

/-- The tokens read so far when a value is complete. -/
inductive Complete : List Token → List Bool → Dom → Prop
  | top {ts : List Token} {j : Json} (h : Derives (.value j) ts) : Complete ts [] ⟨j, []⟩
  | elements {ts es : List Token} {states : List Bool} {frames : List Frame} {items : List Json} (root : Json)
      (h : Open ts states frames) (h' : Derives (.elements items) es) :
      Complete (ts ++ .beginArray :: es) (true :: states) ⟨root, .array items :: frames⟩
  | members {ts ms : List Token} {states : List Bool} {frames : List Frame} {members : List (String × Json)}
      (root : Json) (key : String) (h : Open ts states frames) (h' : Derives (.members members) ms) :
      Complete (ts ++ .beginObject :: ms) (false :: states) ⟨root, .object (collect members) key :: frames⟩

theorem collect_concat (members : List (String × Json)) (key : String) (v : Json) :
    collect (members ++ [(key, v)]) = setField key v (collect members) := by
  simp [collect]

/-- A value that the loop has waited for completes what is open. -/
theorem Open.complete {ts vs : List Token} {states : List Bool} {frames : List Frame} {j : Json}
    (h : Open ts states frames) (root : Json) (hj : Derives (.value j) vs) :
    Complete (ts ++ vs) states (Dom.handleValue ⟨root, frames⟩ j) := by
  cases h with
  | top => exact .top hj
  | firstElement h =>
    rw [List.append_assoc]
    exact .elements root h (.oneElement hj)
  | nextElement h h' =>
    rw [List.append_assoc, List.cons_append, List.append_assoc]
    exact .elements root h (.nextElement h' hj)
  | firstMember key h =>
    rw [List.append_assoc]
    exact .members root (decoded key) h (.oneMember key hj)
  | @nextMember _ ms _ _ members key h h' =>
    rw [List.append_assoc, List.cons_append, List.append_assoc]
    have hmembers := Complete.members root (decoded key) h (.nextMember key h' hj)
    rwa [collect_concat] at hmembers

/-- All tokens are read from `s`; the last one is the first of a value. -/
structure Waits (s : Lexer) (ts : List Token) (p : Parser) : Prop where
  opened : Open ts p.states p.dom.refStack
  scans : Scans s (ts ++ [p.lastToken]) p.lexer

structure Completes (s : Lexer) (ts : List Token) (p : Parser) : Prop where
  complete : Complete ts p.states p.dom
  scans : Scans s ts p.lexer

theorem scans_getToken {s : Lexer} {ts : List Token} {p : Parser} (h : Scans s ts p.lexer) :
    Scans s (ts ++ [p.getToken.lastToken]) p.getToken.lexer := Scans.append_iff.mpr ⟨p.lexer, h, Scans.one p.lexer⟩

theorem of_bind_ok {ε α β : Type} {x : Except ε α} {f : α → Except ε β} {b : β} (h : x >>= f = .ok b) :
    ∃ a, x = .ok a ∧ f a = .ok b := by
  cases x with
  | error e => cases h
  | ok a => exact ⟨a, rfl, h⟩

theorem parseKey_cases {s : Lexer} {ts : List Token} {p q : Parser} (hscans : Scans s (ts ++ [p.lastToken]) p.lexer)
    (h : p.parseKey = .ok q) : ∃ key, q = ⟨q.lexer, .nameSeparator, p.states, p.dom.key (decoded key)⟩ ∧
      Scans s (ts ++ [.valueString key, .nameSeparator]) q.lexer := by
  unfold parseKey at h
  split at h
  · rename_i key hkey
    simp only at h
    split at h
    · cases h
      rename_i hseparator
      refine ⟨key, ?_, ?_⟩
      · rw [← hseparator]
        rfl
      · rw [hkey] at hscans
        have hnext := scans_getToken (p := { p with dom := p.dom.key (decoded key) }) hscans
        rw [hseparator] at hnext
        rwa [List.append_assoc] at hnext
    · cases h
  · cases h

def Turn.Sound (s : Lexer) : Turn → Prop
  | .next q => ∃ ts, Waits s ts q
  | .evaluate q => ∃ ts, Completes s ts q

def Evaluation.Sound (s : Lexer) : Evaluation → Prop
  | .finished q => ∃ ts, Completes s ts q ∧ q.states = []
  | .next q => ∃ ts, Waits s ts q
  | .evaluate q => ∃ ts, Completes s ts q

theorem Waits.single {s : Lexer} {ts : List Token} {p : Parser} {j : Json} (h : Waits s ts p)
    (hj : Derives (.value j) [p.lastToken]) : (Turn.evaluate (p.value j)).Sound s :=
  ⟨ts ++ [p.lastToken], h.opened.complete p.dom.root hj, h.scans⟩

/-- The object or array that starts here ends with the next token. -/
theorem Waits.empty {s : Lexer} {ts : List Token} {p q : Parser} {j : Json} {close : Token} (h : Waits s ts p)
    (hlexer : q.lexer = p.lexer) (hstates : q.states = p.states) (hclose : q.getToken.lastToken = close)
    (hj : Derives (.value j) [p.lastToken, close]) {dom : Dom} (hdom : dom = p.dom.handleValue j) :
    (Turn.evaluate { q.getToken with dom := dom }).Sound s := by
  refine ⟨ts ++ [p.lastToken, close], ?_, ?_⟩
  · rw [hdom]
    change Complete _ q.states _
    rw [hstates]
    exact h.opened.complete p.dom.root hj
  · have hnext := scans_getToken (p := q) (hlexer ▸ h.scans)
    rw [hclose, List.append_assoc] at hnext
    exact hnext

theorem parseValue_sound {s : Lexer} {ts : List Token} {p : Parser} (h : Waits s ts p) {turn : Turn}
    (hturn : p.parseValue = .ok turn) : turn.Sound s := by
  unfold parseValue at hturn
  split at hturn
  · rename_i htoken
    simp only at hturn
    split at hturn
    · rename_i hclose
      cases hturn
      exact h.empty (q := { p with dom := p.dom.startObject }) rfl rfl hclose (htoken ▸ .emptyObject) rfl
    · obtain ⟨q, hkey, hq⟩ := of_bind_ok hturn
      cases hq
      have hscans := scans_getToken (p := { p with dom := p.dom.startObject }) h.scans
      obtain ⟨key, hq, hlast⟩ := parseKey_cases hscans hkey
      have hnext := scans_getToken (p := { q with states := false :: q.states }) hlast
      refine ⟨ts ++ [.beginObject, .valueString key, .nameSeparator], ?_, ?_⟩
      · rw [hq]
        exact .firstMember key h.opened
      · rw [htoken, List.append_assoc ts] at hnext
        exact hnext
  · rename_i htoken
    simp only at hturn
    split at hturn
    · rename_i hclose
      cases hturn
      exact h.empty (q := { p with dom := p.dom.startArray }) rfl rfl hclose (htoken ▸ .emptyArray) rfl
    · cases hturn
      have hscans := scans_getToken (p := { p with dom := p.dom.startArray }) h.scans
      rw [htoken] at hscans
      exact ⟨ts ++ [.beginArray], .firstElement h.opened, hscans⟩
  · rename_i bits htoken
    split at hturn
    · rename_i hfinite
      cases hturn
      exact h.single (htoken ▸ .float hfinite)
    · cases hturn
  · rename_i htoken
    cases hturn
    exact h.single (htoken ▸ .litFalse)
  · rename_i htoken
    cases hturn
    exact h.single (htoken ▸ .null)
  · rename_i htoken
    cases hturn
    exact h.single (htoken ▸ .litTrue)
  · rename_i n htoken
    cases hturn
    exact h.single (htoken ▸ .integer n)
  · rename_i value htoken
    cases hturn
    exact h.single (htoken ▸ .string value)
  · rename_i n htoken
    cases hturn
    exact h.single (htoken ▸ .unsigned n)
  · cases hturn
  · split at hturn <;> cases hturn
  all_goals cases hturn

theorem evaluateState_sound {s : Lexer} {ts : List Token} {p : Parser} (h : Completes s ts p) {evaluation : Evaluation}
    (hevaluation : p.evaluateState = .ok evaluation) : evaluation.Sound s := by
  obtain ⟨lexer, last, states, dom⟩ := p
  obtain ⟨hcomplete, hscans⟩ := h
  have hnext := scans_getToken hscans
  unfold evaluateState at hevaluation
  cases hcomplete with
  | top hj =>
    cases hevaluation
    exact ⟨ts, ⟨.top hj, hscans⟩, rfl⟩
  | @elements ts es states frames items root hopen hitems =>
    simp only at hevaluation
    split at hevaluation
    · rename_i hcomma
      cases hevaluation
      rw [hcomma] at hnext
      refine ⟨ts ++ .beginArray :: (es ++ [.valueSeparator]), .nextElement hopen hitems, ?_⟩
      have hvalue := scans_getToken hnext
      rw [List.append_assoc ts, List.cons_append] at hvalue
      exact hvalue
    split at hevaluation
    · rename_i hclose
      cases hevaluation
      rw [hclose] at hnext
      refine ⟨ts ++ .beginArray :: (es ++ [.endArray]), hopen.complete root (.array hitems), ?_⟩
      rwa [List.append_assoc, List.cons_append] at hnext
    · cases hevaluation
  | @members ts ms states frames members root key hopen hmembers =>
    simp only at hevaluation
    split at hevaluation
    · rename_i hcomma
      obtain ⟨q, hkey, hq⟩ := of_bind_ok hevaluation
      cases hq
      rw [hcomma] at hnext
      obtain ⟨key', hq, hlast⟩ := parseKey_cases (scans_getToken hnext) hkey
      have hvalue := scans_getToken hlast
      refine ⟨ts ++ .beginObject :: (ms ++ [.valueSeparator, .valueString key', .nameSeparator]), ?_, ?_⟩
      · rw [hq]
        exact .nextMember key' hopen hmembers
      · simpa using hvalue
    split at hevaluation
    · rename_i hclose
      cases hevaluation
      rw [hclose] at hnext
      refine ⟨ts ++ .beginObject :: (ms ++ [.endObject]), hopen.complete root (.object hmembers), ?_⟩
      rwa [List.append_assoc, List.cons_append] at hnext
    · cases hevaluation

theorem saxParseInternal_sound {s : Lexer} {fuel : Nat} {skip : Bool} {p q : Parser}
    (h : if skip then ∃ ts, Completes s ts p else ∃ ts, Waits s ts p)
    (hrun : saxParseInternal fuel skip p = .ok q) : ∃ ts, Completes s ts q ∧ q.states = [] := by
  induction fuel generalizing skip p with
  | zero => cases hrun
  | succ fuel ih =>
    have hturn (turn : Turn) (hok : (if skip then .ok (.evaluate p) else p.parseValue) = .ok turn) : turn.Sound s := by
      cases skip with
      | true =>
        cases hok
        exact h
      | false =>
        obtain ⟨ts, hwaits⟩ := h
        exact parseValue_sound hwaits hok
    obtain ⟨turn, hok, hrun⟩ := of_bind_ok hrun
    cases turn with
    | next p' => exact @ih false p' (hturn _ hok) hrun
    | evaluate p' =>
      obtain ⟨ts, hcompletes⟩ := hturn _ hok
      obtain ⟨evaluation, heval, hrun⟩ := of_bind_ok hrun
      have hsound := evaluateState_sound hcompletes heval
      cases evaluation with
      | finished r =>
        cases hrun
        exact hsound
      | next r => exact @ih false r hsound hrun
      | evaluate r => exact @ih true r hsound hrun

end Parser

end CrossNative.Text
