import CrossNative.Rust.Native
import CrossNative.Rust.TypedCall

/-!
# Calls of a linked build

The host prints the request and serde_json reads it, the module prints its response and the
host reads that. On the way there a double may become another one.
-/

namespace CrossNative

set_option autoImplicit false

open Basis Proc

mutual

/-- The document without its doubles and without the contents of its objects. -/
def Json.outline : Json → Json
  | .null => .null
  | .bool b => .bool b
  | .int n => .int n
  | .float _ => .float 0
  | .str s => .str s
  | .arr items => .arr (Json.outlineItems items)
  | .obj _ => .obj []

def Json.outlineItems : List Json → List Json
  | [] => []
  | j :: items => j.outline :: Json.outlineItems items

end

mutual

def Json.mapDoubles (f : BitVec 64 → BitVec 64) : Json → Json
  | .null => .null
  | .bool b => .bool b
  | .int n => .int n
  | .float x => .float (f x)
  | .str s => .str s
  | .arr items => .arr (Json.mapItems f items)
  | .obj fields => .obj (Json.mapFields f fields)

def Json.mapItems (f : BitVec 64 → BitVec 64) : List Json → List Json
  | [] => []
  | j :: items => j.mapDoubles f :: Json.mapItems f items

def Json.mapFields (f : BitVec 64 → BitVec 64) : List (String × Json) → List (String × Json)
  | [] => []
  | (key, j) :: fields => (key, j.mapDoubles f) :: Json.mapFields f fields

end

mutual

@[simp] theorem Json.outline_mapDoubles (f : BitVec 64 → BitVec 64) :
    ∀ j : Json, (j.mapDoubles f).outline = j.outline
  | .null | .bool _ | .int _ | .float _ | .str _ | .obj _ => rfl
  | .arr items => congrArg Json.arr (Json.outlineItems_mapItems f items)

theorem Json.outlineItems_mapItems (f : BitVec 64 → BitVec 64) :
    ∀ items : List Json, outlineItems (mapItems f items) = outlineItems items
  | [] => rfl
  | j :: items => congrArg₂ List.cons (Json.outline_mapDoubles f j) (Json.outlineItems_mapItems f items)

end

theorem Json.outlineItems_eq_map (items : List Json) : outlineItems items = items.map outline := by
  induction items with
  | nil => rfl
  | cons j items ih => rw [outlineItems, ih, List.map_cons]

namespace Rust

/-- serde_json at both ends of a linked call. -/
structure Serde where
  /-- `from_str`, on the text the host prints of a document. -/
  fromStr : Json → Except String Json
  /-- A request is refused, or read as it is but for its doubles: these are read without
  `float_roundtrip`. -/
  fromStr_request : ∀ functionName args zeroCopy parsed,
    fromStr (request functionName args zeroCopy) = .ok parsed →
      requestFunction parsed = functionName ∧
        (requestArgs parsed).map Json.outline = args.map fun j => j.dump.outline
  /-- What the host reads in the text that is printed of a result. -/
  answer : Json → Json
  /-- A double is printed with the digits that give it back. -/
  answer_encode : ∀ v : RustValue, answer (encode v) = encode v

def Serde.answered (serde : Serde) : Envelope → Envelope
  | .success result outputs => .success (serde.answer result) outputs
  | .failure error => .failure error

/-- The reader that takes every text, and reads every double as `double` says. -/
def Serde.reading (double : BitVec 64 → BitVec 64) : Serde where
  fromStr document := .ok (document.dump.mapDoubles double)
  fromStr_request functionName args zeroCopy parsed h := by
    cases h
    have hargs : (Json.mapItems double (args.map Json.dump)).map Json.outline =
        (args.map Json.dump).map Json.outline := by
      rw [← Json.outlineItems_eq_map, Json.outlineItems_mapItems, Json.outlineItems_eq_map]
    simp only [request, Json.dump, Json.dumpFields, Json.dumpItems_eq_map, Json.mapDoubles,
      Json.mapFields, requestFunction, requestArgs, Json.find?]
    refine ⟨rfl, hargs.trans ?_⟩
    rw [List.map_map]
    rfl
  answer document := document
  answer_encode _ := rfl

/-! ## Decoding -/

/-- The values `T::from_json` takes. -/
def Scalar.Takes (s : Scalar) : Json → Prop
  | .int _ | .float _ => True
  | .bool _ => s = .bool
  | _ => False

/-- The decoder of a parameter takes the argument. -/
def LinkedTakes : Kind → Option Json → Prop
  | .scalar s, some j => s.Takes j
  | .slice s _, some (.arr items) => ∀ j ∈ items, s.Takes j
  | .text _, some (.str _) => True
  | .unit, _ => True
  | _, _ => False

def linkedValue : Kind → Json → Option RustValue
  | .scalar s, j => (fromJson s j).map (.scalar s)
  | .slice s _, .arr items => (fromItems s items).map (.vec s)
  | .text _, .str text => some (.text text)
  | _, _ => none

theorem takes_outline {s : Scalar} {j : Json} : s.Takes j.outline ↔ s.Takes j := by
  cases j <;> rfl

theorem linkedTakes_outline {k : Kind} {o : Option Json} :
    LinkedTakes k (o.map Json.outline) ↔ LinkedTakes k o := by
  cases o with
  | none => rfl
  | some j =>
    cases k with
    | scalar s => exact takes_outline
    | slice s owned =>
      cases j with
      | arr items =>
        simp only [Option.map_some, Json.outline, Json.outlineItems_eq_map, LinkedTakes,
          List.forall_mem_map, takes_outline]
      | _ => rfl
    | text owned => cases j <;> rfl
    | unit => rfl

theorem fromJson_isSome_iff {s : Scalar} {j : Json} : (fromJson s j).isSome ↔ s.Takes j := by
  cases s with
  | bool => cases j <;> simp [fromJson, asF64, Scalar.Takes]
  | _ =>
    cases j with
    | bool b => exact iff_of_false Bool.false_ne_true fun h => by cases h
    | int n => exact iff_of_true rfl trivial
    | float x => exact iff_of_true rfl trivial
    | _ => exact iff_of_false Bool.false_ne_true id

theorem fromItems_isSome_iff {s : Scalar} {items : List Json} :
    (fromItems s items).isSome ↔ ∀ j ∈ items, s.Takes j := by
  induction items with
  | nil => simp [fromItems]
  | cons j items ih =>
    rw [List.forall_mem_cons, ← ih, ← fromJson_isSome_iff]
    cases hj : fromJson s j <;> cases hitems : fromItems s items <;> simp [fromItems, hj, hitems]

section Arguments

variable {k : Kind} {args : List Json} {i : Nat}

theorem argScalar_ok_iff {s : Scalar} {v : BitVec s.bits} :
    argScalar s args i = .ok v ↔ ∃ j, args[i]? = some j ∧ fromJson s j = some v := by
  unfold argScalar
  cases args[i]? with
  | none => simp
  | some j => cases hj : fromJson s j <;> simp [hj]

theorem argVec_ok_iff {s : Scalar} {vs : List (BitVec s.bits)} :
    argVec s args i = .ok vs ↔ ∃ items, args[i]? = some (.arr items) ∧ fromItems s items = some vs := by
  unfold argVec
  split
  · rename_i items hget
    cases hitems : fromItems s items <;> simp [hget, hitems]
  · rename_i hnone
    constructor
    · intro h
      cases h
    · rintro ⟨items, hget, _⟩
      exact absurd hget (hnone items)

theorem argString_ok_iff {text : String} : argString args i = .ok text ↔ args[i]? = some (.str text) := by
  unfold argString
  split
  · rename_i text' hget
    simp [hget]
  · rename_i hnone
    constructor
    · intro h
      cases h
    · intro hget
      exact absurd hget (hnone text)

/-- A decoder that takes its argument gives one value; that of a unit parameter takes none. -/
theorem argValues_ok_iff {vs : List RustValue} :
    argValues k args i = .ok vs ↔
      k = .unit ∧ vs = [] ∨ ∃ j v, args[i]? = some j ∧ linkedValue k j = some v ∧ vs = [v] := by
  cases k with
  | unit => simp [argValues, linkedValue, eq_comm]
  | scalar s =>
    simp only [argValues, map_ok_iff, argScalar_ok_iff, linkedValue, Option.map_eq_some_iff]
    constructor
    · rintro ⟨v, ⟨j, hget, hj⟩, rfl⟩
      exact Or.inr ⟨j, _, hget, ⟨v, hj, rfl⟩, rfl⟩
    · rintro (⟨hunit, _⟩ | ⟨j, _, hget, ⟨v, hj, rfl⟩, rfl⟩)
      · cases hunit
      · exact ⟨v, ⟨j, hget, hj⟩, rfl⟩
  | slice s owned =>
    simp only [argValues, map_ok_iff, argVec_ok_iff]
    constructor
    · rintro ⟨vs, ⟨items, hget, hitems⟩, rfl⟩
      exact Or.inr ⟨.arr items, .vec s vs, hget, by rw [linkedValue, hitems]; rfl, rfl⟩
    · rintro (⟨hunit, _⟩ | ⟨j, v, hget, hv, rfl⟩)
      · cases hunit
      · cases j with
        | arr items =>
          obtain ⟨vs, hitems, rfl⟩ := Option.map_eq_some_iff.mp hv
          exact ⟨vs, ⟨items, hget, hitems⟩, rfl⟩
        | _ => cases hv
  | text owned =>
    simp only [argValues, map_ok_iff, argString_ok_iff]
    constructor
    · rintro ⟨text, hget, rfl⟩
      exact Or.inr ⟨.str text, .text text, hget, rfl, rfl⟩
    · rintro (⟨hunit, _⟩ | ⟨j, v, hget, hv, rfl⟩)
      · cases hunit
      · cases j with
        | str text =>
          cases hv
          exact ⟨text, hget, rfl⟩
        | _ => cases hv

theorem linkedValue_isSome_iff {j : Json} : k = .unit ∨ (linkedValue k j).isSome ↔ LinkedTakes k (some j) := by
  cases k with
  | unit => simp [LinkedTakes]
  | scalar s => simp [linkedValue, LinkedTakes, ← fromJson_isSome_iff]
  | slice s owned => cases j <;> simp [linkedValue, LinkedTakes, ← fromItems_isSome_iff]
  | text owned => cases j <;> simp [linkedValue, LinkedTakes]

theorem argValues_takes_iff : (∃ vs, argValues k args i = .ok vs) ↔ LinkedTakes k args[i]? := by
  simp only [argValues_ok_iff]
  cases hget : args[i]? with
  | none => cases k <;> simp [LinkedTakes]
  | some j =>
    rw [← linkedValue_isSome_iff, Option.isSome_iff_exists]
    constructor
    · rintro ⟨vs, ⟨hunit, _⟩ | ⟨j', v, heq, hv, _⟩⟩
      · exact Or.inl hunit
      · cases heq
        exact Or.inr ⟨v, hv⟩
    · rintro (hunit | ⟨v, hv⟩)
      · exact ⟨[], Or.inl ⟨hunit, rfl⟩⟩
      · exact ⟨[v], Or.inr ⟨j, v, rfl, hv, rfl⟩⟩

theorem nativeDecode_cons_iff {kinds : List Kind} {ws : List RustValue} :
    nativeDecode args (k :: kinds) i = .ok ws ↔
      ∃ vs vs', argValues k args i = .ok vs ∧ nativeDecode args kinds (i + 1) = .ok vs' ∧ ws = vs ++ vs' := by
  rw [nativeDecode]
  cases hvalues : argValues k args i with
  | error e => simp
  | ok vs =>
    rw [map_ok_iff]
    constructor
    · rintro ⟨vs', hvs', rfl⟩
      exact ⟨vs, vs', rfl, hvs', rfl⟩
    · rintro ⟨_, vs', hvs, hvs', rfl⟩
      cases hvs
      exact ⟨vs', hvs', rfl⟩

/-- Extra arguments are not looked at. -/
theorem nativeDecode_takes_iff {kinds : List Kind} :
    (∃ ws, nativeDecode args kinds i = .ok ws) ↔
      ∀ (n : Nat) (k : Kind), kinds[n]? = some k → LinkedTakes k args[i + n]? := by
  induction kinds generalizing i with
  | nil => simp [nativeDecode]
  | cons k kinds ih =>
    constructor
    · rintro ⟨ws, hws⟩ n k' hk'
      obtain ⟨vs, vs', hvs, hvs', _⟩ := nativeDecode_cons_iff.mp hws
      cases n with
      | zero =>
        cases hk'
        exact argValues_takes_iff.mp ⟨vs, hvs⟩
      | succ n =>
        have hrest := ih.mp ⟨vs', hvs'⟩ n k' hk'
        rw [show i + (n + 1) = i + 1 + n by omega]
        exact hrest
    · intro hall
      obtain ⟨vs, hvs⟩ := argValues_takes_iff.mpr (hall 0 k rfl)
      obtain ⟨vs', hvs'⟩ := ih.mpr fun n k' hk' => by
        rw [show i + 1 + n = i + (n + 1) by omega]
        exact hall (n + 1) k' hk'
      exact ⟨vs ++ vs', nativeDecode_cons_iff.mpr ⟨vs, vs', hvs, hvs', rfl⟩⟩

end Arguments

/-! ## The linked call -/

theorem nativeCall_eq_encode {f : RustFn} {values : List RustValue} {v : RustValue}
    (hbody : f.body values = some v) : nativeCall f v = encode v := by
  have hkind := f.body_typed values v hbody
  unfold nativeCall
  split
  · rename_i hunit
    rw [hunit] at hkind
    cases v with
    | unit => rfl
    | _ => exact hkind.elim
  · rfl

namespace TypedCall

variable {σ : Type} (c : TypedCall σ) (serde : Serde) (zeroCopy : Bool)

def linkedRequest : Except String Json := serde.fromStr (request c.fn.decl.name.text c.args zeroCopy)

def linked : Option Envelope :=
  (dispatch c.module.functions (c.linkedRequest serde zeroCopy)).map serde.answered

/-- The arguments as the module has read them. -/
def received : Except String (List Json) := (c.linkedRequest serde zeroCopy).map requestArgs

def linkedValues : Except String (List RustValue) :=
  (c.received serde zeroCopy).bind fun args => nativeDecode args c.kinds 0

variable {c serde zeroCopy}

theorem received_outline {args : List Json} (h : c.received serde zeroCopy = .ok args) :
    args.map Json.outline = c.args.map fun j => j.dump.outline := by
  obtain ⟨parsed, hparsed, rfl⟩ := map_ok_iff.mp h
  exact (serde.fromStr_request _ _ _ _ hparsed).2

theorem linked_of_error {e : String} (h : c.linkedValues serde zeroCopy = .error e) :
    ∃ error, c.linked serde zeroCopy = some (.failure error) := by
  cases hread : c.linkedRequest serde zeroCopy with
  | error e' => exact ⟨_, by rw [linked, hread]; rfl⟩
  | ok parsed =>
    have hdecode : nativeDecode (requestArgs parsed) c.kinds 0 = .error e := by
      rw [linkedValues, received, hread] at h
      exact h
    have hinvoke : invoke c.fn (requestArgs parsed) = some (.error e) := by
      unfold invoke
      rw [show nativeDecode _ (c.fn.decl.params.map ParamDecl.kind) 0 = .error e from hdecode]
    refine ⟨e, ?_⟩
    rw [linked, hread, dispatch_of_parsed c.exported (serde.fromStr_request _ _ _ _ hread).1, hinvoke]
    rfl

theorem linked_of_ok {ws : List RustValue} (h : c.linkedValues serde zeroCopy = .ok ws) {w : RustValue}
    (hbody : c.fn.body ws = some w) :
    c.linked serde zeroCopy = some (.success (encode w) []) := by
  cases hread : c.linkedRequest serde zeroCopy with
  | error e' =>
    rw [linkedValues, received, hread] at h
    cases h
  | ok parsed =>
    have hdecode : nativeDecode (requestArgs parsed) c.kinds 0 = .ok ws := by
      rw [linkedValues, received, hread] at h
      exact h
    have hinvoke : invoke c.fn (requestArgs parsed) = some (.ok (encode w)) := by
      unfold invoke
      rw [show nativeDecode _ (c.fn.decl.params.map ParamDecl.kind) 0 = .ok ws from hdecode]
      simp only [hbody, Option.map_some, nativeCall_eq_encode hbody]
    rw [linked, hread, dispatch_of_parsed c.exported (serde.fromStr_request _ _ _ _ hread).1, hinvoke]
    simp only [Option.map_some, replyEnvelope, Serde.answered, serde.answer_encode]

variable (c serde zeroCopy)

/-- The request is read, and every decoder takes the argument of its parameter. -/
def LinkedAccepts : Prop :=
  (∃ parsed, c.linkedRequest serde zeroCopy = .ok parsed) ∧
    ∀ (n : Nat) (k : Kind), c.kinds[n]? = some k → LinkedTakes k (c.args[n]?.map Json.dump)

theorem linkedAccepts_iff :
    (∃ ws, c.linkedValues serde zeroCopy = .ok ws) ↔ c.LinkedAccepts serde zeroCopy := by
  unfold LinkedAccepts
  cases hread : c.linkedRequest serde zeroCopy with
  | error e => simp [linkedValues, received, hread, Except.map, Except.bind]
  | ok parsed =>
    have hreceived : c.received serde zeroCopy = .ok (requestArgs parsed) := by
      rw [received, hread]
      rfl
    have hget (n : Nat) : (requestArgs parsed)[n]?.map Json.outline =
        (c.args[n]?.map Json.dump).map Json.outline := by
      have h := congrArg (fun l => l[n]?) (received_outline hreceived)
      simpa [List.getElem?_map, Function.comp_def] using h
    have hvalues : c.linkedValues serde zeroCopy = nativeDecode (requestArgs parsed) c.kinds 0 := by
      rw [linkedValues, hreceived]
      rfl
    rw [hvalues, nativeDecode_takes_iff]
    constructor
    · intro hall
      refine ⟨⟨parsed, rfl⟩, fun n k hk => ?_⟩
      rw [← linkedTakes_outline, ← hget, linkedTakes_outline]
      simpa using hall n k hk
    · rintro ⟨_, hall⟩ n k hk
      rw [Nat.zero_add, ← linkedTakes_outline, hget, linkedTakes_outline]
      exact hall n k hk

end TypedCall

end Rust

end CrossNative
