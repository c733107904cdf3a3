import CrossNative.Rust.Acceptance
import CrossNative.Rust.LinkedCall

/-!
# The two builds of one function

The WASM build receives its arguments in slots and linear memory, the linked build in a
request document. Their outcomes are one when both refuse the arguments, or when the body
makes the same of both readings and its value survives the way back.
-/

namespace CrossNative.Rust

set_option autoImplicit false

open Basis Proc

variable {σ : Type}

/-- Both report failure, or both report success with one result. -/
def SameOutcome (wasm : Except Fault Envelope) (linked : Option Envelope) : Prop :=
  (¬ Succeeded wasm ∧ ∀ result outputs, linked ≠ some (.success result outputs)) ∨
    ∃ result outputs outputs', wasm = .ok (.success result outputs) ∧
      linked = some (.success result outputs')

theorem sameOutcome_succeeded {result result' : Json} {outputs outputs' : List Json} :
    SameOutcome (.ok (.success result outputs)) (some (.success result' outputs')) ↔ result = result' := by
  constructor
  · rintro (⟨hfails, _⟩ | ⟨r, o, o', hwasm, hlinked⟩)
    · exact absurd ⟨_, _, rfl⟩ hfails
    · cases hwasm
      cases hlinked
      rfl
  · rintro rfl
    exact Or.inr ⟨_, _, _, rfl, rfl⟩

theorem sameOutcome_failed {wasm : Except Fault Envelope} {error : String} :
    SameOutcome wasm (some (.failure error)) ↔ ¬ Succeeded wasm := by
  constructor
  · rintro (⟨hfails, _⟩ | ⟨r, o, o', _, hlinked⟩)
    · exact hfails
    · cases hlinked
  · intro hfails
    refine Or.inl ⟨hfails, fun r o h => ?_⟩
    cases h

/-- A result slot that is read as signed shows the value as it is. -/
def RustValue.Readable : RustValue → Prop
  | .scalar (.elem .u32) v => v.toNat < 2 ^ 31
  | .scalar (.elem .u64) v => v.toNat < 2 ^ 63
  | _ => True

/-! ## Encoded values -/

theorem scalarToValue_elem {e : ElemKind} (v : Elem e) :
    scalarToValue (.elem e) v = (elemToJson v).dump := by
  cases e with
  | f64 =>
    simp only [scalarToValue, elemToJson, Json.dump]
    rfl
  | f32 =>
    let wide := convertFloat .binary32 .binary64 v.toNat
    have hmod : FloatFormat.binary64.IsFinite (BitVec.ofNat 64 wide).toNat ↔
        FloatFormat.binary64.IsFinite wide := by
      have hdvd : FloatFormat.binary64.signBit ∣ 2 ^ 64 := by decide
      rw [FloatFormat.IsFinite, FloatFormat.IsFinite, FloatFormat.magnitude, FloatFormat.magnitude,
        BitVec.toNat_ofNat, Nat.mod_mod_of_dvd _ hdvd]
    have hiff : FloatFormat.binary64.IsFinite (BitVec.ofNat 64 wide).toNat ↔
        FloatFormat.binary32.IsFinite v.toNat := hmod.trans (FloatFormat.isFinite_widen _)
    have hdump : (Json.float (BitVec.ofNat 64 wide)).dump =
        if FloatFormat.binary64.IsFinite (BitVec.ofNat 64 wide).toNat then
          .float (BitVec.ofNat 64 wide) else .null := by
      rw [Json.dump]
    simp only [hiff] at hdump
    exact hdump.symm
  | i8 | i16 | i32 | i64 | u8 | u16 | u32 | u64 => exact (Json.dump_int _).symm

theorem encode_items {e : ElemKind} (vs : List (Elem e)) :
    vs.map (scalarToValue (.elem e)) = Json.dumpItems (vs.map (elemToJson (k := e))) := by
  rw [Json.dumpItems_eq_map, List.map_map]
  apply List.map_congr_left
  intro v _
  exact scalarToValue_elem v

theorem encode_eq_shown {v : RustValue} {k : Kind} (hkind : v.HasKind k) {t : ValueType}
    (ht : k.valueType? = some t) : encode v = v.shown.dump := by
  cases v with
  | unit => rfl
  | text s => rfl
  | scalar s v =>
    cases Kind.known ht with
    | scalar e =>
      cases (show s = .elem e from hkind)
      exact scalarToValue_elem v
    | _ => exact hkind.elim
  | vec s vs =>
    cases Kind.known ht with
    | vector e owned =>
      cases (show s = .elem e from hkind)
      simp only [encode, RustValue.shown, Json.dump]
      exact congrArg Json.arr (encode_items vs)
    | _ => exact hkind.elim

/-- The slot shows another value's document exactly when the two values print alike and
the first is readable. -/
theorem slot_dump_eq_iff {e : ElemKind} (v w : Elem e) :
    (valToJson (Val.ofCells (Scalar.elem e).valKind (encodeScalar (.elem e) v))).dump =
        scalarToValue (.elem e) w ↔
      (RustValue.scalar (.elem e) v).Readable ∧
        scalarToValue (.elem e) v = scalarToValue (.elem e) w := by
  by_cases hint : e.isFloat = true
  · have hslot : valToJson (Val.ofCells (Scalar.elem e).valKind (encodeScalar (.elem e) v)) =
        elemToJson v := by
      cases e with
      | f64 => exact congrArg Json.float (BitVec.setWidth_eq (v : BitVec 64))
      | f32 =>
        have hsame (x : BitVec 32) : ((x.setWidth 32).setWidth 64).setWidth 32 = x := by simp
        exact congrArg (fun x : BitVec 32 => Json.float (BitVec.ofNat 64
          (convertFloat .binary32 .binary64 x.toNat))) (hsame v)
      | _ => cases hint
    have hreadable : (RustValue.scalar (.elem e) v).Readable := by
      cases e <;> trivial
    rw [hslot, scalarToValue_elem v, and_iff_right hreadable]
  · rw [Bool.not_eq_true] at hint
    rw [slot_toInt hint, scalarToValue_elem, scalarToValue_elem, elemToJson_int hint,
      elemToJson_int hint]
    simp only [Json.dump_int, Json.int.injEq]
    cases e with
    | f64 | f32 => cases hint
    | i8 | i16 | i32 | i64 => simp [ElemKind.isSigned, RustValue.Readable]
    | u8 | u16 => simp [ElemKind.isSigned, RustValue.Readable]
    | u32 => exact toInt_eq_toNat_iff (w := 32) (by omega) v w
    | u64 => exact toInt_eq_toNat_iff (w := 64) (by omega) v w

namespace TypedCall

variable (c : TypedCall σ) (serde : Serde) (zeroCopy : Bool)

/-! ## The WASM call -/

/-- The allocator has a block for the value the body returns. -/
def ReturnServed (values : List RustValue) (v : RustValue) : Prop :=
  ∀ bytes count, v.packed = some (bytes, count) →
    bytes = [] ∨ (cnAlloc c.module.heap bytes.length (c.returnStore values)).1 ≠ .ok 0

/-- Whatever the body returns finds a block. -/
def ReturnsServed : Prop :=
  ∀ values v, c.values = some values → c.fn.body values = some v → c.ReturnServed values v

theorem run_of_handle (honest : c.module.heap.Honest) (hhandle : c.sig.returns.IsHandle)
    {values : List RustValue} {v : RustValue} (hreached : c.Reached values v)
    (hserved : c.ReturnServed values v) : c.run.1 = .ok (.success (encode v) []) := by
  have hkind := c.fn.body_typed values v hreached.body
  obtain ⟨cell, st, hreturn⟩ := returnValue_returns honest v (c.returnStore values)
  obtain ⟨bytes, count, hpacked, hcases⟩ := c.returned_handle hhandle hreached hreturn
  rw [encode_eq_shown hkind c.returns_valueType]
  rcases hcases with ⟨rfl, rfl⟩ | ⟨hne, halloc, _⟩ | ⟨buffer, st', hblock, rfl, rfl⟩
  · rw [(c.run_of_empty hreached hhandle hreturn).1,
      (emptyShown_eq_iff hpacked hkind c.returns_valueType).mpr rfl]
  · rcases hserved bytes count hpacked with hnil | hgiven
    · exact absurd hnil hne
    · exact absurd (congrArg Prod.fst halloc) hgiven
  · exact (c.run_of_block hreached hhandle hpacked hblock hreturn).1

theorem run_of_void (hvoid : c.sig.returns = .void) {values : List RustValue} {v : RustValue}
    (hreached : c.Reached values v) {cell : BitVec 64} {st : Store σ}
    (hreturn : c.module.returnValue v (c.returnStore values) = (.ok cell, st)) :
    c.run.1 = .ok (.success .null []) := by
  have hnone : returnRange c.sig.returns (RustModule.shimResults c.fn.decl.returns cell) = none := by
    rw [hvoid]
    rfl
  have hread := readResult_of_none (s := c.sig) hnone c.env.platform c.module.guest
    (c.finishedHost st cell)
  rw [hvoid] at hread
  exact (c.run_of_read hreached hreturn hread (List.append_nil _).symm rfl rfl rfl).1

/-- The document of a WASM call whose body has returned `v`, against the encoding of any
value of the same type. -/
theorem run_of_body (honest : c.module.heap.Honest) {values : List RustValue} {v : RustValue}
    (hreached : c.Reached values v) (hserved : c.ReturnServed values v) :
    ∃ result, c.run.1 = .ok (.success result []) ∧ ∀ w : RustValue, w.HasKind c.fn.decl.returns →
      (result = encode w ↔ v.Readable ∧ encode v = encode w) := by
  have hkind := c.fn.body_typed values v hreached.body
  have htype := c.returns_valueType
  cases hreturns : c.fn.decl.returns with
  | unit =>
    rw [hreturns] at htype hkind
    cases v with
    | unit =>
      refine ⟨.null, c.run_of_void (Option.some.inj htype).symm hreached rfl, fun w hw => ?_⟩
      exact (and_iff_right trivial).symm
    | _ => exact hkind.elim
  | slice s owned =>
    rw [hreturns] at htype hkind
    refine ⟨encode v, c.run_of_handle honest ?_ hreached hserved, fun w hw => ?_⟩
    · generalize c.sig.returns = t at htype ⊢
      cases Kind.known htype
      trivial
    · cases v with
      | vec s vs => exact (and_iff_right trivial).symm
      | _ => exact hkind.elim
  | text owned =>
    rw [hreturns] at htype hkind
    refine ⟨encode v, c.run_of_handle honest ?_ hreached hserved, fun w hw => ?_⟩
    · rw [← Option.some.inj htype]
      trivial
    · cases v with
      | text s => exact (and_iff_right trivial).symm
      | _ => exact hkind.elim
  | scalar s =>
    rw [hreturns] at htype hkind
    cases s with
    | elem e =>
      cases v with
      | scalar s v =>
        cases (show s = .elem e from hkind)
        refine ⟨_, c.run_of_scalar hreturns hreached, fun w hw => ?_⟩
        cases w with
        | scalar s w =>
          cases (show s = .elem e from hw)
          exact slot_dump_eq_iff v w
        | _ => exact hw.elim
      | _ => exact hkind.elim
    | _ => cases htype

/-! ## One body -/

/-- Both builds refuse the arguments; or both take them, the body makes the same of both
readings, and a `u32` or `u64` it returns is in the lower half of its type. -/
def ConcursOnBody : Prop :=
  (¬ c.Bindable ∧ ∀ ws, c.linkedValues serde zeroCopy ≠ .ok ws) ∨
    ∃ values ws v w, c.Bindable ∧ c.values = some values ∧ c.linkedValues serde zeroCopy = .ok ws ∧
      c.fn.body values = some v ∧ c.fn.body ws = some w ∧ v.Readable ∧ encode v = encode w

theorem sameOutcome_iff_concursOnBody (honest : c.module.heap.Honest)
    (total : ∀ values, (c.fn.body values).isSome)
    (hserves : c.module.heap.Serves c.host.store (requests c.kinds c.args))
    (hreturns : c.ReturnsServed) :
    SameOutcome c.run.1 (c.linked serde zeroCopy) ↔ c.ConcursOnBody serde zeroCopy := by
  have hsucceeded := c.succeeded_iff honest (fun values _ => total values) hserves
  cases hlinked : c.linkedValues serde zeroCopy with
  | error e =>
    obtain ⟨error, hfailure⟩ := linked_of_error hlinked
    rw [hfailure, sameOutcome_failed, hsucceeded]
    constructor
    · intro hrefused
      exact Or.inl ⟨hrefused, by simp [hlinked]⟩
    · rintro (⟨hrefused, _⟩ | ⟨_, ws, _, _, _, _, hws, _⟩)
      · exact hrefused
      · rw [hlinked] at hws
        cases hws
  | ok ws =>
    obtain ⟨w, hw⟩ := Option.isSome_iff_exists.mp (total ws)
    rw [linked_of_ok hlinked hw]
    by_cases hbindable : c.Bindable
    · obtain ⟨values, hvalues⟩ := Option.isSome_iff_exists.mp hbindable.2.1
      obtain ⟨v, hv⟩ := Option.isSome_iff_exists.mp (total values)
      have hreached := c.reached_of_bindable honest hserves hbindable hvalues hv
      obtain ⟨result, hresult, hencode⟩ := c.run_of_body honest hreached (hreturns values v hvalues hv)
      rw [hresult, sameOutcome_succeeded, hencode w (c.fn.body_typed ws w hw)]
      constructor
      · intro hsame
        exact Or.inr ⟨values, ws, v, w, hbindable, hvalues, hlinked, hv, hw, hsame⟩
      · rintro (⟨hrefused, _⟩ | ⟨values', ws', v', w', _, hvalues', hws', hv', hw', hsame⟩)
        · exact absurd hbindable hrefused
        · -- both conversions and the body are functions
          cases hvalues.symm.trans hvalues'
          cases hlinked.symm.trans hws'
          cases hv.symm.trans hv'
          cases hw.symm.trans hw'
          exact hsame
    · constructor
      · rintro (⟨_, hnone⟩ | ⟨result, outputs, _, hwasm, _⟩)
        · exact absurd rfl (hnone _ _)
        · exact absurd (hsucceeded.mp ⟨result, outputs, hwasm⟩) hbindable
      · rintro (⟨_, hnone⟩ | ⟨_, _, _, _, hbound, _⟩)
        · exact absurd hlinked (hnone ws)
        · exact absurd hbound hbindable

end TypedCall

namespace TypedCall

variable (c : TypedCall σ)

/-! ## Every body at once -/

/-- The same call of a module in which the function has another body. -/
def withBody (body : List RustValue → Option RustValue)
    (typed : ∀ values v, body values = some v → v.HasKind c.fn.decl.returns) : TypedCall σ :=
  let fn : RustFn := ⟨c.fn.decl, body, typed⟩
  let replace (f : RustFn) : RustFn := if f.decl.name.text = c.fn.decl.name.text then fn else f
  have hname (f : RustFn) : (replace f).decl.name.text = f.decl.name.text := by
    by_cases h : f.decl.name.text = c.fn.decl.name.text
    · rw [show replace f = fn from if_pos h, h]
    · rw [show replace f = f from if_neg h]
  have hnames : exportNames (c.module.functions.map replace) = exportNames c.module.functions := by
    simp only [exportNames, List.flatMap_map, FnDecl.metaExport, hname]
  have hexported : fn ∈ c.module.functions.map replace :=
    List.mem_map.mpr ⟨c.fn, c.exported, if_pos rfl⟩
  { c with
    module :=
      { c.module with
        functions := c.module.functions.map replace
        distinct := by
          rw [hnames]
          exact c.module.distinct }
    fn := fn
    exported := hexported }

end TypedCall

/-- Two values that differ; for the first the allocator is not needed. -/
theorem exists_two_values {k : Kind} {t : ValueType} (ht : k.valueType? = some t) (hunit : k ≠ .unit) :
    ∃ v w : RustValue, v.HasKind k ∧ w.HasKind k ∧ encode v ≠ encode w ∧
      ∀ bytes count, v.packed = some (bytes, count) → bytes = [] := by
  cases Kind.known ht with
  | void => exact absurd rfl hunit
  | text owned =>
    refine ⟨.text "", .text "a", trivial, trivial, by simp [encode], ?_⟩
    rintro bytes count ⟨⟩
    rfl
  | vector e owned =>
    refine ⟨.vec (.elem e) [], .vec (.elem e) [0], rfl, rfl, by simp [encode], ?_⟩
    rintro bytes count ⟨⟩
    rfl
  | scalar e =>
    refine ⟨.scalar (.elem e) 0, .scalar (.elem e) 1, rfl, rfl, ?_, fun bytes count h => by cases h⟩
    cases e with
    | f64 => exact fun h => absurd (show (0 : BitVec 64) = 1 from Json.float.inj h) (by decide)
    | f32 => exact fun h => absurd (Json.float.inj h) (by decide)
    | _ => exact fun h => Int.zero_ne_one (Json.int.inj h)

theorem RustValue.readable_of_hasKind {v : RustValue} {k : Kind} (hkind : v.HasKind k)
    (h32 : k ≠ .scalar (.elem .u32)) (h64 : k ≠ .scalar (.elem .u64)) : v.Readable := by
  cases v with
  | scalar s v =>
    cases k <;> simp only [RustValue.HasKind] at hkind
    subst hkind
    cases s with
    | elem e =>
      cases e with
      | u32 => exact absurd rfl h32
      | u64 => exact absurd rfl h64
      | _ => trivial
    | _ => trivial
  | _ => trivial

namespace TypedCall

variable (c : TypedCall σ) (serde : Serde) (zeroCopy : Bool)

/-- For every total body whose result finds a block, the builds concur. -/
def ConcursOnEveryBody : Prop :=
  ∀ body typed, (∀ values, (body values).isSome) → (c.withBody body typed).ReturnsServed →
    (c.withBody body typed).ConcursOnBody serde zeroCopy

section EveryBody

variable {c serde zeroCopy} (hall : c.ConcursOnEveryBody serde zeroCopy)
  (hrefused : ¬ (¬ c.Bindable ∧ ∀ ws, c.linkedValues serde zeroCopy ≠ .ok ws))
include hall hrefused

/-- A body that always returns `v` shows that `v` is read back. -/
theorem readable_of_every_body {v : RustValue} (hv : v.HasKind c.fn.decl.returns)
    (hserved : ∀ bytes count, v.packed = some (bytes, count) → bytes = []) :
    ∃ values ws, c.Bindable ∧ c.values = some values ∧ c.linkedValues serde zeroCopy = .ok ws ∧
      v.Readable := by
  have htyped : ∀ (_ : List RustValue) (v' : RustValue), some v = some v' →
      v'.HasKind c.fn.decl.returns := by
    rintro _ _ ⟨⟩
    exact hv
  have hreturns : (c.withBody (fun _ => some v) htyped).ReturnsServed := by
    rintro values v' _ ⟨⟩ bytes count hpacked
    exact Or.inl (hserved bytes count hpacked)
  obtain ⟨values, ws, v', w, hbind, hvalues, hws, hv', _, hread, _⟩ :=
    (hall (fun _ => some v) htyped (fun _ => rfl) hreturns).resolve_left hrefused
  cases hv'
  exact ⟨values, ws, hbind, hvalues, hws, hread⟩

theorem narrow_of_every_body : c.fn.decl.returns ≠ .scalar (.elem .u32) ∧
    c.fn.decl.returns ≠ .scalar (.elem .u64) := by
  constructor
  · intro h
    obtain ⟨_, _, _, _, _, hread⟩ := readable_of_every_body hall hrefused
      (v := .scalar (.elem .u32) (BitVec.allOnes 32)) (by rw [h]; rfl) (fun _ _ h => by cases h)
    exact absurd (show (BitVec.allOnes 32).toNat < 2 ^ 31 from hread) (by decide)
  · intro h
    obtain ⟨_, _, _, _, _, hread⟩ := readable_of_every_body hall hrefused
      (v := .scalar (.elem .u64) (BitVec.allOnes 64)) (by rw [h]; rfl) (fun _ _ h => by cases h)
    exact absurd (show (BitVec.allOnes 64).toNat < 2 ^ 63 from hread) (by decide)

/-- A body that tells the two readings of the arguments apart shows that they are one. -/
theorem same_values_of_every_body (hunit : c.fn.decl.returns ≠ .unit) {values ws : List RustValue}
    (hvalues : c.values = some values) (hws : c.linkedValues serde zeroCopy = .ok ws) : values = ws := by
  obtain ⟨v₀, w₀, hv₀, hw₀, hdiffer, hserved⟩ := exists_two_values c.returns_valueType hunit
  by_contra hne
  have htyped : ∀ xs v, (if xs = values then some v₀ else some w₀) = some v →
      v.HasKind c.fn.decl.returns := by
    intro xs v h
    split at h <;> cases h
    · exact hv₀
    · exact hw₀
  have hreturns : (c.withBody (fun xs => if xs = values then some v₀ else some w₀) htyped).ReturnsServed := by
    intro values' v hvalues' hv bytes count hpacked
    cases hvalues.symm.trans hvalues'
    simp only [withBody, if_true, Option.some.injEq] at hv
    subst hv
    exact Or.inl (hserved bytes count hpacked)
  obtain ⟨values', ws', v, w, _, hvalues', hws', hv, hw, _, hsame⟩ :=
    (hall (fun xs => if xs = values then some v₀ else some w₀) htyped
      (fun xs => by split <;> rfl) hreturns).resolve_left hrefused
  cases hvalues.symm.trans hvalues'
  cases hws.symm.trans hws'
  simp only [withBody, if_true, if_neg (Ne.symm hne), Option.some.injEq] at hv hw
  subst hv hw
  exact hdiffer hsame

end EveryBody

/-- The builds concur on a call whatever the body does when both refuse the arguments, or
when both read the same values, or the function returns nothing, and no `u32` or `u64`
is returned. -/
theorem concursOnEveryBody_iff : c.ConcursOnEveryBody serde zeroCopy ↔
    (¬ c.Bindable ∧ ∀ ws, c.linkedValues serde zeroCopy ≠ .ok ws) ∨
      ∃ values ws, c.Bindable ∧ c.values = some values ∧ c.linkedValues serde zeroCopy = .ok ws ∧
        (c.fn.decl.returns = .unit ∨ values = ws) ∧
        c.fn.decl.returns ≠ .scalar (.elem .u32) ∧ c.fn.decl.returns ≠ .scalar (.elem .u64) := by
  constructor
  · intro hall
    by_cases hrefused : ¬ c.Bindable ∧ ∀ ws, c.linkedValues serde zeroCopy ≠ .ok ws
    · exact Or.inl hrefused
    have hnarrow := narrow_of_every_body hall hrefused
    refine Or.inr ?_
    by_cases hunit : c.fn.decl.returns = .unit
    · obtain ⟨values, ws, hbind, hvalues, hws, _⟩ := readable_of_every_body hall hrefused
        (v := .unit) (by rw [hunit]; trivial) (fun _ _ h => by cases h)
      exact ⟨values, ws, hbind, hvalues, hws, Or.inl hunit, hnarrow⟩
    · obtain ⟨v₀, _, hv₀, _, _, hserved⟩ := exists_two_values c.returns_valueType hunit
      obtain ⟨values, ws, hbind, hvalues, hws, _⟩ := readable_of_every_body hall hrefused hv₀ hserved
      exact ⟨values, ws, hbind, hvalues, hws,
        Or.inr (same_values_of_every_body hall hrefused hunit hvalues hws), hnarrow⟩
  · rintro (hrefused | ⟨values, ws, hbind, hvalues, hws, hsame, h32, h64⟩) body typed total _
    · exact Or.inl hrefused
    · obtain ⟨v, hv⟩ := Option.isSome_iff_exists.mp (total values)
      obtain ⟨w, hw⟩ := Option.isSome_iff_exists.mp (total ws)
      have hread : v.Readable := RustValue.readable_of_hasKind (typed values v hv) h32 h64
      refine Or.inr ⟨values, ws, v, w, hbind, hvalues, hws, hv, hw, hread, ?_⟩
      rcases hsame with hunit | rfl
      · have hvu := typed values v hv
        have hwu := typed ws w hw
        rw [hunit] at hvu hwu
        cases v <;> cases w <;> first | rfl | exact hvu.elim | exact hwu.elim
      · cases hv.symm.trans hw
        rfl

end TypedCall

/-! ## The condition -/

/-- The binder takes the argument of a parameter. -/
def HostTakes : Kind → Json → Prop
  | .scalar (.elem _), j => j.isNumber = true
  | .slice (.elem e) _, .arr items => items ≠ [] ∧ ∀ j ∈ items, Convertible e j = true
  | .text _, .str text => text ≠ ""
  | _, _ => False

theorem hostElems_isSome_iff {P : Platform} {e : ElemKind} {items : List Json} :
    (hostElems P e items).isSome ↔ ∀ j ∈ items, Convertible e j = true := by
  induction items with
  | nil => simp [hostElems]
  | cons j items ih =>
    rw [List.forall_mem_cons, ← ih, ← getElem_ok_iff P]
    cases hj : getElem P e j <;> cases hitems : hostElems P e items <;> simp [hostElems, hj, hitems]

theorem hostTakes_iff {P : Platform} {T : Toolchain} {k : Kind} {j : Json} :
    (hostValue P T k j).isSome ∧ emptyRange j = false ↔ HostTakes k j := by
  cases k with
  | unit => simp [hostValue, HostTakes]
  | scalar s =>
    cases s with
    | elem e =>
      constructor
      · rintro ⟨hsome, _⟩
        by_contra hnumber
        have hval : jsonToVal P j (Scalar.elem e).valKind = .error (.error "must be a number") :=
          if_neg hnumber
        simp only [hostValue, hval] at hsome
        cases hsome
      · intro hnumber
        obtain ⟨v, hv⟩ := jsonToVal_of_number P e hnumber
        refine ⟨by simp only [hostValue, hv, Option.isSome_some], ?_⟩
        cases j <;> first | rfl | cases hnumber
    | _ => simp [hostValue, HostTakes]
  | slice s owned =>
    cases s with
    | elem e =>
      cases j with
      | arr items =>
        have hmap : ((hostElems P e items).map (RustValue.vec (.elem e))).isSome =
            (hostElems P e items).isSome := Option.isSome_map
        simp only [hostValue, hmap, hostElems_isSome_iff, emptyRange, HostTakes, List.isEmpty_eq_false_iff]
        exact and_comm
      | _ => simp [hostValue, HostTakes]
    | _ => simp [hostValue, HostTakes]
  | text owned => cases j <;> simp [hostValue, HostTakes, emptyRange]

theorem hostValues_takes_iff {P : Platform} {T : Toolchain} {kinds : List Kind} {args : List Json} :
    (hostValues P T kinds args).isSome ∧ (∀ j ∈ args, emptyRange j = false) ↔
      List.Forall₂ HostTakes kinds args := by
  induction kinds generalizing args with
  | nil => cases args <;> simp [hostValues]
  | cons k kinds ih =>
    cases args with
    | nil => simp [hostValues]
    | cons j args =>
      rw [List.forall₂_cons, ← hostTakes_iff (P := P) (T := T), ← ih, List.forall_mem_cons]
      cases hj : hostValue P T k j <;> cases hargs : hostValues P T kinds args <;>
        simp [hostValues, hj, hargs]

/-- The conversions of the host and of the module make the same of every argument; `read` is
what serde_json has read of it. -/
def Coincide (P : Platform) (T : Toolchain) (kinds : List Kind) (sent read : List Json) : Prop :=
  ∀ (n : Nat) (k : Kind) (j j' : Json), kinds[n]? = some k → sent[n]? = some j → read[n]? = some j' →
    hostValue P T k j = linkedValue k j'

theorem values_eq_iff {P : Platform} {T : Toolchain} {kinds : List Kind} {sent read : List Json}
    {i : Nat} {values ws : List RustValue} (hvalues : hostValues P T kinds sent = some values)
    (hws : nativeDecode read kinds i = .ok ws) :
    values = ws ↔ Coincide P T kinds sent (read.drop i) := by
  induction kinds generalizing sent i values ws with
  | nil =>
    cases sent with
    | nil =>
      cases hvalues
      cases hws
      exact iff_of_true rfl fun n k j j' hk => by cases hk
    | cons j sent => cases hvalues
  | cons k kinds ih =>
    cases sent with
    | nil => cases hvalues
    | cons j sent =>
      simp only [hostValues] at hvalues
      split at hvalues
      · rename_i v values' hv hvalues'
        cases hvalues
        obtain ⟨vs, ws', hvs, hws', rfl⟩ := nativeDecode_cons_iff.mp hws
        rcases argValues_ok_iff.mp hvs with ⟨rfl, _⟩ | ⟨j', w, hget, hw, rfl⟩
        · cases hv
        have hhead : (read.drop i)[0]? = some j' := by rw [List.getElem?_drop, Nat.add_zero, hget]
        rw [List.singleton_append, List.cons.injEq, ih hvalues' hws']
        constructor
        · rintro ⟨rfl, hrest⟩ n k' j₁ j₂ hk hj₁ hj₂
          cases n with
          | zero =>
            cases hk
            cases hj₁
            cases hhead.symm.trans hj₂
            rw [hv, hw]
          | succ n =>
            refine hrest n k' j₁ j₂ hk hj₁ ?_
            rw [List.getElem?_drop] at hj₂ ⊢
            rw [← hj₂, show i + 1 + n = i + (n + 1) by omega]
        · intro hall
          constructor
          · have hsame := hall 0 k j j' rfl rfl hhead
            rw [hv, hw] at hsame
            exact Option.some.inj hsame
          · intro n k' j₁ j₂ hk hj₁ hj₂
            refine hall (n + 1) k' j₁ j₂ hk hj₁ ?_
            rw [List.getElem?_drop] at hj₂ ⊢
            rw [← hj₂, show i + (n + 1) = i + 1 + n by omega]
      · cases hvalues

namespace TypedCall

variable (c : TypedCall σ) (serde : Serde) (zeroCopy : Bool)

/-- There is a parameter, an argument for each, and the binder takes them all. -/
def HostAccepts : Prop := c.kinds ≠ [] ∧ List.Forall₂ HostTakes c.kinds c.args

theorem bindable_iff : c.Bindable ↔ c.HostAccepts :=
  and_congr_right fun _ => hostValues_takes_iff

/-- Both builds refuse the arguments; or both take them, no `u32` or `u64` is returned, and
the arguments mean the same to both, unless nothing is returned. -/
def Concurs : Prop :=
  (¬ c.HostAccepts ∧ ¬ c.LinkedAccepts serde zeroCopy) ∨
    (c.HostAccepts ∧ c.LinkedAccepts serde zeroCopy ∧
      c.fn.decl.returns ≠ .scalar (.elem .u32) ∧ c.fn.decl.returns ≠ .scalar (.elem .u64) ∧
      (c.fn.decl.returns = .unit ∨ ∀ read, c.received serde zeroCopy = .ok read →
        Coincide c.env.platform c.module.toolchain c.kinds c.args read))

theorem concursOnEveryBody_iff_concurs :
    c.ConcursOnEveryBody serde zeroCopy ↔ c.Concurs serde zeroCopy := by
  have hlinked := c.linkedAccepts_iff serde zeroCopy
  have hsame : ∀ values ws, c.values = some values → c.linkedValues serde zeroCopy = .ok ws →
      (values = ws ↔ ∀ read, c.received serde zeroCopy = .ok read →
        Coincide c.env.platform c.module.toolchain c.kinds c.args read) := by
    intro values ws hvalues hws
    unfold linkedValues at hws
    cases hread : c.received serde zeroCopy with
    | error e =>
      rw [hread] at hws
      cases hws
    | ok read =>
      rw [hread] at hws
      have hiff := values_eq_iff hvalues (show nativeDecode read c.kinds 0 = .ok ws from hws)
      rw [List.drop_zero] at hiff
      simp [hiff]
  rw [concursOnEveryBody_iff, bindable_iff, Concurs, ← hlinked]
  refine or_congr (and_congr_right fun _ => not_exists.symm) ?_
  constructor
  · rintro ⟨values, ws, hhost, hvalues, hws, heq, h32, h64⟩
    exact ⟨hhost, ⟨ws, hws⟩, h32, h64, heq.imp_right (hsame values ws hvalues hws).mp⟩
  · rintro ⟨hhost, ⟨ws, hws⟩, h32, h64, heq⟩
    obtain ⟨values, hvalues⟩ := Option.isSome_iff_exists.mp (c.bindable_iff.mpr hhost).2.1
    exact ⟨values, ws, hhost, hvalues, hws, heq.imp_right (hsame values ws hvalues hws).mpr, h32, h64⟩

/-- The two builds of a declaration have one outcome on the arguments, whatever the body, exactly
when they concur. -/
theorem same_outcome_iff (honest : c.module.heap.Honest)
    (hserves : c.module.heap.Serves c.host.store (requests c.kinds c.args)) :
    (∀ body typed, (∀ values, (body values).isSome) → (c.withBody body typed).ReturnsServed →
        SameOutcome (c.withBody body typed).run.1 ((c.withBody body typed).linked serde zeroCopy)) ↔
      c.Concurs serde zeroCopy := by
  rw [← concursOnEveryBody_iff_concurs]
  refine forall_congr' fun body => forall_congr' fun typed => forall_congr' fun total =>
    forall_congr' fun hreturns => ?_
  exact sameOutcome_iff_concursOnBody (c.withBody body typed) serde zeroCopy honest total hserves hreturns

end TypedCall

section Sample

def joinSample : TypedCall Arena := joinCall 64 sampleMemory_le

/-- serde_json reads the text `31.245270191439438` as the double next to the one it is printed for. -/
def sampleDouble : BitVec 64 := 0x403F3ECA06FAEA82

def sampleNeighbour : BitVec 64 := sampleDouble + 1

def sampleSerde : Serde := .reading fun x => if x = sampleDouble then sampleNeighbour else x

theorem TypedCall.same_outcome_iff_join :
    (∀ body typed, (∀ values, (body values).isSome) → (joinSample.withBody body typed).ReturnsServed →
        SameOutcome (joinSample.withBody body typed).run.1
          ((joinSample.withBody body typed).linked sampleSerde false)) ↔
      joinSample.Concurs sampleSerde false :=
  joinSample.same_outcome_iff sampleSerde false arenaHonest joinCall_serves

/-- The sample's arguments in the linked build: `-1` as a `u16` is zero. -/
def joinLinked : List RustValue :=
  [.vec (.elem .u16) [258#16, 0#16], .text "né", .scalar (.elem .i8) (-3#8)]

theorem joinSample_linkedValues : joinSample.linkedValues sampleSerde false = .ok joinLinked := by
  decide +kernel

theorem joinSample_values : joinSample.values = some joinValues :=
  (joinSample.bindable_of_reached arenaHonest joinCall_reached).2

theorem joinSample_returnServed (values : List RustValue) (v : RustValue)
    (hvalues : joinSample.values = some values) (hv : joinSample.fn.body values = some v) :
    joinSample.ReturnServed values v := by
  rw [joinSample_values] at hvalues
  cases hvalues
  cases hv
  rintro bytes count ⟨⟩
  exact Or.inr (by decide +kernel)

/-- `fn echo(number: f64) -> f64` that returns its argument. -/
def echoFn : RustFn where
  decl := ⟨⟨"echo", by decide⟩, [⟨⟨"number", by decide⟩, .scalar (.elem .f64)⟩], .scalar (.elem .f64)⟩
  body values :=
    match values with
    | [.scalar (.elem .f64) x] => some (.scalar (.elem .f64) x)
    | _ => some (.scalar (.elem .f64) 0#64)
  body_typed values v h := by
    split at h <;> cases h <;> rfl

def echoSample : TypedCall Arena where
  env := default
  module := arenaModule echoFn (by decide)
  fn := echoFn
  exported := List.mem_cons_self
  sig := ⟨[⟨"number", .scalar .f64⟩], .scalar .f64⟩
  parsed := rfl
  entry := ⟨[], [("echo", ⟨[⟨"number", .scalar .f64⟩], .scalar .f64⟩)], []⟩
  listed := rfl
  moduleId := "sample"
  args := [.float sampleDouble]
  host := Host.start (arenaStore 64 sampleMemory_le)

end Sample

theorem echoSample_differs : ¬ SameOutcome echoSample.run.1 (echoSample.linked sampleSerde false) := by
  have hvalues : echoSample.values = some [.scalar (.elem .f64) sampleDouble] := by decide +kernel
  have hws : echoSample.linkedValues sampleSerde false =
      .ok [.scalar (.elem .f64) sampleNeighbour] := by decide +kernel
  have total (values : List RustValue) : (echoSample.fn.body values).isSome := by
    change (echoFn.body values).isSome
    unfold echoFn
    dsimp only
    split <;> rfl
  have hreturns : echoSample.ReturnsServed := by
    intro values v hvalues' hv bytes count hpacked
    cases hvalues.symm.trans hvalues'
    cases hv
    cases hpacked
  rw [echoSample.sameOutcome_iff_concursOnBody sampleSerde false arenaHonest total trivial hreturns]
  rintro (⟨_, hnone⟩ | ⟨values, ws, v, w, _, hvalues', hws', hv, hw, _, hsame⟩)
  · exact hnone _ hws
  · cases hvalues.symm.trans hvalues'
    cases hws.symm.trans hws'
    cases hv
    cases hw
    exact absurd (congrArg asF64 hsame) (by decide +kernel)

/-- The builds answer differently: the host wraps a number that an element type cannot
hold, the linked build takes the nearest one that it can; and the body of the linked build
is given another double. -/
theorem TypedCall.outcomes_differ : (¬ ∀ (c : TypedCall Arena) (_ : c.module.heap.Honest),
    (∀ values, (c.fn.body values).isSome) →
    c.module.heap.Serves c.host.store (requests c.kinds c.args) → c.ReturnsServed →
    SameOutcome c.run.1 (c.linked sampleSerde false)) ∧
      ¬ SameOutcome echoSample.run.1 (echoSample.linked sampleSerde false) := by
  refine ⟨fun hall => ?_, echoSample_differs⟩
  have hsame := hall joinSample arenaHonest (fun _ => rfl) joinCall_serves joinSample_returnServed
  obtain ⟨result, hresult, hencode⟩ :=
    joinSample.run_of_body arenaHonest joinCall_reached (joinSample_returnServed _ _ joinSample_values rfl)
  have hlinked := TypedCall.linked_of_ok joinSample_linkedValues
    (w := .vec (.elem .u16) [258#16, 0#16]) rfl
  have hkind : (RustValue.vec (.elem .u16) [258#16, 0#16]).HasKind joinSample.fn.decl.returns := rfl
  rw [hresult, hlinked, sameOutcome_succeeded, hencode _ hkind] at hsame
  obtain ⟨_, hitems⟩ := hsame
  have hlast := congrArg List.getLast? (Json.arr.inj hitems)
  exact absurd (Json.int.inj (Option.some.inj hlast)) (by decide)

end CrossNative.Rust
