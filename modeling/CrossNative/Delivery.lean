import CrossNative.Allocator
import CrossNative.Rust.Arena

/-!
# Typed arguments arrive intact

What the host writes for a typed argument is what the prologue of the shim reads. Blocks
of earlier arguments survive later ones because the allocator keeps them apart, and the
slot cursor of the host follows the parameter list of the shim.
-/

namespace CrossNative

set_option autoImplicit false

open Basis Proc Rust

variable {σ : Type}

/-! ## Elements and scalars -/

/-- An array element as the callee sees it: the conversion of the document, and for an
integer literal its residue. -/
def ElemIntact (P : Platform) (e : ElemKind) (j : Json) (v : Elem e) : Prop :=
  getElem P e j = .ok v ∧ (e.isFloat = false → ∀ n, j = .int n → v = BitVec.ofInt e.bits n)

/-- A scalar as the callee sees it: floats are converted, integers in range arrive. -/
def ScalarIntact (P : Platform) (e : ElemKind) (j : Json) (v : Elem e) : Prop :=
  (e.isFloat = true → getElem P e j = .ok v) ∧
    (e.isFloat = false → ∀ n, j = .int n → e.InRange n → v = BitVec.ofInt e.bits n)

theorem elemIntact_of_getElem {P : Platform} {e : ElemKind} {j : Json} {v : Elem e}
    (h : getElem P e j = .ok v) : ElemIntact P e j v := by
  refine ⟨h, fun hint n hj => ?_⟩
  rw [hj, getElem_int P hint] at h
  exact (Except.ok.inj h).symm

theorem signExtend_ofInt {w : Nat} {n : Int} (hw : 0 < w) (h₁ : -2 ^ (w - 1) ≤ n)
    (h₂ : n < 2 ^ (w - 1)) (v : Nat) : (BitVec.ofInt w n).signExtend v = BitVec.ofInt v n := by
  rw [BitVec.signExtend, BitVec.toInt_ofInt_eq_self hw h₁ h₂]

theorem setWidth_ofInt {w : Nat} {n : Int} (h₁ : 0 ≤ n) (h₂ : n < 2 ^ w) (v : Nat) :
    (BitVec.ofInt w n).setWidth v = BitVec.ofInt v n := by
  apply BitVec.eq_of_toNat_eq
  rw [BitVec.toNat_setWidth, BitVec.toNat_ofInt, BitVec.toNat_ofInt,
    Int.emod_eq_of_lt h₁ (by exact_mod_cast h₂)]
  obtain ⟨m, rfl⟩ := Int.eq_ofNat_of_zero_le h₁
  rw [Int.toNat_natCast, ← Int.natCast_mod, Int.toNat_natCast]

theorem ofInt_extended {e : ElemKind} {n : Int} (h : e.InRange n) :
    (if e.isSigned then (BitVec.ofInt e.bits n).signExtend 32 else (BitVec.ofInt e.bits n).setWidth 32) =
      BitVec.ofInt 32 n := by
  unfold ElemKind.InRange at h
  split at h
  · rename_i hsigned
    rw [if_pos hsigned]
    exact signExtend_ofInt (Nat.mul_pos (by decide) e.size_pos) h.1 h.2 32
  · rename_i hunsigned
    rw [if_neg hunsigned]
    exact setWidth_ofInt h.1 h.2 32

theorem narrow_delivered (T : Toolchain) {e : ElemKind} {n : Int} (hsmall : e.size < 4)
    (h : e.InRange n) : T.narrow e (BitVec.ofInt 32 n) = BitVec.ofInt e.bits n := by
  rw [← ofInt_extended h, T.narrow_extended e _ hsmall]

theorem scalar_delivered {P : Platform} (T : Toolchain) {e : ElemKind} {j : Json} {v : Val}
    (h : jsonToVal P j (Scalar.elem e).valKind = .ok v) :
    ScalarIntact P e j (decodeScalar T (.elem e) v) := by
  have hnumber : j.isNumber = true := by
    by_contra hne
    simp [jsonToVal, hne] at h
  simp only [jsonToVal, hnumber, if_true] at h
  have hint (x : BitVec 32) (hx : getElem P .i32 j = .ok x) (n : Int) (hj : j = .int n) :
      x = BitVec.ofInt 32 n := by
    rw [hj, getElem_int P rfl] at hx
    exact (Except.ok.inj hx).symm
  have hlong (x : BitVec 64) (hx : getElem P .i64 j = .ok x) (n : Int) (hj : j = .int n) :
      x = BitVec.ofInt 64 n := by
    rw [hj, getElem_int P rfl] at hx
    exact (Except.ok.inj hx).symm
  cases e with
  | f64 =>
    obtain ⟨x, hx, rfl⟩ := map_ok_iff.mp h
    exact ⟨fun _ => hx, fun hf => by cases hf⟩
  | f32 =>
    obtain ⟨x, hx, rfl⟩ := map_ok_iff.mp h
    have hslot : (Val.f32 x).ofI32 = x := by simp [Val.ofI32, Val.ofI64]
    exact ⟨fun _ => hx.trans (congrArg Except.ok hslot.symm), fun hf => by cases hf⟩
  | i64 | u64 =>
    obtain ⟨x, hx, rfl⟩ := map_ok_iff.mp h
    exact ⟨fun hf => (by cases hf), fun _ n hj _ => hlong x hx n hj⟩
  | i32 | u32 =>
    obtain ⟨x, hx, rfl⟩ := map_ok_iff.mp h
    refine ⟨fun hf => (by cases hf), fun _ n hj _ => ?_⟩
    rw [decodeScalar, Val.ofI32_i32]
    exact hint x hx n hj
  | i8 | u8 | i16 | u16 =>
    obtain ⟨x, hx, rfl⟩ := map_ok_iff.mp h
    refine ⟨fun hf => (by cases hf), fun _ n hj hrange => ?_⟩
    rw [decodeScalar, Val.ofI32_i32, hint x hx n hj]
    exact narrow_delivered T (by decide) hrange

/-! ## Ranges -/

/-- A pointer and a count under which the callee finds the copied bytes. -/
structure Delivered (live : Store σ → List Block) (st : Store σ) (data : List UInt8) (ptr : Nat) :
    Prop where
  pos : 0 < ptr
  lt : ptr < 2 ^ 32
  alive : ⟨ptr, data.length⟩ ∈ live st
  inside : ptr + data.length ≤ st.mem.size
  bytes : st.mem.read ptr data.length = data

theorem Delivered.keeps {live : Store σ → List Block} {st st' : Store σ} {data : List UInt8}
    {ptr : Nat} (h : Delivered live st data ptr) (hkeeps : Keeps live st st') :
    Delivered live st' data ptr where
  pos := h.pos
  lt := h.lt
  alive := hkeeps.alive _ h.alive
  inside := Nat.le_trans h.inside hkeeps.size
  bytes := by
    have := hkeeps.bytes _ h.alive
    simp only at this
    rw [this, h.bytes]

theorem Delivered.sliceFrom {live : Store σ → List Block} {st : Store σ} {records : List (List UInt8)}
    {ptr size : Nat} (h : Delivered live st records.flatten ptr) (hpos : 0 < size)
    (hsize : ∀ r ∈ records, r.length = size) :
    Rust.sliceFrom st.mem (BitVec.ofNat 32 ptr) (BitVec.ofNat 32 records.length) size =
      some records := by
  have hlength : records.flatten.length = records.length * size := by
    rw [List.length_flatten, List.map_congr_left hsize]
    simp
  have hinside := h.inside
  have hcap := st.mem.size_le
  have hptr := h.pos
  have hcount : records.length < 2 ^ 32 := by
    have := Nat.le_mul_of_pos_right records.length hpos
    omega
  have hp : (BitVec.ofNat 32 ptr).toNat = ptr := by
    rw [BitVec.toNat_ofNat, Nat.mod_eq_of_lt h.lt]
  have hc : (BitVec.ofNat 32 records.length).toNat = records.length := by
    rw [BitVec.toNat_ofNat, Nat.mod_eq_of_lt hcount]
  unfold Rust.sliceFrom
  by_cases hempty : records = []
  · simp [hempty]
  · have hne : ¬ (BitVec.ofNat 32 ptr = 0 ∨ BitVec.ofNat 32 records.length = 0) := by
      rintro (hz | hz)
      · rw [hz] at hp
        simp at hp
        omega
      · rw [hz] at hc
        have := List.length_pos_iff.mpr hempty
        simp at hc
        omega
    rw [if_neg hne, hp, hc, if_pos (by omega)]
    rw [Memory.chunks_of_read_flatten hsize (by rw [← hlength]; exact h.bytes)]

theorem Delivered.text {live : Store σ → List Block} {st : Store σ} {data : List UInt8} {ptr : Nat}
    (h : Delivered live st data ptr) :
    ∃ records, Rust.sliceFrom st.mem (BitVec.ofNat 32 ptr) (BitVec.ofNat 32 data.length) 1 =
      some records ∧ records.flatten = data := by
  have hflatten : (data.map fun b => [b]).flatten = data := by
    rw [← List.flatMap_def, List.flatMap_singleton']
  have hdelivered : Delivered live st (data.map fun b => [b]).flatten ptr := by
    rw [hflatten]
    exact h
  have hslice := hdelivered.sliceFrom Nat.one_pos (by simp)
  rw [List.length_map] at hslice
  exact ⟨_, hslice, hflatten⟩

theorem writeElems_ok {P : Platform} {k : ElemKind} {items : List Json} {records : List (List UInt8)}
    (h : writeElems P k items = .ok records) :
    List.Forall₂ (fun j r => ∃ v, getElem P k j = .ok v ∧ r = encodeElem v) items records := by
  induction items generalizing records with
  | nil =>
    cases h
    exact .nil
  | cons j rest ih =>
    simp only [writeElems] at h
    cases hhead : writeElem P k j with
    | error fault => simp [hhead] at h
    | ok bs =>
      cases htail : writeElems P k rest with
      | error fault => simp [hhead, htail] at h
      | ok tail =>
        simp only [hhead, htail, Except.ok.injEq] at h
        subst h
        obtain ⟨v, hv, rfl⟩ := writeElem_ok_iff.mp hhead
        exact .cons ⟨v, hv, rfl⟩ (ih htail)

theorem bindBytes_delivered {g : Guest σ} (honest : HonestAlloc g) {data : List UInt8} {count : Nat}
    {h h' : Host σ} {slots : Val × Val}
    (hrun : ArgumentBinder.bindBytes g data count h = (.ok slots, h')) :
    ∃ ptr, slots = (.i32 (BitVec.ofNat 32 ptr), .i32 (BitVec.ofNat 32 count)) ∧
      Delivered honest.live h'.store data ptr ∧ Keeps honest.live h.store h'.store ∧
      h'.vals = h.vals := by
  unfold ArgumentBinder.bindBytes at hrun
  split at hrun
  · cases hrun
  · rename_i hsmall
    obtain ⟨ptr, h₁, hplace, hslots⟩ := bind_ok_iff.mp hrun
    cases hslots
    unfold placeBlock at hplace
    obtain ⟨ptr', h₂, halloc, hrest⟩ := bind_ok_iff.mp hplace
    obtain ⟨hgrant, hpos, hlt, hvals⟩ := honest.wasmAlloc_granted (by omega) halloc
    by_cases hin : ptr' < h₂.store.mem.size
    · simp only [bind, pushAllocation, Proc.modify, handOver, nativePtr, hin, decide_true,
        writeBytes, pure] at hrest
      obtain ⟨rfl, rfl⟩ := hrest
      obtain ⟨hkeeps, halive, hbytes⟩ := hgrant.fill rfl
        (honest.unnoticed _ _ hgrant.alive data rfl)
      exact ⟨_, rfl, ⟨hpos, hlt, halive, hgrant.inside, hbytes⟩, hkeeps, hvals⟩
    · simp [bind, pushAllocation, Proc.modify, handOver, nativePtr, hin, Proc.fail] at hrest

/-! ## Whole argument lists -/

def Intact (P : Platform) (k : Kind) (j : Json) (value : RustValue) : Prop :=
  match k with
  | .scalar (.elem e) => ∃ v : Elem e, value = .scalar (.elem e) v ∧ ScalarIntact P e j v
  | .slice (.elem e) _ => ∃ (items : List Json) (vs : List (Elem e)), j = .arr items ∧
      value = .vec (.elem e) vs ∧ List.Forall₂ (ElemIntact P e) items vs
  | .text _ => ∃ s, j = .str s ∧ value = .text s
  | _ => False

def hostElems (P : Platform) (e : ElemKind) : List Json → Option (List (Elem e))
  | [] => some []
  | j :: items =>
    match getElem P e j, hostElems P e items with
    | .ok v, some vs => some (v :: vs)
    | _, _ => none

/-- What reaches the body for an argument: the host's conversion, and for a scalar the
callee's reading of the slot. -/
def hostValue (P : Platform) (T : Toolchain) : Kind → Json → Option RustValue
  | .scalar (.elem e), j =>
    match jsonToVal P j (Scalar.elem e).valKind with
    | .ok slot => some (.scalar (.elem e) (decodeScalar T (.elem e) slot))
    | .error _ => none
  | .slice (.elem e) _, .arr items => (hostElems P e items).map (.vec (.elem e))
  | .text _, .str s => some (.text s)
  | _, _ => none

def hostValues (P : Platform) (T : Toolchain) : List Kind → List Json → Option (List RustValue)
  | [], [] => some []
  | k :: kinds, j :: args =>
    match hostValue P T k j, hostValues P T kinds args with
    | some v, some values => some (v :: values)
    | _, _ => none
  | _, _ => none

def AllIntact (P : Platform) : List Kind → List Json → List RustValue → Prop
  | [], [], [] => True
  | k :: kinds, j :: args, v :: values => Intact P k j v ∧ AllIntact P kinds args values
  | _, _, _ => False

theorem records_size {e : ElemKind} {P : Platform} {items : List Json} {records : List (List UInt8)}
    (h : List.Forall₂ (fun j r => ∃ v : Elem e, getElem P e j = .ok v ∧ r = encodeElem v) items records) :
    ∀ r ∈ records, r.length = e.size := by
  induction h with
  | nil => simp
  | cons hhead _ ih =>
    obtain ⟨v, _, rfl⟩ := hhead
    exact List.forall_mem_cons.mpr ⟨encodeElem_length v, ih⟩

theorem hostElems_decoded {e : ElemKind} {items : List Json} {records : List (List UInt8)}
    {P : Platform}
    (h : List.Forall₂ (fun j r => ∃ v : Elem e, getElem P e j = .ok v ∧ r = encodeElem v) items records) :
    hostElems P e items = some (records.map (decodeElem e)) := by
  induction h with
  | nil => rfl
  | cons hhead _ ih =>
    obtain ⟨v, hv, rfl⟩ := hhead
    rw [hostElems, hv, ih, List.map_cons, decode_encode]

theorem hostElems_intact {e : ElemKind} {P : Platform} {items : List Json} {vs : List (Elem e)}
    (h : hostElems P e items = some vs) : List.Forall₂ (ElemIntact P e) items vs := by
  induction items generalizing vs with
  | nil =>
    cases h
    exact .nil
  | cons j items ih =>
    simp only [hostElems] at h
    split at h
    · rename_i v vs' hv hrest
      cases h
      exact .cons (elemIntact_of_getElem hv) (ih hrest)
    · cases h

theorem hostValue_intact {P : Platform} {T : Toolchain} {k : Kind} {j : Json} {v : RustValue}
    (h : hostValue P T k j = some v) : Intact P k j v := by
  unfold hostValue at h
  split at h
  · split at h
    · rename_i slot hslot
      cases h
      exact ⟨_, rfl, scalar_delivered T hslot⟩
    · cases h
  · obtain ⟨vs, hvs, rfl⟩ := Option.map_eq_some_iff.mp h
    exact ⟨_, vs, rfl, rfl, hostElems_intact hvs⟩
  · cases h
    exact ⟨_, rfl, rfl⟩
  · cases h

theorem hostValues_intact {P : Platform} {T : Toolchain} {kinds : List Kind} {args : List Json}
    {values : List RustValue} (h : hostValues P T kinds args = some values) :
    AllIntact P kinds args values := by
  induction kinds generalizing args values with
  | nil =>
    cases args with
    | nil =>
      cases h
      trivial
    | cons j args => cases h
  | cons k kinds ih =>
    cases args with
    | nil => cases h
    | cons j args =>
      simp only [hostValues] at h
      split at h
      · rename_i v vs hv hrest
        cases h
        exact ⟨hostValue_intact hv, ih hrest⟩
      · cases h

/-- One parameter of the host's loop: its slots, and what the shim will read in them. -/
structure ParamBound (P : Platform) (live : Store σ → List Block) (k : Kind) (j : Json) (slot : Nat)
    (h h' : Host σ) : Prop where
  keeps : Keeps live h.store h'.store
  before : h'.vals.take slot = h.vals.take slot
  length : h'.vals.length = h.vals.length
  /-- Whatever happens to other blocks, the callee decodes this argument. -/
  decodes : ∀ (T : Toolchain) (st : Store σ) (kinds : List Kind) (rest : List Val),
    Keeps live h'.store st →
    ∃ v, hostValue P T k j = some v ∧
      decodeArgs T st.mem (k :: kinds) (((h'.vals.drop slot).take k.shimParams.length) ++ rest) =
        (decodeArgs T st.mem kinds rest).map (v :: ·)

theorem take_one_set {A : Type} {l : List A} {i : Nat} (h : i < l.length) (a : A) :
    ((l.set i a).drop i).take 1 = [a] := by
  rw [List.drop_eq_getElem_cons (by simpa using h)]
  simp

theorem take_two_set {A : Type} {l : List A} {i : Nat} (h : i + 1 < l.length) (a b : A) :
    (((l.set i a).set (i + 1) b).drop i).take 2 = [a, b] := by
  rw [List.drop_eq_getElem_cons (by simp; omega), List.drop_eq_getElem_cons (by simp; omega)]
  simp

theorem take_set_of_le {A : Type} (l : List A) {i j : Nat} (h : i ≤ j) (a : A) :
    (l.set j a).take i = l.take i := by
  rw [List.take_set, List.set_eq_of_length_le (Nat.le_trans (List.length_take_le i l) h)]

theorem range_bound {g : Guest σ} (honest : HonestAlloc g) {P : Platform} {k : Kind} {j : Json}
    {slot : Nat} {data : List UInt8} {count : Nat} {h h' : Host σ}
    (hroom : slot + 1 < h.vals.length) (hshim : k.shimParams = [.i32, .i32])
    (hdecode : ∀ ptr st (T : Toolchain), Delivered honest.live st data ptr →
      ∃ v, hostValue P T k j = some v ∧ ∀ (kinds : List Kind) (rest : List Val),
        decodeArgs T st.mem (k :: kinds)
          (.i32 (BitVec.ofNat 32 ptr) :: .i32 (BitVec.ofNat 32 count) :: rest) =
        (decodeArgs T st.mem kinds rest).map (v :: ·))
    (hrun : (ArgumentBinder.bindBytes g data count >>= fun (ptr, len) =>
      setSlot slot ptr >>= fun _ => setSlot (slot + 1) len) h = (.ok (), h')) :
    ParamBound P honest.live k j slot h h' := by
  obtain ⟨slots, h₁, hbytes, hset⟩ := bind_ok_iff.mp hrun
  obtain ⟨ptr, rfl, hdelivered, hkeeps, hvals⟩ := bindBytes_delivered honest hbytes
  simp only [bind, setSlot, Proc.modify, Prod.mk.injEq, true_and] at hset
  subst hset
  refine ⟨hkeeps, ?_, ?_, fun T st kinds rest hst => ?_⟩
  · simp only [take_set_of_le _ (Nat.le_succ slot), take_set_of_le _ (Nat.le_refl slot), hvals]
  · simp [hvals]
  · obtain ⟨v, hvalue, hdec⟩ := hdecode ptr st T (hdelivered.keeps hst)
    refine ⟨v, hvalue, ?_⟩
    rw [hshim]
    simp only [List.length_cons, List.length_nil, hvals]
    rw [take_two_set hroom]
    exact hdec kinds rest

theorem bindParam_bound {g : Guest σ} (honest : HonestAlloc g) {P : Platform} {kinds : List ValKind}
    {slot : Nat} {k : Kind} {type : ValueType} {j : Json} {h h' : Host σ}
    (hk : k.valueType? = some type) (hroom : slot + k.shimParams.length ≤ h.vals.length)
    (hkinds : (kinds.drop slot).take k.shimParams.length = k.shimParams)
    (hrun : bindParam P g kinds slot type j h = (.ok (), h')) :
    ParamBound P honest.live k j slot h h' := by
  cases Kind.known hk with
  | void => cases hrun
  | scalar e =>
    obtain ⟨v, h₁, hlift, hset⟩ := bind_ok_iff.mp hrun
    obtain ⟨hval, rfl⟩ := lift_ok_iff.mp hlift
    rw [getD_of_take_one hkinds] at hval
    simp only [setSlot, Proc.modify, Prod.mk.injEq, true_and] at hset
    subst hset
    refine ⟨Keeps.refl _ _, take_set_of_le _ (Nat.le_refl _) v, by simp, fun T st rest slots _ => ?_⟩
    refine ⟨.scalar (.elem e) (decodeScalar T (.elem e) v), by rw [hostValue, hval], ?_⟩
    simp only [Kind.shimParams, List.length_cons, List.length_nil]
    rw [take_one_set (Nat.lt_of_succ_le hroom)]
    rfl
  | vector e owned =>
    simp only [bindParam] at hrun
    cases j with
    | arr items =>
      simp only at hrun
      split at hrun
      · cases hrun
      · obtain ⟨records, h₁, hlift, hbind⟩ := bind_ok_iff.mp hrun
        obtain ⟨hwrite, rfl⟩ := lift_ok_iff.mp hlift
        have hrecords := writeElems_ok hwrite
        have hlength := hrecords.length_eq
        refine range_bound honest hroom rfl (fun ptr st T hdelivered => ?_) hbind
        have hslice := hdelivered.sliceFrom e.size_pos (records_size hrecords)
        rw [← hlength] at hslice
        refine ⟨.vec (.elem e) (records.map (decodeElem e)),
          by rw [hostValue, hostElems_decoded hrecords]; rfl, fun kinds rest => ?_⟩
        have hsize : (Scalar.elem e).size = e.size := rfl
        simp only [decodeArgs, Val.ofI32_i32, hsize, hslice]
        rfl
    | _ => cases hrun
  | text owned =>
    simp only [bindParam] at hrun
    cases j with
    | str text =>
      simp only at hrun
      split at hrun
      · cases hrun
      · refine range_bound honest hroom rfl (fun ptr st T hdelivered => ?_) hrun
        obtain ⟨records, hslice, hflatten⟩ := hdelivered.text
        refine ⟨.text text, rfl, fun kinds rest => ?_⟩
        simp only [decodeArgs, Val.ofI32_i32, hslice, hflatten, fromUtf8Lossy_utf8]
    | _ => cases hrun

/-- The run lemma of the parameter loop: the host's slot cursor and the parameter list of
the shim advance together, and every block bound so far keeps its bytes. -/
theorem bindParams_delivered {g : Guest σ} (honest : HonestAlloc g) (P : Platform) (T : Toolchain)
    (decls : List ParamDecl) {params : List Param} (hparams : hostParams decls = some params)
    {kinds : List ValKind} {i slot : Nat} {args : List Json} {h h' : Host σ}
    (hargs : args.length = params.length)
    (hkinds : kinds.drop slot = decls.flatMap fun p => p.kind.shimParams)
    (hroom : kinds.length ≤ h.vals.length) (hslot : slot ≤ kinds.length)
    (hrun : bindParams P g kinds i slot params args h = (.ok (), h')) :
    Keeps honest.live h.store h'.store ∧ h'.vals.take slot = h.vals.take slot ∧
      h'.vals.length = h.vals.length ∧
      ∃ values, decodeArgs T h'.store.mem (decls.map ParamDecl.kind) (h'.vals.drop slot) = some values ∧
        hostValues P T (decls.map ParamDecl.kind) args = some values := by
  induction decls generalizing params i slot args h with
  | nil =>
    cases hparams
    cases args with
    | cons j args => cases hargs
    | nil =>
      cases hrun
      exact ⟨Keeps.refl _ _, rfl, rfl, [], rfl, rfl⟩
  | cons d decls ih =>
    obtain ⟨type, rest, htype, hrest, rfl⟩ := hostParams_cons hparams
    cases args with
    | nil => cases hargs
    | cons j args =>
      rw [bindParams] at hrun
      obtain ⟨u, h₁, hparam, hloop⟩ := bind_ok_iff.mp hrun
      rw [mapFault_ok_iff] at hparam
      split at hparam
      · cases hparam
      · have hlength := congrArg List.length hkinds
        simp only [List.flatMap_cons, List.length_append, List.length_drop] at hlength
        have hshim : (kinds.drop slot).take d.kind.shimParams.length = d.kind.shimParams := by
          rw [hkinds, List.flatMap_cons, List.take_left]
        have hbound := bindParam_bound honest htype (by omega) hshim hparam
        simp only [Kind.slots_eq htype] at hloop
        obtain ⟨hkeeps, htake, hlen, values, hdecode, hvalues⟩ :=
          ih hrest (by simpa using hargs)
            (by rw [← List.drop_drop, hkinds, List.flatMap_cons, List.drop_left])
            (by rw [hbound.length]; exact hroom) (by omega) hloop
        obtain ⟨v, hv, hhead⟩ := hbound.decodes T h'.store (decls.map ParamDecl.kind)
          (h'.vals.drop (slot + d.kind.shimParams.length)) hkeeps
        have hsame : h'.vals.take slot = h₁.vals.take slot := by
          have := congrArg (List.take slot) htake
          simpa [List.take_take] using this
        have hslice : (h₁.vals.drop slot).take d.kind.shimParams.length =
            (h'.vals.drop slot).take d.kind.shimParams.length := by
          have := congrArg (List.drop slot) htake
          simp only [List.drop_take, Nat.add_sub_cancel_left] at this
          exact this.symm
        refine ⟨hbound.keeps.trans hkeeps, hsame.trans hbound.before,
          hlen.trans hbound.length, v :: values, ?_, ?_⟩
        · rw [hslice, ← List.drop_drop, List.take_append_drop] at hhead
          rw [List.map_cons, hhead, List.drop_drop, hdecode]
          rfl
        · rw [List.map_cons, hostValues, hv, hvalues]

/-- The host writes only inside blocks that `cn_alloc` answered with. -/
structure WritesOwn (events : List Event) (blocks : List Allocation) : Prop where
  own : ∀ r size, .writes r size ∈ events → ∃ b ∈ allocatedOf events, r.Within b

instance : Additive WritesOwn WritesOwn := by
  have happend {e₁ e₂ : List Event} {b₁ b₂ : List Allocation} (h₁ : WritesOwn e₁ b₁)
      (h₂ : WritesOwn e₂ b₂) : WritesOwn (e₁ ++ e₂) (b₁ ++ b₂) := by
    refine ⟨fun r size hmem => ?_⟩
    rw [allocatedOf_append]
    rcases List.mem_append.mp hmem with hmem | hmem
    · obtain ⟨b, hb, hwithin⟩ := h₁.own r size hmem
      exact ⟨b, List.mem_append_left _ hb, hwithin⟩
    · obtain ⟨b, hb, hwithin⟩ := h₂.own r size hmem
      exact ⟨b, List.mem_append_right _ hb, hwithin⟩
  have hnil : WritesOwn [] [] := ⟨by simp⟩
  exact ⟨hnil, happend, hnil, happend⟩

theorem writesOwn_placed {a : Allocation} {touched size : Nat} {fill : List Event}
    (htouched : touched ≤ a.byteSize) (hfill : Fills ⟨a.appPtr, touched⟩ size fill) :
    WritesOwn (placeEvents a touched size fill) [a] := by
  refine ⟨fun r n hmem => ⟨a.block, by simp [placeEvents, allocatedOf, Event.allocated?], ?_⟩⟩
  simp only [placeEvents, List.mem_cons, reduceCtorEq, false_or] at hmem
  obtain ⟨r', heq, hstart, hstop⟩ := hfill.inside _ hmem
  cases heq
  exact ⟨hstart, Nat.le_trans hstop (Nat.add_le_add_left htouched _)⟩

theorem writesOwn_law : BlockLaw WritesOwn WritesOwn where
  filled _ _ _ _ _ _ hfill := writesOwn_placed (Nat.le_refl _) hfill
  stopped _ _ _ _ htouched _ hfill := writesOwn_placed htouched hfill
  outside _ _ _ _ := ⟨by simp [placeEvents]⟩

/-- The slots and the memory that binding leaves, as the shim of the declaration reads them. -/
theorem bindTyped_values {g : Guest σ} (honest : HonestAlloc g) (P : Platform) (T : Toolchain)
    {decl : FnDecl} {sig : Signature} (hsig : decl.hostSignature = some sig) {func : Func}
    (hfunc : func.type = decl.shimType) {args : List Json} {h h' : Host σ}
    (hrun : ArgumentBinder.bindTyped P g func args sig h = (.ok (), h')) :
    ∃ values, decodeArgs T h'.store.mem (decl.params.map ParamDecl.kind) h'.vals = some values ∧
      hostValues P T (decl.params.map ParamDecl.kind) args = some values := by
  unfold ArgumentBinder.bindTyped at hrun
  simp only at hrun
  split at hrun
  · cases hrun
  · rename_i hcount
    obtain ⟨u, h₁, hvals, hloop⟩ := bind_ok_iff.mp hrun
    simp only [Proc.modify, Prod.mk.injEq, true_and] at hvals
    subst hvals
    have hkinds : func.type.params = decl.params.flatMap fun p => p.kind.shimParams := by
      rw [hfunc]
      rfl
    obtain ⟨_, _, _, values, hdecode, hvalues⟩ :=
      bindParams_delivered honest P T decl.params (hostSignature_eq_some hsig).1
        (not_not.mp hcount) (by rw [List.drop_zero, hkinds])
        (by rw [List.length_replicate]; split <;> omega) (Nat.zero_le _) hloop
    exact ⟨values, hdecode, hvalues⟩

def joinBound : Host Arena :=
  (ArgumentBinder.bindTyped default joinModule.guest ⟨"join", joinDecl.shimType⟩ joinArgs joinSig
    joinHost).2

end CrossNative
