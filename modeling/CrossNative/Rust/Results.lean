import CrossNative.Balance
import CrossNative.Rust.TypedCall

/-!
# What a returned value looks like to the caller

Scalars travel in an untyped slot, vectors and strings in a block behind a handle. The
empty handle stands both for an empty value and for a block that could not be had.
-/

namespace CrossNative.Rust

set_option autoImplicit false

open Basis Proc

variable {σ : Type}

/-! ## Blocks behind handles -/

theorem packed_valueType {v : RustValue} {bytes : List UInt8} {count : Nat}
    (hpacked : v.packed = some (bytes, count)) {k : Kind} (hkind : v.HasKind k) {t : ValueType}
    (ht : k.valueType? = some t) :
    (t = .text ∧ ∃ s, v = .text s ∧ bytes = utf8 s ∧ count = bytes.length) ∨
      ∃ (e : ElemKind) (vs : List (Elem e)), t = .vector e ∧ v = .vec (.elem e) vs ∧
        bytes = (vs.flatMap fun v => leBytes e.size v.toNat) ∧ count = vs.length := by
  cases Kind.known ht with
  | scalar e =>
    cases v with
    | scalar s v => cases hpacked
    | _ => exact hkind.elim
  | void =>
    cases v with
    | unit => cases hpacked
    | _ => exact hkind.elim
  | text owned =>
    cases v with
    | text s =>
      cases hpacked
      exact Or.inl ⟨rfl, s, rfl, rfl, rfl⟩
    | _ => exact hkind.elim
  | vector e owned =>
    cases v with
    | vec s vs =>
      cases (show s = .elem e from hkind)
      cases hpacked
      exact Or.inr ⟨e, vs, rfl, rfl, rfl, rfl⟩
    | _ => exact hkind.elim

section Packed

variable {v : RustValue} {bytes : List UInt8} {count : Nat} {t : ValueType} {heap : Heap σ}
  {st st' : Store σ} {buffer : BitVec 32}

def packedBlock (buffer : BitVec 32) (bytes : List UInt8) : Block := ⟨buffer.toNat, bytes.length⟩

theorem Packed.buffer_pos (h : Packed heap bytes st buffer st') : 0 < buffer.toNat :=
  Nat.pos_of_ne_zero fun hz => h.nonnull (BitVec.eq_of_toNat_eq hz)

theorem Packed.length_lt (h : Packed heap bytes st buffer st') : bytes.length < 2 ^ 32 := by
  have hpos := h.buffer_pos
  have hfits := h.fits
  have hcap := st'.mem.size_le
  omega

theorem returnRange_packed (hpacked : v.packed = some (bytes, count)) {k : Kind}
    (hkind : v.HasKind k) (ht : k.valueType? = some t) (h : Packed heap bytes st buffer st') :
    returnRange t [.i64 (pack buffer count)] = some (packedBlock buffer bytes) := by
  obtain ⟨hle, hcount⟩ := RustValue.packed_count hpacked
  have hpos := hcount h.nonempty
  have hbuffer := Nat.ne_of_gt h.buffer_pos
  simp only [returnRange, List.headD_cons, Val.ofI64_i64, unpackHandle_pack, h.count_mod hle]
  rcases packed_valueType hpacked hkind ht with ⟨rfl, s, rfl, rfl, rfl⟩ | ⟨e, vs, rfl, rfl, rfl, rfl⟩
  · simp only
    rw [if_neg (by omega)]
    rfl
  · simp only
    rw [if_neg (by omega), packedBlock, flatMap_leBytes_length]

theorem returnBlock_packed (P : Platform) (h : Packed heap bytes st buffer st') :
    returnBlock P t (packedBlock buffer bytes) = packedBlock buffer bytes := by
  have hmod : bytes.length % 2 ^ P.sizeBits % 2 ^ 32 = bytes.length := by
    rw [Nat.mod_mod_of_dvd _ (BufferSpec.two_pow_sizeBits P), Nat.mod_eq_of_lt h.length_lt]
  cases t with
  | vector k => simp only [returnBlock, packedBlock, hmod]
  | _ => rfl

theorem respond_packed (env : Env) (hpacked : v.packed = some (bytes, count)) {k : Kind}
    (hkind : v.HasKind k) (ht : k.valueType? = some t) (h : Packed heap bytes st buffer st')
    {mem : LinearMemory} (hmem : mem.read buffer.toNat bytes.length = bytes) :
    respond env (rangeReturn env.platform t mem (packedBlock buffer bytes)) [] =
      .ok (.success v.shown.dump []) := by
  have hlt := h.length_lt
  rcases packed_valueType hpacked hkind ht with ⟨rfl, s, rfl, rfl, rfl⟩ | ⟨e, vs, rfl, rfl, rfl, rfl⟩
  · simp only [rangeReturn, packedBlock, hmem, respond, fromUTF8_utf8, RustValue.shown, Json.dump,
      List.map_nil]
  · rw [flatMap_leBytes_length] at hmem hlt
    have hcount : vs.length * e.size / e.size = vs.length := Nat.mul_div_cancel _ e.size_pos
    simp only [rangeReturn, packedBlock, flatMap_leBytes_length, hcount, RustValue.shown]
    rw [readValues_packed env.platform vs (Nat.le_of_lt hlt) hmem]
    rfl

end Packed

/-- An integer result as the untyped reader takes it from its slot. -/
theorem slot_toInt {e : ElemKind} (hint : e.isFloat = false) (v : Elem e) :
    valToJson (Val.ofCells (Scalar.elem e).valKind (encodeScalar (.elem e) v)) =
      .int (if e.isSigned ∨ e = .u32 ∨ e = .u64 then v.toInt else v.toNat) := by
  have hnarrow (x : BitVec 32) : (x.setWidth 64).setWidth 32 = x := by simp
  have hwide (x : BitVec 64) : x.setWidth 64 = x := by simp
  have hsign {w : Nat} (x : BitVec w) (h : w ≤ 32) : (x.signExtend 32).toInt = x.toInt :=
    BitVec.toInt_signExtend_of_le h
  have hzero {w : Nat} (x : BitVec w) (h : w < 32) : (x.setWidth 32).toInt = x.toNat := by
    have hlt := x.isLt
    have hpow : 2 ^ w ≤ 2 ^ 31 := Nat.pow_le_pow_right (by omega) (by omega)
    rw [BitVec.toInt_eq_toNat_of_lt (by rw [BitVec.toNat_setWidth]; omega), BitVec.toNat_setWidth,
      Nat.mod_eq_of_lt (by omega)]
  have hsame (x : BitVec 32) : (x.setWidth 32).toInt = x.toInt := by simp
  cases e with
  | f64 | f32 => cases hint
  | i8 | i16 | i32 =>
    exact congrArg Json.int ((congrArg BitVec.toInt (hnarrow _)).trans (hsign v (by decide)))
  | u8 | u16 =>
    exact congrArg Json.int ((congrArg BitVec.toInt (hnarrow _)).trans (hzero v (by decide)))
  | u32 => exact congrArg Json.int ((congrArg BitVec.toInt (hnarrow _)).trans (hsame v))
  | i64 | u64 => exact congrArg Json.int (congrArg BitVec.toInt (hwide v))

theorem elemToJson_int {e : ElemKind} (hint : e.isFloat = false) (v : Elem e) :
    elemToJson v = .int (if e.isSigned then v.toInt else v.toNat) := by
  cases e <;> first | rfl | cases hint

/-- Reading a pattern as signed gives an unsigned value only in its lower half. -/
theorem toInt_eq_toNat_iff {w : Nat} (hw : 0 < w) (u v : BitVec w) :
    u.toInt = (v.toNat : Int) ↔ u.toNat < 2 ^ (w - 1) ∧ (u.toNat : Int) = v.toNat := by
  have hu := u.isLt
  have hv := v.isLt
  have hpow : 2 ^ w = 2 * 2 ^ (w - 1) := by
    rw [← Nat.pow_succ', Nat.succ_eq_add_one, Nat.sub_add_cancel hw]
  rw [BitVec.toInt_eq_toNat_cond]
  split <;> omega

/-! ## Outcomes of calls -/

namespace TypedCall

variable (c : TypedCall σ)

theorem run_of_reached {values : List RustValue} {v : RustValue} (hreached : c.Reached values v)
    {cell : BitVec 64} {st : Store σ}
    (hreturn : c.module.returnValue v (c.returnStore values) = (.ok cell, st)) {envelope : Envelope}
    {h' : Host σ}
    (hread : (readResult c.env.platform c.module.guest (some c.sig)
        (RustModule.shimResults c.fn.decl.returns cell) >>= fun result =>
        Proc.lift (respond c.env result [])) (c.finishedHost st cell) = (.ok envelope, h')) :
    c.run = (.ok envelope, { (freeBlocks c.module.guest h'.allocations h').2 with
      vals := [], allocations := [] }) := by
  rw [run_eq, withBinder, c.runCall_of_reached hreached hreturn, hread]

theorem binding_recorded : ∃ events blocks, c.binding.2.log = c.host.log ++ events ∧
    c.binding.2.allocations = blocks ∧ Recorded events blocks := by
  have hends : Ends (Extends Recorded) (Extends Recorded) (bindCall c.env c.module.guest c.func
      c.args (some c.sig)) :=
    bindCall_ends (recorded_law.bytes _) (recorded_law.buffers c.env.platform _) c.func c.args
      (some c.sig)
  obtain ⟨_, events, blocks, hlog, hblocks, _, hrec⟩ :=
    hends.state { c.host with vals := [], allocations := [] }
  exact ⟨events, blocks, hlog, hblocks, hrec⟩

theorem returns_valueType : c.fn.decl.returns.valueType? = some c.sig.returns :=
  (hostSignature_eq_some c.parsed).2

theorem shimResults_handle (hhandle : c.sig.returns.IsHandle) (cell : BitVec 64) :
    RustModule.shimResults c.fn.decl.returns cell = [.i64 cell] := by
  rw [RustModule.shimResults, (Kind.handle_result c.returns_valueType hhandle).1]
  rfl

/-- The reply and the log of a call, from what reading its result does. -/
theorem run_of_read {values : List RustValue} {v : RustValue} (hreached : c.Reached values v)
    {cell : BitVec 64} {st : Store σ} {h₂ : Host σ} {value : Returned} {events : List Event}
    {envelope : Envelope}
    (hreturn : c.module.returnValue v (c.returnStore values) = (.ok cell, st))
    (hread : readResult c.env.platform c.module.guest (some c.sig)
      (RustModule.shimResults c.fn.decl.returns cell) (c.finishedHost st cell) = (.ok value, h₂))
    (hlog₂ : h₂.log = (c.finishedHost st cell).log ++ events)
    (hblocks₂ : h₂.allocations = (c.finishedHost st cell).allocations)
    (hrespond : respond c.env value [] = .ok envelope) (halloc : allocatedOf events = []) :
    c.run.1 = .ok envelope ∧ ∃ body, c.run.2.log =
        c.host.log ++ body ++ (allocatedOf body).map Event.freed ∧ freedOf body = freedOf events := by
  have hbind := bind_of_ok (f := fun result => Proc.lift (respond c.env result [])) hread
  rw [hrespond] at hbind
  have hrun := c.run_of_reached hreached hreturn hbind
  obtain ⟨bound, blocks, hlog, hblocks, hrec⟩ := c.binding_recorded
  refine ⟨by rw [hrun], bound ++ .finished c.fn.decl.name.text
    (some (RustModule.shimResults c.fn.decl.returns cell)) :: events, ?_, ?_⟩
  · have hfrees := freeBlocks_log c.module.guest_frees blocks h₂
    have hkept : h₂.allocations = blocks := by rw [hblocks₂, ← hblocks]; rfl
    have hall : allocatedOf (bound ++ .finished c.fn.decl.name.text
        (some (RustModule.shimResults c.fn.decl.returns cell)) :: events) =
        blocks.map Allocation.block := by
      rw [allocatedOf_append, hrec.allocated]
      simp only [allocatedOf, List.filterMap_cons, Event.allocated?] at halloc ⊢
      rw [halloc, List.append_nil]
    rw [hrun, hall]
    simp only [hkept, hfrees, hlog₂, finishedHost, hlog, List.append_assoc, List.cons_append,
      List.nil_append]
  · rw [freedOf_append, hrec.freed]
    rfl

/-- What the caller sees for an empty handle. -/
def emptyShown (t : ValueType) : Json :=
  match t with
  | .text => .str ""
  | _ => .arr []

theorem run_of_empty {values : List RustValue} {v : RustValue} (hreached : c.Reached values v)
    (hhandle : c.sig.returns.IsHandle) {st : Store σ}
    (hreturn : c.module.returnValue v (c.returnStore values) = (.ok (pack 0 0), st)) :
    c.run.1 = .ok (.success (emptyShown c.sig.returns) []) ∧ ∃ body, c.run.2.log =
        c.host.log ++ body ++ (allocatedOf body).map Event.freed ∧ freedOf body = [] := by
  have hnull : (unpackHandle ((RustModule.shimResults c.fn.decl.returns (pack 0 0)).headD
      (.i64 0)).ofI64).1 = 0 := by
    rw [c.shimResults_handle hhandle, List.headD_cons, Val.ofI64_i64, unpackHandle_pack]
    rfl
  have hread := readResult_of_none (s := c.sig) (returnRange_of_null hnull c.sig.returns)
    c.env.platform c.module.guest (c.finishedHost st (pack 0 0))
  refine c.run_of_read hreached hreturn hread (List.append_nil _).symm rfl ?_ rfl
  generalize c.sig.returns = t at hhandle ⊢
  cases t with
  | void => exact hhandle.elim
  | scalar k => exact hhandle.elim
  | text => rfl
  | vector k => rfl

theorem run_of_block {values : List RustValue} {v : RustValue} (hreached : c.Reached values v)
    (hhandle : c.sig.returns.IsHandle) {bytes : List UInt8} {count : Nat}
    (hpacked : v.packed = some (bytes, count)) {buffer : BitVec 32} {st : Store σ}
    (hblock : Packed c.module.heap bytes (c.returnStore values) buffer st)
    (hreturn : c.module.returnValue v (c.returnStore values) =
      (.ok (pack buffer count), { st with mem := st.mem.write buffer.toNat bytes })) :
    c.run.1 = .ok (.success v.shown.dump []) ∧ ∃ body, c.run.2.log =
        c.host.log ++ body ++ (allocatedOf body).map Event.freed ∧
        freedOf body = [packedBlock buffer bytes] := by
  have hkind := c.fn.body_typed values v hreached.body
  have hresults := c.shimResults_handle hhandle (pack buffer count)
  have hrange : returnRange c.sig.returns (RustModule.shimResults c.fn.decl.returns
      (pack buffer count)) = some (packedBlock buffer bytes) := by
    rw [hresults]
    exact returnRange_packed hpacked hkind c.returns_valueType hblock
  have hfits := hblock.fits
  have hlen : 0 < bytes.length := List.length_pos_iff.mpr hblock.nonempty
  obtain ⟨st₂, hread⟩ := readResult_of_range hrange c.env.platform c.module.guest
    (h := c.finishedHost { st with mem := st.mem.write buffer.toNat bytes } (pack buffer count))
    (show buffer.toNat < st.mem.size by omega)
  have hrec := recorded_returnReads c.env.platform c.sig.returns (packedBlock buffer bytes) st.mem.size
  have hfree : freeEvents c.module.guest (returnBlock c.env.platform c.sig.returns
      (packedBlock buffer bytes)) = [.freed (packedBlock buffer bytes)] := by
    rw [returnBlock_packed c.env.platform hblock, freeEvents, if_pos c.module.guest_frees]
  have hresult := c.run_of_read hreached hreturn hread
    (by rw [hfree, Host.readReturn, List.append_assoc]) rfl
    (respond_packed c.env hpacked hkind c.returns_valueType hblock
      (by exact Memory.read_write_same _ _ _)) (by rw [allocatedOf_append]; exact
        (congrArg (· ++ []) hrec.allocated))
  refine ⟨hresult.1, ?_⟩
  obtain ⟨body, hlog, hfreed⟩ := hresult.2
  refine ⟨body, hlog, ?_⟩
  rw [hfreed, freedOf_append]
  exact congrArg (· ++ [packedBlock buffer bytes]) hrec.freed

/-- The handle a shim hands back: empty for an empty value or a null block, or a block
that holds the value. -/
theorem returned_handle (hhandle : c.sig.returns.IsHandle) {values : List RustValue} {v : RustValue}
    (hreached : c.Reached values v) {cell : BitVec 64} {st : Store σ}
    (hreturn : c.module.returnValue v (c.returnStore values) = (.ok cell, st)) :
    ∃ bytes count, v.packed = some (bytes, count) ∧
      ((bytes = [] ∧ cell = pack 0 0) ∨
        (bytes ≠ [] ∧ cnAlloc c.module.heap bytes.length (c.returnStore values) = (.ok 0, st) ∧
          cell = pack 0 0) ∨
        ∃ buffer st', Packed c.module.heap bytes (c.returnStore values) buffer st' ∧
          cell = pack buffer count ∧ st = { st' with mem := st'.mem.write buffer.toNat bytes }) := by
  obtain ⟨hresult, hscalar⟩ := Kind.handle_result c.returns_valueType hhandle
  obtain ⟨bytes, count, hpacked⟩ := RustModule.packed_of_hasKind
    (c.fn.body_typed values v hreached.body) hresult hscalar
  refine ⟨bytes, count, hpacked, ?_⟩
  rw [RustModule.returnValue_packed hpacked] at hreturn
  rcases packSlice_cases c.module.heap bytes count (c.returnStore values) with
    ⟨hempty, hrun⟩ | ⟨st₁, hne, halloc, hrun⟩ | ⟨trap, st₁, hrun⟩ | ⟨buffer, st₁, hblock, hrun⟩ <;>
    rw [hrun] at hreturn <;> cases hreturn
  · exact Or.inl ⟨hempty, rfl⟩
  · exact Or.inr (Or.inl ⟨hne, halloc, rfl⟩)
  · exact Or.inr (Or.inr ⟨buffer, st₁, hblock, rfl, rfl⟩)

theorem succeeded_of_return (hhandle : c.sig.returns.IsHandle) {values : List RustValue}
    {v : RustValue} (hreached : c.Reached values v) {cell : BitVec 64} {st : Store σ}
    (hreturn : c.module.returnValue v (c.returnStore values) = (.ok cell, st)) :
    Succeeded c.run.1 := by
  obtain ⟨bytes, count, hpacked, ⟨_, rfl⟩ | ⟨_, _, rfl⟩ | ⟨buffer, st', hblock, rfl, rfl⟩⟩ :=
    c.returned_handle hhandle hreached hreturn
  · exact ⟨_, _, (c.run_of_empty hreached hhandle hreturn).1⟩
  · exact ⟨_, _, (c.run_of_empty hreached hhandle hreturn).1⟩
  · exact ⟨_, _, (c.run_of_block hreached hhandle hpacked hblock hreturn).1⟩

/-- An empty value shows as the empty array or text, and no other does. -/
theorem emptyShown_eq_iff {v : RustValue} {bytes : List UInt8} {count : Nat}
    (hpacked : v.packed = some (bytes, count)) {k : Kind} (hkind : v.HasKind k) {t : ValueType}
    (ht : k.valueType? = some t) : emptyShown t = v.shown.dump ↔ bytes = [] := by
  rcases packed_valueType hpacked hkind ht with ⟨rfl, s, rfl, rfl, rfl⟩ | ⟨e, vs, rfl, rfl, rfl, rfl⟩
  · simp only [emptyShown, RustValue.shown, Json.dump, Json.str.injEq]
    exact ⟨fun h => by rw [← h]; rfl, fun h => utf8_injective (by rw [h]; rfl)⟩
  · cases vs with
    | nil => simp [emptyShown, RustValue.shown, Json.dump, Json.dumpItems]
    | cons w ws =>
      have hne : ((w :: ws).flatMap fun v => leBytes e.size v.toNat) ≠ [] := by
        apply List.ne_nil_of_length_pos
        rw [flatMap_leBytes_length]
        exact Nat.mul_pos (Nat.succ_pos _) e.size_pos
      refine ⟨fun h => ?_, fun h => absurd h hne⟩
      simp [emptyShown, RustValue.shown, Json.dump, Json.dumpItems] at h

/-- A vector or string result comes back intact exactly when it is empty or the allocator
gave the shim a block for it; the block is freed once, with the size it was asked with. -/
theorem handle_result_iff (hhandle : c.sig.returns.IsHandle) (hsuccess : Succeeded c.run.1) :
    ∃ values v bytes count result, c.Reached values v ∧ v.packed = some (bytes, count) ∧
      c.run.1 = .ok (.success result []) ∧
      (result = v.shown.dump ↔
        bytes = [] ∨ (cnAlloc c.module.heap bytes.length (c.returnStore values)).1 ≠ .ok 0) ∧
      (∃ body, c.run.2.log = c.host.log ++ body ++ (allocatedOf body).map Event.freed ∧
        freedOf body =
          match (cnAlloc c.module.heap bytes.length (c.returnStore values)).1 with
          | .ok buffer => if bytes = [] ∨ buffer = 0 then [] else [⟨buffer.toNat, bytes.length⟩]
          | .error _ => []) ∧
      ∀ ptr count : BitVec 32, unpackHandle (pack ptr count.toNat) = (ptr.toNat, count.toNat) := by
  obtain ⟨values, v, cell, st, hreached, hreturn⟩ := c.reached_of_succeeded hsuccess
  have hkind := c.fn.body_typed values v hreached.body
  have hround (ptr count : BitVec 32) : unpackHandle (pack ptr count.toNat) = (ptr.toNat, count.toNat) := by
    rw [unpackHandle_pack, Nat.mod_eq_of_lt count.isLt]
  obtain ⟨bytes, count, hpacked, hcases⟩ := c.returned_handle hhandle hreached hreturn
  have hempty := emptyShown_eq_iff hpacked hkind c.returns_valueType
  rcases hcases with ⟨rfl, rfl⟩ | ⟨hne, halloc, rfl⟩ | ⟨buffer, st', hblock, rfl, rfl⟩
  · obtain ⟨hreply, body, hlog, hfreed⟩ := c.run_of_empty hreached hhandle hreturn
    refine ⟨values, v, [], count, _, hreached, hpacked, hreply, ?_, ⟨body, hlog, ?_⟩, hround⟩
    · simp [hempty]
    · rw [hfreed]
      simp [cnAlloc]
  · obtain ⟨hreply, body, hlog, hfreed⟩ := c.run_of_empty hreached hhandle hreturn
    refine ⟨values, v, bytes, count, _, hreached, hpacked, hreply, ?_, ⟨body, hlog, ?_⟩, hround⟩
    · simp [hempty, hne, halloc]
    · rw [hfreed, halloc]
      simp
  · obtain ⟨hreply, body, hlog, hfreed⟩ := c.run_of_block hreached hhandle hpacked hblock hreturn
    refine ⟨values, v, bytes, count, _, hreached, hpacked, hreply, ?_, ⟨body, hlog, ?_⟩, hround⟩
    · exact ⟨fun _ => Or.inr (by rw [hblock.alloc]; simpa using hblock.nonnull), fun _ => rfl⟩
    · have hnone : ¬ (bytes = [] ∨ buffer = 0) := not_or.mpr ⟨hblock.nonempty, hblock.nonnull⟩
      simp only [hfreed, hblock.alloc, if_neg hnone, packedBlock]

end TypedCall

def joinValues : List RustValue :=
  [.vec (.elem .u16) [258#16, 65535#16], .text "né", .scalar (.elem .i8) (-3#8)]

def joinReturned : RustValue := .vec (.elem .u16) [258#16, 65535#16]

theorem joinCall_reached : (joinCall 64 (by decide)).Reached joinValues joinReturned :=
  ⟨by decide +kernel, by decide +kernel, by decide +kernel, rfl⟩

theorem handle_result_iff_join :
    ∃ values v bytes count result, (joinCall 64 (by decide)).Reached values v ∧
      v.packed = some (bytes, count) ∧ (joinCall 64 (by decide)).run.1 = .ok (.success result []) ∧
      (result = v.shown.dump ↔ bytes = [] ∨
        (cnAlloc arenaHeap bytes.length ((joinCall 64 (by decide)).returnStore values)).1 ≠ .ok 0) := by
  have hcell : ((joinCall 64 (by decide)).module.returnValue joinReturned
      ((joinCall 64 (by decide)).returnStore joinValues)).1 = .ok (pack 15 2) := by decide +kernel
  obtain ⟨values, v, bytes, count, result, hreached, hpacked, hrun, hiff, _⟩ :=
    (joinCall 64 (by decide)).handle_result_iff trivial
      ((joinCall 64 (by decide)).succeeded_of_return trivial joinCall_reached (run_eq_of_outcome hcell))
  exact ⟨values, v, bytes, count, result, hreached, hpacked, hrun, hiff⟩

/-- With sixteen bytes of memory the arguments fit and the result does not. -/
theorem handle_result_lost :
    (joinCall 16 (by decide)).Reached joinValues joinReturned ∧
      (joinCall 16 (by decide)).run.1 = .ok (.success (.arr []) []) ∧
      Json.arr [] ≠ joinReturned.shown.dump := by
  have hreached : (joinCall 16 (by decide)).Reached joinValues joinReturned :=
    ⟨by decide +kernel, by decide +kernel, by decide +kernel, rfl⟩
  have hcell : ((joinCall 16 (by decide)).module.returnValue joinReturned
      ((joinCall 16 (by decide)).returnStore joinValues)).1 = .ok (pack 0 0) := by decide +kernel
  refine ⟨hreached, ?_, ?_⟩
  · exact ((joinCall 16 (by decide)).run_of_empty hreached trivial (run_eq_of_outcome hcell)).1
  · have hempty := TypedCall.emptyShown_eq_iff (v := joinReturned) (k := joinDecl.returns)
      (t := .vector .u16) rfl rfl rfl
    exact fun h => absurd (hempty.mp h) (by decide)

namespace TypedCall

variable (c : TypedCall σ)

/-- A scalar result is read from its slot, whatever type is declared. -/
theorem run_of_scalar {e : ElemKind} (hreturns : c.fn.decl.returns = .scalar (.elem e))
    {values : List RustValue} {v : Elem e} (hreached : c.Reached values (.scalar (.elem e) v)) :
    c.run.1 = .ok (.success
      (valToJson (Val.ofCells (Scalar.elem e).valKind (encodeScalar (.elem e) v))).dump []) := by
  have hsig : c.sig.returns = .scalar e := by
    have ht := c.returns_valueType
    rw [hreturns] at ht
    exact (Option.some.inj ht).symm
  let cell := encodeScalar (.elem e) v
  have hresults : RustModule.shimResults c.fn.decl.returns cell =
      [Val.ofCells (Scalar.elem e).valKind cell] := by
    rw [hreturns]
    rfl
  have hnone : returnRange c.sig.returns (RustModule.shimResults c.fn.decl.returns cell) = none := by
    rw [hsig]
    rfl
  have hread := readResult_of_none (s := c.sig) hnone c.env.platform c.module.guest
    (c.finishedHost (c.returnStore values) cell)
  have hempty : emptyReturn c.sig.returns (RustModule.shimResults c.fn.decl.returns cell) =
      .json (valToJson (Val.ofCells (Scalar.elem e).valKind cell)) := by
    rw [hsig, hresults]
    rfl
  rw [hempty] at hread
  exact (c.run_of_read (v := .scalar (.elem e) v) hreached rfl hread
    (List.append_nil _).symm rfl rfl rfl).1

/-- An integer result is the returned value, except the upper halves of `u32` and `u64`:
the slot is read as signed whatever the signature declares. -/
theorem scalar_result_iff {e : ElemKind} (hreturns : c.fn.decl.returns = .scalar (.elem e))
    (hint : e.isFloat = false) {values : List RustValue} {v : Elem e}
    (hreached : c.Reached values (.scalar (.elem e) v)) :
    ∃ result, c.run.1 = .ok (.success result []) ∧
      (result = elemToJson v ↔ (e = .u32 → v.toNat < 2 ^ 31) ∧ (e = .u64 → v.toNat < 2 ^ 63)) := by
  refine ⟨_, c.run_of_scalar hreturns hreached, ?_⟩
  rw [slot_toInt hint, elemToJson_int hint, Json.dump_int]
  simp only [Json.int.injEq]
  cases e with
  | f64 | f32 => cases hint
  | i8 | i16 | i32 | i64 => simp [ElemKind.isSigned]
  | u8 | u16 => simp [ElemKind.isSigned]
  | u32 =>
    have hiff := toInt_eq_toNat_iff (w := 32) (by omega) v v
    rw [and_iff_left rfl] at hiff
    simp only [ElemKind.isSigned, Bool.false_eq_true, false_or, true_or, if_true, if_false,
      forall_const, reduceCtorEq, false_implies, and_true]
    exact hiff
  | u64 =>
    have hiff := toInt_eq_toNat_iff (w := 64) (by omega) v v
    rw [and_iff_left rfl] at hiff
    simp only [ElemKind.isSigned, Bool.false_eq_true, or_true, if_true, if_false,
      forall_const, reduceCtorEq, false_implies, true_and]
    exact hiff

end TypedCall

/-- `fn top(x: u32) -> u32`. -/
def topDecl : FnDecl where
  name := ⟨"top", by decide⟩
  params := [⟨⟨"x", by decide⟩, .scalar (.elem .u32)⟩]
  returns := .scalar (.elem .u32)

def topBody : List RustValue → RustValue
  | .scalar (.elem .u32) v :: _ => .scalar (.elem .u32) v
  | _ => .scalar (.elem .u32) 0#32

def topFn : RustFn where
  decl := topDecl
  body values := some (topBody values)
  body_typed values v h := by
    cases h
    unfold topBody
    split <;> rfl

def topCall : TypedCall Arena where
  env := default
  module := arenaModule topFn (by decide)
  fn := topFn
  exported := List.mem_cons_self
  sig := ⟨[⟨"x", .scalar .u32⟩], .scalar .u32⟩
  parsed := rfl
  entry := ⟨[], [("top", ⟨[⟨"x", .scalar .u32⟩], .scalar .u32⟩)], []⟩
  listed := rfl
  moduleId := "sample"
  args := [.int 4294967295]
  host := Host.start (arenaStore 64 sampleMemory_le)

def topValue : Elem .u32 := 4294967295#32

theorem topCall_reached :
    topCall.Reached [.scalar (.elem .u32) topValue] (.scalar (.elem .u32) topValue) :=
  ⟨by decide +kernel, by decide +kernel, by decide +kernel, rfl⟩

theorem scalar_result_iff_top :
    ∃ result, topCall.run.1 = .ok (.success result []) ∧
      (result = elemToJson topValue ↔
        (ElemKind.u32 = .u32 → topValue.toNat < 2 ^ 31) ∧
          (ElemKind.u32 = .u64 → topValue.toNat < 2 ^ 63)) :=
  topCall.scalar_result_iff rfl rfl topCall_reached

/-- The largest `u32` comes back as something else. -/
theorem scalar_result_negative :
    topCall.Reached [.scalar (.elem .u32) topValue] (.scalar (.elem .u32) topValue) ∧
      topCall.run.1 = .ok (.success (.int (-1)) []) ∧ elemToJson topValue = .int 4294967295 :=
  ⟨topCall_reached, topCall.run_of_scalar rfl topCall_reached, rfl⟩

end CrossNative.Rust
