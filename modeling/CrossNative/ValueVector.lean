import CrossNative.HostLog

/-!
# The kinds of the bound values

WAMR checks how many values a call passes and lays out its cells by the kind of each value, not
by the kind of the parameter. The kinds come from the function's type for numbers, and from the
binder itself for pointers, lengths and slots that nothing fills.
-/

namespace CrossNative

set_option autoImplicit false

open Basis Proc

variable {σ : Type}

/-! ## One value -/

theorem jsonToVal_kind {P : Platform} {j : Json} {kind : ValKind} {v : Val}
    (h : jsonToVal P j kind = .ok v) : v.kind = kind := by
  unfold jsonToVal at h
  split at h
  · cases kind with
    | i32 | i64 | f32 | f64 =>
      obtain ⟨_, _, rfl⟩ := map_ok_iff.mp h
      rfl
    | externref | funcref => cases h
  · cases h

/-! ## Blocks -/

/-- Filling a block leaves the value vector alone. -/
def KeepsVals (h h' : Host σ) : Prop := h'.vals = h.vals

instance : Sequential (KeepsVals (σ := σ)) KeepsVals where
  refl := fun _ => rfl
  trans := fun h₁ h₂ => Eq.trans h₂ h₁
  failed := fun _ => rfl
  after := fun h₁ h₂ => Eq.trans h₂ h₁

theorem wasmAlloc_keeps (g : Guest σ) (byteSize : Nat) :
    Ends KeepsVals KeepsVals (wasmAlloc g byteSize) := by
  intro h
  obtain ⟨st, _, ⟨ptr, _, _, hrun⟩ | ⟨reason, hrun⟩⟩ := wasmAlloc_run g byteSize h
  · rw [hrun]
    exact rfl
  · rw [hrun]
    exact rfl

theorem writeBytes_keeps (off : Nat) (bs : List UInt8) :
    Ends KeepsVals KeepsVals (writeBytes off bs : HostProc σ Unit) := fun _ => rfl

theorem fillElems_keeps (P : Platform) (kind : ElemKind) (mem e : Nat) (values : List Json) :
    Ends KeepsVals KeepsVals (fillElems P kind mem e values : HostProc σ Unit) := by
  induction values generalizing e with
  | nil => exact Ends.pure ()
  | cons value rest ih =>
    exact Ends.bind (Ends.lift _) fun bs => Ends.bind (writeBytes_keeps _ bs) fun _ => ih (e + 1)

theorem fillBuffer_keeps (P : Platform) (spec : BufferSpec) (mem : Nat) :
    Ends KeepsVals KeepsVals (fillBuffer P spec mem : HostProc σ Unit) := by
  unfold fillBuffer
  split
  · exact fillElems_keeps P spec.kind mem 0 _
  · exact writeBytes_keeps mem _

theorem placeBlock_keeps (g : Guest σ) (byteSize : Nat) (describe : Nat → Allocation)
    (touched : Nat) {fill : Nat → HostProc σ Unit}
    (hfill : ∀ mem, Ends KeepsVals KeepsVals (fill mem)) :
    Ends KeepsVals KeepsVals (placeBlock g byteSize describe touched fill) := by
  unfold placeBlock
  refine Ends.bind (wasmAlloc_keeps g byteSize) fun appPtr => ?_
  refine Ends.bind (Ends.modify fun _ => rfl) fun _ => ?_
  refine Ends.bind (fun _ => rfl : Ends KeepsVals KeepsVals (handOver appPtr touched)) fun _ => ?_
  refine Ends.bind (fun _ => rfl : Ends KeepsVals KeepsVals (nativePtr appPtr)) fun mem => ?_
  split
  · exact Ends.bind (hfill appPtr) fun _ => Ends.pure appPtr
  · exact Ends.fail _

theorem bindBytes_kinds {g : Guest σ} {data : List UInt8} {count : Nat} {h h' : Host σ}
    {slots : Val × Val} (hrun : ArgumentBinder.bindBytes g data count h = (.ok slots, h')) :
    slots.1.kind = .i32 ∧ slots.2.kind = .i32 ∧ h'.vals = h.vals := by
  unfold ArgumentBinder.bindBytes at hrun
  split at hrun
  · cases hrun
  · obtain ⟨ptr, h₁, hplace, hpure⟩ := bind_ok_iff.mp hrun
    cases hpure
    exact ⟨rfl, rfl, (placeBlock_keeps g _ _ _ fun mem => writeBytes_keeps mem data).of_run hplace⟩

theorem bindBuffer_kind {P : Platform} {g : Guest σ} {arg : Json} {v : Val} {h h' : Host σ}
    (hrun : ArgumentBinder.bindBuffer P g arg h = (.ok v, h')) : v.kind = .i32 ∧ h'.vals = h.vals := by
  unfold ArgumentBinder.bindBuffer at hrun
  obtain ⟨spec, h₁, hspec, hrest⟩ := bind_ok_iff.mp hrun
  obtain ⟨_, rfl⟩ := lift_ok_iff.mp hspec
  split at hrest
  · cases hrest
  · obtain ⟨ptr, h₂, hplace, hpure⟩ := bind_ok_iff.mp hrest
    cases hpure
    exact ⟨rfl, (placeBlock_keeps g _ _ _ (fillBuffer_keeps P spec)).of_run hplace⟩

/-! ## Ranges of slots -/

/-- A range of slots has been filled, inside the list and with nothing else touched. -/
structure Overwritten (slot : Nat) (filled before after : List ValKind) : Prop where
  eq : after = before.take slot ++ filled ++ before.drop (slot + filled.length)
  fits : slot + filled.length ≤ before.length

namespace Overwritten

theorem length {slot : Nat} {filled before after : List ValKind}
    (h : Overwritten slot filled before after) : after.length = before.length := by
  have hfits := h.fits
  rw [h.eq, List.length_append, List.length_append, List.length_take, List.length_drop]
  omega

theorem one {l : List ValKind} {slot : Nat} (h : slot < l.length) (a : ValKind) :
    Overwritten slot [a] l (l.set slot a) := by
  refine ⟨?_, h⟩
  rw [List.set_eq_take_append_cons_drop, if_pos h]
  simp

theorem two {l : List ValKind} {slot : Nat} (h : slot + 1 < l.length) (a b : ValKind) :
    Overwritten slot [a, b] l ((l.set slot a).set (slot + 1) b) := by
  refine ⟨?_, h⟩
  apply List.ext_getElem?
  intro i
  simp only [List.getElem?_set, List.getElem?_append, List.length_append, List.length_take]
  grind

theorem append {slot : Nat} {first second before middle after : List ValKind}
    (h₁ : Overwritten slot first before middle)
    (h₂ : Overwritten (slot + first.length) second middle after) :
    Overwritten slot (first ++ second) before after := by
  have hfits₁ := h₁.fits
  have hfits₂ := h₂.fits
  rw [h₁.length] at hfits₂
  refine ⟨?_, by rw [List.length_append]; omega⟩
  have hprefix : (before.take slot ++ first).length = slot + first.length := by
    rw [List.length_append, List.length_take]
    omega
  have htake : middle.take (slot + first.length) = before.take slot ++ first := by
    rw [h₁.eq, ← hprefix, List.take_left]
  have hdrop : middle.drop (slot + first.length + second.length) =
      before.drop (slot + first.length + second.length) := by
    rw [← List.drop_drop, h₁.eq, ← hprefix, List.drop_left, List.drop_drop]
  rw [h₂.eq, htake, hdrop, List.length_append, ← Nat.add_assoc, ← List.append_assoc]

end Overwritten

/-! ## Raw calls -/

/-- The kinds that `bind` gives: a buffer object becomes a pointer, whatever the parameter is. -/
def rawKinds (kinds : List ValKind) (args : List Json) : List ValKind :=
  List.zipWith (fun kind arg => if arg.isObject then .i32 else kind) kinds args

theorem bindArgs_kinds {P : Platform} {g : Guest σ} (kinds : List ValKind) {i : Nat}
    {args : List Json} {h h' : Host σ} (hargs : args.length = kinds.length)
    (hroom : i + kinds.length ≤ h.vals.length)
    (hrun : bindArgs P g i kinds args h = (.ok (), h')) :
    Overwritten i (rawKinds kinds args) (h.vals.map Val.kind) (h'.vals.map Val.kind) := by
  induction kinds generalizing i args h with
  | nil =>
    cases args with
    | cons arg args => cases hargs
    | nil =>
      cases hrun
      exact ⟨by simp [rawKinds], by simpa [rawKinds] using hroom⟩
  | cons kind kinds ih =>
    cases args with
    | nil => cases hargs
    | cons arg args =>
      rw [bindArgs] at hrun
      obtain ⟨v, h₁, hvalue, hset⟩ := bind_ok_iff.mp hrun
      obtain ⟨_, h₂, hslot, hloop⟩ := bind_ok_iff.mp hset
      rw [mapFault_ok_iff] at hvalue
      have hbound : v.kind = (if arg.isObject then .i32 else kind) ∧ h₁.vals = h.vals := by
        split at hvalue
        · rename_i hobject
          rw [if_pos hobject]
          exact bindBuffer_kind hvalue
        · rename_i hobject
          obtain ⟨hval, rfl⟩ := lift_ok_iff.mp hvalue
          rw [if_neg hobject]
          exact ⟨jsonToVal_kind hval, rfl⟩
      simp only [setSlot, Proc.modify, Prod.mk.injEq, true_and] at hslot
      subst hslot
      simp only [List.length_cons] at hroom hargs
      have hfirst : Overwritten i [v.kind] (h.vals.map Val.kind)
          ((h₁.vals.set i v).map Val.kind) := by
        rw [List.map_set, hbound.2]
        exact .one (by rw [List.length_map]; omega) _
      have hrest := ih (i := i + 1) (by omega) (by simp [hbound.2]; omega) hloop
      have heq : rawKinds (kind :: kinds) (arg :: args) = [v.kind] ++ rawKinds kinds args := by
        rw [hbound.1]
        rfl
      rw [heq]
      exact hfirst.append hrest

theorem bind_kinds {P : Platform} {g : Guest σ} {func : Func} {args : List Json} {h h' : Host σ}
    (hrun : ArgumentBinder.bind P g func args h = (.ok (), h')) :
    args.length = func.type.params.length ∧ h'.vals.map Val.kind = rawKinds func.type.params args := by
  unfold ArgumentBinder.bind at hrun
  split at hrun
  · cases hrun
  · rename_i hcount
    rw [not_not] at hcount
    obtain ⟨_, h₁, hzero, hloop⟩ := bind_ok_iff.mp hrun
    simp only [Proc.modify, Prod.mk.injEq, true_and] at hzero
    have hroom : h₁.vals.length = func.type.params.length := by
      rw [← hzero]
      simp
    have hfilled := bindArgs_kinds func.type.params hcount (by omega) hloop
    refine ⟨hcount, ?_⟩
    have hlength : (rawKinds func.type.params args).length = h₁.vals.length := by
      simp [rawKinds, hroom, hcount]
    rw [hfilled.eq, hlength, List.take_zero, List.nil_append, Nat.zero_add,
      List.drop_eq_nil_of_le (by simp), List.append_nil]

theorem rawKinds_eq_iff (kinds : List ValKind) {args : List Json} (hargs : args.length = kinds.length) :
    rawKinds kinds args = kinds ↔
      ∀ (i : Nat) (arg : Json), args[i]? = some arg → arg.isObject = true →
        kinds[i]? = some ValKind.i32 := by
  induction kinds generalizing args with
  | nil =>
    rw [List.length_nil, List.length_eq_zero_iff] at hargs
    simp [rawKinds, hargs]
  | cons kind kinds ih =>
    cases args with
    | nil => cases hargs
    | cons arg args =>
      have hcons : rawKinds (kind :: kinds) (arg :: args) =
          (if arg.isObject then .i32 else kind) :: rawKinds kinds args := rfl
      rw [hcons, List.cons.injEq, ih (by simpa using hargs)]
      constructor
      · rintro ⟨hhead, htail⟩ i a hget hobject
        cases i with
        | zero =>
          cases Option.some.inj hget
          rw [if_pos hobject] at hhead
          exact congrArg some hhead.symm
        | succ i => exact htail i a hget hobject
      · intro hall
        refine ⟨?_, fun i a hget hobject => hall (i + 1) a hget hobject⟩
        split
        · rename_i hobject
          exact (Option.some.inj (hall 0 arg rfl hobject)).symm
        · rfl

/-! ## Typed calls -/

/-- The kinds that `bindTyped` gives the slots of one parameter, the first of them `slot`. -/
def ValueType.slotKinds (kinds : List ValKind) (slot : Nat) : ValueType → List ValKind
  | void => []
  | scalar _ => [kinds.getD slot .i32]
  | vector _ | text => [.i32, .i32]

/-- The kinds of all slots the loop of `bindTyped` fills, from slot `slot` on. -/
def slotKinds (kinds : List ValKind) : Nat → List Param → List ValKind
  | _, [] => []
  | slot, p :: params => p.type.slotKinds kinds slot ++ slotKinds kinds (slot + p.type.slots) params

theorem bindParam_kinds {P : Platform} {g : Guest σ} {kinds : List ValKind} {slot : Nat}
    {type : ValueType} {j : Json} {h h' : Host σ} (hslot : slot < kinds.length)
    (hroom : kinds.length ≤ h.vals.length)
    (hrun : bindParam P g kinds slot type j h = (.ok (), h')) :
    Overwritten slot (type.slotKinds kinds slot) (h.vals.map Val.kind) (h'.vals.map Val.kind) ∧
      (type.slotKinds kinds slot).length = type.slots ∧ slot + type.slots ≤ kinds.length := by
  have hrange {data : List UInt8} {count : Nat} (hnext : slot + 1 < kinds.length)
      (hbind : (ArgumentBinder.bindBytes g data count >>= fun range =>
        setSlot slot range.1 >>= fun _ => setSlot (slot + 1) range.2) h = (.ok (), h')) :
      Overwritten slot [.i32, .i32] (h.vals.map Val.kind) (h'.vals.map Val.kind) := by
    obtain ⟨slots, h₁, hbytes, hset⟩ := bind_ok_iff.mp hbind
    obtain ⟨hptr, hlen, hvals⟩ := bindBytes_kinds hbytes
    simp only [bind, setSlot, Proc.modify, Prod.mk.injEq, true_and] at hset
    subst hset
    rw [List.map_set, List.map_set, hptr, hlen, hvals]
    exact .two (by rw [List.length_map]; omega) _ _
  cases type with
  | void => cases hrun
  | scalar e =>
    obtain ⟨v, h₁, hlift, hset⟩ := bind_ok_iff.mp hrun
    obtain ⟨hval, rfl⟩ := lift_ok_iff.mp hlift
    simp only [setSlot, Proc.modify, Prod.mk.injEq, true_and] at hset
    subst hset
    refine ⟨?_, rfl, hslot⟩
    rw [List.map_set, jsonToVal_kind hval]
    exact .one (by rw [List.length_map]; omega) _
  | vector e =>
    cases j with
    | arr items =>
      simp only [bindParam] at hrun
      split at hrun
      · cases hrun
      · obtain ⟨records, h₁, hlift, hbind⟩ := bind_ok_iff.mp hrun
        obtain ⟨_, rfl⟩ := lift_ok_iff.mp hlift
        exact ⟨hrange (by omega) hbind, rfl, by simp only [ValueType.slots]; omega⟩
    | _ => cases hrun
  | text =>
    cases j with
    | str text =>
      simp only [bindParam] at hrun
      split at hrun
      · cases hrun
      · exact ⟨hrange (by omega) hrun, rfl, by simp only [ValueType.slots]; omega⟩
    | _ => cases hrun

theorem bindParams_kinds {P : Platform} {g : Guest σ} {kinds : List ValKind} (params : List Param)
    {i slot : Nat} {args : List Json} {h h' : Host σ} (hargs : args.length = params.length)
    (hslot : slot ≤ kinds.length) (hroom : kinds.length ≤ h.vals.length)
    (hrun : bindParams P g kinds i slot params args h = (.ok (), h')) :
    Overwritten slot (slotKinds kinds slot params) (h.vals.map Val.kind) (h'.vals.map Val.kind) := by
  induction params generalizing i slot args h with
  | nil =>
    cases args with
    | cons j args => cases hargs
    | nil =>
      cases hrun
      exact ⟨by simp [slotKinds], by simpa [slotKinds] using Nat.le_trans hslot hroom⟩
  | cons p params ih =>
    cases args with
    | nil => cases hargs
    | cons j args =>
      rw [bindParams] at hrun
      obtain ⟨_, h₁, hparam, hloop⟩ := bind_ok_iff.mp hrun
      rw [mapFault_ok_iff] at hparam
      split at hparam
      · cases hparam
      · obtain ⟨hfirst, hlength, hend⟩ := bindParam_kinds (by omega) hroom hparam
        have hvals : h₁.vals.length = h.vals.length := by simpa using hfirst.length
        have hrest := ih (by simpa using hargs) hend (by omega) hloop
        rw [← hlength] at hrest
        rw [slotKinds, ← hlength]
        exact hfirst.append hrest

/-- The vector has one entry for each parameter, or one for none; what nothing fills stays i32. -/
theorem bindTyped_vals {P : Platform} {g : Guest σ} {func : Func} {args : List Json}
    {sig : Signature} {h h' : Host σ}
    (hrun : ArgumentBinder.bindTyped P g func args sig h = (.ok (), h')) :
    (slotKinds func.type.params 0 sig.params).length ≤ max func.type.params.length 1 ∧
      h'.vals.map Val.kind = slotKinds func.type.params 0 sig.params ++ List.replicate
        (max func.type.params.length 1 - (slotKinds func.type.params 0 sig.params).length) .i32 := by
  unfold ArgumentBinder.bindTyped at hrun
  simp only at hrun
  split at hrun
  · cases hrun
  · rename_i hcount
    obtain ⟨_, h₁, hzero, hloop⟩ := bind_ok_iff.mp hrun
    simp only [Proc.modify, Prod.mk.injEq, true_and] at hzero
    have hlength : (if func.type.params.length = 0 then 1 else func.type.params.length) =
        max func.type.params.length 1 := by
      split <;> omega
    have hstart : h₁.vals.map Val.kind = List.replicate (max func.type.params.length 1) .i32 := by
      rw [← hzero, hlength]
      exact List.map_replicate
    have hroom : h₁.vals.length = max func.type.params.length 1 := by
      rw [← hzero, hlength]
      exact List.length_replicate
    have hfilled := bindParams_kinds sig.params (not_not.mp hcount) (Nat.zero_le _) (by omega) hloop
    rw [hstart] at hfilled
    refine ⟨by simpa using hfilled.fits, ?_⟩
    rw [hfilled.eq, List.take_zero, List.nil_append, Nat.zero_add, List.drop_replicate]

/-- For each slot of a parameter, whether its kind is taken from the function's type. -/
def ValueType.scalarSlots : ValueType → List Bool
  | void => []
  | scalar _ => [true]
  | vector _ | text => [false, false]

def scalarSlots (params : List Param) : List Bool := params.flatMap fun p => p.type.scalarSlots

theorem slotKinds_eq_mapIdx (kinds : List ValKind) (params : List Param) (slot : Nat) :
    slotKinds kinds slot params = (scalarSlots params).mapIdx fun i own =>
      if own then kinds.getD (slot + i) .i32 else .i32 := by
  induction params generalizing slot with
  | nil => rfl
  | cons p params ih =>
    have hcons : scalarSlots (p :: params) = p.type.scalarSlots ++ scalarSlots params := rfl
    rw [slotKinds, hcons, List.mapIdx_append, ih]
    cases p.type with
    | void => rfl
    | scalar e =>
      simp [ValueType.slotKinds, ValueType.scalarSlots, ValueType.slots, Nat.add_assoc, Nat.add_comm 1]
    | vector e =>
      simp [ValueType.slotKinds, ValueType.scalarSlots, ValueType.slots, Nat.add_assoc, Nat.add_comm 2]
    | text =>
      simp [ValueType.slotKinds, ValueType.scalarSlots, ValueType.slots, Nat.add_assoc, Nat.add_comm 2]

/-- Slot `i` of a typed call takes the parameter's own kind where the signature declares a scalar,
and is i32 everywhere else. -/
theorem bindTyped_kind_at {P : Platform} {g : Guest σ} {func : Func} {args : List Json}
    {sig : Signature} {h h' : Host σ}
    (hrun : ArgumentBinder.bindTyped P g func args sig h = (.ok (), h')) {i : Nat}
    {kind : ValKind} (hkind : func.type.params[i]? = some kind) :
    (h'.vals.map Val.kind)[i]? =
      some (if (scalarSlots sig.params)[i]? = some true then kind else .i32) := by
  obtain ⟨hroom, hvals⟩ := bindTyped_vals hrun
  have hi : i < func.type.params.length := (List.getElem?_eq_some_iff.mp hkind).1
  have hgetD : func.type.params.getD i .i32 = kind := by
    rw [List.getD_eq_getElem?_getD, hkind]
    rfl
  rw [hvals]
  by_cases hslot : i < (slotKinds func.type.params 0 sig.params).length
  · rw [List.getElem?_append_left hslot, slotKinds_eq_mapIdx, List.getElem?_mapIdx]
    rw [slotKinds_eq_mapIdx, List.length_mapIdx] at hslot
    rw [List.getElem?_eq_getElem hslot, Option.map_some, Nat.zero_add, hgetD]
    simp
  · have hnone : (scalarSlots sig.params)[i]? = none := by
      rw [slotKinds_eq_mapIdx, List.length_mapIdx] at hslot
      exact List.getElem?_eq_none (Nat.le_of_not_lt hslot)
    rw [List.getElem?_append_right (Nat.le_of_not_lt hslot), hnone, if_neg (by simp)]
    rw [List.getElem?_replicate, if_pos (by omega)]

/-- A typed call passes the right kinds just when every slot that is not a declared scalar's is an
i32 parameter, and there is a parameter at all. -/
theorem bindTyped_match_iff {P : Platform} {g : Guest σ} {func : Func} {args : List Json}
    {sig : Signature} {h h' : Host σ}
    (hrun : ArgumentBinder.bindTyped P g func args sig h = (.ok (), h')) :
    h'.vals.map Val.kind = func.type.params ↔ func.type.params ≠ [] ∧
      ∀ (i : Nat) (kind : ValKind), func.type.params[i]? = some kind →
        (scalarSlots sig.params)[i]? ≠ some true → kind = .i32 := by
  obtain ⟨hroom, hvals⟩ := bindTyped_vals hrun
  have hlength : (h'.vals.map Val.kind).length = max func.type.params.length 1 := by
    rw [hvals, List.length_append, List.length_replicate]
    omega
  constructor
  · intro heq
    rw [heq] at hlength
    refine ⟨fun hnil => ?_, fun i kind hkind hslot => ?_⟩
    · rw [hnil] at hlength
      cases hlength
    · have hat := bindTyped_kind_at hrun hkind
      rw [heq, hkind, if_neg hslot] at hat
      exact Option.some.inj hat
  · rintro ⟨hparams, hothers⟩
    have hpos : 0 < func.type.params.length := List.length_pos_iff.mpr hparams
    apply List.ext_getElem?
    intro i
    cases hkind : func.type.params[i]? with
    | none =>
      have hi := List.getElem?_eq_none_iff.mp hkind
      exact List.getElem?_eq_none (by omega)
    | some kind =>
      rw [bindTyped_kind_at hrun hkind]
      split
      · rfl
      · rename_i hslot
        rw [hothers i kind hkind hslot]

/-! ## Both -/

/-- Whatever the function's type, the arguments and the signature are: the values of a raw call
have the kinds of the parameters just when buffers are given for i32 parameters only, those of a
typed call just when only declared scalars stand at parameters of another kind. -/
theorem vals_match_iff (P : Platform) (g : Guest σ) (func : Func) (args : List Json)
    (h h' : Host σ) :
    (ArgumentBinder.bind P g func args h = (.ok (), h') →
      (h'.vals.map Val.kind = func.type.params ↔ ∀ (i : Nat) (arg : Json), args[i]? = some arg →
        arg.isObject = true → func.type.params[i]? = some ValKind.i32)) ∧
    ∀ sig : Signature, ArgumentBinder.bindTyped P g func args sig h = (.ok (), h') →
      (h'.vals.map Val.kind = func.type.params ↔ func.type.params ≠ [] ∧
        ∀ (i : Nat) (kind : ValKind), func.type.params[i]? = some kind →
          (scalarSlots sig.params)[i]? ≠ some true → kind = .i32) := by
  constructor
  · intro hrun
    obtain ⟨hargs, hkinds⟩ := bind_kinds hrun
    rw [hkinds]
    exact rawKinds_eq_iff func.type.params hargs
  · intro sig hrun
    exact bindTyped_match_iff hrun

theorem bareMemory_grows (_ : String) (_ : List Val) (st : Store Unit) :
    st.mem.size ≤ st.mem.size := Nat.le_refl _

def bareGuest : Guest Unit := ⟨[], fun _ _ st => (.ok fun _ => 0, st), bareMemory_grows⟩

theorem bareMemory_le : 16 ≤ 2 ^ 32 := by decide

def bareHost : Host Unit := .start ⟨(), ⟨16, bareMemory_le, fun _ => 0⟩⟩

/-- A raw call with a number, and a typed call whose signature leaves the second parameter out. -/
theorem vals_match_iff_numbers : ∃ raw typed : Host Unit,
    ArgumentBinder.bind default bareGuest ⟨"f", ⟨[.i64], []⟩⟩ [.int 7] bareHost = (.ok (), raw) ∧
      raw.vals.map Val.kind = [.i64] ∧
    ArgumentBinder.bindTyped default bareGuest ⟨"f", ⟨[.i64, .i32], []⟩⟩ [.int 7]
        ⟨[⟨"n", .scalar .i64⟩], .void⟩ bareHost = (.ok (), typed) ∧
      typed.vals.map Val.kind = [.i64, .i32] := by
  refine ⟨_, _, rfl, ?_, rfl, ?_⟩
  · apply ((vals_match_iff default bareGuest ⟨"f", ⟨[.i64], []⟩⟩ [.int 7] bareHost _).1 rfl).mpr
    intro i arg hget hobject
    cases i with
    | zero =>
      cases Option.some.inj hget
      cases hobject
    | succ i => cases hget
  · apply ((vals_match_iff default bareGuest ⟨"f", ⟨[.i64, .i32], []⟩⟩ [.int 7] bareHost _).2
      ⟨[⟨"n", .scalar .i64⟩], .void⟩ rfl).mpr
    refine ⟨List.cons_ne_nil _ _, fun i kind hkind hslot => ?_⟩
    match i with
    | 0 => exact absurd rfl hslot
    | 1 => exact (Option.some.inj hkind).symm
    | i + 2 => cases hkind

/-- A function without parameters is given one value. -/
theorem vals_mismatch : ¬ ∀ (func : Func) (args : List Json) (sig : Signature) (h h' : Host Unit),
    ArgumentBinder.bindTyped default bareGuest func args sig h = (.ok (), h') →
    h'.vals.map Val.kind = func.type.params := by
  intro hall
  have hkinds := hall ⟨"answer", ⟨[], [.i32]⟩⟩ [] ⟨[], .scalar .i32⟩ bareHost _ rfl
  cases hkinds

end CrossNative
