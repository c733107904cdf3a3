import CrossNative.CallLog
import CrossNative.Delivery

/-!
# Raw buffers there and back

A raw call names its buffers in the argument list, and the binder keeps one list of blocks
for them. The blocks and the slots follow the arguments: a block stands where its buffer
argument stands, and the outputs come out in the order of the `out` and `inout` arguments.
-/

namespace CrossNative

set_option autoImplicit false

open Basis Proc

variable {σ : Type}

/-! ## Filling a block -/

theorem Store.fill_fill (st : Store σ) (off : Nat) (bs bs' : List UInt8) :
    (st.fill off bs).fill (off + bs.length) bs' = st.fill off (bs ++ bs') := by
  simp only [Store.fill, Memory.write_append]

def image {k : ElemKind} (vs : List (Elem k)) : List UInt8 := (vs.map encodeElem).flatten

@[simp] theorem image_length {k : ElemKind} (vs : List (Elem k)) :
    (image vs).length = vs.length * k.size := by
  simp [image, List.length_flatten, Function.comp_def]

theorem image_cons {k : ElemKind} (v : Elem k) (vs : List (Elem k)) :
    image (v :: vs) = encodeElem v ++ image vs := by
  simp [image]

theorem leBytes_zero (n : Nat) : leBytes n 0 = List.replicate n 0 := by
  induction n with
  | zero => rfl
  | succ n ih => rw [leBytes, Nat.zero_div, ih, List.replicate_succ]; rfl

theorem image_zeros (k : ElemKind) (n : Nat) :
    image (List.replicate n (0 : Elem k)) = List.replicate (n * k.size) 0 := by
  induction n with
  | zero => simp [image]
  | succ n ih =>
    have hzero : encodeElem (0 : Elem k) = List.replicate k.size 0 := leBytes_zero k.size
    rw [List.replicate_succ, image_cons, ih, hzero, ← List.replicate_add, Nat.add_mul, Nat.one_mul,
      Nat.add_comm]

/-- Elements are determined by the bytes they are stored as. -/
theorem decode_chunks_of_image {k : ElemKind} {m : LinearMemory} {off : Nat} {vs : List (Elem k)}
    (h : m.read off (vs.length * k.size) = image vs) :
    (m.chunks off k.size vs.length).map (decodeElem k) = vs := by
  have hsize : ∀ r ∈ vs.map encodeElem, r.length = k.size := by
    intro r hr
    obtain ⟨v, _, rfl⟩ := List.mem_map.mp hr
    exact encodeElem_length v
  have hchunks := Memory.chunks_of_read_flatten hsize
    (by rw [List.length_map]; exact h)
  rw [List.length_map] at hchunks
  rw [hchunks, List.map_map]
  calc vs.map (decodeElem k ∘ encodeElem) = vs.map id :=
        List.map_congr_left fun v _ => decode_encode v
    _ = vs := List.map_id vs

theorem fillElems_filled {P : Platform} {k : ElemKind} {mem e : Nat} {values : List Json}
    {h h' : Host σ} (hrun : fillElems P k mem e values h = (.ok (), h')) :
    ∃ vs : List (Elem k), List.Forall₂ (ElemIntact P k) values vs ∧
      h'.store = h.store.fill (mem + e * k.size) (image vs) := by
  induction values generalizing e h with
  | nil =>
    cases hrun
    exact ⟨[], .nil, by simp [image, Store.fill]⟩
  | cons value rest ih =>
    rw [fillElems] at hrun
    obtain ⟨bs, h₁, hlift, hbody⟩ := bind_ok_iff.mp hrun
    obtain ⟨hwrite, rfl⟩ := lift_ok_iff.mp hlift
    obtain ⟨v, hv, rfl⟩ := writeElem_ok_iff.mp hwrite
    obtain ⟨u, h₂, hbytes, hloop⟩ := bind_ok_iff.mp hbody
    cases hbytes
    obtain ⟨vs, hvs, hstore⟩ := ih hloop
    refine ⟨v :: vs, .cons (elemIntact_of_getElem hv) hvs, ?_⟩
    have hnext : mem + (e + 1) * k.size = mem + e * k.size + (encodeElem v).length := by
      rw [encodeElem_length, Nat.add_mul, Nat.one_mul, Nat.add_assoc]
    rw [hstore, hnext, image_cons, ← Store.fill_fill]
    rfl

/-- What a buffer argument puts into its block: its array, or zeros. -/
inductive Filling (P : Platform) (spec : BufferSpec) : List (Elem spec.kind) → Prop
  | copied {values : List Json} {vs : List (Elem spec.kind)} (hvalues : spec.values = some values)
      (hvs : List.Forall₂ (ElemIntact P spec.kind) values vs) : Filling P spec vs
  | zeroed (hvalues : spec.values = none) : Filling P spec (List.replicate spec.count 0)

theorem Filling.length {P : Platform} {spec : BufferSpec} (hvalid : spec.Valid)
    {vs : List (Elem spec.kind)} (h : Filling P spec vs) : vs.length = spec.count := by
  cases h with
  | copied hvalues hvs => rw [hvalid.values _ hvalues, hvs.length_eq]
  | zeroed _ => exact List.length_replicate

theorem fillBuffer_filled {P : Platform} {spec : BufferSpec} (hvalid : spec.Valid) {mem : Nat}
    {h h' : Host σ} (hrun : fillBuffer P spec mem h = (.ok (), h')) :
    ∃ vs, Filling P spec vs ∧ h'.store = h.store.fill mem (image vs) ∧ h'.vals = h.vals ∧
      h'.allocations = h.allocations := by
  obtain ⟨_, hwrote, _⟩ := fillBuffer_run P hvalid mem h
  rw [hrun] at hwrote
  unfold fillBuffer at hrun
  cases hvalues : spec.values with
  | none =>
    simp only [hvalues] at hrun
    cases hrun
    refine ⟨_, .zeroed hvalues, ?_, hwrote.vals, hwrote.allocations⟩
    rw [image_zeros, hvalid.byteSize P]
    rfl
  | some values =>
    simp only [hvalues] at hrun
    obtain ⟨vs, hvs, hstore⟩ := fillElems_filled hrun
    refine ⟨vs, .copied hvalues hvs, ?_, hwrote.vals, hwrote.allocations⟩
    rw [hstore, Nat.zero_mul, Nat.add_zero]

/-! ## One buffer argument -/

/-- The number of elements a buffer argument asks for, as its document says it. -/
def elementCount (arg : Json) : Nat :=
  match arg.find? "out" with
  | some (.int n) => n.toNat
  | some _ => 0
  | none => (((arg.find? "in").or (arg.find? "inout")).getD .null).elements.length

/-- The allocation that stands for a buffer argument, and the bytes in its block. -/
structure BlockHolds (P : Platform) (live : Store σ → List Block) (st : Store σ) (arg : Json)
    (spec : BufferSpec) (a : Allocation) : Prop where
  parsed : parseBufferSpec P arg = .ok spec
  recorded : a = ⟨a.appPtr, spec.count * spec.kind.size, spec.count, spec.kind, spec.readBack⟩
  /-- The product did not wrap, and neither did the count of a 64-bit document. -/
  addressable : spec.count * spec.kind.size < 2 ^ 32
  counted : elementCount arg < 2 ^ 64 → spec.count = elementCount arg
  pointer : 0 < a.appPtr ∧ a.appPtr < 2 ^ 32
  alive : a.block ∈ live st
  inside : a.block.stop ≤ st.mem.size
  filled : ∃ vs, Filling P spec vs ∧ st.mem.read a.appPtr a.byteSize = image vs

theorem BlockHolds.keeps {P : Platform} {live : Store σ → List Block} {st st' : Store σ} {arg : Json}
    {spec : BufferSpec} {a : Allocation} (h : BlockHolds P live st arg spec a)
    (hkeeps : Keeps live st st') : BlockHolds P live st' arg spec a where
  parsed := h.parsed
  recorded := h.recorded
  addressable := h.addressable
  counted := h.counted
  pointer := h.pointer
  alive := hkeeps.alive _ h.alive
  inside := Nat.le_trans h.inside hkeeps.size
  filled := by
    obtain ⟨vs, hvs, hread⟩ := h.filled
    exact ⟨vs, hvs, (hkeeps.bytes _ h.alive).trans hread⟩

theorem parseBufferSpec_extent {P : Platform} {arg : Json} {spec : BufferSpec}
    (h : parseBufferSpec P arg = .ok spec) : bufferExtent P arg = .ok (spec.count, spec.values) := by
  unfold parseBufferSpec at h
  split at h
  · cases h
  · split at h
    · cases h
    · split at h
      · cases h
      · split at h
        · cases h
        · rename_i hextent
          split at h
          · cases h
          · cases h
            exact hextent

theorem bufferExtent_counted {P : Platform} (hword : P.sizeBits = 64) {arg : Json} {count : Nat}
    {values : Option (List Json)} (h : bufferExtent P arg = .ok (count, values))
    (hrange : elementCount arg < 2 ^ 64) : count = elementCount arg := by
  unfold bufferExtent at h
  cases hout : arg.find? "out" with
  | some out =>
    rw [hout] at h
    cases out with
    | int n =>
      simp only at h
      split at h
      · simp only [Except.ok.injEq, Prod.mk.injEq] at h
        simp only [elementCount, hout] at hrange ⊢
        rw [← h.1, hword, Nat.mod_eq_of_lt hrange]
      · cases h
    | _ => cases h
  | none =>
    rw [hout] at h
    simp only at h
    split at h
    · rename_i items hitems
      simp only [Except.ok.injEq, Prod.mk.injEq] at h
      simp only [elementCount, hout, hitems, Option.getD_some, Json.elements]
      exact h.1.symm
    · cases h

theorem bindBuffer_holds {g : Guest σ} (honest : HonestAlloc g) {P : Platform}
    (hword : P.sizeBits = 64) {arg : Json} {v : Val} {h h' : Host σ}
    (hrun : ArgumentBinder.bindBuffer P g arg h = (.ok v, h')) :
    ∃ spec a, v = .i32 (BitVec.ofNat 32 a.appPtr) ∧ h'.allocations = h.allocations ++ [a] ∧
      BlockHolds P honest.live h'.store arg spec a ∧ Keeps honest.live h.store h'.store ∧
      h'.vals = h.vals := by
  unfold ArgumentBinder.bindBuffer at hrun
  obtain ⟨spec, h₀, hlift, hbody⟩ := bind_ok_iff.mp hrun
  obtain ⟨hparse, rfl⟩ := lift_ok_iff.mp hlift
  split at hbody
  · cases hbody
  · rename_i haddr
    have hvalid := parseBufferSpec_valid hparse haddr
    have hsize := hvalid.byteSize P
    have hlt := hvalid.bytes_lt
    obtain ⟨ptr, h₁, hplace, hslot⟩ := bind_ok_iff.mp hbody
    cases hslot
    obtain ⟨st, _, ⟨ptr', _, _, halloc⟩ | ⟨reason, halloc⟩⟩ := wasmAlloc_run g (spec.byteSize P) h₀
    · rw [placeBlock_of_alloc (fun _ => rfl) halloc] at hplace
      obtain ⟨hgrant, hpos, hptr, hvals⟩ := honest.wasmAlloc_granted (by rw [hsize]; exact hlt) halloc
      split at hplace
      · obtain ⟨u, h₃, hfill, hptr'⟩ := bind_ok_iff.mp hplace
        cases hptr'
        obtain ⟨vs, hvs, hstore, hvals', hallocs⟩ := fillBuffer_filled hvalid hfill
        have hlen : (image vs).length = spec.byteSize P := by
          rw [image_length, hvs.length hvalid, hsize]
        obtain ⟨hkeeps, halive, hbytes⟩ := hgrant.fill hlen
          (honest.unnoticed _ _ hgrant.alive (image vs) hlen)
        have hstore' : h'.store = st.fill ptr (image vs) := hstore
        refine ⟨spec, ⟨ptr, spec.byteSize P, spec.count, spec.kind, spec.readBack⟩, rfl, hallocs, ?_,
          by rw [hstore']; exact hkeeps, hvals'.trans hvals⟩
        refine ⟨hparse, by rw [← hsize], hlt,
          bufferExtent_counted hword (parseBufferSpec_extent hparse), ⟨hpos, hptr⟩, ?_, ?_, vs, hvs, ?_⟩
        · rw [hstore']
          exact halive
        · rw [hstore']
          exact hgrant.inside
        · rw [hstore']
          exact hbytes
      · cases hplace
    · rw [placeBlock, bind_of_error halloc] at hplace
      cases hplace

/-! ## The whole argument list -/

/-- The slot of a scalar holds its conversion to the kind of the parameter. -/
def ScalarSlot (P : Platform) (j : Json) : ValKind → Val → Prop
  | .i32, .i32 x => j.isNumber = true ∧ ElemIntact P .i32 j x
  | .i64, .i64 x => j.isNumber = true ∧ ElemIntact P .i64 j x
  | .f32, .f32 x => j.isNumber = true ∧ ElemIntact P .f32 j x
  | .f64, .f64 x => j.isNumber = true ∧ ElemIntact P .f64 j x
  | _, _ => False

theorem jsonToVal_slot {P : Platform} {j : Json} {kind : ValKind} {v : Val}
    (h : jsonToVal P j kind = .ok v) : ScalarSlot P j kind v := by
  unfold jsonToVal at h
  split at h
  · rename_i hnumber
    split at h
    · obtain ⟨x, hx, rfl⟩ := map_ok_iff.mp h
      exact ⟨hnumber, elemIntact_of_getElem hx⟩
    · obtain ⟨x, hx, rfl⟩ := map_ok_iff.mp h
      exact ⟨hnumber, elemIntact_of_getElem hx⟩
    · obtain ⟨x, hx, rfl⟩ := map_ok_iff.mp h
      exact ⟨hnumber, elemIntact_of_getElem hx⟩
    · obtain ⟨x, hx, rfl⟩ := map_ok_iff.mp h
      exact ⟨hnumber, elemIntact_of_getElem hx⟩
    · cases h
  · cases h

/-- A bound argument list: a slot for every argument, a block for every buffer argument. -/
inductive RawBound (P : Platform) (live : Store σ → List Block) (st : Store σ) :
    List ValKind → List Json → List Val → List Allocation → Prop
  | nil : RawBound P live st [] [] [] []
  | scalar {kind kinds arg args v vals blocks} (hkind : arg.isObject = false)
      (hslot : ScalarSlot P arg kind v) (rest : RawBound P live st kinds args vals blocks) :
      RawBound P live st (kind :: kinds) (arg :: args) (v :: vals) blocks
  | buffer {kind kinds arg args vals blocks spec a} (hkind : arg.isObject = true)
      (hblock : BlockHolds P live st arg spec a) (rest : RawBound P live st kinds args vals blocks) :
      RawBound P live st (kind :: kinds) (arg :: args) (.i32 (BitVec.ofNat 32 a.appPtr) :: vals)
        (a :: blocks)

/-- A list that agrees with an update up to and including the updated place. -/
theorem split_at_set {A : Type} {l l' : List A} {i : Nat} {a : A} (hlt : i < l.length)
    (h : l'.take (i + 1) = (l.set i a).take (i + 1)) :
    l'.take i = l.take i ∧ l'.drop i = a :: l'.drop (i + 1) := by
  have htake : l'.take (i + 1) = l.take i ++ [a] := by
    rw [h, List.take_succ_eq_append_getElem (by rw [List.length_set]; exact hlt),
      List.getElem_set_self, take_set_of_le _ (Nat.le_refl i)]
  have hsplit : l' = l.take i ++ (a :: l'.drop (i + 1)) := by
    calc l' = l'.take (i + 1) ++ l'.drop (i + 1) := (List.take_append_drop _ _).symm
      _ = l.take i ++ (a :: l'.drop (i + 1)) := by rw [htake, List.append_assoc]; rfl
  have hlen : (l.take i).length = i := List.length_take_of_le (Nat.le_of_lt hlt)
  constructor
  · rw [hsplit, List.take_left' hlen]
  · conv_lhs => rw [hsplit]
    exact List.drop_left' hlen

/-- What the loop over the arguments leaves: the later slots and blocks belong to the later
arguments, and no block placed before has changed. -/
theorem bindArgs_bound {g : Guest σ} (honest : HonestAlloc g) {P : Platform}
    (hword : P.sizeBits = 64) {i : Nat} {kinds : List ValKind} {args : List Json} {h h' : Host σ}
    (hcount : args.length = kinds.length) (hroom : h.vals.length = i + kinds.length)
    (hrun : bindArgs P g i kinds args h = (.ok (), h')) :
    ∃ blocks, h'.allocations = h.allocations ++ blocks ∧ Keeps honest.live h.store h'.store ∧
      h'.vals.length = h.vals.length ∧ h'.vals.take i = h.vals.take i ∧
      RawBound P honest.live h'.store kinds args (h'.vals.drop i) blocks := by
  induction kinds generalizing i args h with
  | nil =>
    have hargs : args = [] := List.length_eq_zero_iff.mp hcount
    subst hargs
    cases hrun
    refine ⟨[], (List.append_nil _).symm, Keeps.refl _ _, rfl, rfl, ?_⟩
    have hend : h'.vals.drop i = [] := List.drop_eq_nil_of_le (by rw [hroom]; exact Nat.le_refl _)
    rw [hend]
    exact .nil
  | cons kind kinds ih =>
    cases args with
    | nil => cases hcount
    | cons arg args =>
      rw [bindArgs] at hrun
      obtain ⟨v, h₁, hvalue, hbody⟩ := bind_ok_iff.mp hrun
      rw [mapFault_ok_iff] at hvalue
      obtain ⟨u, h₂, hset, hloop⟩ := bind_ok_iff.mp hbody
      simp only [setSlot, Proc.modify, Prod.mk.injEq, true_and] at hset
      subst hset
      have hlength : (kind :: kinds).length = kinds.length + 1 := rfl
      rw [hlength] at hroom
      -- The rest of the loop keeps the slot and the block of this argument.
      have hfinish (hvals : h₁.vals = h.vals) (hkeeps : Keeps honest.live h.store h₁.store)
          {added : List Allocation} (hadded : h₁.allocations = h.allocations ++ added) :
          ∃ blocks, h'.allocations = h.allocations ++ (added ++ blocks) ∧
            Keeps honest.live h.store h'.store ∧ h'.vals.length = h.vals.length ∧
            h'.vals.take i = h.vals.take i ∧ h'.vals.drop i = v :: h'.vals.drop (i + 1) ∧
            Keeps honest.live h₁.store h'.store ∧
            RawBound P honest.live h'.store kinds args (h'.vals.drop (i + 1)) blocks := by
        obtain ⟨blocks, hblocks, hrest, hlen, htake, hbound⟩ := ih
          (Nat.succ.inj hcount) (by rw [List.length_set, hvals, hroom]; omega) hloop
        simp only [hvals] at hlen htake
        obtain ⟨hbefore, hafter⟩ := split_at_set (by omega) htake
        refine ⟨blocks, ?_, hkeeps.trans hrest, by rw [hlen, List.length_set], hbefore, hafter, hrest,
          hbound⟩
        rw [hblocks, hadded, List.append_assoc]
      by_cases hobject : arg.isObject = true
      · rw [if_pos hobject] at hvalue
        obtain ⟨spec, a, rfl, hadded, hblock, hkeeps, hvals⟩ := bindBuffer_holds honest hword hvalue
        obtain ⟨blocks, hblocks, hall, hlen, htake, hdrop, hrest, hbound⟩ := hfinish hvals hkeeps hadded
        refine ⟨a :: blocks, hblocks, hall, hlen, htake, ?_⟩
        rw [hdrop]
        exact .buffer hobject (hblock.keeps hrest) hbound
      · rw [if_neg hobject] at hvalue
        obtain ⟨hval, rfl⟩ := lift_ok_iff.mp hvalue
        obtain ⟨blocks, hblocks, hall, hlen, htake, hdrop, hrest, hbound⟩ :=
          hfinish rfl (Keeps.refl _ _) (List.append_nil _).symm
        refine ⟨blocks, hblocks, hall, hlen, htake, ?_⟩
        rw [hdrop]
        exact .scalar (Bool.not_eq_true _ ▸ hobject) (jsonToVal_slot hval) hbound

theorem bind_bound {g : Guest σ} (honest : HonestAlloc g) {P : Platform} (hword : P.sizeBits = 64)
    {func : Func} {args : List Json} {h h' : Host σ} (hfresh : h.allocations = [])
    (hrun : ArgumentBinder.bind P g func args h = (.ok (), h')) :
    RawBound P honest.live h'.store func.type.params args h'.vals h'.allocations := by
  unfold ArgumentBinder.bind at hrun
  split at hrun
  · cases hrun
  · rename_i hcount
    obtain ⟨u, h₁, hvals, hloop⟩ := bind_ok_iff.mp hrun
    cases hvals
    obtain ⟨blocks, hblocks, _, _, _, hbound⟩ := bindArgs_bound honest hword (not_not.mp hcount)
      (by rw [List.length_replicate, Nat.zero_add]) hloop
    rw [hfresh, List.nil_append] at hblocks
    rw [hblocks]
    exact hbound

/-! ## The outputs -/

theorem readBlocks_values {P : Platform} {blocks : List Allocation} {h : Host σ}
    (hin : ∀ a ∈ blocks, a.appPtr < h.store.mem.size) :
    ∃ h', readBlocks P blocks h = (.ok ((blocks.filter Allocation.readBack).map fun a =>
      .arr (readValues P a.kind h.store.mem a.appPtr 0 a.count)), h') := by
  induction blocks generalizing h with
  | nil => exact ⟨h, rfl⟩
  | cons a rest ih =>
    obtain ⟨hhead, htail⟩ := List.forall_mem_cons.mp hin
    by_cases hread : a.readBack = true
    · have hptr : nativePtr a.appPtr h = (.ok true, h) := by simp [nativePtr, hhead]
      have hvalues := readElems_run P a.kind a.appPtr 0 a.count h
      obtain ⟨h', hrest⟩ := ih (h :=
        { h with log := h.log ++ readEvents P a.kind a.appPtr h.store.mem.size 0 a.count }) htail
      refine ⟨h', ?_⟩
      rw [readBlocks, if_pos hread, bind_of_ok hptr, if_pos rfl, bind_of_ok hvalues, bind_of_ok hrest,
        List.filter_cons_of_pos hread]
      rfl
    · obtain ⟨h', hrest⟩ := ih htail
      refine ⟨h', ?_⟩
      rw [readBlocks, if_neg hread, List.filter_cons_of_neg hread]
      exact hrest

/-- One array for every `out` or `inout` argument, in their order: as many elements as the
argument has, and those that lie in its block. -/
inductive RawOutputs (P : Platform) (m : LinearMemory) :
    List Json → List Allocation → List Json → Prop
  | nil : RawOutputs P m [] [] []
  | scalar {arg args blocks outputs} (hkind : arg.isObject = false)
      (rest : RawOutputs P m args blocks outputs) : RawOutputs P m (arg :: args) blocks outputs
  | input {arg args a blocks outputs spec} (hkind : arg.isObject = true)
      (hspec : parseBufferSpec P arg = .ok spec) (hread : spec.readBack = false)
      (rest : RawOutputs P m args blocks outputs) : RawOutputs P m (arg :: args) (a :: blocks) outputs
  | output {arg args a blocks outputs spec} (hkind : arg.isObject = true)
      (hspec : parseBufferSpec P arg = .ok spec) (hread : spec.readBack = true)
      {vs : List (Elem spec.kind)} (hcount : vs.length = spec.count)
      (hbytes : m.read a.appPtr (spec.count * spec.kind.size) = image vs)
      (rest : RawOutputs P m args blocks outputs) :
      RawOutputs P m (arg :: args) (a :: blocks) (.arr (vs.map elemToJson) :: outputs)

def wrapInt (k : ElemKind) (n : Int) : Int :=
  if k.isSigned then n.bmod (2 ^ k.bits) else n % 2 ^ k.bits

def zeroElem (k : ElemKind) : Json := if k.isFloat then .float 0 else .int 0

/-- The document an array element reads back as: an integer modulo its width, a float as
the bit pattern it was converted to. -/
def ReadsBack (P : Platform) (k : ElemKind) (j out : Json) : Prop :=
  (∃ v, getElem P k j = .ok v ∧ out = elemToJson v) ∧
    (k.isFloat = false → ∀ n, j = .int n → out = .int (wrapInt k n))

/-- The outputs of a callee that leaves memory as it found it. -/
inductive UnchangedOutputs (P : Platform) : List Json → List Json → Prop
  | nil : UnchangedOutputs P [] []
  | scalar {arg args outputs} (hkind : arg.isObject = false) (rest : UnchangedOutputs P args outputs) :
      UnchangedOutputs P (arg :: args) outputs
  | input {arg args outputs spec} (hkind : arg.isObject = true)
      (hspec : parseBufferSpec P arg = .ok spec) (hread : spec.readBack = false)
      (rest : UnchangedOutputs P args outputs) : UnchangedOutputs P (arg :: args) outputs
  | inout {arg args outputs spec values out} (hkind : arg.isObject = true)
      (hspec : parseBufferSpec P arg = .ok spec) (hread : spec.readBack = true)
      (hvalues : spec.values = some values) (hout : List.Forall₂ (ReadsBack P spec.kind) values out)
      (rest : UnchangedOutputs P args outputs) :
      UnchangedOutputs P (arg :: args) (.arr out :: outputs)
  | out {arg args outputs spec} (hkind : arg.isObject = true)
      (hspec : parseBufferSpec P arg = .ok spec) (hread : spec.readBack = true)
      (hvalues : spec.values = none) (rest : UnchangedOutputs P args outputs) :
      UnchangedOutputs P (arg :: args)
        (.arr (List.replicate spec.count (zeroElem spec.kind)) :: outputs)

theorem elemToJson_ofInt {k : ElemKind} (hk : k.isFloat = false) (n : Int) :
    elemToJson (BitVec.ofInt k.bits n : Elem k) = .int (wrapInt k n) := by
  have hsigned : (BitVec.ofInt k.bits n).toInt = n.bmod (2 ^ k.bits) := BitVec.toInt_ofInt _
  have hunsigned : ((BitVec.ofInt k.bits n).toNat : Int) = n % 2 ^ k.bits := by
    have hword : ((2 ^ k.bits : Nat) : Int) ≠ 0 :=
      Int.natCast_ne_zero.mpr (Nat.ne_of_gt (Nat.two_pow_pos _))
    rw [BitVec.toNat_ofInt, Int.toNat_of_nonneg (Int.emod_nonneg _ hword)]
    push_cast
    rfl
  cases k with
  | f64 | f32 => cases hk
  | i32 | i64 | i8 | i16 => exact congrArg Json.int hsigned
  | u32 | u64 | u8 | u16 => exact congrArg Json.int hunsigned

theorem elemToJson_zero (k : ElemKind) : elemToJson (0 : Elem k) = zeroElem k := by
  cases k <;> rfl

theorem readsBack_of_intact {P : Platform} {k : ElemKind} {j : Json} {v : Elem k}
    (h : ElemIntact P k j v) : ReadsBack P k j (elemToJson v) := by
  refine ⟨⟨v, h.1, rfl⟩, fun hk n hj => ?_⟩
  rw [h.2 hk n hj, elemToJson_ofInt hk]

theorem BlockHolds.valid {P : Platform} {live : Store σ → List Block} {st : Store σ} {arg : Json}
    {spec : BufferSpec} {a : Allocation} (h : BlockHolds P live st arg spec a) : spec.Valid := by
  have hlt := h.addressable
  refine parseBufferSpec_valid h.parsed (Nat.not_lt_of_le ?_)
  rw [Nat.le_div_iff_mul_le spec.kind.size_pos]
  omega

/-- The elements in a block, whatever its bytes have become. -/
def elementsIn (m : LinearMemory) (k : ElemKind) (off n : Nat) : List (Elem k) :=
  (m.chunks off k.size n).map (decodeElem k)

theorem elementsIn_image (m : LinearMemory) (k : ElemKind) (off n : Nat) :
    m.read off (n * k.size) = image (elementsIn m k off n) := by
  rw [← Memory.chunks_flatten, image, elementsIn, List.map_map]
  congr 1
  calc m.chunks off k.size n = (m.chunks off k.size n).map id := (List.map_id _).symm
    _ = (m.chunks off k.size n).map (encodeElem ∘ decodeElem k) := by
      apply List.map_congr_left
      intro r hr
      obtain ⟨i, _, rfl⟩ := List.mem_map.mp hr
      exact (encode_decode (Memory.read_length _ _ _)).symm

theorem readValues_elements {P : Platform} {m : LinearMemory} {k : ElemKind} {off n : Nat}
    (hsmall : n * k.size ≤ 2 ^ 32) :
    readValues P k m off 0 n = (elementsIn m k off n).map elemToJson := by
  rw [readValues_eq_chunks P k m hsmall, elementsIn, List.map_map]
  rfl

/-- In the memory it was bound in, a block reads as what it was filled with. -/
theorem BlockHolds.elements_filled {P : Platform} {live : Store σ → List Block} {st : Store σ}
    {arg : Json} {spec : BufferSpec} {a : Allocation} (h : BlockHolds P live st arg spec a) :
    ∃ vs, Filling P spec vs ∧ elementsIn st.mem spec.kind a.appPtr spec.count = vs := by
  obtain ⟨vs, hfilling, hbytes⟩ := h.filled
  refine ⟨vs, hfilling, ?_⟩
  have hsize : a.byteSize = vs.length * spec.kind.size := by
    rw [hfilling.length h.valid, h.recorded]
  rw [hsize] at hbytes
  rw [← hfilling.length h.valid]
  exact decode_chunks_of_image hbytes

/-- The outputs follow the bound arguments, and unchanged blocks read back what was put in. -/
theorem RawBound.outputs {P : Platform} {live : Store σ → List Block} {st : Store σ}
    {kinds : List ValKind} {args : List Json} {vals : List Val} {blocks : List Allocation}
    (h : RawBound P live st kinds args vals blocks) {m : LinearMemory}
    (hsize : st.mem.size ≤ m.size) :
    (∀ a ∈ blocks, a.appPtr < m.size) ∧
      RawOutputs P m args blocks ((blocks.filter Allocation.readBack).map fun a =>
        .arr (readValues P a.kind m a.appPtr 0 a.count)) ∧
      (m = st.mem → UnchangedOutputs P args ((blocks.filter Allocation.readBack).map fun a =>
        .arr (readValues P a.kind m a.appPtr 0 a.count))) := by
  induction h with
  | nil => exact ⟨by simp, .nil, fun _ => .nil⟩
  | scalar hkind hslot rest ih =>
    obtain ⟨hin, houtputs, hsame⟩ := ih
    exact ⟨hin, .scalar hkind houtputs, fun hm => .scalar hkind (hsame hm)⟩
  | @buffer kind kinds arg args vals blocks spec a hkind hblock rest ih =>
    obtain ⟨hin, houtputs, hsame⟩ := ih
    have hvalid := hblock.valid
    have hlt := hblock.addressable
    have hrecord := hblock.recorded
    have hreadBack : a.readBack = spec.readBack := congrArg Allocation.readBack hrecord
    have hhead : a.appPtr < m.size := by
      have hinside := hblock.inside
      have hpos := Nat.mul_pos hvalid.pos spec.kind.size_pos
      rw [hrecord] at hinside
      simp only [Block.stop, Allocation.block] at hinside
      omega
    refine ⟨List.forall_mem_cons.mpr ⟨hhead, hin⟩, ?_⟩
    cases hread : spec.readBack with
    | false =>
      have hskip : ¬ a.readBack = true := by
        rw [hreadBack, hread]
        exact Bool.false_ne_true
      rw [List.filter_cons_of_neg hskip]
      exact ⟨.input hkind hblock.parsed hread houtputs,
        fun hm => .input hkind hblock.parsed hread (hsame hm)⟩
    | true =>
      have hkeep : a.readBack = true := hreadBack.trans hread
      have hvalues : readValues P a.kind m a.appPtr 0 a.count =
          (elementsIn m spec.kind a.appPtr spec.count).map elemToJson := by
        rw [hrecord]
        exact readValues_elements (Nat.le_of_lt hlt)
      have hcount : (elementsIn m spec.kind a.appPtr spec.count).length = spec.count := by
        rw [elementsIn, List.length_map, Memory.chunks_length]
      rw [List.filter_cons_of_pos hkeep, List.map_cons, hvalues]
      refine ⟨.output hkind hblock.parsed hread hcount (elementsIn_image m spec.kind a.appPtr _) houtputs,
        fun hm => ?_⟩
      obtain ⟨vs, hfilling, helements⟩ := hblock.elements_filled
      rw [← hm] at helements
      rw [helements]
      cases hfilling with
      | copied hvals hvs =>
        refine .inout hkind hblock.parsed hread hvals ?_ (hsame hm)
        rw [List.forall₂_map_right_iff]
        exact hvs.imp fun _ _ => readsBack_of_intact
      | zeroed hvals =>
        rw [List.map_replicate, elemToJson_zero]
        exact .out hkind hblock.parsed hread hvals (hsame hm)

def mixFunc : Func := ⟨"mix", ⟨[.i32, .i64, .i32, .i32], []⟩⟩

def mixArgs : List Json :=
  [.obj [("inout", .arr [.int 258, .int (-1)]), ("type", .str "u16")], .int 7,
    .obj [("in", .arr [.int (-3)]), ("type", .str "i8")], .obj [("out", .int 2)]]

def mixRun : Except Fault Unit × Host Rust.Arena :=
  ArgumentBinder.bind default Rust.joinModule.guest mixFunc mixArgs Rust.joinHost

theorem mixRun_ok : mixRun = (.ok (), mixRun.2) := run_eq_of_isOk (by decide +kernel)

end CrossNative
