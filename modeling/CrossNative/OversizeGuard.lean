import CrossNative.Binding
import CrossNative.Rust.Arena

/-!
# The size check of an output buffer

`{"out": c}` names a count by a 64-bit number. The count is narrowed to a `size_t` before
it is compared, and the product with the element size to 32 bits after. A guest that keeps
a record of its calls shows what the module was really asked for.
-/

namespace CrossNative

set_option autoImplicit false

open Basis Proc

variable {σ : Type}

abbrev Calls := List (String × List Val)

/-- The same module, with the calls of its exports recorded. -/
def Guest.recorded (g : Guest σ) : Guest (σ × Calls) where
  exports := g.exports
  run name args st :=
    let (reply, st') := g.run name args ⟨st.guest.1, st.mem⟩
    (reply, ⟨(st'.guest, st.guest.2 ++ [(name, args)]), st'.mem⟩)
  grows name args st := g.grows name args ⟨st.guest.1, st.mem⟩

def Host.calls (h : Host (σ × Calls)) : Calls := h.store.guest.2

/-- A call of `cn_alloc` gets through to the module. -/
def Guest.CanAllocate (g : Guest σ) : Prop :=
  ∃ func, g.lookup kAllocFn = some func ∧ func.type.params.length = 1 ∧ func.type.results.length = 1

/-- The binder refuses the buffer without asking the module, or it asks for exactly the bytes
that `count` elements take and records that many. -/
inductive ExactRequest (P : Platform) (g : Guest σ) (count : Nat) (k : ElemKind) (arg : Json)
    (h : Host (σ × Calls)) : Prop
  | refused {fault : Fault} (reply : (ArgumentBinder.bindBuffer P g.recorded arg h).1 = .error fault)
      (calls : (ArgumentBinder.bindBuffer P g.recorded arg h).2.calls = h.calls)
      (blocks : (ArgumentBinder.bindBuffer P g.recorded arg h).2.allocations = h.allocations)
  | requested (small : count * k.size < 2 ^ 32)
      (calls : (ArgumentBinder.bindBuffer P g.recorded arg h).2.calls =
        h.calls ++ [(kAllocFn, [.i32 (BitVec.ofNat 32 (count * k.size))])])
      (blocks : ∃ new,
        (ArgumentBinder.bindBuffer P g.recorded arg h).2.allocations = h.allocations ++ new ∧
          (∀ a ∈ new, a.count = count ∧ a.byteSize = count * k.size) ∧
          ((ArgumentBinder.bindBuffer P g.recorded arg h).1.isOk = true → new ≠ []))

/-! ## What reaches the module -/

theorem wasmAlloc_calls {g : Guest σ} (hcan : g.CanAllocate) (size : Nat) (h : Host (σ × Calls)) :
    (wasmAlloc g.recorded size h).2.calls =
      h.calls ++ [(kAllocFn, [.i32 (BitVec.ofNat 32 size)])] := by
  obtain ⟨func, hlookup, hparams, hresults⟩ := hcan
  have hname : func.name = kAllocFn := by
    obtain ⟨type, _, rfl⟩ := Option.map_eq_some_iff.mp hlookup
    rfl
  have hsame : g.recorded.lookup kAllocFn = some func := hlookup
  unfold wasmAlloc
  rw [hsame]
  have hcall : ∃ reply st, callWasmA g.recorded func 1 [.i32 (BitVec.ofNat 32 size)] h =
      (.ok reply, { h with store := st }) ∧
        st.guest.2 = h.calls ++ [(kAllocFn, [.i32 (BitVec.ofNat 32 size)])] := by
    unfold callWasmA
    rw [if_neg (by simp [hresults]), if_neg (by simp [hparams]), hname]
    cases hrun : g.run kAllocFn [.i32 (BitVec.ofNat 32 size)] ⟨h.store.guest.1, h.store.mem⟩ with
    | mk reply st =>
      have hrec : g.recorded.run kAllocFn [.i32 (BitVec.ofNat 32 size)] h.store =
          (reply, ⟨(st.guest, h.calls ++ [(kAllocFn, [.i32 (BitVec.ofNat 32 size)])]), st.mem⟩) := by
        simp only [Guest.recorded, hrun, Host.calls]
      rw [hrec]
      cases reply with
      | error exc => exact ⟨_, _, rfl, rfl⟩
      | ok cells => exact ⟨_, _, rfl, rfl⟩
  obtain ⟨reply, st, hcall, hcalls⟩ := hcall
  simp only [bind_of_ok hcall]
  cases reply with
  | error exc => exact hcalls
  | ok rets =>
    simp only
    split
    · exact hcalls
    · exact hcalls

theorem wasmAlloc_of_unreachable {g : Guest σ} (hcannot : ¬ g.CanAllocate) (size : Nat)
    (h : Host (σ × Calls)) : ∃ fault, wasmAlloc g.recorded size h = (.error fault, h) := by
  unfold wasmAlloc
  cases hlookup : g.recorded.lookup kAllocFn with
  | none => exact ⟨_, rfl⟩
  | some func =>
    have hcall : callWasmA g.recorded func 1 [.i32 (BitVec.ofNat 32 size)] h =
        (.ok (.error none), h) := by
      unfold callWasmA
      by_cases hresults : 1 ≠ func.type.results.length
      · rw [if_pos hresults]
      · rw [if_neg hresults]
        by_cases hparams : [Val.i32 (BitVec.ofNat 32 size)].length ≠ func.type.params.length
        · rw [if_pos hparams]
        · exact absurd ⟨func, hlookup, (not_not.mp hparams).symm, (not_not.mp hresults).symm⟩ hcannot
    simp only [bind_of_ok hcall]
    exact ⟨_, rfl⟩

/-- Filling happens in memory: the module does not run, and no block is added. -/
def KeepsGuest (p : HostProc σ Unit) : Prop :=
  ∀ h, (p h).2.store.guest = h.store.guest ∧ (p h).2.allocations = h.allocations

theorem fillElems_keepsGuest (P : Platform) (k : ElemKind) (mem e : Nat) (values : List Json) :
    KeepsGuest (σ := σ) (fillElems P k mem e values) := by
  induction values generalizing e with
  | nil => exact fun _ => ⟨rfl, rfl⟩
  | cons value rest ih =>
    intro h
    cases hwrite : writeElem P k value with
    | error fault =>
      have hrun : fillElems P k mem e (value :: rest) h = (.error fault, h) := by
        rw [fillElems, hwrite]
        rfl
      rw [hrun]
      exact ⟨rfl, rfl⟩
    | ok bs =>
      have hrun : fillElems P k mem e (value :: rest) h =
          fillElems P k mem (e + 1) rest (writeBytes (mem + e * k.size) bs h).2 := by
        rw [fillElems, hwrite]
        rfl
      rw [hrun]
      exact ih (e + 1) _

theorem fillBuffer_keepsGuest (P : Platform) (spec : BufferSpec) (mem : Nat) :
    KeepsGuest (σ := σ) (fillBuffer P spec mem) := by
  unfold fillBuffer
  split
  · exact fillElems_keepsGuest P _ _ _ _
  · exact fun _ => ⟨rfl, rfl⟩

/-- Placing a block runs the module once, to allocate; what it records is described. -/
theorem placeBlock_calls (g : Guest σ) (size : Nat) (describe : Nat → Allocation) (touched : Nat)
    {fill : Nat → HostProc σ Unit} (hdescribe : ∀ p, (describe p).appPtr = p)
    (hfill : ∀ p, KeepsGuest (fill p)) (h : Host σ) :
    (placeBlock g size describe touched fill h).2.store.guest =
        (wasmAlloc g size h).2.store.guest ∧
      ∃ new, (placeBlock g size describe touched fill h).2.allocations = h.allocations ++ new ∧
        (∀ a ∈ new, ∃ p, a = describe p) ∧
        ((placeBlock g size describe touched fill h).1.isOk = true → new ≠ []) := by
  obtain ⟨st, _, ⟨ptr, _, _, halloc⟩ | ⟨reason, halloc⟩⟩ := wasmAlloc_run g size h
  · have hrun : ∃ reply h', placeBlock g size describe touched fill h = (reply, h') ∧
        h'.store.guest = st.guest ∧ h'.allocations = h.allocations ++ [describe ptr] := by
      rw [placeBlock_of_alloc hdescribe halloc]
      split
      · obtain ⟨hguest, hblocks⟩ := hfill ptr (h.placed st (describe ptr) size touched)
        cases hcase : fill ptr (h.placed st (describe ptr) size touched) with
        | mk reply h' =>
          rw [hcase] at hguest hblocks
          cases reply with
          | error fault => exact ⟨_, _, bind_of_error hcase, hguest, hblocks⟩
          | ok u => exact ⟨_, _, bind_of_ok hcase, hguest, hblocks⟩
      · exact ⟨_, _, rfl, rfl, rfl⟩
    obtain ⟨reply, h', hrun, hguest, hblocks⟩ := hrun
    rw [hrun, halloc]
    refine ⟨hguest, [describe ptr], hblocks, ?_, fun _ => List.cons_ne_nil _ _⟩
    intro a ha
    exact ⟨ptr, List.mem_singleton.mp ha⟩
  · have hrun : placeBlock g size describe touched fill h =
        (.error (.error reason), { h with store := st }) := by
      rw [placeBlock, bind_of_error halloc]
    rw [hrun, halloc]
    exact ⟨rfl, [], (List.append_nil _).symm, by simp, fun hok => by cases hok⟩

/-! ## The count of an output buffer -/

def outSpec (k : ElemKind) (count : Nat) : BufferSpec := ⟨k, count, none, true⟩

theorem parseBufferSpec_out {P : Platform} {arg : Json} {type : String} {k : ElemKind} {count : Nat}
    (hout : arg.find? "out" = some (.int count)) (htype : arg.valueString "type" "f64" = .ok type)
    (hkind : parseElemKind type = some k) :
    parseBufferSpec P arg =
      if count % 2 ^ P.sizeBits = 0 then .error (.error "buffer argument is empty")
      else .ok (outSpec k (count % 2 ^ P.sizeBits)) := by
  have hcontains : arg.contains "out" = true := by rw [Json.contains, hout]; rfl
  have hextent : bufferExtent P arg = .ok (count % 2 ^ P.sizeBits, none) := by
    simp only [bufferExtent, hout, Int.natCast_nonneg, if_true, Int.toNat_natCast]
  unfold parseBufferSpec
  simp only [hcontains, Bool.not_true, Bool.and_false, Bool.false_and, Bool.false_eq_true, if_false,
    htype, hkind, hextent, Bool.true_or, outSpec]

section Out

variable {P : Platform} {g : Guest σ} {h : Host (σ × Calls)} {arg : Json} {type : String}
  {k : ElemKind} {count : Nat}

/-- The check is made on the narrowed count. -/
theorem bindBuffer_refuses (hout : arg.find? "out" = some (.int count))
    (htype : arg.valueString "type" "f64" = .ok type) (hkind : parseElemKind type = some k)
    (hbad : count % 2 ^ P.sizeBits = 0 ∨ 0xFFFFFFFF / k.size < count % 2 ^ P.sizeBits) :
    ∃ fault, ArgumentBinder.bindBuffer P g.recorded arg h = (.error fault, h) := by
  have hparse := parseBufferSpec_out (P := P) hout htype hkind
  by_cases hzero : count % 2 ^ P.sizeBits = 0
  · rw [if_pos hzero] at hparse
    exact ⟨_, by rw [ArgumentBinder.bindBuffer, hparse]; rfl⟩
  · rw [if_neg hzero] at hparse
    have hlarge : (outSpec k (count % 2 ^ P.sizeBits)).count >
        0xFFFFFFFF / (outSpec k (count % 2 ^ P.sizeBits)).kind.size := hbad.resolve_left hzero
    rw [ArgumentBinder.bindBuffer, hparse]
    exact ⟨_, congrFun (if_pos hlarge) h⟩

/-- Otherwise the module is asked for the product with the narrowed count. -/
theorem bindBuffer_requests (hcan : g.CanAllocate) (hout : arg.find? "out" = some (.int count))
    (htype : arg.valueString "type" "f64" = .ok type) (hkind : parseElemKind type = some k)
    (hpos : count % 2 ^ P.sizeBits ≠ 0) (hfits : count % 2 ^ P.sizeBits ≤ 0xFFFFFFFF / k.size) :
    (ArgumentBinder.bindBuffer P g.recorded arg h).2.calls =
        h.calls ++ [(kAllocFn, [.i32 (BitVec.ofNat 32 (count % 2 ^ P.sizeBits * k.size))])] ∧
      ∃ new,
        (ArgumentBinder.bindBuffer P g.recorded arg h).2.allocations = h.allocations ++ new ∧
          (∀ a ∈ new, a.count = count % 2 ^ P.sizeBits ∧
            a.byteSize = count % 2 ^ P.sizeBits * k.size) ∧
          ((ArgumentBinder.bindBuffer P g.recorded arg h).1.isOk = true → new ≠ []) := by
  have hparse := parseBufferSpec_out (P := P) hout htype hkind
  rw [if_neg hpos] at hparse
  have haddr : ¬ (outSpec k (count % 2 ^ P.sizeBits)).count >
      0xFFFFFFFF / (outSpec k (count % 2 ^ P.sizeBits)).kind.size := Nat.not_lt.mpr hfits
  have hvalid := parseBufferSpec_valid hparse haddr
  have hsize := hvalid.byteSize P
  let spec := outSpec k (count % 2 ^ P.sizeBits)
  let placed := placeBlock g.recorded (spec.byteSize P)
    (fun appPtr => ⟨appPtr, spec.byteSize P, spec.count, spec.kind, spec.readBack⟩) (spec.touched P)
    (fillBuffer P spec) h
  have hplaced : (ArgumentBinder.bindBuffer P g.recorded arg h).2 = placed.2 ∧
      (ArgumentBinder.bindBuffer P g.recorded arg h).1.isOk = placed.1.isOk := by
    have hrun : ArgumentBinder.bindBuffer P g.recorded arg h =
        (placeBlock g.recorded (spec.byteSize P)
          (fun appPtr => ⟨appPtr, spec.byteSize P, spec.count, spec.kind, spec.readBack⟩)
          (spec.touched P) (fillBuffer P spec) >>= fun appPtr =>
            pure (.i32 (BitVec.ofNat 32 appPtr))) h := by
      rw [ArgumentBinder.bindBuffer, hparse]
      exact congrFun (if_neg haddr) h
    rw [hrun]
    cases hcase : placed with
    | mk reply h' =>
      cases reply with
      | error fault => rw [bind_of_error hcase]; exact ⟨rfl, rfl⟩
      | ok ptr => rw [bind_of_ok hcase]; exact ⟨rfl, rfl⟩
  obtain ⟨hguest, new, hblocks, hnew, hok⟩ := placeBlock_calls g.recorded (spec.byteSize P)
    (fun appPtr => ⟨appPtr, spec.byteSize P, spec.count, spec.kind, spec.readBack⟩)
    (spec.touched P) (fun _ => rfl) (fillBuffer_keepsGuest P spec) h
  rw [hplaced.1, hplaced.2]
  refine ⟨?_, new, hblocks, ?_, hok⟩
  · calc placed.2.calls = (wasmAlloc g.recorded (spec.byteSize P) h).2.calls := congrArg Prod.snd hguest
      _ = _ := wasmAlloc_calls hcan _ h
      _ = _ := by rw [hsize]; rfl
  · intro a ha
    obtain ⟨p, rfl⟩ := hnew a ha
    exact ⟨rfl, hsize⟩

theorem bindBuffer_unreachable (hcannot : ¬ g.CanAllocate)
    (hout : arg.find? "out" = some (.int count)) (htype : arg.valueString "type" "f64" = .ok type)
    (hkind : parseElemKind type = some k) :
    ∃ fault, ArgumentBinder.bindBuffer P g.recorded arg h = (.error fault, h) := by
  by_cases hbad : count % 2 ^ P.sizeBits = 0 ∨ 0xFFFFFFFF / k.size < count % 2 ^ P.sizeBits
  · exact bindBuffer_refuses hout htype hkind hbad
  · have hparse := parseBufferSpec_out (P := P) hout htype hkind
    rw [if_neg fun hzero => hbad (Or.inl hzero)] at hparse
    have haddr : ¬ (outSpec k (count % 2 ^ P.sizeBits)).count >
        0xFFFFFFFF / (outSpec k (count % 2 ^ P.sizeBits)).kind.size := fun hlarge =>
      hbad (Or.inr hlarge)
    obtain ⟨fault, halloc⟩ := wasmAlloc_of_unreachable hcannot
      ((outSpec k (count % 2 ^ P.sizeBits)).byteSize P) h
    refine ⟨fault, ?_⟩
    rw [ArgumentBinder.bindBuffer, hparse]
    refine (congrFun (if_neg haddr) h).trans ?_
    exact bind_of_error (bind_of_error halloc)

/-- A 64-bit count survives the narrowing to `size_t`, or is refused in its narrowed form. -/
def CountKept (P : Platform) (count : Nat) (k : ElemKind) : Prop :=
  P.sizeBits = 64 ∨ count < 2 ^ 32 ∨ count % 2 ^ 32 = 0 ∨ 0xFFFFFFFF / k.size < count % 2 ^ 32

/-- The check is exact on a 64-bit host; on a 32-bit host a count of `2 ^ 32` or more passes it
whenever what is left of the count is small. -/
theorem exactRequest_iff (hcount : count < 2 ^ 64) (hout : arg.find? "out" = some (.int count))
    (htype : arg.valueString "type" "f64" = .ok type) (hkind : parseElemKind type = some k) :
    ExactRequest P g count k arg h ↔ (g.CanAllocate → CountKept P count k) := by
  have hnarrow : P.sizeBits = 64 ∨ count < 2 ^ 32 → count % 2 ^ P.sizeBits = count := by
    intro hsmall
    apply Nat.mod_eq_of_lt
    rcases P.sizeBits_cases with hword | hword
    · rw [hword] at hsmall ⊢
      exact hsmall.resolve_left (by decide)
    · rw [hword]
      exact hcount
  constructor
  · intro hexact hcan
    by_contra hlost
    have hword : P.sizeBits = 32 := P.sizeBits_cases.resolve_right fun hw => hlost (Or.inl hw)
    simp only [CountKept, not_or, Nat.not_lt] at hlost
    obtain ⟨_, hlarge, hpos, hfits⟩ := hlost
    rw [← hword] at hpos hfits
    obtain ⟨hcalls, _⟩ := bindBuffer_requests (h := h) hcan hout htype hkind hpos hfits
    cases hexact with
    | refused _ hnone _ =>
      rw [hnone] at hcalls
      exact List.cons_ne_nil _ _ (List.self_eq_append_right.mp hcalls)
    | requested hsmall _ _ =>
      have := Nat.le_mul_of_pos_right count k.size_pos
      omega
  · intro hkept
    by_cases hcan : g.CanAllocate
    · by_cases hbad : count % 2 ^ P.sizeBits = 0 ∨ 0xFFFFFFFF / k.size < count % 2 ^ P.sizeBits
      · obtain ⟨fault, hrun⟩ := bindBuffer_refuses (P := P) (g := g) (h := h) hout htype hkind hbad
        exact .refused (by rw [hrun]) (by rw [hrun]) (by rw [hrun])
      · have hsame : count % 2 ^ P.sizeBits = count := by
          apply hnarrow
          rcases hkept hcan with hword | hsmall | hnarrowed
          · exact Or.inl hword
          · exact Or.inr hsmall
          · rcases P.sizeBits_cases with hword | hword
            · rw [hword] at hbad
              exact absurd hnarrowed hbad
            · exact Or.inl hword
        obtain ⟨hpos, hfits⟩ := not_or.mp hbad
        obtain ⟨hcalls, hblocks⟩ :=
          bindBuffer_requests (h := h) hcan hout htype hkind hpos (Nat.not_lt.mp hfits)
        rw [hsame] at hcalls hblocks hfits
        refine .requested ?_ hcalls hblocks
        have := Nat.mul_le_of_le_div _ _ _ (Nat.not_lt.mp hfits)
        omega
    · obtain ⟨fault, hrun⟩ := bindBuffer_unreachable (P := P) (h := h) hcan hout htype hkind
      exact .refused (by rw [hrun]) (by rw [hrun]) (by rw [hrun])

end Out

def armv7 : Platform := ⟨32, Or.inl rfl, fun _ _ => 0⟩

def guardHost : Host (Rust.Arena × Calls) :=
  Host.start ⟨((Rust.arenaStore 64 Rust.sampleMemory_le).guest, []),
    ⟨64, Rust.sampleMemory_le, fun _ => 0⟩⟩

theorem exactRequest_iff_armv7 :
    ExactRequest armv7 Rust.joinModule.guest 3 .u16
        (.obj [("out", .int 3), ("type", .str "u16")]) guardHost ↔
      (Rust.joinModule.guest.CanAllocate → CountKept armv7 3 .u16) := by
  have hout : (Json.obj [("out", .int 3), ("type", .str "u16")]).find? "out" =
      some (.int (3 : Nat)) := rfl
  have htype : (Json.obj [("out", .int 3), ("type", .str "u16")]).valueString "type" "f64" =
      .ok "u16" := rfl
  exact exactRequest_iff (by decide) hout htype rfl

def hugeOut : Json := .obj [("out", .int 4294967297)]

/-- On a 32-bit host a request for `2 ^ 32 + 1` doubles gets one. -/
theorem exactRequest_fails_armv7 :
    ¬ ExactRequest armv7 Rust.joinModule.guest 4294967297 .f64 hugeOut guardHost := by
  have hcalls : (ArgumentBinder.bindBuffer armv7 Rust.joinModule.guest.recorded hugeOut guardHost).2.calls =
      [(kAllocFn, [.i32 8])] := by decide +kernel
  intro hexact
  cases hexact with
  | refused _ hnone _ =>
    rw [hcalls] at hnone
    cases hnone
  | requested hsmall _ _ => exact absurd hsmall (by decide)

end CrossNative
