import CrossNative.Placement

/-!
# The phases of a call

After the binding, a call runs the target function, reads outputs and result, and
frees the blocks. Each phase is summed up by the events it adds.
-/

namespace CrossNative

set_option autoImplicit false

open Basis Proc

variable {σ : Type}

/-! ## Reading -/

def elemOffset (P : Platform) (k : ElemKind) (mem i : Nat) : Nat :=
  mem + i * k.size % 2 ^ P.sizeBits

def readEvents (P : Platform) (k : ElemKind) (mem size e n : Nat) : List Event :=
  (List.range' e n).map fun i => .reads ⟨elemOffset P k mem i, k.size⟩ size

def readValues (P : Platform) (k : ElemKind) (m : LinearMemory) (mem e n : Nat) : List Json :=
  (List.range' e n).map fun i => readElem k (m.read (elemOffset P k mem i) k.size)

theorem readElems_run (P : Platform) (k : ElemKind) (mem e n : Nat) (h : Host σ) :
    readElems P k mem e n h = (.ok (readValues P k h.store.mem mem e n),
      { h with log := h.log ++ readEvents P k mem h.store.mem.size e n }) := by
  induction n generalizing e h with
  | zero => simp [readElems, readValues, readEvents, pure_run]
  | succ n ih =>
    have hhead : readBytes (mem + e * k.size % 2 ^ P.sizeBits) k.size h =
        (.ok (h.store.mem.read (elemOffset P k mem e) k.size),
          { h with log := h.log ++ [.reads ⟨elemOffset P k mem e, k.size⟩ h.store.mem.size] }) := rfl
    rw [readElems, bind_of_ok hhead, bind_of_ok (ih (e + 1) _)]
    simp [readValues, readEvents, List.range'_succ, pure_run, List.append_assoc]

theorem readValues_eq_chunks (P : Platform) (k : ElemKind) (mem : LinearMemory) {ptr n : Nat}
    (hsmall : n * k.size ≤ 2 ^ 32) :
    readValues P k mem ptr 0 n = (mem.chunks ptr k.size n).map (readElem k) := by
  have hword : 2 ^ 32 ≤ 2 ^ P.sizeBits :=
    Nat.le_of_dvd (Nat.two_pow_pos _) (BufferSpec.two_pow_sizeBits P)
  simp only [readValues, Memory.chunks, List.map_map, ← List.range_eq_range']
  apply List.map_congr_left
  intro i hi
  have hlt : (i + 1) * k.size ≤ n * k.size := Nat.mul_le_mul_right _ (List.mem_range.mp hi)
  have hsize := k.size_pos
  rw [Nat.add_mul, Nat.one_mul] at hlt
  simp only [elemOffset, Function.comp]
  rw [Nat.mod_eq_of_lt (by omega)]

theorem readValues_packed (P : Platform) {e : ElemKind} (vs : List (Elem e)) {mem : LinearMemory}
    {ptr : Nat} (hsmall : vs.length * e.size ≤ 2 ^ 32)
    (hbytes : mem.read ptr (vs.length * e.size) = vs.flatMap fun v => leBytes e.size v.toNat) :
    readValues P e mem ptr 0 vs.length = vs.map elemToJson := by
  have hchunks : mem.chunks ptr e.size (vs.map encodeElem).length = vs.map encodeElem := by
    apply Memory.chunks_of_read_flatten
    · simp
    · rw [List.length_map, hbytes]
      rfl
  rw [List.length_map] at hchunks
  rw [readValues_eq_chunks P e mem hsmall, hchunks, List.map_map]
  apply List.map_congr_left
  intro v _
  exact readElem_encodeElem v

theorem readEvents_within {P : Platform} {k : ElemKind} {mem size n : Nat} :
    ∀ e ∈ readEvents P k mem size 0 n, ∃ r, e = .reads r size ∧ r.Within ⟨mem, n * k.size⟩ := by
  intro e he
  simp only [readEvents, List.mem_map, List.mem_range'_1] at he
  obtain ⟨i, ⟨_, hi⟩, rfl⟩ := he
  have hmod := Nat.mod_le (i * k.size) (2 ^ P.sizeBits)
  have hnext : (i + 1) * k.size ≤ n * k.size := Nat.mul_le_mul_right _ (by omega)
  rw [Nat.add_mul, Nat.one_mul] at hnext
  refine ⟨_, rfl, ?_, ?_⟩
  · exact Nat.le_add_right _ _
  · simp only [Block.stop, elemOffset]
    omega

theorem readBlocks_state (P : Platform) (blocks : List Allocation) (h : Host σ) :
    ∃ events, (readBlocks P blocks h).2 = { h with log := h.log ++ events } ∧
      ∀ e ∈ events, ∃ a ∈ blocks, a.readBack = true ∧
        ∃ r, e = .reads r h.store.mem.size ∧ r.Within ⟨a.appPtr, a.count * a.kind.size⟩ := by
  induction blocks generalizing h with
  | nil => exact ⟨[], by simp [readBlocks, pure_run], by simp⟩
  | cons a rest ih =>
    by_cases hread : a.readBack = true
    · simp only [readBlocks, hread, if_true]
      by_cases hin : a.appPtr < h.store.mem.size
      · have hptr : nativePtr a.appPtr h = (.ok true, h) := by simp [nativePtr, hin]
        let events := readEvents P a.kind a.appPtr h.store.mem.size 0 a.count
        obtain ⟨events', hrest, hwithin⟩ := ih { h with log := h.log ++ events }
        simp only [bind_of_ok hptr, if_true, bind_of_ok (readElems_run P a.kind a.appPtr 0 a.count h)]
        refine ⟨events ++ events', ?_, fun e he => ?_⟩
        · cases hcase : readBlocks P rest { h with log := h.log ++ events } with
          | mk reply h' =>
            rw [hcase] at hrest
            simp only at hrest
            subst hrest
            cases reply with
            | error fault => rw [bind_of_error hcase, List.append_assoc]
            | ok others => rw [bind_of_ok hcase, pure_run, List.append_assoc]
        · rcases List.mem_append.mp he with he | he
          · exact ⟨a, List.mem_cons_self, hread, readEvents_within e he⟩
          · obtain ⟨b, hb, hrest⟩ := hwithin e he
            exact ⟨b, List.mem_cons_of_mem _ hb, hrest⟩
      · have hptr : nativePtr a.appPtr h = (.ok false, h) := by simp [nativePtr, hin]
        exact ⟨[], by simp [bind_of_ok hptr, Proc.fail], by simp⟩
    · obtain ⟨events, hrest, hwithin⟩ := ih h
      refine ⟨events, by simp [readBlocks, hread, hrest], fun e he => ?_⟩
      obtain ⟨b, hb, hrest⟩ := hwithin e he
      exact ⟨b, List.mem_cons_of_mem _ hb, hrest⟩

/-! ## The returned handle -/

/-- The range behind a non-empty handle of a declared vector or string result. -/
def returnRange (returns : ValueType) (results : List Val) : Option Block :=
  let (ptr, count) := unpackHandle (results.headD (.i64 0)).ofI64
  match returns with
  | .text => if ptr = 0 ∨ count = 0 then none else some ⟨ptr, count⟩
  | .vector k => if ptr = 0 ∨ count = 0 then none else some ⟨ptr, count * k.size⟩
  | _ => none

theorem returnRange_of_null {results : List Val}
    (h : (unpackHandle (results.headD (.i64 0)).ofI64).1 = 0) (returns : ValueType) :
    returnRange returns results = none := by
  cases returns <;> simp only [returnRange, h, true_or, if_true]

/-- The block passed to `cn_free` once the range has been read. -/
def returnBlock (P : Platform) (returns : ValueType) (range : Block) : Block :=
  match returns with
  | .vector _ => ⟨range.start, range.length % 2 ^ P.sizeBits % 2 ^ 32⟩
  | _ => range

def returnReads (P : Platform) (returns : ValueType) (range : Block) (size : Nat) : List Event :=
  match returns with
  | .vector k => readEvents P k range.start size 0 (range.length / k.size)
  | _ => [.reads range size]

def rangeReturn (P : Platform) (returns : ValueType) (m : LinearMemory) (range : Block) : Returned :=
  match returns with
  | .vector k => .json (.arr (readValues P k m range.start 0 (range.length / k.size)))
  | _ => .bytes (m.read range.start range.length)

def emptyReturn (returns : ValueType) (results : List Val) : Returned :=
  match returns with
  | .void => .json .null
  | .scalar _ => .json (readReturnValues results)
  | .text => .bytes []
  | .vector _ => .json (.arr [])

def Host.readReturn (h : Host σ) (P : Platform) (returns : ValueType) (range : Block) : Host σ :=
  { h with log := h.log ++ .handed range h.store.mem.size ::
      returnReads P returns range h.store.mem.size }

/-- Reading a typed result: nothing to read, a range that starts outside memory, or a
range that is read and released. -/
theorem readTypedReturn_cases (P : Platform) (g : Guest σ) (returns : ValueType)
    (results : List Val) (h : Host σ) :
    (returnRange returns results = none ∧
        readTypedReturn P g returns results h = (.ok (emptyReturn returns results), h)) ∨
      ∃ range, returnRange returns results = some range ∧ 0 < range.start ∧
        ((∃ reason, h.store.mem.size ≤ range.start ∧ readTypedReturn P g returns results h =
            (.error (.error reason),
              { h with log := h.log ++ [.handed range h.store.mem.size] })) ∨
          ∃ st, range.start < h.store.mem.size ∧ h.store.mem.size ≤ st.mem.size ∧
            readTypedReturn P g returns results h = (.ok (rangeReturn P returns h.store.mem range),
              { h.readReturn P returns range with
                store := st
                log := (h.readReturn P returns range).log ++
                  freeEvents g (returnBlock P returns range) })) := by
  have hhand (off len : Nat) : handOver off len h =
      (.ok (), { h with log := h.log ++ [.handed ⟨off, len⟩ h.store.mem.size] }) := rfl
  have hptr (off : Nat) (h : Host σ) :
      nativePtr off h = (.ok (decide (off < h.store.mem.size)), h) := rfl
  cases returns with
  | void => exact Or.inl ⟨rfl, rfl⟩
  | scalar k => exact Or.inl ⟨rfl, rfl⟩
  | text =>
    simp only [returnRange, readTypedReturn]
    generalize (unpackHandle (results.headD (.i64 0)).ofI64).1 = ptr
    generalize (unpackHandle (results.headD (.i64 0)).ofI64).2 = count
    by_cases hempty : ptr = 0 ∨ count = 0
    · exact Or.inl ⟨by rw [if_pos hempty], by rw [if_pos hempty]; rfl⟩
    · refine Or.inr ⟨⟨ptr, count⟩, by rw [if_neg hempty], by simp only; omega, ?_⟩
      rw [if_neg hempty, bind_of_ok (hhand ptr count), bind_of_ok (hptr _ _)]
      by_cases hin : ptr < h.store.mem.size
      · have hread (h : Host σ) : readBytes ptr count h = (.ok (h.store.mem.read ptr count),
            { h with log := h.log ++ [.reads ⟨ptr, count⟩ h.store.mem.size] }) := rfl
        simp only [hin, decide_true, if_true, bind_of_ok (hread _)]
        obtain ⟨st, hgrow, hfree⟩ := wasmFree_log g ptr count
          { h with log := h.log ++ [.handed ⟨ptr, count⟩ h.store.mem.size] ++
              [.reads ⟨ptr, count⟩ h.store.mem.size] }
        refine Or.inr ⟨st, trivial, hgrow, ?_⟩
        rw [bind_of_ok hfree]
        simp [Host.readReturn, returnReads, returnBlock, rangeReturn, pure_run]
      · simp only [hin, decide_false]
        exact Or.inl ⟨_, by omega, rfl⟩
  | vector k =>
    simp only [returnRange, readTypedReturn]
    generalize (unpackHandle (results.headD (.i64 0)).ofI64).1 = ptr
    generalize (unpackHandle (results.headD (.i64 0)).ofI64).2 = count
    by_cases hempty : ptr = 0 ∨ count = 0
    · exact Or.inl ⟨by rw [if_pos hempty], by rw [if_pos hempty]; rfl⟩
    · refine Or.inr ⟨⟨ptr, count * k.size⟩, by rw [if_neg hempty], by simp only; omega, ?_⟩
      rw [if_neg hempty, bind_of_ok (hhand _ _), bind_of_ok (hptr _ _)]
      have hcount : count * k.size / k.size = count := Nat.mul_div_cancel _ k.size_pos
      by_cases hin : ptr < h.store.mem.size
      · simp only [hin, decide_true, if_true, bind_of_ok (readElems_run P k ptr 0 count _)]
        obtain ⟨st, hgrow, hfree⟩ := wasmFree_log g ptr (count * k.size % 2 ^ P.sizeBits % 2 ^ 32)
          { h with log := h.log ++ [.handed ⟨ptr, count * k.size⟩ h.store.mem.size] ++
              readEvents P k ptr h.store.mem.size 0 count }
        refine Or.inr ⟨st, trivial, hgrow, ?_⟩
        rw [bind_of_ok hfree]
        simp [Host.readReturn, returnReads, returnBlock, rangeReturn, pure_run, hcount]
      · simp only [hin, decide_false]
        exact Or.inl ⟨_, by omega, rfl⟩

/-! ## The whole call -/

def Succeeded (reply : Except Fault Envelope) : Prop :=
  ∃ result outputs, reply = .ok (.success result outputs)

theorem not_succeeded_error (fault : Fault) : ¬ Succeeded (.error fault) := by
  rintro ⟨_, _, hok⟩
  cases hok

instance (reply : Except Fault Envelope) : Decidable (Succeeded reply) :=
  match reply with
  | .ok (.success result outputs) => isTrue ⟨result, outputs, rfl⟩
  | .ok (.failure _) => isFalse (by rintro ⟨_, _, h⟩; cases h)
  | .error fault => isFalse (not_succeeded_error fault)

theorem readResult_of_none {s : Signature} {results : List Val}
    (hnone : returnRange s.returns results = none) (P : Platform) (g : Guest σ) (h : Host σ) :
    readResult P g (some s) results h = (.ok (emptyReturn s.returns results), h) := by
  rcases readTypedReturn_cases P g s.returns results h with ⟨_, hrun⟩ | ⟨range, hrange, _⟩
  · simp only [readResult, mapFault, hrun]
  · rw [hnone] at hrange
    cases hrange

theorem readResult_of_range {s : Signature} {results : List Val} {range : Block}
    (hrange : returnRange s.returns results = some range) (P : Platform) (g : Guest σ) {h : Host σ}
    (hin : range.start < h.store.mem.size) :
    ∃ st, readResult P g (some s) results h = (.ok (rangeReturn P s.returns h.store.mem range),
      { h.readReturn P s.returns range with
        store := st
        log := (h.readReturn P s.returns range).log ++ freeEvents g (returnBlock P s.returns range) }) := by
  rcases readTypedReturn_cases P g s.returns results h with
    ⟨hnone, _⟩ | ⟨range', hrange', _, ⟨reason, hout, _⟩ | ⟨st, _, _, hrun⟩⟩
  · rw [hrange] at hnone
    cases hnone
  · rw [hrange] at hrange'
    cases hrange'
    omega
  · rw [hrange] at hrange'
    cases hrange'
    exact ⟨st, by simp only [readResult, mapFault, hrun]⟩

theorem readResult_cases (P : Platform) (g : Guest σ) (sig : Option Signature)
    (results : List Val) (h : Host σ) :
    (∃ value, (∀ s, sig = some s → returnRange s.returns results = none) ∧
        readResult P g sig results h = (.ok value, h)) ∨
      ∃ s range, sig = some s ∧ returnRange s.returns results = some range ∧ 0 < range.start ∧
        ((∃ fault, h.store.mem.size ≤ range.start ∧ readResult P g sig results h =
            (.error fault, { h with log := h.log ++ [.handed range h.store.mem.size] })) ∨
          ∃ value st, range.start < h.store.mem.size ∧ h.store.mem.size ≤ st.mem.size ∧
            readResult P g sig results h = (.ok value,
              { h.readReturn P s.returns range with
                store := st
                log := (h.readReturn P s.returns range).log ++
                  freeEvents g (returnBlock P s.returns range) })) := by
  cases sig with
  | none => exact Or.inl ⟨.json (readReturnValues results), by simp, rfl⟩
  | some s =>
    simp only [readResult, mapFault]
    rcases readTypedReturn_cases P g s.returns results h with
      ⟨hnone, hrun⟩ | ⟨range, hrange, hpos, ⟨reason, hout, hrun⟩ | ⟨st, hin, hgrow, hrun⟩⟩
    · exact Or.inl ⟨_, by simpa using hnone, by rw [hrun]⟩
    · exact Or.inr ⟨s, range, rfl, hrange, hpos, Or.inl ⟨_, hout, by rw [hrun]⟩⟩
    · exact Or.inr ⟨s, range, rfl, hrange, hpos, Or.inr ⟨_, st, hin, hgrow, by rw [hrun]⟩⟩

theorem readCall_cases (env : Env) (g : Guest σ) (sig : Option Signature) (results : List Val)
    (h : Host σ) :
    ∃ reads, (∀ e ∈ reads, ∃ a ∈ h.allocations, a.readBack = true ∧
        ∃ r, e = .reads r h.store.mem.size ∧ r.Within ⟨a.appPtr, a.count * a.kind.size⟩) ∧
      ((∃ fault, readCall env g sig results h =
          (.error fault, { h with log := h.log ++ reads })) ∨
        ∃ outputs, readBlocks env.platform h.allocations h =
            (.ok outputs, { h with log := h.log ++ reads }) ∧
          readCall env g sig results h = (readResult env.platform g sig results >>= fun result =>
            Proc.lift (respond env result outputs)) { h with log := h.log ++ reads }) := by
  obtain ⟨reads, hstate, hwithin⟩ := readBlocks_state env.platform h.allocations h
  refine ⟨reads, hwithin, ?_⟩
  have houtputs : ArgumentBinder.readOutputs env.platform h =
      readBlocks env.platform h.allocations h := rfl
  cases hrun : readBlocks env.platform h.allocations h with
  | mk reply h' =>
    rw [hrun] at hstate houtputs
    simp only at hstate
    subst hstate
    cases reply with
    | error fault =>
      exact Or.inl ⟨prefixReason "reading output buffers" fault,
        by simp only [readCall, bind, mapFault, houtputs]⟩
    | ok outputs => exact Or.inr ⟨outputs, rfl, by simp only [readCall, bind, mapFault, houtputs]⟩

theorem readCall_state (env : Env) (g : Guest σ) (sig : Option Signature) (results : List Val)
    (h : Host σ) (outputs : List Json) :
    ((readResult env.platform g sig results >>= fun result =>
        Proc.lift (respond env result outputs)) h).2 = (readResult env.platform g sig results h).2 ∧
      (Succeeded ((readResult env.platform g sig results >>= fun result =>
        Proc.lift (respond env result outputs)) h).1 →
        ∃ value h', readResult env.platform g sig results h = (.ok value, h')) := by
  cases hcase : readResult env.platform g sig results h with
  | mk reply h' =>
    cases reply with
    | error fault =>
      rw [bind_of_error hcase]
      exact ⟨rfl, fun hok => absurd hok (not_succeeded_error fault)⟩
    | ok value =>
      rw [bind_of_ok hcase]
      exact ⟨rfl, fun _ => ⟨value, h', rfl⟩⟩

/-- A call fails to bind, or the function traps, or its results are read. -/
theorem runCall_cases (env : Env) (g : Guest σ) (entry : ModuleEntry) (func : Func)
    (args : List Json) (h : Host σ) {sig : Option Signature}
    (hsig : entry.signatures.lookup func.name = sig) :
    (∃ fault h₁, bindCall env g func args sig h = (.error fault, h₁) ∧
        runCall env g entry func args h = (.error fault, h₁)) ∨
      ∃ h₁ st, bindCall env g func args sig h = (.ok (), h₁) ∧
        h₁.store.mem.size ≤ st.mem.size ∧
        ((∃ exc, callWasmA g func func.type.results.length h₁.vals h₁ =
              (.ok (.error exc), { h₁ with store := st }) ∧
            runCall env g entry func args h = (.error (callFailure exc),
              { h₁ with store := st, log := h₁.log ++ [.finished func.name none] })) ∨
          ∃ results, callWasmA g func func.type.results.length h₁.vals h₁ =
              (.ok (.ok results), { h₁ with store := st }) ∧
            runCall env g entry func args h = readCall env g sig results
              { h₁ with store := st, log := h₁.log ++ [.finished func.name (some results)] }) := by
  cases hbind : bindCall env g func args sig h with
  | mk reply h₁ =>
    cases reply with
    | error fault =>
      refine Or.inl ⟨fault, h₁, rfl, ?_⟩
      simp only [runCall, hsig]
      rw [bind_of_error hbind]
    | ok u =>
      obtain ⟨reply, st, hcall, hgrow⟩ :=
        callWasmA_run g func func.type.results.length h₁.vals h₁
      refine Or.inr ⟨h₁, st, rfl, hgrow, ?_⟩
      simp only [runCall, hsig]
      rw [bind_of_ok hbind]
      change (∃ exc, _ ∧ (callWasmA g func func.type.results.length h₁.vals >>= _) h₁ = _) ∨
        ∃ results, _ ∧ (callWasmA g func func.type.results.length h₁.vals >>= _) h₁ = _
      rw [bind_of_ok hcall]
      cases reply with
      | error exc => exact Or.inl ⟨exc, hcall, rfl⟩
      | ok results => exact Or.inr ⟨results, hcall, rfl⟩

theorem lookup_name {g : Guest σ} {name : String} {func : Func} (h : g.lookup name = some func) :
    func.name = name := by
  simp only [Guest.lookup, Option.map_eq_some_iff] at h
  obtain ⟨type, _, rfl⟩ := h
  rfl

/-- A call is refused before it touches the module, or runs under a binder. -/
theorem callEntry_cases (env : Env) (g : Guest σ) (entry : ModuleEntry)
    (moduleId functionName : String) (args : Except String Json) (h : Host σ) :
    (∃ failure, callEntry env g entry moduleId functionName args h = (.ok (.failure failure), h)) ∨
      ∃ items func, args = .ok (.arr items) ∧ g.lookup functionName = some func ∧
        callEntry env g entry moduleId functionName args h =
          withBinder g (runCall env g entry func items) h := by
  unfold callEntry
  split
  · exact Or.inl ⟨_, rfl⟩
  · cases hlookup : g.lookup functionName with
    | none => exact Or.inl ⟨_, rfl⟩
    | some func => exact Or.inr ⟨_, func, rfl, rfl, rfl⟩
  · exact Or.inl ⟨_, rfl⟩

theorem Succeeded.withBinder {g : Guest σ} {body : HostProc σ Envelope} {h : Host σ}
    (hok : Succeeded (CrossNative.withBinder g body h).1) :
    Succeeded (body { h with vals := [], allocations := [] }).1 := by
  obtain ⟨result, outputs, hok⟩ := hok
  simp only [CrossNative.withBinder] at hok
  split at hok
  · cases hok
  · exact ⟨result, outputs, hok⟩

end CrossNative
