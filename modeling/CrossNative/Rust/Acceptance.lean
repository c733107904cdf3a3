import CrossNative.Delivery
import CrossNative.Rust.Metadata
import CrossNative.Rust.Results

/-!
# Which typed calls are accepted

A call of a function that neither panics nor diverges succeeds when its arguments can be
bound. The allocator has to have a block for every array and every string; it has none for
an empty one, because `cn_alloc` answers a request for no bytes with null.
-/

namespace CrossNative.Rust

set_option autoImplicit false

open Basis Proc

variable {σ : Type}

/-! ## Requests to the allocator -/

/-- The heap has a block for every request in turn, whatever the host writes into the
blocks before it. -/
def Heap.Serves (heap : Heap σ) : Store σ → List Nat → Prop
  | _, [] => True
  | st, size :: sizes => ∃ ptr st', cnAlloc heap size st = (.ok ptr, st') ∧ ptr ≠ 0 ∧
      ∀ bs : List UInt8, bs.length = size → Serves heap (st'.fill ptr.toNat bs) sizes

def argBytes : Kind → Json → Nat
  | .slice (.elem e) _, .arr items => items.length * e.size
  | .text _, .str s => (utf8 s).length
  | _, _ => 0

/-- The positive sizes that binding asks for, in order. -/
def requests : List Kind → List Json → List Nat
  | k :: kinds, j :: args =>
    (if argBytes k j = 0 then [] else [argBytes k j]) ++ requests kinds args
  | _, _ => []

/-- An array or a string without content. -/
def emptyRange : Json → Bool
  | .arr items => items.isEmpty
  | .str s => decide (s = "")
  | _ => false

theorem cnAlloc_zero (heap : Heap σ) (st : Store σ) : cnAlloc heap 0 st = (.ok 0, st) := rfl

variable {m : RustModule σ}

theorem wasmAlloc_served {size : Nat} (hsize : size < 2 ^ 32) {h : Host σ} {ptr : BitVec 32}
    {st' : Store σ} (halloc : cnAlloc m.heap size h.store = (.ok ptr, st')) :
    wasmAlloc m.guest size h =
      if ptr = 0 then
        (.error (.error "cn_alloc returned null (out of WASM memory?)"), { h with store := st' })
      else (.ok ptr.toNat, { h with store := st', log := h.log ++ [.allocated ⟨ptr.toNat, size⟩] }) := by
  have hnat : (BitVec.ofNat 32 size).toNat = size := by
    rw [BitVec.toNat_ofNat, Nat.mod_eq_of_lt hsize]
  have hrun := m.run_alloc (BitVec.ofNat 32 size) h.store
  rw [hnat, halloc] at hrun
  have hcall : callWasmA m.guest ⟨kAllocFn, [.i32], [.i32]⟩ 1 [.i32 (BitVec.ofNat 32 size)] h =
      (.ok (.ok [.i32 ptr]), { h with store := st' }) := by
    simp [callWasmA, hrun, Except.map, Val.ofCells]
  simp only [wasmAlloc, RustModule.lookup_alloc, bind_of_ok hcall, List.headD_cons, Val.ofI32_i32]
  by_cases hnull : ptr = 0
  · subst hnull
    rfl
  · have hpos : ptr.toNat ≠ 0 := fun hzero => hnull (BitVec.eq_of_toNat_eq hzero)
    rw [if_neg hpos, if_neg hnull]
    rfl

theorem Heap.Honest.fits {heap : Heap σ} (honest : heap.Honest) {size : Nat} {st st' : Store σ}
    {ptr : BitVec 32} (halloc : cnAlloc heap size st = (.ok ptr, st')) (hne : ptr ≠ 0) :
    0 < size ∧ size ≤ maxLayout ∧ ptr.toNat + size ≤ st'.mem.size := by
  unfold cnAlloc at halloc
  split at halloc
  · cases halloc
    exact absurd rfl hne
  · rename_i hpos
    split at halloc
    · rename_i hlayout
      obtain ⟨ptr', st₁, hanswer, hgrant⟩ := honest.answers size st (Nat.pos_of_ne_zero hpos) hlayout
      rw [hanswer] at halloc
      cases halloc
      exact ⟨Nat.pos_of_ne_zero hpos, hlayout, (hgrant hne).inside⟩
    · cases halloc
      exact absurd rfl hne

theorem Heap.Honest.cnAlloc_returns {heap : Heap σ} (honest : heap.Honest) (size : Nat) (st : Store σ) :
    ∃ ptr st', cnAlloc heap size st = (.ok ptr, st') := by
  unfold cnAlloc
  split
  · exact ⟨0, st, rfl⟩
  · rename_i hpos
    split
    · rename_i hlayout
      obtain ⟨ptr, st', hanswer, _⟩ := honest.answers size st (Nat.pos_of_ne_zero hpos) hlayout
      exact ⟨ptr, st', hanswer⟩
    · exact ⟨0, st, rfl⟩

theorem bindBytes_served (honest : m.heap.Honest) (data : List UInt8) (count : Nat) {h : Host σ}
    {sizes : List Nat} (hserves : m.heap.Serves h.store (data.length :: sizes)) :
    ∃ slots h', ArgumentBinder.bindBytes m.guest data count h = (.ok slots, h') ∧
      h'.vals = h.vals ∧ m.heap.Serves h'.store sizes := by
  obtain ⟨ptr, st', halloc, hne, hrest⟩ := hserves
  obtain ⟨hpos, hlayout, hfits⟩ := honest.fits halloc hne
  have hlayout' : data.length ≤ 2 ^ 31 - 8 := hlayout
  have hin : ptr.toNat < st'.mem.size := by omega
  have hwasm := wasmAlloc_served (m := m) (show data.length < 2 ^ 32 by omega) halloc
  rw [if_neg hne] at hwasm
  let placed : Host σ :=
    { store := st'.fill ptr.toNat data
      vals := h.vals
      allocations := h.allocations ++ [⟨ptr.toNat, data.length, count, .u8, false⟩]
      log := h.log ++ [.allocated ⟨ptr.toNat, data.length⟩] ++
        [.handed ⟨ptr.toNat, data.length⟩ st'.mem.size] ++
        [.writes ⟨ptr.toNat, data.length⟩ st'.mem.size] }
  have hplace : placeBlock m.guest data.length (fun appPtr => ⟨appPtr, data.length, count, .u8, false⟩)
      data.length (fun mem => writeBytes mem data) h = (.ok ptr.toNat, placed) := by
    rw [placeBlock, bind_of_ok hwasm]
    simp only [bind, pushAllocation, Proc.modify, handOver, nativePtr, hin, decide_true, writeBytes, pure]
    rfl
  refine ⟨(.i32 (BitVec.ofNat 32 ptr.toNat), .i32 (BitVec.ofNat 32 count)), placed, ?_, rfl, hrest data rfl⟩
  rw [ArgumentBinder.bindBytes, if_neg (by omega), bind_of_ok hplace]
  rfl

theorem bindBytes_nonempty {data : List UInt8} {count : Nat} {h h' : Host σ} {slots : Val × Val}
    (hrun : ArgumentBinder.bindBytes m.guest data count h = (.ok slots, h')) : data ≠ [] := by
  rintro rfl
  have hwasm := wasmAlloc_served (m := m) (show 0 < 2 ^ 32 by omega) (cnAlloc_zero m.heap h.store)
  rw [if_pos rfl] at hwasm
  unfold ArgumentBinder.bindBytes at hrun
  rw [if_neg (by simp)] at hrun
  obtain ⟨ptr, h₁, hplace, _⟩ := bind_ok_iff.mp hrun
  unfold placeBlock at hplace
  obtain ⟨ptr', h₂, halloc, _⟩ := bind_ok_iff.mp hplace
  rw [List.length_nil, hwasm] at halloc
  cases halloc

/-! ## Arguments -/

theorem hostElems_length {P : Platform} {e : ElemKind} {items : List Json} {vs : List (Elem e)}
    (h : hostElems P e items = some vs) :
    ∃ records, writeElems P e items = .ok records ∧ records.flatten.length = items.length * e.size := by
  induction items generalizing vs with
  | nil => exact ⟨[], rfl, by simp⟩
  | cons j items ih =>
    simp only [hostElems] at h
    split at h
    · rename_i v vs' hv hrest
      obtain ⟨records, hwrite, hlength⟩ := ih hrest
      refine ⟨encodeElem v :: records, by simp only [writeElems, writeElem, hv, hwrite], ?_⟩
      rw [List.flatten_cons, List.length_append, encodeElem_length, hlength, List.length_cons,
        Nat.add_mul, Nat.one_mul, Nat.add_comm]
    · cases h

theorem hostValues_length {P : Platform} {T : Toolchain} {kinds : List Kind} {args : List Json}
    {values : List RustValue} (h : hostValues P T kinds args = some values) :
    args.length = kinds.length := by
  induction kinds generalizing args values with
  | nil =>
    cases args with
    | nil => rfl
    | cons j args => cases h
  | cons k kinds ih =>
    cases args with
    | nil => cases h
    | cons j args =>
      simp only [hostValues] at h
      split at h
      · rename_i hrest
        rw [List.length_cons, List.length_cons, ih hrest]
      · cases h

theorem hostValue_slots {P : Platform} {T : Toolchain} {k : Kind} {j : Json} {v : RustValue}
    (h : hostValue P T k j = some v) : k.shimParams ≠ [] := by
  cases k with
  | unit => cases h
  | _ => exact List.cons_ne_nil _ _

theorem bindVector_served (honest : m.heap.Honest) {P : Platform} {kinds : List ValKind} {slot : Nat}
    {e : ElemKind} {items : List Json} {vs : List (Elem e)} {h : Host σ} {sizes : List Nat}
    (hroom : slot + 2 ≤ kinds.length) (hvs : hostElems P e items = some vs) (hitems : items ≠ [])
    (hserves : m.heap.Serves h.store ((if items.length * e.size = 0 then []
      else [items.length * e.size]) ++ sizes)) :
    ∃ h', bindParam P m.guest kinds slot (.vector e) (.arr items) h = (.ok (), h') ∧
      h'.vals.length = h.vals.length ∧ m.heap.Serves h'.store sizes := by
  obtain ⟨records, hwrite, hlength⟩ := hostElems_length hvs
  have hpos : items.length * e.size ≠ 0 :=
    Nat.mul_ne_zero (by simpa using hitems) (Nat.ne_of_gt e.size_pos)
  rw [if_neg hpos, ← hlength] at hserves
  obtain ⟨slots, h₁, hbytes, hvals, hrest⟩ :=
    bindBytes_served honest records.flatten items.length hserves
  refine ⟨{ h₁ with vals := (h₁.vals.set slot slots.1).set (slot + 1) slots.2 }, ?_,
    by simp [hvals], hrest⟩
  have hnext : ¬ slot + 1 ≥ kinds.length := by omega
  simp only [bindParam, hnext, if_false, hwrite]
  rw [bind_of_ok (show (Proc.lift (.ok records) : HostProc σ _) h = (.ok records, h) from rfl),
    bind_of_ok hbytes]
  rfl

theorem bindText_served (honest : m.heap.Honest) {P : Platform} {kinds : List ValKind} {slot : Nat}
    {text : String} {h : Host σ} {sizes : List Nat} (hroom : slot + 2 ≤ kinds.length)
    (htext : text ≠ "")
    (hserves : m.heap.Serves h.store ((if (utf8 text).length = 0 then []
      else [(utf8 text).length]) ++ sizes)) :
    ∃ h', bindParam P m.guest kinds slot .text (.str text) h = (.ok (), h') ∧
      h'.vals.length = h.vals.length ∧ m.heap.Serves h'.store sizes := by
  have hpos : (utf8 text).length ≠ 0 := by
    intro hzero
    have hnil : utf8 text = utf8 "" := List.length_eq_zero_iff.mp hzero
    exact htext (utf8_injective hnil)
  rw [if_neg hpos] at hserves
  obtain ⟨slots, h₁, hbytes, hvals, hrest⟩ :=
    bindBytes_served honest (utf8 text) (utf8 text).length hserves
  refine ⟨{ h₁ with vals := (h₁.vals.set slot slots.1).set (slot + 1) slots.2 }, ?_,
    by simp [hvals], hrest⟩
  have hnext : ¬ slot + 1 ≥ kinds.length := by omega
  simp only [bindParam, hnext, if_false]
  rw [bind_of_ok hbytes]
  rfl

/-- One parameter of a declaration, with an argument that converts and is not empty. -/
theorem bindParam_served (honest : m.heap.Honest) {P : Platform} {T : Toolchain}
    {kinds : List ValKind} {slot : Nat} {k : Kind} {type : ValueType} {j : Json} {v : RustValue}
    {h : Host σ} {sizes : List Nat} (hk : k.valueType? = some type)
    (hroom : slot + k.shimParams.length ≤ kinds.length)
    (hkinds : (kinds.drop slot).take k.shimParams.length = k.shimParams)
    (hvalue : hostValue P T k j = some v) (hcontent : emptyRange j = false)
    (hserves : m.heap.Serves h.store ((if argBytes k j = 0 then [] else [argBytes k j]) ++ sizes)) :
    ∃ h', bindParam P m.guest kinds slot type j h = (.ok (), h') ∧
      h'.vals.length = h.vals.length ∧ m.heap.Serves h'.store sizes := by
  cases Kind.known hk with
  | void => cases hvalue
  | scalar e =>
    simp only [hostValue] at hvalue
    split at hvalue
    · rename_i val hval
      have hkind : kinds.getD slot .i32 = (Scalar.elem e).valKind := getD_of_take_one hkinds
      refine ⟨{ h with vals := h.vals.set slot val }, ?_, by simp, hserves⟩
      simp only [bindParam, hkind, hval]
      rfl
    · cases hvalue
  | vector e owned =>
    cases j with
    | arr items =>
      obtain ⟨vs, hvs, _⟩ := Option.map_eq_some_iff.mp hvalue
      have hitems : items ≠ [] := by simpa [emptyRange] using hcontent
      exact bindVector_served honest hroom hvs hitems hserves
    | _ => cases hvalue
  | text owned =>
    cases j with
    | str text =>
      have htext : text ≠ "" := by simpa [emptyRange] using hcontent
      exact bindText_served honest hroom htext hserves
    | _ => cases hvalue

theorem bindParam_content {P : Platform} {kinds : List ValKind} {slot : Nat} {type : ValueType}
    {j : Json} {h h' : Host σ}
    (hrun : bindParam P m.guest kinds slot type j h = (.ok (), h')) : emptyRange j = false := by
  cases j with
  | arr items =>
    cases type with
    | vector e =>
      simp only [bindParam] at hrun
      split at hrun
      · cases hrun
      · obtain ⟨records, h₁, hlift, hbind⟩ := bind_ok_iff.mp hrun
        obtain ⟨hwrite, rfl⟩ := lift_ok_iff.mp hlift
        obtain ⟨slots, h₂, hbytes, _⟩ := bind_ok_iff.mp hbind
        have hne := bindBytes_nonempty hbytes
        cases items with
        | nil =>
          cases hwrite
          exact absurd rfl hne
        | cons j items => rfl
    | scalar e =>
      obtain ⟨val, h₁, hlift, _⟩ := bind_ok_iff.mp hrun
      cases (lift_ok_iff.mp hlift).1
    | _ => cases hrun
  | str text =>
    cases type with
    | text =>
      simp only [bindParam] at hrun
      split at hrun
      · cases hrun
      · obtain ⟨slots, h₂, hbytes, _⟩ := bind_ok_iff.mp hrun
        have hne := bindBytes_nonempty hbytes
        simp only [emptyRange, decide_eq_false_iff_not]
        rintro rfl
        exact hne rfl
    | scalar e =>
      obtain ⟨val, h₁, hlift, _⟩ := bind_ok_iff.mp hrun
      cases (lift_ok_iff.mp hlift).1
    | _ => cases hrun
  | _ => rfl

theorem bindParams_served (honest : m.heap.Honest) {P : Platform} {T : Toolchain}
    (decls : List ParamDecl) {params : List Param} (hparams : hostParams decls = some params)
    {kinds : List ValKind} {i slot : Nat} {args : List Json} {values : List RustValue} {h : Host σ}
    (hkinds : kinds.drop slot = decls.flatMap fun p => p.kind.shimParams)
    (hvalues : hostValues P T (decls.map ParamDecl.kind) args = some values)
    (hcontent : ∀ j ∈ args, emptyRange j = false)
    (hserves : m.heap.Serves h.store (requests (decls.map ParamDecl.kind) args)) :
    ∃ h', bindParams P m.guest kinds i slot params args h = (.ok (), h') ∧
      h'.vals.length = h.vals.length := by
  induction decls generalizing params i slot args values h with
  | nil =>
    cases hparams
    cases args with
    | nil => exact ⟨h, rfl, rfl⟩
    | cons j args => cases hvalues
  | cons d decls ih =>
    obtain ⟨type, rest, htype, hrest, rfl⟩ := hostParams_cons hparams
    cases args with
    | nil => cases hvalues
    | cons j args =>
      rw [List.map_cons, hostValues] at hvalues
      split at hvalues
      · rename_i v values' hvalue hvalues'
        have hlength := congrArg List.length hkinds
        simp only [List.flatMap_cons, List.length_append, List.length_drop] at hlength
        have hshim : (kinds.drop slot).take d.kind.shimParams.length = d.kind.shimParams := by
          rw [hkinds, List.flatMap_cons, List.take_left]
        obtain ⟨hj, hcontent'⟩ := List.forall_mem_cons.mp hcontent
        have hslots := List.length_pos_iff.mpr (hostValue_slots hvalue)
        have hroom : slot + d.kind.shimParams.length ≤ kinds.length := by omega
        obtain ⟨h₁, hparam, hvals, hserves'⟩ := bindParam_served honest htype hroom hshim hvalue hj
          (by rw [List.map_cons, requests] at hserves; exact hserves)
        obtain ⟨h₂, hloop, hvals'⟩ := ih (i := i + 1) hrest
          (by rw [← List.drop_drop, hkinds, List.flatMap_cons, List.drop_left]) hvalues' hcontent'
          hserves'
        refine ⟨h₂, ?_, hvals'.trans hvals⟩
        have hslot : ¬ slot ≥ kinds.length := by omega
        rw [bindParams, if_neg hslot, bind_of_ok (mapFault_ok_iff.mpr hparam), Kind.slots_eq htype]
        exact hloop
      · cases hvalues

theorem bindParams_content {P : Platform} {kinds : List ValKind} (params : List Param) {i slot : Nat}
    {args : List Json} {h h' : Host σ} (hargs : args.length = params.length)
    (hrun : bindParams P m.guest kinds i slot params args h = (.ok (), h')) :
    ∀ j ∈ args, emptyRange j = false := by
  induction params generalizing i slot args h with
  | nil =>
    rw [List.length_eq_zero_iff.mp hargs]
    exact List.forall_mem_nil _
  | cons p params ih =>
    cases args with
    | nil => cases hargs
    | cons j args =>
      rw [bindParams] at hrun
      obtain ⟨_, h₁, hparam, hloop⟩ := bind_ok_iff.mp hrun
      rw [mapFault_ok_iff] at hparam
      split at hparam
      · cases hparam
      · exact List.forall_mem_cons.mpr ⟨bindParam_content hparam, ih (by simpa using hargs) hloop⟩

/-! ## Whole calls -/

theorem returnValue_returns (honest : m.heap.Honest) (v : RustValue) (st : Store σ) :
    ∃ cell st', m.returnValue v st = (.ok cell, st') := by
  have hpack (bytes : List UInt8) (count : Nat) :
      ∃ cell st', packSlice m.heap bytes count st = (.ok cell, st') := by
    obtain ⟨ptr, st₁, halloc⟩ := honest.cnAlloc_returns bytes.length st
    rcases packSlice_cases m.heap bytes count st with
      ⟨_, hrun⟩ | ⟨st₁, _, _, hrun⟩ | ⟨trap, st₂, hrun⟩ | ⟨buffer, st₁, _, hrun⟩
    · exact ⟨_, _, hrun⟩
    · exact ⟨_, _, hrun⟩
    · -- the only trap is a block outside memory
      simp only [packSlice, halloc] at hrun
      split at hrun
      · cases hrun
      · split at hrun
        · cases hrun
        · rename_i hne
          rw [if_pos (honest.fits halloc hne).2.2] at hrun
          cases hrun
    · exact ⟨_, _, hrun⟩
  cases v with
  | unit => exact ⟨_, _, rfl⟩
  | scalar s v => exact ⟨_, _, rfl⟩
  | vec s vs => exact hpack _ _
  | text s => exact hpack _ _

namespace TypedCall

variable (c : TypedCall σ)

/-- What the conversions make of the arguments. -/
def values : Option (List RustValue) := hostValues c.env.platform c.module.toolchain c.kinds c.args

/-- The arguments can be bound: they convert, there is one at least, and none is empty. -/
def Bindable : Prop :=
  c.kinds ≠ [] ∧ c.values.isSome ∧ ∀ j ∈ c.args, emptyRange j = false

theorem params_eq : hostParams c.fn.decl.params = some c.sig.params :=
  (hostSignature_eq_some c.parsed).1

theorem bindTyped_of_binding (h : c.binding.1 = .ok ()) :
    ArgumentBinder.bindTyped c.env.platform c.module.guest c.func c.args c.sig
      { c.host with vals := [], allocations := [] } = (.ok (), c.binding.2) :=
  mapFault_ok_iff.mp (Prod.ext h rfl)

theorem bindable_of_reached (honest : c.module.heap.Honest) {values : List RustValue} {v : RustValue}
    (hreached : c.Reached values v) : c.Bindable ∧ c.values = some values := by
  have hbind := c.bindTyped_of_binding hreached.bound
  obtain ⟨values', hdecode, hvalues⟩ := bindTyped_values (RustModule.honestAlloc honest)
    c.env.platform c.module.toolchain c.parsed rfl hbind
  have hsame : values' = values := Option.some.inj (hdecode.symm.trans hreached.decoded)
  subst hsame
  refine ⟨⟨?_, by rw [TypedCall.values, kinds, hvalues]; rfl, ?_⟩, hvalues⟩
  · -- without parameters the value vector still has its one entry
    intro hnone
    have hparams : c.fn.decl.params = [] := List.map_eq_nil_iff.mp hnone
    have hsig : c.sig.params = [] := by
      have h := c.params_eq
      rw [hparams] at h
      exact (Option.some.inj h).symm
    have htype : c.func.type.params = [] := by
      simp only [func, FnDecl.shimType, hparams, List.flatMap_nil]
    have hslots := hreached.slots
    simp only [FnDecl.shimType, hparams, List.flatMap_nil, List.length_nil] at hslots
    unfold ArgumentBinder.bindTyped at hbind
    simp only [hsig, htype] at hbind
    split at hbind
    · cases hbind
    · obtain ⟨_, h₁, hzero, hloop⟩ := bind_ok_iff.mp hbind
      cases hzero
      have hone := congrArg (fun reply => reply.2.vals.length) hloop
      cases hargs : c.args <;> rw [hargs] at hone <;>
        exact absurd (hone.trans hslots) (by simp [bindParams, pure])
  · unfold ArgumentBinder.bindTyped at hbind
    simp only at hbind
    split at hbind
    · cases hbind
    · rename_i hcount
      obtain ⟨_, h₁, _, hloop⟩ := bind_ok_iff.mp hbind
      exact bindParams_content c.sig.params (not_not.mp hcount) hloop

theorem reached_of_bindable (honest : c.module.heap.Honest)
    (hserves : c.module.heap.Serves c.host.store (requests c.kinds c.args)) (hbindable : c.Bindable)
    {values : List RustValue} (hvalues : c.values = some values) {v : RustValue}
    (hbody : c.fn.body values = some v) : c.Reached values v := by
  obtain ⟨hne, _, hcontent⟩ := hbindable
  have hparams : c.func.type.params ≠ [] := by
    intro hnil
    obtain ⟨d, decls, hdecls⟩ := List.exists_cons_of_ne_nil (fun h => hne (congrArg (List.map _) h))
    simp only [func, FnDecl.shimType, hdecls, List.flatMap_cons, List.append_eq_nil_iff] at hnil
    cases hargs : c.args with
    | nil =>
      rw [TypedCall.values, kinds, hdecls, hargs] at hvalues
      cases hvalues
    | cons j args =>
      rw [TypedCall.values, kinds, hdecls, hargs, List.map_cons, hostValues] at hvalues
      split at hvalues
      · rename_i hvalue _
        exact hostValue_slots hvalue hnil.1
      · cases hvalues
  have hcount : c.args.length = c.sig.params.length := by
    rw [hostValues_length hvalues, hostParams_length c.params_eq, kinds, List.length_map]
  let zeroed : Host σ := { c.host with
    vals := List.replicate (if c.func.type.params.length = 0 then 1 else c.func.type.params.length) (.i32 0)
    allocations := [] }
  obtain ⟨h', hloop, hlength⟩ : ∃ h', bindParams c.env.platform c.module.guest c.func.type.params 0 0
      c.sig.params c.args zeroed = (.ok (), h') ∧ h'.vals.length = zeroed.vals.length :=
    bindParams_served honest c.fn.decl.params c.params_eq rfl hvalues hcontent hserves
  have hbind : ArgumentBinder.bindTyped c.env.platform c.module.guest c.func c.args c.sig
      { c.host with vals := [], allocations := [] } = (.ok (), h') := by
    unfold ArgumentBinder.bindTyped
    simp only [hcount, ne_eq, not_true_eq_false, if_false]
    exact hloop
  have hbinding : c.binding = (.ok (), h') := mapFault_ok_iff.mpr hbind
  obtain ⟨values', hdecode, hvalues'⟩ := bindTyped_values (RustModule.honestAlloc honest)
    c.env.platform c.module.toolchain c.parsed rfl hbind
  have hsame : values' = values := Option.some.inj (hvalues'.symm.trans hvalues)
  subst hsame
  refine ⟨by rw [hbinding], ?_, by rw [hbinding]; exact hdecode, hbody⟩
  rw [hbinding, hlength, List.length_replicate, if_neg (by simpa using hparams)]
  rfl

theorem succeeded_of_returned {values : List RustValue} {v : RustValue} (hreached : c.Reached values v)
    {cell : BitVec 64} {st : Store σ}
    (hreturn : c.module.returnValue v (c.returnStore values) = (.ok cell, st)) : Succeeded c.run.1 := by
  cases hreturns : c.sig.returns with
  | text => exact c.succeeded_of_return (by rw [hreturns]; trivial) hreached hreturn
  | vector e => exact c.succeeded_of_return (by rw [hreturns]; trivial) hreached hreturn
  | void =>
    have hread := readResult_of_none (s := c.sig)
      (show returnRange c.sig.returns (RustModule.shimResults c.fn.decl.returns cell) = none by
        rw [hreturns]; rfl) c.env.platform c.module.guest (c.finishedHost st cell)
    rw [hreturns] at hread
    exact ⟨_, _, (c.run_of_read hreached hreturn hread (List.append_nil _).symm rfl rfl rfl).1⟩
  | scalar e =>
    have hread := readResult_of_none (s := c.sig)
      (show returnRange c.sig.returns (RustModule.shimResults c.fn.decl.returns cell) = none by
        rw [hreturns]; rfl) c.env.platform c.module.guest (c.finishedHost st cell)
    rw [hreturns] at hread
    exact ⟨_, _, (c.run_of_read hreached hreturn hread (List.append_nil _).symm rfl rfl rfl).1⟩

theorem succeeded_iff (honest : c.module.heap.Honest)
    (total : ∀ values, c.values = some values → (c.fn.body values).isSome)
    (hserves : c.module.heap.Serves c.host.store (requests c.kinds c.args)) :
    Succeeded c.run.1 ↔ c.Bindable := by
  constructor
  · intro hsuccess
    obtain ⟨values, v, _, _, hreached, _⟩ := c.reached_of_succeeded hsuccess
    exact (c.bindable_of_reached honest hreached).1
  · intro hbindable
    obtain ⟨values, hvalues⟩ := Option.isSome_iff_exists.mp hbindable.2.1
    obtain ⟨v, hbody⟩ := Option.isSome_iff_exists.mp (total values hvalues)
    have hreached := c.reached_of_bindable honest hserves hbindable hvalues hbody
    obtain ⟨cell, st, hreturn⟩ := returnValue_returns honest v (c.returnStore values)
    exact c.succeeded_of_returned hreached hreturn

end TypedCall

/-- The argument has the declared shape. -/
def WellTyped : Kind → Json → Prop
  | .scalar (.elem _), j => j.isNumber = true
  | .slice (.elem _) _, .arr items => ∀ j ∈ items, j.isNumber = true
  | .text _, .str _ => True
  | _, _ => False

theorem hostElems_of_numbers (P : Platform) (e : ElemKind) {items : List Json}
    (h : ∀ j ∈ items, j.isNumber = true) : (hostElems P e items).isSome := by
  induction items with
  | nil => rfl
  | cons j items ih =>
    obtain ⟨hj, hrest⟩ := List.forall_mem_cons.mp h
    obtain ⟨v, hv⟩ := (getElem_ok_iff P e j).mpr (convertible_of_isNumber hj)
    obtain ⟨vs, hvs⟩ := Option.isSome_iff_exists.mp (ih hrest)
    simp only [hostElems, hv, hvs, Option.isSome_some]

theorem jsonToVal_of_number (P : Platform) (e : ElemKind) {j : Json} (h : j.isNumber = true) :
    ∃ v, jsonToVal P j (Scalar.elem e).valKind = .ok v := by
  have hget (k : ElemKind) : ∃ v, getElem P k j = .ok v :=
    (getElem_ok_iff P k j).mpr (convertible_of_isNumber h)
  simp only [jsonToVal, h, if_true]
  cases e with
  | f64 =>
    obtain ⟨v, hv⟩ := hget .f64
    exact ⟨.f64 v, map_ok_iff.mpr ⟨v, hv, rfl⟩⟩
  | f32 =>
    obtain ⟨v, hv⟩ := hget .f32
    exact ⟨.f32 v, map_ok_iff.mpr ⟨v, hv, rfl⟩⟩
  | i64 | u64 =>
    obtain ⟨v, hv⟩ := hget .i64
    exact ⟨.i64 v, map_ok_iff.mpr ⟨v, hv, rfl⟩⟩
  | i32 | u32 | i8 | u8 | i16 | u16 =>
    obtain ⟨v, hv⟩ := hget .i32
    exact ⟨.i32 v, map_ok_iff.mpr ⟨v, hv, rfl⟩⟩

theorem hostValue_of_wellTyped (P : Platform) (T : Toolchain) {k : Kind} {j : Json}
    (h : WellTyped k j) : (hostValue P T k j).isSome := by
  unfold WellTyped at h
  split at h
  · rename_i e
    obtain ⟨v, hv⟩ := jsonToVal_of_number P e h
    simp only [hostValue, hv, Option.isSome_some]
  · obtain ⟨vs, hvs⟩ := Option.isSome_iff_exists.mp (hostElems_of_numbers P _ h)
    rw [hostValue, hvs]
    rfl
  · rfl
  · exact h.elim

namespace TypedCall

variable (c : TypedCall σ)

/-- A well-typed call succeeds exactly when the function has a parameter and no array or
string argument is empty. -/
theorem accepted_iff (honest : c.module.heap.Honest)
    (total : ∀ values, c.values = some values → (c.fn.body values).isSome)
    (hserves : c.module.heap.Serves c.host.store (requests c.kinds c.args))
    (htyped : List.Forall₂ WellTyped c.kinds c.args) :
    Succeeded c.run.1 ↔ c.kinds ≠ [] ∧ ∀ j ∈ c.args, emptyRange j = false := by
  have hvalues : c.values.isSome := by
    unfold TypedCall.values
    generalize c.kinds = kinds at htyped
    generalize c.args = args at htyped
    induction htyped with
    | nil => rfl
    | cons hhead _ ih =>
      obtain ⟨v, hv⟩ := Option.isSome_iff_exists.mp
        (hostValue_of_wellTyped c.env.platform c.module.toolchain hhead)
      obtain ⟨vs, hvs⟩ := Option.isSome_iff_exists.mp ih
      simp only [hostValues, hv, hvs, Option.isSome_some]
  rw [c.succeeded_iff honest total hserves]
  exact ⟨fun h => ⟨h.1, h.2.2⟩, fun h => ⟨h.1, hvalues, h.2⟩⟩

end TypedCall

theorem joinCall_serves : arenaHeap.Serves (joinCall 64 (by decide)).host.store
    (requests (joinCall 64 (by decide)).kinds joinArgs) := by
  have hrequests : requests (joinCall 64 (by decide)).kinds joinArgs = [4, 3] := by decide +kernel
  rw [hrequests]
  exact ⟨8, _, rfl, by decide, fun _ _ => ⟨12, _, rfl, by decide, fun _ _ => trivial⟩⟩

theorem accepted_iff_join : Succeeded (joinCall 64 (by decide)).run.1 ↔
    (joinCall 64 (by decide)).kinds ≠ [] ∧ ∀ j ∈ joinArgs, emptyRange j = false := by
  apply (joinCall 64 (by decide)).accepted_iff arenaHonest (fun _ _ => rfl) joinCall_serves
  exact .cons (by simp [WellTyped, Json.isNumber]) (.cons trivial (.cons rfl .nil))

/-- `fn ping() -> u8`. -/
def pingFn : RustFn where
  decl := ⟨⟨"ping", by decide⟩, [], .scalar (.elem .u8)⟩
  body _ := some (.scalar (.elem .u8) 7#8)
  body_typed values v h := by
    cases h
    rfl

def pingCall : TypedCall Arena where
  env := default
  module := arenaModule pingFn (by decide)
  fn := pingFn
  exported := List.mem_cons_self
  sig := ⟨[], .scalar .u8⟩
  parsed := rfl
  entry := ⟨[], [("ping", ⟨[], .scalar .u8⟩)], []⟩
  listed := rfl
  moduleId := "sample"
  args := []
  host := Host.start (arenaStore 64 sampleMemory_le)

/-- A function without parameters cannot be called. -/
theorem accepted_refused : ¬ ∀ (c : TypedCall Arena) (_ : c.module.heap.Honest),
    (∀ values, c.values = some values → (c.fn.body values).isSome) →
    c.module.heap.Serves c.host.store (requests c.kinds c.args) →
    List.Forall₂ WellTyped c.kinds c.args → Succeeded c.run.1 := by
  intro hall
  have hsuccess := hall pingCall arenaHonest (fun _ _ => rfl) trivial .nil
  obtain ⟨values, v, _, _, hreached, _⟩ := pingCall.reached_of_succeeded hsuccess
  exact (pingCall.bindable_of_reached arenaHonest hreached).1.1 rfl

end CrossNative.Rust
