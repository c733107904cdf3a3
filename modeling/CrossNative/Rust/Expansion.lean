import CrossNative.Rust.Hygiene
import CrossNative.Rust.Native

/-!
# What the generated bodies pass on

The two bodies run by names alone. Where every name is found as it is meant, the shim calls the
user's function with what `decodeArgs` makes of its slots, and the closure with what `nativeDecode`
makes of the request; a decoder that fails ends the body as it ends these.
-/

namespace CrossNative.Rust

set_option autoImplicit false

open Basis NumberedParam

/-- What a name holds while a generated body runs. -/
inductive Cell
  | userFn
  | okVariant
  | request (args : List Json)
  | slot (v : Val)
  | value (v : RustValue)

section Run

variable (T : Toolchain) (mem : LinearMemory)

def runDecode : Decode → List Cell → Except String Cell
  | .sliceFrom s _, [.slot ptr, .slot len] =>
    match sliceFrom mem ptr.ofI32 len.ofI32 s.size with
    | some records => .ok (.value (.vec s (records.map fun bs => BitVec.ofNat _ (leValue bs))))
    | none => .error "out of bounds memory access"
  | .stringFrom, [.slot ptr, .slot len] =>
    match sliceFrom mem ptr.ofI32 len.ofI32 1 with
    | some bytes => .ok (.value (.text (fromUtf8Lossy T.replaced bytes.flatten)))
    | none => .error "out of bounds memory access"
  | .asStr, [.value v] => .ok (.value v)
  | .argScalar s i, [.request args] => (argScalar s args i).map fun v => .value (.scalar s v)
  | .argVec s i, [.request args] => (argVec s args i).map fun vs => .value (.vec s vs)
  | .argString i, [.request args] => (argString args i).map fun text => .value (.text text)
  | _, _ => .error "mismatched types"

/-- A cell as an argument; a scalar of the shim is still in its slot. -/
def Cell.pass (kind : Kind) : Cell → Option RustValue
  | .slot v =>
    match kind with
    | .scalar s => some (.scalar s (decodeScalar T s v))
    | _ => none
  | .value v => some v
  | _ => none

/-- A body run on the cells of its parameters: what stands for the function and for the other names
of the tail, and the arguments. -/
def FnDecl.runBody (f : FnDecl) (body : Body) (cells : List Cell) :
    Except String (List Cell × List (Option RustValue)) := do
  let outer := (body.params.map Prod.fst).zip cells ++ [(f.symbol, .userFn), (okName, .okVariant)]
  let env ← runLets "cannot find value" (runDecode T mem) outer body.lets
  let named ← readAll "cannot find value" env (body.callee :: body.others)
  let args ← readAll "cannot find value" env body.args
  pure (named, List.zipWith (Cell.pass T) (f.params.map ParamDecl.kind) args)

/-- In a body whose names resolve, the bindings tell what is called with what. -/
theorem runBody_of_resolves {f : FnDecl} {body : Body} (den : Binding → Cell)
    (h : body.Resolves f.globals) (hfn : den .userFn = .userFn) (hok : den .okVariant = .okVariant)
    (hden : ∀ stmt ∈ body.lets, ∀ v,
      runDecode T mem stmt.op (stmt.reads.map fun use => den use.meant) = .ok v →
        v = den stmt.binds) :
    f.runBody T mem body (body.params.map fun entry => den entry.2) =
      (checkLets (runDecode T mem) den body.lets).map fun _ =>
        ((body.callee :: body.others).map fun use => den use.meant,
          List.zipWith (Cell.pass T) (f.params.map ParamDecl.kind)
            (body.args.map fun use => den use.meant)) := by
  have houter : (body.params.map Prod.fst).zip (body.params.map fun entry => den entry.2) ++
      [(f.symbol, Cell.userFn), (okName, .okVariant)] =
        denote den (body.params ++ f.globals) := by
    simp [denote, FnDecl.globals, List.zip_map', hfn, hok]
  have hnamed : ∀ use ∈ body.callee :: body.others,
      use.Resolves (enter (body.params ++ f.globals) body.lets) := by
    rw [List.forall_mem_cons]
    exact ⟨h.callee, h.others⟩
  simp only [FnDecl.runBody, houter, runLets_denote _ _ den h.lets hden, bind, Except.bind]
  cases checkLets (runDecode T mem) den body.lets with
  | error e => rfl
  | ok u =>
    simp only [Except.map, readAll_denote _ den hnamed, readAll_denote _ den h.args]
    rfl

/-! ## The shim -/

section Shim

-- What the slot of each parameter of the shim holds.
variable (slotOf : Binding → Val)

/-- What a parameter is decoded to; a scalar stays in its slot. -/
def shimCell (p : NumberedParam) : Except String Cell :=
  match p.1.kind with
  | .scalar _ => .ok (.slot (slotOf (.value p.2)))
  | .slice s owned =>
    runDecode T mem (.sliceFrom s owned) [.slot (slotOf (.ptr p.2)), .slot (slotOf (.len p.2))]
  | .text _ => runDecode T mem .stringFrom [.slot (slotOf (.ptr p.2)), .slot (slotOf (.len p.2))]
  | .unit => .error "mismatched types"

def shimDen (f : FnDecl) : Binding → Cell
  | .userFn => .userFn
  | .okVariant => .okVariant
  | .closureArgs => .request []
  | .ptr i => .slot (slotOf (.ptr i))
  | .len i => .slot (slotOf (.len i))
  | .value i | .borrowed i =>
    match f.params[i]? with
    | some p => (shimCell T mem slotOf (p, i)).toOption.getD .userFn
    | none => .userFn

variable {T mem slotOf} {f : FnDecl} {p : NumberedParam}

theorem getElem?_of_numbered (h : p ∈ f.numbered) : f.params[p.2]? = some p.1 :=
  List.mem_zipIdx_iff_getElem?.mp h

theorem shimDen_value (h : p ∈ f.numbered) :
    shimDen T mem slotOf f (.value p.2) = (shimCell T mem slotOf p).toOption.getD .userFn := by
  simp only [shimDen, getElem?_of_numbered h]

theorem shimDen_of_ok {cell : Cell} (h : p ∈ f.numbered)
    (hcell : shimCell T mem slotOf p = .ok cell) :
    shimDen T mem slotOf f (.value p.2) = cell := by
  rw [shimDen_value h, hcell]
  rfl

theorem shimDen_signature (h : p ∈ f.numbered) :
    ∀ entry ∈ p.signature, shimDen T mem slotOf f entry.2 = .slot (slotOf entry.2) := by
  have hvalue : shimDen T mem slotOf f (.value p.2) = _ := shimDen_value h
  unfold signature
  unfold shimCell at hvalue
  split <;> simp_all [shimDen, Except.toOption]

theorem runDecode_asStr {cell v : Cell} (h : runDecode T mem .asStr [cell] = .ok v) : v = cell := by
  unfold runDecode at h
  split at h <;> simp_all

theorem runDecode_stringFrom {ptr len : Val} {v : Cell}
    (h : runDecode T mem .stringFrom [.slot ptr, .slot len] = .ok v) : ∃ text, v = .value text := by
  simp only [runDecode] at h
  split at h
  · exact ⟨_, (Except.ok.inj h).symm⟩
  · simp at h

theorem shimDen_sound (h : p ∈ f.numbered) : ∀ stmt ∈ p.prologue, ∀ v,
    runDecode T mem stmt.op (stmt.reads.map fun use => shimDen T mem slotOf f use.meant) = .ok v →
      v = shimDen T mem slotOf f stmt.binds := by
  have hcell : ∀ v, shimCell T mem slotOf p = .ok v → v = shimDen T mem slotOf f (.value p.2) :=
    fun v hv => (shimDen_of_ok h hv).symm
  obtain ⟨⟨name, kind⟩, i⟩ := p
  cases kind with
  | scalar s => simp [prologue]
  | slice elem owned =>
    intro stmt hstmt
    rw [prologue, List.mem_singleton] at hstmt
    rw [hstmt]
    exact hcell
  | text owned =>
    intro stmt hstmt
    cases owned with
    | true =>
      rw [prologue, List.mem_singleton] at hstmt
      rw [hstmt]
      exact hcell
    | false =>
      rw [prologue, List.mem_cons, List.mem_singleton] at hstmt
      rcases hstmt with hstmt | hstmt
      · rw [hstmt]
        exact hcell
      · rw [hstmt]
        exact fun v hv => runDecode_asStr hv
  | unit => simp [prologue]

theorem bind_unit_eq_map {x : Except String Cell} :
    (x.bind fun _ => .ok ()) = x.map fun _ => () := by
  cases x <;> rfl

/-- The `let`s of a parameter fail exactly if it cannot be decoded. -/
theorem checkLets_prologue (h : p ∈ f.numbered) (hunit : p.1.kind ≠ .unit) :
    checkLets (runDecode T mem) (shimDen T mem slotOf f) p.prologue =
      (shimCell T mem slotOf p).map fun _ => () := by
  have hcell : ∀ v, shimCell T mem slotOf p = .ok v → shimDen T mem slotOf f (.value p.2) = v :=
    fun v hv => shimDen_of_ok h hv
  obtain ⟨⟨name, kind⟩, i⟩ := p
  cases kind with
  | scalar s => rfl
  | slice elem owned => exact bind_unit_eq_map
  | text owned =>
    cases owned with
    | true => exact bind_unit_eq_map
    | false =>
      cases hread : shimCell T mem slotOf (⟨name, .text false⟩, i) with
      | error e =>
        change Except.bind (shimCell T mem slotOf (⟨name, .text false⟩, i)) _ = _
        rw [hread]
        rfl
      | ok v =>
        have htext : runDecode T mem .stringFrom
            [.slot (slotOf (.ptr i)), .slot (slotOf (.len i))] = .ok v := hread
        obtain ⟨text, rfl⟩ := runDecode_stringFrom htext
        change Except.bind (shimCell T mem slotOf (⟨name, .text false⟩, i)) (fun _ =>
          Except.bind (runDecode T mem .asStr [shimDen T mem slotOf f (.value i)]) fun _ => .ok ()) = _
        rw [hread, hcell _ hread]
        rfl
  | unit => exact absurd rfl hunit

theorem shimDen_argument :
    shimDen T mem slotOf f p.shimArgument = shimDen T mem slotOf f (.value p.2) := by
  unfold shimArgument
  split <;> rfl

variable (T mem slotOf) in
theorem shimCell_cases (hunit : p.1.kind ≠ .unit) :
    shimCell T mem slotOf p = .error "out of bounds memory access" ∨
      ∃ cell v, shimCell T mem slotOf p = .ok cell ∧ cell.pass T p.1.kind = some v := by
  obtain ⟨⟨name, kind⟩, i⟩ := p
  cases kind with
  | scalar s => exact .inr ⟨_, _, rfl, rfl⟩
  | slice elem owned =>
    simp only [shimCell, runDecode]
    split
    · exact .inr ⟨_, _, rfl, rfl⟩
    · exact .inl rfl
  | text owned =>
    simp only [shimCell, runDecode]
    split
    · exact .inr ⟨_, _, rfl, rfl⟩
    · exact .inl rfl
  | unit => exact absurd rfl hunit

/-- `decodeArgs` takes one parameter after the other. -/
theorem decodeArgs_cons (hunit : p.1.kind ≠ .unit) (kinds : List Kind) (slots : List Val) :
    decodeArgs T mem (p.1.kind :: kinds) (p.signature.map (fun entry => slotOf entry.2) ++ slots) =
      match shimCell T mem slotOf p with
      | .ok cell =>
        (cell.pass T p.1.kind).bind fun v => (decodeArgs T mem kinds slots).map (v :: ·)
      | .error _ => none := by
  obtain ⟨⟨name, kind⟩, i⟩ := p
  cases kind with
  | scalar s => rfl
  | slice elem owned =>
    simp only [signature, List.map_cons, List.map_nil, List.cons_append, List.nil_append,
      decodeArgs, shimCell, runDecode]
    cases sliceFrom mem (slotOf (.ptr i)).ofI32 (slotOf (.len i)).ofI32 elem.size <;> rfl
  | text owned =>
    simp only [signature, List.map_cons, List.map_nil, List.cons_append, List.nil_append,
      decodeArgs, shimCell, runDecode]
    cases sliceFrom mem (slotOf (.ptr i)).ofI32 (slotOf (.len i)).ofI32 1 <;> rfl
  | unit => exact absurd rfl hunit

variable (T mem slotOf) in
theorem shim_row {l : List NumberedParam} (hl : ∀ p ∈ l, p ∈ f.numbered)
    (hunit : ∀ p ∈ l, p.1.kind ≠ .unit) :
    (checkLets (runDecode T mem) (shimDen T mem slotOf f) (l.flatMap prologue)).map (fun _ =>
        List.zipWith (Cell.pass T) (l.map fun p => p.1.kind)
          (l.map fun p => shimDen T mem slotOf f p.shimArgument)) =
      match decodeArgs T mem (l.map fun p => p.1.kind)
        ((l.flatMap signature).map fun entry => slotOf entry.2) with
      | some values => .ok (values.map some)
      | none => .error "out of bounds memory access" := by
  induction l with
  | nil => rfl
  | cons p l ih =>
    rw [List.forall_mem_cons] at hl hunit
    have hrest := ih hl.2 hunit.2
    rw [List.flatMap_cons, List.flatMap_cons, checkLets_append, List.map_append, List.map_cons,
      List.map_cons, List.zipWith_cons_cons, decodeArgs_cons hunit.1,
      checkLets_prologue hl.1 hunit.1, shimDen_argument]
    rcases shimCell_cases T mem slotOf hunit.1 with hcell | ⟨cell, v, hcell, hpass⟩
    · rw [hcell]
      rfl
    · rw [shimDen_of_ok hl.1 hcell, hcell, hpass]
      change ((checkLets (runDecode T mem) (shimDen T mem slotOf f) (l.flatMap prologue)).map
        fun _ => _) = _
      cases hcheck : checkLets (runDecode T mem) (shimDen T mem slotOf f) (l.flatMap prologue) <;>
        cases hdecode : decodeArgs T mem (l.map fun p => p.1.kind)
          ((l.flatMap signature).map fun entry => slotOf entry.2) <;>
        simp_all [Except.map]

theorem map_pair {A C : Type} (x : Except String Unit) (a : A) (c : C) :
    (x.map fun _ => (a, c)) = (x.map fun _ => c).map (Prod.mk a) := by
  cases x <;> rfl

variable (T mem slotOf f)

theorem shim_runs_of_slotOf (h : f.Hygienic) :
    f.runBody T mem f.shimBody (f.shimBody.params.map fun entry => .slot (slotOf entry.2)) =
      match decodeArgs T mem (f.params.map ParamDecl.kind)
        (f.shimBody.params.map fun entry => slotOf entry.2) with
      | some values => .ok ([.userFn], values.map some)
      | none => .error "out of bounds memory access" := by
  have hunit := no_unit_of_shimArgs (numbered_numbered f) h.shimArgs
  have hcells : f.shimBody.params.map (fun entry => Cell.slot (slotOf entry.2)) =
      f.shimBody.params.map fun entry => shimDen T mem slotOf f entry.2 := by
    apply List.map_congr_left
    intro entry hentry
    obtain ⟨p, hp, hentry⟩ := List.mem_flatMap.mp hentry
    exact (shimDen_signature hp entry hentry).symm
  have hsound : ∀ stmt ∈ f.shimBody.lets, ∀ v,
      runDecode T mem stmt.op (stmt.reads.map fun use => shimDen T mem slotOf f use.meant) = .ok v →
        v = shimDen T mem slotOf f stmt.binds :=
    List.forall_mem_flatMap.mpr fun p hp => shimDen_sound hp
  have hargs : f.shimBody.args.map (fun use => shimDen T mem slotOf f use.meant) =
      f.numbered.map fun p => shimDen T mem slotOf f p.shimArgument := by
    have hmeant := congrArg (List.map (shimDen T mem slotOf f)) h.shimArgs
    rwa [List.map_map, List.map_map] at hmeant
  have hkinds : f.params.map ParamDecl.kind = f.numbered.map fun p => p.1.kind := by
    rw [← numbered_fst f, List.map_map]
    rfl
  have hrow := shim_row T mem slotOf (fun p hp => hp) hunit
  rw [hcells, runBody_of_resolves T mem _ h.shim rfl rfl hsound, hargs, hkinds, map_pair]
  change Except.map (Prod.mk [Cell.userFn]) ((checkLets (runDecode T mem) (shimDen T mem slotOf f)
    (f.numbered.flatMap prologue)).map _) = _
  rw [hrow]
  change _ = match decodeArgs T mem (f.numbered.map fun p => p.1.kind)
    ((f.numbered.flatMap signature).map fun entry => slotOf entry.2) with
    | some values => Except.ok ([Cell.userFn], values.map some)
    | none => .error "out of bounds memory access"
  cases decodeArgs T mem (f.numbered.map fun p => p.1.kind)
    ((f.numbered.flatMap signature).map fun entry => slotOf entry.2) <;> rfl

end Shim

/-- The slots of a call, by the bindings they are for. -/
theorem exists_slotOf {A B : Type} [DecidableEq A] (other : B) {keys : List A} (hnodup : keys.Nodup)
    {slots : List B} (hlength : slots.length = keys.length) :
    ∃ slotOf : A → B, keys.map slotOf = slots := by
  induction keys generalizing slots with
  | nil => exact ⟨fun _ => other, (List.length_eq_zero_iff.mp hlength).symm⟩
  | cons key keys ih =>
    cases slots with
    | nil => simp at hlength
    | cons slot slots =>
      rw [List.nodup_cons] at hnodup
      obtain ⟨slotOf, hslots⟩ := ih hnodup.2 (Nat.succ.inj hlength)
      refine ⟨Function.update slotOf key slot, ?_⟩
      rw [List.map_cons, Function.update_self, ← hslots]
      congr 1
      apply List.map_congr_left
      intro second hsecond
      apply Function.update_of_ne
      intro heq
      rw [heq] at hsecond
      exact hnodup.1 hsecond

theorem signature_bindings_nodup (f : FnDecl) : (f.shimBody.params.map Prod.snd).Nodup := by
  change ((f.numbered.flatMap signature).map Prod.snd).Nodup
  rw [List.map_flatMap, List.nodup_flatMap]
  constructor
  · intro p _
    unfold signature
    split <;> simp
  · apply (numbered_numbered f).imp
    intro p q hne
    change (p.signature.map Prod.snd).Disjoint (q.signature.map Prod.snd)
    unfold signature
    split <;> split <;> simp [hne.symm]

theorem shimType_length (f : FnDecl) : f.shimType.params.length = f.shimBody.params.length := by
  have hone : ∀ p : NumberedParam, p.signature.length = p.1.kind.shimParams.length := by
    intro p
    unfold signature
    split <;> simp [Kind.shimParams, *]
  change (f.params.flatMap fun p => p.kind.shimParams).length = (f.numbered.flatMap signature).length
  rw [List.length_flatMap, List.length_flatMap, ← numbered_fst f, List.map_map]
  simp only [hone]
  rfl

/-- A call of the shim hands over what `decodeArgs` makes of the slots, or traps as it does. -/
theorem shim_passes_decoded {f : FnDecl} (h : f.Hygienic) {slots : List Val}
    (hlength : slots.length = f.shimType.params.length) :
    f.runBody T mem f.shimBody (slots.map .slot) =
      match decodeArgs T mem (f.params.map ParamDecl.kind) slots with
      | some values => .ok ([.userFn], values.map some)
      | none => .error "out of bounds memory access" := by
  rw [shimType_length, ← List.length_map (f := Prod.snd)] at hlength
  obtain ⟨slotOf, hslots⟩ := exists_slotOf (.i32 0) (signature_bindings_nodup f) hlength
  have hrun := shim_runs_of_slotOf T mem slotOf f h
  rw [List.map_map] at hslots
  have hcells : f.shimBody.params.map (fun entry => Cell.slot (slotOf entry.2)) =
      slots.map .slot := by
    rw [← hslots, List.map_map]
    rfl
  rw [hcells] at hrun
  rw [hrun, ← hslots]
  rfl

/-! ## The closure -/

section Native

variable (args : List Json)

def nativeOp (kind : Kind) (i : Nat) : Decode :=
  match kind with
  | .scalar s => .argScalar s i
  | .slice s _ => .argVec s i
  | _ => .argString i

def nativeDen (f : FnDecl) : Binding → Cell
  | .userFn => .userFn
  | .okVariant => .okVariant
  | .value i =>
    match f.params[i]? with
    | some p => (runDecode T mem (nativeOp p.kind i) [.request args]).toOption.getD .userFn
    | none => .userFn
  | _ => .request args

theorem nativeDecode_op {p : NumberedParam} (hunit : p.1.kind ≠ .unit) :
    p.nativeDecode = [⟨p.symbol, .value p.2, nativeOp p.1.kind p.2, [argsUse]⟩] := by
  unfold NumberedParam.nativeDecode nativeOp
  split <;> simp_all

/-- The decoder that is called is the one that `argValues` describes. -/
theorem nativeOp_cases {kind : Kind} (hunit : kind ≠ .unit) (i : Nat) :
    (∃ e, runDecode T mem (nativeOp kind i) [.request args] = .error e ∧
        argValues kind args i = .error e) ∨
      ∃ v, runDecode T mem (nativeOp kind i) [.request args] = .ok (.value v) ∧
        argValues kind args i = .ok [v] := by
  cases kind with
  | scalar s =>
    simp only [nativeOp, runDecode, argValues]
    cases argScalar s args i with
    | error e => exact .inl ⟨e, rfl, rfl⟩
    | ok v => exact .inr ⟨_, rfl, rfl⟩
  | slice s owned =>
    simp only [nativeOp, runDecode, argValues]
    cases argVec s args i with
    | error e => exact .inl ⟨e, rfl, rfl⟩
    | ok vs => exact .inr ⟨_, rfl, rfl⟩
  | text owned =>
    simp only [nativeOp, runDecode, argValues]
    cases argString args i with
    | error e => exact .inl ⟨e, rfl, rfl⟩
    | ok text => exact .inr ⟨_, rfl, rfl⟩
  | unit => exact absurd rfl hunit

variable {T mem args} {f : FnDecl}

theorem nativeDen_of_ok {p : NumberedParam} {cell : Cell} (h : p ∈ f.numbered)
    (hcell : runDecode T mem (nativeOp p.1.kind p.2) [.request args] = .ok cell) :
    nativeDen T mem args f (.value p.2) = cell := by
  simp only [nativeDen, getElem?_of_numbered h, hcell]
  rfl

variable (T mem args) in
theorem native_row {ps : List ParamDecl} {i : Nat} (hl : ∀ p ∈ ps.zipIdx i, p ∈ f.numbered)
    (hunit : ∀ p ∈ ps.zipIdx i, p.1.kind ≠ .unit) :
    (checkLets (runDecode T mem) (nativeDen T mem args f)
        ((ps.zipIdx i).flatMap NumberedParam.nativeDecode)).map (fun _ =>
          List.zipWith (Cell.pass T) (ps.map ParamDecl.kind)
            ((ps.zipIdx i).map fun p => nativeDen T mem args f (.value p.2))) =
      (nativeDecode args (ps.map ParamDecl.kind) i).map (List.map some) := by
  induction ps generalizing i with
  | nil => rfl
  | cons p ps ih =>
    rw [List.zipIdx_cons, List.forall_mem_cons] at hl hunit
    have hrest := ih hl.2 hunit.2
    rw [List.zipIdx_cons, List.flatMap_cons, nativeDecode_op hunit.1, List.map_cons, List.map_cons,
      List.zipWith_cons_cons]
    change Except.map _ ((runDecode T mem (nativeOp p.kind i) [.request args]).bind fun _ =>
      checkLets (runDecode T mem) (nativeDen T mem args f)
        ((ps.zipIdx (i + 1)).flatMap NumberedParam.nativeDecode)) = _
    rw [CrossNative.Rust.nativeDecode]
    rcases nativeOp_cases T mem args hunit.1 i with ⟨e, hcell, hvalues⟩ | ⟨v, hcell, hvalues⟩
    · rw [hcell, hvalues]
      rfl
    · rw [nativeDen_of_ok hl.1 hcell, hcell, hvalues]
      change Except.map _ (checkLets (runDecode T mem) (nativeDen T mem args f)
        ((ps.zipIdx (i + 1)).flatMap NumberedParam.nativeDecode)) = _
      cases hcheck : checkLets (runDecode T mem) (nativeDen T mem args f)
          ((ps.zipIdx (i + 1)).flatMap NumberedParam.nativeDecode) <;>
        cases hdecode : nativeDecode args (ps.map ParamDecl.kind) (i + 1) <;>
        simp_all [Except.map, Cell.pass]

variable (T mem args)

/-- A call of the closure hands over what `nativeDecode` makes of the request, or fails with its
error. -/
theorem closure_passes_decoded (h : f.Hygienic) :
    f.runBody T mem f.nativeBody [.request args] =
      (nativeDecode args (f.params.map ParamDecl.kind) 0).map fun values =>
        ([.userFn, .okVariant], values.map some) := by
  have hunit := no_unit_of_shimArgs (numbered_numbered f) h.shimArgs
  have hsound : ∀ stmt ∈ f.nativeBody.lets, ∀ v,
      runDecode T mem stmt.op (stmt.reads.map fun use => nativeDen T mem args f use.meant) = .ok v →
        v = nativeDen T mem args f stmt.binds := by
    intro stmt hstmt v hv
    obtain ⟨p, hp, hstmt⟩ := List.mem_flatMap.mp hstmt
    rw [nativeDecode_op (hunit p hp), List.mem_singleton] at hstmt
    rw [hstmt] at hv ⊢
    exact (nativeDen_of_ok hp hv).symm
  have hargs : f.nativeBody.args.map (fun use => nativeDen T mem args f use.meant) =
      f.numbered.map fun p => nativeDen T mem args f (.value p.2) := by
    have hmeant := congrArg (List.map (nativeDen T mem args f)) h.nativeArgs
    rwa [List.map_map, List.map_map] at hmeant
  have hnumbered : ∀ p ∈ f.params.zipIdx 0, p ∈ f.numbered := fun p hp => hp
  have hrow := native_row T mem args hnumbered hunit
  have hrun := runBody_of_resolves T mem (nativeDen T mem args f) h.native rfl rfl hsound
  rw [hargs, map_pair] at hrun
  change f.runBody T mem f.nativeBody [.request args] = Except.map (Prod.mk [.userFn, .okVariant])
    ((checkLets (runDecode T mem) (nativeDen T mem args f)
      (f.numbered.flatMap NumberedParam.nativeDecode)).map _) at hrun
  rw [hrun]
  change Except.map _ (Except.map _ (checkLets (runDecode T mem) (nativeDen T mem args f)
    ((f.params.zipIdx 0).flatMap NumberedParam.nativeDecode))) = _
  have hcompose : ∀ x : Except String (List RustValue),
      (x.map (List.map some)).map (Prod.mk [Cell.userFn, .okVariant]) =
        x.map fun values => ([Cell.userFn, .okVariant], values.map some) := by
    intro x
    cases x <;> rfl
  rw [← hcompose, ← hrow]
  rfl

end Native

end Run

end CrossNative.Rust
