import CrossNative.CallLog
import CrossNative.Rust.Arena
import CrossNative.Rust.Handle

/-!
# Marshalling memory is balanced

Every block that `cn_alloc` answered with during binding goes to `cn_free` when the call
is over, and nothing else does except a returned handle that has been read.
-/

namespace CrossNative

set_option autoImplicit false

open Basis Proc

def Event.finished? : Event → Option (Option (List Val))
  | .finished _ results => some results
  | _ => none

def finishedOf (log : List Event) : List (Option (List Val)) := log.filterMap Event.finished?

@[simp] theorem finishedOf_append (l₁ l₂ : List Event) :
    finishedOf (l₁ ++ l₂) = finishedOf l₁ ++ finishedOf l₂ := List.filterMap_append

/-- Binding records every block it is given, frees none and runs no target function. -/
structure Recorded (events : List Event) (blocks : List Allocation) : Prop where
  allocated : allocatedOf events = blocks.map Allocation.block
  freed : freedOf events = []
  finished : finishedOf events = []

theorem Recorded.append {e₁ e₂ : List Event} {b₁ b₂ : List Allocation} (h₁ : Recorded e₁ b₁)
    (h₂ : Recorded e₂ b₂) : Recorded (e₁ ++ e₂) (b₁ ++ b₂) where
  allocated := by rw [allocatedOf_append, h₁.allocated, h₂.allocated, List.map_append]
  freed := by rw [freedOf_append, h₁.freed, h₂.freed, List.append_nil]
  finished := by rw [finishedOf_append, h₁.finished, h₂.finished, List.append_nil]

theorem Recorded.nil : Recorded [] [] := ⟨rfl, rfl, rfl⟩

instance : Additive Recorded Recorded := ⟨Recorded.nil, .append, Recorded.nil, .append⟩

theorem recorded_of_accesses {events : List Event}
    (h : ∀ e ∈ events, (∃ r n, e = .reads r n) ∨ (∃ r n, e = .writes r n) ∨ ∃ r n, e = .handed r n) :
    Recorded events [] := by
  induction events with
  | nil => exact Recorded.nil
  | cons e rest ih =>
    have hrest := ih fun e' he' => h e' (List.mem_cons_of_mem _ he')
    have hhead : Recorded [e] [] := by
      rcases h e List.mem_cons_self with ⟨r, n, rfl⟩ | ⟨r, n, rfl⟩ | ⟨r, n, rfl⟩ <;>
        exact ⟨rfl, rfl, rfl⟩
    exact hhead.append hrest

theorem recorded_placed (a : Allocation) (touched size : Nat) {fill : List Event}
    (h : ∀ e ∈ fill, ∃ r, e = .writes r size) :
    Recorded (placeEvents a touched size fill) [a] := by
  have hfill : Recorded fill [] := recorded_of_accesses fun e he => by
    obtain ⟨r, rfl⟩ := h e he
    exact Or.inr (Or.inl ⟨r, size, rfl⟩)
  have hhead : Recorded [.allocated a.block, .handed ⟨a.appPtr, touched⟩ size] [a] := ⟨rfl, rfl, rfl⟩
  exact hhead.append hfill

theorem recorded_law : BlockLaw Recorded Recorded where
  filled a size fill _ _ _ hfill :=
    recorded_placed a _ size fun e he => (hfill.inside e he).imp fun _ hr => hr.1
  stopped a touched size fill _ _ hfill :=
    recorded_placed a touched size fun e he => (hfill.inside e he).imp fun _ hr => hr.1
  outside a touched size _ := recorded_placed a touched size (by simp)

/-- The block a read result releases, if its handle is not empty. -/
def releasedBlocks (P : Platform) (sig : Option Signature) (results : List Val) : List Block :=
  match sig with
  | none => []
  | some s => (returnRange s.returns results).toList.map (returnBlock P s.returns)

/-- The log of one call up to the end of its result reading. -/
structure CallBody (P : Platform) (sig : Option Signature) (reply : Except Fault Envelope)
    (body : List Event) : Prop where
  finished : (finishedOf body).length ≤ 1
  /-- Nothing but the returned handle has been freed, and only after the function. -/
  freed : freedOf body = [] ∨ ∃ results, finishedOf body = [some results] ∧
    freedOf body = releasedBlocks P sig results
  success : Succeeded reply → ∃ results, finishedOf body = [some results] ∧
    freedOf body = releasedBlocks P sig results

theorem CallBody.of_failure {P : Platform} {sig : Option Signature} {fault : Fault}
    {body : List Event} (hfinished : (finishedOf body).length ≤ 1) (hfreed : freedOf body = []) :
    CallBody P sig (.error fault) body :=
  ⟨hfinished, Or.inl hfreed, by rintro ⟨_, _, h⟩; cases h⟩

variable {σ : Type}

theorem freeBlocks_log {g : Guest σ} (hfree : g.frees) (blocks : List Allocation)
    (h : Host σ) : (freeBlocks g blocks h).2.log =
      h.log ++ (blocks.map Allocation.block).map Event.freed := by
  induction blocks generalizing h with
  | nil => simp [freeBlocks, pure_run]
  | cons a rest ih =>
    obtain ⟨st, _, hrun⟩ := wasmFree_log g a.appPtr a.byteSize h
    rw [freeBlocks, bind_of_ok hrun, ih]
    simp [freeEvents, hfree, Allocation.block]

theorem recorded_returnReads (P : Platform) (returns : ValueType) (range : Block) (size : Nat) :
    Recorded (.handed range size :: returnReads P returns range size) [] := by
  apply recorded_of_accesses
  intro e he
  rcases List.mem_cons.mp he with rfl | he
  · exact Or.inr (Or.inr ⟨range, size, rfl⟩)
  cases returns with
  | vector k =>
    obtain ⟨i, _, rfl⟩ := List.mem_map.mp he
    exact Or.inl ⟨_, _, rfl⟩
  | _ =>
    rw [List.mem_singleton.mp he]
    exact Or.inl ⟨_, _, rfl⟩

/-- Reading after a call: nothing is recorded, and at most the returned handle is released. -/
structure Releases (released : List Block) (complete : Prop) (h h' : Host σ) (events : List Event) :
    Prop where
  log : h'.log = h.log ++ events
  allocations : h'.allocations = h.allocations
  allocated : allocatedOf events = []
  finished : finishedOf events = []
  freed : freedOf events = [] ∨ freedOf events = released
  all : complete → freedOf events = released

/-- Accesses in front of a reading. -/
theorem Releases.after_reads {released : List Block} {complete : Prop} {h h' : Host σ}
    {reads events : List Event} (hreads : Recorded reads [])
    (hrest : Releases released complete { h with log := h.log ++ reads } h' events) :
    Releases released complete h h' (reads ++ events) := by
  constructor
  · rw [hrest.log, List.append_assoc]
  · exact hrest.allocations
  · rw [allocatedOf_append, hreads.allocated, hrest.allocated]
    rfl
  · rw [finishedOf_append, hreads.finished, hrest.finished]
    rfl
  · rw [freedOf_append, hreads.freed]
    exact hrest.freed
  · rw [freedOf_append, hreads.freed]
    exact hrest.all

theorem readResult_releases {g : Guest σ} (hfree : g.frees) (P : Platform)
    (sig : Option Signature) (results : List Val) (h : Host σ) :
    ∃ events, Releases (releasedBlocks P sig results)
      (∃ value h', readResult P g sig results h = (.ok value, h')) h (readResult P g sig results h).2
      events := by
  rcases readResult_cases P g sig results h with
    ⟨value, hnone, hrun⟩ | ⟨s, range, rfl, hrange, _, ⟨fault, _, hrun⟩ | ⟨value, st, _, _, hrun⟩⟩
  · have hreleased : releasedBlocks P sig results = [] := by
      cases sig with
      | none => rfl
      | some s => simp [releasedBlocks, hnone s rfl]
    refine ⟨[], by simp [hrun], by rw [hrun], rfl, rfl, Or.inl rfl, fun _ => ?_⟩
    rw [hreleased]
    rfl
  · refine ⟨[.handed range h.store.mem.size], by rw [hrun], by rw [hrun], rfl, rfl, Or.inl rfl, ?_⟩
    rintro ⟨_, _, hok⟩
    rw [hrun] at hok
    cases hok
  · have hreads := recorded_returnReads P s.returns range h.store.mem.size
    have hfreed : freedOf ((.handed range h.store.mem.size ::
        returnReads P s.returns range h.store.mem.size) ++
          freeEvents g (returnBlock P s.returns range)) = releasedBlocks P (some s) results := by
      rw [freedOf_append, hreads.freed]
      simp [freeEvents, hfree, releasedBlocks, hrange, freedOf, Event.freed?]
    refine ⟨_, by rw [hrun, Host.readReturn, List.append_assoc], by rw [hrun]; rfl, ?_, ?_,
      Or.inr hfreed, fun _ => hfreed⟩
    · rw [allocatedOf_append, hreads.allocated]
      simp [freeEvents, hfree, allocatedOf, Event.allocated?]
    · rw [finishedOf_append, hreads.finished]
      simp [freeEvents, hfree, finishedOf, Event.finished?]

theorem readCall_releases {g : Guest σ} (hfree : g.frees) (env : Env)
    (sig : Option Signature) (results : List Val) (h : Host σ) :
    ∃ events, Releases (releasedBlocks env.platform sig results)
      (Succeeded (readCall env g sig results h).1) h (readCall env g sig results h).2 events := by
  obtain ⟨reads, hreads, ⟨fault, hrun⟩ | ⟨outputs, _, hrun⟩⟩ := readCall_cases env g sig results h
  all_goals
    have hrecorded : Recorded reads [] := recorded_of_accesses fun e he => by
      obtain ⟨a, _, _, r, rfl, _⟩ := hreads e he
      exact Or.inl ⟨r, _, rfl⟩
  · refine ⟨reads, by rw [hrun], by rw [hrun], hrecorded.allocated, hrecorded.finished,
      Or.inl hrecorded.freed, ?_⟩
    rw [hrun]
    rintro ⟨_, _, hok⟩
    cases hok
  · obtain ⟨events, hrest⟩ :=
      readResult_releases hfree env.platform sig results { h with log := h.log ++ reads }
    obtain ⟨hresult, hsuccess⟩ := readCall_state env g sig results { h with log := h.log ++ reads } outputs
    have hstate : (readCall env g sig results h).2 =
        (readResult env.platform g sig results { h with log := h.log ++ reads }).2 := by
      rw [hrun, hresult]
    have hread := hrest.after_reads hrecorded
    refine ⟨reads ++ events, ?_⟩
    rw [hstate]
    refine { hread with all := fun hok => hread.all (hsuccess ?_) }
    rw [← hrun]
    exact hok

section Finished

variable {events events' : List Event} (name : String) (ended : Option (List Val))

theorem finishedOf_around (h : finishedOf events = []) (h' : finishedOf events' = []) :
    finishedOf (events ++ .finished name ended :: events') = [ended] := by
  rw [finishedOf_append, h]
  simp only [finishedOf, List.filterMap_cons, Event.finished?, List.nil_append] at h' ⊢
  rw [h']

theorem freedOf_around (h : freedOf events = []) :
    freedOf (events ++ .finished name ended :: events') = freedOf events' := by
  rw [freedOf_append, h]
  rfl

theorem allocatedOf_around (h' : allocatedOf events' = []) :
    allocatedOf (events ++ .finished name ended :: events') = allocatedOf events := by
  rw [allocatedOf_append]
  simp only [allocatedOf, List.filterMap_cons, Event.allocated?] at h' ⊢
  rw [h', List.append_nil]

end Finished

theorem runCall_body {g : Guest σ} (hfree : g.frees) (env : Env)
    (entry : ModuleEntry) (func : Func) (args : List Json) (h : Host σ) (hstart : h.allocations = [])
    {sig : Option Signature} (hsig : entry.signatures.lookup func.name = sig) :
    ∃ body, (runCall env g entry func args h).2.log = h.log ++ body ∧
      allocatedOf body = (runCall env g entry func args h).2.allocations.map Allocation.block ∧
      CallBody env.platform sig (runCall env g entry func args h).1 body ∧
      ∀ results, finishedOf body = [some results] → ∃ h₁ h₂,
        callWasmA g func func.type.results.length h₁.vals h₁ = (.ok (.ok results), h₂) := by
  have hbinding := bindCall_ends (recorded_law.bytes g) (recorded_law.buffers env.platform g)
    func args sig
  rcases runCall_cases env g entry func args h hsig with
    ⟨fault, h₁, hbind, hrun⟩ | ⟨h₁, st, hbind, _, ⟨exc, hcall, hrun⟩ | ⟨results, hcall, hrun⟩⟩
  · obtain ⟨_, events, blocks, hlog, hblocks, _, hrec⟩ := hbinding.of_failure hbind
    rw [hstart, List.nil_append] at hblocks
    rw [hrun]
    refine ⟨events, hlog, by rw [hrec.allocated, hblocks],
      CallBody.of_failure (by simp [hrec.finished]) hrec.freed, fun results hfin => ?_⟩
    rw [hrec.finished] at hfin
    cases hfin
  · obtain ⟨_, events, blocks, hlog, hblocks, _, hrec⟩ := hbinding.of_run hbind
    rw [hstart, List.nil_append] at hblocks
    rw [hrun]
    have hfinished : finishedOf (events ++ [.finished func.name none]) = [none] :=
      finishedOf_around func.name none hrec.finished rfl
    refine ⟨events ++ [.finished func.name none], by simp [hlog], ?_,
      CallBody.of_failure (by simp [hfinished]) ?_, fun results hfin => ?_⟩
    · rw [allocatedOf_around func.name none rfl, hrec.allocated, hblocks]
    · exact freedOf_around func.name none hrec.freed
    · rw [hfinished] at hfin
      cases hfin
  · obtain ⟨_, events, blocks, hlog, hblocks, _, hrec⟩ := hbinding.of_run hbind
    rw [hstart, List.nil_append] at hblocks
    obtain ⟨events', hread⟩ := readCall_releases hfree env sig results
      { h₁ with store := st, log := h₁.log ++ [.finished func.name (some results)] }
    have hfinished := finishedOf_around func.name (some results) hrec.finished hread.finished
    have hfreedBody : freedOf (events ++ .finished func.name (some results) :: events') =
        freedOf events' := freedOf_around func.name (some results) hrec.freed
    rw [hrun]
    refine ⟨events ++ .finished func.name (some results) :: events', ?_, ?_, ?_, ?_⟩
    · rw [hread.log, hlog]
      simp
    · rw [hread.allocations, allocatedOf_around func.name (some results) hread.allocated,
        hrec.allocated, hblocks]
    · refine ⟨by simp [hfinished], ?_, fun hsuccess => ⟨results, hfinished, ?_⟩⟩
      · rw [hfreedBody]
        exact hread.freed.imp_right fun hrel => ⟨results, hfinished, hrel⟩
      · rw [hfreedBody, hread.all hsuccess]
    · intro results' hfin'
      rw [hfinished] at hfin'
      cases hfin'
      exact ⟨h₁, _, hcall⟩

/-- A macro-built function with a handle result leaves one block to release behind every
handle with a pointer. -/
theorem releasedBlocks_of_function {m : Rust.RustModule σ} {f : Rust.RustFn} (hf : f ∈ m.functions)
    {s : Signature} (hsig : f.decl.hostSignature = some s) (hhandle : s.returns.IsHandle)
    {args : List Val} {h h' : Host σ} {results : List Val}
    (hcall : callWasmA m.guest ⟨f.decl.name.text, f.decl.shimType⟩ f.decl.shimType.results.length
      args h = (.ok (.ok results), h'))
    (hptr : (unpackHandle (results.headD (.i64 0)).ofI64).1 ≠ 0) (P : Platform) :
    ∃ b : Block, b.start = (unpackHandle (results.headD (.i64 0)).ofI64).1 ∧
      releasedBlocks P (some s) results = [b] := by
  have hresult := Rust.Kind.handle_result (Rust.hostSignature_eq_some hsig).2 hhandle
  rw [Rust.RustModule.callWasmA_function hf] at hcall
  split at hcall
  · cases hcall
  · cases hshim : m.runShim f args h.store with
    | mk reply st =>
      rw [hshim] at hcall
      cases reply with
      | error trap => cases hcall
      | ok cell =>
        simp only [Prod.mk.injEq, Except.ok.injEq, Rust.RustModule.shimResults, hresult.1,
          List.map_cons, List.map_nil, Val.ofCells] at hcall
        obtain ⟨rfl, _⟩ := hcall
        simp only [List.headD_cons, Val.ofI64_i64] at hptr ⊢
        have hcount := Rust.RustModule.handle_count_ne_zero hshim hresult.1 hresult.2 hptr
        simp only [releasedBlocks]
        generalize s.returns = returns at hhandle
        cases returns with
        | void => exact hhandle.elim
        | scalar k => exact hhandle.elim
        | vector k =>
          exact ⟨returnBlock P (.vector k) ⟨(unpackHandle cell).1, (unpackHandle cell).2 * k.size⟩, rfl,
            by simp [returnRange, hptr, hcount]⟩
        | text =>
          exact ⟨⟨(unpackHandle cell).1, (unpackHandle cell).2⟩, rfl, by simp [returnRange, hptr, hcount, returnBlock]⟩

/-- With a `cn_free` that takes a pointer and a size, memory is balanced however a call ends: its
log is a body followed by the release of every argument block, in order, and the body releases
nothing but the handle of a result that was read. -/
theorem call_balanced {g : Guest σ} (hfree : g.frees) (env : Env)
    (entry : ModuleEntry) (moduleId functionName : String) (args : Except String Json) (h : Host σ) :
    ∃ body, (callEntry env g entry moduleId functionName args h).2.log =
        h.log ++ body ++ (allocatedOf body).map Event.freed ∧
      CallBody env.platform (entry.signatures.lookup functionName)
        (callEntry env g entry moduleId functionName args h).1 body ∧
      ∀ (m : Rust.RustModule σ) (f : Rust.RustFn) (s : Signature), g = m.guest →
        f ∈ m.functions → functionName = f.decl.name.text →
        entry.signatures.lookup functionName = some s → f.decl.hostSignature = some s →
        s.returns.IsHandle → Succeeded (callEntry env g entry moduleId functionName args h).1 →
        ∃ results, finishedOf body = [some results] ∧
          ((unpackHandle (results.headD (.i64 0)).ofI64).1 = 0 → freedOf body = []) ∧
          ((unpackHandle (results.headD (.i64 0)).ofI64).1 ≠ 0 → ∃ b : Block,
            b.start = (unpackHandle (results.headD (.i64 0)).ofI64).1 ∧ freedOf body = [b]) := by
  rcases callEntry_cases env g entry moduleId functionName args h with
    ⟨failure, hrun⟩ | ⟨items, func, rfl, hlookup, hrun⟩
  · have hfailed : ¬ Succeeded (callEntry env g entry moduleId functionName args h).1 := by
      rintro ⟨_, _, hok⟩
      rw [hrun] at hok
      cases hok
    exact ⟨[], by simp [hrun], ⟨by simp [finishedOf], Or.inl rfl, fun hok => absurd hok hfailed⟩,
      fun _ _ _ _ _ _ _ _ _ hok => absurd hok hfailed⟩
  · have hname := lookup_name hlookup
    subst hname
    obtain ⟨body, hlog, halloc, hbody, hcall⟩ := runCall_body hfree env entry func items
      { h with vals := [], allocations := [] } rfl rfl
    rw [hrun]
    refine ⟨body, ?_, ⟨hbody.finished, hbody.freed, fun hok => hbody.success hok.withBinder⟩, ?_⟩
    · simp only [withBinder, freeBlocks_log hfree, hlog, halloc]
    · intro m f s hg hf hname hentry hsig hhandle hok
      obtain ⟨results, hfinished, hfreed⟩ := hbody.success hok.withBinder
      obtain ⟨h₁, h₂, hrunCall⟩ := hcall results hfinished
      subst hg
      have hfunc : func = ⟨f.decl.name.text, f.decl.shimType⟩ := by
        have := Rust.RustModule.lookup_function hf
        rw [← hname, hlookup] at this
        simpa [hname] using this
      rw [hentry] at hfreed
      refine ⟨results, hfinished, fun hnull => ?_, fun hptr => ?_⟩
      · rw [hfreed, releasedBlocks, returnRange_of_null hnull]
        rfl
      · subst hfunc
        rw [hfreed]
        exact releasedBlocks_of_function hf hsig hhandle hrunCall hptr env.platform

theorem call_balanced_join :
    ∃ body, (callEntry default Rust.joinModule.guest Rust.joinEntry "sample" "join"
        (.ok (.arr Rust.joinArgs)) Rust.joinHost).2.log =
          Rust.joinHost.log ++ body ++ (allocatedOf body).map Event.freed ∧
      CallBody default (some Rust.joinSig) (callEntry default Rust.joinModule.guest Rust.joinEntry
        "sample" "join" (.ok (.arr Rust.joinArgs)) Rust.joinHost).1 body ∧
      ∃ results, finishedOf body = [some results] ∧
        ((unpackHandle (results.headD (.i64 0)).ofI64).1 = 0 → freedOf body = []) ∧
        ((unpackHandle (results.headD (.i64 0)).ofI64).1 ≠ 0 → ∃ b : Block,
          b.start = (unpackHandle (results.headD (.i64 0)).ofI64).1 ∧ freedOf body = [b]) := by
  obtain ⟨body, hlog, hbody, hhandle⟩ := call_balanced Rust.joinModule.guest_frees default
    Rust.joinEntry "sample" "join" (.ok (.arr Rust.joinArgs)) Rust.joinHost
  exact ⟨body, hlog, hbody, hhandle Rust.joinModule Rust.joinFn Rust.joinSig rfl List.mem_cons_self
    rfl rfl rfl trivial (by decide +kernel)⟩

/-- The sample module with a `cn_free` that takes one `i64`. -/
def deafGuest : Guest Rust.Arena :=
  { Rust.joinModule.guest with
    exports := Rust.joinModule.exports.map fun export_ =>
      if export_.1 = kFreeFn then (kFreeFn, ⟨[.i64], []⟩) else export_ }

/-- The runtime refuses the call of such a `cn_free`, which nobody reports: the block of
the argument stays allocated. -/
theorem call_not_balanced : ¬ ∀ g : Guest Rust.Arena, (g.lookup kAllocFn).isSome →
    (g.lookup kFreeFn).isSome → ∀ (env : Env) (entry : ModuleEntry) (moduleId functionName : String)
      (args : Except String Json) (h : Host Rust.Arena),
    ∃ body, (callEntry env g entry moduleId functionName args h).2.log =
      h.log ++ body ++ (allocatedOf body).map Event.freed := by
  intro hall
  obtain ⟨body, hlog⟩ := hall deafGuest (by decide) (by decide) default Rust.joinEntry "sample" "join"
    (.ok (.arr Rust.joinArgs)) Rust.joinHost
  have hfreed := congrArg freedOf hlog
  have hallocated := congrArg allocatedOf hlog
  have hnone : freedOf (callEntry default deafGuest Rust.joinEntry "sample" "join"
      (.ok (.arr Rust.joinArgs)) Rust.joinHost).2.log = [] := by decide +kernel
  have hblocks : allocatedOf (callEntry default deafGuest Rust.joinEntry "sample" "join"
      (.ok (.arr Rust.joinArgs)) Rust.joinHost).2.log ≠ [] := by decide +kernel
  rw [hnone, freedOf_append, freedOf_map_freed] at hfreed
  rw [allocatedOf_append, allocatedOf_map_freed, List.append_nil] at hallocated
  have hbody : allocatedOf body = [] := (List.append_eq_nil_iff.mp hfreed.symm).2
  exact hblocks (hallocated.trans hbody)

end CrossNative
