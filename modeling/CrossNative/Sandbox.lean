import CrossNative.CallLog

/-!
# When the host stays inside linear memory

Every access site checks where a range starts. A module that hands over ranges which
end inside memory whenever they start there keeps every access in bounds, and no other
module does.
-/

namespace CrossNative

set_option autoImplicit false

open Basis Proc

def Event.StartsInside : Event → Prop
  | handed r size => r.start < size
  | _ => True

def Event.LiesInside : Event → Prop
  | handed r size => r.stop ≤ size
  | _ => True

/-- The accesses of a stretch are in bounds exactly when its ranges fit. -/
def Checked (events : List Event) : Prop :=
  (∀ e ∈ events, e.InBounds) ↔ ∀ e ∈ events, e.Fits

theorem Checked.append {e₁ e₂ : List Event} (h₁ : Checked e₁) (h₂ : Checked e₂) :
    Checked (e₁ ++ e₂) := by
  unfold Checked at *
  rw [List.forall_mem_append, List.forall_mem_append, h₁, h₂]

theorem Checked.nil : Checked [] := by simp [Checked]

theorem checked_of_silent {events : List Event} (h : ∀ e ∈ events, e.InBounds ∧ e.Fits) :
    Checked events :=
  ⟨fun _ e he => (h e he).2, fun _ e he => (h e he).1⟩

/-- A range whose start is inside, and accesses that stay inside exactly when it does. -/
theorem checked_range {range : Block} {size : Nat} {accesses : List Event}
    (hstart : range.start < size) (hfits : ∀ e ∈ accesses, e.Fits)
    (hiff : (∀ e ∈ accesses, e.InBounds) ↔ range.stop ≤ size) :
    Checked (.handed range size :: accesses) := by
  have hhanded : (Event.handed range size).Fits ↔ range.stop ≤ size := by
    simp only [Event.Fits]
    omega
  simp only [Checked, List.forall_mem_cons, hiff, hhanded]
  exact ⟨fun h => ⟨h.2, hfits⟩, fun h => ⟨trivial, h.1⟩⟩

theorem checked_refused {range : Block} {size : Nat} (hout : size ≤ range.start) :
    Checked [.handed range size] :=
  checked_of_silent (by simpa [Event.InBounds, Event.Fits] using Or.inl hout)

/-- A binding that succeeds: its ranges start inside, and each block that will be read
back was handed over in full. -/
structure Bound (events : List Event) (blocks : List Allocation) : Prop where
  checked : Checked events
  starts : ∀ e ∈ events, e.StartsInside
  covered : ∀ a ∈ blocks, a.readBack = true →
    ∃ size, .handed ⟨a.appPtr, a.count * a.kind.size⟩ size ∈ events

instance : Additive Bound fun events _ => Checked events where
  nil := ⟨Checked.nil, by simp, by simp⟩
  append h₁ h₂ := by
    refine ⟨h₁.checked.append h₂.checked, ?_, fun a ha hread => ?_⟩
    · exact List.forall_mem_append.mpr ⟨h₁.starts, h₂.starts⟩
    · rcases List.mem_append.mp ha with ha | ha
      · obtain ⟨size, hmem⟩ := h₁.covered a ha hread
        exact ⟨size, List.mem_append_left _ hmem⟩
      · obtain ⟨size, hmem⟩ := h₂.covered a ha hread
        exact ⟨size, List.mem_append_right _ hmem⟩
  failed := Checked.nil
  after h₁ h₂ := h₁.checked.append h₂

theorem checked_allocated (b : Block) : Checked [.allocated b] :=
  checked_of_silent (by simp [Event.InBounds, Event.Fits])

theorem checked_filled {a : Allocation} {touched size : Nat} {fill : List Event}
    (hin : a.appPtr < size) (hfill : Fills ⟨a.appPtr, touched⟩ size fill) :
    Checked (placeEvents a touched size fill) := by
  have hwrites : ∀ e ∈ fill, e.Fits := fun e he => by
    obtain ⟨r, rfl, _⟩ := hfill.inside e he
    trivial
  have hrange := checked_range hin hwrites (hfill.inBounds_iff hin)
  exact (checked_allocated a.block).append hrange

theorem bound_law : BlockLaw Bound fun events _ => Checked events where
  filled a size fill _ hin hread hfill := by
    refine ⟨checked_filled hin hfill, ?_, ?_⟩
    · intro e he
      rcases List.mem_cons.mp he with rfl | he
      · trivial
      rcases List.mem_cons.mp he with rfl | he
      · exact hin
      · obtain ⟨r, rfl, _⟩ := hfill.inside e he
        trivial
    · intro b hb hback
      rw [List.mem_singleton.mp hb] at hback ⊢
      refine ⟨size, ?_⟩
      rw [← hread hback]
      exact List.mem_cons_of_mem _ List.mem_cons_self
  stopped a touched size fill _ hin hfill := checked_filled hin hfill
  outside a touched size hout :=
    (checked_allocated a.block).append (checked_refused hout)

/-! ## Reading -/

theorem size_dvd_sizeBits (P : Platform) (k : ElemKind) : k.size ∣ 2 ^ P.sizeBits :=
  Nat.dvd_trans k.size_dvd_word (BufferSpec.two_pow_sizeBits P)

/-- An element loop stays in bounds exactly when the array does, although its offsets
may wrap: a wrapped array has an element at the end of the address space. -/
theorem readEvents_inBounds_iff (P : Platform) (k : ElemKind) {mem size n : Nat} (hpos : 0 < mem)
    (hin : mem < size) (hcap : size ≤ 2 ^ 32) :
    (∀ e ∈ readEvents P k mem size 0 n, e.InBounds) ↔ mem + n * k.size ≤ size := by
  have hmember (i : Nat) (hi : i < n) :
      .reads ⟨elemOffset P k mem i, k.size⟩ size ∈ readEvents P k mem size 0 n :=
    List.mem_map.mpr ⟨i, by simpa [List.mem_range'_1] using hi, rfl⟩
  have hsize := k.size_pos
  constructor
  · intro hall
    rcases Nat.eq_zero_or_pos n with rfl | hn
    · omega
    by_cases hwrap : n * k.size ≤ 2 ^ P.sizeBits
    · have hlast := inBounds_reads_iff.mp (hall _ (hmember (n - 1) (by omega)))
      have hsplit : n * k.size = (n - 1) * k.size + k.size := by
        rw [← Nat.succ_mul, Nat.succ_eq_add_one, Nat.sub_add_cancel hn]
      rw [elemOffset, Nat.mod_eq_of_lt (by omega)] at hlast
      omega
    · obtain ⟨w, hw⟩ := size_dvd_sizeBits P k
      have hword : 2 ^ 32 ≤ 2 ^ P.sizeBits :=
        Nat.le_of_dvd (Nat.two_pow_pos _) (BufferSpec.two_pow_sizeBits P)
      rw [Nat.mul_comm] at hw
      have hwn : w < n := by
        by_contra hle
        have := Nat.mul_le_mul_right k.size (Nat.le_of_not_lt hle)
        omega
      have hwpos : 0 < w := by
        rcases Nat.eq_zero_or_pos w with rfl | h
        · omega
        · exact h
      have hlast := inBounds_reads_iff.mp (hall _ (hmember (w - 1) (by omega)))
      have hsplit : w * k.size = (w - 1) * k.size + k.size := by
        rw [← Nat.succ_mul, Nat.succ_eq_add_one, Nat.sub_add_cancel hwpos]
      rw [elemOffset, Nat.mod_eq_of_lt (by omega)] at hlast
      omega
  · intro hfits e he
    obtain ⟨r, rfl, hle, hstop⟩ := readEvents_within e he
    intro a _ ha
    simp only [Block.stop] at hstop ha
    omega

theorem checked_read {range : Block} {size : Nat} (hin : range.start < size) :
    Checked [.handed range size, .reads range size] := by
  refine checked_range hin (by simp [Event.Fits]) ?_
  simp only [List.forall_mem_singleton, Event.InBounds, Block.stop]
  constructor
  · intro h
    rcases Nat.eq_zero_or_pos range.length with hz | hpos
    · omega
    · have hlast := h (range.start + range.length - 1) (by omega) (by omega)
      omega
  · intro h a _ ha
    omega

theorem checked_returnReads (P : Platform) {returns : ValueType} {results : List Val} {range : Block}
    {size : Nat} (hrange : returnRange returns results = some range) (hpos : 0 < range.start)
    (hin : range.start < size) (hcap : size ≤ 2 ^ 32) :
    Checked (.handed range size :: returnReads P returns range size) := by
  cases returns with
  | void => simp [returnRange] at hrange
  | scalar k => simp [returnRange] at hrange
  | text => exact checked_read hin
  | vector k =>
    simp only [returnRange] at hrange
    split at hrange
    · cases hrange
    · have hlength : range.length / k.size * k.size = range.length := by
        cases hrange
        rw [Nat.mul_div_cancel _ k.size_pos]
      refine checked_range hin ?_ ?_
      · intro e he
        obtain ⟨i, _, rfl⟩ := List.mem_map.mp he
        trivial
      · simp only [returnReads]
        rw [readEvents_inBounds_iff P k hpos hin hcap, hlength]
        rfl

variable {σ : Type}

theorem freeEvents_silent (g : Guest σ) (b : Block) :
    ∀ e ∈ freeEvents g b, e.InBounds ∧ e.Fits ∧ e.StartsInside := by
  intro e he
  unfold freeEvents at he
  split at he
  · rw [List.mem_singleton.mp he]
    exact ⟨trivial, trivial, trivial⟩
  · cases he

/-- What a step leaves in the log when it checks its ranges, and what success adds. -/
def CheckedStep (h h' : Host σ) (accepted : Prop) : Prop :=
  ∃ events, h'.log = h.log ++ events ∧ Checked events ∧ (accepted → ∀ e ∈ events, e.StartsInside)

theorem starts_of_reads {events : List Event} (h : ∀ e ∈ events, ∃ r n, e = .reads r n) :
    ∀ e ∈ events, e.StartsInside := by
  intro e he
  obtain ⟨r, n, rfl⟩ := h e he
  trivial

theorem returnReads_reads (P : Platform) (returns : ValueType) (range : Block) (size : Nat) :
    ∀ e ∈ returnReads P returns range size, ∃ r n, e = .reads r n := by
  intro e he
  cases returns with
  | vector k =>
    obtain ⟨i, _, rfl⟩ := List.mem_map.mp he
    exact ⟨_, _, rfl⟩
  | _ => exact ⟨_, _, List.mem_singleton.mp he⟩

theorem readResult_checked (P : Platform) (g : Guest σ) (sig : Option Signature)
    (results : List Val) (h : Host σ) :
    CheckedStep h (readResult P g sig results h).2
      (∃ value h', readResult P g sig results h = (.ok value, h')) := by
  rcases readResult_cases P g sig results h with
    ⟨value, _, hrun⟩ | ⟨s, range, _, hrange, hpos, ⟨fault, hout, hrun⟩ | ⟨value, st, hin, _, hrun⟩⟩
  · exact ⟨[], by simp [hrun], Checked.nil, by simp⟩
  · refine ⟨[.handed range h.store.mem.size], by rw [hrun], checked_refused hout, ?_⟩
    rintro ⟨_, _, hok⟩
    rw [hrun] at hok
    cases hok
  · refine ⟨_, by rw [hrun, Host.readReturn, List.append_assoc], ?_, fun _ => ?_⟩
    · exact (checked_returnReads P hrange hpos hin h.store.mem.size_le).append
        (checked_of_silent fun e he => ⟨(freeEvents_silent g _ e he).1, (freeEvents_silent g _ e he).2.1⟩)
    · refine List.forall_mem_append.mpr ⟨List.forall_mem_cons.mpr ⟨hin, ?_⟩, fun e he =>
        (freeEvents_silent g _ e he).2.2⟩
      exact starts_of_reads (returnReads_reads P s.returns range _)

theorem Checked.covered {events reads : List Event} (h : Checked events)
    (hfits : ∀ e ∈ reads, e.Fits)
    (hcover : (∀ e ∈ events, e.Fits) → ∀ e ∈ reads, e.InBounds) : Checked (events ++ reads) := by
  unfold Checked at *
  rw [List.forall_mem_append, List.forall_mem_append]
  exact ⟨fun hall => ⟨h.mp hall.1, hfits⟩, fun hall => ⟨h.mpr hall.1, hcover hall.1⟩⟩

theorem Bound.covers {events reads : List Event} {blocks : List Allocation} {size : Nat}
    (h : Bound events blocks) (hsize : ∀ e ∈ events, e.memSize ≤ size)
    (hreads : ∀ e ∈ reads, ∃ a ∈ blocks, a.readBack = true ∧
      ∃ r, e = .reads r size ∧ r.Within ⟨a.appPtr, a.count * a.kind.size⟩)
    (hfits : ∀ e ∈ events, e.Fits) : ∀ e ∈ reads, e.InBounds := by
  intro e he
  obtain ⟨a, ha, hread, r, rfl, _, hstop⟩ := hreads e he
  obtain ⟨n, hmem⟩ := h.covered a ha hread
  have hstart := h.starts _ hmem
  have hfit := hfits _ hmem
  have hle := hsize _ hmem
  simp only [Event.StartsInside, Event.Fits, Event.memSize, Block.stop] at hstart hfit hle hstop
  intro x _ hx
  simp only [Block.stop] at hx
  omega

theorem runCall_checked (env : Env) (g : Guest σ) (entry : ModuleEntry) (func : Func)
    (args : List Json) (h : Host σ) (hstart : h.allocations = []) :
    CheckedStep h (runCall env g entry func args h).2
      (Succeeded (runCall env g entry func args h).1) := by
  have hbinding := bindCall_ends (bound_law.bytes g) (bound_law.buffers env.platform g) func
    args (entry.signatures.lookup func.name)
  have hfinished (results : Option (List Val)) : Checked [.finished func.name results] :=
    checked_of_silent (by simp [Event.InBounds, Event.Fits])
  rcases runCall_cases env g entry func args h rfl with
    ⟨fault, h₁, hbind, hrun⟩ | ⟨h₁, st, hbind, hgrow, ⟨exc, _, hrun⟩ | ⟨results, _, hrun⟩⟩
  · obtain ⟨_, events, _, hlog, _, _, hchecked⟩ := hbinding.of_failure hbind
    rw [hrun]
    exact ⟨events, hlog, hchecked, fun hok => absurd hok (not_succeeded_error _)⟩
  · obtain ⟨_, events, _, hlog, _, _, hbound⟩ := hbinding.of_run hbind
    rw [hrun]
    exact ⟨events ++ [.finished func.name none], by simp [hlog],
      hbound.checked.append (hfinished none), fun hok => absurd hok (not_succeeded_error _)⟩
  · obtain ⟨_, events, blocks, hlog, hblocks, hsize, hbound⟩ := hbinding.of_run hbind
    rw [hstart, List.nil_append] at hblocks
    let h₂ : Host σ := { h₁ with store := st, log := h₁.log ++ [.finished func.name (some results)] }
    obtain ⟨reads, hreads, hcases⟩ := readCall_cases env g (entry.signatures.lookup func.name) results h₂
    have hfits : ∀ e ∈ reads, e.Fits := fun e he => by
      obtain ⟨_, _, _, r, rfl, _⟩ := hreads e he
      trivial
    have hprefix : Checked (events ++ [.finished func.name (some results)] ++ reads) := by
      refine (hbound.checked.append (hfinished _)).covered hfits fun hall => ?_
      refine hbound.covers (fun e he => Nat.le_trans (hsize e he) hgrow) ?_
        (List.forall_mem_append.mp hall).1
      rw [← hblocks]
      exact hreads
    rw [hrun]
    rcases hcases with ⟨fault, hread⟩ | ⟨outputs, _, hread⟩
    · rw [hread]
      exact ⟨_, by simp [h₂, hlog], hprefix, fun hok => absurd hok (not_succeeded_error _)⟩
    · obtain ⟨hstate, hok⟩ := readCall_state env g (entry.signatures.lookup func.name) results
        { h₂ with log := h₂.log ++ reads } outputs
      obtain ⟨events', hlog', hchecked', hstarts'⟩ := readResult_checked env.platform g
        (entry.signatures.lookup func.name) results { h₂ with log := h₂.log ++ reads }
      rw [hread]
      refine ⟨events ++ [.finished func.name (some results)] ++ reads ++ events', ?_,
        hprefix.append hchecked', fun hsuccess => ?_⟩
      · rw [hstate, hlog']
        simp [h₂, hlog]
      · refine List.forall_mem_append.mpr ⟨List.forall_mem_append.mpr
          ⟨List.forall_mem_append.mpr ⟨hbound.starts, by simp [Event.StartsInside]⟩, ?_⟩,
          hstarts' (hok hsuccess)⟩
        refine starts_of_reads fun e he => ?_
        obtain ⟨_, _, _, r, rfl, _⟩ := hreads e he
        exact ⟨r, _, rfl⟩

theorem freeBlocks_silent (g : Guest σ) (blocks : List Allocation) (h : Host σ) :
    ∃ events, (freeBlocks g blocks h).2.log = h.log ++ events ∧
      ∀ e ∈ events, e.InBounds ∧ e.Fits ∧ e.StartsInside := by
  induction blocks generalizing h with
  | nil => exact ⟨[], by simp [freeBlocks, pure_run], by simp⟩
  | cons a rest ih =>
    obtain ⟨st, _, hrun⟩ := wasmFree_log g a.appPtr a.byteSize h
    obtain ⟨events, hlog, hsilent⟩ := ih
      { h with store := st, log := h.log ++ freeEvents g ⟨a.appPtr, a.byteSize⟩ }
    refine ⟨freeEvents g ⟨a.appPtr, a.byteSize⟩ ++ events, ?_, ?_⟩
    · rw [freeBlocks, bind_of_ok hrun, hlog, List.append_assoc]
    · exact List.forall_mem_append.mpr ⟨freeEvents_silent g _, hsilent⟩

theorem callEntry_checked (env : Env) (g : Guest σ) (entry : ModuleEntry)
    (moduleId functionName : String) (args : Except String Json) (h : Host σ) :
    CheckedStep h (callEntry env g entry moduleId functionName args h).2
      (Succeeded (callEntry env g entry moduleId functionName args h).1) := by
  rcases callEntry_cases env g entry moduleId functionName args h with
    ⟨failure, hrun⟩ | ⟨items, func, _, _, hrun⟩
  · rw [hrun]
    exact ⟨[], by simp, Checked.nil, by simp⟩
  · obtain ⟨events, hlog, hchecked, hstarts⟩ :=
      runCall_checked env g entry func items { h with vals := [], allocations := [] } rfl
    obtain ⟨frees, hfrees, hsilent⟩ := freeBlocks_silent g
      (runCall env g entry func items { h with vals := [], allocations := [] }).2.allocations
      (runCall env g entry func items { h with vals := [], allocations := [] }).2
    rw [hrun]
    refine ⟨events ++ frees, ?_, ?_, fun hok => ?_⟩
    · simp only [withBinder, hfrees, hlog, List.append_assoc]
    · exact hchecked.append (checked_of_silent fun e he => ⟨(hsilent e he).1, (hsilent e he).2.1⟩)
    · exact List.forall_mem_append.mpr ⟨hstarts hok.withBinder, fun e he => (hsilent e he).2.2⟩

theorem readMetadata_checked (g : Guest σ) (metaName : String) (h : Host σ) :
    ∃ document h', readMetadata g metaName h = (.ok document, h') ∧
      CheckedStep h h' (document ≠ none) := by
  unfold readMetadata
  cases g.lookup metaName with
  | none => exact ⟨none, h, rfl, [], by simp, Checked.nil, by simp⟩
  | some func =>
    obtain ⟨reply, st, hcall, _⟩ := callWasmA_run g func 1 [] h
    simp only [bind_of_ok hcall]
    cases reply with
    | error exc => exact ⟨none, _, rfl, [], by simp, Checked.nil, by simp⟩
    | ok rets =>
      simp only
      generalize (unpackHandle (rets.headD (.i64 0)).ofI64).1 = ptr
      generalize (unpackHandle (rets.headD (.i64 0)).ofI64).2 = length
      by_cases hempty : ptr = 0 ∨ length = 0
      · rw [if_pos hempty]
        exact ⟨some [], _, rfl, [], by simp, Checked.nil, by simp⟩
      · rw [if_neg hempty]
        have hhand : handOver ptr length { h with store := st } = (.ok (), { h with
            store := st, log := h.log ++ [.handed ⟨ptr, length⟩ st.mem.size] }) := rfl
        have hptr (h : Host σ) : nativePtr ptr h = (.ok (decide (ptr < h.store.mem.size)), h) := rfl
        simp only [bind_of_ok hhand, bind_of_ok (hptr _)]
        by_cases hin : ptr < st.mem.size
        · have hread (h : Host σ) : readBytes ptr length h = (.ok (h.store.mem.read ptr length),
              { h with log := h.log ++ [.reads ⟨ptr, length⟩ h.store.mem.size] }) := rfl
          simp only [hin, decide_true, if_true, bind_of_ok (hread _)]
          obtain ⟨st', _, hfree⟩ := wasmFree_log g ptr length { h with
            store := st
            log := h.log ++ [.handed ⟨ptr, length⟩ st.mem.size] ++ [.reads ⟨ptr, length⟩ st.mem.size] }
          refine ⟨_, _, by rw [bind_of_ok hfree, pure_run], ?_⟩
          refine ⟨[.handed ⟨ptr, length⟩ st.mem.size, .reads ⟨ptr, length⟩ st.mem.size] ++
            freeEvents g ⟨ptr, length⟩, by simp, ?_, fun _ => ?_⟩
          · exact (checked_read hin).append (checked_of_silent fun e he =>
              ⟨(freeEvents_silent g _ e he).1, (freeEvents_silent g _ e he).2.1⟩)
          · exact List.forall_mem_append.mpr ⟨by simp [Event.StartsInside, hin], fun e he =>
              (freeEvents_silent g _ e he).2.2⟩
        · simp only [hin, decide_false]
          exact ⟨none, _, rfl, [.handed ⟨ptr, length⟩ st.mem.size], rfl,
            checked_refused (by simp only; omega), by simp⟩

theorem readExport_checked (env : Env) (g : Guest σ) (exported : String) (entry : ModuleEntry)
    (h : Host σ) :
    ∃ entry' h', readExport env g exported entry h = (.ok entry', h') ∧
      CheckedStep h h' (entry' ≠ entry) := by
  unfold readExport
  split
  · obtain ⟨document, h', hread, hstep⟩ := readMetadata_checked g exported h
    rw [bind_of_ok hread]
    obtain ⟨events, hlog, hchecked, hstarts⟩ := hstep
    rcases document with - | (- | ⟨b, bs⟩)
    · exact ⟨entry, h', rfl, events, hlog, hchecked, by simp⟩
    · exact ⟨entry, h', rfl, events, hlog, hchecked, by simp⟩
    · simp only
      cases env.parse (b :: bs) with
      | error what => exact ⟨entry, h', rfl, events, hlog, hchecked, by simp⟩
      | ok doc => exact ⟨addDocument entry doc, h', rfl, events, hlog, hchecked, fun _ => hstarts (by simp)⟩
  · exact ⟨entry, h, rfl, [], by simp, Checked.nil, by simp⟩

/-! ## Sessions -/

/-- One loaded module: its instance and what was read from its metadata. -/
structure Session (σ : Type) where
  host : Host σ
  entry : ModuleEntry

inductive Action
  | readExport (exported : String)
  | call (functionName : String) (args : Except String Json)

section Sessions

variable (env : Env) (g : Guest σ) (moduleId : String)

def perform (s : Session σ) : Action → Session σ
  | .readExport exported =>
    match readExport env g exported s.entry s.host with
    | (.ok entry, h) => ⟨h, entry⟩
    | (.error _, h) => ⟨h, s.entry⟩
  | .call functionName args => ⟨(callEntry env g s.entry moduleId functionName args s.host).2, s.entry⟩

def performAll (s : Session σ) (actions : List Action) : Session σ :=
  actions.foldl (perform env g moduleId) s

def Accepted (s : Session σ) : Action → Prop
  | .readExport exported => (perform env g moduleId s (.readExport exported)).entry ≠ s.entry
  | .call functionName args => Succeeded (callEntry env g s.entry moduleId functionName args s.host).1

def newEvents (s s' : Session σ) : List Event := s'.host.log.drop s.host.log.length

/-- The action touches linear memory only inside, and reports a range that does not fit. -/
structure Contained (s : Session σ) (a : Action) : Prop where
  inBounds : ∀ e ∈ newEvents s (perform env g moduleId s a), e.InBounds
  reported : Accepted env g moduleId s a →
    ∀ e ∈ newEvents s (perform env g moduleId s a), e.LiesInside

def ContainedAll : Session σ → List Action → Prop
  | _, [] => True
  | s, a :: rest => Contained env g moduleId s a ∧ ContainedAll (perform env g moduleId s a) rest

theorem perform_checked (s : Session σ) (a : Action) :
    CheckedStep s.host (perform env g moduleId s a).host (Accepted env g moduleId s a) := by
  cases a with
  | readExport exported =>
    obtain ⟨entry', h', hrun, hstep⟩ := readExport_checked env g exported s.entry s.host
    simpa only [Accepted, perform, hrun] using hstep
  | call functionName args => exact callEntry_checked env g s.entry moduleId functionName args s.host

theorem liesInside_of_fits {e : Event} (hfits : e.Fits) (hstart : e.StartsInside) : e.LiesInside := by
  cases e with
  | handed r size =>
    simp only [Event.Fits, Event.StartsInside, Event.LiesInside] at *
    omega
  | _ => trivial

/-- The step lemma: an action is contained exactly when the ranges it is handed fit. -/
theorem contained_iff (s : Session σ) (a : Action) :
    Contained env g moduleId s a ↔ ∀ e ∈ newEvents s (perform env g moduleId s a), e.Fits := by
  obtain ⟨events, hlog, hchecked, hstarts⟩ := perform_checked env g moduleId s a
  have hnew : newEvents s (perform env g moduleId s a) = events := by
    rw [newEvents, hlog, List.drop_left]
  constructor
  · intro h
    have hin := h.inBounds
    rw [hnew] at hin ⊢
    exact hchecked.mp hin
  · intro hfits
    rw [hnew] at hfits
    refine ⟨?_, fun hok e he => ?_⟩
    · rw [hnew]
      exact hchecked.mpr hfits
    · rw [hnew] at he
      exact liesInside_of_fits (hfits e he) (hstarts hok e he)

theorem performAll_log (s : Session σ) (actions : List Action) :
    ∃ events, (performAll env g moduleId s actions).host.log = s.host.log ++ events := by
  induction actions generalizing s with
  | nil => exact ⟨[], by simp [performAll]⟩
  | cons a rest ih =>
    obtain ⟨events, hlog, _, _⟩ := perform_checked env g moduleId s a
    obtain ⟨events', hlog'⟩ := ih (perform env g moduleId s a)
    exact ⟨events ++ events', by rw [← List.append_assoc, ← hlog, ← hlog']; rfl⟩

theorem loadEntry_eq_performAll (h : Host σ) :
    loadEntry env g h =
      let s := performAll env g moduleId ⟨h, g.exports.map Prod.fst, [], []⟩
        ((g.exports.map Prod.fst).map Action.readExport)
      (.ok s.entry, s.host) := by
  unfold loadEntry
  simp only
  generalize ModuleEntry.mk (g.exports.map Prod.fst) [] [] = entry
  induction g.exports.map Prod.fst generalizing h entry with
  | nil => rfl
  | cons exported rest ih =>
    obtain ⟨entry', h', hrun, _⟩ := readExport_checked env g exported entry h
    rw [readManifest, bind_of_ok hrun, ih]
    simp [performAll, perform, hrun]

/-- The host stays in the sandbox during a session, loads included, exactly when every
range that the module hands over inside memory also ends there. -/
theorem session_contained_iff (s : Session σ) (actions : List Action) :
    ContainedAll env g moduleId s actions ↔
      ∀ e ∈ newEvents s (performAll env g moduleId s actions), e.Fits := by
  induction actions generalizing s with
  | nil => simp [ContainedAll, newEvents, performAll]
  | cons a rest ih =>
    obtain ⟨events, hlog, _, _⟩ := perform_checked env g moduleId s a
    obtain ⟨events', hlog'⟩ := performAll_log env g moduleId (perform env g moduleId s a) rest
    have hfirst : newEvents s (perform env g moduleId s a) = events := by
      rw [newEvents, hlog, List.drop_left]
    have hrest : newEvents (perform env g moduleId s a)
        (performAll env g moduleId (perform env g moduleId s a) rest) = events' := by
      rw [newEvents, hlog', List.drop_left]
    have hall : newEvents s (performAll env g moduleId s (a :: rest)) = events ++ events' := by
      have : performAll env g moduleId s (a :: rest) =
          performAll env g moduleId (perform env g moduleId s a) rest := rfl
      rw [newEvents, this, hlog', hlog, List.append_assoc, List.drop_left]
    rw [ContainedAll, contained_iff, ih, hfirst, hrest, hall, List.forall_mem_append]

end Sessions

/-- A module whose allocator answers every request with the last byte of memory. -/
def edgeGuest : Guest Unit where
  exports := [(kAllocFn, ⟨[.i32], [.i32]⟩), ("sum", ⟨[.i32], []⟩)]
  run _ _ st := (.ok fun _ => BitVec.ofNat 64 (st.mem.size - 1), st)
  grows _ _ _ := Nat.le_refl _

def edgeSession : Session Unit :=
  ⟨Host.start ⟨(), ⟨16, by decide, fun _ => 0⟩⟩, ["cn_alloc", "sum"], [], []⟩

/-- Two bytes go to the last byte of a memory of sixteen, and one of them behind it. -/
theorem session_not_contained :
    ¬ ContainedAll default edgeGuest "edge" edgeSession
      [.call "sum" (.ok (.arr [.obj [("in", .arr [.int 1, .int 2]), ("type", .str "u8")]]))] := by
  rintro ⟨⟨hbounds, _⟩, _⟩
  have hmem : Event.writes ⟨16, 1⟩ 16 ∈ newEvents edgeSession (perform default edgeGuest "edge" edgeSession
      (.call "sum" (.ok (.arr [.obj [("in", .arr [.int 1, .int 2]), ("type", .str "u8")]])))) := by
    decide
  have := hbounds _ hmem 16 (Nat.le_refl _) (by decide)
  omega

end CrossNative
