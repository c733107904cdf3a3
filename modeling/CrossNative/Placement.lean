import CrossNative.Binding

/-!
# What one placed block leaves behind

A fill writes its block piece by piece, all at one memory size. With the start of the
block inside memory, its accesses stay inside exactly when the block does. The blocks
of a whole binding are judged one at a time, by a `BlockLaw`.
-/

namespace CrossNative

set_option autoImplicit false

open Basis Proc

/-- The accesses of a fill: inside the block, and reaching its end. -/
structure Fills (block : Block) (size : Nat) (events : List Event) : Prop where
  inside : ∀ e ∈ events, ∃ r, e = .writes r size ∧ r.Within block
  covers : (∀ e ∈ events, e.InBounds) → block.length = 0 ∨ block.stop ≤ size

theorem inBounds_writes_iff {start len size : Nat} :
    (Event.writes ⟨start, len⟩ size).InBounds ↔ len = 0 ∨ start + len ≤ size := by
  simp only [Event.InBounds, Block.stop]
  constructor
  · intro h
    rcases Nat.eq_zero_or_pos len with hz | hpos
    · exact Or.inl hz
    · have hlast := h (start + len - 1) (by omega) (by omega)
      exact Or.inr (by omega)
  · intro h a h₁ h₂
    omega

theorem inBounds_reads_iff {start len size : Nat} :
    (Event.reads ⟨start, len⟩ size).InBounds ↔ len = 0 ∨ start + len ≤ size :=
  inBounds_writes_iff

theorem Fills.nil (start size : Nat) : Fills ⟨start, 0⟩ size [] :=
  ⟨by simp, fun _ => Or.inl rfl⟩

theorem Fills.single (start len size : Nat) :
    Fills ⟨start, len⟩ size [.writes ⟨start, len⟩ size] := by
  refine ⟨?_, fun h => inBounds_writes_iff.mp (h _ List.mem_cons_self)⟩
  intro e he
  rw [List.mem_singleton.mp he]
  exact ⟨_, rfl, Nat.le_refl _, Nat.le_refl _⟩

theorem Fills.cons {start n m size : Nat} {events : List Event}
    (h : Fills ⟨start + n, m⟩ size events) :
    Fills ⟨start, n + m⟩ size (.writes ⟨start, n⟩ size :: events) := by
  constructor
  · intro e he
    rcases List.mem_cons.mp he with rfl | he
    · exact ⟨_, rfl, Nat.le_refl _, by simp only [Block.stop]; omega⟩
    · obtain ⟨r, rfl, hstart, hstop⟩ := h.inside e he
      simp only [Block.stop] at hstart hstop
      exact ⟨r, rfl, by simp only; omega, by simp only [Block.stop]; omega⟩
  · intro hall
    have hhead := inBounds_writes_iff.mp (hall _ List.mem_cons_self)
    have htail := h.covers fun e he => hall e (List.mem_cons_of_mem _ he)
    simp only [Block.stop] at htail ⊢
    omega

theorem Fills.inBounds_iff {block : Block} {size : Nat} {events : List Event}
    (h : Fills block size events) (hstart : block.start < size) :
    (∀ e ∈ events, e.InBounds) ↔ block.stop ≤ size := by
  constructor
  · intro hall
    rcases h.covers hall with hempty | hstop
    · rw [Block.stop, hempty]
      omega
    · exact hstop
  · intro hstop e he
    obtain ⟨r, rfl, hle, hwithin⟩ := h.inside e he
    intro a _ ha
    omega

variable {σ : Type}

structure Host.Wrote (h h' : Host σ) (events : List Event) : Prop where
  size : h'.store.mem.size = h.store.mem.size
  vals : h'.vals = h.vals
  allocations : h'.allocations = h.allocations
  log : h'.log = h.log ++ events

theorem Host.Wrote.refl (h : Host σ) : h.Wrote h [] := ⟨rfl, rfl, rfl, by simp⟩

theorem writeBytes_run (off : Nat) (bs : List UInt8) (h : Host σ) :
    (writeBytes off bs h).1 = .ok () ∧
      h.Wrote (writeBytes off bs h).2 [.writes ⟨off, bs.length⟩ h.store.mem.size] :=
  ⟨rfl, rfl, rfl, rfl, rfl⟩

/-- The fill loop stops at the first element that does not convert. -/
theorem fillElems_run (P : Platform) (k : ElemKind) (mem e : Nat) (values : List Json) (h : Host σ) :
    ∃ events, h.Wrote (fillElems P k mem e values h).2 events ∧
      Fills ⟨mem + e * k.size, (values.takeWhile (Convertible k)).length * k.size⟩
        h.store.mem.size events ∧
      ((fillElems P k mem e values h).1 = .ok () → values.takeWhile (Convertible k) = values) := by
  induction values generalizing e h with
  | nil => exact ⟨[], Host.Wrote.refl h, by simpa using Fills.nil _ _, fun _ => rfl⟩
  | cons value rest ih =>
    cases hwrite : writeElem P k value with
    | error fault =>
      have hconv : Convertible k value = false := by
        rw [Bool.eq_false_iff]
        intro hc
        obtain ⟨v, hv⟩ := (getElem_ok_iff P k value).mpr hc
        simp [writeElem, hv] at hwrite
      have hrun : fillElems P k mem e (value :: rest) h = (.error fault, h) := by
        simp [fillElems, hwrite, bind, Proc.lift]
      rw [hrun]
      exact ⟨[], Host.Wrote.refl h, by simpa [hconv] using Fills.nil _ _, fun hok => by cases hok⟩
    | ok bs =>
      have hconv : Convertible k value = true := by
        obtain ⟨v, hv, _⟩ := writeElem_ok_iff.mp hwrite
        exact (getElem_ok_iff P k value).mp ⟨v, hv⟩
      have hlen : bs.length = k.size := writeElem_length hwrite
      have hrun : fillElems P k mem e (value :: rest) h =
          fillElems P k mem (e + 1) rest (writeBytes (mem + e * k.size) bs h).2 := by
        simp only [fillElems, hwrite, bind, Proc.lift]
        rfl
      obtain ⟨_, hwrote⟩ := writeBytes_run (mem + e * k.size) bs h
      obtain ⟨events, hrest, hfills, hall⟩ := ih (e + 1) (writeBytes (mem + e * k.size) bs h).2
      rw [hrun]
      refine ⟨.writes ⟨mem + e * k.size, k.size⟩ h.store.mem.size :: events, ?_, ?_, ?_⟩
      · refine ⟨hrest.size, hrest.vals, hrest.allocations, ?_⟩
        rw [hrest.log, hwrote.log, hlen, List.append_assoc]
        rfl
      · have hnext : mem + (e + 1) * k.size = mem + e * k.size + k.size := by
          rw [Nat.add_mul, Nat.one_mul, Nat.add_assoc]
        rw [hwrote.size, hnext] at hfills
        have hcount : ((value :: rest).takeWhile (Convertible k)).length * k.size =
            k.size + (rest.takeWhile (Convertible k)).length * k.size := by
          simp only [List.takeWhile_cons, hconv, if_true, List.length_cons, Nat.add_mul,
            Nat.one_mul, Nat.add_comm]
        rw [hcount]
        exact hfills.cons
      · intro hok
        simp [hconv, hall hok]

theorem fillBuffer_run (P : Platform) {spec : BufferSpec} (hvalid : spec.Valid) (mem : Nat)
    (h : Host σ) :
    ∃ events, h.Wrote (fillBuffer P spec mem h).2 events ∧
      Fills ⟨mem, spec.touched P⟩ h.store.mem.size events ∧
      ((fillBuffer P spec mem h).1 = .ok () → spec.touched P = spec.byteSize P) := by
  unfold fillBuffer BufferSpec.touched
  cases hvalues : spec.values with
  | none =>
    obtain ⟨_, hwrote⟩ := writeBytes_run mem (List.replicate (spec.byteSize P) 0) h
    refine ⟨_, hwrote, ?_, fun _ => rfl⟩
    rw [List.length_replicate]
    exact Fills.single _ _ _
  | some values =>
    obtain ⟨events, hwrote, hfills, hall⟩ := fillElems_run P spec.kind mem 0 values h
    refine ⟨events, hwrote, by simpa using hfills, fun hok => ?_⟩
    show (values.takeWhile (Convertible spec.kind)).length * spec.kind.size = spec.byteSize P
    rw [hall hok, hvalid.byteSize P, hvalid.values values hvalues]

/-! ## Laws about single blocks -/

def placeEvents (a : Allocation) (touched size : Nat) (fill : List Event) : List Event :=
  .allocated a.block :: .handed ⟨a.appPtr, touched⟩ size :: fill

/-- A property of log stretches, block by block: `Q` of a block that was filled, `E`
of one that lies outside memory or whose fill was stopped. -/
structure BlockLaw (Q E : List Event → List Allocation → Prop) : Prop where
  filled : ∀ (a : Allocation) (size : Nat) (fill : List Event), 0 < a.appPtr → a.appPtr < size →
    (a.readBack = true → a.byteSize = a.count * a.kind.size) → Fills a.block size fill →
    Q (placeEvents a a.byteSize size fill) [a]
  stopped : ∀ (a : Allocation) (touched size : Nat) (fill : List Event), touched ≤ a.byteSize →
    a.appPtr < size → Fills ⟨a.appPtr, touched⟩ size fill → E (placeEvents a touched size fill) [a]
  outside : ∀ (a : Allocation) (touched size : Nat), size ≤ a.appPtr →
    E (placeEvents a touched size []) [a]

theorem extends_placed {Q : List Event → List Allocation → Prop} {h h' : Host σ} {st : Store σ}
    {a : Allocation} {touched : Nat} {fill : List Event} (hgrow : h.store.mem.size ≤ st.mem.size)
    (hwrote : (h.placed st a a.byteSize touched).Wrote h' fill)
    (hfill : ∀ e ∈ fill, ∃ r, e = .writes r st.mem.size)
    (hQ : Q (placeEvents a touched st.mem.size fill) [a]) : Extends Q h h' := by
  have hsize : h'.store.mem.size = st.mem.size := hwrote.size
  refine ⟨by rw [hsize]; exact hgrow, _, _, ?_, hwrote.allocations, ?_, hQ⟩
  · rw [hwrote.log]
    simp [Host.placed, placeEvents, Allocation.block]
  · intro e he
    rw [hsize]
    rcases List.mem_cons.mp he with rfl | he
    · exact Nat.zero_le _
    rcases List.mem_cons.mp he with rfl | he
    · exact Nat.le_refl _
    · obtain ⟨r, rfl⟩ := hfill e he
      exact Nat.le_refl _

/-- One placed block under a law, for a fill that writes what it announces. -/
theorem placeBlock_ends {Q E : List Event → List Allocation → Prop} [Additive Q E]
    (law : BlockLaw Q E) (g : Guest σ) {describe : Nat → Allocation} {size touched : Nat}
    {fill : Nat → HostProc σ Unit} (hptr : ∀ p, (describe p).appPtr = p)
    (hsize : ∀ p, (describe p).byteSize = size) (htouched : touched ≤ size)
    (hread : ∀ p, (describe p).readBack = true → size = (describe p).count * (describe p).kind.size)
    (hfill : ∀ p h, ∃ events, h.Wrote (fill p h).2 events ∧
      Fills ⟨p, touched⟩ h.store.mem.size events ∧ ((fill p h).1 = .ok () → touched = size)) :
    Ends (Extends Q) (Extends E) (placeBlock g size describe touched fill) := by
  intro h
  obtain ⟨st, hgrow, ⟨reason, hrun⟩ | ⟨ptr, hpos, _, hrun⟩⟩ :=
    placeBlock_run g size describe touched fill hptr h
  · rw [hrun]
    exact Extends.of_store (Additive.failed Q) hgrow
  · rw [hrun, ← hsize ptr]
    by_cases hin : ptr < st.mem.size
    · rw [if_pos hin]
      obtain ⟨events, hwrote, hfills, hfull⟩ :=
        hfill ptr (h.placed st (describe ptr) (describe ptr).byteSize touched)
      have hwrites : ∀ e ∈ events, ∃ r, e = .writes r st.mem.size := fun e he =>
        (hfills.inside e he).imp fun _ hr => hr.1
      cases hcase : fill ptr (h.placed st (describe ptr) (describe ptr).byteSize touched) with
      | mk reply h' =>
        rw [hcase] at hwrote hfull
        cases reply with
        | error e =>
          rw [bind_of_error hcase]
          refine extends_placed hgrow hwrote hwrites
            (law.stopped _ _ _ _ (by rw [hsize]; exact htouched) (by rw [hptr]; exact hin) ?_)
          rw [hptr]
          exact hfills
        | ok u =>
          rw [bind_of_ok hcase]
          have hall : touched = (describe ptr).byteSize := by rw [hfull rfl, hsize]
          subst hall
          refine extends_placed hgrow hwrote hwrites
            (law.filled _ _ _ (by rw [hptr]; exact hpos) (by rw [hptr]; exact hin) ?_ ?_)
          · rw [hsize]
            exact hread ptr
          · rw [Allocation.block, hptr]
            exact hfills
    · rw [if_neg hin]
      exact extends_placed hgrow (Host.Wrote.refl _) (by simp)
        (law.outside _ _ _ (by rw [hptr]; omega))

theorem BlockLaw.buffers {Q E : List Event → List Allocation → Prop} [Additive Q E]
    (law : BlockLaw Q E) (P : Platform) (g : Guest σ) :
    PlacesBuffers (Extends Q) (Extends E) P g := by
  intro spec hvalid
  refine placeBlock_ends law g (fun _ => rfl) (fun _ => rfl) (hvalid.touched_le P)
    (fun _ _ => hvalid.byteSize P) fun p h => ?_
  exact fillBuffer_run P hvalid p h

theorem BlockLaw.bytes {Q E : List Event → List Allocation → Prop} [Additive Q E]
    (law : BlockLaw Q E) (g : Guest σ) : PlacesBytes (Extends Q) (Extends E) g := by
  intro data count _
  refine placeBlock_ends law g (fun _ => rfl) (fun _ => rfl) (Nat.le_refl _)
    (fun _ hread => by cases hread) fun p h => ?_
  exact ⟨_, (writeBytes_run p data h).2, Fills.single _ _ _, fun _ => rfl⟩

end CrossNative
