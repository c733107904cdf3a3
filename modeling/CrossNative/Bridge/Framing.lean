import CrossNative.Bridge.Stdout
import Mathlib.Data.List.Induction

/-!
# The lines of the child's stdout

The `data` handler gathers chunks in a buffer and hands every line that a newline has ended to
`handleLine`. Whatever else the backend does happens between two chunks.
-/

namespace CrossNative.Bridge

set_option autoImplicit false

open Basis

/-- A call of `handleLine`. -/
structure LineCall where
  line : List Char
  threw : Bool

structure Receiver where
  host : NodeHost
  buffer : List Char
  calls : List LineCall

inductive Delivery
  | chunk (text : List Char)
  /-- Requests, write callbacks, the child's events: they leave the buffer alone. -/
  | other (change : NodeHost → NodeHost)

namespace Receiver

def attached : Receiver where
  host := .attached
  buffer := []
  calls := []

section Handler

variable (parse : List Char → Option Json) (floatText : BitVec 64 → String)

/-- The backend after `handleLine`; the flag tells whether any line so far has thrown. -/
def handled (host : NodeHost) (line : List Char) : NodeHost :=
  let next := NodeHost.handleLine floatText { host with threw := false } (parse line)
  { next with threw := host.threw || next.threw }

/-- `if (line) this.handleLine(line)`, and whether that throws. -/
def takeLine (r : Receiver) (line : List Char) : Receiver × Bool :=
  if line = [] then (r, false)
  else
    let host := NodeHost.handleLine floatText { r.host with threw := false } (parse line)
    ({ host := { host with threw := r.host.threw || host.threw }
       buffer := r.buffer
       calls := r.calls ++ [⟨line, host.threw⟩] }, host.threw)

theorem takeLine_buffer (r : Receiver) (line : List Char) :
    (r.takeLine parse floatText line).1.buffer = r.buffer := by
  unfold takeLine
  split <;> rfl

/-- The loop of the handler; an exception leaves it. -/
def drain (r : Receiver) : Receiver :=
  match _h : r.buffer.idxOf? '\n' with
  | none => r
  | some newline =>
    let line := trim (r.buffer.take newline)
    let taken := takeLine parse floatText { r with buffer := r.buffer.drop (newline + 1) } line
    if taken.2 then taken.1 else drain taken.1
termination_by r.buffer.length
decreasing_by
  have hmem : '\n' ∈ r.buffer := List.isSome_idxOf?.mp (by rw [_h]; rfl)
  have hpos := List.length_pos_of_mem hmem
  rw [takeLine_buffer, List.length_drop]
  omega

def onData (r : Receiver) (chunk : List Char) : Receiver :=
  drain parse floatText { r with buffer := r.buffer ++ chunk }

def deliver (r : Receiver) : Delivery → Receiver
  | .chunk text => r.onData parse floatText text
  | .other change => { r with host := change r.host }

def run (deliveries : List Delivery) : Receiver := deliveries.foldl (deliver parse floatText) attached

end Handler

/-- No call of `handleLine` has thrown. -/
def Calm (r : Receiver) : Prop := ∀ call ∈ r.calls, call.threw = false

def lines (r : Receiver) : List (List Char) := r.calls.map LineCall.line

end Receiver

/-- The stream the deliveries carry. -/
def streamed : List Delivery → List Char
  | [] => []
  | .chunk text :: deliveries => text ++ streamed deliveries
  | .other _ :: deliveries => streamed deliveries

/-- The trimmed non-blank lines of a text that a newline ends. -/
def framesOf (text : List Char) : List (List Char) :=
  ((text.splitOn '\n').dropLast.map trim).filter (· ≠ [])

/-- The text after the last newline. -/
def lastPart (text : List Char) : List Char := (text.splitOn '\n').getLast (List.splitOn_ne_nil _ text)

namespace Receiver

variable {parse : List Char → Option Json} {floatText : BitVec 64 → String} {r : Receiver}

/-! ## One buffer -/

theorem idxOf?_newline {line : List Char} (h : '\n' ∉ line) (rest : List Char) :
    (line ++ '\n' :: rest).idxOf? '\n' = some line.length := by
  induction line with
  | nil => rfl
  | cons c line ih =>
    have hne : c ≠ '\n' := (List.ne_of_not_mem_cons h).symm
    rw [List.cons_append, List.idxOf?_cons, if_neg (by simpa using hne),
      ih (List.not_mem_of_not_mem_cons h)]
    rfl

theorem drain_unfinished (h : '\n' ∉ r.buffer) : drain parse floatText r = r := by
  rw [drain]
  split
  · rfl
  · rename_i newline hnewline
    rw [List.idxOf?_eq_none_iff.mpr h] at hnewline
    cases hnewline

theorem drain_line {line rest : List Char} (hline : '\n' ∉ line) (hbuffer : r.buffer = line ++ '\n' :: rest) :
    drain parse floatText r =
      if (takeLine parse floatText { r with buffer := rest } (trim line)).2 then
        (takeLine parse floatText { r with buffer := rest } (trim line)).1
      else drain parse floatText (takeLine parse floatText { r with buffer := rest } (trim line)).1 := by
  have hindex := idxOf?_newline hline rest
  rw [← hbuffer] at hindex
  rw [drain]
  split
  · rename_i hnone
    rw [hindex] at hnone
    cases hnone
  · rename_i newline hnewline
    cases hindex.symm.trans hnewline
    have htake : r.buffer.take line.length = line := by rw [hbuffer, List.take_left]
    have hdrop : r.buffer.drop (line.length + 1) = rest := by
      rw [hbuffer, ← List.drop_drop, List.drop_left]
      rfl
    simp only [htake, hdrop]

theorem takeLine_lines (r : Receiver) (line : List Char) :
    (takeLine parse floatText r line).1.lines = r.lines ++ [line].filter (· ≠ []) := by
  unfold takeLine
  split
  · rename_i hblank
    simp [hblank]
  · rename_i hne
    simp [lines, hne]

theorem takeLine_throws {line : List Char} (h : (takeLine parse floatText r line).2 = true) :
    ¬ (takeLine parse floatText r line).1.Calm := by
  intro hcalm
  by_cases hblank : line = []
  · rw [takeLine, if_pos hblank] at h
    cases h
  · rw [takeLine, if_neg hblank] at h hcalm
    have hcall := hcalm _ (List.mem_append_right _ List.mem_cons_self)
    exact Bool.false_ne_true (hcall.symm.trans h)

theorem calls_takeLine (r : Receiver) (line : List Char) :
    r.calls <+: (takeLine parse floatText r line).1.calls := by
  have hcalls : (takeLine parse floatText r line).1.calls = r.calls ∨
      ∃ call, (takeLine parse floatText r line).1.calls = r.calls ++ [call] := by
    unfold takeLine
    split
    · exact Or.inl rfl
    · exact Or.inr ⟨_, rfl⟩
  rcases hcalls with hsame | ⟨call, hcall⟩
  · exact hsame.symm ▸ List.prefix_refl _
  · exact ⟨[call], hcall.symm⟩

theorem calls_drain (r : Receiver) : r.calls <+: (drain parse floatText r).calls := by
  induction hbuffer : r.buffer using piece_induction '\n' generalizing r with
  | rest text hnone =>
    exact ⟨[], by rw [List.append_nil, drain_unfinished (hbuffer ▸ hnone)]⟩
  | piece line rest hline ih =>
    have htaken : r.calls <+: (takeLine parse floatText { r with buffer := rest } (trim line)).1.calls :=
      @calls_takeLine parse floatText { r with buffer := rest } (trim line)
    rw [drain_line hline hbuffer]
    split
    · exact htaken
    · exact htaken.trans (ih _ (takeLine_buffer _ _ _ _))

theorem framesOf_eq (text : List Char) :
    framesOf text = ((cutPieces '\n' text).1.map trim).filter (· ≠ []) := by
  rw [framesOf, cutPieces_eq_splitOn]

theorem lastPart_eq (text : List Char) : lastPart text = (cutPieces '\n' text).2 := by
  rw [lastPart, cutPieces_eq_splitOn]

theorem framesOf_append (text more : List Char) :
    framesOf (text ++ more) = framesOf text ++ framesOf (lastPart text ++ more) := by
  rw [framesOf_eq, framesOf_eq, framesOf_eq, lastPart_eq, cutPieces_append, List.map_append, List.filter_append]

theorem lastPart_append (text more : List Char) : lastPart (text ++ more) = lastPart (lastPart text ++ more) := by
  rw [lastPart_eq, lastPart_eq, lastPart_eq, cutPieces_append]

/-- Where nothing throws, the loop leaves the text after the last newline. -/
theorem drain_calm (h : (drain parse floatText r).Calm) :
    (drain parse floatText r).lines = r.lines ++ framesOf r.buffer ∧
      (drain parse floatText r).buffer = lastPart r.buffer := by
  rw [framesOf_eq, lastPart_eq]
  induction hbuffer : r.buffer using piece_induction '\n' generalizing r with
  | rest text hnone =>
    rw [drain_unfinished (hbuffer ▸ hnone), cutPieces_of_notMem hnone]
    exact ⟨(List.append_nil _).symm, hbuffer⟩
  | piece line rest hline ih =>
    rw [drain_line hline hbuffer] at h ⊢
    rw [cutPieces_piece hline]
    cases hthrew : (takeLine parse floatText { r with buffer := rest } (trim line)).2 with
    | true =>
      rw [if_pos hthrew] at h
      exact absurd h (takeLine_throws hthrew)
    | false =>
      rw [hthrew] at h
      obtain ⟨hlines, hrest⟩ := ih h (takeLine_buffer _ _ _ _)
      refine ⟨?_, hrest⟩
      rw [if_neg Bool.false_ne_true, hlines, takeLine_lines, List.append_assoc, List.map_cons, ← List.filter_append]
      rfl

theorem takeLine_host (r : Receiver) (line : List Char) :
    (takeLine parse floatText r line).1.host = ([line].filter (· ≠ [])).foldl (handled parse floatText) r.host := by
  unfold takeLine
  split
  · rename_i hblank
    rw [hblank]
    rfl
  · rename_i hne
    have hkept : [line].filter (· ≠ []) = [line] := List.filter_eq_self.mpr (by simpa using hne)
    rw [hkept]
    rfl

/-- Where nothing throws, the host handles the lines of the buffer, one after the other. -/
theorem drain_host (h : (drain parse floatText r).Calm) :
    (drain parse floatText r).host = (framesOf r.buffer).foldl (handled parse floatText) r.host := by
  rw [framesOf_eq]
  induction hbuffer : r.buffer using piece_induction '\n' generalizing r with
  | rest text hnone =>
    rw [drain_unfinished (hbuffer ▸ hnone), cutPieces_of_notMem hnone]
    rfl
  | piece line rest hline ih =>
    rw [drain_line hline hbuffer] at h ⊢
    rw [cutPieces_piece hline]
    cases hthrew : (takeLine parse floatText { r with buffer := rest } (trim line)).2 with
    | true =>
      rw [if_pos hthrew] at h
      exact absurd h (takeLine_throws hthrew)
    | false =>
      rw [hthrew] at h
      have hrest := ih h (takeLine_buffer _ _ _ _)
      have hsplit : (trim line :: (cutPieces '\n' rest).1.map trim).filter (· ≠ []) =
          [trim line].filter (· ≠ []) ++ ((cutPieces '\n' rest).1.map trim).filter (· ≠ []) :=
        List.filter_append [trim line] ((cutPieces '\n' rest).1.map trim)
      rw [if_neg Bool.false_ne_true, hrest, takeLine_host, List.map_cons, hsplit, List.foldl_append]

/-- The loop is the one that the requests are settled by. -/
theorem drain_eq_handleLines (r : Receiver) :
    ((drain parse floatText r).host, (drain parse floatText r).buffer) =
      Stdout.handleLines parse floatText r.host (cutPieces '\n' r.buffer).1 (cutPieces '\n' r.buffer).2 := by
  induction hbuffer : r.buffer using piece_induction '\n' generalizing r with
  | rest text hnone =>
    rw [drain_unfinished (hbuffer ▸ hnone), cutPieces_of_notMem hnone, hbuffer]
    rfl
  | piece line rest hline ih =>
    rw [drain_line hline hbuffer, cutPieces_piece hline, Stdout.handleLines, Stdout.readLine]
    by_cases hblank : trim line = []
    · have htaken : takeLine parse floatText { r with buffer := rest } (trim line) = ({ r with buffer := rest }, false) :=
        if_pos hblank
      rw [htaken, if_pos hblank]
      exact ih _ rfl
    · have hhandled := ih (takeLine parse floatText { r with buffer := rest } (trim line)).1 (takeLine_buffer _ _ _ _)
      rw [if_neg hblank]
      simp only [takeLine, if_neg hblank] at hhandled ⊢
      cases hthrew : (NodeHost.handleLine floatText { r.host with threw := false } (parse (trim line))).threw with
      | true =>
        simp only [if_true, Bool.or_true, cutPieces_join]
        rw [← hthrew]
      | false =>
        simp only [hthrew, Bool.false_eq_true, if_false, Bool.or_false] at hhandled ⊢
        exact hhandled

/-! ## Any way of splitting the stream -/

theorem run_append (deliveries : List Delivery) (delivery : Delivery) :
    run parse floatText (deliveries ++ [delivery]) =
      (run parse floatText deliveries).deliver parse floatText delivery := by
  rw [run, run, List.foldl_append]
  rfl

theorem streamed_append (deliveries more : List Delivery) :
    streamed (deliveries ++ more) = streamed deliveries ++ streamed more := by
  induction deliveries with
  | nil => rfl
  | cons delivery deliveries ih =>
    cases delivery with
    | chunk text => rw [List.cons_append, streamed, streamed, ih, List.append_assoc]
    | other change => exact ih

theorem calls_deliver (r : Receiver) (delivery : Delivery) :
    r.calls <+: (r.deliver parse floatText delivery).calls := by
  cases delivery with
  | chunk text => exact calls_drain { r with buffer := r.buffer ++ text }
  | other change => exact List.prefix_refl _

theorem calls_foldl (deliveries : List Delivery) (r : Receiver) :
    r.calls <+: (deliveries.foldl (deliver parse floatText) r).calls := by
  induction deliveries generalizing r with
  | nil => exact List.prefix_refl _
  | cons delivery deliveries ih => exact (calls_deliver r delivery).trans (ih _)

/-- Every newline so far has been found, and nothing is kept but what follows the last one. -/
theorem run_calm {deliveries : List Delivery} (h : (run parse floatText deliveries).Calm) :
    (run parse floatText deliveries).lines = framesOf (streamed deliveries) ∧
      (run parse floatText deliveries).buffer = lastPart (streamed deliveries) := by
  induction deliveries using List.reverseRecOn with
  | nil => exact ⟨rfl, rfl⟩
  | append_singleton deliveries delivery ih =>
    rw [run_append] at h ⊢
    have hearlier : (run parse floatText deliveries).Calm := fun call hcall =>
      h call ((calls_deliver _ delivery).subset hcall)
    obtain ⟨hlines, hbuffer⟩ := ih hearlier
    rw [streamed_append]
    cases delivery with
    | chunk text =>
      obtain ⟨hmore, hrest⟩ := drain_calm h
      have htext : streamed [.chunk text] = text := List.append_nil text
      rw [htext, framesOf_append, lastPart_append, ← hlines, ← hbuffer]
      exact ⟨hmore, hrest⟩
    | other change =>
      rw [streamed, streamed, List.append_nil]
      exact ⟨hlines, hbuffer⟩

/-! ## Streams that no splitting makes throw -/

/-- In no state does `handleLine` throw on this line. -/
def Harmless (parse : List Char → Option Json) (floatText : BitVec 64 → String) (line : List Char) : Prop :=
  ∀ s : NodeHost, s.threw = false → (s.handleLine floatText (parse line)).threw = false

theorem takeLine_harmless {line : List Char} (hcalm : r.Calm) (h : line ≠ [] → Harmless parse floatText line) :
    (takeLine parse floatText r line).2 = false ∧ (takeLine parse floatText r line).1.Calm := by
  unfold takeLine
  split
  · exact ⟨rfl, hcalm⟩
  · rename_i hne
    have hquiet := h hne { r.host with threw := false } rfl
    refine ⟨hquiet, fun call hcall => ?_⟩
    rcases List.mem_append.mp hcall with hearlier | hnew
    · exact hcalm call hearlier
    · rw [List.mem_singleton.mp hnew]
      exact hquiet

theorem drain_harmless (hcalm : r.Calm) (h : ∀ line ∈ framesOf r.buffer, Harmless parse floatText line) :
    (drain parse floatText r).Calm := by
  rw [framesOf_eq] at h
  induction hbuffer : r.buffer using piece_induction '\n' generalizing r with
  | rest text hnone =>
    rw [drain_unfinished (hbuffer ▸ hnone)]
    exact hcalm
  | piece line rest hline ih =>
    rw [hbuffer, cutPieces_piece hline, List.map_cons] at h
    have htaken : (takeLine parse floatText { r with buffer := rest } (trim line)).2 = false ∧
        (takeLine parse floatText { r with buffer := rest } (trim line)).1.Calm :=
      takeLine_harmless hcalm fun hne => h _ (List.mem_filter.mpr ⟨List.mem_cons_self, decide_eq_true hne⟩)
    rw [drain_line hline hbuffer, if_neg (Bool.eq_false_iff.mp htaken.1)]
    have hrest := takeLine_buffer parse floatText { r with buffer := rest } (trim line)
    refine ih htaken.2 (fun line' hmem => ?_) hrest
    rw [hrest] at hmem
    obtain ⟨hpiece, hblank⟩ := List.mem_filter.mp hmem
    exact h line' (List.mem_filter.mpr ⟨List.mem_cons_of_mem _ hpiece, hblank⟩)

theorem run_harmless {deliveries : List Delivery}
    (h : ∀ line ∈ framesOf (streamed deliveries), Harmless parse floatText line) :
    (run parse floatText deliveries).Calm := by
  induction deliveries using List.reverseRecOn with
  | nil => exact fun call hcall => (List.not_mem_nil hcall).elim
  | append_singleton deliveries delivery ih =>
    rw [streamed_append, framesOf_append] at h
    have hearlier := ih fun line hmem => h line (List.mem_append_left _ hmem)
    rw [run_append]
    cases delivery with
    | chunk text =>
      refine drain_harmless hearlier fun line hmem => h line (List.mem_append_right _ ?_)
      have htext : streamed [.chunk text] = text := List.append_nil text
      rw [htext, ← (run_calm hearlier).2]
      exact hmem
    | other change => exact hearlier

theorem calm_take {deliveries : List Delivery} (h : (run parse floatText deliveries).Calm) (n : Nat) :
    (run parse floatText (deliveries.take n)).Calm := by
  intro call hcall
  apply h call
  have hsplit : run parse floatText deliveries =
      (deliveries.drop n).foldl (deliver parse floatText) (run parse floatText (deliveries.take n)) := by
    rw [run, run, ← List.foldl_append, List.take_append_drop]
  rw [hsplit]
  exact (calls_foldl _ _).subset hcall

/-- Two deliveries of one stream hand over the same lines, after every chunk the buffer is the text
after the last newline so far, and the backend has handled the lines that the chunk has ended. -/
theorem framing_unsplit {deliveries others : List Delivery} (h : (run parse floatText deliveries).Calm)
    (hothers : (run parse floatText others).Calm) (hstream : streamed deliveries = streamed others) :
    (run parse floatText deliveries).lines = (run parse floatText others).lines ∧
      (run parse floatText deliveries).lines = framesOf (streamed deliveries) ∧
      (∀ n, (run parse floatText (deliveries.take n)).buffer = lastPart (streamed (deliveries.take n))) ∧
      ∀ n text, deliveries[n]? = some (.chunk text) →
        (run parse floatText (deliveries.take (n + 1))).host =
          (framesOf (lastPart (streamed (deliveries.take n)) ++ text)).foldl (handled parse floatText)
            (run parse floatText (deliveries.take n)).host := by
  have hlines := (run_calm h).1
  refine ⟨?_, hlines, fun n => (run_calm (calm_take h n)).2, fun n text hchunk => ?_⟩
  · rw [hlines, (run_calm hothers).1, hstream]
  · have hnext : run parse floatText (deliveries.take (n + 1)) =
        (run parse floatText (deliveries.take n)).onData parse floatText text := by
      rw [List.take_add_one, hchunk]
      exact run_append _ _
    have hcalm := calm_take h (n + 1)
    rw [hnext] at hcalm ⊢
    rw [← (run_calm (calm_take h n)).2]
    exact drain_host hcalm

/-- Two lines in two chunks, and in four. -/
def twoLines : List Delivery := [.chunk ['a'], .chunk ['\n', 'b', '\n']]

def fourChunks : List Delivery := [.chunk ['a', '\n'], .chunk [], .chunk ['b'], .chunk ['\n']]

theorem framing_unsplit_two :
    (run (fun _ => none) (fun _ => "") twoLines).lines = (run (fun _ => none) (fun _ => "") fourChunks).lines ∧
      (run (fun _ => none) (fun _ => "") twoLines).lines = framesOf ['a', '\n', 'b', '\n'] ∧
      (∀ n, (run (fun _ => none) (fun _ => "") (twoLines.take n)).buffer = lastPart (streamed (twoLines.take n))) ∧
      ∀ n text, twoLines[n]? = some (.chunk text) →
        (run (fun _ => none) (fun _ => "") (twoLines.take (n + 1))).host =
          (framesOf (lastPart (streamed (twoLines.take n)) ++ text)).foldl (handled (fun _ => none) fun _ => "")
            (run (fun _ => none) (fun _ => "") (twoLines.take n)).host := by
  have hharmless (line : List Char) : Harmless (fun _ => none) (fun _ => "") line := fun s hs => hs
  apply framing_unsplit (run_harmless fun line _ => hharmless line) (run_harmless fun line _ => hharmless line)
  rfl

end Receiver

end CrossNative.Bridge
