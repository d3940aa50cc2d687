import IronBee.Filter.Conservation

/-! # Runs of one direction's filter

Between two of its calls a filter is in a state reached from a fresh context by body
chunks (the rules notified of a chunk may add edits before it is buffered), switches to
discard mode when the transaction goes to an error document, and final flushes. Along
every such run, whatever the order of the steps and whatever `qsort` does, `bytes_done`
and `offs` account exactly for the emitted bytes.
-/

namespace IronBee.Filter

/-- The rules notified of a chunk append their edits to `fctx->edits`. -/
def FilterCtx.addEdits (f : FilterCtx) (edits : List Edit) : FilterCtx :=
  { f with edits := f.edits ++ edits }

/-- `process_data` switching to `IOBUF_DISCARD` for an error document. -/
def FilterCtx.toDiscard (f : FilterCtx) : FilterCtx :=
  { f with buffering := .discard }

/-- The states of a filter between its calls, with the number of body bytes received. -/
inductive Reach (qsort : List Edit → List Edit) : Nat → FilterCtx → Prop
  | init (buffering : Buffering) (bufLimit : Nat) :
      Reach qsort 0 (FilterCtx.init buffering bufLimit)
  | chunk {received : Nat} {f g : FilterCtx} {rc : Status} (data : List UInt8)
      (edits : List Edit) : Reach qsort received f →
      bufferDataChunk qsort (f.addEdits edits) data = some (g, rc) →
      Reach qsort (received + data.length) g
  | discard {received : Nat} {f : FilterCtx} :
      Reach qsort received f → Reach qsort received f.toDiscard
  | finish {received : Nat} {f g : FilterCtx} {rc : Status} :
      Reach qsort received f → flushData qsort f (-1) true = some (g, rc) →
      Reach qsort received g

/-- The runs of `Reach` with the bytes of each chunk kept: the filter's states between its
calls, with the body bytes it has received. -/
inductive Streams (qsort : List Edit → List Edit) : List UInt8 → FilterCtx → Prop
  | init (buffering : Buffering) (bufLimit : Nat) :
      Streams qsort [] (FilterCtx.init buffering bufLimit)
  | chunk {S : List UInt8} {f g : FilterCtx} {rc : Status} (data : List UInt8)
      (edits : List Edit) : Streams qsort S f →
      bufferDataChunk qsort (f.addEdits edits) data = some (g, rc) →
      Streams qsort (S ++ data) g
  | discard {S : List UInt8} {f : FilterCtx} :
      Streams qsort S f → Streams qsort S f.toDiscard
  | finish {S : List UInt8} {f g : FilterCtx} {rc : Status} :
      Streams qsort S f → flushData qsort f (-1) true = some (g, rc) → Streams qsort S g

theorem Reach.streams {qsort : List Edit → List Edit} {received : Nat} {f : FilterCtx}
    (hf : Reach qsort received f) : ∃ S, S.length = received ∧ Streams qsort S f := by
  induction hf with
  | init buffering bufLimit => exact ⟨[], rfl, .init buffering bufLimit⟩
  | chunk data edits _ hstep ih =>
    obtain ⟨S, rfl, hs⟩ := ih
    exact ⟨S ++ data, List.length_append _ _, .chunk data edits hs hstep⟩
  | discard _ ih =>
    obtain ⟨S, hS, hs⟩ := ih
    exact ⟨S, hS, .discard hs⟩
  | finish _ hstep ih =>
    obtain ⟨S, hS, hs⟩ := ih
    exact ⟨S, hS, .finish hs hstep⟩

theorem Conserves.toDiscard {S : List UInt8} {f : FilterCtx} (hf : Conserves S f) :
    Conserves S f.toDiscard :=
  ⟨hf.1, hf.2, hf.3, hf.4, fun h => absurd rfl h, hf.6, hf.7, hf.8⟩

theorem Streams.conserves {qsort : List Edit → List Edit} {S : List UInt8} {f : FilterCtx}
    (hf : Streams qsort S f) (hin : S.length < 2 ^ 63) : Conserves S f := by
  induction hf with
  | init buffering bufLimit => exact Conserves.init buffering bufLimit
  | @chunk S f _ _ data edits _ hstep ih =>
    have hS : S.length < 2 ^ 63 := by rw [List.length_append] at hin; omega
    exact bufferDataChunk_conserves ((ih hS).setEdits (f.edits ++ edits)) hin hstep
  | discard _ ih => exact (ih hin).toDiscard
  | finish _ hstep ih => exact (flushData_conserves (ih hin) (.inl rfl) hstep).1

theorem Conserves.accounting {S : List UInt8} {f : FilterCtx} (hf : Conserves S f) :
    Accounting f := by
  refine ⟨?_, hf.offs_eq⟩
  have := hf.emitted
  have := toInt64_emod (netGrowth f.applied)
  rw [hf.offs_eq]
  omega

/-- Along every run that fits `int64_t`, `bytes_done + offs` is the number of bytes emitted, the
count a final flush commits. -/
theorem reach_counts_emitted {qsort : List Edit → List Edit} {received : Nat}
    {f : FilterCtx} (hf : Reach qsort received f) (hin : received < 2 ^ 63)
    (hout : f.output.length < 2 ^ 63) :
    f.bytesDone ≤ received ∧ f.offs = netGrowth f.applied ∧
      (f.bytesDone : Int) + f.offs = f.output.length ∧
      ∀ g rc, flushData qsort f (-1) true = some (g, rc) → g.output.length < 2 ^ 63 →
        g.nbytesSet = some g.output.length := by
  obtain ⟨S, rfl, hs⟩ := hf.streams
  have hc := hs.conserves hin
  have hcons := hc.consumed
  have hem := hc.emitted
  have hoffs : f.offs = netGrowth f.applied := by
    rw [hc.offs_eq, toInt64_of_range (by omega) (by omega)]
  refine ⟨by omega, hoffs, by omega, fun g rc h hg => ?_⟩
  exact flushData_last_nbytesSet hc.accounting h hg

theorem reach_counts_emitted_chunk_flush :
    ∃ f g, bufferDataChunk qsortModel ((FilterCtx.init .nobuf 0).addEdits [Edit.make 1 1 [7, 7]])
        [1, 2, 3] = some (f, .ok) ∧ flushData qsortModel f (-1) true = some (g, .ok) ∧
      g.applied = [Edit.make 1 1 [7, 7]] ∧ g.bytesDone ≤ 3 ∧ g.offs = netGrowth g.applied ∧
      (g.bytesDone : Int) + g.offs = g.output.length ∧
      ∀ g' rc, flushData qsortModel g (-1) true = some (g', rc) → g'.output.length < 2 ^ 63 →
        g'.nbytesSet = some g'.output.length :=
  ⟨_, _, rfl, rfl, rfl, reach_counts_emitted
    (.finish (.chunk [1, 2, 3] [Edit.make 1 1 [7, 7]] (.init .nobuf 0) rfl) rfl) (by decide)
    (by decide)⟩

/-- In `IOBUF_NOBUF` mode an edit of byte seven on the first five bytes of a body stops the process.
-/
theorem nobuf_edit_ahead_stops :
    bufferDataChunk qsortModel ((FilterCtx.init .nobuf 0).addEdits [Edit.make 7 1 [0]])
      [1, 2, 3, 4, 5] = none := by
  decide

/-- Along every run the output is the body up to `bytes_done` with the applied edits spliced in, and
the reader holds the next bytes. -/
theorem streams_emit_spliced {qsort : List Edit → List Edit} {S : List UInt8}
    {f : FilterCtx} (hf : Streams qsort S f) (hin : S.length < 2 ^ 63) :
    f.output = splice S 0 f.applied f.bytesDone ∧ InOrder 0 f.applied f.bytesDone ∧
      f.reader <+: S.drop f.bytesDone ∧
      (f.buffering ≠ .discard → f.reader = S.drop f.bytesDone) :=
  have hc := hf.conserves hin
  ⟨hc.output, hc.inOrder, hc.reader, hc.stream⟩

theorem streams_emit_spliced_one_chunk :
    ∃ g rc, bufferDataChunk qsortModel ((FilterCtx.init .nobuf 0).addEdits [Edit.make 1 1 [9]])
        [1, 2, 3] = some (g, rc) ∧
      g.output = splice [1, 2, 3] 0 g.applied g.bytesDone ∧
      InOrder 0 g.applied g.bytesDone ∧ g.reader <+: [1, 2, 3].drop g.bytesDone ∧
      (g.buffering ≠ .discard → g.reader = [1, 2, 3].drop g.bytesDone) :=
  ⟨_, _, rfl, streams_emit_spliced
    (.chunk [1, 2, 3] [Edit.make 1 1 [9]] (.init .nobuf 0) rfl : Streams qsortModel _ _)
    (by decide)⟩

/-- The final flush outside discard mode emits the whole body with the applied edits spliced in. -/
theorem finish_emits_body {qsort : List Edit → List Edit} {S : List UInt8}
    {f g : FilterCtx} {rc : Status} (hf : Streams qsort S f) (hin : S.length < 2 ^ 63)
    (hm : f.buffering ≠ .discard) (h : flushData qsort f (-1) true = some (g, rc)) :
    g.bytesDone = S.length ∧ g.output = splice S 0 g.applied S.length ∧
      InOrder 0 g.applied S.length ∧ (g.applied = [] → g.output = S) := by
  obtain ⟨hg, hdrain⟩ := flushData_conserves (hf.conserves hin) (.inl rfl) h
  have hlen : g.bytesDone = S.length := by
    have h₁ := congrArg List.length (hg.stream (flushData_buffering h ▸ hm))
    have h₂ := hg.consumed
    rw [hdrain rfl rfl, List.length_drop, List.length_nil] at h₁
    omega
  refine ⟨hlen, hlen ▸ hg.output, hlen ▸ hg.inOrder, fun ha => ?_⟩
  rw [hg.output, ha, hlen, splice_nil, List.take_length]

theorem finish_emits_body_buffer_all :
    ∃ f g rc, bufferDataChunk qsortModel ((FilterCtx.init .bufferAll 0).addEdits
        [Edit.make 1 1 [9]]) [1, 2, 3] = some (f, .ok) ∧
      flushData qsortModel f (-1) true = some (g, rc) ∧
      g.bytesDone = [1, 2, 3].length ∧ g.output = splice [1, 2, 3] 0 g.applied [1, 2, 3].length ∧
      InOrder 0 g.applied [1, 2, 3].length ∧ (g.applied = [] → g.output = [1, 2, 3]) :=
  ⟨_, _, _, rfl, rfl, finish_emits_body
    (.chunk [1, 2, 3] [Edit.make 1 1 [9]] (.init .bufferAll 0) rfl : Streams qsortModel _ _)
    (by decide) (by decide) rfl⟩

end IronBee.Filter
