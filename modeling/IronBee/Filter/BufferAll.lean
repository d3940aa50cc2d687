import IronBee.Filter.Body
import IronBee.Filter.Holding

/-! # A whole body in `IOBUF_BUFFER_ALL` mode

In `IOBUF_BUFFER_ALL` mode `buffer_data_chunk` only stages each block, so nothing leaves the
filter before the input ends: every edit the rules add is pending when the final
`flush_data(fctx, -1, 1)` runs, and that flush sees the whole body. On edits that lie
within the body and do not overlap, with distinct starts less than `2^31` apart, the flush
applies every one of them, and the direction emits exactly the body with each edit's range
replaced by its replacement. This is the law a streaming filter is meant to keep, here for
the one mode that never flushes early.
-/

namespace IronBee.Filter

/-- A direction in `IOBUF_BUFFER_ALL` mode before the blocks `rest` of the body `D`: it holds what
came before with its edits pending, in order, and has emitted nothing. -/
def StagedBefore (D : List UInt8) (Es : List Edit) (rest : List Block) (f : FilterCtx) : Prop :=
  ∃ S E, f.Holding S E ∧ f.buffering = .bufferAll ∧ f.bytesDone = 0 ∧ f.edits = E ∧
    S ++ blockData rest = D ∧ E ++ blockEdits rest = Es

theorem stagedBefore_step (qsort : List Edit → List Edit) {D : List UInt8} {Es : List Edit}
    (hD : D.length < 2 ^ 63) (b : Block) (rest : List Block) (f : FilterCtx)
    (h : StagedBefore D Es (b :: rest) f) :
    ∃ g rc, bufferDataChunk qsort (f.addEdits b.edits) b.data = some (g, rc) ∧
      StagedBefore D Es rest g := by
  obtain ⟨S, E, hf, hb, hd, he, hS, hE⟩ := h
  have hlen : (S ++ b.data).length < 2 ^ 63 := by
    rw [← hS] at hD; simp only [blockData, List.length_append] at hD ⊢; omega
  exact ⟨_, _, bufferDataChunk_bufferAll qsort b.data (f := f.addEdits b.edits) hf.buffer hb,
    S ++ b.data, E ++ b.edits, hf.stage b.edits b.data hlen (fun _ _ => hd ▸ Nat.zero_le _),
    hb, hd, by rw [bufferIn_edits, ← he]; rfl, by rw [List.append_assoc]; exact hS,
    by rw [List.append_assoc]; exact hE⟩

theorem processEvents_bufferAll (qsort : List Edit → List Edit) (dir : Direction)
    (tx : Option TxView) (buffering : Buffering) (bufLimit : Nat) (b : Body)
    (hmode : (bufferInit dir tx (FilterCtx.init buffering bufLimit)).1.buffering = .bufferAll)
    (hlen : eventBytes b.events < 2 ^ 63)
    (hq : QsortResult b.edits (qsort b.edits)) (hnear : b.edits.Pairwise StartsNear)
    (hdistinct : (b.edits.map Edit.start).Nodup)
    (hin : InOrder 0 (b.edits.insertionSort fun x y => x.start ≤ y.start) (eventBytes b.events)) :
    ∃ s', processEvents qsort dir tx b.events
        ⟨FilterCtx.zeroed buffering bufLimit, false, eventBytes b.events, []⟩ = some s' ∧
      s'.fctx.output = splice (eventData b.events) 0
        (b.edits.insertionSort fun x y => x.start ≤ y.start) (eventBytes b.events) ∧
      s'.fctx.edits = [] := by
  have hfresh := bufferInit_fresh dir tx (FilterCtx.init_fresh buffering bufLimit)
  refine Body.splices qsort (StagedBefore (eventData b.events) b.edits) dir tx
    (stagedBefore_step qsort (by rwa [eventData_length])) buffering bufLimit b
    ⟨[], [], hfresh.holding (by rw [hmode]; decide) (bufferInit_hasBuffer dir tx _), hmode, hfresh.bytesDone, hfresh.edits,
      by rw [List.nil_append, Body.events, eventData_bodyEvents]; rfl,
      by rw [List.nil_append, Body.edits, bodyEdits_eq]; rfl⟩
    (fun f ⟨S, E, hf, _, _, he, hS, hE⟩ => ?_) hnear hdistinct hin
  rw [blockData, List.append_nil] at hS
  rw [blockEdits, List.append_nil] at hE
  subst hS hE
  exact ⟨hf, by rw [he]; exact hq⟩

/-- In `IOBUF_BUFFER_ALL` mode a fresh direction emits the body with every edit spliced in, whenever
the edits, sorted by start, follow one another within the body. -/
theorem directionEvents_bufferAll_splices (qsort : List Edit → List Edit) (dir : Direction)
    (t : TxView) (buffering : Buffering) (bufLimit : Nat) (b : Body)
    (ds : List Delivery) (hcalls : processCalls ds = b.events)
    (hmode : (bufferInit dir (some t) (FilterCtx.init buffering bufLimit)).1.buffering = .bufferAll)
    (hlen : eventBytes b.events < 2 ^ 63)
    (hq : QsortResult b.edits (qsort b.edits)) (hnear : b.edits.Pairwise StartsNear)
    (hdistinct : (b.edits.map Edit.start).Nodup)
    (hin : InOrder 0 (b.edits.insertionSort fun x y => x.start ≤ y.start) (eventBytes b.events)) :
    ∃ s' acts, directionEvents dir qsort (some t) ds
        ⟨FilterCtx.zeroed buffering bufLimit, false, eventBytes b.events, []⟩ = some (s', acts) ∧
      s'.fctx.output = splice (eventData b.events) 0
        (b.edits.insertionSort fun x y => x.start ≤ y.start) (eventBytes b.events) ∧
      s'.fctx.edits = [] := by
  obtain ⟨s', hrun, hout, hed⟩ :=
    processEvents_bufferAll qsort dir (some t) buffering bufLimit b hmode hlen hq hnear hdistinct hin
  obtain ⟨acts, hd⟩ := directionEvents_of_processEvents (by rw [hcalls]; exact hrun)
  exact ⟨s', acts, hd, hout, hed⟩

theorem directionEvents_bufferAll_splices_two_calls :
    ∃ s' acts, directionEvents .req qsortModel
        (some ⟨⟨false, false, true, true, false, false⟩, some ⟨true, true, -1, .flushAll, -1, .flushAll⟩⟩)
        [⟨false, .vconnWriteReady, ⟨false, false, false, false, false⟩, false,
          some [⟨[1, 2], [Edit.make 1 1 [7, 7]], .ok⟩]⟩,
         ⟨false, .vconnWriteReady, ⟨false, false, false, false, false⟩, false,
          some [⟨[3], [], .ok⟩]⟩,
         ⟨false, .vconnWriteComplete, ⟨false, false, false, false, false⟩, false, none⟩]
        ⟨FilterCtx.zeroed .nobuf 0, false, 3, []⟩ = some (s', acts) ∧
      s'.fctx.output = [1, 7, 7, 3] ∧ s'.fctx.edits = [] :=
  directionEvents_bufferAll_splices qsortModel .req _ .nobuf 0
    ⟨[[⟨[1, 2], [Edit.make 1 1 [7, 7]], .ok⟩]], [⟨[3], [], .ok⟩], by decide⟩ _ rfl
    (by decide) (by decide) (by decide) (by decide) (by decide) (by decide)

end IronBee.Filter
