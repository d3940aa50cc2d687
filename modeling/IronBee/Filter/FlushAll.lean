import IronBee.Filter.Body
import IronBee.Filter.Holding

/-! # A whole body in `IOBUF_BUFFER_FLUSHALL` mode

In `IOBUF_BUFFER_FLUSHALL` mode `buffer_data_chunk` flushes everything the filter holds
before staging a block that would take the buffer past its limit, and that flush runs with
the block's edits already added. A flush only ever sends bytes received before the block it
precedes, so `bytes_done` never passes the first byte of the block staged last. Rules whose
edits for a block start between the first byte of the block before it and the first byte of
the block itself thus never add an edit behind `bytes_done`, nor one ahead of the bytes the
filter holds when such a flush runs, and the direction emits the body with every edit
spliced in. An edit of the block's own bytes past its first, added as the block overflows
the buffer, stops the process instead.
-/

namespace IronBee.Filter

/-- The rules add with each block only edits starting between the first byte `p` of the block before
it and its own first byte `o`. -/
def Late : Nat → Nat → List Block → Prop
  | _, _, [] => True
  | p, o, b :: bs =>
    (∀ e ∈ b.edits, p ≤ e.start ∧ e.start ≤ o) ∧ Late o (o + b.data.length) bs

instance Late.decidable : ∀ p o bs, Decidable (Late p o bs)
  | _, _, [] => inferInstanceAs (Decidable True)
  | p, o, b :: bs =>
    have := Late.decidable o (o + b.data.length) bs
    inferInstanceAs (Decidable ((∀ e ∈ b.edits, p ≤ e.start ∧ e.start ≤ o) ∧
      Late o (o + b.data.length) bs))

/-- A direction in `IOBUF_BUFFER_FLUSHALL` mode before the blocks `rest` of the body `D`: it holds
what came before, every pending edit inside it, and has emitted nothing past `p`. -/
def FlushAllBefore (D : List UInt8) (Es : List Edit) (rest : List Block) (f : FilterCtx) :
    Prop :=
  ∃ S E p, f.Holding S E ∧ f.buffering = .bufferFlushAll ∧
    (∀ e ∈ f.edits, e.start ≤ S.length) ∧ f.bytesDone ≤ p ∧ S ++ blockData rest = D ∧
    E ++ blockEdits rest = Es ∧ Late p S.length rest

theorem flushAllBefore_init (dir : Direction) (tx : Option TxView) (buffering : Buffering)
    (bufLimit : Nat) (b : Body)
    (hmode : (bufferInit dir tx (FilterCtx.init buffering bufLimit)).1.buffering =
      .bufferFlushAll)
    (hlate : Late 0 0 b.blocks) :
    FlushAllBefore (eventData b.events) b.edits b.blocks
      (bufferInit dir tx (FilterCtx.init buffering bufLimit)).1 := by
  have hfresh := bufferInit_fresh dir tx (FilterCtx.init_fresh buffering bufLimit)
  exact ⟨[], [], 0, hfresh.holding (by rw [hmode]; decide) (bufferInit_hasBuffer dir tx _), hmode,
    by rw [hfresh.edits]; exact fun _ h => absurd h (List.not_mem_nil _), hfresh.bytesDone.le,
    by rw [List.nil_append, Body.events, eventData_bodyEvents]; rfl,
    by rw [List.nil_append, Body.edits, bodyEdits_eq]; rfl, hlate⟩

theorem flushAllBefore_step {qsort : List Edit → List Edit} {D : List UInt8} {Es : List Edit}
    (hq : ∀ X : List Edit, X.Pairwise StartsNear → QsortResult X (qsort X))
    (hD : D.length < 2 ^ 63) (hnear : Es.Pairwise StartsNear)
    (hdistinct : (Es.map Edit.start).Nodup)
    (hin : InOrder 0 (Es.insertionSort fun a b => a.start ≤ b.start) D.length)
    (b : Block) (rest : List Block) (f : FilterCtx) (h : FlushAllBefore D Es (b :: rest) f) :
    ∃ g rc, bufferDataChunk qsort (f.addEdits b.edits) b.data = some (g, rc) ∧
      FlushAllBefore D Es rest g := by
  obtain ⟨S, E, p, hf, hm, hwithin, hp, hS, hE, hlate, hrest⟩ := h
  have hlen : S.length + b.data.length ≤ D.length := by
    rw [← hS]; simp only [blockData, List.length_append]; omega
  have hsub : List.Sublist (E ++ b.edits) Es := by
    rw [← hE, blockEdits, ← List.append_assoc]; exact List.sublist_append_left _ _
  have ha := hf.addEdits b.edits fun x hx => hp.trans (hlate x hx).1
  have hwithin' : ∀ e ∈ f.edits ++ b.edits, e.start ≤ S.length := fun e he =>
    (List.mem_append.mp he).elim (hwithin e) fun he => (hlate e he).2
  -- whether or not it flushes first, the call stages the block on what the flush leaves
  have hnext : ∀ g : FilterCtx, g.Holding S (E ++ b.edits) → g.buffering = .bufferFlushAll →
      (∀ e ∈ g.edits, e ∈ f.edits ++ b.edits) → FlushAllBefore D Es rest (g.bufferIn b.data) :=
    fun g hg hgb hgsub =>
      ⟨S ++ b.data, E ++ b.edits, S.length,
        hg.bufferIn b.data (by rw [List.length_append]; omega), hgb,
        fun e he => by rw [List.length_append]; have := hwithin' e (hgsub e he); omega,
        by have := hg.reader_length; show g.bytesDone ≤ S.length; omega,
        by rw [List.append_assoc]; exact hS, by rw [List.append_assoc]; exact hE,
        by rwa [List.length_append]⟩
  by_cases hover : f.bufLimit < toSize (f.buffered + b.data.length)
  · obtain ⟨g, rc, hfl, hg, hgb, hgsub, -⟩ :=
      ha.flush hq hnear hdistinct hin hD hsub.subperm (by omega) hwithin' (.inl rfl)
    exact ⟨_, _, bufferDataChunk_flushAll_of_lt qsort b.data (f := f.addEdits b.edits) hf.buffer hm
      hover hfl,
      hnext g hg (hgb.trans hm) hgsub⟩
  · exact ⟨_, _, bufferDataChunk_flushAll_of_le qsort b.data (f := f.addEdits b.edits) hf.buffer hm
      hover,
      hnext _ ha hm fun _ h => h⟩

theorem processEvents_flushAll (qsort : List Edit → List Edit) (dir : Direction)
    (tx : Option TxView) (buffering : Buffering) (bufLimit : Nat) (b : Body)
    (hmode : (bufferInit dir tx (FilterCtx.init buffering bufLimit)).1.buffering =
      .bufferFlushAll)
    (hlen : eventBytes b.events < 2 ^ 63)
    (hq : ∀ X : List Edit, X.Pairwise StartsNear → QsortResult X (qsort X))
    (hnear : b.edits.Pairwise StartsNear) (hdistinct : (b.edits.map Edit.start).Nodup)
    (hin : InOrder 0 (b.edits.insertionSort fun x y => x.start ≤ y.start) (eventBytes b.events))
    (hlate : Late 0 0 b.blocks) :
    ∃ s', processEvents qsort dir tx b.events
        ⟨FilterCtx.zeroed buffering bufLimit, false, eventBytes b.events, []⟩ = some s' ∧
      s'.fctx.output = splice (eventData b.events) 0
        (b.edits.insertionSort fun x y => x.start ≤ y.start) (eventBytes b.events) ∧
      s'.fctx.edits = [] := by
  have hdl := eventData_length b.events
  refine Body.splices qsort (FlushAllBefore (eventData b.events) b.edits) dir tx
    (flushAllBefore_step hq (by omega) hnear hdistinct (by rwa [hdl])) buffering bufLimit b
    (flushAllBefore_init dir tx buffering bufLimit b hmode hlate)
    (fun f ⟨S, E, _, hf, _, _, _, hS, hE, _⟩ => ?_) hnear hdistinct hin
  rw [blockData, List.append_nil] at hS
  rw [blockEdits, List.append_nil] at hE
  subst hS hE
  exact ⟨hf, hq _ (startsNear_of_subperm hf.subperm hnear)⟩

/-- In `IOBUF_BUFFER_FLUSHALL` mode, with edits that start between the block before theirs and their
own, a fresh direction emits the body with every edit spliced in. -/
theorem directionEvents_flushAll_splices (qsort : List Edit → List Edit) (dir : Direction)
    (t : TxView) (buffering : Buffering) (bufLimit : Nat) (b : Body)
    (ds : List Delivery) (hcalls : processCalls ds = b.events)
    (hmode : (bufferInit dir (some t) (FilterCtx.init buffering bufLimit)).1.buffering =
      .bufferFlushAll)
    (hlen : eventBytes b.events < 2 ^ 63)
    (hq : ∀ X : List Edit, X.Pairwise StartsNear → QsortResult X (qsort X))
    (hnear : b.edits.Pairwise StartsNear) (hdistinct : (b.edits.map Edit.start).Nodup)
    (hin : InOrder 0 (b.edits.insertionSort fun x y => x.start ≤ y.start) (eventBytes b.events))
    (hlate : Late 0 0 b.blocks) :
    ∃ s' acts, directionEvents dir qsort (some t) ds
        ⟨FilterCtx.zeroed buffering bufLimit, false, eventBytes b.events, []⟩ = some (s', acts) ∧
      s'.fctx.output = splice (eventData b.events) 0
        (b.edits.insertionSort fun x y => x.start ≤ y.start) (eventBytes b.events) ∧
      s'.fctx.edits = [] := by
  obtain ⟨s', hrun, hout, hed⟩ := processEvents_flushAll qsort dir (some t) buffering bufLimit b
    hmode hlen hq hnear hdistinct hin hlate
  obtain ⟨acts, hd⟩ := directionEvents_of_processEvents (by rw [hcalls]; exact hrun)
  exact ⟨s', acts, hd, hout, hed⟩

theorem directionEvents_flushAll_splices_edit_before :
    ∃ s' acts, directionEvents .req qsortModel
        (some ⟨⟨false, false, true, true, false, false⟩,
          some ⟨true, true, 1, .flushAll, 1, .flushAll⟩⟩)
        [⟨false, .vconnWriteReady, ⟨false, false, false, false, false⟩, false,
          some [⟨[1, 2], [], .ok⟩]⟩,
         ⟨false, .vconnWriteReady, ⟨false, false, false, false, false⟩, false,
          some [⟨[3, 4], [Edit.make 1 2 [9]], .ok⟩]⟩]
        ⟨FilterCtx.zeroed .nobuf 0, false, 4, []⟩ = some (s', acts) ∧
      s'.fctx.output = [1, 9, 4] ∧ s'.fctx.edits = [] :=
  directionEvents_flushAll_splices qsortModel .req _ .nobuf 0
    ⟨[[⟨[1, 2], [], .ok⟩]], [⟨[3, 4], [Edit.make 1 2 [9]], .ok⟩], by decide⟩ _ rfl
    (by decide) (by decide) (fun _ h => qsortModel_result h) (by decide) (by decide)
    (by decide) (by decide)

end IronBee.Filter
