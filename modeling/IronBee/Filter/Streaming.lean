import IronBee.Filter.Body
import IronBee.Filter.Holding

/-! # A whole body in the modes that flush before it ends

In `IOBUF_NOBUF` mode `buffer_data_chunk` stages each block and at once flushes everything
with `flush_data(fctx, -1, 0)`; in `IOBUF_BUFFER_FLUSHPART` mode it flushes what takes the
buffer past its limit. An edit that reaches past a flush's window holds the stream back at
its start and stays pending until a later flush covers it. The call sets `nbytes` to the
distance to that start, so an edit that starts past the bytes received would have the copy
loop ask for bytes the reader does not hold, and `assert(n > 0)` stop the process; an edit
that starts behind `bytes_done` is dropped. Where the rules add each edit with the block it
starts in, and the edits follow one another within the body, neither happens: every edit is
applied, in ascending order, and the direction emits the body with the edits spliced in.

`IOBUF_BUFFER_FLUSHALL` mode flushes before staging a block that would take the buffer past
its limit, after the rules have seen that block. An edit they add within it, past its first
byte, then starts past the bytes the filter holds, and the process stops.
-/

namespace IronBee.Filter

/-- The rules notified of each block add only edits that start within it, at or after its
first byte and at most at its end, the blocks starting at offset `o`. -/
def Timely : Nat → List Block → Prop
  | _, [] => True
  | o, b :: bs =>
    (∀ e ∈ b.edits, o ≤ e.start ∧ e.start ≤ o + b.data.length) ∧ Timely (o + b.data.length) bs

instance Timely.decidable : ∀ o bs, Decidable (Timely o bs)
  | _, [] => inferInstanceAs (Decidable True)
  | o, b :: bs =>
    have := Timely.decidable (o + b.data.length) bs
    inferInstanceAs (Decidable ((∀ e ∈ b.edits, o ≤ e.start ∧ e.start ≤ o + b.data.length) ∧
      Timely (o + b.data.length) bs))

theorem bufferDataChunk_staged (qsort : List Edit → List Edit) {f : FilterCtx}
    (chunk : List UInt8) (hbuf : f.hasBuffer = true) (hd : f.buffering ≠ .discard)
    (ha : f.buffering ≠ .bufferFlushAll) :
    bufferDataChunk qsort f chunk = flushAfterChunk qsort (f.bufferIn chunk) .ok := by
  simp [bufferDataChunk, flushBeforeChunk, hbuf, hd, ha]

/-- The direction is held back at the start of a pending edit: a flush stopped there. -/
def FilterCtx.HeldBack (f : FilterCtx) : Prop :=
  ∃ e ∈ f.edits, e.start = f.bytesDone

/-- The direction holds no more than its mode keeps between calls (nothing in `IOBUF_NOBUF`,
`buf_limit` in `IOBUF_BUFFER_FLUSHPART`), unless held back at a pending edit. -/
def FilterCtx.WithinLimit (f : FilterCtx) : Prop :=
  (f.buffering = .nobuf → f.buffered = 0 ∨ f.HeldBack) ∧
    (f.buffering = .bufferFlushPart → f.buffered ≤ f.bufLimit ∨ f.HeldBack)

theorem FilterCtx.Holding.afterChunk {qsort : List Edit → List Edit} {Es : List Edit}
    (hq : ∀ X : List Edit, X.Pairwise StartsNear → QsortResult X (qsort X))
    (hnear : Es.Pairwise StartsNear) (hdistinct : (Es.map Edit.start).Nodup) {T : Nat}
    (hin : InOrder 0 (Es.insertionSort fun a b => a.start ≤ b.start) T) (hT : T < 2 ^ 63)
    {S : List UInt8} {E : List Edit} {f : FilterCtx} (hf : f.Holding S E)
    (hE : List.Subperm E Es) (hST : S.length ≤ T) (hwithin : ∀ e ∈ f.edits, e.start ≤ S.length)
    (rc : Status) :
    ∃ g rc', flushAfterChunk qsort f rc = some (g, rc') ∧ g.Holding S E ∧
      g.buffering = f.buffering ∧ (∀ e ∈ g.edits, e ∈ f.edits) ∧ g.WithinLimit := by
  have hres := hf.conserves.resident
  have hlen := hf.reader_length
  have hlt := hf.conserves.input_lt
  unfold flushAfterChunk
  split_ifs with hn hp
  · obtain ⟨g, rc', hfl, hg, hgb, hge, hstop⟩ :=
      hf.flush hq hnear hdistinct hin hT hE hST hwithin (.inl rfl)
    refine ⟨g, rc', hfl, hg, hgb, hge, fun _ => ?_, fun h => ?_⟩
    · rw [flushRequest_all hf.conserves] at hstop
      have := hg.conserves.resident
      have := hg.reader_length
      exact hstop.imp (fun _ => by omega) id
    · rw [hgb, hn] at h; cases h
  · have hreq : (0 : Int) ≤ toInt64 (toSize ((f.buffered : Int) - f.bufLimit)) ∧
        toInt64 (toSize ((f.buffered : Int) - f.bufLimit)) ≤ f.buffered := by
      rw [toSize_sub (by omega) f.buffered_lt, toInt64_of_range (by omega) (by omega)]
      omega
    obtain ⟨g, rc', hfl, hg, hgb, hge, hstop⟩ :=
      hf.flush hq hnear hdistinct hin hT hE hST hwithin (.inr hreq)
    refine ⟨g, rc', hfl, hg, hgb, hge, fun h => ?_, fun _ => ?_⟩
    · rw [hgb, hp.1] at h; cases h
    · rw [flushRequest_of_nonneg f hreq.1, toSize_sub (by omega) f.buffered_lt,
        toInt64_of_range (by omega) (by omega)] at hstop
      have := hg.conserves.resident
      have := hg.reader_length
      have := flushData_bufLimit hfl
      exact hstop.imp (fun _ => by omega) id
  · exact ⟨f, rc, rfl, hf, rfl, fun _ h => h, fun h => absurd h hn,
      fun h => .inl (not_lt.mp fun hl => hp ⟨h, hl⟩)⟩

/-- A direction in `IOBUF_NOBUF` or `IOBUF_BUFFER_FLUSHPART` mode before the blocks `rest` of the
body `D`, each adding edits that start within it. -/
def StreamingBefore (D : List UInt8) (Es : List Edit) (rest : List Block) (f : FilterCtx) :
    Prop :=
  ∃ S E, f.Holding S E ∧ (f.buffering = .nobuf ∨ f.buffering = .bufferFlushPart) ∧
    (∀ e ∈ f.edits, e.start ≤ S.length) ∧ S ++ blockData rest = D ∧
    E ++ blockEdits rest = Es ∧ Timely S.length rest ∧ f.WithinLimit

theorem streamingBefore_init (dir : Direction) (tx : Option TxView) (buffering : Buffering)
    (bufLimit : Nat) (b : Body)
    (hmode : (bufferInit dir tx (FilterCtx.init buffering bufLimit)).1.buffering = .nobuf ∨
      (bufferInit dir tx (FilterCtx.init buffering bufLimit)).1.buffering = .bufferFlushPart)
    (htimely : Timely 0 b.blocks) :
    StreamingBefore (eventData b.events) b.edits b.blocks
      (bufferInit dir tx (FilterCtx.init buffering bufLimit)).1 := by
  have hfresh := bufferInit_fresh dir tx (FilterCtx.init_fresh buffering bufLimit)
  refine ⟨[], [], hfresh.holding (by rcases hmode with hm | hm <;> rw [hm] <;> decide)
    (bufferInit_hasBuffer dir tx _), hmode,
    by rw [hfresh.edits]; exact fun _ h => absurd h (List.not_mem_nil _),
    by rw [List.nil_append, Body.events, eventData_bodyEvents]; rfl,
    by rw [List.nil_append, Body.edits, bodyEdits_eq]; rfl, htimely,
    fun _ => .inl hfresh.buffered, fun _ => .inl ?_⟩
  rw [hfresh.buffered]
  exact Nat.zero_le _

theorem streamingBefore_step {qsort : List Edit → List Edit} {D : List UInt8} {Es : List Edit}
    (hq : ∀ X : List Edit, X.Pairwise StartsNear → QsortResult X (qsort X))
    (hD : D.length < 2 ^ 63) (hnear : Es.Pairwise StartsNear)
    (hdistinct : (Es.map Edit.start).Nodup)
    (hin : InOrder 0 (Es.insertionSort fun a b => a.start ≤ b.start) D.length)
    (b : Block) (rest : List Block) (f : FilterCtx) (h : StreamingBefore D Es (b :: rest) f) :
    ∃ g rc, bufferDataChunk qsort (f.addEdits b.edits) b.data = some (g, rc) ∧
      StreamingBefore D Es rest g := by
  obtain ⟨S, E, hf, hm, hwithin, hS, hE, ⟨htb, htr⟩, -⟩ := h
  have hlen : (S ++ b.data).length ≤ D.length := by
    rw [← hS]; simp only [blockData, List.length_append]; omega
  have hsub : List.Sublist (E ++ b.edits) Es := by
    rw [← hE, blockEdits, ← List.append_assoc]; exact List.sublist_append_left _ _
  have hcons := hf.conserves.consumed
  have hwithin' : ∀ e ∈ f.edits ++ b.edits, e.start ≤ (S ++ b.data).length := fun e he => by
    rw [List.length_append]
    rcases List.mem_append.mp he with he | he
    · have := hwithin e he; omega
    · have := htb e he; omega
  obtain ⟨g, rc, hg, hgh, hgb, hgsub, hgl⟩ :=
    (hf.stage b.edits b.data (by omega) fun x hx => by have := htb x hx; omega).afterChunk
      hq hnear hdistinct hin hD hsub.subperm hlen hwithin' .ok
  refine ⟨g, rc, ?_, S ++ b.data, E ++ b.edits, hgh, hgb ▸ hm, fun e he => hwithin' e (hgsub e he),
    by rw [List.append_assoc]; exact hS, by rw [List.append_assoc]; exact hE,
    by rwa [List.length_append], hgl⟩
  have ha : f.buffering ≠ .bufferFlushAll := by rcases hm with hm | hm <;> rw [hm] <;> decide
  rw [bufferDataChunk_staged (f := f.addEdits b.edits) qsort _ hf.buffer hf.keeps ha]
  exact hg

theorem processEvents_streaming (qsort : List Edit → List Edit) (dir : Direction)
    (tx : Option TxView) (buffering : Buffering) (bufLimit : Nat) (b : Body)
    (hmode : (bufferInit dir tx (FilterCtx.init buffering bufLimit)).1.buffering = .nobuf ∨
      (bufferInit dir tx (FilterCtx.init buffering bufLimit)).1.buffering = .bufferFlushPart)
    (hlen : eventBytes b.events < 2 ^ 63)
    (hq : ∀ X : List Edit, X.Pairwise StartsNear → QsortResult X (qsort X))
    (hnear : b.edits.Pairwise StartsNear) (hdistinct : (b.edits.map Edit.start).Nodup)
    (hin : InOrder 0 (b.edits.insertionSort fun x y => x.start ≤ y.start) (eventBytes b.events))
    (htimely : Timely 0 b.blocks) :
    ∃ s', processEvents qsort dir tx b.events
        ⟨FilterCtx.zeroed buffering bufLimit, false, eventBytes b.events, []⟩ = some s' ∧
      s'.fctx.output = splice (eventData b.events) 0
        (b.edits.insertionSort fun x y => x.start ≤ y.start) (eventBytes b.events) ∧
      s'.fctx.edits = [] := by
  have hdl := eventData_length b.events
  refine Body.splices qsort (StreamingBefore (eventData b.events) b.edits) dir tx
    (streamingBefore_step hq (by omega) hnear hdistinct (by rwa [hdl])) buffering bufLimit b
    (streamingBefore_init dir tx buffering bufLimit b hmode htimely)
    (fun f ⟨S, E, hf, _, _, hS, hE, _⟩ => ?_) hnear hdistinct hin
  rw [blockData, List.append_nil] at hS
  rw [blockEdits, List.append_nil] at hE
  subst hS hE
  exact ⟨hf, hq _ (startsNear_of_subperm hf.subperm hnear)⟩

/-- In `IOBUF_NOBUF` and `IOBUF_BUFFER_FLUSHPART` modes, with each edit added with the block it
starts in, a fresh direction emits the body with every edit spliced in. -/
theorem directionEvents_streaming_splices (qsort : List Edit → List Edit) (dir : Direction)
    (t : TxView) (buffering : Buffering) (bufLimit : Nat) (b : Body)
    (ds : List Delivery) (hcalls : processCalls ds = b.events)
    (hmode : (bufferInit dir (some t) (FilterCtx.init buffering bufLimit)).1.buffering = .nobuf ∨
      (bufferInit dir (some t) (FilterCtx.init buffering bufLimit)).1.buffering = .bufferFlushPart)
    (hlen : eventBytes b.events < 2 ^ 63)
    (hq : ∀ X : List Edit, X.Pairwise StartsNear → QsortResult X (qsort X))
    (hnear : b.edits.Pairwise StartsNear) (hdistinct : (b.edits.map Edit.start).Nodup)
    (hin : InOrder 0 (b.edits.insertionSort fun x y => x.start ≤ y.start) (eventBytes b.events))
    (htimely : Timely 0 b.blocks) :
    ∃ s' acts, directionEvents dir qsort (some t) ds
        ⟨FilterCtx.zeroed buffering bufLimit, false, eventBytes b.events, []⟩ = some (s', acts) ∧
      s'.fctx.output = splice (eventData b.events) 0
        (b.edits.insertionSort fun x y => x.start ≤ y.start) (eventBytes b.events) ∧
      s'.fctx.edits = [] := by
  obtain ⟨s', hrun, hout, hed⟩ := processEvents_streaming qsort dir (some t) buffering bufLimit b
    hmode hlen hq hnear hdistinct hin htimely
  obtain ⟨acts, hd⟩ := directionEvents_of_processEvents (by rw [hcalls]; exact hrun)
  exact ⟨s', acts, hd, hout, hed⟩

theorem directionEvents_streaming_splices_held_edit :
    ∃ s' acts, directionEvents .req qsortModel
        (some ⟨⟨false, false, true, true, false, false⟩,
          some ⟨true, true, 1, .flushPart, 1, .flushPart⟩⟩)
        [⟨false, .vconnWriteReady, ⟨false, false, false, false, false⟩, false,
          some [⟨[1, 2], [Edit.make 1 2 [7]], .ok⟩]⟩,
         ⟨false, .vconnWriteReady, ⟨false, false, false, false, false⟩, false,
          some [⟨[3, 4], [Edit.make 3 1 []], .ok⟩]⟩,
         ⟨false, .vconnWriteComplete, ⟨false, false, false, false, false⟩, false, none⟩]
        ⟨FilterCtx.zeroed .nobuf 0, false, 4, []⟩ = some (s', acts) ∧
      s'.fctx.output = [1, 7] ∧ s'.fctx.edits = [] :=
  directionEvents_streaming_splices qsortModel .req _ .nobuf 0
    ⟨[[⟨[1, 2], [Edit.make 1 2 [7]], .ok⟩]], [⟨[3, 4], [Edit.make 3 1 []], .ok⟩], by decide⟩ _ rfl
    (.inr (by decide)) (by decide) (fun _ h => qsortModel_result h) (by decide) (by decide)
    (by decide) (by decide)

theorem processEvents_streaming_within (qsort : List Edit → List Edit) (dir : Direction)
    (tx : Option TxView) (buffering : Buffering) (bufLimit : Nat) (b : Body)
    (bs : List Block) (pre post : List (List Block)) (hsplit : b.early = (bs :: pre) ++ post)
    (hmode : (bufferInit dir tx (FilterCtx.init buffering bufLimit)).1.buffering = .nobuf ∨
      (bufferInit dir tx (FilterCtx.init buffering bufLimit)).1.buffering = .bufferFlushPart)
    (hlen : eventBytes b.events < 2 ^ 63)
    (hq : ∀ X : List Edit, X.Pairwise StartsNear → QsortResult X (qsort X))
    (hnear : b.edits.Pairwise StartsNear) (hdistinct : (b.edits.map Edit.start).Nodup)
    (hin : InOrder 0 (b.edits.insertionSort fun x y => x.start ≤ y.start) (eventBytes b.events))
    (htimely : Timely 0 b.blocks) :
    ∃ s', processEvents qsort dir tx (bodyEvents (bs :: pre))
        ⟨FilterCtx.zeroed buffering bufLimit, false, eventBytes b.events, []⟩ = some s' ∧
      s'.fctx.WithinLimit := by
  have hdl := eventData_length b.events
  have hblocks : bodyBlocks (bs :: pre) ++ bodyBlocks (post ++ [b.last]) = b.blocks := by
    rw [← bodyBlocks_append, ← List.append_assoc, ← hsplit]; rfl
  have hbytes : eventBytes (bodyEvents (bs :: pre)) < eventBytes b.events := by
    have := b.last_pos
    rw [Body.events, eventBytes_bodyEvents, eventBytes_bodyEvents, ← Body.blocks, ← hblocks]
    simp only [bodyBlocks_append, blockData_append, List.length_append, blockData_length,
      bodyBlocks, List.append_nil]
    omega
  obtain ⟨s', hrun, ⟨-, -, -, -, -, -, -, -, hw⟩⟩ := processEvents_run_prefix qsort
    (StreamingBefore (eventData b.events) b.edits) dir tx
    (streamingBefore_step hq (by omega) hnear hdistinct (by rwa [hdl])) bs pre
    (bodyBlocks (post ++ [b.last]))
    ⟨FilterCtx.zeroed buffering bufLimit, false, eventBytes b.events, []⟩
    (by rw [hblocks, openOutput_zeroed]
        exact streamingBefore_init dir tx buffering bufLimit b hmode htimely)
    (Int.ofNat_lt.mpr hbytes)
  exact ⟨s', hrun, hw⟩

/-- In `IOBUF_NOBUF` and `IOBUF_BUFFER_FLUSHPART` modes a direction holds between calls no more than
its mode allows, unless a pending edit holds it back. -/
theorem directionEvents_streaming_within (qsort : List Edit → List Edit) (dir : Direction)
    (t : TxView) (buffering : Buffering) (bufLimit : Nat) (b : Body)
    (bs : List Block) (pre post : List (List Block)) (hsplit : b.early = (bs :: pre) ++ post)
    (ds : List Delivery) (hcalls : processCalls ds = bodyEvents (bs :: pre))
    (hmode : (bufferInit dir (some t) (FilterCtx.init buffering bufLimit)).1.buffering = .nobuf ∨
      (bufferInit dir (some t) (FilterCtx.init buffering bufLimit)).1.buffering = .bufferFlushPart)
    (hlen : eventBytes b.events < 2 ^ 63)
    (hq : ∀ X : List Edit, X.Pairwise StartsNear → QsortResult X (qsort X))
    (hnear : b.edits.Pairwise StartsNear) (hdistinct : (b.edits.map Edit.start).Nodup)
    (hin : InOrder 0 (b.edits.insertionSort fun x y => x.start ≤ y.start) (eventBytes b.events))
    (htimely : Timely 0 b.blocks) :
    ∃ s' acts, directionEvents dir qsort (some t) ds
        ⟨FilterCtx.zeroed buffering bufLimit, false, eventBytes b.events, []⟩ = some (s', acts) ∧
      (s'.fctx.buffering = .nobuf → s'.fctx.buffered = 0 ∨
        ∃ e ∈ s'.fctx.edits, e.start = s'.fctx.bytesDone) ∧
      (s'.fctx.buffering = .bufferFlushPart → s'.fctx.buffered ≤ s'.fctx.bufLimit ∨
        ∃ e ∈ s'.fctx.edits, e.start = s'.fctx.bytesDone) := by
  obtain ⟨s', hrun, hw⟩ := processEvents_streaming_within qsort dir (some t) buffering bufLimit b
    bs pre post hsplit hmode hlen hq hnear hdistinct hin htimely
  obtain ⟨acts, hd⟩ := directionEvents_of_processEvents (by rw [hcalls]; exact hrun)
  exact ⟨s', acts, hd, hw⟩

theorem directionEvents_streaming_within_held_edit :
    ∃ s' acts, directionEvents .req qsortModel
        (some ⟨⟨false, false, true, true, false, false⟩,
          some ⟨true, true, 1, .flushPart, 1, .flushPart⟩⟩)
        [⟨false, .vconnWriteReady, ⟨false, false, false, false, false⟩, false,
          some [⟨[1, 2, 3], [Edit.make 1 5 [7]], .ok⟩]⟩]
        ⟨FilterCtx.zeroed .nobuf 0, false, 7, []⟩ = some (s', acts) ∧
      (s'.fctx.buffering = .nobuf → s'.fctx.buffered = 0 ∨
        ∃ e ∈ s'.fctx.edits, e.start = s'.fctx.bytesDone) ∧
      (s'.fctx.buffering = .bufferFlushPart → s'.fctx.buffered ≤ s'.fctx.bufLimit ∨
        ∃ e ∈ s'.fctx.edits, e.start = s'.fctx.bytesDone) :=
  directionEvents_streaming_within qsortModel .req _ .nobuf 0
    ⟨[[⟨[1, 2, 3], [Edit.make 1 5 [7]], .ok⟩]], [⟨[4, 5, 6, 7], [], .ok⟩], by decide⟩
    _ [] [] rfl _ rfl (.inr (by decide)) (by decide) (fun _ h => qsortModel_result h)
    (by decide) (by decide) (by decide) (by decide)

/-! ## Edits ahead of the data -/

/-- In `IOBUF_NOBUF` mode, rules that edit only past the end of the first block stop the process at
the first call. -/
theorem directionEvents_nobuf_edit_ahead_stops (qsort : List Edit → List Edit)
    (hq : ∀ X : List Edit, (qsort X).Perm X) (dir : Direction) (t : TxView)
    (buffering : Buffering) (bufLimit : Nat)
    (hmode : (bufferInit dir (some t) (FilterCtx.init buffering bufLimit)).1.buffering = .nobuf)
    (d : Delivery) (ds : List Delivery) (hd : d.reachesProcessData) (herr : d.httpError = false)
    (b : Block) (bs : List Block) (hinput : d.input = some (b :: bs)) (todo : Int)
    (htodo : todo ≠ 0) (hne : b.edits ≠ []) (hlen : b.data.length < 2 ^ 63)
    (hpast : ∀ e ∈ b.edits, b.data.length < e.start ∧ e.start < 2 ^ 63) :
    directionEvents dir qsort (some t) (d :: ds)
      ⟨FilterCtx.zeroed buffering bufLimit, false, todo, []⟩ = none := by
  obtain ⟨f, hf, hfresh⟩ : ∃ f, (bufferInit dir (some t)
      (FilterCtx.zeroed buffering bufLimit).createBuffer).1 = f ∧ f.Fresh :=
    ⟨_, rfl, bufferInit_fresh dir (some t) (FilterCtx.zeroed_fresh buffering bufLimit).createBuffer⟩
  have hm : f.buffering = .nobuf := by rw [← hf]; exact hmode
  have hb : f.hasBuffer = true := by rw [← hf, bufferInit_hasBuffer]; rfl
  -- the block staged on the fresh context, with only its own edits pending
  have hstop : bufferDataChunk qsort (f.addEdits b.edits) b.data = none := by
    rw [bufferDataChunk_nobuf qsort b.data (f := f.addEdits b.edits) hb hm]
    refine flushData_ahead_stops (hq _) ?_ ?_ ?_ fun e he => ?_
    · show f.edits ++ b.edits ≠ []
      rw [hfresh.edits, List.nil_append]
      exact hne
    · show toSize ((f.buffered : Int) + b.data.length) = (f.reader ++ b.data).length
      rw [hfresh.buffered, hfresh.reader, toSize_add (by omega), List.nil_append, Nat.zero_add]
    · show f.bytesDone + (f.reader ++ b.data).length < 2 ^ 63
      rw [hfresh.bytesDone, hfresh.reader, List.nil_append, Nat.zero_add]
      exact hlen
    · have he' : e ∈ b.edits := by
        have : e ∈ f.edits ++ b.edits := he
        rwa [hfresh.edits, List.nil_append] at this
      show f.bytesDone + (f.reader ++ b.data).length < e.start ∧ e.start < 2 ^ 63
      rw [hfresh.bytesDone, hfresh.reader, List.nil_append, Nat.zero_add]
      exact hpast e he'
  rw [directionEvents_some, dataEvents, dataEvent_of_reaches _ hd, herr, hinput]
  unfold processData openOutput
  simp only [Bool.false_eq_true, if_false, htodo, chunkLoop, chunkStep, hf]
  rw [hstop]
  rfl

theorem directionEvents_nobuf_edit_ahead_stops_fourth_byte :
    directionEvents .req qsortModel (some TxView.noBuffering)
        [⟨false, .vconnWriteReady, ⟨false, false, false, false, false⟩, false,
          some [⟨[1, 2], [Edit.make 3 1 [9]], .ok⟩]⟩]
        ⟨FilterCtx.zeroed .nobuf 0, false, 4, []⟩ = none :=
  directionEvents_nobuf_edit_ahead_stops qsortModel (fun X => List.perm_insertionSort _ X) .req
    TxView.noBuffering .nobuf 0 rfl _ [] (by rfl) (by rfl) ⟨[1, 2], [Edit.make 3 1 [9]], .ok⟩ []
    (by rfl) 4 (by decide) (by decide) (by decide) (by decide)

/-! ## `IOBUF_BUFFER_FLUSHALL` mode -/

end IronBee.Filter
