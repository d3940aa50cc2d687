import IronBee.Filter.Run

/-! # `process_data`

One call of `process_data` handles one event of a direction's transformation. It switches
to discard mode for an error document, finishes the stream when the input VIO has no
buffer, sets up the output and the buffering mode on the first call, and otherwise hands
each block of input to the rules and then to `buffer_data_chunk`, finishing the stream once
nothing is left to do. The statuses it looks at are logged as errors.
-/

namespace IronBee.Filter

/-- The errors `process_data` and `buffer_init` log with `ib_log_error_tx`. -/
inductive LogEntry where
  /-- "Bad/Inconsistent stream edit(s) ignored." -/
  | badEdits
  /-- "Unhandled return value %d" -/
  | unhandled (rc : Status)
  /-- "Error %d notifying body data." -/
  | notifyError (rc : Status)
  /-- "Error determining buffering configuration." -/
  | configError
  deriving DecidableEq, Repr

/-- The event `process_data` sends back to the input VIO's continuation. -/
inductive Reply where
  | writeComplete
  | writeReady
  deriving DecidableEq, Repr

/-- The `switch (rc)` after the flush at end of stream. -/
def eosFlushLog : Status → List LogEntry
  | .ok => []
  | .ebadval => [.badEdits]
  | rc => [.unhandled rc]

/-- The `switch (rc)` after `buffer_data_chunk`. -/
def chunkLog : Status → List LogEntry
  | .ok => []
  | .eagain => []
  | .ebadval => [.badEdits]
  | rc => [.unhandled rc]

/-- A block of the input reader, with what `ib_notify_body` does when the rules see it: the
edits they add and the status it returns. -/
structure Block where
  data : List UInt8
  edits : List Edit
  notifyRc : Status
  deriving DecidableEq

/-- One direction as `process_data` sees it: the filter context, whether
`fctx->output_buffer` exists, `TSVIONTodoGet(input_vio)`, and the errors logged so far. -/
structure Stream where
  fctx : FilterCtx
  outputOpen : Bool
  todo : Int
  log : List LogEntry
  deriving DecidableEq

/-- One turn of the block loop: notify the rules, buffer the block, log the statuses,
consume the block and advance `ndone`. -/
def chunkStep (qsort : List Edit → List Edit) (s : Stream) (b : Block) : Option Stream :=
  (bufferDataChunk qsort (s.fctx.addEdits b.edits) b.data).map fun (f, rc) =>
    { s with
      fctx := f
      todo := s.todo - b.data.length
      log := s.log ++ (if b.notifyRc = .ok then [] else [.notifyError b.notifyRc]) ++
        chunkLog rc }

/-- The loop `while (navail > 0)` over the blocks of the input reader. -/
def chunkLoop (qsort : List Edit → List Edit) : List Block → Stream → Option Stream
  | [], s => some s
  | b :: bs, s => (chunkStep qsort s b).bind (chunkLoop qsort bs)

/-- `flush_data(fctx, -1, 1)` with its status dropped, then `TS_EVENT_VCONN_WRITE_COMPLETE`. -/
def finishStream (qsort : List Edit → List Edit) (s : Stream) : Option (Stream × Reply) :=
  (flushData qsort s.fctx (-1) true).map fun (f, _) => ({ s with fctx := f }, .writeComplete)

/-- `fctx->buffer = TSIOBufferCreate()` and `fctx->reader = TSIOBufferReaderAlloc(fctx->buffer)`:
a reader over a new, empty buffer. -/
def FilterCtx.createBuffer (f : FilterCtx) : FilterCtx :=
  { f with hasBuffer := true, reader := [] }

/-- The first call with input: the output buffer, `fctx->buffer` and `fctx->reader` are created, and
the buffering mode is read unless going to an error document. -/
def openOutput (dir : Direction) (tx : Option TxView) (httpError : Bool) (s : Stream) :
    Stream :=
  if s.outputOpen then s
  else if httpError then { s with fctx := s.fctx.createBuffer, outputOpen := true }
  else
    let init := bufferInit dir tx s.fctx.createBuffer
    { s with
      fctx := init.1
      outputOpen := true
      log := s.log ++ if init.2 then [.configError] else [] }

@[simp] theorem openOutput_outputOpen (dir : Direction) (tx : Option TxView) (httpError : Bool)
    (s : Stream) : (openOutput dir tx httpError s).outputOpen = true := by
  unfold openOutput
  split_ifs with h <;> first | exact h | rfl

@[simp] theorem openOutput_todo (dir : Direction) (tx : Option TxView) (httpError : Bool)
    (s : Stream) : (openOutput dir tx httpError s).todo = s.todo := by
  unfold openOutput
  split_ifs <;> rfl

theorem openOutput_of_open (dir : Direction) (tx : Option TxView) (httpError : Bool)
    {s : Stream} (h : s.outputOpen = true) : openOutput dir tx httpError s = s :=
  if_pos h

/-- `process_data(contp, ibd)` on one event (`httpError` is `HTTP_CODE(txndata->status)`, `input`
the blocks read, `none` without a buffer); `none` when an assertion stops the process. -/
def processData (qsort : List Edit → List Edit) (dir : Direction) (tx : Option TxView)
    (httpError : Bool) (input : Option (List Block)) (s : Stream) :
    Option (Stream × Option Reply) :=
  let s := if httpError then { s with fctx := s.fctx.toDiscard } else s
  match input with
  | none =>
    if s.outputOpen then
      (flushData qsort s.fctx (-1) true).map fun (f, rc) =>
        ({ s with fctx := f, log := s.log ++ eosFlushLog rc }, none)
    else some ({ s with outputOpen := true }, none)
  | some blocks =>
    let s := openOutput dir tx httpError s
    if s.todo = 0 then (finishStream qsort s).map fun (s, r) => (s, some r)
    else (chunkLoop qsort blocks s).bind fun s =>
      if s.todo = 0 then (finishStream qsort s).map fun (s, r) => (s, some r)
      else some (s, some .writeReady)

/-- A discarded edit can go unreported: the status that would report it is ignored. -/
theorem discarded_edit_unreported :
    (flushData qsortModel (FilterCtx.resident 5 [1, 2, 3, 4, 5]
        [Edit.make 2 1 [], Edit.make 9 1 []]) 2 false).map Prod.snd = some .eagain ∧
    chunkLog .eagain = [] ∧
    (processData qsortModel .req none false (some [⟨[1, 2, 3], [Edit.make 7 1 []], .ok⟩])
        ⟨FilterCtx.init .bufferAll 0, true, 3, []⟩).map
      (fun r => (r.1.fctx.edits, r.1.fctx.applied, r.1.log, r.2)) =
      some ([], [], [], some .writeComplete) := by
  decide

/-! ## Every call of `process_data` is a run of the filter -/

/-- A context no byte has reached yet: what `buffer_init` finds on the first call. -/
structure FilterCtx.Fresh (f : FilterCtx) : Prop where
  buffered : f.buffered = 0
  bytesDone : f.bytesDone = 0
  offs : f.offs = 0
  reader : f.reader = []
  output : f.output = []
  edits : f.edits = []
  nbytesSet : f.nbytesSet = none
  applied : f.applied = []

theorem FilterCtx.Fresh.eq_init {f : FilterCtx} (h : f.Fresh) (hbuf : f.hasBuffer = true) :
    f = FilterCtx.init f.buffering f.bufLimit := by
  obtain ⟨hb, hd, ho, hr, hout, he, hn, ha⟩ := h
  have hl := toSize_natCast f.bufLimit_lt
  cases f
  dsimp only at hbuf hb hd ho hr hout he hn ha hl ⊢
  subst hbuf hb hd ho hr hout he hn ha
  simp only [FilterCtx.init, hl]

theorem FilterCtx.Fresh.toDiscard {f : FilterCtx} (h : f.Fresh) : f.toDiscard.Fresh :=
  ⟨h.1, h.2, h.3, h.4, h.5, h.6, h.7, h.8⟩

theorem FilterCtx.Fresh.createBuffer {f : FilterCtx} (h : f.Fresh) : f.createBuffer.Fresh :=
  ⟨h.1, h.2, h.3, rfl, h.5, h.6, h.7, h.8⟩

theorem FilterCtx.zeroed_fresh (buffering : Buffering) (bufLimit : Nat) :
    (FilterCtx.zeroed buffering bufLimit).Fresh :=
  ⟨rfl, rfl, rfl, rfl, rfl, rfl, rfl, rfl⟩

theorem bufferInit_fctx (dir : Direction) (tx : Option TxView) (f : FilterCtx) :
    ∃ (buffering : Buffering) (bufLimit : Nat) (h : bufLimit < 2 ^ 64),
      (bufferInit dir tx f).1 = { f with buffering, bufLimit, bufLimit_lt := h } := by
  unfold bufferInit
  rcases tx with _ | ⟨flags, _ | cfg⟩ <;> try cases dir
  all_goals dsimp only
  all_goals (try split_ifs) <;> refine ⟨_, _, ?_, rfl⟩
  all_goals first | exact f.bufLimit_lt | exact toSize_lt _

theorem bufferInit_fresh (dir : Direction) (tx : Option TxView) {f : FilterCtx}
    (h : f.Fresh) : (bufferInit dir tx f).1.Fresh := by
  obtain ⟨_, _, _, he⟩ := bufferInit_fctx dir tx f
  rw [he]
  exact ⟨h.1, h.2, h.3, h.4, h.5, h.6, h.7, h.8⟩

@[simp] theorem bufferInit_hasBuffer (dir : Direction) (tx : Option TxView) (f : FilterCtx) :
    (bufferInit dir tx f).1.hasBuffer = f.hasBuffer := by
  obtain ⟨_, _, _, he⟩ := bufferInit_fctx dir tx f
  rw [he]

theorem bufferInit_createBuffer (dir : Direction) (tx : Option TxView) {f : FilterCtx}
    (h : f.Fresh) :
    ∃ buffering bufLimit, (bufferInit dir tx f.createBuffer).1 = FilterCtx.init buffering bufLimit := by
  obtain ⟨buffering, bufLimit, hl, he⟩ := bufferInit_fctx dir tx f.createBuffer
  rw [he]
  exact ⟨_, _, FilterCtx.Fresh.eq_init ⟨h.1, h.2, h.3, rfl, h.5, h.6, h.7, h.8⟩ rfl⟩

/-- A context whose `fctx->buffer` and `fctx->reader` were never created: its first call had no
input. -/
structure FilterCtx.Unbuffered (f : FilterCtx) : Prop where
  hasBuffer : f.hasBuffer = false
  buffered : f.buffered = 0
  bytesDone : f.bytesDone = 0
  offs : f.offs = 0
  reader : f.reader = []
  output : f.output = []
  applied : f.applied = []

namespace FilterCtx.Unbuffered

variable {f : FilterCtx} (hu : f.Unbuffered)
include hu

theorem addEdits (edits : List Edit) : (f.addEdits edits).Unbuffered :=
  ⟨hu.1, hu.2, hu.3, hu.4, hu.5, hu.6, hu.7⟩

theorem toDiscard : f.toDiscard.Unbuffered :=
  ⟨hu.1, hu.2, hu.3, hu.4, hu.5, hu.6, hu.7⟩

theorem bufferDataChunk {qsort : List Edit → List Edit} {chunk : List UInt8} {g : FilterCtx}
    {rc : Status} (h : bufferDataChunk qsort f chunk = some (g, rc)) :
    f.buffering = .discard ∧ g = f := by
  by_cases hd : f.buffering = .discard
  · rw [IronBee.Filter.bufferDataChunk, if_pos hd, FilterCtx.discardBuffered,
      if_neg (by rw [hu.buffered]; exact lt_irrefl 0), Option.map_some', Option.some.injEq,
      Prod.mk.injEq] at h
    exact ⟨hd, h.1.symm⟩
  · rw [bufferDataChunk_of_no_buffer qsort chunk hu.hasBuffer hd] at h
    cases h

theorem flushData {qsort : List Edit → List Edit} {nbytes : Int} {last : Bool} {g : FilterCtx}
    {rc : Status} (h : flushData qsort f nbytes last = some (g, rc)) : g.Unbuffered := by
  refine flushData_stable ⟨fun f n hn hu => ?_, fun f e g h hu => ?_, fun f es hu =>
    ⟨hu.1, hu.2, hu.3, hu.4, hu.5, hu.6, hu.7⟩, fun f last hu => ?_⟩ h hu
  · obtain rfl : n = 0 := by simpa [hu.reader] using hn
    exact ⟨hu.1, by simp [moveOut_buffered, hu.2, toSize], by simp [moveOut_bytesDone, hu.3, toSize],
      hu.4, by simp [hu.5], by simp [hu.5, hu.6], hu.7⟩
  · rw [replace_of_no_buffer hu.hasBuffer] at h
    cases h
  · cases last <;> exact ⟨hu.1, hu.2, hu.3, hu.4, hu.5, hu.6, hu.7⟩

theorem conserves {S : List UInt8} (hS : f.buffering ≠ .discard → S = [])
    (hin : S.length < 2 ^ 63) : Conserves S f := by
  refine ⟨hin, by rw [hu.buffered, hu.reader]; rfl, by simp [hu.bytesDone, hu.reader],
    by simp [hu.reader], fun hd => by simp [hu.reader, hS hd], ?_, ?_, ?_⟩
  · rw [hu.applied, hu.bytesDone]; exact Nat.le_refl 0
  · simp [hu.output, hu.applied, hu.bytesDone, splice]
  · rw [hu.offs, hu.applied]; decide

end FilterCtx.Unbuffered

theorem Streams.hasBuffer {qsort : List Edit → List Edit} {S : List UInt8} {f : FilterCtx}
    (hf : Streams qsort S f) : f.hasBuffer = true := by
  induction hf with
  | init => rfl
  | chunk _ _ _ hstep ih => exact (bufferDataChunk_hasBuffer hstep).trans ih
  | discard _ ih => exact ih
  | finish _ hstep ih => exact (flushData_hasBuffer hstep).trans ih

/-- A context between calls, with the bytes `S` handed to the filter: a state of a run over them, or
one without buffers that outside discard mode was handed nothing. -/
def Processed (qsort : List Edit → List Edit) (S : List UInt8) (f : FilterCtx) : Prop :=
  Streams qsort S f ∨ f.Unbuffered ∧ (f.buffering ≠ .discard → S = [])

namespace Processed

variable {qsort : List Edit → List Edit} {S : List UInt8} {f : FilterCtx}

theorem of_fresh (h : f.Fresh) : Processed qsort [] f := by
  cases hb : f.hasBuffer
  · exact .inr ⟨⟨hb, h.1, h.2, h.3, h.4, h.5, h.8⟩, fun _ => rfl⟩
  · exact .inl (h.eq_init hb ▸ .init _ _)

theorem chunk {g : FilterCtx} {rc : Status} (data : List UInt8) (edits : List Edit)
    (hp : Processed qsort S f) (h : bufferDataChunk qsort (f.addEdits edits) data = some (g, rc)) :
    Processed qsort (S ++ data) g := by
  rcases hp with hs | ⟨hu, -⟩
  · exact .inl (.chunk data edits hs h)
  · obtain ⟨hd, rfl⟩ := (hu.addEdits edits).bufferDataChunk h
    exact .inr ⟨hu.addEdits edits, fun h => absurd hd h⟩

theorem discard (hp : Processed qsort S f) : Processed qsort S f.toDiscard :=
  hp.imp .discard fun ⟨hu, _⟩ => ⟨hu.toDiscard, fun h => absurd rfl h⟩

theorem finish {g : FilterCtx} {rc : Status} (hp : Processed qsort S f)
    (h : flushData qsort f (-1) true = some (g, rc)) : Processed qsort S g :=
  hp.imp (.finish · h) fun ⟨hu, hS⟩ => ⟨hu.flushData h, flushData_buffering h ▸ hS⟩

theorem conserves (hp : Processed qsort S f) (hin : S.length < 2 ^ 63) : Conserves S f :=
  hp.elim (·.conserves hin) fun ⟨hu, hS⟩ => hu.conserves hS hin

theorem buffer (hp : Processed qsort S f) (hr : f.reader ≠ []) : f.hasBuffer = true :=
  hp.elim Streams.hasBuffer fun ⟨hu, _⟩ => absurd hu.reader hr

end Processed

/-- What holds of a direction between calls of `process_data`, with the bytes `S` handed to the
filter. -/
structure StreamInv (qsort : List Edit → List Edit) (S : List UInt8) (s : Stream) : Prop where
  processed : Processed qsort S s.fctx
  fresh : s.outputOpen = false → S = [] ∧ s.fctx.Fresh

theorem streamInv_zeroed (qsort : List Edit → List Edit) (buffering : Buffering)
    (bufLimit : Nat) (todo : Int) :
    StreamInv qsort [] ⟨FilterCtx.zeroed buffering bufLimit, false, todo, []⟩ :=
  ⟨.of_fresh (FilterCtx.zeroed_fresh _ _), fun _ => ⟨rfl, FilterCtx.zeroed_fresh _ _⟩⟩

def blockBytes : List Block → Nat
  | [] => 0
  | b :: bs => b.data.length + blockBytes bs

def inputBytes : Option (List Block) → Nat
  | none => 0
  | some blocks => blockBytes blocks

def blockData : List Block → List UInt8
  | [] => []
  | b :: bs => b.data ++ blockData bs

def inputData : Option (List Block) → List UInt8
  | none => []
  | some blocks => blockData blocks

theorem blockData_length : ∀ blocks : List Block, (blockData blocks).length = blockBytes blocks
  | [] => rfl
  | b :: bs => by rw [blockData, List.length_append, blockData_length bs, blockBytes]

theorem chunkLoop_processed {qsort : List Edit → List Edit} :
    ∀ {blocks : List Block} {s s' : Stream} {S : List UInt8},
      chunkLoop qsort blocks s = some s' → Processed qsort S s.fctx →
      Processed qsort (S ++ blockData blocks) s'.fctx ∧ s'.outputOpen = s.outputOpen
  | [], s, s', S, h, hr => by
    cases h; exact ⟨by rwa [blockData, List.append_nil], rfl⟩
  | b :: bs, s, s', S, h, hr => by
    obtain ⟨s₁, h₁, h⟩ := Option.bind_eq_some.mp h
    obtain ⟨⟨f, rc⟩, hf, rfl⟩ := Option.map_eq_some'.mp h₁
    obtain ⟨hr', ho⟩ := chunkLoop_processed h (hr.chunk b.data b.edits hf)
    rw [blockData, ← List.append_assoc]
    exact ⟨hr', ho⟩

theorem finishStream_processed {qsort : List Edit → List Edit} {s s' : Stream} {r : Reply}
    {S : List UInt8} (h : finishStream qsort s = some (s', r)) (hr : Processed qsort S s.fctx) :
    Processed qsort S s'.fctx ∧ s'.outputOpen = s.outputOpen ∧ s'.todo = s.todo := by
  obtain ⟨⟨f, rc⟩, hf, h⟩ := Option.map_eq_some'.mp h
  cases h
  exact ⟨hr.finish hf, rfl, rfl⟩

theorem openOutput_inv {qsort : List Edit → List Edit} (dir : Direction)
    (tx : Option TxView) (httpError : Bool) {s : Stream} {S : List UInt8}
    (hs : StreamInv qsort S s) :
    Processed qsort S (openOutput dir tx httpError s).fctx ∧
      (openOutput dir tx httpError s).outputOpen = true ∧
      (openOutput dir tx httpError s).todo = s.todo := by
  unfold openOutput
  split_ifs with ho he
  · exact ⟨hs.processed, ho, rfl⟩
  all_goals obtain ⟨rfl, hfr⟩ := hs.fresh (by simpa using ho)
  · exact ⟨.inl (hfr.createBuffer.eq_init rfl ▸ .init _ _), rfl, rfl⟩
  · obtain ⟨buffering, bufLimit, he⟩ := bufferInit_createBuffer dir tx hfr
    refine ⟨.inl ?_, rfl, rfl⟩
    show Streams qsort [] (bufferInit dir tx s.fctx.createBuffer).1
    rw [he]
    exact .init _ _

theorem processData_inv {qsort : List Edit → List Edit} {dir : Direction}
    {tx : Option TxView} {httpError : Bool} {input : Option (List Block)} {s s' : Stream}
    {r : Option Reply} {S : List UInt8} (hs : StreamInv qsort S s)
    (h : processData qsort dir tx httpError input s = some (s', r)) :
    ∃ T, StreamInv qsort (S ++ T) s' ∧
      (T = [] ∧ s'.todo = s.todo ∧ (inputData input = [] ∨ s.todo = 0) ∨
        T = inputData input ∧ s.todo ≠ 0) := by
  have hs₀ : StreamInv qsort S
      (if httpError then { s with fctx := s.fctx.toDiscard } else s) := by
    split_ifs
    · exact ⟨hs.processed.discard, fun ho => (hs.fresh ho).imp_right (·.toDiscard)⟩
    · exact hs
  have ht₀ : (if httpError then { s with fctx := s.fctx.toDiscard } else s).todo = s.todo := by
    split_ifs <;> rfl
  unfold processData at h
  generalize (if httpError then { s with fctx := s.fctx.toDiscard } else s) = s₀ at h hs₀ ht₀
  have opened : ∀ {s₂ : Stream} {T : List UInt8}, s₂.outputOpen = true →
      s₂.outputOpen = false → T = [] ∧ s₂.fctx.Fresh :=
    fun h₁ h₂ => absurd (h₁.symm.trans h₂) (by simp)
  rcases input with _ | blocks
  · dsimp only at h
    split_ifs at h with ho
    · obtain ⟨⟨f, rc⟩, hf, h⟩ := Option.map_eq_some'.mp h
      cases h
      exact ⟨[], ⟨by rw [List.append_nil]; exact hs₀.processed.finish hf, opened ho⟩,
        .inl ⟨rfl, ht₀, .inl rfl⟩⟩
    · cases h
      exact ⟨[], ⟨by rw [List.append_nil]; exact hs₀.processed, opened rfl⟩,
        .inl ⟨rfl, ht₀, .inl rfl⟩⟩
  · dsimp only at h
    obtain ⟨hr, ho, ht⟩ := openOutput_inv dir tx httpError hs₀
    generalize openOutput dir tx httpError s₀ = s₁ at h hr ho ht
    split_ifs at h with hz
    · obtain ⟨⟨s₂, r₂⟩, h₂, h⟩ := Option.map_eq_some'.mp h
      cases h
      obtain ⟨hr₂, ho₂, ht₂⟩ := finishStream_processed h₂ hr
      exact ⟨[], ⟨by rwa [List.append_nil], opened (ho₂.trans ho)⟩,
        .inl ⟨rfl, ht₂.trans (ht.trans ht₀), by rw [← ht₀, ← ht]; exact .inr hz⟩⟩
    · obtain ⟨s₂, h₂, h⟩ := Option.bind_eq_some.mp h
      obtain ⟨hr₂, ho₂⟩ := chunkLoop_processed h₂ hr
      refine ⟨inputData (some blocks), ?_, .inr ⟨rfl, by rw [← ht₀, ← ht]; exact hz⟩⟩
      split_ifs at h
      · obtain ⟨⟨s₃, r₃⟩, h₃, h⟩ := Option.map_eq_some'.mp h
        cases h
        obtain ⟨hr₃, ho₃, -⟩ := finishStream_processed h₃ hr₂
        exact ⟨hr₃, opened (ho₃.trans (ho₂.trans ho))⟩
      · cases h
        exact ⟨hr₂, opened (ho₂.trans ho)⟩

def eventBytes : List (Bool × Option (List Block)) → Nat
  | [] => 0
  | ev :: evs => inputBytes ev.2 + eventBytes evs

def eventData : List (Bool × Option (List Block)) → List UInt8
  | [] => []
  | ev :: evs => inputData ev.2 ++ eventData evs

theorem inputData_length : ∀ input, (inputData input).length = inputBytes input
  | none => rfl
  | some blocks => blockData_length blocks

theorem eventData_length :
    ∀ evs : List (Bool × Option (List Block)), (eventData evs).length = eventBytes evs
  | [] => rfl
  | ev :: evs => by
    rw [eventData, eventBytes, List.length_append, eventData_length evs, inputData_length]

/-- The calls of `process_data` on a sequence of events, each given by the transaction's
error status and the event's input. -/
def processEvents (qsort : List Edit → List Edit) (dir : Direction) (tx : Option TxView) :
    List (Bool × Option (List Block)) → Stream → Option Stream
  | [], s => some s
  | (httpError, input) :: evs, s =>
    (processData qsort dir tx httpError input s).bind fun r => processEvents qsort dir tx evs r.1

theorem processEvents_inv {qsort : List Edit → List Edit} {dir : Direction}
    {tx : Option TxView} :
    ∀ {evs : List (Bool × Option (List Block))} {s s' : Stream} {S : List UInt8},
      processEvents qsort dir tx evs s = some s' → StreamInv qsort S s →
      ∃ T, T <+: eventData evs ∧ (s.todo = 0 → T = []) ∧ StreamInv qsort (S ++ T) s'
  | [], s, s', S, h, hs => by
    cases h; exact ⟨[], List.nil_prefix, fun _ => rfl, by rwa [List.append_nil]⟩
  | (httpError, input) :: evs, s, s', S, h, hs => by
    obtain ⟨⟨s₁, r₁⟩, h₁, h⟩ := Option.bind_eq_some.mp h
    obtain ⟨T₁, hs₁, hT₁⟩ := processData_inv hs h₁
    obtain ⟨T₂, hp₂, hz₂, hs₂⟩ := processEvents_inv h hs₁
    refine ⟨T₁ ++ T₂, ?_, fun hz => ?_, by rwa [← List.append_assoc]⟩
    · show T₁ ++ T₂ <+: inputData input ++ eventData evs
      rcases hT₁ with ⟨rfl, ht, hd | hz⟩ | ⟨rfl, -⟩
      · rw [hd]; exact hp₂
      · rw [hz₂ (ht.trans hz)]; exact List.nil_prefix
      · exact (List.prefix_append_right_inj _).mpr hp₂
    · rcases hT₁ with ⟨rfl, ht, -⟩ | ⟨-, hnz⟩
      · rw [hz₂ (ht.trans hz)]; rfl
      · exact absurd hz hnz

def TxView.noBuffering : TxView :=
  ⟨⟨false, false, true, true, true, true⟩, some ⟨false, false, 0, .flushAll, 0, .flushAll⟩⟩

theorem processEvents_processed {qsort : List Edit → List Edit} {dir : Direction}
    {tx : Option TxView} {buffering : Buffering} {bufLimit : Nat} {todo : Int}
    {evs : List (Bool × Option (List Block))} {s' : Stream}
    (h : processEvents qsort dir tx evs ⟨FilterCtx.zeroed buffering bufLimit, false, todo, []⟩ =
      some s') :
    ∃ S, S <+: eventData evs ∧ Processed qsort S s'.fctx := by
  obtain ⟨T, hT, -, hs⟩ := processEvents_inv h (streamInv_zeroed qsort buffering bufLimit todo)
  exact ⟨T, hT, hs.processed⟩

theorem processEvents_conserves {qsort : List Edit → List Edit} {dir : Direction}
    {tx : Option TxView} {buffering : Buffering} {bufLimit : Nat} {todo : Int}
    {evs : List (Bool × Option (List Block))} {s' : Stream} (hin : eventBytes evs < 2 ^ 63)
    (h : processEvents qsort dir tx evs ⟨FilterCtx.zeroed buffering bufLimit, false, todo, []⟩ =
      some s') :
    ∃ S, S <+: eventData evs ∧ Conserves S s'.fctx := by
  obtain ⟨T, hT, hp⟩ := processEvents_processed h
  refine ⟨T, hT, hp.conserves ?_⟩
  have := hT.length_le
  rw [eventData_length] at this
  simpa using this.trans_lt hin

/-- Over every run of `process_data` calls the process survives, `bytes_done + offs` counts the
bytes emitted. -/
theorem processEvents_counts_emitted (qsort : List Edit → List Edit) (dir : Direction)
    (tx : Option TxView) (buffering : Buffering) (bufLimit : Nat) (todo : Int)
    (evs : List (Bool × Option (List Block)))
    (hin : eventBytes evs < 2 ^ 63) :
    match processEvents qsort dir tx evs ⟨FilterCtx.zeroed buffering bufLimit, false, todo, []⟩ with
    | some s' => s'.fctx.output.length < 2 ^ 63 →
      s'.fctx.offs = netGrowth s'.fctx.applied ∧
        (s'.fctx.bytesDone : Int) + s'.fctx.offs = s'.fctx.output.length
    | none => True := by
  split
  · rename_i s' h
    intro hout
    obtain ⟨S, -, hc⟩ := processEvents_conserves hin h
    have hcons := hc.consumed
    have hi := hc.input_lt
    have hem := hc.emitted
    have hoffs : s'.fctx.offs = netGrowth s'.fctx.applied := by
      rw [hc.offs_eq, toInt64_of_range (by omega) (by omega)]
    exact ⟨hoffs, by omega⟩
  · trivial

theorem processEvents_counts_emitted_one_block :
    ∃ s', processEvents qsortModel .req (some TxView.noBuffering)
        [(false, some [⟨[1, 2, 3], [Edit.make 1 1 [7, 7]], .ok⟩])]
        ⟨FilterCtx.zeroed .nobuf 0, false, 3, []⟩ = some s' ∧
      (s'.fctx.output.length < 2 ^ 63 →
        s'.fctx.offs = netGrowth s'.fctx.applied ∧
        (s'.fctx.bytesDone : Int) + s'.fctx.offs = s'.fctx.output.length) :=
  ⟨_, rfl, processEvents_counts_emitted qsortModel .req (some TxView.noBuffering) .nobuf 0 3
    [(false, some [⟨[1, 2, 3], [Edit.make 1 1 [7, 7]], .ok⟩])] (by decide)⟩

/-- Over every run of `process_data` calls the process survives, the output is a received prefix
with the applied edits spliced in. -/
theorem processEvents_emit_spliced (qsort : List Edit → List Edit) (dir : Direction)
    (tx : Option TxView) (buffering : Buffering) (bufLimit : Nat) (todo : Int)
    (evs : List (Bool × Option (List Block)))
    (hin : eventBytes evs < 2 ^ 63) :
    match processEvents qsort dir tx evs ⟨FilterCtx.zeroed buffering bufLimit, false, todo, []⟩ with
    | some s' => ∃ S, S <+: eventData evs ∧
      s'.fctx.output = splice S 0 s'.fctx.applied s'.fctx.bytesDone ∧
      InOrder 0 s'.fctx.applied s'.fctx.bytesDone ∧
      (s'.fctx.buffering ≠ .discard → s'.fctx.reader = S.drop s'.fctx.bytesDone)
    | none => True := by
  split
  · rename_i s' h
    obtain ⟨S, hS, hc⟩ := processEvents_conserves hin h
    exact ⟨S, hS, hc.output, hc.inOrder, hc.stream⟩
  · trivial

theorem processEvents_emit_spliced_two_events :
    ∃ s', processEvents qsortModel .req (some TxView.noBuffering)
        [(false, some [⟨[1, 2, 3], [Edit.make 1 1 [7, 7]], .ok⟩]), (false, none)]
        ⟨FilterCtx.zeroed .nobuf 0, false, 3, []⟩ = some s' ∧
      ∃ S, S <+: eventData
          [(false, some [⟨[1, 2, 3], [Edit.make 1 1 [7, 7]], .ok⟩]), (false, none)] ∧
        s'.fctx.output = splice S 0 s'.fctx.applied s'.fctx.bytesDone ∧
        InOrder 0 s'.fctx.applied s'.fctx.bytesDone ∧
        (s'.fctx.buffering ≠ .discard → s'.fctx.reader = S.drop s'.fctx.bytesDone) :=
  ⟨_, rfl, processEvents_emit_spliced qsortModel .req (some TxView.noBuffering) .nobuf 0 3
    [(false, some [⟨[1, 2, 3], [Edit.make 1 1 [7, 7]], .ok⟩]), (false, none)] (by decide)⟩

/-! ## A first call without input -/

section OpenOutput

variable {qsort : List Edit → List Edit} {P : FilterCtx → Prop} (hP : ChunkStable P)
  (hd : ∀ f, P f → P f.toDiscard)
include hP

include hd

end OpenOutput

/-- The same run with an edit that inserts at the start of the body: the end-of-stream flush
applies it, and `TSIOBufferReaderConsume` on the missing reader stops the process. -/
example : processEvents qsortModel .req (some TxView.noBuffering)
    [(true, none), (true, some [⟨[1, 2], [Edit.make 0 0 [9]], .ok⟩]), (true, none)]
    ⟨FilterCtx.zeroed .nobuf 0, false, 2, []⟩ = none := by
  decide

end IronBee.Filter
