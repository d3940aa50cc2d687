import IronBee.Filter.Stable

/-! # Buffering a chunk and choosing the buffering mode

`buffer_data_chunk` stages one body chunk in the filter's own buffer and flushes according
to the mode; `buffer_init` picks the mode from the core configuration and the
transaction's flags.
-/

namespace IronBee.Filter

/-- `TSIOBufferCopy(fctx->buffer, reader, nbytes, 0)` of a whole chunk, which the input
reader holds, and `fctx->buffered += copied`. -/
def FilterCtx.bufferIn (f : FilterCtx) (chunk : List UInt8) : FilterCtx :=
  { f with
    reader := f.reader ++ chunk
    buffered := toSize (f.buffered + chunk.length)
    buffered_lt := toSize_lt _ }

/-- The flush before a chunk is staged: in `IOBUF_BUFFER_FLUSHALL` mode, everything, when
the chunk would take the buffer past its limit. -/
def flushBeforeChunk (qsort : List Edit → List Edit) (f : FilterCtx) (chunk : List UInt8) :
    Option (FilterCtx × Status) :=
  if f.buffering = .bufferFlushAll ∧ f.bufLimit < toSize (f.buffered + chunk.length) then
    flushData qsort f (-1) false
  else some (f, .ok)

/-- The flush after a chunk is staged: everything in `IOBUF_NOBUF` mode, the overflow
past the limit in `IOBUF_BUFFER_FLUSHPART` mode. -/
def flushAfterChunk (qsort : List Edit → List Edit) (f : FilterCtx) (rc : Status) :
    Option (FilterCtx × Status) :=
  if f.buffering = .nobuf then flushData qsort f (-1) false
  else if f.buffering = .bufferFlushPart ∧ f.bufLimit < f.buffered then
    flushData qsort f (toInt64 (toSize ((f.buffered : Int) - f.bufLimit))) false
  else some (f, rc)

/-- `buffer_data_chunk(fctx, reader, nbytes)` for the chunk `chunk` of `nbytes` bytes; the copy
into a NULL `fctx->buffer` stops the process at the API's `sdk_assert`. -/
def bufferDataChunk (qsort : List Edit → List Edit) (f : FilterCtx) (chunk : List UInt8) :
    Option (FilterCtx × Status) :=
  if f.buffering = .discard then f.discardBuffered.map fun g => (g, .ok)
  else (flushBeforeChunk qsort f chunk).bind fun (f, rc) =>
    if f.hasBuffer then flushAfterChunk qsort (f.bufferIn chunk) rc else none

@[simp] theorem bufferIn_output (f : FilterCtx) (chunk : List UInt8) :
    (f.bufferIn chunk).output = f.output := rfl

@[simp] theorem bufferIn_reader (f : FilterCtx) (chunk : List UInt8) :
    (f.bufferIn chunk).reader = f.reader ++ chunk := rfl

@[simp] theorem bufferIn_buffering (f : FilterCtx) (chunk : List UInt8) :
    (f.bufferIn chunk).buffering = f.buffering := rfl

@[simp] theorem bufferIn_bufLimit (f : FilterCtx) (chunk : List UInt8) :
    (f.bufferIn chunk).bufLimit = f.bufLimit := rfl

@[simp] theorem bufferIn_edits (f : FilterCtx) (chunk : List UInt8) :
    (f.bufferIn chunk).edits = f.edits := rfl

@[simp] theorem bufferIn_hasBuffer (f : FilterCtx) (chunk : List UInt8) :
    (f.bufferIn chunk).hasBuffer = f.hasBuffer := rfl

/-! ### `buffer_data_chunk` in each mode -/

section Modes

variable (qsort : List Edit → List Edit) {f : FilterCtx} (chunk : List UInt8)

theorem bufferDataChunk_of_no_buffer (hbuf : f.hasBuffer = false) (hd : f.buffering ≠ .discard) :
    bufferDataChunk qsort f chunk = none := by
  unfold bufferDataChunk flushBeforeChunk
  rw [if_neg hd]
  split_ifs
  · cases h : flushData qsort f (-1) false with
    | none => rfl
    | some p => simp [flushData_hasBuffer h, hbuf]
  · simp [hbuf]

variable (hbuf : f.hasBuffer = true)
include hbuf

theorem bufferDataChunk_nobuf (hb : f.buffering = .nobuf) :
    bufferDataChunk qsort f chunk = flushData qsort (f.bufferIn chunk) (-1) false := by
  simp [bufferDataChunk, flushBeforeChunk, flushAfterChunk, hb, hbuf]

theorem bufferDataChunk_bufferAll (hb : f.buffering = .bufferAll) :
    bufferDataChunk qsort f chunk = some (f.bufferIn chunk, .ok) := by
  simp [bufferDataChunk, flushBeforeChunk, flushAfterChunk, hb, hbuf]

theorem bufferDataChunk_flushAll_of_le (hb : f.buffering = .bufferFlushAll)
    (h : ¬f.bufLimit < toSize (f.buffered + chunk.length)) :
    bufferDataChunk qsort f chunk = some (f.bufferIn chunk, .ok) := by
  simp [bufferDataChunk, flushBeforeChunk, flushAfterChunk, hb, h, hbuf]

theorem bufferDataChunk_flushAll_of_lt (hb : f.buffering = .bufferFlushAll)
    (h : f.bufLimit < toSize (f.buffered + chunk.length)) {g : FilterCtx} {rc : Status}
    (hg : flushData qsort f (-1) false = some (g, rc)) :
    bufferDataChunk qsort f chunk = some (g.bufferIn chunk, rc) := by
  simp [bufferDataChunk, flushBeforeChunk, flushAfterChunk, hb, h, hg, flushData_buffering hg,
    flushData_hasBuffer hg, hbuf]

end Modes

/-- A property every step of `buffer_data_chunk` keeps: those of `flush_data`, the staging
of a chunk and the discarding of what is buffered. -/
structure ChunkStable (P : FilterCtx → Prop) extends FlushStable P : Prop where
  bufferIn : ∀ f chunk, P f → P (f.bufferIn chunk)
  discard : ∀ f g, f.discardBuffered = some g → P f → P g

theorem bufferDataChunk_stable {P : FilterCtx → Prop} (hP : ChunkStable P)
    {qsort : List Edit → List Edit} {f : FilterCtx} {chunk : List UInt8} {g : FilterCtx}
    {rc : Status} (h : bufferDataChunk qsort f chunk = some (g, rc)) (hf : P f) : P g := by
  unfold bufferDataChunk at h
  split_ifs at h
  · obtain ⟨g', h', hg⟩ := Option.map_eq_some'.mp h
    cases hg
    exact hP.discard _ _ h' hf
  · obtain ⟨⟨f₁, rc₁⟩, h₁, h⟩ := Option.bind_eq_some.mp h
    have hf₁ : P f₁ := by
      unfold flushBeforeChunk at h₁
      split_ifs at h₁
      · exact flushData_stable hP.toFlushStable h₁ hf
      · cases h₁; exact hf
    have hf₂ := hP.bufferIn _ chunk hf₁
    dsimp only at h
    split_ifs at h
    unfold flushAfterChunk at h
    split_ifs at h
    · exact flushData_stable hP.toFlushStable h hf₂
    · exact flushData_stable hP.toFlushStable h hf₂
    · cases h; exact hf₂

theorem discardBuffered_keeps {f g : FilterCtx} (h : f.discardBuffered = some g) :
    g.buffering = f.buffering ∧ g.hasBuffer = f.hasBuffer := by
  unfold FilterCtx.discardBuffered at h
  split_ifs at h
  · obtain ⟨_, -, rfl⟩ := Option.map_eq_some'.mp h
    exact ⟨rfl, rfl⟩
  · cases h; exact ⟨rfl, rfl⟩

section Keeps

variable {qsort : List Edit → List Edit} {f : FilterCtx} {chunk : List UInt8} {g : FilterCtx}
  {rc : Status}

theorem bufferDataChunk_buffering (h : bufferDataChunk qsort f chunk = some (g, rc)) :
    g.buffering = f.buffering :=
  bufferDataChunk_stable (P := fun g => g.buffering = f.buffering)
    ⟨buffering_flushStable _, fun _ _ h => h,
      fun _ _ h hf => (discardBuffered_keeps h).1.trans hf⟩ h rfl

theorem bufferDataChunk_hasBuffer (h : bufferDataChunk qsort f chunk = some (g, rc)) :
    g.hasBuffer = f.hasBuffer :=
  bufferDataChunk_stable (P := fun g => g.hasBuffer = f.hasBuffer)
    ⟨hasBuffer_flushStable _, fun _ _ h => h,
      fun _ _ h hf => (discardBuffered_keeps h).2.trans hf⟩ h rfl

end Keeps

/-! ## `buffer_init` -/

/-- The traffic direction of a filter, `IBD_REQ` or `IBD_RESP`. -/
inductive Direction where
  | req
  | resp
  deriving DecidableEq, Repr

/-- `IB_BUFFER_LIMIT_ACTION_*`, what to do when the body buffer is full. -/
inductive LimitAction where
  | flushAll
  | flushPart
  deriving DecidableEq, Repr

/-- The fields of `ib_core_cfg_t` that `buffer_init` reads. -/
structure CoreCfg where
  bufferReq : Bool
  bufferRes : Bool
  requestBodyBufferLimit : Int
  requestBodyBufferLimitAction : LimitAction
  responseBodyBufferLimit : Int
  responseBodyBufferLimitAction : LimitAction
  deriving DecidableEq, Repr

/-- The transaction flags `buffer_init` tests. -/
structure TxFlags where
  allowAll : Bool
  allowRequest : Bool
  inspectReqHdr : Bool
  inspectReqBody : Bool
  inspectResHdr : Bool
  inspectResBody : Bool
  deriving DecidableEq, Repr

/-- The transaction as `buffer_init` sees it: its flags, and the core configuration
`ib_core_context_config` returns (`none` when that call fails). -/
structure TxView where
  flags : TxFlags
  coreCfg : Option CoreCfg
  deriving DecidableEq, Repr

/-- The mode one direction's three configuration values select. -/
def configuredBuffering (bufferOn : Bool) (limit : Int) (action : LimitAction) : Buffering :=
  if !bufferOn then .nobuf
  else if limit < 0 then .bufferAll
  else if action = .flushAll then .bufferFlushAll
  else .bufferFlushPart

/-- Whether the transaction's flags turn buffering off for the direction. The request
side also honours `IB_TX_FALLOW_REQUEST`. -/
def bufferingOverridden (dir : Direction) (flags : TxFlags) : Bool :=
  match dir with
  | .req => flags.allowAll || flags.allowRequest || (!flags.inspectReqBody && !flags.inspectReqHdr)
  | .resp => flags.allowAll || (!flags.inspectResBody && !flags.inspectResHdr)

/-- `buffer_init(ibd, tx)`: the context with its mode and limit set, and whether the
error "Error determining buffering configuration." was logged. -/
def bufferInit (dir : Direction) (tx : Option TxView) (f : FilterCtx) : FilterCtx × Bool :=
  match tx with
  | none => ({ f with buffering := .nobuf }, false)
  | some tx =>
    let (f, failed) : FilterCtx × Bool :=
      match tx.coreCfg, dir with
      | none, _ => (f, true)
      | some cfg, .req =>
        ({ f with
          buffering := configuredBuffering cfg.bufferReq cfg.requestBodyBufferLimit
            cfg.requestBodyBufferLimitAction
          bufLimit := toSize cfg.requestBodyBufferLimit
          bufLimit_lt := toSize_lt _ }, false)
      | some cfg, .resp =>
        ({ f with
          buffering := configuredBuffering cfg.bufferRes cfg.responseBodyBufferLimit
            cfg.responseBodyBufferLimitAction
          bufLimit := toSize cfg.responseBodyBufferLimit
          bufLimit_lt := toSize_lt _ }, false)
    if f.buffering ≠ .nobuf ∧ bufferingOverridden dir tx.flags then
      ({ f with buffering := .nobuf }, failed)
    else (f, failed)

end IronBee.Filter
