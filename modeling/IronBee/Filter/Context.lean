import IronBee.Filter.Edit

/-! # The filter context and the transport calls it makes

One direction's `tsib_filter_ctx`. The transport objects it owns are reduced to their
bytes: `reader` is what `fctx->reader` still holds of `fctx->buffer`, and `output` is
everything written to `output_buffer` so far. `hasBuffer` says whether `fctx->buffer` and
`fctx->reader` exist. The `size_t` counters carry their range.

The transport calls follow the Traffic Server API. `TSIOBufferCopy` copies as many of the
requested bytes as the reader holds. `TSIOBufferReaderConsume` takes an `int64_t` count. The
API's `sdk_assert` stops the process on a NULL buffer or reader and on a negative count.
-/

namespace IronBee.Filter

/-- `fctx->buffering`, the `IOBUF_*` modes. -/
inductive Buffering where
  | nobuf
  | discard
  | bufferAll
  | bufferFlushAll
  | bufferFlushPart
  deriving DecidableEq, Repr

/-- One direction's filter context; `nbytesSet` is the last `TSVIONBytesSet` value and `applied` a
ghost record of the edits applied, oldest first. -/
structure FilterCtx where
  buffering : Buffering
  bufLimit : Nat
  buffered : Nat
  bytesDone : Nat
  offs : Int
  hasBuffer : Bool
  reader : List UInt8
  output : List UInt8
  edits : List Edit
  nbytesSet : Option Int
  applied : List Edit
  bufLimit_lt : bufLimit < 2 ^ 64
  buffered_lt : buffered < 2 ^ 64
  bytesDone_lt : bytesDone < 2 ^ 64
  offs_range : -2 ^ 63 ≤ offs ∧ offs < 2 ^ 63
  deriving DecidableEq

/-- A context before its first chunk, its buffer and reader created: all counters zero, no
edits. -/
def FilterCtx.init (buffering : Buffering) (bufLimit : Nat) : FilterCtx where
  buffering := buffering
  bufLimit := toSize bufLimit
  buffered := 0
  bytesDone := 0
  offs := 0
  hasBuffer := true
  reader := []
  output := []
  edits := []
  nbytesSet := none
  applied := []
  bufLimit_lt := toSize_lt _
  buffered_lt := by decide
  bytesDone_lt := by decide
  offs_range := by decide

/-- The context a direction starts with, before `process_data` creates `fctx->buffer`. -/
def FilterCtx.zeroed (buffering : Buffering) (bufLimit : Nat) : FilterCtx :=
  { FilterCtx.init buffering bufLimit with hasBuffer := false }

def FilterCtx.resident (bytesDone : Nat) (reader : List UInt8) (edits : List Edit) :
    FilterCtx :=
  { FilterCtx.init .nobuf 0 with
    bytesDone := toSize bytesDone
    buffered := toSize reader.length
    reader := reader
    edits := edits
    buffered_lt := toSize_lt _
    bytesDone_lt := toSize_lt _ }

/-- `TSIOBufferCopy(buf, reader, len, 0)`: the number of bytes copied. -/
def ioBufferCopy (reader : List UInt8) (len : Int) : Nat :=
  min len.toNat reader.length

/-- `TSIOBufferReaderConsume(fctx->reader, n)`. -/
def FilterCtx.readerConsume (f : FilterCtx) (n : Int) : Option (List UInt8) :=
  if f.hasBuffer = false ∨ n < 0 then none else some (f.reader.drop n.toNat)

/-- A turn of either copy loop once `n = TSIOBufferCopy(...)` is known: `n` bytes go out and are
consumed, `buffered -= n`, `bytes_done += n`. -/
def FilterCtx.moveOut (f : FilterCtx) (n : Nat) : FilterCtx :=
  { f with
    reader := f.reader.drop n
    output := f.output ++ f.reader.take n
    buffered := toSize ((f.buffered : Int) - n)
    bytesDone := toSize (f.bytesDone + n)
    buffered_lt := toSize_lt _
    bytesDone_lt := toSize_lt _ }

/-- The deletion and replacement of an edit at `bytes_done`: consume `bytes`, write `repl`, and
update `buffered`, `bytes_done` and `offs`. -/
def FilterCtx.replace (f : FilterCtx) (e : Edit) : Option FilterCtx :=
  (f.readerConsume (toInt64 e.bytes)).map fun rest =>
    { f with
      reader := rest
      output := f.output ++ e.repl
      buffered := toSize ((f.buffered : Int) - e.bytes)
      bytesDone := toSize (f.bytesDone + e.bytes)
      offs := toInt64 (f.offs + toSize ((e.repl.length : Int) - e.bytes))
      applied := f.applied ++ [e]
      buffered_lt := toSize_lt _
      bytesDone_lt := toSize_lt _
      offs_range := toInt64_range _ }

/-- `buffering = IOBUF_DISCARD` dropping what is buffered:
`TSIOBufferReaderConsume(reader, buffered)` and `buffered = 0`. -/
def FilterCtx.discardBuffered (f : FilterCtx) : Option FilterCtx :=
  if 0 < f.buffered then
    (f.readerConsume (toInt64 f.buffered)).map fun rest =>
      { f with reader := rest, buffered := 0, buffered_lt := by decide }
  else some f

@[simp] theorem ioBufferCopy_le_length (reader : List UInt8) (len : Int) :
    ioBufferCopy reader len ≤ reader.length := Nat.min_le_right _ _

theorem ioBufferCopy_of_le {reader : List UInt8} {n : Nat} (h : n ≤ reader.length) :
    ioBufferCopy reader n = n := by
  simp [ioBufferCopy, h]

@[simp] theorem readerConsume_natCast {f : FilterCtx} (hb : f.hasBuffer = true) (n : Nat) :
    f.readerConsume n = some (f.reader.drop n) := by
  simp only [FilterCtx.readerConsume, hb, Bool.true_eq_false, false_or, Int.toNat_ofNat]
  rw [if_neg (by omega)]

@[simp] theorem moveOut_output (f : FilterCtx) (n : Nat) :
    (f.moveOut n).output = f.output ++ f.reader.take n := rfl

@[simp] theorem moveOut_reader (f : FilterCtx) (n : Nat) :
    (f.moveOut n).reader = f.reader.drop n := rfl

@[simp] theorem moveOut_offs (f : FilterCtx) (n : Nat) : (f.moveOut n).offs = f.offs := rfl

@[simp] theorem moveOut_edits (f : FilterCtx) (n : Nat) : (f.moveOut n).edits = f.edits := rfl

@[simp] theorem moveOut_buffering (f : FilterCtx) (n : Nat) :
    (f.moveOut n).buffering = f.buffering := rfl

@[simp] theorem moveOut_bufLimit (f : FilterCtx) (n : Nat) :
    (f.moveOut n).bufLimit = f.bufLimit := rfl

@[simp] theorem moveOut_applied (f : FilterCtx) (n : Nat) :
    (f.moveOut n).applied = f.applied := rfl

@[simp] theorem moveOut_hasBuffer (f : FilterCtx) (n : Nat) :
    (f.moveOut n).hasBuffer = f.hasBuffer := rfl

@[simp] theorem moveOut_nbytesSet (f : FilterCtx) (n : Nat) :
    (f.moveOut n).nbytesSet = f.nbytesSet := rfl

theorem moveOut_bytesDone (f : FilterCtx) (n : Nat) :
    (f.moveOut n).bytesDone = toSize (f.bytesDone + n) := rfl

theorem moveOut_buffered (f : FilterCtx) (n : Nat) :
    (f.moveOut n).buffered = toSize ((f.buffered : Int) - n) := rfl

theorem replace_eq {f : FilterCtx} {e : Edit} (hb : f.hasBuffer = true) (h : e.bytes < 2 ^ 63) :
    f.replace e = some
      { f with
        reader := f.reader.drop e.bytes
        output := f.output ++ e.repl
        buffered := toSize ((f.buffered : Int) - e.bytes)
        bytesDone := toSize (f.bytesDone + e.bytes)
        offs := toInt64 (f.offs + toSize ((e.repl.length : Int) - e.bytes))
        applied := f.applied ++ [e]
        buffered_lt := toSize_lt _
        bytesDone_lt := toSize_lt _
        offs_range := toInt64_range _ } := by
  have : toInt64 e.bytes = e.bytes := toInt64_of_range (by omega) (by omega)
  simp [FilterCtx.replace, this, hb]

theorem replace_buffered {f g : FilterCtx} {e : Edit} (hb : e.bytes ≤ f.buffered)
    (h : f.replace e = some g) : g.buffered = f.buffered - e.bytes := by
  simp only [FilterCtx.replace, Option.map_eq_some'] at h
  obtain ⟨_, -, rfl⟩ := h
  exact toSize_sub hb f.buffered_lt

theorem replace_eq_none {f : FilterCtx} {e : Edit} (h : 2 ^ 63 ≤ e.bytes) :
    f.replace e = none := by
  have := e.bytes_lt
  have : toInt64 e.bytes < 0 := by unfold toInt64; omega
  simp [FilterCtx.replace, FilterCtx.readerConsume, this]

theorem replace_of_no_buffer {f : FilterCtx} (hb : f.hasBuffer = false) (e : Edit) :
    f.replace e = none := by
  simp [FilterCtx.replace, FilterCtx.readerConsume, hb]

theorem hasBuffer_of_readerConsume {f : FilterCtx} {n : Int} {rest : List UInt8}
    (h : f.readerConsume n = some rest) : f.hasBuffer = true := by
  unfold FilterCtx.readerConsume at h
  split_ifs at h with hc
  simpa using (not_or.mp hc).1

theorem hasBuffer_of_replace {f g : FilterCtx} {e : Edit} (h : f.replace e = some g) :
    f.hasBuffer = true := by
  obtain ⟨_, h, -⟩ := Option.map_eq_some'.mp h
  exact hasBuffer_of_readerConsume h

@[simp] theorem replace_hasBuffer {f g : FilterCtx} {e : Edit} (h : f.replace e = some g) :
    g.hasBuffer = f.hasBuffer := by
  simp only [FilterCtx.replace, Option.map_eq_some'] at h
  obtain ⟨_, -, rfl⟩ := h
  rfl

end IronBee.Filter
