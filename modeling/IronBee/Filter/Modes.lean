import IronBee.Filter.Conservation

/-! # The buffering modes

What `buffer_data_chunk` does with a chunk when no edit is pending. In `IOBUF_NOBUF` mode it
emits everything; in `IOBUF_BUFFER_ALL` mode nothing; in `IOBUF_BUFFER_FLUSHALL` mode all
that was buffered, before staging a chunk that would take the buffer past its limit; in
`IOBUF_BUFFER_FLUSHPART` mode the overflow past the limit; and in `IOBUF_DISCARD` mode it
drops what is buffered and the chunk with it. It always returns.
-/

namespace IronBee.Filter

theorem flushRequest_all {S : List UInt8} {f : FilterCtx} (hf : Conserves S f) :
    flushRequest f (-1) = f.reader.length := by
  have := hf.consumed
  have := hf.input_lt
  rw [flushRequest, if_pos rfl, hf.resident, toInt64_of_range (by omega) (by omega)]

theorem flushRequest_of_nonneg (f : FilterCtx) {nbytes : Int} (h : 0 ≤ nbytes) :
    flushRequest f nbytes = nbytes :=
  if_neg (by omega)

theorem flushData_no_edits (qsort : List Edit → List Edit) (last : Bool) {S : List UInt8}
    {f : FilterCtx} {nbytes : Int} {k : Nat} (hf : Conserves S f) (he : f.edits = [])
    (hk : flushRequest f nbytes = k) (hkl : k ≤ f.reader.length)
    (hbuf : k ≠ 0 → f.hasBuffer = true) :
    ∃ g, flushData qsort f nbytes last = some (g, .ok) ∧
      g.output = f.output ++ f.reader.take k ∧ g.reader = f.reader.drop k ∧ g.edits = [] := by
  have hc := hf.consumed
  have hi := hf.input_lt
  obtain ⟨g, hcr, ho, -, hed, -, hr⟩ := copyRemaining_moves (f := f) (n := k) hbuf hkl
    (by omega) (by omega)
  have hfe : flushEdits qsort f (flushRequest f nbytes) last = some (f, (k : Int), .ok) := by
    rw [flushEdits, if_pos he, hk]
  exact ⟨g.commit last, Option.bind_eq_some.mpr ⟨_, hfe, Option.bind_eq_some.mpr ⟨g, hcr, rfl⟩⟩,
    by rw [commit_output, ho], by rw [commit_reader, hr], by rw [commit_edits, hed, he]⟩

end IronBee.Filter
