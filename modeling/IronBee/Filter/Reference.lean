import IronBee.Filter.Conservation

/-! # A greedy reference for one flush

What a call of `flush_data` is meant to do with its edits, stated without the sort, the
removal from the end of the array or the 64-bit checks: walk the edits by ascending start
from `bytes_done`, drop those behind the cursor, apply those inside the window, and stop at
the first that reaches past it (or drop it, on the last call). The reference works in exact
arithmetic.
-/

namespace IronBee.Filter

/-- The state of the greedy walk: the bytes written, the cursor, and the edits applied,
discarded and left pending. -/
structure Walk where
  written : List UInt8
  cursor : Nat
  applied : List Edit
  discarded : List Edit
  pending : List Edit
  deriving DecidableEq

/-- The greedy walk over resident bytes `D` that start at stream offset `base`, with
horizon `h`, over edits in ascending start. -/
def greedyWalk (D : List UInt8) (base : Nat) (h : Int) (last : Bool) :
    List Edit → Walk → Walk
  | [], w => w
  | e :: es, w =>
    if e.start < w.cursor then
      greedyWalk D base h last es { w with discarded := w.discarded ++ [e] }
    else if h < e.start + e.bytes then
      if last then greedyWalk D base h last es { w with discarded := w.discarded ++ [e] }
      else { w with pending := e :: es }
    else
      greedyWalk D base h last es
        { w with
          written := w.written ++ (D.drop (w.cursor - base)).take (e.start - w.cursor) ++ e.repl
          cursor := e.start + e.bytes
          applied := w.applied ++ [e] }

/-- The walk a call `flush_data(fctx, nbytes, last)` is meant to make: from `bytes_done`,
with horizon `bytes_done + nbytes` (`-1` meaning everything buffered). -/
def greedyReference (f : FilterCtx) (nbytes : Int) (last : Bool) : Walk :=
  greedyWalk f.reader f.bytesDone
    (f.bytesDone + if nbytes = -1 then (f.buffered : Int) else nbytes) last
    (f.edits.insertionSort fun a b => a.start ≤ b.start) ⟨[], f.bytesDone, [], [], []⟩

/-- An edit whose end wraps 64 bits passes the window test and stops the process in the copy loop.
-/
theorem flushData_wrap_aborts :
    flushData qsortModel (FilterCtx.resident 0 [1, 2, 3] [Edit.make (2 ^ 64 - 1) 2 []]) (-1)
        true = none ∧
    greedyReference (FilterCtx.resident 0 [1, 2, 3] [Edit.make (2 ^ 64 - 1) 2 []]) (-1) true =
      ⟨[], 0, [], [Edit.make (2 ^ 64 - 1) 2 []], []⟩ := by
  decide

end IronBee.Filter
