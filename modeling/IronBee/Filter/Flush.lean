import IronBee.Filter.Context

/-! # `flush_data`

`flush_data(fctx, nbytes, last)` emits up to `nbytes` resident bytes (`-1` meaning all of
them) and applies the pending edits that fall inside that window. The two copy loops stop
the process at `assert (n > 0)` when `TSIOBufferCopy` copies nothing, and at the API's
`sdk_assert` when `fctx->reader` is NULL; such a run has no result, which the model writes as
`none`. The edit loop walks the edits in the order
`qsort` leaves them, from the last index down; `qsort` is the C library's, a parameter of
the model.
-/

namespace IronBee.Filter

/-- The first copy loop, `while (start > 0)`; `fuel`, one more than the resident count, is never
exhausted since each copying turn consumes a byte. -/
def copyToStartFuel : Nat → FilterCtx → Int → Nat → Option (FilterCtx × Int)
  | 0, _, _, _ => none
  | fuel + 1, f, nbytes, start =>
    if start = 0 then some (f, nbytes)
    else if f.hasBuffer = false then none
    else
      let n := ioBufferCopy f.reader (toInt64 start)
      if n = 0 then none
      else copyToStartFuel fuel (f.moveOut n) (toInt64 (nbytes - n)) (start - n)

/-- The copy up to an edit's start. -/
def copyToStart (f : FilterCtx) (nbytes : Int) (start : Nat) : Option (FilterCtx × Int) :=
  copyToStartFuel (f.reader.length + 1) f nbytes start

/-- The last copy loop, `while (nbytes > 0)`, which copies what is left to emit; `fuel`
as for `copyToStartFuel`. -/
def copyRemainingFuel : Nat → FilterCtx → Int → Option FilterCtx
  | 0, _, _ => none
  | fuel + 1, f, nbytes =>
    if nbytes ≤ 0 then some f
    else if f.hasBuffer = false then none
    else
      let n := ioBufferCopy f.reader nbytes
      if n = 0 then none
      else copyRemainingFuel fuel (f.moveOut n) (toInt64 (nbytes - n))

/-- The copy of the bytes left to emit. -/
def copyRemaining (f : FilterCtx) (nbytes : Int) : Option FilterCtx :=
  copyRemainingFuel (f.reader.length + 1) f nbytes

/-- The turn of the edit loop that applies an edit: the copy up to its start, its deletion and the
write of its replacement. -/
def applyEdit (f : FilterCtx) (nbytes : Int) (e : Edit) : Option (FilterCtx × Int) := do
  let (f, nbytes) ← copyToStart f nbytes (e.start - f.bytesDone)
  let f ← f.replace e
  pure (f, toInt64 (nbytes - e.bytes))

/-- The edit loop in considered order: an edit behind `bytes_done` is dropped (`IB_EBADVAL`), one
past the window stops it (`IB_EAGAIN`; dropped on the last call), any other is applied. -/
def editLoop (last : Bool) :
    List Edit → FilterCtx → Int → Status → Option (FilterCtx × Int × Status × List Edit)
  | [], f, nbytes, rc => some (f, nbytes, rc, [])
  | e :: es, f, nbytes, rc =>
    if e.start < f.bytesDone then editLoop last es f nbytes .ebadval
    else if toSize (f.bytesDone + nbytes) < toSize (e.start + e.bytes) then
      if !last then some (f, toInt64 (e.start - f.bytesDone : Nat), .eagain, e :: es)
      else editLoop last es f nbytes .ebadval
    else (applyEdit f nbytes e).bind fun (f, nbytes) => editLoop last es f nbytes rc

/-- `if (nbytes == -1) nbytes = fctx->buffered;` -/
def flushRequest (f : FilterCtx) (nbytes : Int) : Int :=
  if nbytes = -1 then toInt64 f.buffered else nbytes

/-- The sort and the edit loop, when the edit array is non-empty; the array keeps the
pending edits, in the order `qsort` left them. -/
def flushEdits (qsort : List Edit → List Edit) (f : FilterCtx) (nbytes : Int) (last : Bool) :
    Option (FilterCtx × Int × Status) :=
  if f.edits = [] then some (f, nbytes, .ok)
  else
    (editLoop last (considerOrder qsort f.edits) f nbytes .ok).map fun (g, n, rc, pending) =>
      ({ g with edits := pending.reverse }, n, rc)

/-- `TSVIONBytesSet(output_vio, bytes_done + offs)` on the last call. -/
def FilterCtx.commit (f : FilterCtx) (last : Bool) : FilterCtx :=
  if last then { f with nbytesSet := some (toInt64 (toSize (f.bytesDone + f.offs))) } else f

@[simp] theorem commit_output (f : FilterCtx) (last : Bool) :
    (f.commit last).output = f.output := by
  unfold FilterCtx.commit; split <;> rfl

@[simp] theorem commit_bytesDone (f : FilterCtx) (last : Bool) :
    (f.commit last).bytesDone = f.bytesDone := by
  unfold FilterCtx.commit; split <;> rfl

@[simp] theorem commit_edits (f : FilterCtx) (last : Bool) :
    (f.commit last).edits = f.edits := by
  unfold FilterCtx.commit; split <;> rfl

@[simp] theorem commit_applied (f : FilterCtx) (last : Bool) :
    (f.commit last).applied = f.applied := by
  unfold FilterCtx.commit; split <;> rfl

@[simp] theorem commit_reader (f : FilterCtx) (last : Bool) :
    (f.commit last).reader = f.reader := by
  unfold FilterCtx.commit; split <;> rfl

@[simp] theorem commit_buffering (f : FilterCtx) (last : Bool) :
    (f.commit last).buffering = f.buffering := by
  unfold FilterCtx.commit; split <;> rfl

@[simp] theorem commit_hasBuffer (f : FilterCtx) (last : Bool) :
    (f.commit last).hasBuffer = f.hasBuffer := by
  unfold FilterCtx.commit; split <;> rfl

/-- `flush_data(fctx, nbytes, last)`: the context after the call and the status it
returns, or `none` when an assertion stops the process. -/
def flushData (qsort : List Edit → List Edit) (f : FilterCtx) (nbytes : Int) (last : Bool) :
    Option (FilterCtx × Status) := do
  let (f, nbytes, rc) ← flushEdits qsort f (flushRequest f nbytes) last
  let f ← copyRemaining f nbytes
  some (f.commit last, rc)

/-- A deferred edit sets `nbytes` to its distance from `bytes_done` without clipping it to the
window. -/
theorem flushData_eagain_unclipped :
    (flushData qsortModel (FilterCtx.resident 0 [1, 2, 3, 4, 5, 6, 7, 8, 9, 10]
        [Edit.make 5 3 []]) 2 false).map (fun r => (r.1.output, r.2)) =
      some ([1, 2, 3, 4, 5], .eagain) ∧
    flushData qsortModel (FilterCtx.resident 0 [1, 2, 3, 4, 5] [Edit.make 7 1 [0]]) (-1) false =
      none := by
  decide

/-! ## The copy loops in closed form -/

theorem copyToStart_zero (f : FilterCtx) (nbytes : Int) :
    copyToStart f nbytes 0 = some (f, nbytes) := rfl

theorem ioBufferCopy_natCast (reader : List UInt8) (n : Nat) :
    ioBufferCopy reader n = min n reader.length := rfl

theorem copyToStart_eq {f : FilterCtx} (hb : f.hasBuffer = true) (nbytes : Int) {start : Nat}
    (h0 : start ≠ 0) (hlt : start < 2 ^ 64) :
    copyToStart f nbytes start =
      if start ≤ f.reader.length ∧ start < 2 ^ 63 then
        some (f.moveOut start, toInt64 (nbytes - start))
      else none := by
  simp only [copyToStart, copyToStartFuel, if_neg h0, hb, Bool.true_eq_false, if_false]
  by_cases hs : start < 2 ^ 63
  · rw [toInt64_of_range (by omega) (by omega), ioBufferCopy_natCast]
    by_cases hl : start ≤ f.reader.length
    · obtain ⟨k, hk⟩ : ∃ k, f.reader.length = k + 1 := ⟨f.reader.length - 1, by omega⟩
      rw [Nat.min_eq_left hl, if_neg h0, if_pos ⟨hl, hs⟩, Nat.sub_self, hk]
      rfl
    · rw [Nat.min_eq_right (by omega),
        if_neg (show ¬(start ≤ f.reader.length ∧ start < 2 ^ 63) from fun h => hl h.1)]
      by_cases hz : f.reader.length = 0
      · rw [if_pos hz]
      · obtain ⟨k, hk⟩ : ∃ k, f.reader.length = k + 1 := ⟨f.reader.length - 1, by omega⟩
        rw [if_neg hz, hk, copyToStartFuel, if_neg (by omega)]
        simp [ioBufferCopy, ← hk, hb]
  · have hn : ioBufferCopy f.reader (toInt64 start) = 0 := by
      have hneg : toInt64 start ≤ 0 := by unfold toInt64; omega
      simp [ioBufferCopy]
      omega
    simp only [hn, if_true, if_neg (fun h : _ ∧ _ => hs h.2)]

theorem copyToStart_some {f g : FilterCtx} {nbytes nbytes' : Int} {k : Nat}
    (h : copyToStart f nbytes k = some (g, nbytes')) (hk : k < 2 ^ 64) :
    k ≤ f.reader.length ∧ k < 2 ^ 63 ∧ (k ≠ 0 → f.hasBuffer = true) ∧
      (k = 0 ∧ g = f ∧ nbytes' = nbytes ∨
        k ≠ 0 ∧ g = f.moveOut k ∧ nbytes' = toInt64 (nbytes - k)) := by
  by_cases h0 : k = 0
  · subst h0
    rw [copyToStart_zero, Option.some.injEq, Prod.mk.injEq] at h
    exact ⟨Nat.zero_le _, by decide, fun h => absurd rfl h, .inl ⟨rfl, h.1.symm, h.2.symm⟩⟩
  · cases hb : f.hasBuffer
    · simp [copyToStart, copyToStartFuel, h0, hb] at h
    rw [copyToStart_eq hb nbytes h0 hk] at h
    split_ifs at h with hc
    · rw [Option.some.injEq, Prod.mk.injEq] at h
      exact ⟨hc.1, hc.2, fun _ => rfl, .inr ⟨h0, h.1.symm, h.2.symm⟩⟩

theorem applyEdit_some {f g : FilterCtx} {nbytes nbytes' : Int} {e : Edit}
    (h : applyEdit f nbytes e = some (g, nbytes')) :
    ∃ f₁ n₁, copyToStart f nbytes (e.start - f.bytesDone) = some (f₁, n₁) ∧
      f₁.replace e = some g ∧ nbytes' = toInt64 (n₁ - e.bytes) := by
  obtain ⟨⟨f₁, n₁⟩, h₁, h⟩ := Option.bind_eq_some.mp h
  obtain ⟨f₂, h₂, h⟩ := Option.bind_eq_some.mp h
  cases h
  exact ⟨f₁, n₁, h₁, h₂, rfl⟩

theorem copyRemaining_of_nonpos (f : FilterCtx) {nbytes : Int} (h : nbytes ≤ 0) :
    copyRemaining f nbytes = some f := by
  simp [copyRemaining, copyRemainingFuel, h]

theorem hasBuffer_of_copyRemaining {f g : FilterCtx} {nbytes : Int}
    (h : copyRemaining f nbytes = some g) (h0 : 0 < nbytes) : f.hasBuffer = true := by
  cases hb : f.hasBuffer
  · simp [copyRemaining, copyRemainingFuel, hb, not_le.mpr h0] at h
  · rfl

theorem copyRemaining_eq {f : FilterCtx} (hb : f.hasBuffer = true) {nbytes : Int}
    (h0 : 0 < nbytes) (h : nbytes < 2 ^ 63) :
    copyRemaining f nbytes =
      if nbytes ≤ f.reader.length then some (f.moveOut nbytes.toNat) else none := by
  simp only [copyRemaining, copyRemainingFuel, if_neg (show ¬nbytes ≤ 0 by omega), hb,
    Bool.true_eq_false, if_false]
  have hn : ioBufferCopy f.reader nbytes = min nbytes.toNat f.reader.length := rfl
  rw [hn]
  by_cases hl : nbytes ≤ f.reader.length
  · obtain ⟨k, hk⟩ : ∃ k, f.reader.length = k + 1 := ⟨f.reader.length - 1, by omega⟩
    have hz : toInt64 (nbytes - (nbytes.toNat : Nat)) = 0 := by unfold toInt64; omega
    rw [Nat.min_eq_left (by omega), if_neg (by omega), if_pos hl, hz, hk, copyRemainingFuel,
      if_pos le_rfl]
  · rw [Nat.min_eq_right (by omega), if_neg hl]
    by_cases hz : f.reader.length = 0
    · rw [if_pos hz]
    · obtain ⟨k, hk⟩ : ∃ k, f.reader.length = k + 1 := ⟨f.reader.length - 1, by omega⟩
      have hpos : 0 < toInt64 (nbytes - f.reader.length) := by unfold toInt64; omega
      rw [if_neg hz, hk, copyRemainingFuel, if_neg (by rw [← hk]; omega)]
      simp [ioBufferCopy, ← hk, hb]

theorem copyToStart_moves {f : FilterCtx} (nbytes : Int) (k : Nat)
    (hb : k ≠ 0 → f.hasBuffer = true)
    (hk : k ≤ f.reader.length) (hk' : k < 2 ^ 63) (hd : f.bytesDone + k < 2 ^ 64) (hn : 0 ≤ nbytes - k)
    (hn' : nbytes - k < 2 ^ 63) :
    ∃ g, copyToStart f nbytes k = some (g, nbytes - k) ∧ g.reader = f.reader.drop k ∧
      g.output = f.output ++ f.reader.take k ∧ g.bytesDone = f.bytesDone + k ∧
      g.applied = f.applied ∧ g.hasBuffer = f.hasBuffer := by
  by_cases h0 : k = 0
  · subst h0
    exact ⟨f, by simp [copyToStart_zero], by simp, by simp, rfl, rfl, rfl⟩
  · rw [copyToStart_eq (hb h0) nbytes h0 (by omega), if_pos ⟨hk, hk'⟩,
      toInt64_of_range (by omega) hn']
    exact ⟨f.moveOut k, rfl, rfl, rfl, toSize_add hd, rfl, rfl⟩

theorem copyRemaining_moves {f : FilterCtx} {n : Nat} (hb : n ≠ 0 → f.hasBuffer = true)
    (hn : n ≤ f.reader.length)
    (hn' : n < 2 ^ 63) (hd : f.bytesDone + n < 2 ^ 64) :
    ∃ g, copyRemaining f n = some g ∧ g.output = f.output ++ f.reader.take n ∧
      g.bytesDone = f.bytesDone + n ∧ g.edits = f.edits ∧ g.applied = f.applied ∧
      g.reader = f.reader.drop n := by
  by_cases h0 : n = 0
  · subst h0
    exact ⟨f, copyRemaining_of_nonpos f (by simp), by simp, rfl, rfl, rfl, rfl⟩
  · rw [copyRemaining_eq (hb h0) (by omega) (by omega), if_pos (by omega), Int.toNat_ofNat]
    exact ⟨f.moveOut n, rfl, rfl, toSize_add hd, rfl, rfl, rfl⟩

theorem replace_moves {f : FilterCtx} (hbuf : f.hasBuffer = true) (e : Edit)
    (hb : e.bytes < 2 ^ 63) (hd : f.bytesDone + e.bytes < 2 ^ 64) :
    ∃ g, f.replace e = some g ∧ g.reader = f.reader.drop e.bytes ∧
      g.output = f.output ++ e.repl ∧ g.bytesDone = f.bytesDone + e.bytes ∧
      g.applied = f.applied ++ [e] ∧ g.hasBuffer = f.hasBuffer :=
  ⟨_, replace_eq hbuf hb, rfl, rfl, toSize_add hd, rfl, rfl⟩

end IronBee.Filter
