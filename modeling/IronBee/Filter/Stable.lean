import IronBee.Filter.Flush

/-! # What every step of `flush_data` keeps

A call of `flush_data` is made of four kinds of primitive steps: a turn of a copy loop,
the replacement of an edit, the write-back of the edit array and the final
`TSVIONBytesSet`. A property kept by each of them is kept by every call that returns.
The accounting of `bytes_done` and `offs` against the emitted bytes is such a property.
-/

namespace IronBee.Filter

/-- A property of the context kept by every primitive step of `flush_data`. -/
structure FlushStable (P : FilterCtx → Prop) : Prop where
  moveOut : ∀ f n, n ≤ f.reader.length → P f → P (f.moveOut n)
  replace : ∀ f e g, f.replace e = some g → P f → P g
  setEdits : ∀ f es, P f → P { f with edits := es }
  commit : ∀ f last, P f → P (f.commit last)

section Stable

variable {P : FilterCtx → Prop}

theorem copyToStartFuel_stable (hmove : ∀ f n, n ≤ f.reader.length → P f → P (f.moveOut n)) :
    ∀ {fuel f nbytes start g nbytes'}, copyToStartFuel fuel f nbytes start = some (g, nbytes') →
      P f → P g
  | 0, _, _, _, _, _, h, _ => by simp [copyToStartFuel] at h
  | fuel + 1, f, nbytes, start, g, nbytes', h, hf => by
    simp only [copyToStartFuel] at h
    split_ifs at h with h0 hn
    · cases h; exact hf
    · exact copyToStartFuel_stable hmove h (hmove f _ (ioBufferCopy_le_length _ _) hf)

theorem copyRemainingFuel_stable (hmove : ∀ f n, n ≤ f.reader.length → P f → P (f.moveOut n)) :
    ∀ {fuel f nbytes g}, copyRemainingFuel fuel f nbytes = some g → P f → P g
  | 0, _, _, _, h, _ => by simp [copyRemainingFuel] at h
  | fuel + 1, f, nbytes, g, h, hf => by
    simp only [copyRemainingFuel] at h
    split_ifs at h with h0 hn
    · cases h; exact hf
    · exact copyRemainingFuel_stable hmove h (hmove f _ (ioBufferCopy_le_length _ _) hf)

theorem editLoop_stable (hP : FlushStable P) {last : Bool} :
    ∀ {edits f nbytes rc g nbytes' rc' pending},
      editLoop last edits f nbytes rc = some (g, nbytes', rc', pending) → P f → P g
  | [], f, nbytes, rc, g, nbytes', rc', pending, h, hf => by
    simp only [editLoop, Option.some.injEq, Prod.mk.injEq] at h
    rw [← h.1]; exact hf
  | e :: es, f, nbytes, rc, g, nbytes', rc', pending, h, hf => by
    simp only [editLoop] at h
    split_ifs at h
    · exact editLoop_stable hP h hf
    · simp only [Option.some.injEq, Prod.mk.injEq] at h
      rw [← h.1]; exact hf
    · exact editLoop_stable hP h hf
    · obtain ⟨⟨f₂, n₂⟩, happ, h⟩ := Option.bind_eq_some.mp h
      obtain ⟨f₁, n₁, h₁, h₂, -⟩ := applyEdit_some happ
      exact editLoop_stable hP h (hP.replace _ _ _ h₂ (copyToStartFuel_stable hP.moveOut h₁ hf))

theorem flushEdits_stable (hP : FlushStable P) {qsort : List Edit → List Edit} {f : FilterCtx} {nbytes : Int}
    {last : Bool} {g : FilterCtx} {nbytes' : Int} {rc : Status}
    (h : flushEdits qsort f nbytes last = some (g, nbytes', rc)) (hf : P f) : P g := by
  unfold flushEdits at h
  split_ifs at h
  · cases h; exact hf
  · obtain ⟨⟨g₁, n₁, rc₁, pending⟩, h₁, h⟩ := Option.map_eq_some'.mp h
    cases h
    exact hP.setEdits _ _ (editLoop_stable hP h₁ hf)

theorem flushData_stable (hP : FlushStable P) {qsort : List Edit → List Edit} {f : FilterCtx} {nbytes : Int}
    {last : Bool} {g : FilterCtx} {rc : Status}
    (h : flushData qsort f nbytes last = some (g, rc)) (hf : P f) : P g := by
  obtain ⟨⟨f₁, n₁, rc₁⟩, h₁, h⟩ := Option.bind_eq_some.mp h
  obtain ⟨f₂, h₂, h⟩ := Option.bind_eq_some.mp h
  cases h
  exact hP.commit _ _ (copyRemainingFuel_stable hP.moveOut h₂ (flushEdits_stable hP h₁ hf))

theorem buffering_flushStable (b : Buffering) : FlushStable fun g => g.buffering = b where
  moveOut _ _ _ h := h
  replace _ _ _ h hf := by
    simp only [FilterCtx.replace, Option.map_eq_some'] at h
    obtain ⟨_, _, rfl⟩ := h
    exact hf
  setEdits _ _ h := h
  commit _ _ h := (commit_buffering _ _).trans h

theorem flushData_buffering {qsort : List Edit → List Edit} {f : FilterCtx} {nbytes : Int}
    {last : Bool} {g : FilterCtx} {rc : Status}
    (h : flushData qsort f nbytes last = some (g, rc)) : g.buffering = f.buffering :=
  flushData_stable (buffering_flushStable _) h rfl

theorem bufLimit_flushStable (l : Nat) : FlushStable fun g => g.bufLimit = l where
  moveOut _ _ _ h := h
  replace _ _ _ h hf := by
    simp only [FilterCtx.replace, Option.map_eq_some'] at h
    obtain ⟨_, _, rfl⟩ := h
    exact hf
  setEdits _ _ h := h
  commit _ _ h := by unfold FilterCtx.commit; split <;> exact h

theorem flushData_bufLimit {qsort : List Edit → List Edit} {f : FilterCtx} {nbytes : Int}
    {last : Bool} {g : FilterCtx} {rc : Status}
    (h : flushData qsort f nbytes last = some (g, rc)) : g.bufLimit = f.bufLimit :=
  flushData_stable (bufLimit_flushStable _) h rfl

theorem hasBuffer_flushStable (b : Bool) : FlushStable fun g => g.hasBuffer = b where
  moveOut _ _ _ h := h
  replace _ _ _ h hf := (replace_hasBuffer h).trans hf
  setEdits _ _ h := h
  commit _ _ h := (commit_hasBuffer _ _).trans h

theorem flushData_hasBuffer {qsort : List Edit → List Edit} {f : FilterCtx} {nbytes : Int}
    {last : Bool} {g : FilterCtx} {rc : Status}
    (h : flushData qsort f nbytes last = some (g, rc)) : g.hasBuffer = f.hasBuffer :=
  flushData_stable (hasBuffer_flushStable _) h rfl

end Stable

/-! ## Accounting of `bytes_done` and `offs` -/

/-- `Σ (repl_len - bytes)` over a list of edits. -/
def netGrowth : List Edit → Int
  | [] => 0
  | e :: es => ((e.repl.length : Int) - e.bytes) + netGrowth es

@[simp] theorem netGrowth_nil : netGrowth [] = 0 := rfl

@[simp] theorem netGrowth_append (a b : List Edit) :
    netGrowth (a ++ b) = netGrowth a + netGrowth b := by
  induction a with
  | nil => simp
  | cons e es ih => rw [List.cons_append, netGrowth, netGrowth, ih]; omega

@[simp] theorem netGrowth_singleton (e : Edit) :
    netGrowth [e] = (e.repl.length : Int) - e.bytes := by
  simp [netGrowth]

/-- `bytes_done + offs`, in `size_t`, is the number of bytes emitted, and `offs` is the
`off_t` value of the net growth of the edits applied so far. -/
structure Accounting (f : FilterCtx) : Prop where
  emitted : (f.bytesDone + f.offs) % 2 ^ 64 = (f.output.length : Int) % 2 ^ 64
  offs_eq : f.offs = toInt64 (netGrowth f.applied)

theorem accounting_flushStable : FlushStable Accounting where
  moveOut f n hn hf := by
    refine ⟨?_, hf.offs_eq⟩
    rw [moveOut_bytesDone, moveOut_offs, moveOut_output, List.length_append, List.length_take,
      Nat.min_eq_left hn, toSize_emod, Int.emod_add_emod, Int.natCast_add, add_right_comm,
      Int.add_emod, hf.emitted, ← Int.add_emod]
  replace f e g h hf := by
    simp only [FilterCtx.replace, Option.map_eq_some'] at h
    obtain ⟨rest, -, rfl⟩ := h
    have h1 := hf.emitted
    have h2 := toSize_emod (f.bytesDone + e.bytes)
    have h3 := toInt64_emod (f.offs + toSize ((e.repl.length : Int) - e.bytes))
    have h4 := toSize_emod ((e.repl.length : Int) - e.bytes)
    refine ⟨?_, ?_⟩
    · simp only [List.length_append]
      push_cast
      omega
    · simp only [netGrowth_append, netGrowth_singleton, hf.offs_eq]
      apply toInt64_congr
      have := toInt64_emod (netGrowth f.applied)
      omega
  setEdits _ _ hf := ⟨hf.1, hf.2⟩
  commit f last hf := by
    unfold FilterCtx.commit
    split_ifs
    exacts [⟨hf.1, hf.2⟩, hf]

theorem commit_nbytesSet {f : FilterCtx} (hf : Accounting f) (hlen : f.output.length < 2 ^ 63) :
    (f.commit true).nbytesSet = some f.output.length := by
  have hs : (toSize (f.bytesDone + f.offs) : Int) = f.output.length := by
    rw [toSize_emod, hf.emitted]
    omega
  show some (toInt64 (toSize (f.bytesDone + f.offs))) = some (f.output.length : Int)
  exact congrArg some ((congrArg toInt64 hs).trans (toInt64_of_range (by omega) (by omega)))

theorem flushData_last_nbytesSet {qsort : List Edit → List Edit} {f g : FilterCtx}
    {nbytes : Int} {rc : Status} (hf : Accounting f)
    (h : flushData qsort f nbytes true = some (g, rc)) (hlen : g.output.length < 2 ^ 63) :
    g.nbytesSet = some g.output.length := by
  obtain ⟨⟨f₁, n₁, rc₁⟩, h₁, h⟩ := Option.bind_eq_some.mp h
  obtain ⟨f₂, h₂, h⟩ := Option.bind_eq_some.mp h
  cases h
  exact commit_nbytesSet (copyRemainingFuel_stable accounting_flushStable.moveOut h₂
    (flushEdits_stable accounting_flushStable h₁ hf)) hlen

end IronBee.Filter
