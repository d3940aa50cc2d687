import IronBee.Filter.Buffer
import IronBee.Filter.Splice

/-! # Conservation of the stream bytes

The transport counts a body in `int64_t`, so a direction never receives `2^63` bytes or
more. Under that bound every received byte is emitted, still resident, or dropped in
discard mode, and no counter wraps: `bytes_done` and `offs` are the exact counts. What has
been emitted is the received stream up to `bytes_done` with the applied edits spliced in,
in the order they were applied, each starting at or after the end of the one before;
outside discard mode the resident bytes are exactly the rest of the stream. An edit whose
`start + bytes` wraps past `2^64` is never applied by a call that returns, since its
deletion reaches `TSIOBufferReaderConsume` as a negative count.
-/

namespace IronBee.Filter

/-- The state of a filter that has received the body bytes `S`. -/
structure Conserves (S : List UInt8) (f : FilterCtx) : Prop where
  input_lt : S.length < 2 ^ 63
  resident : f.buffered = f.reader.length
  consumed : f.bytesDone + f.reader.length ≤ S.length
  reader : f.reader <+: S.drop f.bytesDone
  stream : f.buffering ≠ .discard → f.reader = S.drop f.bytesDone
  inOrder : InOrder 0 f.applied f.bytesDone
  output : f.output = splice S 0 f.applied f.bytesDone
  offs_eq : f.offs = toInt64 (netGrowth f.applied)

namespace Conserves

variable {S : List UInt8} {f : FilterCtx}

theorem init (buffering : Buffering) (bufLimit : Nat) :
    Conserves [] (FilterCtx.init buffering bufLimit) :=
  ⟨by decide, rfl, Nat.le_refl 0, List.nil_prefix, fun _ => rfl, Nat.le_refl 0, rfl,
    show (0 : Int) = toInt64 0 by decide⟩

theorem bytesDone_lt (hf : Conserves S f) : f.bytesDone < 2 ^ 63 := by
  have := hf.consumed; have := hf.input_lt; omega

theorem emitted (hf : Conserves S f) : (f.bytesDone : Int) + netGrowth f.applied =
    f.output.length := by
  rw [hf.output, splice_length S hf.inOrder (by have := hf.consumed; omega), Nat.sub_zero]

theorem moveOut (hf : Conserves S f) {n : Nat} (hn : n ≤ f.reader.length) :
    Conserves S (f.moveOut n) := by
  have hc := hf.consumed
  have hi := hf.input_lt
  have hr := hf.resident
  obtain ⟨t, ht⟩ := hf.reader
  have hd : (f.moveOut n).bytesDone = f.bytesDone + n :=
    toSize_add (by omega)
  have hb : (f.moveOut n).buffered = f.buffered - n :=
    toSize_sub (by omega) f.buffered_lt
  refine ⟨hi, ?_, ?_, ⟨t, ?_⟩, fun hm => ?_, ?_, ?_, hf.offs_eq⟩
  · simp only [hb, moveOut_reader, List.length_drop, hr]
  · simp only [hd, moveOut_reader, List.length_drop]
    omega
  · rw [hd, moveOut_reader, ← List.drop_drop, ← ht, List.drop_append_of_le_length hn]
  · rw [hd, moveOut_reader, hf.stream hm, List.drop_drop]
  · rw [hd, moveOut_applied]
    exact hf.inOrder.mono (Nat.le_add_right _ _)
  · rw [hd, moveOut_output, moveOut_applied, splice_extend S n hf.inOrder, hf.output, ← ht,
      List.take_append_of_le_length hn]

theorem replace (hf : Conserves S f) {e : Edit} {g : FilterCtx} (hs : e.start = f.bytesDone)
    (he : e.bytes ≤ f.reader.length) (h : f.replace e = some g) : Conserves S g := by
  have hc := hf.consumed
  have hi := hf.input_lt
  have hr := hf.resident
  obtain ⟨t, ht⟩ := hf.reader
  rw [replace_eq (hasBuffer_of_replace h) (by omega), Option.some.injEq] at h
  subst h
  have hd : toSize ((f.bytesDone : Int) + e.bytes) = f.bytesDone + e.bytes :=
    toSize_add (by omega)
  have hb : toSize ((f.buffered : Int) - e.bytes) = f.buffered - e.bytes :=
    toSize_sub (by omega) f.buffered_lt
  refine ⟨hi, ?_, ?_, ⟨t, ?_⟩, fun hm => ?_, ?_, ?_, ?_⟩
  · show toSize ((f.buffered : Int) - e.bytes) = (f.reader.drop e.bytes).length
    rw [hb, List.length_drop, hr]
  · simp only [hd, List.length_drop]
    omega
  · show f.reader.drop e.bytes ++ t = S.drop (toSize ((f.bytesDone : Int) + e.bytes))
    rw [hd, ← List.drop_drop, ← ht, List.drop_append_of_le_length he]
  · show f.reader.drop e.bytes = S.drop (toSize ((f.bytesDone : Int) + e.bytes))
    rw [hd, hf.stream hm, List.drop_drop]
  · show InOrder 0 (f.applied ++ [e]) (toSize ((f.bytesDone : Int) + e.bytes))
    rw [hd, ← hs]
    exact hf.inOrder.snoc e hs
  · show f.output ++ e.repl = splice S 0 (f.applied ++ [e]) (toSize ((f.bytesDone : Int) + e.bytes))
    rw [hd, ← hs, splice_snoc S e hf.inOrder hs, hf.output]
  · simp only [netGrowth_append, netGrowth_singleton, hf.offs_eq]
    apply toInt64_congr
    have := toInt64_emod (netGrowth f.applied)
    have := toSize_emod ((e.repl.length : Int) - e.bytes)
    omega

theorem bufferIn (hf : Conserves S f) (hm : f.buffering ≠ .discard) (chunk : List UInt8)
    (h : (S ++ chunk).length < 2 ^ 63) : Conserves (S ++ chunk) (f.bufferIn chunk) := by
  have hc := hf.consumed
  have hs : (f.bufferIn chunk).reader = (S ++ chunk).drop (f.bufferIn chunk).bytesDone := by
    rw [bufferIn_reader, hf.stream hm]
    exact (List.drop_append_of_le_length (by omega)).symm
  refine ⟨h, ?_, ?_, hs ▸ List.prefix_refl _, fun _ => hs, hf.inOrder, ?_, hf.offs_eq⟩
  · simp only [FilterCtx.bufferIn, List.length_append, hf.resident]
    exact toSize_add (by have := hf.input_lt; simp only [List.length_append] at h; omega)
  · simp only [bufferIn_reader, List.length_append]
    have : (f.bufferIn chunk).bytesDone = f.bytesDone := rfl
    omega
  · exact (splice_append S chunk hf.inOrder (by omega)).symm ▸ hf.output

theorem extend (hf : Conserves S f) (hm : f.buffering = .discard) (T : List UInt8)
    (h : (S ++ T).length < 2 ^ 63) : Conserves (S ++ T) f := by
  have hc := hf.consumed
  have hp : S.drop f.bytesDone <+: (S ++ T).drop f.bytesDone := by
    rw [List.drop_append_of_le_length (by omega)]
    exact List.prefix_append _ _
  refine ⟨h, hf.resident, ?_, hf.reader.trans hp, fun h' => absurd hm h', hf.inOrder, ?_,
    hf.offs_eq⟩
  · rw [List.length_append]; omega
  · exact (splice_append S T hf.inOrder (by omega)).symm ▸ hf.output

theorem discardBuffered (hf : Conserves S f) (hm : f.buffering = .discard) {g : FilterCtx}
    (h : f.discardBuffered = some g) : Conserves S g ∧ g.buffering = .discard := by
  unfold FilterCtx.discardBuffered at h
  split_ifs at h
  · obtain ⟨rest, hr, rfl⟩ := Option.map_eq_some'.mp h
    have hc := hf.consumed
    have hi := hf.input_lt
    have hres := hf.resident
    rw [toInt64_of_range (by omega) (by omega)] at hr
    rw [readerConsume_natCast (hasBuffer_of_readerConsume hr), Option.some.injEq] at hr
    subst hr
    refine ⟨⟨hi, ?_, ?_, ?_, fun h' => absurd hm h', hf.inOrder, hf.output, hf.offs_eq⟩, hm⟩
    · simp [hres]
    · simp only [List.length_drop, hres]
      omega
    · simp [hres]
  · cases h; exact ⟨hf, hm⟩

theorem setEdits (hf : Conserves S f) (edits : List Edit) :
    Conserves S { f with edits := edits } :=
  ⟨hf.1, hf.2, hf.3, hf.4, hf.5, hf.6, hf.7, hf.8⟩

theorem commit (hf : Conserves S f) (last : Bool) : Conserves S (f.commit last) := by
  unfold FilterCtx.commit
  split_ifs
  exacts [⟨hf.1, hf.2, hf.3, hf.4, hf.5, hf.6, hf.7, hf.8⟩, hf]

theorem copyToStart (hf : Conserves S f) {nbytes nbytes' : Int} {k : Nat}
    {g : FilterCtx} (h : copyToStart f nbytes k = some (g, nbytes')) : Conserves S g :=
  copyToStartFuel_stable (fun _ _ hn hf => Conserves.moveOut hf hn) h hf

theorem copyRemaining (hf : Conserves S f) {nbytes : Int} {g : FilterCtx}
    (h : copyRemaining f nbytes = some g) : Conserves S g :=
  copyRemainingFuel_stable (fun _ _ hn hf => Conserves.moveOut hf hn) h hf

end Conserves

theorem Conserves.applyEdit {S : List UInt8} {f g : FilterCtx} {nbytes nbytes' : Int}
    {e : Edit} (hf : Conserves S f) (h0 : 0 ≤ nbytes) (hn : nbytes ≤ f.buffered)
    (hge : ¬e.start < f.bytesDone)
    (hwin : ¬toSize (f.bytesDone + nbytes) < toSize (e.start + e.bytes))
    (h : applyEdit f nbytes e = some (g, nbytes')) :
    Conserves S g ∧ 0 ≤ nbytes' ∧ nbytes' ≤ g.buffered ∧
      (g.buffered : Int) - nbytes' = f.buffered - nbytes := by
  obtain ⟨f₁, n₁, h₁, h₂, rfl⟩ := applyEdit_some h
  have hr := hf.resident
  have hc := hf.consumed
  have hi := hf.input_lt
  obtain ⟨hk, -, -, hcopy⟩ := copyToStart_some h₁ (by have := e.start_lt; omega)
  have hbytes : e.bytes < 2 ^ 63 := by
    by_contra hb
    rw [replace_eq_none (by omega)] at h₂
    cases h₂
  have hwin' : (e.start : Int) + e.bytes ≤ f.bytesDone + nbytes := by
    have h1 : (toSize (f.bytesDone + nbytes) : Int) = f.bytesDone + nbytes :=
      toSize_of_lt (by omega) (by omega)
    have h2 : (toSize (e.start + e.bytes) : Int) = e.start + e.bytes :=
      toSize_of_lt (by omega) (by omega)
    omega
  have hf₁ := hf.copyToStart h₁
  have hlen₁ : f₁.reader.length = f.reader.length - (e.start - f.bytesDone) ∧
      n₁ = nbytes - (e.start - f.bytesDone : Nat) ∧ f₁.bytesDone = e.start := by
    rcases hcopy with ⟨hk0, rfl, rfl⟩ | ⟨-, rfl, rfl⟩
    · simp only [hk0, Nat.sub_zero, Nat.cast_zero, Int.sub_zero, true_and]
      omega
    · exact ⟨List.length_drop _ _, toInt64_of_range (by omega) (by omega),
        by rw [moveOut_bytesDone, toSize_add (by omega)]; omega⟩
  have hb₂ : g.buffered = f.reader.length - (e.start - f.bytesDone) - e.bytes := by
    rw [replace_buffered (by rw [hf₁.resident]; omega) h₂, hf₁.resident, hlen₁.1]
  have hn₂ : toInt64 (n₁ - e.bytes) = nbytes - (e.start - f.bytesDone : Nat) - e.bytes := by
    rw [hlen₁.2.1]; exact toInt64_of_range (by omega) (by omega)
  refine ⟨hf₁.replace hlen₁.2.2.symm (by omega) h₂, ?_⟩
  rw [hn₂, hb₂]
  exact ⟨by omega, by omega, by omega⟩

theorem editLoop_conserves {S : List UInt8} {last : Bool} :
    ∀ {edits f nbytes rc g nbytes' rc' pending},
      editLoop last edits f nbytes rc = some (g, nbytes', rc', pending) →
      Conserves S f → 0 ≤ nbytes → nbytes ≤ f.buffered →
      Conserves S g ∧ (last = true → (g.buffered : Int) - nbytes' = f.buffered - nbytes)
  | [], f, nbytes, rc, g, nbytes', rc', pending, h, hf, _, _ => by
    simp only [editLoop, Option.some.injEq, Prod.mk.injEq] at h
    obtain ⟨rfl, rfl, -, -⟩ := h
    exact ⟨hf, fun _ => rfl⟩
  | e :: es, f, nbytes, rc, g, nbytes', rc', pending, h, hf, h0, hn => by
    simp only [editLoop] at h
    split_ifs at h with hlt hgt hl
    · exact editLoop_conserves h hf h0 hn
    · simp only [Option.some.injEq, Prod.mk.injEq] at h
      obtain ⟨rfl, -, -, -⟩ := h
      exact ⟨hf, fun h' => by simp [h'] at hl⟩
    · exact editLoop_conserves h hf h0 hn
    · obtain ⟨⟨f₂, n₂⟩, happ, h⟩ := Option.bind_eq_some.mp h
      obtain ⟨hf₂, h0₂, hn₂, hd₂⟩ := hf.applyEdit h0 hn hlt hgt happ
      obtain ⟨hg, hdr⟩ := editLoop_conserves h hf₂ h0₂ hn₂
      exact ⟨hg, fun hl' => (hdr hl').trans hd₂⟩

theorem flushData_conserves {S : List UInt8} {qsort : List Edit → List Edit} {f g : FilterCtx}
    {nbytes : Int} {last : Bool} {rc : Status} (hf : Conserves S f)
    (hreq : nbytes = -1 ∨ 0 ≤ nbytes ∧ nbytes ≤ f.buffered)
    (h : flushData qsort f nbytes last = some (g, rc)) :
    Conserves S g ∧ (nbytes = -1 → last = true → g.reader = []) := by
  obtain ⟨⟨f₁, n₁, rc₁⟩, h₁, h⟩ := Option.bind_eq_some.mp h
  obtain ⟨f₂, h₂, h⟩ := Option.bind_eq_some.mp h
  cases h
  have hr := hf.resident
  have hc := hf.consumed
  have hi := hf.input_lt
  have hreq' : 0 ≤ flushRequest f nbytes ∧ flushRequest f nbytes ≤ f.buffered ∧
      (nbytes = -1 → flushRequest f nbytes = f.buffered) := by
    unfold flushRequest
    split_ifs with hm
    · rw [toInt64_of_range (by omega) (by omega)]
      exact ⟨by omega, le_rfl, fun _ => rfl⟩
    · exact ⟨by omega, by omega, fun h => absurd h hm⟩
  obtain ⟨hf₁, hdr⟩ : Conserves S f₁ ∧
      (last = true → (f₁.buffered : Int) - n₁ = f.buffered - flushRequest f nbytes) := by
    unfold flushEdits at h₁
    split_ifs at h₁
    · cases h₁; exact ⟨hf, fun _ => rfl⟩
    · obtain ⟨⟨g₁, n, r, p⟩, hl, he⟩ := Option.map_eq_some'.mp h₁
      cases he
      obtain ⟨hg, hdr⟩ := editLoop_conserves hl hf hreq'.1 hreq'.2.1
      exact ⟨hg.setEdits _, hdr⟩
  refine ⟨(hf₁.copyRemaining h₂).commit last, fun hm hl => ?_⟩
  have hn₁ : n₁ = f₁.reader.length := by
    have := hdr hl; have := hreq'.2.2 hm; have := hf₁.resident; omega
  have hc₁ := hf₁.consumed
  rw [hn₁] at h₂
  obtain ⟨g', hg', -, -, -, -, hr'⟩ := copyRemaining_moves (n := f₁.reader.length)
    (fun h0 => hasBuffer_of_copyRemaining h₂ (by omega)) le_rfl (by omega) (by omega)
  rw [hg', Option.some.injEq] at h₂
  rw [commit_reader, ← h₂, hr', List.drop_length]

theorem bufferDataChunk_conserves {S : List UInt8} {qsort : List Edit → List Edit}
    {f g : FilterCtx} {chunk : List UInt8} {rc : Status} (hf : Conserves S f)
    (hin : (S ++ chunk).length < 2 ^ 63) (h : bufferDataChunk qsort f chunk = some (g, rc)) :
    Conserves (S ++ chunk) g := by
  unfold bufferDataChunk at h
  split_ifs at h with hm
  · obtain ⟨g', h', hg⟩ := Option.map_eq_some'.mp h
    cases hg
    obtain ⟨hg', hgm⟩ := hf.discardBuffered hm h'
    exact hg'.extend hgm chunk hin
  · obtain ⟨⟨f₁, rc₁⟩, h₁, h⟩ := Option.bind_eq_some.mp h
    have hf₁ : Conserves S f₁ ∧ f₁.buffering = f.buffering := by
      unfold flushBeforeChunk at h₁
      split_ifs at h₁
      · exact ⟨(flushData_conserves hf (.inl rfl) h₁).1, flushData_buffering h₁⟩
      · cases h₁; exact ⟨hf, rfl⟩
    have hf₂ := hf₁.1.bufferIn (hf₁.2 ▸ hm) chunk hin
    dsimp only at h
    split_ifs at h
    unfold flushAfterChunk at h
    split_ifs at h with hn hp
    · exact (flushData_conserves hf₂ (.inl rfl) h).1
    · refine (flushData_conserves hf₂ (.inr ?_) h).1
      have := hf₂.resident
      have := hf₂.consumed
      have := hf₂.input_lt
      rw [toSize_sub (by omega) (f₁.bufferIn chunk).buffered_lt,
        toInt64_of_range (by omega) (by omega)]
      omega
    · cases h; exact hf₂

end IronBee.Filter
