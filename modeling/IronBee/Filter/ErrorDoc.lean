import IronBee.Filter.Body
import IronBee.Filter.Modes

/-! # The error document

When the transaction goes to an error document, `process_data` switches the direction to
`IOBUF_DISCARD` on every call, and `buffer_data_chunk` then drops what is buffered instead of
staging the block. Nothing is staged, so the only flushes are the final ones, over no byte:
an edit the rules add is dropped unless it deletes nothing at `bytes_done`, and then only its
replacement is written. So a direction that goes to an error document from its first call
never emits a byte of the body, whatever its events and edits. What a direction holds when
it switches is dropped only by the next block: when the input ends first, the final flush
emits it.
-/

namespace IronBee.Filter

/-- The edits the rules add for the blocks of an event. -/
def inputEdits : Option (List Block) → List Edit
  | none => []
  | some blocks => blockEdits blocks

/-- The edits the rules add over a sequence of events. -/
def eventEdits : List (Bool × Option (List Block)) → List Edit
  | [] => []
  | ev :: evs => inputEdits ev.2 ++ eventEdits evs

/-- Since the context `f₀`, the direction has held no byte and has emitted only the
replacements of edits that delete nothing at `bytes_done`. -/
structure FilterCtx.Silent (f f₀ : FilterCtx) : Prop where
  buffered : f.buffered = 0
  reader : f.reader = []
  bytesDone : f.bytesDone = f₀.bytesDone
  inserted : ∃ L, f.applied = f₀.applied ++ L ∧
    f.output = f₀.output ++ (L.map Edit.repl).flatten ∧
    ∀ e ∈ L, e.start = f₀.bytesDone ∧ e.bytes = 0

namespace FilterCtx.Silent

variable {f₀ f : FilterCtx}

theorem refl (hb : f.buffered = 0) (hr : f.reader = []) : f.Silent f :=
  ⟨hb, hr, rfl, [], (List.append_nil _).symm, by simp, fun _ h => absurd h (List.not_mem_nil _)⟩

theorem addEdits (h : f.Silent f₀) (es : List Edit) : (f.addEdits es).Silent f₀ :=
  ⟨h.buffered, h.reader, h.bytesDone, h.inserted⟩

theorem toDiscard (h : f.Silent f₀) : f.toDiscard.Silent f₀ :=
  ⟨h.buffered, h.reader, h.bytesDone, h.inserted⟩

theorem commit (h : f.Silent f₀) (last : Bool) : (f.commit last).Silent f₀ := by
  unfold FilterCtx.commit
  split
  · exact ⟨h.buffered, h.reader, h.bytesDone, h.inserted⟩
  · exact h

theorem replace (h : f.Silent f₀) (hbuf : f.hasBuffer = true) {e : Edit}
    (hs : e.start = f.bytesDone) (hb : e.bytes = 0) :
    ∃ g, f.replace e = some g ∧ g.Silent f₀ ∧ g.buffering = f.buffering ∧
      g.hasBuffer = f.hasBuffer := by
  obtain ⟨hbd, hr, hd, L, ha, ho, hL⟩ := h
  have hz : toInt64 (e.bytes : Int) = ((0 : Nat) : Int) := by rw [hb]; rfl
  rw [FilterCtx.replace, hz, readerConsume_natCast hbuf, Option.map_some']
  refine ⟨_, rfl, ⟨?_, ?_, ?_, L ++ [e], ?_, ?_, ?_⟩, rfl, rfl⟩
  · show toSize ((f.buffered : Int) - e.bytes) = 0
    rw [hbd, hb]; rfl
  · show f.reader.drop 0 = []
    rw [hr]; rfl
  · show toSize ((f.bytesDone : Int) + e.bytes) = f₀.bytesDone
    rw [toSize_add (by rw [hb]; exact f.bytesDone_lt), hb, Nat.add_zero, hd]
  · show f.applied ++ [e] = _
    rw [ha, List.append_assoc]
  · show f.output ++ e.repl = _
    rw [ho, List.map_append, List.flatten_append, List.append_assoc]
    simp
  · intro x hx
    rcases List.mem_append.mp hx with hx | hx
    · exact hL x hx
    · rw [List.mem_singleton.mp hx, hs, hd]; exact ⟨rfl, hb⟩

end FilterCtx.Silent

theorem applyEdit_silent {f₀ f : FilterCtx} (h : f.Silent f₀) (hbuf : f.hasBuffer = true)
    {e : Edit} (hs : e.start = f.bytesDone) (hb : e.bytes = 0) :
    ∃ g, applyEdit f 0 e = some (g, 0) ∧ g.Silent f₀ ∧ g.buffering = f.buffering ∧
      g.hasBuffer = f.hasBuffer := by
  obtain ⟨g, hg, hgs, hgb, hgh⟩ := h.replace hbuf hs hb
  refine ⟨g, ?_, hgs, hgb, hgh⟩
  have h0 : toInt64 ((0 : Int) - e.bytes) = 0 := by rw [hb]; unfold toInt64; omega
  rw [applyEdit, hs, Nat.sub_self]
  exact Option.bind_eq_some.mpr ⟨(f, 0), copyToStart_zero f 0,
    Option.bind_eq_some.mpr ⟨g, hg, by rw [h0]; rfl⟩⟩

theorem editLoop_silent {f₀ : FilterCtx} :
    ∀ (es : List Edit) (f : FilterCtx) (rc : Status), f.Silent f₀ → f.hasBuffer = true →
      (∀ e ∈ es, e.start + e.bytes < 2 ^ 64) →
      ∃ g rc', editLoop true es f 0 rc = some (g, 0, rc', []) ∧ g.Silent f₀ ∧
        g.buffering = f.buffering
  | [], f, rc, h, _, _ => ⟨f, rc, rfl, h, rfl⟩
  | e :: es, f, rc, h, hbuf, hw => by
    have hw' : ∀ x ∈ es, x.start + x.bytes < 2 ^ 64 := fun x hx => hw x (List.mem_cons_of_mem e hx)
    rw [editLoop]
    by_cases hlt : e.start < f.bytesDone
    · rw [if_pos hlt]
      exact editLoop_silent es f .ebadval h hbuf hw'
    by_cases hgt : toSize (f.bytesDone + (0 : Int)) < toSize (e.start + e.bytes)
    · rw [if_neg hlt, if_pos hgt, if_neg (by decide)]
      exact editLoop_silent es f .ebadval h hbuf hw'
    have hle : e.start + e.bytes ≤ f.bytesDone := by
      rw [add_zero, toSize_natCast f.bytesDone_lt, toSize_add (hw e (List.mem_cons_self e es))]
        at hgt
      omega
    obtain ⟨g, hg, hgs, hgb, hgh⟩ := applyEdit_silent (e := e) h hbuf (by omega) (by omega)
    obtain ⟨g', rc', hl, hg's, hg'b⟩ := editLoop_silent es g rc hgs (hgh.trans hbuf) hw'
    rw [if_neg hlt, if_neg hgt, hg, Option.some_bind]
    exact ⟨g', rc', hl, hg's, hg'b.trans hgb⟩

theorem flushData_silent {qsort : List Edit → List Edit} {f₀ f : FilterCtx}
    (hq : (qsort f.edits).Perm f.edits) (hw : ∀ e ∈ f.edits, e.start + e.bytes < 2 ^ 64)
    (h : f.Silent f₀) (hbuf : f.hasBuffer = true) :
    ∃ g rc, flushData qsort f (-1) true = some (g, rc) ∧ g.Silent f₀ ∧ g.edits = [] ∧
      g.buffering = f.buffering := by
  have hreq : flushRequest f (-1) = 0 := by rw [flushRequest, if_pos rfl, h.buffered]; rfl
  obtain ⟨g, rc, hfe, hg, hge, hgb⟩ : ∃ g rc, flushEdits qsort f 0 true = some (g, 0, rc) ∧
      g.Silent f₀ ∧ g.edits = [] ∧ g.buffering = f.buffering := by
    unfold flushEdits
    split_ifs with he
    · exact ⟨f, .ok, rfl, h, he, rfl⟩
    · obtain ⟨g, rc, hl, hg, hgb⟩ := editLoop_silent (considerOrder qsort f.edits) f .ok h hbuf
        fun e he => hw e (((List.reverse_perm _).trans hq).subset he)
      rw [hl]
      exact ⟨_, rc, rfl, ⟨hg.buffered, hg.reader, hg.bytesDone, hg.inserted⟩, rfl, hgb⟩
  refine ⟨g.commit true, rc, ?_, hg.commit true, by rw [commit_edits, hge],
    by rw [commit_buffering, hgb]⟩
  rw [flushData, hreq]
  exact Option.bind_eq_some.mpr ⟨_, hfe,
    Option.bind_eq_some.mpr ⟨g, copyRemaining_of_nonpos g le_rfl, rfl⟩⟩

theorem bufferDataChunk_silent (qsort : List Edit → List Edit) {f₀ f : FilterCtx}
    (h : f.Silent f₀) (hd : f.buffering = .discard) (chunk : List UInt8) :
    bufferDataChunk qsort f chunk = some (f, .ok) := by
  rw [bufferDataChunk, if_pos hd, FilterCtx.discardBuffered,
    if_neg (by rw [h.buffered]; exact lt_irrefl 0)]
  rfl

theorem chunkLoop_silent (qsort : List Edit → List Edit) {f₀ : FilterCtx} :
    ∀ (blocks : List Block) (s : Stream), s.fctx.Silent f₀ → s.fctx.buffering = .discard →
      ∃ s', chunkLoop qsort blocks s = some s' ∧ s'.fctx.Silent f₀ ∧
        s'.fctx.buffering = .discard ∧ s'.fctx.edits = s.fctx.edits ++ blockEdits blocks ∧
        s'.fctx.hasBuffer = s.fctx.hasBuffer ∧ s'.outputOpen = s.outputOpen
  | [], s, h, hd => ⟨s, rfl, h, hd, by rw [blockEdits, List.append_nil], rfl, rfl⟩
  | b :: bs, s, h, hd => by
    obtain ⟨s₁, h₁, hf₁, -, ho₁⟩ := chunkStep_of_bufferDataChunk
      (bufferDataChunk_silent qsort (h.addEdits b.edits) hd b.data)
    obtain ⟨s', hl, h', hd', he', hb', ho'⟩ := chunkLoop_silent qsort bs s₁
      (by rw [hf₁]; exact h.addEdits b.edits) (by rw [hf₁]; exact hd)
    refine ⟨s', by rw [chunkLoop, h₁, Option.some_bind, hl], h', hd', ?_, by rw [hb', hf₁]; rfl,
      ho'.trans ho₁⟩
    rw [he', hf₁, blockEdits, ← List.append_assoc]
    rfl

theorem finishStream_silent {qsort : List Edit → List Edit}
    (hq : ∀ X : List Edit, (qsort X).Perm X) {f₀ : FilterCtx} {s : Stream}
    (h : s.fctx.Silent f₀) (hbuf : s.fctx.hasBuffer = true)
    (hw : ∀ e ∈ s.fctx.edits, e.start + e.bytes < 2 ^ 64) :
    ∃ s', finishStream qsort s = some (s', .writeComplete) ∧ s'.fctx.Silent f₀ ∧
      s'.fctx.edits = [] ∧ s'.fctx.hasBuffer = true ∧ s'.outputOpen = s.outputOpen := by
  obtain ⟨g, rc, hfl, hg, hge, -⟩ := flushData_silent (hq _) hw h hbuf
  rw [finishStream, hfl]
  exact ⟨_, rfl, hg, hge, (flushData_hasBuffer hfl).trans hbuf, rfl⟩

theorem processData_silent (qsort : List Edit → List Edit)
    (hq : ∀ X : List Edit, (qsort X).Perm X) (dir : Direction) (tx : Option TxView)
    (input : Option (List Block)) {f₀ : FilterCtx} {s : Stream} (h : s.fctx.Silent f₀)
    (hbuf : s.outputOpen = true → s.fctx.hasBuffer = true)
    (hnull : s.outputOpen = false → input ≠ none)
    (hw : ∀ e ∈ s.fctx.edits ++ inputEdits input, e.start + e.bytes < 2 ^ 64) :
    ∃ s' r, processData qsort dir tx true input s = some (s', r) ∧ s'.fctx.Silent f₀ ∧
      s'.outputOpen = true ∧ s'.fctx.hasBuffer = true ∧
      ∀ e ∈ s'.fctx.edits, e ∈ s.fctx.edits ++ inputEdits input := by
  have none_left : ∀ g : FilterCtx, g.edits = [] →
      ∀ e ∈ g.edits, e ∈ s.fctx.edits ++ inputEdits input :=
    fun g hge e he => absurd (hge ▸ he) (List.not_mem_nil e)
  have hw₀ : ∀ e ∈ s.fctx.edits, e.start + e.bytes < 2 ^ 64 :=
    fun e he => hw e (List.mem_append_left _ he)
  rcases input with _ | blocks
  · have ho : s.outputOpen = true := by
      cases ho : s.outputOpen
      · exact absurd rfl (hnull ho)
      · rfl
    rw [processData, if_pos rfl]
    dsimp only
    rw [if_pos ho]
    obtain ⟨g, rc, hfl, hg, hge, -⟩ :=
      flushData_silent (f := s.fctx.toDiscard) (hq _) hw₀ h.toDiscard (hbuf ho)
    rw [hfl]
    exact ⟨_, none, rfl, hg, ho, (flushData_hasBuffer hfl).trans (hbuf ho), none_left g hge⟩
  · rw [processData, if_pos rfl]
    dsimp only
    -- the output open, and the buffer created if it was not
    obtain ⟨h₁, hd₁, he₁, hb₁⟩ :
        (openOutput dir tx true { s with fctx := s.fctx.toDiscard }).fctx.Silent f₀ ∧
        (openOutput dir tx true { s with fctx := s.fctx.toDiscard }).fctx.buffering = .discard ∧
        (openOutput dir tx true { s with fctx := s.fctx.toDiscard }).fctx.edits = s.fctx.edits ∧
        (openOutput dir tx true { s with fctx := s.fctx.toDiscard }).fctx.hasBuffer = true := by
      unfold openOutput
      split_ifs with ho ht
      · exact ⟨h.toDiscard, rfl, rfl, hbuf ho⟩
      · exact ⟨⟨h.buffered, rfl, h.bytesDone, h.inserted⟩, rfl, rfl, rfl⟩
      · exact absurd rfl ht
    have ho₁ := openOutput_outputOpen dir tx true { s with fctx := s.fctx.toDiscard }
    generalize openOutput dir tx true { s with fctx := s.fctx.toDiscard } = s₁ at h₁ hd₁ he₁ hb₁ ho₁
    split_ifs with hz
    · obtain ⟨s₂, hfin, hs₂, he₂, hb₂, ho₂⟩ := finishStream_silent hq h₁ hb₁ (by rw [he₁]; exact hw₀)
      rw [hfin]
      exact ⟨_, _, rfl, hs₂, ho₂.trans ho₁, hb₂, none_left _ he₂⟩
    · obtain ⟨s₂, hl, h₂, -, he₂, hb₂, ho₂⟩ := chunkLoop_silent qsort blocks s₁ h₁ hd₁
      have hsub : ∀ e ∈ s₂.fctx.edits, e ∈ s.fctx.edits ++ inputEdits (some blocks) := by
        rw [he₂, he₁]; exact fun e he => he
      rw [hl, Option.some_bind]
      split_ifs
      · obtain ⟨s₃, hfin, hs₃, he₃, hb₃, ho₃⟩ := finishStream_silent hq h₂ (hb₂.trans hb₁)
          fun e he => hw e (hsub e he)
        rw [hfin]
        exact ⟨_, _, rfl, hs₃, ho₃.trans (ho₂.trans ho₁), hb₃, none_left _ he₃⟩
      · exact ⟨s₂, _, rfl, h₂, ho₂.trans ho₁, hb₂.trans hb₁, hsub⟩

theorem processEvents_silent (qsort : List Edit → List Edit)
    (hq : ∀ X : List Edit, (qsort X).Perm X) (dir : Direction) (tx : Option TxView)
    {f₀ : FilterCtx} :
    ∀ (evs : List (Bool × Option (List Block))) (s : Stream), (∀ ev ∈ evs, ev.1 = true) →
      s.fctx.Silent f₀ → (s.outputOpen = true → s.fctx.hasBuffer = true) →
      (s.outputOpen = false → evs.head?.all fun ev => ev.2.isSome) →
      (∀ e ∈ s.fctx.edits ++ eventEdits evs, e.start + e.bytes < 2 ^ 64) →
      ∃ s', processEvents qsort dir tx evs s = some s' ∧ s'.fctx.Silent f₀
  | [], s, _, h, _, _, _ => ⟨s, rfl, h⟩
  | (httpError, input) :: evs, s, herr, h, hbuf, hfirst, hw => by
    obtain rfl : httpError = true := herr _ (List.mem_cons_self _ _)
    have hw₁ : ∀ e ∈ s.fctx.edits ++ inputEdits input, e.start + e.bytes < 2 ^ 64 :=
      fun e he => hw e (by rw [eventEdits, ← List.append_assoc]; exact List.mem_append_left _ he)
    obtain ⟨s₁, r, h₁, hs₁, ho₁, hb₁, he₁⟩ := processData_silent qsort hq dir tx input h hbuf
      (fun ho hn => by simpa [hn] using hfirst ho) hw₁
    obtain ⟨s', h', hs'⟩ := processEvents_silent qsort hq dir tx evs s₁
      (fun ev hev => herr ev (List.mem_cons_of_mem _ hev)) hs₁ (fun _ => hb₁)
      (fun ho => absurd (ho₁.symm.trans ho) (by decide)) fun e he =>
        (List.mem_append.mp he).elim (fun he => hw₁ e (he₁ e he))
          fun he => hw e (List.mem_append_right _ (List.mem_append_right _ he))
    exact ⟨s', by rw [processEvents, h₁, Option.some_bind, h'], hs'⟩

theorem processCalls_httpError {ds : List Delivery} (herr : ∀ d ∈ ds, d.httpError = true) :
    ∀ ev ∈ processCalls ds, ev.1 = true := by
  induction ds with
  | nil => exact fun _ h => absurd h (List.not_mem_nil _)
  | cons d ds ih =>
    have ih := ih fun d' hd' => herr d' (List.mem_cons_of_mem d hd')
    rw [processCalls]
    split
    · intro ev hev
      rcases List.mem_cons.mp hev with rfl | hev
      · exact herr d (List.mem_cons_self d ds)
      · exact ih ev hev
    · exact ih

/-- A direction that goes to an error document from a first call with input emits only the
replacements of edits that insert at the start of the body. -/
theorem directionEvents_errorDoc_silent (qsort : List Edit → List Edit)
    (hq : ∀ X : List Edit, (qsort X).Perm X) (dir : Direction) (t : TxView)
    (buffering : Buffering) (bufLimit : Nat) (todo : Int) (ds : List Delivery)
    (herr : ∀ d ∈ ds, d.httpError = true)
    (hfirst : (processCalls ds).head?.all fun ev => ev.2.isSome)
    (hwrap : ∀ e ∈ eventEdits (processCalls ds), e.start + e.bytes < 2 ^ 64) :
    ∃ s' acts, directionEvents dir qsort (some t) ds
        ⟨FilterCtx.zeroed buffering bufLimit, false, todo, []⟩ = some (s', acts) ∧
      s'.fctx.bytesDone = 0 ∧ s'.fctx.output = (s'.fctx.applied.map Edit.repl).flatten ∧
      ∀ e ∈ s'.fctx.applied, e.start = 0 ∧ e.bytes = 0 := by
  obtain ⟨s', hrun, hs'⟩ := processEvents_silent qsort hq dir (some t)
    (processCalls ds) ⟨FilterCtx.zeroed buffering bufLimit, false, todo, []⟩
    (processCalls_httpError herr) (FilterCtx.Silent.refl rfl rfl) (fun h => absurd h Bool.false_ne_true)
    (fun _ => hfirst) hwrap
  obtain ⟨L, ha, ho, hL⟩ := hs'.inserted
  have ha' : s'.fctx.applied = L := ha
  obtain ⟨acts, hde⟩ := directionEvents_of_processEvents hrun
  exact ⟨s', acts, hde, hs'.bytesDone, by rw [ho, ha']; rfl, ha' ▸ hL⟩

theorem directionEvents_errorDoc_silent_insert :
    ∃ s' acts, directionEvents .req qsortModel (some TxView.noBuffering)
        [⟨false, .vconnWriteReady, ⟨false, false, false, false, false⟩, true,
          some [⟨[1, 2], [Edit.make 0 0 [9], Edit.make 1 1 [7]], .ok⟩]⟩,
         ⟨false, .vconnWriteReady, ⟨false, false, false, false, false⟩, true,
          some [⟨[3], [], .ok⟩]⟩]
        ⟨FilterCtx.zeroed .bufferAll 0, false, 3, []⟩ = some (s', acts) ∧
      s'.fctx.bytesDone = 0 ∧ s'.fctx.output = (s'.fctx.applied.map Edit.repl).flatten ∧
      ∀ e ∈ s'.fctx.applied, e.start = 0 ∧ e.bytes = 0 :=
  directionEvents_errorDoc_silent qsortModel (fun X => List.perm_insertionSort _ X) .req
    TxView.noBuffering .bufferAll 0 3
    [⟨false, .vconnWriteReady, ⟨false, false, false, false, false⟩, true,
      some [⟨[1, 2], [Edit.make 0 0 [9], Edit.make 1 1 [7]], .ok⟩]⟩,
     ⟨false, .vconnWriteReady, ⟨false, false, false, false, false⟩, true,
      some [⟨[3], [], .ok⟩]⟩] (by decide) (by decide) (by decide)

/-- An end-of-stream call that switches to discard mode first emits every byte the direction holds.
-/
theorem processEvents_errorDoc_flushes_held (qsort : List Edit → List Edit) (dir : Direction)
    (tx : Option TxView) (buffering : Buffering) (bufLimit : Nat) (todo : Int)
    (evs : List (Bool × Option (List Block))) (hin : eventBytes evs < 2 ^ 63) :
    match processEvents qsort dir tx evs ⟨FilterCtx.zeroed buffering bufLimit, false, todo, []⟩ with
    | some s => s.outputOpen = true → s.fctx.edits = [] →
      ∃ s', processData qsort dir tx true none s = some (s', none) ∧
        s'.fctx.buffering = .discard ∧ s'.fctx.reader = [] ∧
        s'.fctx.output = s.fctx.output ++ s.fctx.reader
    | none => True := by
  split
  · rename_i s h
    intro ho he
    obtain ⟨S, -, hf⟩ := processEvents_conserves hin h
    obtain ⟨S', -, hp⟩ := processEvents_processed h
    obtain ⟨g, hfl, hout, hr, -⟩ := flushData_no_edits qsort true hf.toDiscard he
      (flushRequest_all hf.toDiscard) le_rfl fun h0 => hp.buffer fun hr => h0 (congrArg List.length hr)
    have hp : processData qsort dir tx true none s =
        some ({ s with fctx := g, log := s.log ++ eosFlushLog .ok }, none) := by
      rw [processData, if_pos rfl]
      dsimp only
      rw [if_pos ho, hfl]
      rfl
    refine ⟨_, hp, flushData_buffering hfl, ?_, ?_⟩
    · show g.reader = []
      rw [hr, List.drop_length]
    · show g.output = _
      rw [hout, List.take_length]
      rfl
  · trivial

theorem processEvents_errorDoc_flushes_held_two_bytes :
    ∃ s, processEvents qsortModel .req
        (some ⟨⟨false, false, true, true, false, false⟩,
          some ⟨true, true, -1, .flushAll, -1, .flushAll⟩⟩)
        [(false, some [⟨[1, 2], [], .ok⟩])] ⟨FilterCtx.zeroed .nobuf 0, false, 5, []⟩ = some s ∧
      (s.outputOpen = true → s.fctx.edits = [] →
        ∃ s', processData qsortModel .req
            (some ⟨⟨false, false, true, true, false, false⟩,
              some ⟨true, true, -1, .flushAll, -1, .flushAll⟩⟩) true none s = some (s', none) ∧
          s'.fctx.buffering = .discard ∧ s'.fctx.reader = [] ∧
          s'.fctx.output = s.fctx.output ++ s.fctx.reader) :=
  ⟨_, rfl, processEvents_errorDoc_flushes_held qsortModel .req
    (some ⟨⟨false, false, true, true, false, false⟩,
      some ⟨true, true, -1, .flushAll, -1, .flushAll⟩⟩) .nobuf 0 5
    [(false, some [⟨[1, 2], [], .ok⟩])] (by decide)⟩

end IronBee.Filter
