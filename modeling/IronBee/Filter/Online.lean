import IronBee.Filter.BufferAll
import IronBee.Filter.Streaming
import IronBee.Filter.FlushAll

/-! # What a direction has emitted at any moment

Every step of `flush_data` and `buffer_data_chunk` appends to the output and none takes a
byte back, and so does every call of `process_data`: what a direction has emitted after some
of a body's calls is a prefix of what it emits by the end. In every mode outside discard,
with edits that fit the mode, that end is the body with every edit spliced in, so at no
moment has the direction emitted a byte that the edited body does not have at that place.
-/

namespace IronBee.Filter

theorem output_grows_chunkStable (O : List UInt8) : ChunkStable fun g => O <+: g.output where
  moveOut _ _ _ h := h.trans (List.prefix_append _ _)
  replace _ _ _ h hf := by
    simp only [FilterCtx.replace, Option.map_eq_some'] at h
    obtain ⟨_, _, rfl⟩ := h
    exact hf.trans (List.prefix_append _ _)
  setEdits _ _ h := h
  commit _ _ h := by rwa [commit_output]
  bufferIn _ _ h := h
  discard _ _ h hf := by
    unfold FilterCtx.discardBuffered at h
    split_ifs at h
    · obtain ⟨_, -, rfl⟩ := Option.map_eq_some'.mp h
      exact hf
    · cases h; exact hf

theorem bufferInit_output (dir : Direction) (tx : Option TxView) (f : FilterCtx) :
    (bufferInit dir tx f).1.output = f.output := by
  obtain ⟨_, _, _, he⟩ := bufferInit_fctx dir tx f
  rw [he]

section Output

variable {qsort : List Edit → List Edit} {dir : Direction} {tx : Option TxView}

theorem chunkLoop_output_grows : ∀ {bs : List Block} {s s' : Stream},
    chunkLoop qsort bs s = some s' → s.fctx.output <+: s'.fctx.output
  | [], s, s', h => by cases h; exact List.prefix_refl _
  | b :: bs, s, s', h => by
    obtain ⟨s₁, h₁, h⟩ := Option.bind_eq_some.mp h
    obtain ⟨⟨f, rc⟩, hf, rfl⟩ := Option.map_eq_some'.mp h₁
    exact (bufferDataChunk_stable (output_grows_chunkStable _) hf (List.prefix_refl _)).trans
      (chunkLoop_output_grows h)

theorem finishStream_output_grows {s s' : Stream} {r : Reply}
    (h : finishStream qsort s = some (s', r)) : s.fctx.output <+: s'.fctx.output := by
  obtain ⟨⟨f, rc⟩, hf, h⟩ := Option.map_eq_some'.mp h
  cases h
  exact flushData_stable (output_grows_chunkStable _).toFlushStable hf (List.prefix_refl _)

theorem processData_output_grows {httpError : Bool} {input : Option (List Block)}
    {s s' : Stream} {r : Option Reply}
    (h : processData qsort dir tx httpError input s = some (s', r)) :
    s.fctx.output <+: s'.fctx.output := by
  have ho₀ : (if httpError then { s with fctx := s.fctx.toDiscard } else s).fctx.output =
      s.fctx.output := by
    split_ifs <;> rfl
  unfold processData at h
  generalize (if httpError then { s with fctx := s.fctx.toDiscard } else s) = s₀ at h ho₀
  rw [← ho₀]
  rcases input with _ | blocks
  · dsimp only at h
    split_ifs at h
    · obtain ⟨⟨f, rc⟩, hf, h⟩ := Option.map_eq_some'.mp h
      cases h
      exact flushData_stable (output_grows_chunkStable _).toFlushStable hf (List.prefix_refl _)
    · cases h; exact List.prefix_refl _
  · dsimp only at h
    have ho : (openOutput dir tx httpError s₀).fctx.output = s₀.fctx.output := by
      unfold openOutput
      split_ifs
      · rfl
      · rfl
      · exact bufferInit_output dir tx s₀.fctx.createBuffer
    rw [← ho]
    generalize openOutput dir tx httpError s₀ = s₁ at h
    split_ifs at h
    · obtain ⟨⟨s₂, r₂⟩, h₂, h⟩ := Option.map_eq_some'.mp h
      cases h
      exact finishStream_output_grows h₂
    · obtain ⟨s₂, h₂, h⟩ := Option.bind_eq_some.mp h
      refine (chunkLoop_output_grows h₂).trans ?_
      split_ifs at h
      · obtain ⟨⟨s₃, r₃⟩, h₃, h⟩ := Option.map_eq_some'.mp h
        cases h
        exact finishStream_output_grows h₃
      · cases h; exact List.prefix_refl _

theorem processEvents_output_grows :
    ∀ {evs : List (Bool × Option (List Block))} {s s' : Stream},
      processEvents qsort dir tx evs s = some s' → s.fctx.output <+: s'.fctx.output
  | [], s, s', h => by cases h; exact List.prefix_refl _
  | (_, _) :: evs, s, s', h => by
    obtain ⟨⟨s₁, r₁⟩, h₁, h⟩ := Option.bind_eq_some.mp h
    exact (processData_output_grows h₁).trans (processEvents_output_grows h)

theorem processEvents_append : ∀ (evs evs' : List (Bool × Option (List Block))) (s : Stream),
    processEvents qsort dir tx (evs ++ evs') s =
      (processEvents qsort dir tx evs s).bind (processEvents qsort dir tx evs')
  | [], _, _ => rfl
  | (_, _) :: evs, evs', s => by
    rw [List.cons_append, processEvents, processEvents, Option.bind_assoc]
    simp only [processEvents_append evs evs']

theorem processEvents_prefix_output {evs evs' : List (Bool × Option (List Block))}
    {s s' : Stream} (h : processEvents qsort dir tx (evs ++ evs') s = some s') :
    ∃ s₁, processEvents qsort dir tx evs s = some s₁ ∧ s₁.fctx.output <+: s'.fctx.output := by
  rw [processEvents_append] at h
  obtain ⟨s₁, h₁, h₂⟩ := Option.bind_eq_some.mp h
  exact ⟨s₁, h₁, processEvents_output_grows h₂⟩

end Output

/-- In every mode outside discard, with edits that fit the mode, what a direction has emitted at any
call is a prefix of the edited body. -/
theorem directionEvents_output_prefix_of_spliced (qsort : List Edit → List Edit)
    (dir : Direction) (t : TxView) (buffering : Buffering) (bufLimit : Nat) (b : Body)
    (ds ds' : List Delivery) (hcalls : processCalls (ds ++ ds') = b.events) (m : Buffering)
    (hm : (bufferInit dir (some t) (FilterCtx.init buffering bufLimit)).1.buffering = m)
    (hfit : m = .bufferAll ∨ (m = .nobuf ∨ m = .bufferFlushPart) ∧ Timely 0 b.blocks ∨
      m = .bufferFlushAll ∧ Late 0 0 b.blocks)
    (hlen : eventBytes b.events < 2 ^ 63)
    (hq : ∀ X : List Edit, X.Pairwise StartsNear → QsortResult X (qsort X))
    (hnear : b.edits.Pairwise StartsNear) (hdistinct : (b.edits.map Edit.start).Nodup)
    (hin : InOrder 0 (b.edits.insertionSort fun x y => x.start ≤ y.start) (eventBytes b.events)) :
    ∃ s₁ acts, directionEvents dir qsort (some t) ds
        ⟨FilterCtx.zeroed buffering bufLimit, false, eventBytes b.events, []⟩ = some (s₁, acts) ∧
      s₁.fctx.output <+: splice (eventData b.events) 0
        (b.edits.insertionSort fun x y => x.start ≤ y.start) (eventBytes b.events) := by
  -- the whole body, in each mode with the edits that fit it
  obtain ⟨s', hrun, hout, -⟩ : ∃ s', processEvents qsort dir (some t) b.events
      ⟨FilterCtx.zeroed buffering bufLimit, false, eventBytes b.events, []⟩ = some s' ∧
      s'.fctx.output = splice (eventData b.events) 0
        (b.edits.insertionSort fun x y => x.start ≤ y.start) (eventBytes b.events) ∧
      s'.fctx.edits = [] := by
    rcases hfit with hb | ⟨hs, ht⟩ | ⟨hf, hl⟩
    · exact processEvents_bufferAll qsort dir (some t) buffering bufLimit b (hm.trans hb) hlen
        (hq _ hnear) hnear hdistinct hin
    · exact processEvents_streaming qsort dir (some t) buffering bufLimit b (by rwa [hm]) hlen hq
        hnear hdistinct hin ht
    · exact processEvents_flushAll qsort dir (some t) buffering bufLimit b (hm.trans hf) hlen hq
        hnear hdistinct hin hl
  have hsplit : processEvents qsort dir (some t) (processCalls ds ++ processCalls ds')
      ⟨FilterCtx.zeroed buffering bufLimit, false, eventBytes b.events, []⟩ = some s' := by
    rw [← processCalls_append, hcalls]; exact hrun
  obtain ⟨s₁, h₁, hpre⟩ := processEvents_prefix_output hsplit
  obtain ⟨acts, hd⟩ := directionEvents_of_processEvents h₁
  exact ⟨s₁, acts, hd, hout ▸ hpre⟩

theorem directionEvents_output_prefix_of_spliced_first_call :
    ∃ s₁ acts, directionEvents .req qsortModel
        (some ⟨⟨false, false, true, true, false, false⟩,
          some ⟨true, true, 1, .flushPart, 1, .flushPart⟩⟩)
        [⟨false, .vconnWriteReady, ⟨false, false, false, false, false⟩, false,
          some [⟨[1, 2], [Edit.make 1 2 [7]], .ok⟩]⟩]
        ⟨FilterCtx.zeroed .nobuf 0, false, 4, []⟩ = some (s₁, acts) ∧
      s₁.fctx.output <+: [1, 7] :=
  directionEvents_output_prefix_of_spliced qsortModel .req _ .nobuf 0
    ⟨[[⟨[1, 2], [Edit.make 1 2 [7]], .ok⟩]], [⟨[3, 4], [Edit.make 3 1 []], .ok⟩], by decide⟩ _
    [⟨false, .vconnWriteReady, ⟨false, false, false, false, false⟩, false,
      some [⟨[3, 4], [Edit.make 3 1 []], .ok⟩]⟩]
    rfl .bufferFlushPart rfl (.inr (.inl ⟨.inr rfl, by decide⟩)) (by decide)
    (fun _ h => qsortModel_result h) (by decide) (by decide) (by decide)

end IronBee.Filter
