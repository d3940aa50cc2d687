import IronBee.Filter.Ordered
import IronBee.Filter.Modes
import IronBee.Filter.Body

/-! # What a direction holds between its calls

Outside discard mode, whatever the buffering mode and whenever it flushes, a direction is
meant to lose none of the edits the rules add: each is applied or still pending, and every
pending edit starts at or after `bytes_done`. Staging a block keeps this when the block's
edits do not start behind `bytes_done`; a flush that is not the last keeps it when the edits
follow one another and start within the bytes received; and the final flush then applies
every pending edit, so that the direction has emitted the body with all the edits spliced in,
in ascending order.
-/

namespace IronBee.Filter

/-- A direction outside discard mode that has received `S` and been given the edits `E`: each is
applied or pending, the pending ones at or after `bytes_done`. -/
structure FilterCtx.Holding (S : List UInt8) (E : List Edit) (f : FilterCtx) : Prop where
  conserves : Conserves S f
  keeps : f.buffering ≠ .discard
  kept : (f.applied ++ f.edits).Perm E
  ahead : ∀ e ∈ f.edits, f.bytesDone ≤ e.start
  buffer : f.hasBuffer = true

theorem FilterCtx.Fresh.holding {f : FilterCtx} (h : f.Fresh) (hb : f.buffering ≠ .discard)
    (hbuf : f.hasBuffer = true) : f.Holding [] [] :=
  ⟨h.eq_init hbuf ▸ Conserves.init _ _, hb, by rw [h.applied, h.edits]; exact .refl _,
    by rw [h.edits]; exact fun _ he => absurd he (List.not_mem_nil _), hbuf⟩

namespace FilterCtx.Holding

variable {S : List UInt8} {E : List Edit} {f : FilterCtx}

theorem subperm (hf : f.Holding S E) : List.Subperm f.edits E :=
  (List.sublist_append_right f.applied f.edits).subperm.trans hf.kept.subperm

theorem reader_length (hf : f.Holding S E) : f.bytesDone + f.reader.length = S.length := by
  have := hf.conserves.consumed
  rw [hf.conserves.stream hf.keeps, List.length_drop]
  omega

theorem addEdits (hf : f.Holding S E) (e : List Edit) (he : ∀ x ∈ e, f.bytesDone ≤ x.start) :
    (f.addEdits e).Holding S (E ++ e) :=
  ⟨hf.conserves.setEdits (f.edits ++ e), hf.keeps,
    by
      show (f.applied ++ (f.edits ++ e)).Perm (E ++ e)
      rw [← List.append_assoc]
      exact hf.kept.append_right e,
    fun x hx => (List.mem_append.mp hx).elim (hf.ahead x) (he x), hf.buffer⟩

theorem bufferIn (hf : f.Holding S E) (d : List UInt8) (hlen : (S ++ d).length < 2 ^ 63) :
    (f.bufferIn d).Holding (S ++ d) E :=
  ⟨hf.conserves.bufferIn hf.keeps d hlen, hf.keeps, hf.kept, hf.ahead, hf.buffer⟩

theorem stage (hf : f.Holding S E) (e : List Edit) (d : List UInt8)
    (hlen : (S ++ d).length < 2 ^ 63) (he : ∀ x ∈ e, f.bytesDone ≤ x.start) :
    ((f.addEdits e).bufferIn d).Holding (S ++ d) (E ++ e) :=
  (hf.addEdits e he).bufferIn d hlen

section Flush

variable {qsort : List Edit → List Edit} {Es : List Edit}

theorem flush (hq : ∀ X : List Edit, X.Pairwise StartsNear → QsortResult X (qsort X))
    (hnear : Es.Pairwise StartsNear) (hdistinct : (Es.map Edit.start).Nodup) {T : Nat}
    (hin : InOrder 0 (Es.insertionSort fun a b => a.start ≤ b.start) T) (hT : T < 2 ^ 63)
    (hf : f.Holding S E) (hE : List.Subperm E Es) (hST : S.length ≤ T)
    (hwithin : ∀ e ∈ f.edits, e.start ≤ S.length) {nbytes : Int}
    (hreq : nbytes = -1 ∨ 0 ≤ nbytes ∧ nbytes ≤ f.buffered) :
    ∃ g rc, flushData qsort f nbytes false = some (g, rc) ∧ g.Holding S E ∧
      g.buffering = f.buffering ∧ (∀ e ∈ g.edits, e ∈ f.edits) ∧
      ((g.bytesDone : Int) = f.bytesDone + flushRequest f nbytes ∨
        ∃ e ∈ g.edits, e.start = g.bytesDone) := by
  have hc := hf.conserves
  have hH := hf.reader_length
  have hX : List.Subperm f.edits Es := hf.subperm.trans hE
  obtain ⟨n, hn, hnl⟩ := flushRequest_le hc.resident (by omega) hreq
  obtain ⟨g, hfl, -, hd, hed, happ⟩ := flushData_walk (hq _ (startsNear_of_subperm hX hnear))
    (startsNear_of_subperm hX hnear) (nodup_starts_of_subperm hX hdistinct) hf.buffer (by omega)
    hn hnl
    (hin.ends_of_subperm hT hX) (fun _ : false = false => fun e he => hH ▸ hwithin e he)
  obtain ⟨L₁, hL, ha, -, hp⟩ := greedyWalk_inOrder_defer f.reader f.bytesDone (f.bytesDone + n) T
    (f.edits.insertionSort fun a b => a.start ≤ b.start) ⟨[], f.bytesDone, [], [], []⟩ rfl
    (inOrder_insertionSort hX hdistinct hin (by show f.bytesDone ≤ T; omega) hf.ahead)
  have hpend : ∀ e ∈ g.edits, e ∈ (greedyWalk f.reader f.bytesDone (f.bytesDone + n) false
      (f.edits.insertionSort fun a b => a.start ≤ b.start)
      ⟨[], f.bytesDone, [], [], []⟩).pending := fun e he => by
    rwa [hed, List.mem_reverse] at he
  refine ⟨g, _, hfl, ⟨(flushData_conserves hc hreq hfl).1,
      by rw [flushData_buffering hfl]; exact hf.keeps, ?_, fun e he => hd ▸ (hp e (hpend e he)).1,
      (flushData_hasBuffer hfl).trans hf.buffer⟩,
    flushData_buffering hfl, fun e he => ?_, ?_⟩
  · rw [happ, hed, ha, List.nil_append, List.append_assoc]
    refine (((List.reverse_perm _).append_left L₁).append_left _).trans ?_
    rw [← hL]
    exact ((List.perm_insertionSort _ _).append_left _).trans hf.kept
  · have hs : e ∈ f.edits.insertionSort fun a b => a.start ≤ b.start := by
      rw [hL]; exact List.mem_append_right L₁ (hpend e he)
    exact (List.perm_insertionSort _ _).subset hs
  · rw [hd, hed, hn]
    unfold Walk.stop
    split
    · rename_i x xs hx
      exact .inr ⟨x, by rw [hx, List.mem_reverse]; exact List.mem_cons_self x xs, rfl⟩
    · exact .inl rfl

theorem finish (hq : QsortResult f.edits (qsort f.edits)) (hnear : Es.Pairwise StartsNear)
    (hdistinct : (Es.map Edit.start).Nodup)
    (hin : InOrder 0 (Es.insertionSort fun a b => a.start ≤ b.start) S.length)
    (hf : f.Holding S Es) :
    ∃ g, flushData qsort f (-1) true = some (g, .ok) ∧
      g.output = splice S 0 (Es.insertionSort fun a b => a.start ≤ b.start) S.length ∧
      g.edits = [] := by
  have hc := hf.conserves
  have hH := hf.reader_length
  have hlt := hc.input_lt
  have hX := hf.subperm
  obtain ⟨g, hfl, -, hd, hed, happ⟩ := flushData_walk hq (startsNear_of_subperm hX hnear)
    (nodup_starts_of_subperm hX hdistinct) hf.buffer (by omega) (flushRequest_all hc) le_rfl
    (hin.ends_of_subperm hlt hX) (fun h : true = false => by cases h)
  obtain ⟨ha, hdis, hpend⟩ := greedyWalk_inOrder_all f.reader f.bytesDone
    (f.bytesDone + f.reader.length) true (f.edits.insertionSort fun a b => a.start ≤ b.start)
    ⟨[], f.bytesDone, [], [], []⟩
    (hH ▸ inOrder_insertionSort hX hdistinct hin (by show f.bytesDone ≤ S.length; omega)
      hf.ahead)
  simp only [Walk.status, hpend, hdis, ne_eq, not_true_eq_false, if_false] at hfl
  have hgc := (flushData_conserves hc (.inl rfl) hfl).1
  have hgd : g.bytesDone = S.length := by rw [hd, Walk.stop, hpend]; exact hH
  have hanti : IsAntisymm Edit fun a b => a.start < b.start :=
    ⟨fun _ _ h₁ h₂ => absurd (h₁.trans h₂) (lt_irrefl _)⟩
  have hsort := List.perm_insertionSort StartLe Es
  have hsd : ((Es.insertionSort StartLe).map Edit.start).Nodup :=
    (hsort.map _).nodup_iff.mpr hdistinct
  have hp : g.applied.Perm (Es.insertionSort StartLe) := by
    rw [happ, ha, List.nil_append]
    exact (((List.perm_insertionSort _ _).append_left _).trans hf.kept).trans hsort.symm
  have hga := List.eq_of_perm_of_sorted hp
    (sorted_lt_of_nodup hgc.inOrder.sorted ((hp.map _).nodup_iff.mpr hsd))
    (sorted_lt_of_nodup (List.sorted_insertionSort StartLe Es) hsd)
  exact ⟨g, hfl, by rw [hgc.output, hga, hgd]; rfl, by rw [hed, hpend]; rfl⟩

end Flush

end FilterCtx.Holding

/-! ## A whole body -/

section Body

variable (qsort : List Edit → List Edit) (Good : List Block → FilterCtx → Prop)

theorem Body.splices (dir : Direction) (tx : Option TxView)
    (hstep : ∀ b rest f, Good (b :: rest) f →
      ∃ g rc, bufferDataChunk qsort (f.addEdits b.edits) b.data = some (g, rc) ∧ Good rest g)
    (buffering : Buffering) (bufLimit : Nat) (b : Body)
    (hinit : Good b.blocks (bufferInit dir tx (FilterCtx.init buffering bufLimit)).1)
    (hend : ∀ f, Good [] f →
      f.Holding (eventData b.events) b.edits ∧ QsortResult f.edits (qsort f.edits))
    (hnear : b.edits.Pairwise StartsNear) (hdistinct : (b.edits.map Edit.start).Nodup)
    (hin : InOrder 0 (b.edits.insertionSort fun x y => x.start ≤ y.start) (eventBytes b.events)) :
    ∃ s', processEvents qsort dir tx b.events
        ⟨FilterCtx.zeroed buffering bufLimit, false, eventBytes b.events, []⟩ = some s' ∧
      s'.fctx.output = splice (eventData b.events) 0
        (b.edits.insertionSort fun x y => x.start ≤ y.start) (eventBytes b.events) ∧
      s'.fctx.edits = [] := by
  have hdl := eventData_length b.events
  obtain ⟨s₀, hs₀, hrun⟩ := Body.run qsort Good dir tx hstep buffering bufLimit b hinit
  obtain ⟨hf, hq⟩ := hend _ hs₀
  obtain ⟨g, hfl, hout, hed⟩ := hf.finish hq hnear hdistinct (by rwa [hdl])
  refine ⟨{ s₀ with fctx := g }, hrun.trans (by rw [finishStream, hfl]; rfl), ?_, hed⟩
  rw [hout, hdl]

end Body

end IronBee.Filter
