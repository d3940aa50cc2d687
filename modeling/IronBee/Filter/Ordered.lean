import IronBee.Filter.Refinement

/-! # Flushes over edits that follow one another

The edits the rules add to a body are meant to follow one another: sorted by start, each
begins at or after the end of the one before. On such edits the greedy walk of a flush never
drops one: it applies them in turn and, on a call that is not the last, stops at the first
that reaches past the horizon, leaving it and every later one pending. A call
`flush_data(fctx, -1, last)` does what its walk does, and the sort it makes with `qsort`
meets the walk's ascending order whenever `qsort` keeps its contract, as the insertion sort
`qsortModel` does on starts less than `2^31` apart.
-/

namespace IronBee.Filter

namespace InOrder

theorem le_start : ∀ {pos : Nat} {es : List Edit} {p : Nat}, InOrder pos es p →
    ∀ e ∈ es, pos ≤ e.start
  | _, [], _, _, _, he => absurd he (List.not_mem_nil _)
  | _, _ :: _, _, h, x, hx => by
    rcases List.mem_cons.mp hx with rfl | hx
    · exact h.1
    · have := le_start h.2 x hx; have := h.1; omega

theorem antitone {q : Nat} : ∀ {pos : Nat} {es : List Edit} {p : Nat}, q ≤ pos →
    InOrder pos es p → InOrder q es p
  | _, [], _, hq, h => Nat.le_trans hq h
  | _, _ :: _, _, hq, h => ⟨Nat.le_trans hq h.1, h.2⟩

theorem of_le_start {q : Nat} : ∀ {pos : Nat} {es : List Edit} {p : Nat}, InOrder pos es p →
    q ≤ p → (∀ e ∈ es, q ≤ e.start) → InOrder q es p
  | _, [], _, _, hq, _ => hq
  | _, _ :: _, _, h, _, hs => ⟨hs _ (List.mem_cons_self _ _), h.2⟩

theorem sublist {pos p : Nat} {l₁ l₂ : List Edit} (hs : List.Sublist l₁ l₂) (h : InOrder pos l₂ p) :
    InOrder pos l₁ p := by
  induction hs generalizing pos with
  | slnil => exact h
  | cons a _ ih => exact (ih h.2).antitone (Nat.le_trans h.1 (Nat.le_add_right _ _))
  | cons₂ a _ ih => exact ⟨h.1, ih h.2⟩

theorem sorted : ∀ {pos : Nat} {es : List Edit} {p : Nat}, InOrder pos es p →
    es.Sorted fun a b => a.start ≤ b.start
  | _, [], _, _ => List.sorted_nil
  | _, _ :: _, _, h => List.sorted_cons.mpr
    ⟨fun x hx => by have := h.2.le_start x hx; omega, sorted h.2⟩

end InOrder

theorem startsNear_of_subperm {X Es : List Edit} (h : List.Subperm X Es)
    (hnear : Es.Pairwise StartsNear) : X.Pairwise StartsNear := by
  obtain ⟨l, hl, hs⟩ := h
  exact (hl.pairwise_iff startsNear_symm).mp (hnear.sublist hs)

theorem nodup_starts_of_subperm {X Es : List Edit} (h : List.Subperm X Es)
    (hdistinct : (Es.map Edit.start).Nodup) : (X.map Edit.start).Nodup := by
  obtain ⟨l, hl, hs⟩ := h
  exact (hl.map _).nodup_iff.mp (List.Nodup.sublist (hs.map _) hdistinct)

theorem inOrder_insertionSort {X Es : List Edit} {q T : Nat} (hX : List.Subperm X Es)
    (hdistinct : (Es.map Edit.start).Nodup)
    (hin : InOrder 0 (Es.insertionSort fun a b => a.start ≤ b.start) T) (hq : q ≤ T)
    (hstart : ∀ e ∈ X, q ≤ e.start) :
    InOrder q (X.insertionSort fun a b => a.start ≤ b.start) T := by
  have hanti : IsAntisymm Edit fun a b => a.start < b.start :=
    ⟨fun _ _ h₁ h₂ => absurd (h₁.trans h₂) (lt_irrefl _)⟩
  have hpX := List.perm_insertionSort StartLe X
  have hpE := List.perm_insertionSort StartLe Es
  have hXd := nodup_starts_of_subperm hX hdistinct
  have hsub : List.Sublist (X.insertionSort StartLe) (Es.insertionSort StartLe) :=
    List.sublist_of_subperm_of_sorted (r := fun a b => a.start < b.start)
      (hpX.subperm.trans (hX.trans hpE.symm.subperm))
      (sorted_lt_of_nodup (List.sorted_insertionSort StartLe X)
        ((hpX.map _).nodup_iff.mpr hXd))
      (sorted_lt_of_nodup (List.sorted_insertionSort StartLe Es)
        ((hpE.map _).nodup_iff.mpr hdistinct))
  exact ((InOrder.sublist hsub hin).antitone (Nat.zero_le _)).of_le_start hq
    fun e he => hstart e (hpX.subset he)

/-! ## The walk over a chain -/

theorem greedyWalk_inOrder_all (D : List UInt8) (base H : Nat) (last : Bool) :
    ∀ (L : List Edit) (w : Walk), InOrder w.cursor L H →
      let w' := greedyWalk D base H last L w
      w'.applied = w.applied ++ L ∧ w'.discarded = w.discarded ∧ w'.pending = w.pending
  | [], w, _ => ⟨(List.append_nil _).symm, rfl, rfl⟩
  | e :: es, w, h => by
    obtain ⟨ha, hd, hp⟩ := greedyWalk_inOrder_all D base H last es
      { w with
        written := w.written ++ (D.drop (w.cursor - base)).take (e.start - w.cursor) ++ e.repl
        cursor := e.start + e.bytes
        applied := w.applied ++ [e] } h.2
    dsimp only
    rw [greedyWalk, if_neg (by have := h.1; omega), if_neg (by have := h.2.le; omega)]
    exact ⟨by rw [ha, List.append_assoc]; rfl, hd, hp⟩

theorem greedyWalk_inOrder_defer (D : List UInt8) (base H T : Nat) :
    ∀ (L : List Edit) (w : Walk), w.pending = [] → InOrder w.cursor L T →
      let w' := greedyWalk D base H false L w
      ∃ L₁, L = L₁ ++ w'.pending ∧ w'.applied = w.applied ++ L₁ ∧
        w'.discarded = w.discarded ∧
        ∀ e ∈ w'.pending, w'.stop H ≤ e.start ∧ H < e.start + e.bytes
  | [], w, hw, _ => ⟨[], by rw [greedyWalk, hw]; rfl, (List.append_nil _).symm, rfl,
      by rw [greedyWalk, hw]; exact fun _ h => absurd h (List.not_mem_nil _)⟩
  | e :: es, w, hw, h => by
    dsimp only
    rw [greedyWalk, if_neg (by have := h.1; omega)]
    by_cases hH : (H : Int) < e.start + e.bytes
    · rw [if_pos hH, if_neg Bool.false_ne_true]
      refine ⟨[], rfl, (List.append_nil _).symm, rfl, fun x hx => ?_⟩
      show e.start ≤ x.start ∧ H < x.start + x.bytes
      rcases List.mem_cons.mp hx with rfl | hx
      · exact ⟨le_rfl, by omega⟩
      · have := h.2.le_start x hx; omega
    · rw [if_neg hH]
      obtain ⟨L₁, hL, ha, hd, hp⟩ := greedyWalk_inOrder_defer D base H T es
        { w with
          written := w.written ++ (D.drop (w.cursor - base)).take (e.start - w.cursor) ++ e.repl
          cursor := e.start + e.bytes
          applied := w.applied ++ [e] } hw h.2
      exact ⟨e :: L₁, by rw [List.cons_append, ← hL], by rw [ha, List.append_assoc]; rfl, hd, hp⟩

/-! ## One call of `flush_data` -/

theorem flushRequest_le {f : FilterCtx} {nbytes : Int} (hres : f.buffered = f.reader.length)
    (hlen : f.reader.length < 2 ^ 63) (hreq : nbytes = -1 ∨ 0 ≤ nbytes ∧ nbytes ≤ f.buffered) :
    ∃ n : Nat, flushRequest f nbytes = n ∧ n ≤ f.reader.length := by
  unfold flushRequest
  split_ifs with hm
  · exact ⟨f.reader.length, by rw [hres, toInt64_of_range (by omega) (by omega)], le_rfl⟩
  · exact ⟨nbytes.toNat, by omega, by omega⟩

theorem flushData_walk {qsort : List Edit → List Edit} {f : FilterCtx} {nbytes : Int}
    {last : Bool} {n : Nat} (hq : QsortResult f.edits (qsort f.edits))
    (hnear : f.edits.Pairwise StartsNear) (hdistinct : (f.edits.map Edit.start).Nodup)
    (hbuf : f.hasBuffer = true) (hlen : f.bytesDone + f.reader.length < 2 ^ 63)
    (hreq : flushRequest f nbytes = n)
    (hn : n ≤ f.reader.length) (hwrap : ∀ e ∈ f.edits, e.start + e.bytes < 2 ^ 64)
    (hdefer : last = false → ∀ e ∈ f.edits, e.start ≤ f.bytesDone + f.reader.length) :
    let H := f.bytesDone + n
    let w := greedyWalk f.reader f.bytesDone H last
      (f.edits.insertionSort fun a b => a.start ≤ b.start) ⟨[], f.bytesDone, [], [], []⟩
    ∃ g, flushData qsort f nbytes last = some (g, w.status) ∧
      g.output = f.output ++ w.written ++
        (f.reader.drop (w.cursor - f.bytesDone)).take (w.stop H - w.cursor) ∧
      g.bytesDone = w.stop H ∧ g.edits = w.pending.reverse ∧
      g.applied = f.applied ++ w.applied := by
  intro H w
  have ha₀ : Agrees f.reader f.bytesDone f.output f.applied f (flushRequest f nbytes)
      ⟨[], f.bytesDone, [], [], []⟩ H :=
    ⟨rfl, by simp, le_rfl, Nat.le_add_right _ _, by dsimp only [H]; omega, hlen,
      by rw [hreq]; dsimp only [H]; omega, by simp, by simp, hbuf⟩
  obtain ⟨g₁, nb, hfe, hag₁, hed₁⟩ := flushEdits_agrees hq hnear hdistinct ha₀ hwrap hdefer rfl
  obtain ⟨g₂, hcr, ho₂, hd₂, he₂, ha₂⟩ := hag₁.copyRemaining
  exact ⟨g₂.commit last, Option.bind_eq_some.mpr ⟨_, hfe, Option.bind_eq_some.mpr ⟨g₂, hcr, rfl⟩⟩,
    by rw [commit_output, ho₂], by rw [commit_bytesDone, hd₂], by rw [commit_edits, he₂, hed₁],
    by rw [commit_applied, ha₂]⟩

theorem flushData_ahead_stops {qsort : List Edit → List Edit} {f : FilterCtx}
    (hq : (qsort f.edits).Perm f.edits) (hne : f.edits ≠ [])
    (hres : f.buffered = f.reader.length) (hlen : f.bytesDone + f.reader.length < 2 ^ 63)
    (hpast : ∀ e ∈ f.edits, f.bytesDone + f.reader.length < e.start ∧ e.start < 2 ^ 63) :
    flushData qsort f (-1) false = none := by
  have hreq : flushRequest f (-1) = f.reader.length := by
    rw [flushRequest, if_pos rfl, hres, toInt64_of_range (by omega) (by omega)]
  have hp : (considerOrder qsort f.edits).Perm f.edits := (List.reverse_perm _).trans hq
  obtain ⟨e, es, hc⟩ : ∃ e es, considerOrder qsort f.edits = e :: es := by
    cases h : considerOrder qsort f.edits with
    | nil => rw [h] at hp; exact absurd hp.symm.eq_nil hne
    | cons e es => exact ⟨e, es, rfl⟩
  have he := hpast e (hp.subset (hc ▸ List.mem_cons_self e es))
  refine Option.eq_none_iff_forall_not_mem.mpr fun ⟨g, rc⟩ h => ?_
  obtain ⟨⟨f₁, n₁, rc₁⟩, h₁, h⟩ := Option.bind_eq_some.mp h
  obtain ⟨f₂, h₂, -⟩ := Option.bind_eq_some.mp h
  rw [flushEdits, if_neg hne, hc, hreq, editLoop, if_neg (by omega)] at h₁
  split_ifs at h₁ with hw hl
  · simp only [Option.map_some', Option.some.injEq, Prod.mk.injEq] at h₁
    obtain ⟨rfl, rfl, -⟩ := h₁
    rw [toInt64_of_range (by omega) (by omega)] at h₂
    have hbuf := hasBuffer_of_copyRemaining h₂ (by omega)
    rw [copyRemaining_eq hbuf (by omega) (by omega),
      if_neg (by show ¬((e.start - f.bytesDone : Nat) : Int) ≤ f.reader.length; omega)] at h₂
    cases h₂
  · exact absurd rfl hl
  · have hcs : copyToStart f f.reader.length (e.start - f.bytesDone) = none :=
      Option.eq_none_iff_forall_not_mem.mpr fun ⟨_, _⟩ h =>
        absurd (copyToStart_some h (by omega)).1 (by omega)
    have hae : applyEdit f f.reader.length e = none := by simp [applyEdit, hcs]
    rw [hae] at h₁
    simp at h₁

/-! ## `qsortModel` keeps the contract of `qsort` -/

theorem orderedInsert_congr {r s : Edit → Edit → Prop} [DecidableRel r] [DecidableRel s]
    (a : Edit) : ∀ l : List Edit, (∀ b ∈ l, (r a b ↔ s a b)) →
      l.orderedInsert r a = l.orderedInsert s a
  | [], _ => rfl
  | b :: l, h => by
    have hb := h b (List.mem_cons_self _ _)
    by_cases hab : r a b
    · rw [List.orderedInsert, List.orderedInsert, if_pos hab, if_pos (hb.mp hab)]
    · rw [List.orderedInsert, List.orderedInsert, if_neg hab, if_neg (mt hb.mpr hab),
        orderedInsert_congr a l fun c hc => h c (List.mem_cons_of_mem _ hc)]

theorem insertionSort_congr {r s : Edit → Edit → Prop} [DecidableRel r] [DecidableRel s] :
    ∀ l : List Edit, (∀ a ∈ l, ∀ b ∈ l, (r a b ↔ s a b)) → l.insertionSort r = l.insertionSort s
  | [], _ => rfl
  | a :: l, h => by
    rw [List.insertionSort, List.insertionSort, insertionSort_congr l fun x hx y hy =>
      h x (List.mem_cons_of_mem _ hx) y (List.mem_cons_of_mem _ hy)]
    exact orderedInsert_congr a _ fun b hb => h a (List.mem_cons_self _ _) b
      (List.mem_cons_of_mem _ ((List.perm_insertionSort s l).subset hb))

theorem qsortModel_result {E : List Edit} (hnear : E.Pairwise StartsNear) :
    QsortResult E (qsortModel E) := by
  have hge : ∀ a ∈ E, ∀ b ∈ E, (qcompare a b ≤ 0 ↔ b.start ≤ a.start) := fun a ha b hb => by
    rw [qcompare_of_pairwise_near hnear a ha b hb]; omega
  have : IsTotal Edit fun a b => b.start ≤ a.start := ⟨fun a b => le_total b.start a.start⟩
  have : IsTrans Edit fun a b => b.start ≤ a.start := ⟨fun _ _ _ h₁ h₂ => h₂.trans h₁⟩
  have hp := List.perm_insertionSort (fun a b : Edit => b.start ≤ a.start) E
  refine ⟨List.perm_insertionSort _ _, ?_⟩
  rw [qsortModel, insertionSort_congr E hge]
  exact (List.sorted_insertionSort _ E).imp_of_mem fun ha hb hab =>
    (hge _ (hp.subset ha) _ (hp.subset hb)).mpr hab

end IronBee.Filter
