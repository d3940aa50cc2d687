import IronBee.Filter.Reference

/-! # `flush_data` refines the greedy reference

On the edits the code handles as intended (starts distinct and pairwise less than `2^31`
apart, ends that do not wrap past `2^64`, and on a call that is not the last, starts
within the resident bytes), a call of `flush_data` writes exactly what the greedy walk
writes followed by the resident bytes up to where it stops, keeps exactly the edits the
walk leaves pending, and returns the status the walk calls for.

The proof runs the edit loop and the walk side by side over the same list: `Agrees` is the
simulation relation, kept by every turn. The sort is dealt with apart: with distinct starts
the order `flush_data` considers the edits in is the ascending one the walk uses.
-/

namespace IronBee.Filter

def Walk.stop (H : Nat) (w : Walk) : Nat :=
  match w.pending with
  | e :: _ => e.start
  | [] => H

def Walk.status (w : Walk) : Status :=
  if w.pending ≠ [] then .eagain else if w.discarded ≠ [] then .ebadval else .ok

/-- The edit loop at `f`, with `nbytes` left, agrees with the greedy walk at `w` over the resident
bytes `D` from offset `base`. -/
structure Agrees (D : List UInt8) (base : Nat) (out0 : List UInt8) (app0 : List Edit)
    (f : FilterCtx) (nbytes : Int) (w : Walk) (stop : Nat) : Prop where
  cursor : f.bytesDone = w.cursor
  reader : f.reader = D.drop (w.cursor - base)
  base_le : base ≤ w.cursor
  cursor_le : w.cursor ≤ stop
  stop_le : stop ≤ base + D.length
  small : base + D.length < 2 ^ 63
  nbytes_eq : nbytes = (stop : Int) - w.cursor
  output : f.output = out0 ++ w.written
  applied : f.applied = app0 ++ w.applied
  buffer : f.hasBuffer = true

/-! ## The edit loop simulates the walk -/

section Simulation

variable {D : List UInt8} {base : Nat} {out0 : List UInt8} {app0 : List Edit}

theorem Agrees.discard {f : FilterCtx} {nbytes : Int} {w : Walk} {stop : Nat}
    (ha : Agrees D base out0 app0 f nbytes w stop) (e : Edit) :
    Agrees D base out0 app0 f nbytes { w with discarded := w.discarded ++ [e] } stop :=
  ⟨ha.1, ha.2, ha.3, ha.4, ha.5, ha.6, ha.7, ha.8, ha.9, ha.10⟩

theorem Agrees.defer {f : FilterCtx} {nbytes : Int} {w : Walk} {H : Nat}
    (ha : Agrees D base out0 app0 f nbytes w H) {e : Edit} {es : List Edit}
    (hstart : w.cursor ≤ e.start) (hs : e.start ≤ base + D.length) :
    Agrees D base out0 app0 f (toInt64 ((e.start - w.cursor : Nat) : Int))
      { w with pending := e :: es } e.start := by
  have hsm := ha.small
  refine ⟨ha.cursor, ha.reader, ha.base_le, hstart, hs, hsm, ?_, ha.output, ha.applied,
    ha.buffer⟩
  show toInt64 ((e.start - w.cursor : Nat) : Int) = (e.start : Int) - w.cursor
  rw [toInt64_of_range] <;> omega

theorem Agrees.apply {f : FilterCtx} {nbytes : Int} {w : Walk} {H : Nat}
    (ha : Agrees D base out0 app0 f nbytes w H) {e : Edit} (hstart : w.cursor ≤ e.start)
    (hend : e.start + e.bytes ≤ H) :
    ∃ g, applyEdit f nbytes e = some (g, (H : Int) - (e.start + e.bytes)) ∧
      Agrees D base out0 app0 g ((H : Int) - (e.start + e.bytes))
        { w with
          written := w.written ++ (D.drop (w.cursor - base)).take (e.start - w.cursor) ++ e.repl
          cursor := e.start + e.bytes
          applied := w.applied ++ [e] } H := by
  have hc := ha.cursor
  have hr := ha.reader
  have hb := ha.base_le
  have hs := ha.stop_le
  have hsm := ha.small
  have hlen : f.reader.length = D.length - (w.cursor - base) := by rw [hr, List.length_drop]
  obtain ⟨f₁, hcopy, hr₁, ho₁, hd₁, hap₁, hb₁⟩ := copyToStart_moves nbytes (e.start - f.bytesDone)
    (fun _ => ha.buffer) (by omega) (by omega) (by omega) (by rw [ha.nbytes_eq]; omega)
    (by rw [ha.nbytes_eq]; omega)
  obtain ⟨f₂, hrep, hr₂, ho₂, hd₂, hap₂, hb₂⟩ :=
    replace_moves (hb₁.trans ha.buffer) e (by omega) (by omega)
  have hn : toInt64 (nbytes - ↑(e.start - f.bytesDone) - e.bytes) =
      (H : Int) - (e.start + e.bytes) := by
    rw [ha.nbytes_eq, toInt64_of_range] <;> omega
  refine ⟨f₂, Option.bind_eq_some.mpr ⟨_, hcopy,
      Option.bind_eq_some.mpr ⟨f₂, hrep, congrArg (fun x => some (f₂, x)) hn⟩⟩,
    ?_, ?_, by dsimp only; omega, by dsimp only; omega, hs, hsm, by dsimp only; push_cast; omega,
    ?_, ?_, by rw [hb₂, hb₁, ha.buffer]⟩
  · rw [hd₂, hd₁]; dsimp only; omega
  · rw [hr₂, hr₁, hr, List.drop_drop, List.drop_drop]
    exact congrArg (fun n => D.drop n) (by dsimp only; omega)
  · rw [ho₂, ho₁, ha.output, hr, hc, List.append_assoc, List.append_assoc, List.append_assoc]
  · rw [hap₂, hap₁, ha.applied, List.append_assoc]

theorem editLoop_agrees {H : Nat} {last : Bool} :
    ∀ (L : List Edit) (f : FilterCtx) (nbytes : Int) (w : Walk),
      Agrees D base out0 app0 f nbytes w H → w.pending = [] →
      (∀ e ∈ L, e.start + e.bytes < 2 ^ 64) →
      (last = false → ∀ e ∈ L, e.start ≤ base + D.length) →
      ∃ g nb, editLoop last L f nbytes w.status =
          some (g, nb, (greedyWalk D base H last L w).status,
            (greedyWalk D base H last L w).pending) ∧
        Agrees D base out0 app0 g nb (greedyWalk D base H last L w)
          ((greedyWalk D base H last L w).stop H)
  | [], f, nbytes, w, ha, hw, _, _ => by
    refine ⟨f, nbytes, by simp [editLoop, greedyWalk, hw], ?_⟩
    simpa [greedyWalk, Walk.stop, hw] using ha
  | e :: es, f, nbytes, w, ha, hw, hwrap, hdefer => by
    have hwrap' : ∀ e ∈ es, e.start + e.bytes < 2 ^ 64 :=
      fun e he => hwrap e (List.mem_cons_of_mem _ he)
    have hdefer' : last = false → ∀ e ∈ es, e.start ≤ base + D.length :=
      fun hl e he => hdefer hl e (List.mem_cons_of_mem _ he)
    have he := hwrap e (List.mem_cons_self _ _)
    have hc := ha.cursor
    have hsm := ha.small
    have hsl := ha.stop_le
    have hwin : toSize (w.cursor + nbytes) < toSize (e.start + e.bytes) ↔
        (H : Int) < e.start + e.bytes := by
      have h1 : w.cursor + nbytes = (H : Int) := by rw [ha.nbytes_eq]; omega
      rw [h1, toSize_natCast (by omega), toSize_add he]
      omega
    have hdiscard : (({ w with discarded := w.discarded ++ [e] } : Walk)).status = .ebadval := by
      simp [Walk.status, hw]
    simp only [editLoop, greedyWalk, hc]
    by_cases h1 : e.start < w.cursor
    · rw [if_pos h1, if_pos h1, ← hdiscard]
      exact editLoop_agrees es f nbytes _ (ha.discard e) hw hwrap' hdefer'
    rw [if_neg h1, if_neg h1]
    by_cases h2 : (H : Int) < e.start + e.bytes
    · rw [if_pos (hwin.mpr h2), if_pos h2]
      cases last with
      | false =>
        rw [Bool.not_false, if_pos rfl, if_neg Bool.false_ne_true]
        exact ⟨f, _, rfl, ha.defer (Nat.le_of_not_lt h1) (hdefer rfl e (List.mem_cons_self _ _))⟩
      | true =>
        rw [if_neg (by decide), if_pos rfl, ← hdiscard]
        exact editLoop_agrees es f nbytes _ (ha.discard e) hw hwrap' hdefer'
    · rw [if_neg (mt hwin.mp h2), if_neg h2]
      obtain ⟨g, hg, ha'⟩ := ha.apply (Nat.le_of_not_lt h1) (by omega)
      rw [hg, Option.some_bind]
      exact editLoop_agrees es g _ _ ha' hw hwrap' hdefer'

theorem Agrees.copyRemaining {f : FilterCtx} {nbytes : Int} {w : Walk} {stop : Nat}
    (ha : Agrees D base out0 app0 f nbytes w stop) :
    ∃ g, copyRemaining f nbytes = some g ∧
      g.output = out0 ++ w.written ++ (D.drop (w.cursor - base)).take (stop - w.cursor) ∧
      g.bytesDone = stop ∧ g.edits = f.edits ∧ g.applied = app0 ++ w.applied := by
  have hc := ha.cursor_le
  have hs := ha.stop_le
  have hsm := ha.small
  have hb := ha.base_le
  obtain ⟨g, hcr, ho, hd, he, hap, -⟩ := copyRemaining_moves (f := f) (n := stop - w.cursor)
    (fun _ => ha.buffer) (by rw [ha.reader, List.length_drop]; omega) (by omega) (by rw [ha.cursor]; omega)
  have hn : nbytes = ((stop - w.cursor : Nat) : Int) := by rw [ha.nbytes_eq]; omega
  exact ⟨g, hn ▸ hcr, by rw [ho, ha.output, ha.reader], by rw [hd, ha.cursor]; omega, he,
    by rw [hap, ha.applied]⟩

end Simulation

/-! ## The order of the edits -/

def StartLe (a b : Edit) : Prop := a.start ≤ b.start

instance : DecidableRel StartLe := fun a b => inferInstanceAs (Decidable (a.start ≤ b.start))

instance : IsTotal Edit StartLe := ⟨fun a b => le_total a.start b.start⟩

instance : IsTrans Edit StartLe := ⟨fun _ _ _ => le_trans⟩

theorem sorted_lt_of_nodup {l : List Edit} (hs : l.Sorted fun a b => a.start ≤ b.start)
    (hd : (l.map Edit.start).Nodup) : l.Sorted fun a b => a.start < b.start :=
  (hs.and (List.pairwise_map.mp hd)).imp fun h => lt_of_le_of_ne h.1 h.2

theorem considerOrder_eq_insertionSort {qsort : List Edit → List Edit} {edits : List Edit}
    (hq : QsortResult edits (qsort edits)) (hnear : edits.Pairwise StartsNear)
    (hdistinct : (edits.map Edit.start).Nodup) :
    considerOrder qsort edits = edits.insertionSort fun a b => a.start ≤ b.start := by
  have hanti : IsAntisymm Edit fun a b => a.start < b.start :=
    ⟨fun _ _ h₁ h₂ => absurd (h₁.trans h₂) (lt_irrefl _)⟩
  have hp₁ := considerOrder_perm hq
  have hp₂ := List.perm_insertionSort StartLe edits
  refine List.eq_of_perm_of_sorted (hp₁.trans hp₂.symm)
    (sorted_lt_of_nodup (considerOrder_sorted hq hnear) ((hp₁.map _).nodup_iff.mpr hdistinct))
    (sorted_lt_of_nodup (List.sorted_insertionSort StartLe edits)
      ((hp₂.map _).nodup_iff.mpr hdistinct))

/-! ## One call of `flush_data` -/

theorem flushEdits_agrees {qsort : List Edit → List Edit} {f : FilterCtx} {nbytes : Int}
    {last : Bool} {H : Nat} {w : Walk} (hq : QsortResult f.edits (qsort f.edits))
    (hnear : f.edits.Pairwise StartsNear) (hdistinct : (f.edits.map Edit.start).Nodup)
    (ha : Agrees f.reader f.bytesDone f.output f.applied f nbytes ⟨[], f.bytesDone, [], [], []⟩ H)
    (hwrap : ∀ e ∈ f.edits, e.start + e.bytes < 2 ^ 64)
    (hdefer : last = false → ∀ e ∈ f.edits, e.start ≤ f.bytesDone + f.reader.length)
    (hw : w = greedyWalk f.reader f.bytesDone H last
      (f.edits.insertionSort fun a b => a.start ≤ b.start) ⟨[], f.bytesDone, [], [], []⟩) :
    ∃ g nb, flushEdits qsort f nbytes last = some (g, nb, w.status) ∧
      Agrees f.reader f.bytesDone f.output f.applied g nb w (w.stop H) ∧
      g.edits = w.pending.reverse := by
  have hsort : ∀ e ∈ f.edits.insertionSort (fun a b => a.start ≤ b.start), e ∈ f.edits :=
    fun e he => (List.perm_insertionSort _ _).subset he
  obtain ⟨g, nb, hloop, hag⟩ := editLoop_agrees _ f nbytes _ ha rfl
    (fun e he => hwrap e (hsort e he)) (fun hl e he => hdefer hl e (hsort e he))
  rw [← hw] at hloop hag
  replace hloop : editLoop last (f.edits.insertionSort fun a b => a.start ≤ b.start) f
      nbytes .ok = some (g, nb, w.status, w.pending) := hloop
  unfold flushEdits
  split_ifs with he
  · simp only [he, List.insertionSort, editLoop, Option.some.injEq, Prod.mk.injEq] at hloop
    obtain ⟨rfl, rfl, hs, hp⟩ := hloop
    exact ⟨f, nbytes, by rw [← hs], hag, by rw [he, ← hp]; rfl⟩
  · rw [considerOrder_eq_insertionSort hq hnear hdistinct, hloop]
    exact ⟨_, nb, rfl, ⟨hag.1, hag.2, hag.3, hag.4, hag.5, hag.6, hag.7, hag.8, hag.9, hag.10⟩, rfl⟩

end IronBee.Filter
