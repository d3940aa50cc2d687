import IronBee.CTypes
import Mathlib.Data.List.Sort
import Mathlib.Data.List.Pairwise

/-! # Stream edits and their order

An `edit_t` replaces `bytes` stream bytes from the absolute offset `start` by the string
`repl`. `flush_data` sorts the pending edits with `qsort` and `qcompare` into descending
order of `start` and then pops them from the last index, so that they are considered in
ascending order. `qcompare` returns the `size_t` difference of the two starts as an `int`,
which keeps its sign only while the starts are less than `2^31` apart.
-/

namespace IronBee.Filter

/-- An `edit_t`. The two `size_t` fields carry their range; `repl_len` is `repl.length`. -/
structure Edit where
  start : Nat
  bytes : Nat
  repl : List UInt8
  start_lt : start < 2 ^ 64
  bytes_lt : bytes < 2 ^ 64
  deriving DecidableEq

def Edit.make (start bytes : Nat) (repl : List UInt8) : Edit :=
  ⟨toSize start, toSize bytes, repl, toSize_lt _, toSize_lt _⟩

/-- `qcompare`: `b->start - a->start`, a `size_t` difference returned as `int`. -/
def qcompare (a b : Edit) : Int :=
  toCInt (toSize ((b.start : Int) - a.start))

def StartsNear (a b : Edit) : Prop :=
  a.start < b.start + 2 ^ 31 ∧ b.start < a.start + 2 ^ 31

instance (a b : Edit) : Decidable (StartsNear a b) :=
  inferInstanceAs (Decidable (_ ∧ _))

theorem startsNear_symm {a b : Edit} (h : StartsNear a b) : StartsNear b a :=
  ⟨h.2, h.1⟩

theorem qcompare_of_near {a b : Edit} (h : StartsNear a b) :
    qcompare a b = (b.start : Int) - a.start := by
  have ha := a.start_lt
  have hb := b.start_lt
  unfold qcompare toCInt toSize
  unfold StartsNear at h
  omega

/-- What the C library promises of `qsort(..., qcompare)`: a permutation on which `qcompare` is
non-positive for every pair in order. -/
def QsortResult (edits sorted : List Edit) : Prop :=
  sorted.Perm edits ∧ sorted.Sorted (fun a b => qcompare a b ≤ 0)

instance (edits sorted : List Edit) : Decidable (QsortResult edits sorted) :=
  inferInstanceAs (Decidable (_ ∧ List.Pairwise _ _))

/-- One `qsort` the C library may be: insertion by `qcompare`, a stable sort. -/
def qsortModel (edits : List Edit) : List Edit :=
  edits.insertionSort (fun a b => qcompare a b ≤ 0)

/-- The order in which `flush_data` considers the pending edits: the array `qsort` left,
from its last index down. -/
def considerOrder (qsort : List Edit → List Edit) (edits : List Edit) : List Edit :=
  (qsort edits).reverse

theorem considerOrder_perm {qsort : List Edit → List Edit} {edits : List Edit}
    (hq : QsortResult edits (qsort edits)) : (considerOrder qsort edits).Perm edits :=
  (List.reverse_perm _).trans hq.1

theorem qcompare_of_pairwise_near {edits : List Edit} (hnear : edits.Pairwise StartsNear) :
    ∀ a ∈ edits, ∀ b ∈ edits, qcompare a b = (b.start : Int) - a.start := fun a ha b hb =>
  qcompare_of_near (hnear.forall_of_forall (fun _ _ => startsNear_symm)
    (fun _ _ => ⟨by omega, by omega⟩) ha hb)

theorem considerOrder_sorted {qsort : List Edit → List Edit} {edits : List Edit}
    (hq : QsortResult edits (qsort edits)) (hnear : edits.Pairwise StartsNear) :
    (considerOrder qsort edits).Sorted (fun a b => a.start ≤ b.start) := by
  have hmem : ∀ x ∈ qsort edits, x ∈ edits := fun x hx => hq.1.subset hx
  unfold considerOrder
  rw [List.Sorted, List.pairwise_reverse]
  refine hq.2.imp_of_mem (fun {a b} ha hb hab => ?_)
  have := qcompare_of_pairwise_near hnear a (hmem a ha) b (hmem b hb)
  omega

/-- On starts pairwise near, every result `qsort` may return is considered in ascending order of
`start`. -/
theorem considerOrder_ascending (qsort : List Edit → List Edit) (edits : List Edit)
    (hq : QsortResult edits (qsort edits)) (hnear : edits.Pairwise StartsNear) :
    (∀ a ∈ edits, ∀ b ∈ edits, (qcompare a b).sign = ((b.start : Int) - a.start).sign) ∧
      (considerOrder qsort edits).Perm edits ∧
      (considerOrder qsort edits).Sorted (fun a b => a.start ≤ b.start) := by
  refine ⟨fun a ha b hb => ?_, considerOrder_perm hq, considerOrder_sorted hq hnear⟩
  rw [qcompare_of_pairwise_near hnear a ha b hb]

theorem considerOrder_ascending_two :
    QsortResult [Edit.make 5 0 [], Edit.make 2 1 []] [Edit.make 5 0 [], Edit.make 2 1 []] ∧
      [Edit.make 5 0 [], Edit.make 2 1 []].Pairwise StartsNear ∧
      (considerOrder id [Edit.make 5 0 [], Edit.make 2 1 []]).Sorted
        (fun a b => a.start ≤ b.start) :=
  ⟨by decide, by decide,
    (considerOrder_ascending id _ (by decide) (by decide)).2.2⟩

theorem qcompare_sign_fails :
    ¬ (∀ a b : Edit, (qcompare a b).sign = ((b.start : Int) - a.start).sign) ∧
      ∃ a b : Edit, a.start = b.start ∧ a ≠ b ∧ QsortResult [a, b] [a, b] ∧
        considerOrder id [a, b] = [b, a] := by
  refine ⟨fun h => ?_, Edit.make 3 0 [1], Edit.make 3 0 [2], by decide⟩
  have := h (Edit.make 0 0 []) (Edit.make (2 ^ 32) 0 [])
  revert this
  decide

end IronBee.Filter
