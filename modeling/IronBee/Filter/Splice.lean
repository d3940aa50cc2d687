import IronBee.Filter.Stable

/-! # The stream with edits applied

What the filter is meant to emit for a body `S`: up to offset `p`, the bytes of `S` with
each applied edit's deleted range replaced by its replacement, the edits taken in the order
they were applied. The order is a chain: each edit starts at or after the end of the one
before, and the last ends by `p`.
-/

namespace IronBee.Filter

/-- The stream `S` from offset `pos` to `p` with the edits `es` applied in turn, each edit's deleted
bytes replaced by its replacement. -/
def splice (S : List UInt8) : Nat → List Edit → Nat → List UInt8
  | pos, [], p => (S.drop pos).take (p - pos)
  | pos, e :: es, p =>
    (S.drop pos).take (e.start - pos) ++ e.repl ++ splice S (e.start + e.bytes) es p

/-- The edits `es` follow one another from offset `pos`, none starting before the end of
the one before, and the last ends by offset `p`. -/
def InOrder : Nat → List Edit → Nat → Prop
  | pos, [], p => pos ≤ p
  | pos, e :: es, p => pos ≤ e.start ∧ InOrder (e.start + e.bytes) es p

instance InOrder.decidable : ∀ pos es p, Decidable (InOrder pos es p)
  | pos, [], p => inferInstanceAs (Decidable (pos ≤ p))
  | pos, e :: es, p =>
    have := InOrder.decidable (e.start + e.bytes) es p
    inferInstanceAs (Decidable (pos ≤ e.start ∧ InOrder (e.start + e.bytes) es p))

namespace InOrder

theorem le : ∀ {pos : Nat} {es : List Edit} {p : Nat}, InOrder pos es p → pos ≤ p
  | _, [], _, h => h
  | _, _ :: _, _, h => by have := le h.2; have := h.1; omega

theorem mono : ∀ {pos : Nat} {es : List Edit} {p q : Nat}, InOrder pos es p → p ≤ q →
    InOrder pos es q
  | _, [], _, _, h, hq => Nat.le_trans h hq
  | _, _ :: _, _, _, h, hq => ⟨h.1, mono h.2 hq⟩

theorem snoc (e : Edit) : ∀ {pos : Nat} {es : List Edit} {p : Nat}, InOrder pos es p →
    e.start = p → InOrder pos (es ++ [e]) (e.start + e.bytes)
  | _, [], _, h, hs => ⟨hs ▸ h, le_rfl⟩
  | _, _ :: _, _, h, hs => ⟨h.1, snoc e h.2 hs⟩

theorem end_le : ∀ {pos : Nat} {es : List Edit} {p : Nat}, InOrder pos es p →
    ∀ e ∈ es, e.start + e.bytes ≤ p
  | _, [], _, _, _, he => absurd he (List.not_mem_nil _)
  | _, _ :: _, _, h, x, hx => by
    rcases List.mem_cons.mp hx with rfl | hx
    · exact h.2.le
    · exact end_le h.2 x hx

theorem ends_of_subperm {Es X : List Edit} {p : Nat}
    (h : InOrder 0 (Es.insertionSort fun a b => a.start ≤ b.start) p) (hp : p < 2 ^ 63)
    (hX : List.Subperm X Es) : ∀ e ∈ X, e.start + e.bytes < 2 ^ 64 := fun e he => by
  have := h.end_le e ((List.perm_insertionSort _ _).symm.subset (hX.subset he))
  omega

end InOrder

@[simp] theorem splice_nil (S : List UInt8) (p : Nat) : splice S 0 [] p = S.take p := by
  simp [splice]

theorem splice_extend (S : List UInt8) (n : Nat) : ∀ {pos : Nat} {es : List Edit} {p : Nat},
    InOrder pos es p → splice S pos es (p + n) = splice S pos es p ++ (S.drop p).take n
  | pos, [], p, h => by
    have h' : pos ≤ p := h
    rw [splice, splice, show p + n - pos = p - pos + n by omega, List.take_add, List.drop_drop,
      Nat.add_sub_cancel' h']
  | _, _ :: _, _, h => by simp only [splice, splice_extend S n h.2, List.append_assoc]

theorem splice_snoc (S : List UInt8) (e : Edit) : ∀ {pos : Nat} {es : List Edit} {p : Nat},
    InOrder pos es p → e.start = p →
      splice S pos (es ++ [e]) (e.start + e.bytes) = splice S pos es p ++ e.repl
  | _, [], _, _, hs => by simp [splice, hs]
  | _, _ :: _, _, h, hs => by
    rw [List.cons_append, splice, splice, splice_snoc S e h.2 hs]
    simp only [List.append_assoc]

theorem splice_append (S T : List UInt8) : ∀ {pos : Nat} {es : List Edit} {p : Nat},
    InOrder pos es p → p ≤ S.length → splice (S ++ T) pos es p = splice S pos es p
  | _, [], _, h, hp => by
    have h' := h.le
    rw [splice, splice, List.drop_append_of_le_length (by omega),
      List.take_append_of_le_length (by simp; omega)]
  | _, e :: _, _, h, hp => by
    have := h.1
    have := h.2.le
    rw [splice, splice, splice_append S T h.2 hp, List.drop_append_of_le_length (by omega),
      List.take_append_of_le_length (by simp; omega)]

theorem splice_length (S : List UInt8) : ∀ {pos : Nat} {es : List Edit} {p : Nat},
    InOrder pos es p → p ≤ S.length →
      ((splice S pos es p).length : Int) = (p - pos : Nat) + netGrowth es
  | _, [], _, h, hp => by
    have h' := h.le
    simp only [splice, List.length_take, List.length_drop, netGrowth_nil]
    omega
  | _, e :: _, _, h, hp => by
    have h₁ := h.1
    have h₂ := h.2.le
    simp only [splice, List.length_append, List.length_take, List.length_drop, netGrowth]
    push_cast
    rw [splice_length S h.2 hp]
    omega

end IronBee.Filter
