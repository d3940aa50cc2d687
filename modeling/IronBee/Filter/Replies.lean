import IronBee.Filter.Body

/-! # What the input VIO's continuation is told

Every call of `process_data` that finds a buffer on the input VIO sends one event back to
the VIO's continuation: `TS_EVENT_VCONN_WRITE_READY` while `TSVIONTodoGet` stays above zero,
and `TS_EVENT_VCONN_WRITE_COMPLETE` on the call that takes it to zero and on every call after.
Which one depends on the byte counts alone, not on the buffering mode, the edits or what the
flushes do, so the conversation with the upstream is the same in every mode: over a body,
one `TS_EVENT_VCONN_WRITE_READY` for each call before the last, then
`TS_EVENT_VCONN_WRITE_COMPLETE`. `data_event` sends no other such event.
-/

namespace IronBee.Filter

def EventAction.replyOf : EventAction → Option Reply
  | .reply r => some r
  | _ => none

/-- The event one call of `process_data` sends back, and `TSVIONTodoGet` after the call. -/
def vioStep (todo : Int) : Option (List Block) → Option Reply × Int
  | none => (none, todo)
  | some blocks =>
    if todo = 0 then (some .writeComplete, todo)
    else
      let todo' := todo - blockBytes blocks
      (some (if todo' = 0 then .writeComplete else .writeReady), todo')

/-- The events a sequence of `process_data` calls sends back, from a `TSVIONTodoGet` of
`todo`. -/
def vioReplies : Int → List (Bool × Option (List Block)) → List Reply
  | _, [] => []
  | todo, (_, input) :: evs =>
    (vioStep todo input).1.toList ++ vioReplies (vioStep todo input).2 evs

/-! ## One call at a time -/

theorem chunkLoop_todo {qsort : List Edit → List Edit} :
    ∀ {bs : List Block} {s s' : Stream}, chunkLoop qsort bs s = some s' →
      s'.todo = s.todo - blockBytes bs
  | [], s, s', h => by cases h; rw [blockBytes]; omega
  | b :: bs, s, s', h => by
    obtain ⟨s₁, h₁, h⟩ := Option.bind_eq_some.mp h
    obtain ⟨⟨f, rc⟩, -, rfl⟩ := Option.map_eq_some'.mp h₁
    rw [chunkLoop_todo h, blockBytes]
    dsimp only
    omega

theorem finishStream_reply {qsort : List Edit → List Edit} {s s' : Stream} {r : Reply}
    (h : finishStream qsort s = some (s', r)) : s'.todo = s.todo ∧ r = .writeComplete := by
  obtain ⟨⟨f, rc⟩, -, h⟩ := Option.map_eq_some'.mp h
  cases h
  exact ⟨rfl, rfl⟩

theorem processData_vioStep {qsort : List Edit → List Edit} {dir : Direction}
    {tx : Option TxView} {httpError : Bool} {input : Option (List Block)} {s s' : Stream}
    {r : Option Reply} (h : processData qsort dir tx httpError input s = some (s', r)) :
    (r, s'.todo) = vioStep s.todo input := by
  have ht₀ : (if httpError then { s with fctx := s.fctx.toDiscard } else s).todo = s.todo := by
    split_ifs <;> rfl
  unfold processData at h
  generalize (if httpError then { s with fctx := s.fctx.toDiscard } else s) = s₀ at h ht₀
  rcases input with _ | blocks
  · dsimp only at h
    split_ifs at h
    · obtain ⟨⟨f, rc⟩, -, h⟩ := Option.map_eq_some'.mp h
      cases h
      rw [vioStep, ← ht₀]
    · cases h
      rw [vioStep, ← ht₀]
  · dsimp only at h
    have ht := openOutput_todo dir tx httpError s₀
    generalize openOutput dir tx httpError s₀ = s₁ at h ht
    rw [vioStep, ← ht₀, ← ht]
    split_ifs at h with hz
    · obtain ⟨⟨s₂, r₂⟩, h₂, h⟩ := Option.map_eq_some'.mp h
      cases h
      obtain ⟨ht₂, rfl⟩ := finishStream_reply h₂
      rw [if_pos hz, ht₂]
    · obtain ⟨s₂, h₂, h⟩ := Option.bind_eq_some.mp h
      have ht₂ := chunkLoop_todo h₂
      rw [if_neg hz]
      dsimp only
      rw [← ht₂]
      split_ifs at h with hz₂
      · obtain ⟨⟨s₃, r₃⟩, h₃, h⟩ := Option.map_eq_some'.mp h
        cases h
        obtain ⟨ht₃, rfl⟩ := finishStream_reply h₃
        rw [if_pos hz₂, ht₃]
      · cases h
        rw [if_neg hz₂]

theorem endNotifications_replies (v : EndView) :
    (endNotifications v).filterMap EventAction.replyOf = [] := by
  unfold endNotifications
  split_ifs <;> rfl

theorem dataEvent_replies {qsort : List Edit → List Edit} {dir : Direction}
    {tx : Option TxView} {d : Delivery} {s s' : Stream} {acts : List EventAction}
    (h : dataEvent qsort dir tx d s = some (s', acts)) :
    vioReplies s.todo (processCalls [d]) = acts.filterMap EventAction.replyOf ∧
      s'.todo = (if d.reachesProcessData then (vioStep s.todo d.input).2 else s.todo) := by
  cases hr : d.reachesProcessData
  · obtain ⟨a, ha⟩ := dataEvent_of_not_reaches qsort dir tx s hr
    rw [ha] at h
    cases h
    refine ⟨?_, rfl⟩
    rw [processCalls, processCalls, if_neg (by simp [hr]), vioReplies]
    unfold dataEvent at ha
    split_ifs at ha with hc
    · cases ha; rfl
    · cases he : d.event <;> rw [he] at ha
      · cases ha; rfl
      · cases ha; exact (endNotifications_replies _).symm
      all_goals simp [Delivery.reachesProcessData, hc, he] at hr
  · rw [dataEvent_of_reaches s hr] at h
    obtain ⟨⟨s₁, r⟩, hp, h⟩ := Option.map_eq_some'.mp h
    cases h
    have hv := processData_vioStep hp
    rw [processCalls, processCalls, if_pos hr, vioReplies, vioReplies, ← hv]
    refine ⟨?_, rfl⟩
    cases r <;> rfl

theorem dataEvents_replies {qsort : List Edit → List Edit} {dir : Direction}
    {tx : Option TxView} :
    ∀ {ds : List Delivery} {s s' : Stream} {acts : List EventAction},
      dataEvents qsort dir tx ds s = some (s', acts) →
      acts.filterMap EventAction.replyOf = vioReplies s.todo (processCalls ds)
  | [], s, s', acts, h => by cases h; rfl
  | d :: ds, s, s', acts, h => by
    obtain ⟨⟨s₁, a₁⟩, h₁, h⟩ := Option.bind_eq_some.mp h
    obtain ⟨⟨s₂, a₂⟩, h₂, h⟩ := Option.map_eq_some'.mp h
    cases h
    obtain ⟨hv, ht⟩ := dataEvent_replies h₁
    rw [List.filterMap_append, dataEvents_replies h₂, ← hv, ht, processCalls, processCalls,
      processCalls]
    split_ifs <;> simp only [vioReplies, List.nil_append, List.append_assoc]

/-! ## Over a body -/

theorem vioReplies_zero : ∀ evs : List (Bool × Option (List Block)),
    vioReplies 0 evs = evs.filterMap fun ev => ev.2.map fun _ => .writeComplete
  | [] => rfl
  | (_, none) :: evs => vioReplies_zero evs
  | (_, some _) :: evs => by
    rw [vioReplies, vioStep, if_pos rfl, vioReplies_zero evs]
    rfl

theorem vioReplies_bodyEvents (last : List Block) (hlast : 0 < blockBytes last) :
    ∀ (bss : List (List Block)) (evs : List (Bool × Option (List Block))),
      vioReplies (eventBytes (bodyEvents (bss ++ [last]))) (bodyEvents (bss ++ [last]) ++ evs) =
        List.replicate bss.length .writeReady ++ .writeComplete :: vioReplies 0 evs
  | [], evs => by
    have hb : eventBytes (bodyEvents [last]) = blockBytes last := Nat.add_zero _
    rw [List.nil_append, hb]
    simp only [bodyEvents, List.cons_append, List.nil_append, vioReplies, vioStep]
    rw [if_neg (by omega), if_pos (by omega), sub_self]
    rfl
  | bs :: bss, evs => by
    have hrest := blockBytes_le_eventBytes last bss
    have ht : eventBytes (bodyEvents ((bs :: bss) ++ [last])) =
        blockBytes bs + eventBytes (bodyEvents (bss ++ [last])) := rfl
    have hsub : ((blockBytes bs + eventBytes (bodyEvents (bss ++ [last])) : Nat) : Int) -
        blockBytes bs = eventBytes (bodyEvents (bss ++ [last])) := by omega
    rw [ht, List.cons_append, bodyEvents, List.cons_append, vioReplies, vioStep]
    dsimp only
    rw [if_neg (by omega), if_neg (by omega), hsub, vioReplies_bodyEvents last hlast bss evs]
    rfl

/-- The events sent back to the input VIO's continuation follow the body's byte counts alone. -/
theorem directionEvents_replies_body (qsort : List Edit → List Edit) (dir : Direction)
    (t : TxView) (s : Stream) (b : Body) (ds ds' : List Delivery)
    (hcalls : processCalls ds = b.events) (htodo : s.todo = eventBytes b.events) :
    match directionEvents dir qsort (some t) (ds ++ ds') s with
    | some (_, acts) => acts.filterMap EventAction.replyOf =
        List.replicate b.early.length .writeReady ++
          .writeComplete :: (processCalls ds').filterMap fun ev => ev.2.map fun _ => .writeComplete
    | none => True := by
  rw [directionEvents_some]
  split
  · rename_i acts h
    rw [dataEvents_replies h, processCalls_append, hcalls, htodo, Body.events,
      vioReplies_bodyEvents b.last b.last_pos, vioReplies_zero]
  · trivial

theorem directionEvents_replies_body_two_calls :
    ∃ s' acts, directionEvents .req qsortModel (some TxView.noBuffering)
        ([⟨false, .vconnWriteReady, ⟨false, false, false, false, false⟩, false,
            some [⟨[1, 2], [], .ok⟩]⟩,
          ⟨false, .vconnWriteReady, ⟨false, false, false, false, false⟩, false,
            some [⟨[3], [], .ok⟩]⟩] ++
         [⟨false, .vconnWriteComplete, ⟨false, false, false, false, false⟩, false, none⟩,
          ⟨false, .vconnWriteReady, ⟨false, false, false, false, false⟩, false, some []⟩])
        ⟨FilterCtx.zeroed .nobuf 0, false, 3, []⟩ = some (s', acts) ∧
      acts.filterMap EventAction.replyOf = [.writeReady, .writeComplete, .writeComplete] :=
  ⟨_, _, rfl, directionEvents_replies_body qsortModel .req TxView.noBuffering
    ⟨FilterCtx.zeroed .nobuf 0, false, 3, []⟩ ⟨[[⟨[1, 2], [], .ok⟩]], [⟨[3], [], .ok⟩], Nat.one_pos⟩
    [⟨false, .vconnWriteReady, ⟨false, false, false, false, false⟩, false,
      some [⟨[1, 2], [], .ok⟩]⟩,
     ⟨false, .vconnWriteReady, ⟨false, false, false, false, false⟩, false,
      some [⟨[3], [], .ok⟩]⟩]
    [⟨false, .vconnWriteComplete, ⟨false, false, false, false, false⟩, false, none⟩,
     ⟨false, .vconnWriteReady, ⟨false, false, false, false, false⟩, false, some []⟩]
    (by rfl) (by rfl)⟩

end IronBee.Filter
