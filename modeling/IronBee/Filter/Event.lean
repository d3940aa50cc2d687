import IronBee.Filter.Process

/-! # `data_event`

A direction's transformation receives Traffic Server's events through `in_data_event` (the
request body) and `out_data_event` (the response body), which hand them to `data_event`
once there is a transaction. After the transformation's VConn is closed every event is
ignored. `TS_EVENT_ERROR` is passed back to the input VIO's continuation;
`TS_EVENT_VCONN_WRITE_COMPLETE` shuts the output down and notifies the engine of the end
of the body, of post-processing and of logging where the transaction's flags say these
are not done yet; every other event runs `process_data`. The direction's state changes only
in `process_data`, so what holds over runs of `process_data` holds over runs of events.
-/

namespace IronBee.Filter

/-- The events `data_event` tells apart. -/
inductive TsEvent where
  | error
  | vconnWriteComplete
  | vconnWriteReady
  | other (code : Nat)
  deriving DecidableEq, Repr

/-- What `data_event` reads of the transaction on `TS_EVENT_VCONN_WRITE_COMPLETE`: the finished
flag, the notify hooks, and the post-processing and logging flags. -/
structure EndView where
  finished : Bool
  hasNotifyPost : Bool
  postprocess : Bool
  hasNotifyLog : Bool
  logging : Bool
  deriving DecidableEq, Repr

/-- What `data_event` does besides changing the direction's state. -/
inductive EventAction where
  /-- `TSContCall(TSVIOContGet(input_vio), TS_EVENT_ERROR, input_vio)` -/
  | errorCallback
  /-- `TSVConnShutdown(TSTransformOutputVConnGet(contp), 0, 1)` -/
  | shutdownOutput
  | notifyEnd
  | notifyPost
  | notifyLog
  /-- The event `process_data` sent back to the input VIO's continuation. -/
  | reply (r : Reply)
  deriving DecidableEq, Repr

/-- One call of `data_event`: `TSVConnClosedGet(contp)`, the event, the transaction's state
it reads, and what `process_data` reads if it runs. -/
structure Delivery where
  closed : Bool
  event : TsEvent
  endView : EndView
  httpError : Bool
  input : Option (List Block)

/-- The engine notifications on `TS_EVENT_VCONN_WRITE_COMPLETE`. -/
def endNotifications (v : EndView) : List EventAction :=
  (if v.finished then [] else [.notifyEnd]) ++
    (if v.hasNotifyPost && !v.postprocess then [.notifyPost] else []) ++
    (if v.hasNotifyLog && !v.logging then [.notifyLog] else [])

/-- `data_event(contp, event, ibd)`: the direction's new state and what else it did, or
`none` when an assertion of `process_data` stops the process. -/
def dataEvent (qsort : List Edit → List Edit) (dir : Direction) (tx : Option TxView)
    (d : Delivery) (s : Stream) : Option (Stream × List EventAction) :=
  if d.closed then some (s, [])
  else
    match d.event with
    | .error => some (s, [.errorCallback])
    | .vconnWriteComplete => some (s, .shutdownOutput :: endNotifications d.endView)
    | .vconnWriteReady | .other _ =>
      (processData qsort dir tx d.httpError d.input s).map fun (s', r) =>
        (s', r.toList.map .reply)

/-- The entry of a direction's continuation: nothing without a transaction, else
`data_event` for the direction. -/
def directionEvent (dir : Direction) (qsort : List Edit → List Edit) (tx : Option TxView)
    (d : Delivery) (s : Stream) : Option (Stream × List EventAction) :=
  match tx with
  | none => some (s, [])
  | some _ => dataEvent qsort dir tx d s

/-- `in_data_event(contp, event, edata)`: the request body. -/
def inDataEvent : (List Edit → List Edit) → Option TxView → Delivery → Stream →
    Option (Stream × List EventAction) :=
  directionEvent .req

/-- `out_data_event(contp, event, edata)`: the response body. -/
def outDataEvent : (List Edit → List Edit) → Option TxView → Delivery → Stream →
    Option (Stream × List EventAction) :=
  directionEvent .resp

/-- The calls of `data_event` on a sequence of deliveries, with everything done besides the
state, in order. -/
def dataEvents (qsort : List Edit → List Edit) (dir : Direction) (tx : Option TxView) :
    List Delivery → Stream → Option (Stream × List EventAction)
  | [], s => some (s, [])
  | d :: ds, s =>
    (dataEvent qsort dir tx d s).bind fun (s₁, a₁) =>
      (dataEvents qsort dir tx ds s₁).map fun (s₂, a₂) => (s₂, a₁ ++ a₂)

def Delivery.reachesProcessData (d : Delivery) : Bool :=
  !d.closed && match d.event with
    | .error => false
    | .vconnWriteComplete => false
    | .vconnWriteReady => true
    | .other _ => true

/-- The `process_data` calls a sequence of deliveries makes, as `processEvents` takes them. -/
def processCalls : List Delivery → List (Bool × Option (List Block))
  | [] => []
  | d :: ds =>
    if d.reachesProcessData then (d.httpError, d.input) :: processCalls ds else processCalls ds

theorem processCalls_append : ∀ ds ds' : List Delivery,
    processCalls (ds ++ ds') = processCalls ds ++ processCalls ds'
  | [], _ => rfl
  | d :: ds, ds' => by
    rw [List.cons_append, processCalls, processCalls, processCalls_append ds ds']
    split_ifs <;> rfl

theorem dataEvent_of_reaches {qsort : List Edit → List Edit} {dir : Direction}
    {tx : Option TxView} {d : Delivery} (s : Stream) (h : d.reachesProcessData) :
    dataEvent qsort dir tx d s = (processData qsort dir tx d.httpError d.input s).map
      fun (s', r) => (s', r.toList.map .reply) := by
  unfold Delivery.reachesProcessData at h
  unfold dataEvent
  cases hc : d.closed <;> cases he : d.event <;> simp_all

theorem dataEvent_of_not_reaches (qsort : List Edit → List Edit) (dir : Direction)
    (tx : Option TxView) {d : Delivery} (s : Stream) (h : d.reachesProcessData = false) :
    ∃ a, dataEvent qsort dir tx d s = some (s, a) := by
  unfold Delivery.reachesProcessData at h
  unfold dataEvent
  cases hc : d.closed <;> cases he : d.event <;> simp_all

theorem dataEvents_state (qsort : List Edit → List Edit) (dir : Direction)
    (tx : Option TxView) :
    ∀ (ds : List Delivery) (s : Stream),
      (dataEvents qsort dir tx ds s).map Prod.fst = processEvents qsort dir tx (processCalls ds) s
  | [], s => rfl
  | d :: ds, s => by
    rw [dataEvents, processCalls]
    cases hr : d.reachesProcessData
    · obtain ⟨a, ha⟩ := dataEvent_of_not_reaches qsort dir tx s hr
      rw [ha, Option.some_bind, Option.map_map, if_neg (by simp), ← dataEvents_state qsort dir tx ds s]
      rfl
    · rw [dataEvent_of_reaches s hr, if_pos rfl, processEvents]
      cases processData qsort dir tx d.httpError d.input s with
      | none => rfl
      | some p =>
        rw [Option.map_some', Option.some_bind, Option.some_bind, Option.map_map,
          ← dataEvents_state qsort dir tx ds p.1]
        rfl

/-- The calls of a direction's continuation on a sequence of deliveries of one
transaction, with everything done besides the state, in order. -/
def directionEvents (dir : Direction) (qsort : List Edit → List Edit) (tx : Option TxView) :
    List Delivery → Stream → Option (Stream × List EventAction)
  | [], s => some (s, [])
  | d :: ds, s =>
    (directionEvent dir qsort tx d s).bind fun (s₁, a₁) =>
      (directionEvents dir qsort tx ds s₁).map fun (s₂, a₂) => (s₂, a₁ ++ a₂)

theorem directionEvents_none (dir : Direction) (qsort : List Edit → List Edit) :
    ∀ (ds : List Delivery) (s : Stream), directionEvents dir qsort none ds s = some (s, [])
  | [], _ => rfl
  | _ :: ds, s => by
    rw [directionEvents, directionEvent, Option.some_bind]
    dsimp only
    rw [directionEvents_none dir qsort ds s]
    rfl

theorem directionEvents_some (dir : Direction) (qsort : List Edit → List Edit) (t : TxView) :
    ∀ (ds : List Delivery) (s : Stream),
      directionEvents dir qsort (some t) ds s = dataEvents qsort dir (some t) ds s
  | [], _ => rfl
  | d :: ds, s => by
    simp only [directionEvents, directionEvent, dataEvents, directionEvents_some dir qsort t ds]

theorem directionEvents_of_processEvents {qsort : List Edit → List Edit} {dir : Direction}
    {t : TxView} {ds : List Delivery} {s s' : Stream}
    (h : processEvents qsort dir (some t) (processCalls ds) s = some s') :
    ∃ acts, directionEvents dir qsort (some t) ds s = some (s', acts) := by
  have hd := dataEvents_state qsort dir (some t) ds s
  rw [h, ← directionEvents_some] at hd
  obtain ⟨⟨s'', acts⟩, hd', hs⟩ := Option.map_eq_some'.mp hd
  cases hs
  exact ⟨acts, hd'⟩

/-- A fresh direction's state is the one its `process_data` calls give, and its output is a prefix
of what it received with the applied edits spliced in. -/
theorem directionEvents_emit_spliced (qsort : List Edit → List Edit) (dir : Direction)
    (t : TxView) (buffering : Buffering) (bufLimit : Nat) (todo : Int)
    (ds : List Delivery) (hin : eventBytes (processCalls ds) < 2 ^ 63) :
    (directionEvents dir qsort (some t) ds ⟨FilterCtx.zeroed buffering bufLimit, false, todo, []⟩).map
        Prod.fst =
      processEvents qsort dir (some t) (processCalls ds)
        ⟨FilterCtx.zeroed buffering bufLimit, false, todo, []⟩ ∧
    ∀ s' acts, directionEvents dir qsort (some t) ds
        ⟨FilterCtx.zeroed buffering bufLimit, false, todo, []⟩ = some (s', acts) →
      ∃ S, S <+: eventData (processCalls ds) ∧
        s'.fctx.output = splice S 0 s'.fctx.applied s'.fctx.bytesDone ∧
        InOrder 0 s'.fctx.applied s'.fctx.bytesDone ∧
        (s'.fctx.buffering ≠ .discard → s'.fctx.reader = S.drop s'.fctx.bytesDone) := by
  have hp := directionEvents_some dir qsort t ds ⟨FilterCtx.zeroed buffering bufLimit, false, todo, []⟩ ▸
    dataEvents_state qsort dir (some t) ds ⟨FilterCtx.zeroed buffering bufLimit, false, todo, []⟩
  refine ⟨hp, fun s' acts h => ?_⟩
  rw [h, Option.map_some'] at hp
  obtain ⟨S, hS, hc⟩ := processEvents_conserves hin hp.symm
  exact ⟨S, hS, hc.output, hc.inOrder, hc.stream⟩

theorem directionEvents_emit_spliced_ready_complete :
    ∃ s' acts, directionEvents .req qsortModel (some TxView.noBuffering)
        [⟨false, .vconnWriteReady, ⟨false, false, false, false, false⟩, false,
          some [⟨[1, 2, 3], [Edit.make 1 1 [7, 7]], .ok⟩]⟩,
         ⟨false, .vconnWriteComplete, ⟨false, false, false, false, false⟩, false, none⟩]
        ⟨FilterCtx.zeroed .nobuf 0, false, 3, []⟩ = some (s', acts) ∧
      some s' = processEvents qsortModel .req (some TxView.noBuffering)
        [(false, some [⟨[1, 2, 3], [Edit.make 1 1 [7, 7]], .ok⟩])]
        ⟨FilterCtx.zeroed .nobuf 0, false, 3, []⟩ ∧
      ∃ S, S <+: [1, 2, 3] ∧
        s'.fctx.output = splice S 0 s'.fctx.applied s'.fctx.bytesDone ∧
        InOrder 0 s'.fctx.applied s'.fctx.bytesDone ∧
        (s'.fctx.buffering ≠ .discard → s'.fctx.reader = S.drop s'.fctx.bytesDone) :=
  have h := directionEvents_emit_spliced qsortModel .req TxView.noBuffering .nobuf 0 3
    [⟨false, .vconnWriteReady, ⟨false, false, false, false, false⟩, false,
      some [⟨[1, 2, 3], [Edit.make 1 1 [7, 7]], .ok⟩]⟩,
     ⟨false, .vconnWriteComplete, ⟨false, false, false, false, false⟩, false, none⟩] (by decide)
  ⟨_, _, rfl, h.1, h.2 _ _ rfl⟩

end IronBee.Filter
