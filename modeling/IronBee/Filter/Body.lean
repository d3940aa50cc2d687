import IronBee.Filter.Event

/-! # A body delivered in blocks

A direction's body reaches `process_data` in a sequence of calls, each bringing the blocks
its input reader holds, and the rules notified of each block may add edits. `TSVIONTodoGet`
starts at the body's length and reaches zero on the last call that brings bytes, which then
makes the final `flush_data(fctx, -1, 1)`. So what a buffering mode does with a whole body
follows from what it does with one block: a property of the filter context, stated with the
blocks still to come, that every block keeps holds when the final flush starts.
-/

namespace IronBee.Filter

def blockEdits : List Block → List Edit
  | [] => []
  | b :: bs => b.edits ++ blockEdits bs

def bodyBlocks : List (List Block) → List Block
  | [] => []
  | bs :: bss => bs ++ bodyBlocks bss

/-- The `process_data` calls that bring a body's blocks, one list of blocks per call, on a
transaction in no error state. -/
def bodyEvents : List (List Block) → List (Bool × Option (List Block))
  | [] => []
  | bs :: bss => (false, some bs) :: bodyEvents bss

def bodyEdits : List (List Block) → List Edit
  | [] => []
  | bs :: bss => blockEdits bs ++ bodyEdits bss

/-- A body as the transformation receives it: the blocks of the calls before the last, and those of
the last call, on which `TSVIONTodoGet` reaches zero. -/
structure Body where
  early : List (List Block)
  last : List Block
  last_pos : 0 < blockBytes last

def Body.events (b : Body) : List (Bool × Option (List Block)) :=
  bodyEvents (b.early ++ [b.last])

def Body.edits (b : Body) : List Edit :=
  bodyEdits (b.early ++ [b.last])

def Body.blocks (b : Body) : List Block :=
  bodyBlocks (b.early ++ [b.last])

@[simp] theorem blockData_append : ∀ bs bs' : List Block,
    blockData (bs ++ bs') = blockData bs ++ blockData bs'
  | [], _ => rfl
  | b :: bs, bs' => by rw [List.cons_append, blockData, blockData, blockData_append bs bs',
      List.append_assoc]

@[simp] theorem blockEdits_append : ∀ bs bs' : List Block,
    blockEdits (bs ++ bs') = blockEdits bs ++ blockEdits bs'
  | [], _ => rfl
  | b :: bs, bs' => by rw [List.cons_append, blockEdits, blockEdits, blockEdits_append bs bs',
      List.append_assoc]

@[simp] theorem bodyBlocks_append : ∀ bss bss' : List (List Block),
    bodyBlocks (bss ++ bss') = bodyBlocks bss ++ bodyBlocks bss'
  | [], _ => rfl
  | bs :: bss, bss' => by rw [List.cons_append, bodyBlocks, bodyBlocks, bodyBlocks_append bss bss',
      List.append_assoc]

theorem eventBytes_bodyEvents : ∀ bss : List (List Block),
    eventBytes (bodyEvents bss) = (blockData (bodyBlocks bss)).length
  | [] => rfl
  | bs :: bss => by
    rw [bodyEvents, eventBytes, bodyBlocks, blockData_append, List.length_append,
      eventBytes_bodyEvents bss, blockData_length bs]
    rfl

theorem eventData_bodyEvents : ∀ bss : List (List Block),
    eventData (bodyEvents bss) = blockData (bodyBlocks bss)
  | [] => rfl
  | bs :: bss => by
    rw [bodyEvents, eventData, bodyBlocks, blockData_append, eventData_bodyEvents bss]; rfl

theorem bodyEdits_eq : ∀ bss : List (List Block), bodyEdits bss = blockEdits (bodyBlocks bss)
  | [] => rfl
  | bs :: bss => by rw [bodyEdits, bodyBlocks, blockEdits_append, bodyEdits_eq bss]

theorem blockBytes_le_eventBytes (last : List Block) :
    ∀ bss : List (List Block), blockBytes last ≤ eventBytes (bodyEvents (bss ++ [last]))
  | [] => Nat.le_add_right _ _
  | _ :: bss => (blockBytes_le_eventBytes last bss).trans (Nat.le_add_left _ _)

theorem openOutput_zeroed (dir : Direction) (tx : Option TxView) (buffering : Buffering)
    (bufLimit : Nat) (todo : Int) :
    (openOutput dir tx false ⟨FilterCtx.zeroed buffering bufLimit, false, todo, []⟩).fctx =
      (bufferInit dir tx (FilterCtx.init buffering bufLimit)).1 := by
  rw [openOutput, if_neg Bool.false_ne_true, if_neg Bool.false_ne_true]
  rfl

theorem FilterCtx.init_fresh (buffering : Buffering) (bufLimit : Nat) :
    (FilterCtx.init buffering bufLimit).Fresh :=
  ⟨rfl, rfl, rfl, rfl, rfl, rfl, rfl, rfl⟩

/-! ## The run of a body -/

theorem chunkStep_of_bufferDataChunk {qsort : List Edit → List Edit} {s : Stream} {b : Block}
    {g : FilterCtx} {rc : Status}
    (h : bufferDataChunk qsort (s.fctx.addEdits b.edits) b.data = some (g, rc)) :
    ∃ s₁, chunkStep qsort s b = some s₁ ∧ s₁.fctx = g ∧ s₁.todo = s.todo - b.data.length ∧
      s₁.outputOpen = s.outputOpen := by
  rw [chunkStep, h]
  exact ⟨_, rfl, rfl, rfl, rfl⟩

section Run

variable (qsort : List Edit → List Edit) (Good : List Block → FilterCtx → Prop)

theorem chunkLoop_run
    (hstep : ∀ b rest f, Good (b :: rest) f →
      ∃ g rc, bufferDataChunk qsort (f.addEdits b.edits) b.data = some (g, rc) ∧ Good rest g) :
    ∀ (bs R : List Block) (s : Stream), Good (bs ++ R) s.fctx →
      ∃ s', chunkLoop qsort bs s = some s' ∧ Good R s'.fctx ∧
        s'.todo = s.todo - blockBytes bs ∧ s'.outputOpen = s.outputOpen
  | [], _, s, h => ⟨s, rfl, h, by rw [blockBytes]; omega, rfl⟩
  | b :: bs, R, s, h => by
    obtain ⟨g, rc, hg, hgood⟩ := hstep b (bs ++ R) s.fctx h
    obtain ⟨s₁, h₁, hf₁, ht₁, ho₁⟩ := chunkStep_of_bufferDataChunk hg
    obtain ⟨s', hl, hs', ht, ho⟩ := chunkLoop_run hstep bs R s₁ (hf₁ ▸ hgood)
    refine ⟨s', by rw [chunkLoop, h₁, Option.some_bind, hl], hs', ?_, ho.trans ho₁⟩
    rw [ht, ht₁, blockBytes]
    omega

theorem processData_run (dir : Direction) (tx : Option TxView)
    (hstep : ∀ b rest f, Good (b :: rest) f →
      ∃ g rc, bufferDataChunk qsort (f.addEdits b.edits) b.data = some (g, rc) ∧ Good rest g)
    {bs R : List Block} {s : Stream} (h : Good (bs ++ R) (openOutput dir tx false s).fctx)
    (hz : s.todo ≠ 0) :
    ∃ s₁, Good R s₁.fctx ∧ s₁.todo = s.todo - blockBytes bs ∧ s₁.outputOpen = true ∧
      processData qsort dir tx false (some bs) s =
        if s₁.todo = 0 then (finishStream qsort s₁).map fun (s, r) => (s, some r)
        else some (s₁, some .writeReady) := by
  obtain ⟨s₁, hl, hs₁, ht, ho⟩ := chunkLoop_run qsort Good hstep bs R _ h
  refine ⟨s₁, hs₁, by rw [ht, openOutput_todo], by rw [ho, openOutput_outputOpen], ?_⟩
  rw [processData, if_neg Bool.false_ne_true]
  dsimp only
  rw [if_neg (by rwa [openOutput_todo]), hl, Option.some_bind]

theorem processEvents_run (dir : Direction) (tx : Option TxView)
    (hstep : ∀ b rest f, Good (b :: rest) f →
      ∃ g rc, bufferDataChunk qsort (f.addEdits b.edits) b.data = some (g, rc) ∧ Good rest g)
    (last : List Block) (hlast : 0 < blockBytes last) :
    ∀ (bss : List (List Block)) (s : Stream),
      Good (bodyBlocks (bss ++ [last])) (openOutput dir tx false s).fctx →
      s.todo = eventBytes (bodyEvents (bss ++ [last])) →
      ∃ s₀, Good [] s₀.fctx ∧
        processEvents qsort dir tx (bodyEvents (bss ++ [last])) s =
          (finishStream qsort s₀).map Prod.fst
  | [], s, h, ht => by
    have hb : eventBytes (bodyEvents [last]) = blockBytes last := Nat.add_zero _
    have h' : Good (last ++ []) (openOutput dir tx false s).fctx := h
    obtain ⟨s₁, hs₁, ht₁, -, hp⟩ := processData_run qsort Good dir tx hstep h'
      (by rw [ht, List.nil_append, hb]; omega)
    refine ⟨s₁, hs₁, ?_⟩
    rw [List.nil_append, bodyEvents, bodyEvents, processEvents, hp,
      if_pos (by rw [ht₁, ht, List.nil_append, hb, sub_self])]
    cases finishStream qsort s₁ <;> rfl
  | bs :: bss, s, h, ht => by
    have hrest := blockBytes_le_eventBytes last bss
    have ht' : s.todo = blockBytes bs + eventBytes (bodyEvents (bss ++ [last])) := by
      rw [ht]; rfl
    obtain ⟨s₁, hs₁, ht₁, ho₁, hp⟩ := processData_run qsort Good dir tx hstep h (by omega)
    obtain ⟨s₀, hs₀, hrun⟩ := processEvents_run dir tx hstep last hlast bss s₁
      (by rwa [openOutput_of_open dir tx false ho₁]) (by rw [ht₁, ht']; omega)
    refine ⟨s₀, hs₀, ?_⟩
    rw [List.cons_append, bodyEvents, processEvents, hp, if_neg (by rw [ht₁, ht']; omega),
      Option.some_bind, hrun]

theorem processEvents_run_prefix (dir : Direction) (tx : Option TxView)
    (hstep : ∀ b rest f, Good (b :: rest) f →
      ∃ g rc, bufferDataChunk qsort (f.addEdits b.edits) b.data = some (g, rc) ∧ Good rest g) :
    ∀ (bs : List Block) (bss : List (List Block)) (R : List Block) (s : Stream),
      Good (bodyBlocks (bs :: bss) ++ R) (openOutput dir tx false s).fctx →
      eventBytes (bodyEvents (bs :: bss)) < s.todo →
      ∃ s', processEvents qsort dir tx (bodyEvents (bs :: bss)) s = some s' ∧ Good R s'.fctx
  | bs, bss, R, s, h, ht => by
    have ht' : eventBytes (bodyEvents (bs :: bss)) = blockBytes bs + eventBytes (bodyEvents bss) :=
      rfl
    obtain ⟨s₁, hs₁, ht₁, ho₁, hp⟩ := processData_run qsort Good dir tx hstep
      (show Good (bs ++ (bodyBlocks bss ++ R)) (openOutput dir tx false s).fctx by
        rwa [bodyBlocks, List.append_assoc] at h) (by omega)
    have hrun : processEvents qsort dir tx (bodyEvents (bs :: bss)) s =
        processEvents qsort dir tx (bodyEvents bss) s₁ := by
      rw [bodyEvents, processEvents, hp, if_neg (by omega), Option.some_bind]
    cases bss with
    | nil => exact ⟨s₁, hrun, hs₁⟩
    | cons bs' bss =>
      obtain ⟨s', h', hs'⟩ := processEvents_run_prefix dir tx hstep bs' bss R s₁
        (by rwa [openOutput_of_open dir tx false ho₁]) (by omega)
      exact ⟨s', hrun.trans h', hs'⟩

theorem Body.run (dir : Direction) (tx : Option TxView)
    (hstep : ∀ b rest f, Good (b :: rest) f →
      ∃ g rc, bufferDataChunk qsort (f.addEdits b.edits) b.data = some (g, rc) ∧ Good rest g)
    (buffering : Buffering) (bufLimit : Nat) (b : Body)
    (h : Good b.blocks (bufferInit dir tx (FilterCtx.init buffering bufLimit)).1) :
    ∃ s₀, Good [] s₀.fctx ∧
      processEvents qsort dir tx b.events
          ⟨FilterCtx.zeroed buffering bufLimit, false, eventBytes b.events, []⟩ =
        (finishStream qsort s₀).map Prod.fst :=
  processEvents_run qsort Good dir tx hstep b.last b.last_pos b.early _
    (by rw [openOutput_zeroed]; exact h) rfl

end Run

end IronBee.Filter
