import IronBee.CTypes
import Mathlib.Data.List.Basic

/-! # Script rules under `g_lua_lock`

A script rule's operator, `lua_operator_execute`, evaluates the rule's Lua function through
`ib_lua_func_eval_r`: it creates a Lua thread of the shared root state, calls the function
on it, and joins the thread. Thread creation and joining go through
`call_in_critical_section`, which holds the process-wide `g_lua_lock` around them.

Evaluations of different transactions run concurrently. One evaluation is a small program
over the calls it makes; the system interleaves any number of them, and every call returns
the status the scheduler picks. `ib_lock_lock` and `ib_lock_unlock` are `semop` on a
semaphore, which does nothing when it fails: a lock call waits while the lock is taken and
takes it when it succeeds, a failed lock call takes nothing, and a failed unlock call leaves
the lock held.
-/

namespace IronBee.Rules

/-- The calls an evaluation makes. -/
inductive LuaCall where
  | lock
  | unlock
  | newThread
  | evalInt
  | joinThread
  deriving DecidableEq, Repr

/-- Where one evaluation of `ib_lua_func_eval_r` stands; `critical` is the status of the call inside
`call_in_critical_section`, returned once the lock is released. -/
inductive EvalPc where
  | lockNew
  | newThread
  | unlockNew (critical : Status)
  | evalInt
  | lockJoin
  | joinThread
  | unlockJoin (critical : Status)
  | returned (rc : Status)
  deriving DecidableEq, Repr

/-- The call an evaluation makes next. -/
def EvalPc.next : EvalPc → Option LuaCall
  | .lockNew => some .lock
  | .newThread => some .newThread
  | .unlockNew _ => some .unlock
  | .evalInt => some .evalInt
  | .lockJoin => some .lock
  | .joinThread => some .joinThread
  | .unlockJoin _ => some .unlock
  | .returned _ => none

/-- The evaluation once its next call has returned `r`: the control flow of
`call_in_critical_section` and `ib_lua_func_eval_r`. -/
def EvalPc.after : EvalPc → Status → EvalPc
  | .lockNew, r => if r = .ok then .newThread else .returned r
  | .newThread, r => .unlockNew r
  | .unlockNew critical, r =>
    if r ≠ .ok then .returned r else if critical ≠ .ok then .returned critical else .evalInt
  | .evalInt, r => if r = .ok then .lockJoin else .returned r
  | .lockJoin, r => if r = .ok then .joinThread else .returned r
  | .joinThread, r => .unlockJoin r
  | .unlockJoin critical, r => if r ≠ .ok then .returned r else .returned critical
  | .returned rc, _ => .returned rc

/-- Whether the evaluation is between its `ib_lock_lock` and its `ib_lock_unlock`. -/
def EvalPc.holdsLock : EvalPc → Bool
  | .newThread => true
  | .unlockNew _ => true
  | .joinThread => true
  | .unlockJoin _ => true
  | _ => false

/-- The evaluations started so far, the evaluation that holds `g_lua_lock`, and the calls
made, each with its caller and result. -/
structure LuaSys where
  evals : List EvalPc
  holder : Option Nat
  trace : List (Nat × LuaCall × Status)
  deriving DecidableEq

def LuaSys.init : LuaSys := ⟨[], none, []⟩

/-- A scheduler's choice: start one more evaluation, or let evaluation `i` make its next
call, which returns `r`. -/
inductive LuaChoice where
  | start
  | call (i : Nat) (r : Status)

def LuaSys.record (s : LuaSys) (i : Nat) (pc : EvalPc) (c : LuaCall) (r : Status)
    (holder : Option Nat) : LuaSys :=
  ⟨s.evals.set i (pc.after r), holder, s.trace ++ [(i, c, r)]⟩

/-- One step of the system; `none` when the chosen evaluation cannot move: it has returned,
does not exist, or waits for the lock another evaluation holds. -/
def LuaSys.step (s : LuaSys) : LuaChoice → Option LuaSys
  | .start => some { s with evals := s.evals ++ [.lockNew] }
  | .call i r =>
    match s.evals[i]? with
    | none => none
    | some pc =>
      match pc.next with
      | none => none
      | some .lock =>
        if r = .ok then if s.holder = none then some (s.record i pc .lock r (some i)) else none
        else some (s.record i pc .lock r s.holder)
      | some .unlock => some (s.record i pc .unlock r (if r = .ok then none else s.holder))
      | some c => some (s.record i pc c r s.holder)

/-- The system after a schedule of choices. -/
def LuaSys.run (s : LuaSys) : List LuaChoice → Option LuaSys
  | [] => some s
  | c :: cs => (s.step c).bind fun s => s.run cs

/-- A script whose function fails leaks its Lua thread: the evaluation returns before the join. -/
theorem failed_script_skips_join :
    (LuaSys.init.run [.start, .call 0 .ok, .call 0 .ok, .call 0 .ok, .call 0 .eunknown]).map
      (fun s => (s.evals, s.trace.map fun e => (e.1, e.2.1))) =
      some ([.returned .eunknown], [(0, .lock), (0, .newThread), (0, .unlock), (0, .evalInt)]) := by
  decide

theorem LuaSys.step_call_cases {s s' : LuaSys} {i : Nat} {r : Status}
    (h : s.step (.call i r) = some s') :
    ∃ pc c, s.evals[i]? = some pc ∧ pc.next = some c ∧
      (c = .lock ∧ r = .ok ∧ s.holder = none ∧ s' = s.record i pc .lock .ok (some i) ∨
        c = .unlock ∧ r = .ok ∧ s' = s.record i pc .unlock .ok none ∨
        (c = .lock ∨ c = .unlock → r ≠ .ok) ∧ s' = s.record i pc c r s.holder) := by
  simp only [LuaSys.step] at h
  split at h
  · cases h
  rename_i pc hpc
  split at h
  · cases h
  · rename_i hnext
    split_ifs at h with hr hfree <;> cases h
    · exact ⟨pc, _, hpc, hnext, .inl ⟨rfl, hr, hfree, by rw [hr]⟩⟩
    · exact ⟨pc, _, hpc, hnext, .inr (.inr ⟨fun _ => hr, rfl⟩)⟩
  · rename_i hnext
    cases h
    by_cases hr : r = .ok
    · subst hr
      exact ⟨pc, _, hpc, hnext, .inr (.inl ⟨rfl, rfl, by rw [if_pos rfl]⟩)⟩
    · exact ⟨pc, _, hpc, hnext, .inr (.inr ⟨fun _ => hr, by rw [if_neg hr]⟩)⟩
  · rename_i c hnl hnu hnext
    cases h
    refine ⟨pc, c, hpc, hnext, .inr (.inr ⟨?_, rfl⟩)⟩
    rintro (rfl | rfl)
    exacts [absurd rfl hnl, absurd rfl hnu]

theorem LuaSys.record_evals_self {s : LuaSys} {i : Nat} {pc : EvalPc}
    (hpc : s.evals[i]? = some pc) (c : LuaCall) (r : Status) (holder : Option Nat) :
    (s.record i pc c r holder).evals[i]? = some (pc.after r) :=
  List.getElem?_set_self (List.getElem?_eq_some_iff.mp hpc).1

theorem LuaSys.record_evals_ne {s : LuaSys} {i j : Nat} (h : j ≠ i) (pc : EvalPc)
    (c : LuaCall) (r : Status) (holder : Option Nat) :
    (s.record i pc c r holder).evals[j]? = s.evals[j]? :=
  List.getElem?_set_ne (Ne.symm h)

theorem LuaSys.record_evals_cases {s : LuaSys} {i j : Nat} {pc pc' : EvalPc}
    (hpc : s.evals[i]? = some pc) {c : LuaCall} {r : Status} {holder : Option Nat}
    (hj : (s.record i pc c r holder).evals[j]? = some pc') :
    j = i ∧ pc' = pc.after r ∨ j ≠ i ∧ s.evals[j]? = some pc' := by
  by_cases hji : j = i
  · subst hji
    rw [LuaSys.record_evals_self hpc, Option.some.injEq] at hj
    exact .inl ⟨rfl, hj.symm⟩
  · rw [LuaSys.record_evals_ne hji] at hj
    exact .inr ⟨hji, hj⟩

theorem LuaSys.ne_of_returned {s : LuaSys} {i j : Nat} {pc : EvalPc} (hpc : s.evals[i]? = some pc)
    {c : LuaCall} (hc : pc.next = some c) {r : Status} (hret : s.evals[j]? = some (.returned r)) :
    j ≠ i := by
  rintro rfl
  rw [hpc, Option.some.injEq] at hret
  rw [hret] at hc
  cases hc

theorem getElem?_append_lockNew {l : List EvalPc} {j : Nat} {pc : EvalPc}
    (h : (l ++ [.lockNew])[j]? = some pc) : l[j]? = some pc ∨ l.length ≤ j ∧ pc = .lockNew := by
  by_cases hlt : j < l.length
  · rw [List.getElem?_append_left hlt] at h
    exact .inl h
  · rw [List.getElem?_append_right (Nat.le_of_not_lt hlt)] at h
    refine .inr ⟨Nat.le_of_not_lt hlt, ?_⟩
    rcases h0 : j - l.length with _ | k <;> rw [h0] at h
    · exact (Option.some.inj h).symm
    · cases h

/-! ## The lock discipline -/

/-- An evaluation between its lock and unlock calls holds `g_lua_lock`; otherwise the lock is
held only by an evaluation whose unlock call failed, which has returned that failure. -/
structure LockInv (s : LuaSys) : Prop where
  holder_of_holdsLock : ∀ i pc, s.evals[i]? = some pc → pc.holdsLock → s.holder = some i
  holdsLock_of_holder : ∀ i, s.holder = some i →
    (∃ pc, s.evals[i]? = some pc ∧ pc.holdsLock) ∨ ∃ r, r ≠ .ok ∧ (i, .unlock, r) ∈ s.trace
  failed_unlock : ∀ i r, r ≠ .ok → (i, .unlock, r) ∈ s.trace →
    s.holder = some i ∧ s.evals[i]? = some (.returned r)

theorem lockInv_init : LockInv LuaSys.init :=
  ⟨fun _ _ h => by simp [LuaSys.init] at h, fun _ h => (by cases h),
    fun _ _ _ h => absurd h (List.not_mem_nil _)⟩

theorem EvalPc.holdsLock_after {pc : EvalPc} {c : LuaCall} (hc : pc.next = some c) (r : Status) :
    (pc.after r).holdsLock =
      if c = .lock then decide (r = .ok) else if c = .unlock then false else pc.holdsLock := by
  cases pc <;> simp only [EvalPc.next, Option.some.injEq, reduceCtorEq] at hc <;> subst hc <;>
    simp only [EvalPc.after] <;> split_ifs <;> simp_all [EvalPc.holdsLock]

theorem EvalPc.holdsLock_of_next_unlock {pc : EvalPc} (h : pc.next = some .unlock) :
    pc.holdsLock := by
  cases pc <;> simp [EvalPc.next] at h <;> rfl

theorem EvalPc.next_of_holdsLock {pc : EvalPc} (h : pc.holdsLock) :
    ∃ c, pc.next = some c ∧ c ≠ .lock := by
  cases pc <;> simp_all [EvalPc.holdsLock, EvalPc.next]

theorem EvalPc.after_of_failed_unlock {pc : EvalPc} (h : pc.next = some .unlock) {r : Status}
    (hr : r ≠ .ok) : pc.after r = .returned r := by
  cases pc <;> simp [EvalPc.next] at h <;> simp [EvalPc.after, hr]

section Steps

variable {s : LuaSys} {i : Nat} {pc : EvalPc}

theorem LockInv.lock_ok (hs : LockInv s) (hpc : s.evals[i]? = some pc)
    (hc : pc.next = some .lock) (hfree : s.holder = none) :
    LockInv (s.record i pc .lock .ok (some i)) := by
  have hnone : ∀ j, s.holder ≠ some j := fun j h => by rw [hfree] at h; cases h
  refine ⟨fun j pc' hj hh => ?_, fun j hj => ?_, fun j r hr hj => ?_⟩
  · rcases LuaSys.record_evals_cases hpc hj with ⟨rfl, -⟩ | ⟨-, hj⟩
    · rfl
    · exact absurd (hs.holder_of_holdsLock j pc' hj hh) (hnone j)
  · obtain rfl : i = j := Option.some.inj hj
    exact .inl ⟨_, LuaSys.record_evals_self hpc _ _ _, by rw [EvalPc.holdsLock_after hc]; rfl⟩
  · rcases List.mem_append.mp hj with hj | hj
    · exact absurd (hs.failed_unlock j r hr hj).1 (hnone j)
    · simp at hj

theorem LockInv.unlock_ok (hs : LockInv s) (hpc : s.evals[i]? = some pc)
    (hc : pc.next = some .unlock) : LockInv (s.record i pc .unlock .ok none) := by
  have hheld : s.holder = some i :=
    hs.holder_of_holdsLock i pc hpc (EvalPc.holdsLock_of_next_unlock hc)
  refine ⟨fun j pc' hj hh => ?_, fun j hj => (by cases hj), fun j r hr hj => ?_⟩
  · rcases LuaSys.record_evals_cases hpc hj with ⟨-, rfl⟩ | ⟨hji, hj⟩
    · simp [EvalPc.holdsLock_after hc] at hh
    · exact absurd (Option.some.inj (hheld.symm.trans (hs.holder_of_holdsLock j pc' hj hh)))
        (Ne.symm hji)
  · rcases List.mem_append.mp hj with hj | hj
    · obtain ⟨hh, hret⟩ := hs.failed_unlock j r hr hj
      exact absurd (Option.some.inj (hh.symm.trans hheld)) (LuaSys.ne_of_returned hpc hc hret)
    · simp only [List.mem_singleton, Prod.mk.injEq] at hj
      exact absurd hj.2.2 hr

theorem LockInv.keep (hs : LockInv s) (hpc : s.evals[i]? = some pc) {c : LuaCall}
    (hc : pc.next = some c) {r : Status} (hr : c = .lock ∨ c = .unlock → r ≠ .ok) :
    LockInv (s.record i pc c r s.holder) := by
  have hafter : (pc.after r).holdsLock → pc.holdsLock := by
    rw [EvalPc.holdsLock_after hc]
    split_ifs with hl
    · exact fun h => absurd (of_decide_eq_true h) (hr (.inl hl))
    · exact fun h => by cases h
    · exact id
  refine ⟨fun j pc' hj hh => ?_, fun j hj => ?_, fun j r' hr' hj => ?_⟩
  · rcases LuaSys.record_evals_cases hpc hj with ⟨rfl, rfl⟩ | ⟨-, hj⟩
    · exact hs.holder_of_holdsLock _ pc hpc (hafter hh)
    · exact hs.holder_of_holdsLock j pc' hj hh
  · rcases hs.holdsLock_of_holder j hj with ⟨pc', hj', hh⟩ | ⟨r', hr', hm⟩
    · by_cases hji : j = i
      · subst hji
        rw [hpc, Option.some.injEq] at hj'
        subst hj'
        by_cases hu : c = .unlock
        · subst hu
          exact .inr ⟨r, hr (.inr rfl), List.mem_append_right _ (List.mem_singleton_self _)⟩
        · obtain ⟨c', hc', hcl⟩ := EvalPc.next_of_holdsLock hh
          rw [hc, Option.some.injEq] at hc'
          subst hc'
          refine .inl ⟨_, LuaSys.record_evals_self hpc _ _ _, ?_⟩
          rw [EvalPc.holdsLock_after hc, if_neg hcl, if_neg hu]
          exact hh
      · exact .inl ⟨pc', by rw [LuaSys.record_evals_ne hji]; exact hj', hh⟩
    · exact .inr ⟨r', hr', List.mem_append_left _ hm⟩
  · rcases List.mem_append.mp hj with hj | hj
    · obtain ⟨hh, hret⟩ := hs.failed_unlock j r' hr' hj
      exact ⟨hh, by rw [LuaSys.record_evals_ne (LuaSys.ne_of_returned hpc hc hret)]; exact hret⟩
    · simp only [List.mem_singleton, Prod.mk.injEq] at hj
      obtain ⟨rfl, rfl, rfl⟩ := hj
      exact ⟨hs.holder_of_holdsLock j pc hpc (EvalPc.holdsLock_of_next_unlock hc),
        by rw [LuaSys.record_evals_self hpc, EvalPc.after_of_failed_unlock hc hr']⟩

end Steps

theorem LockInv.step {s s' : LuaSys} (hs : LockInv s) {c : LuaChoice}
    (h : s.step c = some s') : LockInv s' := by
  cases c with
  | start =>
    cases h
    refine ⟨fun j pc hj => ?_, fun j hj => ?_, fun j r hr hj => ?_⟩
    · rcases getElem?_append_lockNew hj with hj | ⟨-, rfl⟩
      · exact hs.holder_of_holdsLock j pc hj
      · exact fun h => absurd h Bool.false_ne_true
    · rcases hs.holdsLock_of_holder j hj with ⟨pc, hpc, hh⟩ | hfail
      · refine .inl ⟨pc, ?_, hh⟩
        rw [List.getElem?_append_left (List.getElem?_eq_some_iff.mp hpc).1]
        exact hpc
      · exact .inr hfail
    · obtain ⟨hh, hret⟩ := hs.failed_unlock j r hr hj
      refine ⟨hh, ?_⟩
      rw [List.getElem?_append_left (List.getElem?_eq_some_iff.mp hret).1]
      exact hret
  | call i r =>
    obtain ⟨pc, c, hpc, hc, ⟨rfl, -, hfree, rfl⟩ | ⟨rfl, -, rfl⟩ | ⟨hr, rfl⟩⟩ :=
      LuaSys.step_call_cases h
    · exact hs.lock_ok hpc hc hfree
    · exact hs.unlock_ok hpc hc
    · exact hs.keep hpc hc hr

theorem LockInv.run : ∀ {s s' : LuaSys} {sched : List LuaChoice}, LockInv s →
    s.run sched = some s' → LockInv s'
  | _, _, [], hs, h => by cases h; exact hs
  | s, _, c :: cs, hs, h => by
    obtain ⟨s₁, h₁, h⟩ := Option.bind_eq_some.mp h
    exact LockInv.run (hs.step h₁) h

/-- Over every interleaving at most one evaluation holds `g_lua_lock`, and every thread call is made
under it. -/
theorem lua_calls_under_lock (sched : List LuaChoice) (s : LuaSys)
    (h : LuaSys.init.run sched = some s) :
    (∀ (i j : Nat) (pc pc' : EvalPc), s.evals[i]? = some pc → s.evals[j]? = some pc' →
      pc.holdsLock → pc'.holdsLock → i = j) ∧
    (∀ i r s', s.step (.call i r) = some s' → ∀ pc : EvalPc, s.evals[i]? = some pc →
      pc.next = some .newThread ∨ pc.next = some .joinThread → s.holder = some i) := by
  have hs := lockInv_init.run h
  refine ⟨fun i j pc pc' hi hj hpi hpj => ?_, fun i r s' _ pc hpc hnext => ?_⟩
  · exact Option.some.inj ((hs.holder_of_holdsLock i pc hi hpi).symm.trans
      (hs.holder_of_holdsLock j pc' hj hpj))
  · refine hs.holder_of_holdsLock i pc hpc ?_
    rcases hnext with hnext | hnext <;> cases pc <;> simp_all [EvalPc.next, EvalPc.holdsLock]

theorem lua_calls_under_lock_two :
    (∀ (i j : Nat) (pc pc' : EvalPc), [EvalPc.lockJoin, .newThread][i]? = some pc →
      [EvalPc.lockJoin, .newThread][j]? = some pc' → pc.holdsLock → pc'.holdsLock → i = j) ∧
    (∀ (i : Nat) r s', (LuaSys.mk [.lockJoin, .newThread] (some 1)
        [(0, .lock, .ok), (0, .newThread, .ok), (0, .unlock, .ok), (0, .evalInt, .ok),
          (1, .lock, .ok)]).step (.call i r) = some s' →
      ∀ pc : EvalPc, [EvalPc.lockJoin, .newThread][i]? = some pc →
        pc.next = some .newThread ∨ pc.next = some .joinThread → some 1 = some i) :=
  lua_calls_under_lock [.start, .start, .call 0 .ok, .call 0 .ok, .call 0 .ok, .call 0 .ok,
    .call 1 .ok] ⟨[.lockJoin, .newThread], some 1, [(0, .lock, .ok), (0, .newThread, .ok),
      (0, .unlock, .ok), (0, .evalInt, .ok), (1, .lock, .ok)]⟩ (by decide)

/-! ## Lua threads

`ib_lua_func_eval_r` creates a thread with `ib_lua_new_thread` and joins it with
`ib_lua_join_thread` only once `ib_lua_func_eval_int` has succeeded. Over any interleaving,
an evaluation that returns `IB_OK` has joined the one thread it created; one that fails has
joined none, unless only the unlock call after the join failed.
-/

def okCalls (trace : List (Nat × LuaCall × Status)) (i : Nat) (c : LuaCall) : Nat :=
  trace.count (i, c, .ok)

/-- The threads `n` created and `m` joined an evaluation at `pc` can have; one that returns a
failure `rc` has joined none, or made an unlock call that returned `rc` (`U rc`). -/
def EvalPc.Threads (U : Status → Prop) : EvalPc → Nat → Nat → Prop
  | .lockNew, n, m | .newThread, n, m => n = 0 ∧ m = 0
  | .unlockNew critical, n, m => n = (if critical = .ok then 1 else 0) ∧ m = 0
  | .evalInt, n, m | .lockJoin, n, m | .joinThread, n, m => n = 1 ∧ m = 0
  | .unlockJoin critical, n, m => n = 1 ∧ m = (if critical = .ok then 1 else 0)
  | .returned rc, n, m =>
    if rc = .ok then n = 1 ∧ m = 1 else n ≤ 1 ∧ m = 0 ∨ n = 1 ∧ m = 1 ∧ U rc

theorem EvalPc.Threads.le {U : Status → Prop} {pc : EvalPc} {n m : Nat} (h : pc.Threads U n m) :
    m ≤ n ∧ n ≤ 1 := by
  cases pc <;> simp only [EvalPc.Threads] at h <;> (try split_ifs at h) <;> omega

theorem EvalPc.Threads.mono {U U' : Status → Prop} (hU : ∀ x, U x → U' x) :
    ∀ {pc : EvalPc} {n m : Nat}, pc.Threads U n m → pc.Threads U' n m
  | .returned rc, _, _, h => by
    simp only [EvalPc.Threads] at h ⊢
    split_ifs at h ⊢
    · exact h
    · exact h.imp_right fun h => ⟨h.1, h.2.1, hU _ h.2.2⟩
  | .lockNew, _, _, h | .newThread, _, _, h | .unlockNew _, _, _, h | .evalInt, _, _, h
  | .lockJoin, _, _, h | .joinThread, _, _, h | .unlockJoin _, _, _, h => h

@[simp] theorem okCalls_append (trace : List (Nat × LuaCall × Status)) (i j : Nat)
    (c c' : LuaCall) (r : Status) :
    okCalls (trace ++ [(i, c, r)]) j c' = okCalls trace j c' + if i = j ∧ c = c' ∧ r = .ok
      then 1 else 0 := by
  simp only [okCalls, List.count_append, List.count_singleton, beq_iff_eq, Prod.mk.injEq]

theorem EvalPc.threads_after {pc : EvalPc} {c : LuaCall} (hc : pc.next = some c) {r : Status}
    {U : Status → Prop} (U' : Status → Prop) (hu : c = .unlock → U' r) {n m : Nat}
    (h : pc.Threads U n m) :
    (pc.after r).Threads U' (n + if c = .newThread ∧ r = .ok then 1 else 0)
      (m + if c = .joinThread ∧ r = .ok then 1 else 0) := by
  cases pc <;> simp only [EvalPc.next, Option.some.injEq, reduceCtorEq] at hc <;> subst hc <;>
    simp only [EvalPc.after, EvalPc.Threads, true_and, false_and, reduceCtorEq, if_false,
      Nat.add_zero] at h ⊢ <;>
    split_ifs at h ⊢ <;> simp_all [EvalPc.Threads]

/-- Every call in the trace is of an evaluation started, and each evaluation has created and
joined the threads its place in `ib_lua_func_eval_r` allows. -/
structure ThreadInv (s : LuaSys) : Prop where
  trace_valid : ∀ e ∈ s.trace, e.1 < s.evals.length
  threads : ∀ (i : Nat) (pc : EvalPc), s.evals[i]? = some pc →
    pc.Threads (fun r => (i, .unlock, r) ∈ s.trace) (okCalls s.trace i .newThread)
      (okCalls s.trace i .joinThread)

theorem threadInv_init : ThreadInv LuaSys.init :=
  ⟨fun _ h => absurd h (List.not_mem_nil _), fun _ _ h => by simp [LuaSys.init] at h⟩

theorem ThreadInv.okCalls_eq_zero {s : LuaSys} (hs : ThreadInv s) {i : Nat}
    (hi : s.evals.length ≤ i) (c : LuaCall) : okCalls s.trace i c = 0 :=
  List.count_eq_zero_of_not_mem fun h => absurd (hs.trace_valid _ h) (Nat.not_lt.mpr hi)

theorem ThreadInv.record {s : LuaSys} (hs : ThreadInv s) {i : Nat} {pc : EvalPc}
    (hpc : s.evals[i]? = some pc) {c : LuaCall} (hc : pc.next = some c) (r : Status)
    (holder : Option Nat) : ThreadInv (s.record i pc c r holder) := by
  have hi : i < s.evals.length := (List.getElem?_eq_some_iff.mp hpc).1
  have hU : ∀ j x, (j, LuaCall.unlock, x) ∈ s.trace →
      (j, LuaCall.unlock, x) ∈ (s.record i pc c r holder).trace :=
    fun _ _ h => List.mem_append_left _ h
  refine ⟨fun e he => ?_, fun j pc' hj => ?_⟩
  · rw [LuaSys.record, List.length_set]
    rcases List.mem_append.mp he with he | he
    · exact hs.trace_valid e he
    · rw [List.mem_singleton.mp he]; exact hi
  · rcases LuaSys.record_evals_cases hpc hj with ⟨hji, rfl⟩ | ⟨hji, hj⟩
    · subst hji
      have hu : c = .unlock → (j, LuaCall.unlock, r) ∈ (s.record j pc c r holder).trace :=
        fun hcu => List.mem_append_right _ (by rw [hcu]; exact List.mem_singleton_self _)
      simpa [LuaSys.record] using EvalPc.threads_after hc
        (fun x => (j, LuaCall.unlock, x) ∈ (s.record j pc c r holder).trace) hu (hs.threads j pc hpc)
    · simpa [LuaSys.record, Ne.symm hji] using (hs.threads j pc' hj).mono (hU j)

theorem ThreadInv.step {s s' : LuaSys} (hs : ThreadInv s) {c : LuaChoice}
    (h : s.step c = some s') : ThreadInv s' := by
  cases c with
  | start =>
    cases h
    refine ⟨fun e he => Nat.lt_of_lt_of_le (hs.trace_valid e he) (by simp), fun j pc hj => ?_⟩
    rcases getElem?_append_lockNew hj with hj | ⟨hle, rfl⟩
    · exact hs.threads j pc hj
    · exact ⟨hs.okCalls_eq_zero hle _, hs.okCalls_eq_zero hle _⟩
  | call i r =>
    obtain ⟨pc, c, hpc, hc, ⟨rfl, rfl, -, rfl⟩ | ⟨rfl, rfl, rfl⟩ | ⟨-, rfl⟩⟩ :=
      LuaSys.step_call_cases h <;>
    exact hs.record hpc hc _ _

theorem ThreadInv.run : ∀ {s s' : LuaSys} {sched : List LuaChoice}, ThreadInv s →
    s.run sched = some s' → ThreadInv s'
  | _, _, [], hs, h => by cases h; exact hs
  | s, _, c :: cs, hs, h => by
    obtain ⟨s₁, h₁, h⟩ := Option.bind_eq_some.mp h
    exact ThreadInv.run (hs.step h₁) h

/-- Over every interleaving an evaluation that returns `IB_OK` has created and joined one thread,
and one that fails has joined none unless its unlock failed. -/
theorem lua_threads_joined (sched : List LuaChoice) (s : LuaSys)
    (h : LuaSys.init.run sched = some s) :
    (∀ i, okCalls s.trace i .joinThread ≤ okCalls s.trace i .newThread ∧
      okCalls s.trace i .newThread ≤ 1) ∧
    (∀ i, s.evals[i]? = some (.returned .ok) →
      okCalls s.trace i .newThread = 1 ∧ okCalls s.trace i .joinThread = 1) ∧
    (∀ i rc, s.evals[i]? = some (.returned rc) → rc ≠ .ok →
      okCalls s.trace i .joinThread = 0 ∨ okCalls s.trace i .newThread = 1 ∧
        okCalls s.trace i .joinThread = 1 ∧ (i, .unlock, rc) ∈ s.trace) := by
  have hs := threadInv_init.run h
  refine ⟨fun i => ?_, fun i hi => hs.threads i _ hi, fun i rc hi hrc => ?_⟩
  · cases hpc : s.evals[i]? with
    | some pc => exact (hs.threads i pc hpc).le
    | none =>
      have hi := List.getElem?_eq_none_iff.mp hpc
      rw [hs.okCalls_eq_zero hi, hs.okCalls_eq_zero hi]
      exact ⟨le_rfl, Nat.zero_le _⟩
  · have := hs.threads i _ hi
    simp only [EvalPc.Threads, if_neg hrc] at this
    exact this.imp_left And.right

theorem lua_threads_joined_failed_unlock :
    ∃ s : LuaSys, LuaSys.init.run [.start, .start, .call 0 .ok, .call 0 .ok, .call 0 .ok,
        .call 0 .eunknown, .call 1 .ok, .call 1 .ok, .call 1 .ok, .call 1 .ok, .call 1 .ok,
        .call 1 .ok, .call 1 .eunknown] = some s ∧
      (∀ i, okCalls s.trace i .joinThread ≤ okCalls s.trace i .newThread ∧
        okCalls s.trace i .newThread ≤ 1) ∧
      (∀ i, s.evals[i]? = some (.returned .ok) →
        okCalls s.trace i .newThread = 1 ∧ okCalls s.trace i .joinThread = 1) ∧
      (∀ i rc, s.evals[i]? = some (.returned rc) → rc ≠ .ok →
        okCalls s.trace i .joinThread = 0 ∨ okCalls s.trace i .newThread = 1 ∧
          okCalls s.trace i .joinThread = 1 ∧ (i, .unlock, rc) ∈ s.trace) :=
  ⟨_, rfl, lua_threads_joined [.start, .start, .call 0 .ok, .call 0 .ok, .call 0 .ok,
    .call 0 .eunknown, .call 1 .ok, .call 1 .ok, .call 1 .ok, .call 1 .ok, .call 1 .ok,
    .call 1 .ok, .call 1 .eunknown] _ rfl⟩

/-! ## Progress

An evaluation waits only for `g_lua_lock`, and the evaluation that holds it waits for nothing:
its next call is a thread call or the unlock. So while no unlock call has failed, the system
is never stuck while an evaluation has not returned, and a scheduler whose calls all return
`IB_OK` lets every evaluation run to its return. A failed unlock call ends that: its caller
has returned and keeps the lock, and no lock call succeeds again.
-/

def EvalPc.remaining : EvalPc → Nat
  | .lockNew => 7
  | .newThread => 6
  | .unlockNew _ => 5
  | .evalInt => 4
  | .lockJoin => 3
  | .joinThread => 2
  | .unlockJoin _ => 1
  | .returned _ => 0

theorem EvalPc.remaining_after {pc : EvalPc} {c : LuaCall} (hc : pc.next = some c)
    (r : Status) : (pc.after r).remaining < pc.remaining := by
  cases pc <;> simp only [EvalPc.next, reduceCtorEq] at hc <;> simp only [EvalPc.after] <;>
    (try split_ifs) <;> simp [EvalPc.remaining]

theorem EvalPc.remaining_eq_zero {pc : EvalPc} : pc.remaining = 0 ↔ ∃ rc, pc = .returned rc := by
  cases pc <;> simp [EvalPc.remaining]

theorem EvalPc.next_of_remaining {pc : EvalPc} (h : pc.remaining ≠ 0) : ∃ c, pc.next = some c := by
  cases pc <;> simp_all [EvalPc.remaining, EvalPc.next]

def remainingCalls : List EvalPc → Nat
  | [] => 0
  | pc :: pcs => pc.remaining + remainingCalls pcs

theorem remainingCalls_set : ∀ (pcs : List EvalPc) (i : Nat) (a pc : EvalPc),
    pcs[i]? = some pc →
      remainingCalls (pcs.set i a) + pc.remaining = remainingCalls pcs + a.remaining
  | [], _, _, _, h => absurd h (by simp)
  | p :: pcs, 0, a, pc, h => by
    rw [List.getElem?_cons_zero, Option.some.injEq] at h
    subst h
    simp only [List.set_cons_zero, remainingCalls]
    omega
  | p :: pcs, i + 1, a, pc, h => by
    have := remainingCalls_set pcs i a pc (by simpa using h)
    simp only [List.set_cons_succ, remainingCalls]
    omega

theorem remainingCalls_eq_zero : ∀ {pcs : List EvalPc},
    remainingCalls pcs = 0 ↔ ∀ (i : Nat) (pc : EvalPc), pcs[i]? = some pc → pc.remaining = 0
  | [] => by simp [remainingCalls]
  | p :: pcs => by
    rw [remainingCalls, Nat.add_eq_zero_iff, remainingCalls_eq_zero]
    constructor
    · rintro ⟨hp, hs⟩ (_ | i) pc h
      · rw [List.getElem?_cons_zero, Option.some.injEq] at h
        exact h ▸ hp
      · exact hs i pc (by rwa [List.getElem?_cons_succ] at h)
    · intro h
      exact ⟨h 0 p List.getElem?_cons_zero,
        fun i pc hi => h (i + 1) pc (by rwa [List.getElem?_cons_succ])⟩

def LuaSys.pending (s : LuaSys) : Nat := remainingCalls s.evals

theorem LuaSys.pending_record {s : LuaSys} {i : Nat} {pc : EvalPc} (hpc : s.evals[i]? = some pc)
    {c : LuaCall} (hc : pc.next = some c) (c' : LuaCall) (r : Status) (holder : Option Nat) :
    (s.record i pc c' r holder).pending < s.pending := by
  have hset := remainingCalls_set s.evals i (pc.after r) pc hpc
  have hlt := EvalPc.remaining_after hc r
  show remainingCalls (s.evals.set i (pc.after r)) < remainingCalls s.evals
  omega

theorem LuaSys.pending_step {s s' : LuaSys} {i : Nat} {r : Status}
    (h : s.step (.call i r) = some s') : s'.pending < s.pending := by
  obtain ⟨pc, c, hpc, hc, ⟨-, -, -, rfl⟩ | ⟨-, -, rfl⟩ | ⟨-, rfl⟩⟩ := LuaSys.step_call_cases h <;>
    exact LuaSys.pending_record hpc hc _ _ _

theorem LuaSys.step_call_some {s : LuaSys} {i : Nat} {pc : EvalPc} (hpc : s.evals[i]? = some pc)
    {c : LuaCall} (hc : pc.next = some c) (hl : c = .lock → s.holder = none) (r : Status) :
    ∃ s', s.step (.call i r) = some s' := by
  simp only [LuaSys.step, hpc, hc]
  cases c
  · rw [hl rfl]; by_cases hr : r = .ok <;> simp [hr]
  all_goals exact ⟨_, rfl⟩

def LuaSys.UnlocksOk (s : LuaSys) : Prop := ∀ e ∈ s.trace, e.2.1 = .unlock → e.2.2 = .ok

theorem LuaSys.UnlocksOk.step {s s' : LuaSys} (hu : s.UnlocksOk) {i : Nat}
    (h : s.step (.call i .ok) = some s') : s'.UnlocksOk := by
  have hrec : ∀ pc c holder, (s.record i pc c .ok holder).UnlocksOk := fun _ _ _ e he =>
    (List.mem_append.mp he).elim (hu e) fun he _ => by rw [List.mem_singleton.mp he]
  obtain ⟨pc, c, -, -, ⟨-, -, -, rfl⟩ | ⟨-, -, rfl⟩ | ⟨-, rfl⟩⟩ := LuaSys.step_call_cases h <;>
    exact hrec _ _ _

theorem LockInv.progress {s : LuaSys} (hs : LockInv s) (hu : s.UnlocksOk) (h : s.pending ≠ 0) :
    ∃ i s', s.step (.call i .ok) = some s' := by
  cases hh : s.holder with
  | some j =>
    rcases hs.holdsLock_of_holder j hh with ⟨pc, hpc, hheld⟩ | ⟨r, hr, hm⟩
    · obtain ⟨c, hc, hcl⟩ := EvalPc.next_of_holdsLock hheld
      exact ⟨j, LuaSys.step_call_some hpc hc (fun h => absurd h hcl) _⟩
    · exact absurd (hu _ hm rfl) hr
  | none =>
    obtain ⟨i, pc, hpc, hne⟩ :
        ∃ (i : Nat) (pc : EvalPc), s.evals[i]? = some pc ∧ pc.remaining ≠ 0 := by
      by_contra hno
      exact h (remainingCalls_eq_zero.mpr fun i pc hpc => by
        by_contra hne; exact hno ⟨i, pc, hpc, hne⟩)
    obtain ⟨c, hc⟩ := EvalPc.next_of_remaining hne
    exact ⟨i, LuaSys.step_call_some hpc hc (fun _ => hh) _⟩

theorem LockInv.complete {s : LuaSys} (hs : LockInv s) (hu : s.UnlocksOk) :
    ∃ sched s', s.run sched = some s' ∧ (∀ c ∈ sched, ∃ i, c = .call i .ok) ∧ s'.pending = 0 := by
  by_cases h0 : s.pending = 0
  · exact ⟨[], s, rfl, fun _ h => absurd h (List.not_mem_nil _), h0⟩
  · obtain ⟨i, s₁, h₁⟩ := hs.progress hu h0
    obtain ⟨sched, s', hrun, hok, hz⟩ := (hs.step h₁).complete (hu.step h₁)
    refine ⟨.call i .ok :: sched, s', by rw [LuaSys.run, h₁, Option.some_bind]; exact hrun,
      fun c hc => ?_, hz⟩
    rcases List.mem_cons.mp hc with rfl | hc
    exacts [⟨i, rfl⟩, hok c hc]
termination_by s.pending
decreasing_by exact LuaSys.pending_step h₁

/-- While no unlock has failed the evaluations never deadlock, and a schedule of `IB_OK` calls runs
them all to their return. -/
theorem lua_evaluations_complete (sched : List LuaChoice) (s : LuaSys)
    (h : LuaSys.init.run sched = some s)
    (hunlock : ∀ e ∈ s.trace, e.2.1 = LuaCall.unlock → e.2.2 = .ok) :
    ((∃ (i : Nat) (pc : EvalPc), s.evals[i]? = some pc ∧ pc.next ≠ none) →
      ∃ i s', s.step (.call i .ok) = some s') ∧
    ∃ sched' s', s.run sched' = some s' ∧ (∀ c ∈ sched', ∃ i, c = LuaChoice.call i .ok) ∧
      ∀ (i : Nat) (pc : EvalPc), s'.evals[i]? = some pc → ∃ rc, pc = .returned rc := by
  have hs := lockInv_init.run h
  refine ⟨fun ⟨i, pc, hpc, hnext⟩ => hs.progress hunlock fun h0 => ?_, ?_⟩
  · have := remainingCalls_eq_zero.mp h0 i pc hpc
    obtain ⟨rc, rfl⟩ := EvalPc.remaining_eq_zero.mp this
    exact hnext rfl
  · obtain ⟨sched', s', hrun, hok, hz⟩ := hs.complete hunlock
    exact ⟨sched', s', hrun, hok, fun i pc hpc =>
      EvalPc.remaining_eq_zero.mp (remainingCalls_eq_zero.mp hz i pc hpc)⟩

theorem lua_evaluations_complete_waiting :
    ∃ s : LuaSys, LuaSys.init.run [.start, .start, .call 0 .ok] = some s ∧
      (∀ e ∈ s.trace, e.2.1 = LuaCall.unlock → e.2.2 = .ok) ∧
      ((∃ (i : Nat) (pc : EvalPc), s.evals[i]? = some pc ∧ pc.next ≠ none) →
        ∃ i s', s.step (.call i .ok) = some s') ∧
      ∃ sched' s', s.run sched' = some s' ∧ (∀ c ∈ sched', ∃ i, c = LuaChoice.call i .ok) ∧
        ∀ (i : Nat) (pc : EvalPc), s'.evals[i]? = some pc → ∃ rc, pc = .returned rc :=
  ⟨_, rfl, by decide, lua_evaluations_complete [.start, .start, .call 0 .ok] _ rfl (by decide)⟩

theorem LockInv.step_keeps_failed {s s' : LuaSys} (hs : LockInv s) {i : Nat} {r : Status}
    (hr : r ≠ .ok) (hfail : (i, LuaCall.unlock, r) ∈ s.trace) {c : LuaChoice}
    (h : s.step c = some s') :
    (i, LuaCall.unlock, r) ∈ s'.trace ∧ ∀ j, okCalls s'.trace j .lock = okCalls s.trace j .lock := by
  cases c with
  | start => cases h; exact ⟨hfail, fun _ => rfl⟩
  | call k r' =>
    obtain ⟨pc, c, -, -, ⟨-, -, hfree, -⟩ | ⟨-, -, rfl⟩ | ⟨hr', rfl⟩⟩ := LuaSys.step_call_cases h
    · rw [(hs.failed_unlock i r hr hfail).1] at hfree
      cases hfree
    · exact ⟨List.mem_append_left _ hfail, fun j => by simp [LuaSys.record]⟩
    · refine ⟨List.mem_append_left _ hfail, fun j => ?_⟩
      rw [LuaSys.record, okCalls_append, if_neg fun ⟨_, hc, hok⟩ => hr' (.inl hc) hok]
      rfl

theorem LockInv.run_keeps_failed : ∀ {s s' : LuaSys} {sched : List LuaChoice}, LockInv s →
    ∀ {i : Nat} {r : Status}, r ≠ .ok → (i, LuaCall.unlock, r) ∈ s.trace →
      s.run sched = some s' → LockInv s' ∧ (i, LuaCall.unlock, r) ∈ s'.trace ∧
        ∀ j, okCalls s'.trace j .lock = okCalls s.trace j .lock
  | _, _, [], hs, _, _, _, hfail, h => by cases h; exact ⟨hs, hfail, fun _ => rfl⟩
  | s, _, c :: cs, hs, i, r, hr, hfail, h => by
    obtain ⟨s₁, h₁, h⟩ := Option.bind_eq_some.mp h
    obtain ⟨hfail₁, hlock₁⟩ := hs.step_keeps_failed hr hfail h₁
    obtain ⟨hs', hfail', hlock'⟩ := LockInv.run_keeps_failed (hs.step h₁) hr hfail₁ h
    exact ⟨hs', hfail', fun j => (hlock' j).trans (hlock₁ j)⟩

/-- After a failed unlock its caller keeps `g_lua_lock` for good, and no lock call succeeds again.
-/
theorem lua_failed_unlock_keeps_lock (sched sched' : List LuaChoice) (s s' : LuaSys) (i : Nat)
    (r : Status) (h : LuaSys.init.run sched = some s) (hfail : (i, LuaCall.unlock, r) ∈ s.trace)
    (hr : r ≠ .ok) (h' : s.run sched' = some s') :
    s'.holder = some i ∧ s'.evals[i]? = some (.returned r) ∧
      ∀ j, okCalls s'.trace j .lock = okCalls s.trace j .lock := by
  obtain ⟨hs', hfail', hlock⟩ := (lockInv_init.run h).run_keeps_failed hr hfail h'
  exact ⟨(hs'.failed_unlock i r hr hfail').1, (hs'.failed_unlock i r hr hfail').2, hlock⟩

theorem lua_failed_unlock_keeps_lock_second :
    ∃ s s' : LuaSys, LuaSys.init.run [.start, .call 0 .ok, .call 0 .ok, .call 0 .eunknown] =
        some s ∧ s.run [.start, .call 1 .eunknown] = some s' ∧
      (0, LuaCall.unlock, Status.eunknown) ∈ s.trace ∧ Status.eunknown ≠ .ok ∧
      s'.holder = some 0 ∧ s'.evals[0]? = some (.returned .eunknown) ∧
        ∀ j, okCalls s'.trace j .lock = okCalls s.trace j .lock :=
  ⟨_, _, rfl, rfl, by decide, by decide,
    lua_failed_unlock_keeps_lock [.start, .call 0 .ok, .call 0 .ok, .call 0 .eunknown]
      [.start, .call 1 .eunknown] _ _ 0 .eunknown rfl (by decide) (by decide) rfl⟩

end IronBee.Rules
