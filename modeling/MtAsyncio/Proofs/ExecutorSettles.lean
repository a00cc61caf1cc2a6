/-
Module: MtAsyncio.Proofs.ExecutorSettles
Purpose: Once a thread of the pool has the function of a call of `run_in_executor`, the
  future of that call is bound to be done, in whatever order the thread, `_drain` and the
  loop get on, unless the function raises a `StopIteration`; then it never is.
Trusted boundary: the function returns; the loop stays open
Main exports: own, Underway, rank, underway_enabled, underway_step, executor_settles,
  executor_hangs
-/
import MtAsyncio.Proofs.ExecutorAnswers

namespace MtAsyncio.Executor

open Lib (Machine)
open BlockingPool (move_of_step)

variable {C W O : Type} [DecidableEq C] [DecidableEq W] {tmax : Nat} {stops : Obj O → Bool}
  {s s' : State C W O} {a : Act C W O} {c d : C} {w : W} {k k' : Call O} {closed : Bool}
  {at_ : Option W}

/-- The steps that the call of `c` waits for. -/
def own (c : C) : Act C W O → Prop
  | .calls _ d _ _ | .runs _ d | .drain d | .handle d => d = c
  | _ => False

/-- The future is done, or its answer is one that it cannot take. -/
def Call.Through (stops : Obj O → Bool) (k : Call O) : Prop :=
  k.afut ≠ .pending ∨ ∃ e, k.answer = some (.exception e) ∧ stops e = true

/-- A thread has the function, or has been through with it, or it was refused. -/
structure Underway (stops : Obj O → Bool) (at_ : Option W) (c : C) (s : State C W O) : Prop where
  answers : Answers stops s
  opened : s.closed = false
  returned : (s.call c).caller = .returned
  begun : match at_ with
    | some w => running (s.pool.worker w) = some c ∨ (s.call c).event = true
    | none => (s.call c).event = true ∨ (s.call c).handed = false

/-! ## How far a call is -/

def Body.rank : Body O → Nat
  | .call => 4
  | .storeFlag _ _ => 3
  | .storeValue _ => 2
  | .set_ => 1

def DrainPc.rank : DrainPc O → Nat
  | .queued => 4
  | .waits => 3
  | .fetched _ _ => 2
  | .callbacks => 1
  | .absent | .finished => 0

/-- The callbacks of `cfut` queue one handle. -/
def Call.rank (k : Call O) : Nat :=
  2 * k.drain.rank + k.handles.length

def rank (at_ : Option W) (c : C) (s : State C W O) : Nat :=
  (match at_ with
    | some w => if (s.call c).event then 0 else (s.body w).rank
    | none => 0) + (s.call c).rank

/-! ## There is a next step -/

/-- A thread can go back to its loop. -/
theorem finish_enabled (tmax : Nat) {pool : BlockingPool.State C C W}
    (here : running (pool.worker w) = some c) :
    BlockingPool.step tmax pool (.worker w) = some (pool.setWorker w .waits) := by
  cases pc : pool.worker w with
  | run d => simp only [BlockingPool.step, BlockingPool.workerStep, pc]
  | absent | waits | recv | received | timedOut | leaving | gone =>
      rw [pc] at here
      cases here

theorem own_enabled (isOwn : own c a) (can : (step tmax stops s a).isSome = true) :
    ∃ a s', own c a ∧ step tmax stops s a = some s' := by
  obtain ⟨s', taken⟩ := Option.isSome_iff_exists.mp can
  exact ⟨a, s', isOwn, taken⟩

/-- The thread that has the function can go on. -/
theorem runs_enabled (tmax : Nat) (stops : Obj O → Bool)
    (here : running (s.pool.worker w) = some c) :
    ∃ a s', own c a ∧ step tmax stops s a = some s' := by
  have isCall : own c (.calls w c false .none : Act C W O) := rfl
  have isRuns : own c (.runs w c : Act C W O) := rfl
  cases stage : s.body w with
  | call =>
      refine own_enabled isCall ?_
      simp only [step, stage, here, if_true, Option.isSome_some]
  | storeFlag raised v | storeValue v =>
      refine own_enabled isRuns ?_
      simp only [step, here, if_true, runsStep, stage, Option.isSome_some]
  | set_ =>
      refine own_enabled isRuns ?_
      simp only [step, here, if_true, runsStep, stage, finish_enabled tmax here, Option.map_some,
        Option.isSome_some]

theorem drain_enabled (stops : Obj O → Bool)
    (moved : (s.call c).drainStep s.closed = some k) :
    ∃ a s', own c a ∧ step tmax stops s a = some s' :=
  ⟨.drain c, s.setCall c k, rfl, by simp only [step, moved, Option.map_some]⟩

/-- Behind `cfut` there is a handle to run, unless the future is through. -/
theorem handle_enabled (sound : Sound stops s.closed (s.call c)) (fired : (s.call c).fired = 1)
    (waits : ¬(s.call c).Through stops) : ∃ a s', own c a ∧ step tmax stops s a = some s' := by
  cases queue : (s.call c).handles with
  | nil =>
      refine absurd ?_ waits
      by_cases pending : (s.call c).afut = .pending
      · obtain ⟨e, settled, stopped⟩ := sound.left fired queue pending
        exact .inr ⟨e, sound.answered _ settled, stopped⟩
      · exact .inl pending
  | cons x rest =>
      have isOwn : own c (.handle c : Act C W O) := rfl
      refine own_enabled isOwn ?_
      simp only [step, queue, Option.isSome_some]

theorem underway_enabled (underway : Underway stops at_ c s)
    (waits : ¬(s.call c).Through stops) : ∃ a s', own c a ∧ step tmax stops s a = some s' := by
  have sound := underway.answers.sound c
  -- `_drain` is on its way, or has told the loop
  have behind : (s.call c).event = true ∨ (s.call c).handed = false →
      ∃ a s', own c a ∧ step tmax stops s a = some s' := by
    intro over_
    cases stage : (s.call c).drain with
    | absent =>
        have fired : (s.call c).fired = 1 := by
          cases callback : (s.call c).callback with
          | true => exact absurd stage (sound.listens callback)
          | false => exact (sound.direct underway.returned callback).2.2 underway.opened
        exact handle_enabled sound fired waits
    | queued => exact drain_enabled stops (by unfold Call.drainStep; rw [stage])
    | waits =>
        have event : (s.call c).event = true := by
          rcases over_ with event | unhanded
          · exact event
          · rw [(sound.unhanded unhanded).1] at stage
            cases stage
        exact drain_enabled stops (by unfold Call.drainStep; rw [stage]; exact if_pos event)
    | fetched err val => exact drain_enabled stops (by unfold Call.drainStep; rw [stage])
    | callbacks => exact drain_enabled stops (by unfold Call.drainStep; rw [stage])
    | finished =>
        have fired : (s.call c).fired = 1 := by
          cases callback : (s.call c).callback with
          | true => exact (sound.watched callback).2.2 stage underway.opened
          | false => exact (sound.direct underway.returned callback).2.2 underway.opened
        exact handle_enabled sound fired waits
  have begun := underway.begun
  cases at_ with
  | none => exact behind begun
  | some w =>
      rcases begun with here | event
      · exact runs_enabled tmax stops here
      · exact behind (.inl event)

/-! ## A step gets the call on -/

omit [DecidableEq C] [DecidableEq W] in
/-- The thread that runs `c` is the one that has it, and its event is not set. -/
theorem Underway.thread (underway : Underway stops at_ c s)
    (here : running (s.pool.worker w) = some c) :
    at_ = some w ∧ (s.call c).event = false := by
  have placed := underway.answers.placed
  have event : (s.call c).event = false :=
    Bool.eq_false_of_not_eq_true (placed.apart (p := .ended) here (fun no => nomatch no))
  have begun := underway.begun
  cases at_ with
  | none =>
      rcases begun with set_ | unhanded
      · exact absurd (event.symm.trans set_) Bool.false_ne_true
      · exact absurd here (underway.answers.unbegun unhanded w)
  | some v =>
      rcases begun with runs | set_
      · exact ⟨congrArg some (placed.unique (held_of_running here) (held_of_running runs)), event⟩
      · exact absurd (event.symm.trans set_) Bool.false_ne_true

theorem drain_rank (moved : k.drainStep closed = some k') : k'.rank < k.rank := by
  unfold Call.drainStep at moved
  split at moved
  · cases moved
  · cases moved
  · rename_i stage
    obtain rfl := Option.some.inj moved
    simp only [Call.rank, stage, DrainPc.rank]
    omega
  · rename_i stage
    split at moved
    · obtain rfl := Option.some.inj moved
      simp only [Call.rank, stage, DrainPc.rank]
      omega
    · cases moved
  · rename_i err val stage
    obtain rfl := Option.some.inj moved
    unfold Call.settle
    split <;> simp only [Call.rank, stage, DrainPc.rank] <;> omega
  · rename_i stage
    obtain rfl := Option.some.inj moved
    have longer : (k.onDone closed).handles.length ≤ k.handles.length + 1 := by
      unfold Call.onDone
      split
      · split
        · exact Nat.le_succ _
        · exact Nat.le_of_eq (List.length_append ..)
      · exact Nat.le_succ _
    split <;> simp only [Call.rank, stage, DrainPc.rank] <;> omega

theorem drain_keeps (moved : k.drainStep closed = some k') :
    k'.caller = k.caller ∧ k'.event = k.event ∧ k'.handed = k.handed := by
  unfold Call.drainStep at moved
  split at moved
  · cases moved
  · cases moved
  · obtain rfl := Option.some.inj moved
    exact ⟨rfl, rfl, rfl⟩
  · split at moved
    · obtain rfl := Option.some.inj moved
      exact ⟨rfl, rfl, rfl⟩
    · cases moved
  · obtain rfl := Option.some.inj moved
    unfold Call.settle
    split <;> exact ⟨rfl, rfl, rfl⟩
  · obtain rfl := Option.some.inj moved
    rw [onDone_keeps]
    split <;> exact ⟨rfl, rfl, rfl⟩

omit [DecidableEq W] in
/-- The call of `c` goes on outside of the pool. -/
theorem Underway.moves (underway : Underway stops at_ c s) (answers : Answers stops (s.setCall c k))
    (keeps : k.caller = (s.call c).caller ∧ k.event = (s.call c).event ∧
      k.handed = (s.call c).handed) (less : k.rank < (s.call c).rank) :
    Underway stops at_ c (s.setCall c k) ∧ rank at_ c (s.setCall c k) < rank at_ c s := by
  obtain ⟨caller, event, handed⟩ := keeps
  have begun := underway.begun
  refine ⟨⟨answers, underway.opened, ?_, ?_⟩, ?_⟩
  · rw [State.setCall_call_self, caller]
    exact underway.returned
  · rw [State.setCall_call_self, event, handed]
    exact begun
  · unfold rank
    rw [State.setCall_call_self, event]
    exact Nat.add_lt_add_left less _

/-- The thread that has the function of `c` goes on. -/
theorem Underway.advance {b : Body O} (underway : Underway stops at_ c s)
    (here : running (s.pool.worker w) = some c)
    (answers : Answers stops ((s.setCall c k).setBody w b))
    (caller : k.caller = (s.call c).caller) (event : k.event = (s.call c).event)
    (same : k.rank = (s.call c).rank) (less : b.rank < (s.body w).rank) :
    Underway stops at_ c ((s.setCall c k).setBody w b) ∧
      rank at_ c ((s.setCall c k).setBody w b) < rank at_ c s := by
  obtain ⟨rfl, unset⟩ := underway.thread here
  refine ⟨⟨answers, underway.opened, ?_, .inl here⟩, ?_⟩
  · rw [State.setBody_call, State.setCall_call_self, caller]
    exact underway.returned
  · have body : ((s.setCall c k).setBody w b).body w = b := Function.update_self ..
    simp only [rank, State.setBody_call, State.setCall_call_self, event, unset, same, body,
      Bool.false_eq_true, if_false]
    exact Nat.add_lt_add_right less _

theorem underway_step (underway : Underway stops at_ c s) (isOwn : own c a)
    (taken : step tmax stops s a = some s') :
    Underway stops at_ c s' ∧ rank at_ c s' < rank at_ c s := by
  have answers := answers_step underway.answers taken
  cases a with
  | calls w d raised v =>
      obtain rfl := isOwn
      simp only [step] at taken
      split at taken
      · rename_i stage
        split at taken
        · rename_i here
          obtain rfl := Option.some.inj taken
          refine underway.advance here answers rfl rfl rfl ?_
          rw [stage]
          exact Nat.lt_succ_self 3
        · cases taken
      · cases taken
  | runs w d =>
      obtain rfl := isOwn
      simp only [step] at taken
      split at taken
      · rename_i here
        unfold runsStep at taken
        split at taken
        · cases taken
        · rename_i raised v stage
          obtain rfl := Option.some.inj taken
          refine underway.advance here answers rfl rfl rfl ?_
          rw [stage]
          exact Nat.lt_succ_self 2
        · rename_i v stage
          obtain rfl := Option.some.inj taken
          refine underway.advance here answers rfl rfl rfl ?_
          rw [stage]
          exact Nat.lt_succ_self 1
        · rename_i stage
          obtain ⟨pool, moved, rfl⟩ := Option.map_eq_some_iff.mp taken
          obtain ⟨rfl, unset⟩ := underway.thread here
          refine ⟨⟨answers, underway.opened, ?_, .inr ?_⟩, ?_⟩
          · rw [State.setBody_call, State.setCall_call_self]
            exact underway.returned
          · rw [State.setBody_call, State.setCall_call_self]
          · simp only [rank, State.setBody_call, State.setCall_call_self, unset, stage, Body.rank,
              Bool.false_eq_true, if_true, if_false]
            exact Nat.add_lt_add_right Nat.zero_lt_one _
      · cases taken
  | drain d =>
      obtain rfl := isOwn
      obtain ⟨k, moved, rfl⟩ := Option.map_eq_some_iff.mp taken
      exact underway.moves answers (drain_keeps moved) (drain_rank moved)
  | handle d =>
      obtain rfl := isOwn
      simp only [step] at taken
      split at taken
      · cases taken
      · rename_i x rest queue
        obtain rfl := Option.some.inj taken
        refine underway.moves answers ⟨rfl, rfl, rfl⟩ ?_
        simp only [Call.rank, queue, List.length_cons]
        omega
  | submit d | refuse d e | pool b | spawn d | attach d | onDone d | cancel d | close => cases isOwn

/-- A call whose function a thread of the pool has taken, or has been through with, or which
was refused, gets an answer: its future is bound to be done unless that is a
`StopIteration`. -/
theorem executor_settles (reached : (machine tmax stops C W).Reachable s)
    (opened : s.closed = false) (returned : (s.call c).caller = .returned)
    (begun : (∃ w, running (s.pool.worker w) = some c) ∨ (s.call c).event = true ∨
      (s.call c).handed = false) :
    (machine tmax stops C W).Inevitably (own c) (fun s => (s.call c).Through stops) s := by
  have answers := answers_of_reachable reached
  have bound : ∀ at_ : Option W, Underway stops at_ c s →
      (machine tmax stops C W).Inevitably (own c) (fun s => (s.call c).Through stops) s := by
    intro at_ underway
    refine Machine.inevitably_of_measure (Underway stops at_ c) (rank at_ c) ?_ ?_ underway
    · exact fun s underway waits => underway_enabled underway waits
    · exact fun s a s' underway _ isOwn taken => underway_step underway isOwn taken
  rcases begun with ⟨w, here⟩ | over_
  · exact bound (some w) ⟨answers, opened, returned, .inl here⟩
  · exact bound none ⟨answers, opened, returned, over_⟩

theorem beganRun_ends :
    ((machine 1 isStop Nat Nat).exec freshLoop beganRun).any (fun s =>
      decide (s.closed = false ∧ (s.call 0).caller = .returned ∧
        running (s.pool.worker 0) = some 0 ∧ (s.call 0).afut = .pending)) = true := by
  decide +kernel

theorem executor_settles_began :
    ∃ s : State Nat Nat Nat, (s.call 0).afut = .pending ∧
      (machine 1 isStop Nat Nat).Inevitably (own 0) (fun s => (s.call 0).Through isStop) s := by
  obtain ⟨s, reached, ends⟩ := Machine.Reachable.exists_of_exec freshLoop_start beganRun_ends
  obtain ⟨opened, returned, here, pending⟩ := of_decide_eq_true ends
  exact ⟨s, pending, executor_settles reached opened returned (.inl ⟨0, here⟩)⟩

theorem stoppedRun_ends :
    ((machine 1 isStop Nat Nat).exec freshLoop (raisedRun (.other 0))).any (fun s =>
      decide ((s.call 0).caller = .returned ∧ (s.call 0).drain = .finished ∧
        (s.call 0).handles = [] ∧ (s.call 0).afut = .pending)) = true := by
  decide +kernel

/-- A `StopIteration` gets as far as the loop, and leaves the caller waiting. -/
theorem executor_hangs :
    ∃ s : State Nat Nat Nat, (machine 1 isStop Nat Nat).Reachable s ∧
      (s.call 0).caller = .returned ∧ (s.call 0).drain = .finished ∧ (s.call 0).handles = [] ∧
      (s.call 0).afut = .pending := by
  obtain ⟨s, reached, ends⟩ := Machine.Reachable.exists_of_exec freshLoop_start stoppedRun_ends
  exact ⟨s, reached, of_decide_eq_true ends⟩

end MtAsyncio.Executor
