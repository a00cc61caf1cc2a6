/-
Module: MtAsyncio.Model.Shutdown
Purpose: How `Runtime::_run` ends: `stop_threads` of `src/runtime.rs` raises the stop
  flag, unparks every worker and waits on the condition variable that `work_loop` of
  `src/work.rs` counts down, while the workers and the producers of `WorkSchedule` go on.
Trusted boundary: a mutex and a condition variable behave as such; the wait may be
  left spuriously
Main exports: Teardown, State, Act, step, Start, spawned, machine
-/
import MtAsyncio.Model.WorkSchedule

namespace MtAsyncio.Shutdown

open Lib (Machine)
open WorkSchedule (PushOp)

/-- The thread that runs `_run`, from its poll loop on. -/
inductive Teardown where
  | polling
  | storeStopping
  | unpark (k : Nat)
  /-- it has the mutex and looks at `pending` -/
  | test
  /-- in `wait_while`, without the mutex -/
  | waiting
  | returned
deriving DecidableEq

/-- `pending` is what the condition variable guards; `counted` tells the workers that
have decremented it.  Nothing in the program reads `pushed` and `ran`: the handles that
were pushed, and those whose `run` has returned. -/
structure State (n m : Nat) (H : Type) where
  work : WorkSchedule.State n m H
  teardown : Teardown
  pending : Nat
  counted : Fin n → Bool
  pushed : List H
  ran : List H

inductive Act (n m : Nat) (H : Type) where
  | worker (i : Fin n)
  | runPush (i : Fin n) (op : PushOp) (h : H)
  | runEnd (i : Fin n)
  | producerPush (p : Fin m) (op : PushOp) (h : H)
  | producer (p : Fin m)
  /-- the poll loop is left -/
  | leave
  /-- the next step of `stop_threads` -/
  | teardown
  /-- a worker behind its loop: `*pending -= 1; cvar.notify_one()` -/
  | countdown (i : Fin n)
  /-- the wait is left without a notification -/
  | spurious

variable {n m : Nat} {H : Type}

/-- A step of `WorkSchedule`. -/
def State.working (s : State n m H) (a : WorkSchedule.Act n m H) : Option (State n m H) :=
  (WorkSchedule.step s.work a).map fun work => { s with work := work }

/-- What a worker has in its hands while it runs it. -/
def running (pc : WorkSchedule.WorkerPc n H) : List H :=
  match pc with
  | .run h => [h]
  | _ => []

/-- The loop of the worker is left. -/
def ended (pc : WorkSchedule.WorkerPc n H) : Bool :=
  match pc with
  | .exited => true
  | _ => false

/-- `stop_threads` -/
def teardownStep (s : State n m H) : Option (State n m H) :=
  match s.teardown with
  | .polling => none
  | .storeStopping => { s with teardown := .unpark 0 }.working .stop
  | .unpark k =>
      if inside : k < n then
        { s with teardown := .unpark (k + 1) }.working (.stopUnpark ⟨k, inside⟩)
      else some { s with teardown := .test }
  | .test => some { s with teardown := if 0 < s.pending then .waiting else .returned }
  | .waiting => none
  | .returned => none

def step (s : State n m H) : Act n m H → Option (State n m H)
  | .worker i => s.working (.worker i)
  | .runPush i op h => { s with pushed := h :: s.pushed }.working (.runPush i op h)
  | .runEnd i => { s with ran := running (s.work.worker i).pc ++ s.ran }.working (.runEnd i)
  | .producerPush p op h => { s with pushed := h :: s.pushed }.working (.producerPush p op h)
  | .producer p => s.working (.producer p)
  | .leave => if s.teardown = .polling then some { s with teardown := .storeStopping } else none
  | .teardown => teardownStep s
  | .countdown i =>
      if ended (s.work.worker i).pc ∧ s.counted i = false then
        some { s with
          pending := s.pending - 1
          counted := Function.update s.counted i true
          teardown := if s.teardown = .waiting then .test else s.teardown }
      else none
  | .spurious => if s.teardown = .waiting then some { s with teardown := .test } else none

/-- The workers have been spawned and the poll loop begins; the handles that were pushed
before wait in the injector. -/
def Start (s : State n m H) : Prop :=
  WorkSchedule.Start s.work ∧ s.teardown = .polling ∧ s.pending = n ∧
    (∀ i, s.counted i = false) ∧ s.pushed = s.work.shared.injector ∧ s.ran = []

/-- A runtime with these handles in its injector. -/
def spawned (n m : Nat) {H : Type} (injector : List H) : State n m H where
  work := {
    shared := {
      injector := injector, deque := fun _ => [], idleFlag := fun _ => false, idleCount := 0,
      speculation := 0, parkToken := fun _ => false, workStopping := false }
    worker := fun _ => { pc := .findWork false .own, isSpeculating := false }
    producer := fun _ => none }
  teardown := .polling
  pending := n
  counted := fun _ => false
  pushed := injector
  ran := []

theorem spawned_start (injector : List H) : Start (spawned n m injector) := by
  refine ⟨⟨fun _ => rfl, fun _ => rfl, rfl, rfl, fun _ => rfl, rfl, fun _ => rfl, ?_⟩, rfl, rfl,
    fun _ => rfl, rfl, rfl⟩
  exact fun _ => rfl

def machine (n m : Nat) (H : Type) : Machine (State n m H) (Act n m H) where
  start := Start
  step := step

end MtAsyncio.Shutdown
