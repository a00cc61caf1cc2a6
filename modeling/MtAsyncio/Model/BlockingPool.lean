/-
Module: MtAsyncio.Model.BlockingPool
Purpose: `BlockingRunnerPool::run`, `BlockingRunnerPool::spawn_thread` and
  `blocking_worker` of `blocking.rs`, one step for each atomic operation.
Trusted boundary: the channel is an unbounded FIFO whose operations are atomic,
  a `recv` times out only when it is empty, the counters do not wrap, and
  `thread::spawn` starts a thread
Main exports: RunPc, WorkerPc, State, Act, runStep, workerStep, step, machine
-/
import Mathlib.Logic.Function.Basic
import MtAsyncio.Lib.Machine

namespace MtAsyncio.BlockingPool

open Lib (Machine)

/-!
Threads drawn from `R` call `run`, workers are drawn from `W`, and the tasks are
values of `T`.  What a task does is its own affair: the model keeps it from the
send to the end of `BlockingTask::run`.
-/

/-- Where a call of `run` stands; `threads` is what it has read. -/
inductive RunPc (T : Type) where
  | idle
  | load (task : T)
  | send (task : T) (threads : Nat)
  | decide_ (threads : Nat)
  -- `spawn_thread`
  | claim
  | unclaim
  | start
deriving DecidableEq

/-- Where a worker stands. -/
inductive WorkerPc (T : Type) where
  | absent
  | waits
  | recv
  | received (task : T)
  | run (task : T)
  | timedOut
  | leaving
  | gone
deriving DecidableEq

structure State (T R W : Type) where
  queue : List T
  threads : Nat
  load : Int
  call : R → RunPc T
  worker : W → WorkerPc T

variable {T R W : Type} [DecidableEq R] [DecidableEq W]

def State.setCall (s : State T R W) (r : R) (pc : RunPc T) : State T R W :=
  { s with call := Function.update s.call r pc }

def State.setWorker (s : State T R W) (w : W) (pc : WorkerPc T) : State T R W :=
  { s with worker := Function.update s.worker w pc }

inductive Act (T R W : Type) where
  /-- thread `r` calls `run(task)` -/
  | run (r : R) (task : T)
  /-- the next step of that call; `w` is the thread that `thread::spawn` starts -/
  | call (r : R) (w : W)
  /-- the next step of worker `w` -/
  | worker (w : W)

/-- The next step of a call of `run`. -/
def runStep (tmax : Nat) (s : State T R W) (r : R) (w : W) : Option (State T R W) :=
  match s.call r with
  | .idle => none
  | .load task => some (s.setCall r (.send task s.threads))
  | .send task threads =>
      some ({ s with queue := s.queue ++ [task] }.setCall r (.decide_ threads))
  | .decide_ threads =>
      some ({ s with load := s.load + 1 }.setCall r
        (if 0 ≤ s.load ∧ threads < tmax then .claim else .idle))
  | .claim =>
      some ({ s with threads := s.threads + 1 }.setCall r
        (if tmax ≤ s.threads then .unclaim else .start))
  | .unclaim => some ({ s with threads := s.threads - 1 }.setCall r .idle)
  | .start =>
      match s.worker w with
      | .absent => some ((s.setWorker w .waits).setCall r .idle)
      | _ => none

/-- The next step of a worker; one that is in `recv` returns with a task when
there is one, and times out when there is none. -/
def workerStep (s : State T R W) (w : W) : Option (State T R W) :=
  match s.worker w with
  | .absent | .gone => none
  | .waits => some ({ s with load := s.load - 1 }.setWorker w .recv)
  | .recv =>
      match s.queue with
      | [] => some (s.setWorker w .timedOut)
      | task :: rest => some ({ s with queue := rest }.setWorker w (.received task))
  | .received task => some ({ s with load := s.load + 1 }.setWorker w (.run task))
  | .run _ => some (s.setWorker w .waits)
  | .timedOut => some ({ s with load := s.load + 1 }.setWorker w .leaving)
  | .leaving => some ({ s with threads := s.threads - 1 }.setWorker w .gone)

def step (tmax : Nat) (s : State T R W) : Act T R W → Option (State T R W)
  | .run r task =>
      match s.call r with
      | .idle => some (s.setCall r (.load task))
      | _ => none
  | .call r w => runStep tmax s r w
  | .worker w => workerStep s w

/-- `BlockingRunnerPool::new` -/
def Start (s : State T R W) : Prop :=
  s.queue = [] ∧ s.threads = 0 ∧ s.load = 0 ∧ (∀ r, s.call r = .idle) ∧
    ∀ w, s.worker w = .absent

def machine (tmax : Nat) (T R W : Type) [DecidableEq R] [DecidableEq W] :
    Machine (State T R W) (Act T R W) where
  start := Start
  step := step tmax

end MtAsyncio.BlockingPool
