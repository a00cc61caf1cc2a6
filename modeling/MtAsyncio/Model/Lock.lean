/-
Module: MtAsyncio.Model.Lock
Purpose: `Lock` of `_sync.py` over the task kernel: `acquire` with its except
  clause and `release`, whose `done()` test and `set_result()` are two steps.
Trusted boundary: as for `MtAsyncio.Model.Tasks`; a section under `_mu` that
  touches nothing another thread writes without `_mu` is one step
Main exports: LockPc, State, Act, Elsewhere, acquire, lockStep, machine
-/
import MtAsyncio.Model.Tasks

namespace MtAsyncio.Lock

open Lib (Machine)
open Tasks

/-- Where a task stands inside of the lock's code. -/
inductive LockPc (F : Type) where
  /-- not inside, and not the owner -/
  | outside
  /-- `await fut` in `acquire` -/
  | waiting (f : F) (pc : AwaitPc)
  /-- the except clause of `acquire`, before its locked section -/
  | caught (f : F)
  /-- `acquire` has returned `True` -/
  | holding
  /-- `release`, before it takes `_mu` -/
  | entering
  /-- the loop of `release` -/
  | popping
  /-- `release` has popped `f` and found it not done -/
  | setting (f : F)
  /-- `set_result` raised `InvalidStateError` out of `release` -/
  | raised
deriving DecidableEq

/-- `issued` are the futures that `acquire` made. -/
structure State (T F C : Type) where
  kernel : Kernel T F C
  locked : Bool
  waiters : List F
  mu : Option T
  issued : F → Bool
  task : T → LockPc F

/-- What a task does outside of the lock's code that the kernel can see. -/
inductive Elsewhere (T F : Type) where
  | create (f : F)
  | await (r : Ref T F) (pc : AwaitPc)
  | uncancel (pc : UncancelPc)
  | settle (ending : Ending)

inductive Act (T F C : Type) where
  | kernel (a : KernelAct T F C)
  /-- a task that is not inside of the lock's code goes on; where it stands is
  not tracked here -/
  | elsewhere (t : T) (e : Elsewhere T F)
  /-- the locked section of `acquire`; `f` is the future it makes when it has to
  wait -/
  | acquire (t : T) (f : F)
  /-- the owner calls `release` -/
  | release (t : T)
  /-- the next step of `t` inside of the lock's code -/
  | task (t : T)

variable {T F C : Type} [DecidableEq T] [DecidableEq F] [DecidableEq C]

namespace State

def setTask (s : State T F C) (t : T) (pc : LockPc F) : State T F C :=
  { s with task := Function.update s.task t pc }

def setKernel (s : State T F C) (k : Kernel T F C) : State T F C :=
  { s with kernel := k }

end State

/-- The locked section of `acquire`. -/
def acquire (s : State T F C) (t : T) (f : F) : Option (State T F C) :=
  if s.mu.isSome then none
  else if s.locked = false ∧ s.waiters = [] then
    some ({ s with locked := true }.setTask t .holding)
  else if s.kernel.created f then none
  else some ({ s with
      kernel := s.kernel.create f
      waiters := s.waiters ++ [f]
      issued := Function.update s.issued f true }.setTask t (.waiting f .test))

/-- Where an await inside `acquire` leads: only `CancelledError` is caught. -/
def afterAwait (f : F) : AwaitPc ⊕ Outcome → LockPc F
  | .inl pc => .waiting f pc
  | .inr .returned => .holding
  | .inr .cancelled => .caught f
  | .inr _ => .outside

/-- One step of `t` inside of `acquire` or `release`. -/
def lockStep (s : State T F C) (t : T) : Option (State T F C) :=
  match s.task t with
  | .outside | .holding | .raised => none
  | .waiting f pc =>
      (s.kernel.awaitStep t (.fut f) pc).map fun next =>
        (s.setKernel next.1).setTask t (afterAwait f next.2)
  | .caught f =>
      if s.mu.isSome then none
      else if f ∈ s.waiters then
        some ({ s with waiters := s.waiters.erase f }.setTask t .outside)
      else
        -- granted is `done() and not cancelled()`
        match s.kernel.state (.fut f) with
        | .finished | .failed => some (s.setTask t .entering)
        | .pending | .cancelled => some (s.setTask t .outside)
  | .entering =>
      if s.mu.isSome then none else some ({ s with mu := some t }.setTask t .popping)
  | .popping =>
      match s.waiters with
      | [] => some ({ s with locked := false, mu := none }.setTask t .outside)
      | f :: rest =>
          some ({ s with waiters := rest }.setTask t
            (if s.kernel.state (.fut f) = FutState.pending then .setting f else .popping))
  | .setting f =>
      if s.kernel.state (.fut f) = .pending then
        some ({ s with kernel := s.kernel.setState (.fut f) .finished, mu := none }.setTask t
          .outside)
      else some ({ s with mu := none }.setTask t .raised)

/-- A step outside of the lock's code; awaiting one of its futures is not one. -/
def elsewhere (s : State T F C) (t : T) : Elsewhere T F → Option (State T F C)
  | .create f => if s.kernel.created f then none else some (s.setKernel (s.kernel.create f))
  | .await r pc =>
      match r with
      | .fut f => if s.issued f then none
          else (s.kernel.awaitStep t r pc).map fun next => s.setKernel next.1
      | .task _ => (s.kernel.awaitStep t r pc).map fun next => s.setKernel next.1
  | .uncancel pc => some (s.setKernel (s.kernel.uncancelStep t pc).1)
  | .settle ending => some (s.setKernel (s.kernel.settle t ending))

def step (s : State T F C) : Act T F C → Option (State T F C)
  | .kernel (.complete f st) =>
      if s.issued f then none else (s.kernel.step (.complete f st)).map s.setKernel
  | .kernel a => (s.kernel.step a).map s.setKernel
  | .elsewhere t e =>
      match s.task t with
      | .outside | .holding => elsewhere s t e
      | _ => none
  | .acquire t f =>
      match s.task t with
      | .outside => acquire s t f
      | _ => none
  | .release t =>
      match s.task t with
      | .holding => some (s.setTask t .entering)
      | _ => none
  | .task t => lockStep s t

def Start (s : State T F C) : Prop :=
  s.kernel.Fresh ∧ s.locked = false ∧ s.waiters = [] ∧ s.mu = none ∧
    (∀ f, s.issued f = false) ∧ ∀ t, s.task t = .outside

def machine (T F C : Type) [DecidableEq T] [DecidableEq F] [DecidableEq C] :
    Machine (State T F C) (Act T F C) where
  start := Start
  step := step

end MtAsyncio.Lock
