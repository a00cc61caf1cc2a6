/-
Module: MtAsyncio.Model.Tasks
Purpose: Futures, tasks and cooperative cancellation: `Future.__await__` and
  `Future.cancel` of `_futures.py`, `Task.cancel`, `Task.uncancel` and the end
  of `Task._runner` of `_tasks.py`, one step for each locked section.
Trusted boundary: `threading.Lock` excludes, the single field reads and writes
  are atomic, and a coroutine that yielded an event's waiter is resumed only
  after the event was set
Main exports: Ref, Kernel, CancelPc, AwaitPc, Kernel.cancelStep,
  Kernel.awaitStep, Kernel.uncancelStep, Kernel.step, machine
-/
import Mathlib.Logic.Function.Basic
import MtAsyncio.Lib.Machine

namespace MtAsyncio.Tasks

open Lib (Machine)

/-!
Tasks are drawn from `T`, plain futures from `F`, and the threads that call
`cancel` from `C`.  The kernel holds what these share.  A layer above it (a
lock, a task group) gives each task a program counter of its own and moves the
kernel by the functions below.

Completing a future and setting its event are two steps: `_wake` runs after the
future's lock is released and may be held back until the enclosing protocol
callback has returned.
-/

/-- `_state`; `failed` is `FINISHED` with an exception. -/
inductive FutState where
  | pending
  | finished
  | failed
  | cancelled
deriving DecidableEq

/-- What can be awaited: a plain future, or a task, whose `cancel` only asks. -/
inductive Ref (T F : Type) where
  | fut (f : F)
  | task (t : T)
deriving DecidableEq

/-- Where a call of `Task.cancel` stands. -/
inductive CancelPc (T F : Type) where
  | done
  | count
  | read
  | futCancel (r : Ref T F)
  | set
deriving DecidableEq

/-- The fields shared by the threads.  `calls c` is the stack of `cancel` calls
thread `c` is inside of: a call on a task that waits for another task calls
`cancel` on that one. -/
structure Kernel (T F C : Type) where
  state : Ref T F → FutState
  event : Ref T F → Bool
  created : F → Bool
  futWaiter : T → Option (Ref T F)
  mustCancel : T → Bool
  numCancelsRequested : T → Int
  calls : C → List (T × CancelPc T F)

/-- Where an await stands. -/
inductive AwaitPc where
  | test
  | arm
  | armed
  | suspended
  | disarm
  | ready
  | read
deriving DecidableEq

/-- How an await ends. -/
inductive Outcome where
  | returned
  | raised
  | cancelled
  | neverSet
  | notReady
deriving DecidableEq

/-- Where a call of `uncancel` stands. -/
inductive UncancelPc where
  | test
  | decrement
  | compare
  | clear
deriving DecidableEq

/-- How a coroutine ends. -/
inductive Ending where
  | returned
  | raised
  | cancelled
deriving DecidableEq

variable {T F C : Type} [DecidableEq T] [DecidableEq F] [DecidableEq C]

namespace Kernel

def setState (k : Kernel T F C) (r : Ref T F) (st : FutState) : Kernel T F C :=
  { k with state := Function.update k.state r st }

def setMust (k : Kernel T F C) (t : T) (value : Bool) : Kernel T F C :=
  { k with mustCancel := Function.update k.mustCancel t value }

def setWaiter (k : Kernel T F C) (t : T) (r : Option (Ref T F)) : Kernel T F C :=
  { k with futWaiter := Function.update k.futWaiter t r }

def setCalls (k : Kernel T F C) (c : C) (stack : List (T × CancelPc T F)) : Kernel T F C :=
  { k with calls := Function.update k.calls c stack }

/-- `create_future` -/
def create (k : Kernel T F C) (f : F) : Kernel T F C :=
  { k with
    created := Function.update k.created f true
    state := Function.update k.state (.fut f) .pending
    event := Function.update k.event (.fut f) false }

def addCancels (k : Kernel T F C) (t : T) (by_ : Int) : Kernel T F C :=
  { k with numCancelsRequested :=
      Function.update k.numCancelsRequested t (k.numCancelsRequested t + by_) }

end Kernel

/-! ## `Task.cancel` -/

/-- A call returns to the one that made it: on `True` that one returns `True`
as well, on `False` it goes on to its second locked write. -/
def returnTo (result : Bool) : List (T × CancelPc T F) → List (T × CancelPc T F)
  | [] => []
  | (t, _) :: rest => if result then [] else (t, .set) :: rest

/-- One atomic step of the innermost `cancel` call of thread `c`. -/
def Kernel.cancelStep (k : Kernel T F C) (c : C) : Option (Kernel T F C) :=
  match k.calls c with
  | [] => none
  | (t, .done) :: rest =>
      some (if k.state (.task t) = .pending then k.setCalls c ((t, .count) :: rest)
        else k.setCalls c (returnTo false rest))
  | (t, .count) :: rest => some ((k.addCancels t 1).setCalls c ((t, .read) :: rest))
  | (t, .read) :: rest =>
      match k.futWaiter t with
      | none => some ((k.setMust t true).setCalls c (returnTo true rest))
      | some r => some (k.setCalls c ((t, .futCancel r) :: rest))
  | (t, .futCancel (.fut f)) :: rest =>
      if k.state (.fut f) = .pending then
        some ((k.setState (.fut f) .cancelled).setCalls c (returnTo true rest))
      else some (k.setCalls c ((t, .set) :: rest))
  | (t, .futCancel (.task u)) :: rest =>
      some (k.setCalls c ((u, .done) :: (t, .futCancel (.task u)) :: rest))
  | (t, .set) :: rest => some ((k.setMust t true).setCalls c (returnTo true rest))

/-! ## `Future.__await__` -/

/-- `_read` -/
def Kernel.read (k : Kernel T F C) (r : Ref T F) : Outcome :=
  match k.state r with
  | .finished => .returned
  | .failed => .raised
  | .cancelled => .cancelled
  | .pending => .notReady

/-- One atomic step of task `t` awaiting `r`. -/
def Kernel.awaitStep (k : Kernel T F C) (t : T) (r : Ref T F) :
    AwaitPc → Option (Kernel T F C × (AwaitPc ⊕ Outcome))
  | .test => some (k, .inl (if k.event r then .ready else .arm))
  | .arm =>
      if k.mustCancel t then some (k.setMust t false, .inr .cancelled)
      else some (k.setWaiter t (some r), .inl .armed)
  | .armed => some (k, .inl .suspended)
  | .suspended => if k.event r then some (k, .inl .disarm) else none
  | .disarm => some (k.setWaiter t none, .inl .read)
  | .ready =>
      if k.mustCancel t then some (k.setMust t false, .inr .cancelled)
      else some (k, .inl .read)
  | .read => some (k, .inr (if k.event r then k.read r else .neverSet))

/-! ## `Task.uncancel` and the end of `Task._runner` -/

/-- One atomic step of `t.uncancel()`; `none` when it returns. -/
def Kernel.uncancelStep (k : Kernel T F C) (t : T) :
    UncancelPc → Kernel T F C × Option UncancelPc
  | .test => (k, if 0 < k.numCancelsRequested t then some .decrement else none)
  | .decrement => (k.addCancels t (-1), some .compare)
  | .compare => (k, if k.numCancelsRequested t = 0 then some .clear else none)
  | .clear => (k.setMust t false, none)

/-- The locked read-and-clear of `_must_cancel` in `_runner`; tells how the
coroutine counts as ended. -/
def Kernel.takeMust (k : Kernel T F C) (t : T) : Kernel T F C × Ending :=
  (k.setMust t false, if k.mustCancel t then .cancelled else .returned)

def Ending.state : Ending → FutState
  | .returned => .finished
  | .raised => .failed
  | .cancelled => .cancelled

/-- `Future.cancel`, `Future.set_result` or `Future.set_exception` of the task
itself. -/
def Kernel.settle (k : Kernel T F C) (t : T) (ending : Ending) : Kernel T F C :=
  if k.state (.task t) = .pending then k.setState (.task t) ending.state else k

/-! ## What the surroundings do -/

inductive KernelAct (T F C : Type) where
  /-- another worker completes a plain future -/
  | complete (f : F) (st : FutState)
  /-- the event of a completed future or task is set -/
  | wake (r : Ref T F)
  /-- thread `c` calls `t.cancel()` -/
  | cancel (c : C) (t : T)
  /-- the next step of the call thread `c` is inside of -/
  | call (c : C)

def Kernel.step (k : Kernel T F C) : KernelAct T F C → Option (Kernel T F C)
  | .complete f st =>
      if k.state (.fut f) = .pending ∧ st ≠ .pending then some (k.setState (.fut f) st) else none
  | .wake r =>
      if k.state r = .pending then none
      else some { k with event := Function.update k.event r true }
  | .cancel c t =>
      match k.calls c with
      | [] => some (k.setCalls c [(t, .done)])
      | _ :: _ => none
  | .call c => k.cancelStep c

/-- Every future is fresh and no task has started. -/
def Kernel.Fresh (k : Kernel T F C) : Prop :=
  (∀ r, k.state r = .pending) ∧ (∀ r, k.event r = false) ∧ (∀ f, k.created f = false) ∧
    (∀ t, k.futWaiter t = none) ∧ (∀ t, k.mustCancel t = false) ∧
    (∀ t, k.numCancelsRequested t = 0) ∧ ∀ c, k.calls c = []

/-! ## Tasks that await whatever they like -/

/-- Program counter of a task whose body is not fixed. -/
inductive TaskPc (T F : Type) where
  | running
  | awaiting (r : Ref T F) (pc : AwaitPc)
  | uncancel (pc : UncancelPc)
  | takeMust
  | settle (ending : Ending)
  | done
deriving DecidableEq

structure State (T F C : Type) where
  kernel : Kernel T F C
  task : T → TaskPc T F

inductive Act (T F C : Type) where
  | kernel (a : KernelAct T F C)
  /-- the body of `t` awaits `r` -/
  | await (t : T) (r : Ref T F)
  | uncancel (t : T)
  /-- the body of `t` ends -/
  | finish (t : T) (ending : Ending)
  /-- the next step of `t` inside of the library -/
  | task (t : T)

def State.setTask (s : State T F C) (t : T) (k : Kernel T F C) (pc : TaskPc T F) :
    State T F C :=
  { kernel := k, task := Function.update s.task t pc }

/-- The counter after a step of an await; the body goes on with its outcome. -/
def TaskPc.afterAwait (r : Ref T F) : AwaitPc ⊕ Outcome → TaskPc T F
  | .inl pc => .awaiting r pc
  | .inr _ => .running

/-- The step of a task inside of the library. -/
def taskStep (k : Kernel T F C) (t : T) : TaskPc T F → Option (Kernel T F C × TaskPc T F)
  | .running => none
  | .awaiting r pc =>
      (k.awaitStep t r pc).map fun next => (next.1, .afterAwait r next.2)
  | .uncancel pc =>
      some ((k.uncancelStep t pc).1, match (k.uncancelStep t pc).2 with
        | some pc' => .uncancel pc'
        | none => .running)
  | .takeMust => some ((k.takeMust t).1, .settle (k.takeMust t).2)
  | .settle ending => some (k.settle t ending, .done)
  | .done => none

def step (s : State T F C) : Act T F C → Option (State T F C)
  | .kernel a => (s.kernel.step a).map fun k => { s with kernel := k }
  | .await t r =>
      if s.task t = .running then some (s.setTask t s.kernel (.awaiting r .test)) else none
  | .uncancel t =>
      if s.task t = .running then some (s.setTask t s.kernel (.uncancel .test)) else none
  | .finish t ending =>
      if s.task t = .running then
        -- only a coroutine that returned still looks at `_must_cancel`
        some (s.setTask t s.kernel
          (if ending = .returned then .takeMust else .settle ending))
      else none
  | .task t => (taskStep s.kernel t (s.task t)).map fun next => s.setTask t next.1 next.2

def Start (s : State T F C) : Prop :=
  s.kernel.Fresh ∧ ∀ t, s.task t = .running

def machine (T F C : Type) [DecidableEq T] [DecidableEq F] [DecidableEq C] :
    Machine (State T F C) (Act T F C) where
  start := Start
  step := step

end MtAsyncio.Tasks
