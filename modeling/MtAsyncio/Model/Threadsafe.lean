/-
Module: MtAsyncio.Model.Threadsafe
Purpose: `run_coroutine_threadsafe` of `_utils.py`: `_callback` on the loop, the task
  it creates, `_chain` on whatever worker runs it, and the caller, who may cancel the
  concurrent future at any time.
Trusted boundary: the methods of `concurrent.futures.Future` are atomic and follow
  its states; the loop runs `_callback` once, and a task schedules its callback once,
  when it is done; what a task raises is no `StopIteration`
Main exports: Conc, Conc.setRunningOrNotifyCancel, Ending, Outcome, runnerOutcome,
  CallbackPc, ChainPc, State, Act, callbackStep, chainStep, step, machine
-/
import MtAsyncio.Lib.Machine

namespace MtAsyncio.Threadsafe

open Lib (Machine)

/-!
A coroutine returns a value of `V` or raises; exceptions other than
`CancelledError` are drawn from `X`.
-/

variable {V X : Type}

/-! ## `concurrent.futures.Future` -/

/-- Its state. -/
inductive Conc (V X : Type) where
  | pending
  | running
  | cancelled
  | cancelledAndNotified
  | result (v : V)
  | exception (x : X)
deriving DecidableEq

/-- `cancelled()` -/
def Conc.isCancelled : Conc V X → Bool
  | .cancelled | .cancelledAndNotified => true
  | _ => false

/-- `cancel()`, with what it returns. -/
def Conc.cancel : Conc V X → Bool × Conc V X
  | .pending => (true, .cancelled)
  | .cancelled => (true, .cancelled)
  | .cancelledAndNotified => (true, .cancelledAndNotified)
  | f => (false, f)

/-- `set_running_or_notify_cancel()`, with what it returns; a `RuntimeError` is
`none`. -/
def Conc.setRunningOrNotifyCancel : Conc V X → Option (Bool × Conc V X)
  | .pending => some (true, .running)
  | .cancelled => some (false, .cancelledAndNotified)
  | _ => none

/-- `set_result` and `set_exception`; an `InvalidStateError` is `none`. -/
def Conc.settle (future value : Conc V X) : Option (Conc V X) :=
  match future with
  | .pending | .running => some value
  | _ => none

/-- `result()` has something to return or to raise. -/
def Conc.terminal : Conc V X → Bool
  | .pending | .running => false
  | _ => true

/-! ## The task -/

/-- How the coroutine ends. -/
inductive Ending (V X : Type) where
  | returned (v : V)
  | raised (x : X)
  | cancelledError
deriving DecidableEq

/-- How the task ends. -/
inductive Outcome (V X : Type) where
  | result (v : V)
  | exception (x : X)
  | cancelled
deriving DecidableEq

/-- `Task._runner` -/
def runnerOutcome (mustCancel : Bool) : Ending V X → Outcome V X
  | .returned v => if mustCancel then .cancelled else .result v
  | .raised x => .exception x
  | .cancelledError => .cancelled

inductive Task (V X : Type) where
  | absent
  | running (mustCancel : Bool)
  | done (o : Outcome V X)
deriving DecidableEq

def Task.isDone : Task V X → Bool
  | .done _ => true
  | _ => false

/-! ## The machine -/

/-- Where `_callback` stands. -/
inductive CallbackPc (X : Type) where
  | create
  /-- in front of `task.add_done_callback(_chain)` -/
  | attach
  /-- in front of `if future.set_running_or_notify_cancel()` -/
  | notify (x : X)
  /-- in front of `future.set_exception(exc)` -/
  | store (x : X)
  | returned
  /-- the exception of `create_task` goes on -/
  | raised (x : X)
  /-- an error of the future goes on -/
  | broken
deriving DecidableEq

/-- Where `_chain` stands. -/
inductive ChainPc where
  | absent
  | attached
  /-- in front of `if future.cancelled()` -/
  | scheduled
  /-- in front of `if not future.set_running_or_notify_cancel()` -/
  | notify
  /-- in front of `if task.cancelled()` -/
  | transfer
  | returned
  /-- an error of the future goes on -/
  | broken
deriving DecidableEq

/-- `took` tells whether a `cancel()` of the caller has returned `True`; nothing in
the program reads it. -/
structure State (V X : Type) where
  future : Conc V X
  callback : CallbackPc X
  task : Task V X
  chain : ChainPc
  took : Bool
deriving DecidableEq

inductive Act (V X : Type) where
  /-- the caller cancels the future -/
  | cancel
  /-- `loop.create_task(coro)`, which may raise -/
  | create (error : Option X)
  /-- the next step of `_callback` -/
  | callback
  /-- somebody cancels the task -/
  | request
  /-- the request is delivered, or withdrawn -/
  | deliver
  /-- the coroutine ends -/
  | finish (ending : Ending V X)
  /-- the next step of `_chain` -/
  | chain
deriving DecidableEq

def callbackStep (s : State V X) : Option (State V X) :=
  match s.callback with
  | .attach =>
      some { s with
        callback := .returned
        chain := if s.task.isDone then .scheduled else .attached }
  | .notify x =>
      match s.future.setRunningOrNotifyCancel with
      | none => some { s with callback := .broken }
      | some (running, future) =>
          some { s with future := future, callback := if running then .store x else .raised x }
  | .store x =>
      match s.future.settle (.exception x) with
      | none => some { s with callback := .broken }
      | some future => some { s with future := future, callback := .raised x }
  | .create | .returned | .raised _ | .broken => none

/-- What `_chain` makes of the future of a task with outcome `o`. -/
def Outcome.transfer (future : Conc V X) : Outcome V X → Option (Conc V X)
  | .cancelled => some future.cancel.2
  | .exception x => future.settle (.exception x)
  | .result v => future.settle (.result v)

def chainStep (s : State V X) : Option (State V X) :=
  match s.chain with
  | .scheduled =>
      some { s with chain := if s.future.isCancelled then .returned else .notify }
  | .notify =>
      match s.future.setRunningOrNotifyCancel with
      | none => some { s with chain := .broken }
      | some (running, future) =>
          some { s with future := future, chain := if running then .transfer else .returned }
  | .transfer =>
      match s.task with
      | .done o =>
          match o.transfer s.future with
          | none => some { s with chain := .broken }
          | some future => some { s with future := future, chain := .returned }
      | .absent | .running _ => none
  | .absent | .attached | .returned | .broken => none

def step (s : State V X) : Act V X → Option (State V X)
  | .cancel => some { s with future := s.future.cancel.2, took := s.took || s.future.cancel.1 }
  | .create error =>
      match s.callback, error with
      | .create, none => some { s with callback := .attach, task := .running false }
      | .create, some x => some { s with callback := .notify x }
      | _, _ => none
  | .callback => callbackStep s
  | .request =>
      match s.task with
      | .running _ => some { s with task := .running true }
      | _ => none
  | .deliver =>
      match s.task with
      | .running _ => some { s with task := .running false }
      | _ => none
  | .finish ending =>
      match s.task with
      | .running mustCancel =>
          some { s with
            task := .done (runnerOutcome mustCancel ending)
            chain := if s.chain = .attached then .scheduled else s.chain }
      | _ => none
  | .chain => chainStep s

/-- `run_coroutine_threadsafe` has returned the future. -/
def State.start (V X : Type) : State V X where
  future := .pending
  callback := .create
  task := .absent
  chain := .absent
  took := false

def machine (V X : Type) : Machine (State V X) (Act V X) where
  start s := s = .start V X
  step := step

end MtAsyncio.Threadsafe
