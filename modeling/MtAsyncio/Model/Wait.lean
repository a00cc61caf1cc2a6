/-
Module: MtAsyncio.Model.Wait
Purpose: `wait` of `_ctl.py` over any number of tasks: the loop that attaches
  `_on_done` to each, the callback under its lock on whatever worker runs it, the
  timer, the await of `waiter` with its finally clause, and the loop that sorts the
  tasks by `done()` as it finds them.
Trusted boundary: as for `MtAsyncio.Model.Gather`; `handle.cancel` keeps a timer
  that is not yet due from running
Main exports: ReturnWhen, Closure, onDone, ParentPc, State, Act, parentStep, step,
  machine
-/
import MtAsyncio.Model.Gather
import Mathlib.Data.Finset.Insert

namespace MtAsyncio.Wait

open Lib (Machine Phase)
open Gather (Outcome)

/-- `return_when` -/
inductive ReturnWhen where
  | firstCompleted
  | firstException
  | allCompleted
deriving DecidableEq

/-- The state of `waiter`. -/
inductive Waiter where
  | pending
  | result
  | cancelled
deriving DecidableEq

/-- Where the timer of a `wait` with a timeout stands. -/
inductive Timer where
  | absent
  | armed
  /-- the loop is about to call `_on_timeout` -/
  | due
  | fired
  | cancelled
deriving DecidableEq

/-- Where `wait` stands; `raises` tells whether its finally clause is run for a
`CancelledError`. -/
inductive ParentPc (F : Type) where
  | registering (index : Nat)
  /-- in front of `if timeout is not None` -/
  | arming
  /-- in front of `await waiter` -/
  | awaiting
  | parked
  /-- in front of `if handle is not None` -/
  | leaving (raises : Bool)
  | removing (raises : Bool) (index : Nat)
  | sorting (index : Nat) (done pending : Finset F)
  | returned (done pending : Finset F)
  | raised
deriving DecidableEq

variable {F V X : Type}

def Waiter.done : Waiter → Bool
  | .pending => false
  | _ => true

/-! ## `_on_done` -/

/-- What the callbacks share. -/
structure Closure where
  ndone : Nat
  settled : Bool
  waiter : Waiter
deriving DecidableEq

/-- `_release` -/
def Closure.release (c : Closure) : Closure :=
  if c.settled then c
  else if c.waiter.done then { c with settled := true }
  else { c with settled := true, waiter := .result }

def Closure.count (c : Closure) : Closure :=
  { c with ndone := c.ndone + 1 }

/-- `_on_done` for a task with outcome `o`, in a `wait` for `n` tasks. -/
def onDone (returnWhen : ReturnWhen) (n : Nat) (c : Closure) (o : Outcome V X) : Closure :=
  if returnWhen = .firstCompleted then c.count.release
  -- `t.cancelled() or t.exception() is not None`
  else if returnWhen = .firstException ∧ o.exc.isSome then c.count.release
  else if c.count.ndone = n then c.count.release
  else c.count

def Closure.start : Closure where
  ndone := 0
  settled := false
  waiter := .pending

/-! ## The machine -/

/-- `order` has the callbacks that ran, with the outcomes they saw; nothing in the
program reads it. -/
structure State (F V X : Type) where
  status : F → Option (Outcome V X)
  phase : Nat → Phase
  closure : Closure
  timer : Timer
  parent : ParentPc F
  mustCancel : Bool
  order : List (Nat × Outcome V X)

inductive Act (F V X : Type) where
  /-- a task is done -/
  | complete (t : F) (o : Outcome V X)
  /-- a worker runs the callback of a task -/
  | run (index : Nat)
  /-- the loop finds that the timer is due -/
  | expire
  /-- `_on_timeout` -/
  | timeout
  /-- the next step of `wait` -/
  | parent
  /-- somebody cancels the task that is in `wait` -/
  | cancel

variable [DecidableEq F] (tasks : List F) (returnWhen : ReturnWhen) (timed : Bool)

/-- What the await of `waiter` leads to. -/
def Waiter.read : Waiter → ParentPc F
  | .pending => .parked
  | .result => .leaving false
  | .cancelled => .leaving true

def parentStep (s : State F V X) : Option (State F V X) :=
  match s.parent with
  | .registering index =>
      match tasks[index]? with
      | some t =>
          some { s with
            phase := Function.update s.phase index
              (if (s.status t).isSome then .scheduled else .attached)
            parent := .registering (index + 1) }
      | none => some { s with parent := .arming }
  | .arming =>
      if timed then some { s with timer := .armed, parent := .awaiting }
      else some { s with parent := .awaiting }
  | .awaiting =>
      if s.mustCancel then some { s with mustCancel := false, parent := .leaving true }
      else some { s with parent := s.closure.waiter.read }
  | .parked =>
      if s.closure.waiter.done then some { s with parent := s.closure.waiter.read } else none
  | .leaving raises =>
      some { s with
        timer := if s.timer = .armed then .cancelled else s.timer
        parent := .removing raises 0 }
  | .removing raises index =>
      match tasks[index]? with
      | some t =>
          -- `remove_done_callback` takes every entry of `_on_done` out
          some { s with
            phase := fun i =>
              if s.phase i = .attached ∧ tasks[i]? = some t then .idle else s.phase i
            parent := .removing raises (index + 1) }
      | none => some { s with parent := if raises then .raised else .sorting 0 ∅ ∅ }
  | .sorting index done pending =>
      match tasks[index]? with
      | some t =>
          some { s with
            parent :=
              if (s.status t).isSome then .sorting (index + 1) (insert t done) pending
              else .sorting (index + 1) done (insert t pending) }
      | none => some { s with parent := .returned done pending }
  | .returned .. | .raised => none

/-- A task is done, and its callbacks are scheduled. -/
def State.finish (s : State F V X) (t : F) (o : Outcome V X) : State F V X :=
  { s with
    status := Function.update s.status t (some o)
    phase := fun index =>
      if s.phase index = .attached ∧ tasks[index]? = some t then .scheduled
      else s.phase index }

def State.ran (s : State F V X) (index : Nat) (o : Outcome V X) : State F V X :=
  { s with
    closure := onDone returnWhen tasks.length s.closure o
    phase := Function.update s.phase index .ran
    order := s.order ++ [(index, o)] }

/-- `Task.cancel` of the task that is in `wait`. -/
def State.cancel (s : State F V X) : State F V X :=
  match s.parent with
  | .returned .. | .raised => s
  | .parked =>
      if s.closure.waiter.done then { s with mustCancel := true }
      else { s with closure := { s.closure with waiter := .cancelled } }
  | _ => { s with mustCancel := true }

def step (s : State F V X) : Act F V X → Option (State F V X)
  | .complete t o => if (s.status t).isSome then none else some (s.finish tasks t o)
  | .run index =>
      if s.phase index = .scheduled then
        (tasks[index]?.bind s.status).map (s.ran tasks returnWhen index)
      else none
  | .expire => if s.timer = .armed then some { s with timer := .due } else none
  | .timeout =>
      if s.timer = .due then some { s with timer := .fired, closure := s.closure.release }
      else none
  | .parent => parentStep tasks timed s
  | .cancel => some s.cancel

/-- `wait` is in front of its loop; some of the tasks may be done. -/
def Start (s : State F V X) : Prop :=
  (∀ index, s.phase index = .idle) ∧ s.closure = .start ∧ s.timer = .absent ∧
    s.parent = .registering 0 ∧ s.mustCancel = false ∧ s.order = []

def machine (V X : Type) : Machine (State F V X) (Act F V X) where
  start := Start
  step := step tasks returnWhen timed

end MtAsyncio.Wait
