/-
Module: MtAsyncio.Model.Timeouts
Purpose: `Timeout` of `_timeouts.py`: `__aenter__`, `reschedule`, `_on_timeout`
  and `__aexit__`, one step for each locked section and for each access outside
  of the lock, with the handles whose callbacks are in flight.
Trusted boundary: `threading.Lock` excludes, the single field reads and writes
  are atomic, `Task.cancel` and `Task.uncancel` are one step each, and the task
  that enters the scope is the one that leaves it
Main exports: Scope, Fire, TaskPc, State, State.rescheduled, State.onTimeout,
  Act, step, machine
-/
import Mathlib.Logic.Function.Basic
import MtAsyncio.Lib.Machine

namespace MtAsyncio.Timeouts

open Lib (Machine)

/-!
One scope, entered by one task.  The handles are drawn from `H`, and the threads
that call `reschedule` from `P`.  When a timer is due is not modelled: the
callback of a handle may start at any moment after the handle was made.
-/

/-- `_state` -/
inductive Scope where
  | created
  | entered
  | expiring
  | expired
  | exited
deriving DecidableEq

/-- Where the callback of a handle stands; `called` is past `Handle._run`'s test
of `_cancelled` and before the lock of `_on_timeout`. -/
inductive Fire where
  | fresh
  | scheduled
  | called
  | over_
deriving DecidableEq

/-- What the body of the scope ended with. -/
inductive Raised where
  | nothing
  | cancelled
  | other
deriving DecidableEq

/-- Where the task stands. -/
inductive TaskPc (W H : Type) where
  | outside
  | setEntered
  | setTask
  | armTest
  | armRead
  | armLock (when_ : Option W)
  | enterOld (old : H)
  | refused
  | body
  | exitLock (et : Raised)
  | exitHandler (et : Raised) (expiring : Bool) (handler : H)
  | exitUncancel (et : Raised) (expiring : Bool)
  | left (timedOut : Bool)
deriving DecidableEq

/-- `__aexit__` has taken the lock. -/
def TaskPc.tookLock {W H : Type} : TaskPc W H → Bool
  | .exitHandler .. | .exitUncancel .. | .left _ => true
  | _ => false

structure State (W H P : Type) where
  scope : Scope
  when_ : Option W
  timeoutHandler : Option H
  /-- `_task` has been assigned -/
  task : Bool
  /-- `Handle._cancelled` -/
  cancelled : H → Bool
  fire : H → Fire
  /-- the handle that a call of `reschedule` still has to cancel -/
  old : P → Option H
  pc : TaskPc W H
  numCancelsRequested : Nat
  done : Bool
  -- history: the count at entry; for each call of `cancel` by the deadline,
  -- what `_state` was and whether `__aexit__` had taken the lock; the calls of
  -- `uncancel` by `__aexit__` and whether one found the count at zero; and by
  -- how much the calls of others changed the count
  entryCount : Nat
  deadlineCancels : List (Scope × Bool)
  scopeUncancels : Nat
  foundNone : Bool
  others : Int

variable {W H P : Type} [DecidableEq H] [DecidableEq P]

/-! ## `Task.cancel` and `Task.uncancel` -/

/-- By how much a `cancel` changes the count. -/
def State.cancelGain (s : State W H P) : Nat :=
  if s.done then 0 else 1

/-- By how much an `uncancel` changes the count. -/
def State.uncancelLoss (s : State W H P) : Nat :=
  if 0 < s.numCancelsRequested then 1 else 0

/-! ## `reschedule` -/

/-- How the locked section of `reschedule` ends. -/
inductive Rescheduled (H : Type) where
  | raised
  | returned (old : Option H)
deriving DecidableEq

/-- The locked section of `reschedule`.  `made` is the handle that `call_soon`
or `call_at` returns, `none` when they raise because the loop is closed. -/
def State.rescheduled (s : State W H P) (when_ : Option W) (made : Option H) :
    State W H P × Rescheduled H :=
  if s.scope ≠ .entered then (s, .raised)
  else match when_, made with
    | none, _ => ({ s with when_ := none, timeoutHandler := none }, .returned s.timeoutHandler)
    | some w, none => ({ s with when_ := some w, timeoutHandler := none }, .raised)
    | some w, some h =>
        ({ s with
            when_ := some w
            timeoutHandler := some h
            fire := Function.update s.fire h .scheduled }, .returned s.timeoutHandler)

/-- The handle is one that was not returned before. -/
def State.Makes (s : State W H P) (made : Option H) : Prop :=
  ∀ h ∈ made, s.fire h = .fresh

instance (s : State W H P) (made : Option H) : Decidable (s.Makes made) :=
  inferInstanceAs (Decidable (∀ h ∈ made, s.fire h = .fresh))

/-- `Handle.cancel` -/
def State.cancelHandle (s : State W H P) (h : H) : State W H P :=
  { s with cancelled := Function.update s.cancelled h true }

/-! ## `_on_timeout` -/

/-- The locked section of `_on_timeout`.  While `_task` is not assigned the call
of `cancel` raises `AttributeError`, after `_state` was written. -/
def State.onTimeout (s : State W H P) : State W H P :=
  if s.scope ≠ .entered then { s with timeoutHandler := none }
  else if s.task then
    { s with
      timeoutHandler := none
      scope := .expiring
      numCancelsRequested := s.numCancelsRequested + s.cancelGain
      deadlineCancels := (s.scope, s.pc.tookLock) :: s.deadlineCancels }
  else { s with timeoutHandler := none, scope := .expiring }

/-! ## `__aenter__` and `__aexit__` -/

/-- What `__aexit__` makes of `_state` in its locked section. -/
def Scope.leave : Scope → Scope
  | .expiring => .expired
  | .entered => .exited
  | scope => scope

/-- The step of the task inside of `__aenter__` or `__aexit__`; `made` is for the
call of `reschedule` in `__aenter__`. -/
def State.taskStep (s : State W H P) (made : Option H) : Option (State W H P) :=
  match s.pc with
  | .outside =>
      some { s with pc := if s.scope ≠ .created then .refused else .setEntered }
  | .setEntered =>
      some { s with
        scope := .entered
        pc := .setTask
        entryCount := s.numCancelsRequested
        others := 0 }
  | .setTask => some { s with task := true, pc := .armTest }
  | .armTest => some { s with pc := if s.when_.isSome then .armRead else .body }
  -- another `reschedule` may have taken the deadline away since the test
  | .armRead => some { s with pc := .armLock s.when_ }
  | .armLock when_ =>
      if s.Makes made then
        match s.rescheduled when_ made with
        | (s', .raised) => some { s' with pc := .refused }
        | (s', .returned none) => some { s' with pc := .body }
        | (s', .returned (some old)) => some { s' with pc := .enterOld old }
      else none
  | .enterOld old => some { s.cancelHandle old with pc := .body }
  | .exitLock et =>
      some { s with
        scope := s.scope.leave
        timeoutHandler := none
        pc := match s.timeoutHandler with
          | none => .exitUncancel et (s.scope = .expiring)
          | some h => .exitHandler et (s.scope = .expiring) h }
  | .exitHandler et expiring h =>
      some { s.cancelHandle h with pc := .exitUncancel et expiring }
  | .exitUncancel et expiring =>
      if expiring then
        some { s with
          numCancelsRequested := s.numCancelsRequested - s.uncancelLoss
          scopeUncancels := s.scopeUncancels + 1
          foundNone := s.numCancelsRequested = 0
          -- `TimeoutError` takes the place of the `CancelledError`
          pc := .left (s.numCancelsRequested - s.uncancelLoss = 0 ∧ et = .cancelled) }
      else some { s with pc := .left false }
  | .refused | .body | .left _ => none

/-! ## The machine -/

inductive Act (W H P : Type) where
  /-- the next step of the task in `__aenter__` or `__aexit__` -/
  | task (made : Option H)
  /-- the body ends and `__aexit__` is called -/
  | exit (et : Raised)
  /-- the coroutine of the task ends -/
  | finish
  /-- a thread calls `reschedule` and takes the lock -/
  | reschedule (p : P) (when_ : Option W) (made : Option H)
  /-- that thread cancels the handle it has replaced -/
  | cancelOld (p : P)
  /-- `Handle._run` tests `_cancelled` -/
  | run (h : H)
  /-- `_on_timeout` takes the lock -/
  | deadline (h : H)
  /-- somebody else calls `cancel` or `uncancel` on the task -/
  | cancel
  | uncancel

/-- The coroutine runs code of its own, which may end. -/
def TaskPc.outer : TaskPc W H → Bool
  | .refused | .body | .left _ => true
  | _ => false

/-- The body of the scope runs. -/
def TaskPc.inBody : TaskPc W H → Bool
  | .body => true
  | _ => false

def step (s : State W H P) : Act W H P → Option (State W H P)
  | .task made => if s.done then none else s.taskStep made
  | .exit et =>
      if s.pc.inBody ∧ s.done = false then some { s with pc := .exitLock et } else none
  | .finish =>
      if s.pc.outer ∧ s.done = false then some { s with done := true } else none
  | .reschedule p when_ made =>
      if s.old p = none ∧ s.Makes made then
        match s.rescheduled when_ made with
        | (s', .raised) => some s'
        | (s', .returned old) => some { s' with old := Function.update s'.old p old }
      else none
  | .cancelOld p =>
      (s.old p).map fun h => { s.cancelHandle h with old := Function.update s.old p none }
  | .run h =>
      if s.fire h = .scheduled then
        some { s with
          fire := Function.update s.fire h (if s.cancelled h then .over_ else .called) }
      else none
  | .deadline h =>
      if s.fire h = .called then
        some { s.onTimeout with fire := Function.update s.fire h .over_ }
      else none
  | .cancel =>
      some { s with
        numCancelsRequested := s.numCancelsRequested + s.cancelGain
        others := s.others + s.cancelGain }
  | .uncancel =>
      some { s with
        numCancelsRequested := s.numCancelsRequested - s.uncancelLoss
        others := s.others - s.uncancelLoss }

/-- A new scope and a task that has not entered it; the task may have been
cancelled before. -/
def Start (s : State W H P) : Prop :=
  s.scope = .created ∧ s.timeoutHandler = none ∧ s.task = false ∧ (∀ h, s.cancelled h = false) ∧
    (∀ h, s.fire h = .fresh) ∧ (∀ p, s.old p = none) ∧ s.pc = .outside ∧ s.done = false ∧
    s.deadlineCancels = [] ∧ s.scopeUncancels = 0 ∧ s.foundNone = false

def machine (W H P : Type) [DecidableEq H] [DecidableEq P] :
    Machine (State W H P) (Act W H P) where
  start := Start
  step := step

end MtAsyncio.Timeouts
