/-
Module: MtAsyncio.Model.Condition
Purpose: `Condition` of `_sync.py` over the lock: `async with cond`, `wait` with
  its except and finally clauses, `notify` and `notify_all`.
Trusted boundary: as for `MtAsyncio.Model.Lock`
Main exports: CondPc, NotifyPc, State, Act, follow, taskStep, notifierStep, machine
-/
import MtAsyncio.Model.Lock

namespace MtAsyncio.Condition

open Lib (Machine)
open Tasks
open Lock (LockPc)

/-- Where a task stands with respect to the condition. -/
inductive CondPc (F : Type) where
  /-- not inside of `async with cond` -/
  | away
  /-- `__aenter__`, inside of `Lock.acquire` -/
  | entering
  /-- the body of `async with cond` -/
  | inside
  /-- `__aexit__`, inside of `Lock.release` -/
  | leaving
  /-- `wait` has made `f` and not queued it yet -/
  | append (f : F)
  /-- `wait` is about to call `self._lock.release()` -/
  | toRelease (f : F)
  /-- `wait`, inside of `Lock.release` -/
  | releasing (f : F)
  /-- `wait`, at `await fut` -/
  | awaiting (f : F) (pc : AwaitPc)
  /-- the except clause of `wait`, before its locked section -/
  | caught (f : F)
  /-- the finally clause of `wait` -/
  | reacquire
  /-- the finally clause, inside of `Lock.acquire` -/
  | acquiring
deriving DecidableEq

/-- Where a thread stands in `notify` or `notify_all`. -/
inductive NotifyPc (F : Type) where
  | idle
  /-- the loop of `notify`, under `_mu` -/
  | loop (n : Nat)
  | setting (f : F) (n : Nat)
  /-- the loop of `notify_all` over the waiters it took -/
  | sweep (waiters : List F)
  | sweepSetting (f : F) (waiters : List F)
deriving DecidableEq

structure State (T F C N : Type) where
  lock : Lock.State T F C
  waiters : List F
  /-- the futures made by `wait` -/
  issued : F → Bool
  mu : Option N
  task : T → CondPc F
  notifier : N → NotifyPc F

inductive Act (T F C N : Type) where
  | kernel (a : KernelAct T F C)
  /-- a task outside of the library code goes on -/
  | elsewhere (t : T) (e : Lock.Elsewhere T F)
  /-- `__aenter__`; `f` is the lock's future if it has to wait -/
  | enter (t : T) (f : F)
  /-- `__aexit__` -/
  | exit (t : T)
  /-- `t` calls `wait`, which makes `f` -/
  | wait (t : T) (f : F)
  /-- `wait` calls `self._lock.acquire()` in its finally clause -/
  | reacquire (t : T) (f : F)
  /-- the next step of `t` inside of the library code -/
  | task (t : T)
  | notify (p : N) (n : Nat)
  | notifyAll (p : N)
  /-- the next step of the `notify` or `notify_all` of `p` -/
  | notifier (p : N)

variable {T F C N : Type} [DecidableEq T] [DecidableEq F] [DecidableEq C] [DecidableEq N]

namespace State

def setTask (s : State T F C N) (t : T) (pc : CondPc F) : State T F C N :=
  { s with task := Function.update s.task t pc }

def setLock (s : State T F C N) (l : Lock.State T F C) : State T F C N :=
  { s with lock := l }

def setNotifier (s : State T F C N) (p : N) (pc : NotifyPc F) : State T F C N :=
  { s with notifier := Function.update s.notifier p pc }

end State

/-- Where a step inside of the lock's code leads the caller: the call is over
when the lock's counter says so. -/
def afterLock (pc : CondPc F) (lock : LockPc F) : CondPc F :=
  match pc, lock with
  | .entering, .holding => .inside
  | .entering, .outside | .entering, .raised => .away
  | .leaving, .outside | .leaving, .raised => .away
  | .releasing f, .outside => .awaiting f .test
  -- the error of `release` leaves `wait` before its try block
  | .releasing _, .raised => .inside
  | .acquiring, .holding => .inside
  -- `wait` raises out of its finally clause
  | .acquiring, .outside | .acquiring, .raised => .inside
  | pc, _ => pc

/-- Take a step of the lock's machine and let task `t` follow it. -/
def follow (s : State T F C N) (t : T) (pc : CondPc F) (a : Lock.Act T F C) :
    Option (State T F C N) :=
  (Lock.step s.lock a).map fun l => (s.setLock l).setTask t (afterLock pc (l.task t))

/-- Where the await of `wait` leads: the finally clause runs in any case. -/
def afterAwait (f : F) : AwaitPc ⊕ Outcome → CondPc F
  | .inl pc => .awaiting f pc
  | .inr .cancelled => .caught f
  | .inr _ => .reacquire

/-- The next step of `t` inside of the library code. -/
def taskStep (s : State T F C N) (t : T) : Option (State T F C N) :=
  match s.task t with
  | .away | .inside | .reacquire => none
  | .entering => follow s t .entering (.task t)
  | .leaving => follow s t .leaving (.task t)
  | .append f =>
      if s.mu.isSome then none
      else some ({ s with waiters := s.waiters ++ [f] }.setTask t (.toRelease f))
  | .toRelease f =>
      -- `release` does not ask who calls it
      some ((s.setLock (s.lock.setTask t .entering)).setTask t (.releasing f))
  | .releasing f => follow s t (.releasing f) (.task t)
  | .awaiting f pc =>
      (s.lock.kernel.awaitStep t (.fut f) pc).bind fun next =>
        (Lock.step s.lock (.elsewhere t (.await (.fut f) pc))).map fun l =>
          (s.setLock l).setTask t (afterAwait f next.2)
  | .caught f =>
      if s.mu.isSome then none
      else some ({ s with waiters := s.waiters.erase f }.setTask t .reacquire)
  | .acquiring => follow s t .acquiring (.task t)

/-- `set_result(True)` of a waiter; an error ends the call. -/
def setResult (s : State T F C N) (p : N) (f : F) (next : NotifyPc F) :
    Option (State T F C N) :=
  if s.lock.kernel.state (.fut f) = .pending then
    (Lock.step s.lock (.kernel (.complete f .finished))).map fun l =>
      (s.setLock l).setNotifier p next
  else some ({ s with mu := if s.mu = some p then none else s.mu }.setNotifier p .idle)

/-- The next step of `notify` or `notify_all`. -/
def notifierStep (s : State T F C N) (p : N) : Option (State T F C N) :=
  match s.notifier p with
  | .idle => none
  | .loop n =>
      match s.waiters, n with
      | f :: rest, n + 1 =>
          some ({ s with waiters := rest }.setNotifier p
            (if s.lock.kernel.state (.fut f) = FutState.pending then .setting f n
              else .loop (n + 1)))
      | _, _ => some ({ s with mu := none }.setNotifier p .idle)
  | .setting f n => setResult s p f (.loop n)
  | .sweep [] => some (s.setNotifier p .idle)
  | .sweep (f :: rest) =>
      some (s.setNotifier p
        (if s.lock.kernel.state (.fut f) = FutState.pending then .sweepSetting f rest
          else .sweep rest))
  | .sweepSetting f rest => setResult s p f (.sweep rest)

def step (s : State T F C N) : Act T F C N → Option (State T F C N)
  | .kernel (.complete f st) =>
      if s.issued f then none
      else (Lock.step s.lock (.kernel (.complete f st))).map s.setLock
  | .kernel a => (Lock.step s.lock (.kernel a)).map s.setLock
  | .elsewhere t e =>
      if s.task t = .away ∨ s.task t = .inside then
        match e with
        | .await (.fut f) _ =>
            if s.issued f then none
            else (Lock.step s.lock (.elsewhere t e)).map s.setLock
        | _ => (Lock.step s.lock (.elsewhere t e)).map s.setLock
      else none
  | .enter t f => if s.task t = .away then follow s t .entering (.acquire t f) else none
  | .exit t =>
      if s.task t = .inside then
        some ((s.setLock (s.lock.setTask t .entering)).setTask t .leaving)
      else none
  | .wait t f =>
      if s.task t = .inside then
        (Lock.step s.lock (.elsewhere t (.create f))).map fun l =>
          ({ s with issued := Function.update s.issued f true }.setLock l).setTask t (.append f)
      else none
  | .reacquire t f =>
      if s.task t = .reacquire then follow s t .acquiring (.acquire t f) else none
  | .task t => taskStep s t
  | .notify p n =>
      if s.notifier p = .idle ∧ s.mu = none then
        some ({ s with mu := some p }.setNotifier p (.loop n))
      else none
  | .notifyAll p =>
      if s.notifier p = .idle ∧ s.mu = none then
        some ({ s with waiters := [] }.setNotifier p (.sweep s.waiters))
      else none
  | .notifier p => notifierStep s p

def Start (s : State T F C N) : Prop :=
  Lock.Start s.lock ∧ s.waiters = [] ∧ (∀ f, s.issued f = false) ∧ s.mu = none ∧
    (∀ t, s.task t = .away) ∧ ∀ p, s.notifier p = .idle

def machine (T F C N : Type) [DecidableEq T] [DecidableEq F] [DecidableEq C] [DecidableEq N] :
    Machine (State T F C N) (Act T F C N) where
  start := Start
  step := step

end MtAsyncio.Condition
