/-
Module: MtAsyncio.Model.Startup
Purpose: How the runtime that the event loops share comes up and goes down: the steps of
  `_Reactor.acquire` and `release` inside of their lock, the calls of a loop that
  register an fd, and `Runtime.run_forever` on whatever thread drives the runtime.
Trusted boundary: `threading.Lock` excludes, and the fields of the runtime are single
  atomic cells; there is one runtime in a process
Main exports: CallPc, Exit, DrivePc, State, Act, callStep, driveStep, failStep, step,
  machine
-/
import Mathlib.Logic.Function.Basic
import MtAsyncio.Lib.Machine

namespace MtAsyncio.Startup

open Lib (Machine)

/-!
The loops are drawn from `L`, the threads that call their methods from `C`, and
the threads that call `run_forever` from `D`: those that the reactor starts and
those of somebody else who drives the runtime.
-/

/-- Where a call of a method of a loop stands. -/
inductive CallPc (L D : Type) where
  | idle
  -- `_add_fd_callback`
  | checkClosed (l : L)
  /-- `_ensure_reactor` -/
  | test (l : L)
  -- `acquire` and `_start`
  | lock (l : L)
  | count (l : L)
  | runtime (l : L)
  | reuse (l : L)
  | start (l : L)
  | poll (l : L)
  /-- the count goes up and the lock is released -/
  | returns (l : L)
  | assign (l : L)
  /-- `ScheduledIO(fd)`, which is `io_register` -/
  | register (l : L)
  -- `close` of a loop that is not running
  | closeClosed (l : L)
  | closeSet (l : L)
  | closeTest (l : L)
  | closeClear (l : L)
  -- `release` and `_stop`
  | releaseLock
  | releaseCount
  | stop
  | join (thread : Option D)
  | unlock
deriving DecidableEq

/-- Why `_run_forever_post` is reached: `_ssock_start` raised, what comes after
it raised before the runtime was published, or the loop was left. -/
inductive Exit where
  | refused
  | failed
  | ran
deriving DecidableEq

/-- Where a thread stands inside of `run_forever`. -/
inductive DrivePc where
  | outside
  -- `_ssock_start`
  | ssockTest
  | ssockSet
  | setBlocking
  | sigReg
  -- `_run`
  /-- the poller, its waker and the signal socket -/
  | pollNew
  | publishRegistry
  | publishWaker
  | publishSchedule
  | looping
  -- the end of `teardown`
  | dropSchedule
  | dropWaker
  | dropRegistry
  -- `_run_forever_post`
  | sigDereg (e : Exit)
  | ssockStop (e : Exit)
  | unstop
deriving DecidableEq

structure State (L C D : Type) where
  -- the loops
  reactorAcquired : L → Bool
  closed : L → Bool
  -- the reactor
  lock : Option C
  count : Nat
  thread : Option D
  ownsRun : Bool
  -- the runtime
  /-- whether it was created with `context`, once it was created -/
  context : Option Bool
  /-- `_ssock_w is not None` -/
  ssock : Bool
  stopping : Bool
  registry : Bool
  waker : Bool
  schedule : Bool
  call : C → CallPc L D
  drive : D → DrivePc
  -- history
  /-- the threads that have left their loop and not yet stopped the self-socket -/
  leaving : List D
  /-- `acquire` has returned while the runtime was driven, and it has not been stopped since -/
  promised : Bool
  /-- an `io_register` has panicked while this was so -/
  panicked : Bool

variable {L C D : Type} [DecidableEq L] [DecidableEq C] [DecidableEq D]

namespace State

def goCall (s : State L C D) (c : C) (pc : CallPc L D) : State L C D :=
  { s with call := Function.update s.call c pc }

def goDrive (s : State L C D) (d : D) (pc : DrivePc) : State L C D :=
  { s with drive := Function.update s.drive d pc }

/-- The runtime is driven, and no thread is on its way out of it. -/
def driven (s : State L C D) : Bool :=
  s.ssock && s.leaving.isEmpty

/-- The loop of `_run` is left, and with it the runtime is stopped. -/
def leaves (s : State L C D) (d : D) : State L C D :=
  { s with leaving := d :: s.leaving, promised := false }.goDrive d .dropSchedule

end State

/-- The next step of the call that thread `c` is inside of. -/
def callStep (s : State L C D) (c : C) : Option (State L C D) :=
  match s.call c with
  | .idle => none
  | .checkClosed l => some (s.goCall c (if s.closed l then .idle else .test l))
  | .test l => some (s.goCall c (if s.reactorAcquired l then .register l else .lock l))
  | .lock l =>
      if s.lock.isSome then none else some ({ s with lock := some c }.goCall c (.count l))
  | .count l => some (s.goCall c (if s.count = 0 then .runtime l else .returns l))
  | .runtime l =>
      match s.context with
      | none => some ({ s with context := some true }.goCall c (.reuse l))
      | some true => some (s.goCall c (.reuse l))
      | some false => some ({ s with lock := none }.goCall c .idle)
  | .reuse l =>
      if s.ssock then some ({ s with ownsRun := false }.goCall c (.returns l))
      else some (s.goCall c (.start l))
  | .start _ => none
  | .poll l => some (s.goCall c (if s.ssock then .returns l else .poll l))
  | .returns l =>
      some ({ s with
        count := s.count + 1
        lock := none
        promised := s.promised || s.driven }.goCall c (.assign l))
  | .assign l =>
      some ({ s with reactorAcquired := Function.update s.reactorAcquired l true }.goCall c
        (.register l))
  | .register _ =>
      -- `io_registry.load_full().expect("runtime is not running")`
      some ({ s with panicked := s.panicked || (s.promised && !s.registry) }.goCall c .idle)
  | .closeClosed l => some (s.goCall c (if s.closed l then .idle else .closeSet l))
  | .closeSet l =>
      some ({ s with closed := Function.update s.closed l true }.goCall c (.closeTest l))
  | .closeTest l => some (s.goCall c (if s.reactorAcquired l then .closeClear l else .idle))
  | .closeClear l =>
      some ({ s with reactorAcquired := Function.update s.reactorAcquired l false }.goCall c
        .releaseLock)
  | .releaseLock =>
      if s.lock.isSome then none else some ({ s with lock := some c }.goCall c .releaseCount)
  | .releaseCount =>
      if s.count = 0 then some (s.goCall c .unlock)
      else
        some ({ s with count := s.count - 1 }.goCall c
          (if s.count - 1 = 0 ∧ s.ownsRun = true then .stop else .unlock))
  | .stop =>
      some ({ s with thread := none, ownsRun := false, stopping := true }.goCall c
        (.join s.thread))
  | .join none => some (s.goCall c .unlock)
  | .join (some d) => if s.drive d = .outside then some (s.goCall c .unlock) else none
  | .unlock => some ({ s with lock := none }.goCall c .idle)

/-- The next step of thread `d` inside of `run_forever`, when it does not fail. -/
def driveStep (s : State L C D) (d : D) : Option (State L C D) :=
  match s.drive d with
  | .outside => none
  | .ssockTest => some (s.goDrive d (if s.ssock then .sigDereg .refused else .ssockSet))
  | .ssockSet => some ({ s with ssock := true }.goDrive d .setBlocking)
  | .setBlocking => some (s.goDrive d .sigReg)
  | .sigReg => some (s.goDrive d .pollNew)
  | .pollNew => some (s.goDrive d .publishRegistry)
  | .publishRegistry => some ({ s with registry := true }.goDrive d .publishWaker)
  | .publishWaker => some ({ s with waker := true }.goDrive d .publishSchedule)
  | .publishSchedule => some ({ s with schedule := true }.goDrive d .looping)
  | .looping => some (if s.stopping then s.leaves d else s)
  | .dropSchedule => some ({ s with schedule := false }.goDrive d .dropWaker)
  | .dropWaker => some ({ s with waker := false }.goDrive d .dropRegistry)
  | .dropRegistry => some ({ s with registry := false }.goDrive d (.sigDereg .ran))
  | .sigDereg e => some (s.goDrive d (.ssockStop e))
  | .ssockStop _ =>
      -- "self-socket has not been setup" leaves `_stopping` as it is
      some ({ s with ssock := false, leaving := s.leaving.filter (· ≠ d) }.goDrive d
        (if s.ssock then .unstop else .outside))
  | .unstop => some ({ s with stopping := false }.goDrive d .outside)

/-- What thread `d` calls in `run_forever` raises. -/
def failStep (s : State L C D) (d : D) : Option (State L C D) :=
  match s.drive d with
  | .ssockSet => some (s.goDrive d (.sigDereg .refused))
  | .setBlocking => some ({ s with ssock := false }.goDrive d (.sigDereg .refused))
  | .sigReg | .pollNew => some (s.goDrive d (.sigDereg .failed))
  -- an error of the poller, or a signal that nobody handles
  | .looping => some (s.leaves d)
  | _ => none

inductive Act (L C D : Type) where
  /-- thread `c` calls `add_reader` or `add_writer` of `l` -/
  | register (c : C) (l : L)
  /-- thread `c` calls `l.close()` -/
  | close (c : C) (l : L)
  | call (c : C)
  /-- `_start` on `c` starts the thread `d` -/
  | start (c : C) (d : D)
  /-- the thread cannot be started, or the deadline of `_start` has passed -/
  | raises (c : C)
  /-- the fd has a registration already -/
  | cached (c : C)
  /-- `thread.join` gives up -/
  | timeout (c : C)
  /-- somebody else creates the runtime, drives it or calls its `stop` -/
  | create (context : Bool)
  | run (d : D)
  | stop
  | drive (d : D)
  | fail (d : D)
deriving DecidableEq

def step (s : State L C D) : Act L C D → Option (State L C D)
  | .register c l => if s.call c = .idle then some (s.goCall c (.checkClosed l)) else none
  | .close c l => if s.call c = .idle then some (s.goCall c (.closeClosed l)) else none
  | .call c => callStep s c
  | .start c d =>
      match s.call c with
      | .start l =>
          if s.drive d = .outside then
            some (({ s with thread := some d, ownsRun := true }.goCall c (.poll l)).goDrive d
              .ssockTest)
          else none
      | _ => none
  | .raises c =>
      match s.call c with
      | .start _ => some ({ s with lock := none }.goCall c .idle)
      | .poll _ => if s.ssock then none else some ({ s with lock := none }.goCall c .idle)
      | _ => none
  | .cached c =>
      match s.call c with
      | .register _ => some (s.goCall c .idle)
      | _ => none
  | .timeout c =>
      match s.call c with
      | .join _ => some (s.goCall c .unlock)
      | _ => none
  | .create context => if s.context = none then some { s with context := some context } else none
  | .run d =>
      if s.context.isSome ∧ s.drive d = .outside then some (s.goDrive d .ssockTest) else none
  | .stop => if s.context.isSome then some { s with stopping := true } else none
  | .drive d => driveStep s d
  | .fail d => failStep s d

/-- New loops, and a runtime that nobody has driven yet. -/
def fresh : State L C D where
  reactorAcquired := fun _ => false
  closed := fun _ => false
  lock := none
  count := 0
  thread := none
  ownsRun := false
  context := none
  ssock := false
  stopping := false
  registry := false
  waker := false
  schedule := false
  call := fun _ => .idle
  drive := fun _ => .outside
  leaving := []
  promised := false
  panicked := false

def machine (L C D : Type) [DecidableEq L] [DecidableEq C] [DecidableEq D] :
    Machine (State L C D) (Act L C D) where
  start s := s = fresh
  step := step

end MtAsyncio.Startup
