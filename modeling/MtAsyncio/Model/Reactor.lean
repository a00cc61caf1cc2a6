/-
Module: MtAsyncio.Model.Reactor
Purpose: The runtime that the event loops share: `EventLoop._ensure_reactor`,
  the calls that run it and `close` of `_loop.py`, one step for each access to a
  field of the loop, and `_Reactor.acquire` and `release` of `_reactor.py`, one
  step for each locked section.
Trusted boundary: `threading.Lock` excludes, the single field reads and writes
  are atomic, a reactor thread that was started is up within the deadline of
  `_start`, and one that was told to stop ends within the timeout of `_stop`
Main exports: CallPc, State, State.acquired, State.released, Act, callStep,
  step, machine
-/
import Mathlib.Logic.Function.Basic
import MtAsyncio.Lib.Machine

namespace MtAsyncio.Reactor

open Lib (Machine)

/-!
The loops are drawn from `L`, the threads that call their methods from `C`.  The
runtime is driven by the thread that the reactor starts, or by somebody else;
`_ssock_w` is set while it is driven.
-/

/-- What a call does once the runtime is there. -/
inductive Kind where
  /-- `create_task`, `call_soon`, `call_at`, `run_in_executor`, `_add_fd_callback` -/
  | schedule
  /-- `run_until_complete`, `run_forever`; the former makes a task of its
  coroutine first, a `schedule` of the same thread -/
  | run
deriving DecidableEq

/-- Where a call of a method of a loop stands. -/
inductive CallPc (L : Type) where
  | idle
  | checkClosed (l : L) (kind : Kind)
  -- `_ensure_reactor`
  | test (l : L) (kind : Kind)
  | acquire (l : L) (kind : Kind)
  | assign (l : L) (kind : Kind)
  -- the rest of `run_until_complete` and `run_forever`
  | setRunning (l : L)
  | waiting (l : L)
  -- `close`
  | closeRunning (l : L)
  | closeClosed (l : L)
  | closeSet (l : L)
  | closeTest (l : L)
  | closeClear (l : L)
  | closeRelease (l : L)
deriving DecidableEq

structure State (L C : Type) where
  -- the loops
  reactorAcquired : L → Bool
  closed : L → Bool
  running : L → Bool
  -- the reactor
  count : Nat
  ownsRun : Bool
  /-- the thread that the reactor started drives the runtime -/
  thread : Bool
  -- the runtime
  /-- somebody else drives it -/
  elsewhere : Bool
  /-- it was created by somebody else, without `context` -/
  noContext : Bool
  call : C → CallPc L
  -- history: the last `_start` found the runtime driven elsewhere
  found : Bool

variable {L C : Type} [DecidableEq L] [DecidableEq C]

def State.setCall (s : State L C) (c : C) (pc : CallPc L) : State L C :=
  { s with call := Function.update s.call c pc }

/-! ## `_Reactor` -/

/-- `_start`; `none` when it raises. -/
def State.started (s : State L C) : Option (State L C) :=
  if s.noContext then none
  else if s.thread || s.elsewhere then some { s with ownsRun := false, found := true }
  else some { s with thread := true, ownsRun := true, found := false }

/-- `acquire`; `none` when it raises. -/
def State.acquired (s : State L C) : Option (State L C) :=
  if s.count = 0 then s.started.map fun s' => { s' with count := s'.count + 1 }
  else some { s with count := s.count + 1 }

/-- `_stop` -/
def State.stopped (s : State L C) : State L C :=
  { s with ownsRun := false, thread := false }

/-- `release` -/
def State.released (s : State L C) : State L C :=
  if s.count = 0 then s
  else if s.count - 1 = 0 ∧ s.ownsRun then { s with count := s.count - 1 }.stopped
  else { s with count := s.count - 1 }

/-! ## Calls -/

/-- The call goes on after `_ensure_reactor`. -/
def Kind.rest (l : L) : Kind → CallPc L
  | .schedule => .idle
  | .run => .setRunning l

/-- The next step of the call that thread `c` is inside of. -/
def callStep (s : State L C) (c : C) : Option (State L C) :=
  match s.call c with
  | .idle => none
  | .checkClosed l kind => some (s.setCall c (if s.closed l then .idle else .test l kind))
  | .test l kind =>
      some (s.setCall c (if s.reactorAcquired l then kind.rest l else .acquire l kind))
  | .acquire l kind =>
      match s.acquired with
      | none => some (s.setCall c .idle)
      | some s' => some (s'.setCall c (.assign l kind))
  | .assign l kind =>
      some ({ s with reactorAcquired := Function.update s.reactorAcquired l true }.setCall c
        (kind.rest l))
  | .setRunning l =>
      some ({ s with running := Function.update s.running l true }.setCall c (.waiting l))
  | .waiting l =>
      some ({ s with running := Function.update s.running l false }.setCall c .idle)
  | .closeRunning l => some (s.setCall c (if s.running l then .idle else .closeClosed l))
  | .closeClosed l => some (s.setCall c (if s.closed l then .idle else .closeSet l))
  | .closeSet l =>
      some ({ s with closed := Function.update s.closed l true }.setCall c (.closeTest l))
  | .closeTest l => some (s.setCall c (if s.reactorAcquired l then .closeClear l else .idle))
  | .closeClear l =>
      some ({ s with reactorAcquired := Function.update s.reactorAcquired l false }.setCall c
        (.closeRelease l))
  | .closeRelease _ => some (s.released.setCall c .idle)

inductive Act (L C : Type) where
  /-- thread `c` calls a method of `l` that needs the runtime -/
  | ensure (c : C) (l : L) (kind : Kind)
  /-- thread `c` calls `l.close()` -/
  | close (c : C) (l : L)
  /-- the next step of the call that thread `c` is inside of -/
  | call (c : C)
  /-- somebody else starts to drive the runtime, or stops -/
  | drive
  | undrive

def step (s : State L C) : Act L C → Option (State L C)
  | .ensure c l kind =>
      if s.call c = .idle then some (s.setCall c (.checkClosed l kind)) else none
  | .close c l =>
      if s.call c = .idle then some (s.setCall c (.closeRunning l)) else none
  | .call c => callStep s c
  | .drive => if s.thread || s.elsewhere then none else some { s with elsewhere := true }
  | .undrive => some { s with elsewhere := false }

/-- New loops, and a reactor that was not used yet. -/
def Start (s : State L C) : Prop :=
  (∀ l, s.reactorAcquired l = false) ∧ (∀ l, s.closed l = false) ∧ (∀ l, s.running l = false) ∧
    s.count = 0 ∧ s.ownsRun = false ∧ s.thread = false ∧ ∀ c, s.call c = .idle

def machine (L C : Type) [DecidableEq L] [DecidableEq C] : Machine (State L C) (Act L C) where
  start := Start
  step := step

end MtAsyncio.Reactor
