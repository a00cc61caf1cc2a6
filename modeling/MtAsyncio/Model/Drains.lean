/-
Module: MtAsyncio.Model.Drains
Purpose: The flow control of `StreamReaderProtocol` in `_streams.py`: `_drain_helper` of
  any number of writers beside `pause_writing`, `resume_writing` and `connection_lost` of
  the transport, under `_flow_lock`, and the cancels of the waiters, which take no lock.
Trusted boundary: the bodies of the callbacks are those of CPython's `FlowControlMixin`;
  a completed future resumes its task
Main exports: Waiter, Pc, State, Act, step, machine
-/
import MtAsyncio.Lib.Machine
import MtAsyncio.Lib.WakeLoop

namespace MtAsyncio.Drains

open Lib (Machine WakeLoop)

/-- The future that a writer waits for. -/
inductive Waiter where
  | pending
  | result
  | exception
  | cancelled
deriving DecidableEq

/-- `waiter.done()` -/
def Waiter.done : Waiter → Bool
  | .pending => false
  | _ => true

/-- Where a writer stands in `_drain_helper`. -/
inductive Pc where
  | outside
  /-- `await waiter` -/
  | await (w : Nat)
  /-- its `finally` -/
  | leave (w : Nat)
deriving DecidableEq

/-- `loop` is the one over `_drain_waiters` of the thread that has `_flow_lock`, with the
exception of `connection_lost`; every other section under the lock is one step. -/
structure State (T : Type) where
  paused : Bool
  connectionLost : Bool
  drainWaiters : List Nat
  waiter : Nat → Waiter
  created : Nat
  loop : Option (WakeLoop Nat × Bool)
  pc : T → Pc

inductive Act (T : Type) where
  | drain (t : T)
  | pauseWriting
  | resumeWriting
  | connectionLost (exc : Bool)
  /-- one step of the loop over `_drain_waiters` -/
  | wake
  /-- `Task.cancel` reaches a waiter -/
  | cancel (w : Nat)
  | resume (t : T)
  | leave (t : T)

variable {T : Type}

/-- `waiter.done()` -/
def State.done (s : State T) (w : Nat) : Bool :=
  (s.waiter w).done

/-- One step of the loop; `set_result` raises for a waiter that is done, and the lock is
given back on the way out. -/
def wakeStep (s : State T) (loop : WakeLoop Nat) (exc : Bool) : State T :=
  match loop.turn s.done with
  | .goes loop => { s with loop := some (loop, exc) }
  | .settles w loop =>
      { s with
        waiter := Function.update s.waiter w (if exc then .exception else .result)
        loop := some (loop, exc) }
  | .fails => { s with loop := none }
  | .finished => { s with loop := none }

variable [DecidableEq T]

def State.goto (s : State T) (t : T) (pc : Pc) : State T :=
  { s with pc := Function.update s.pc t pc }

def step (s : State T) : Act T → Option (State T)
  | .drain t =>
      if s.pc t = .outside ∧ s.loop = none then
        if s.connectionLost || !s.paused then some s
        else
          some ({ s with
            created := s.created + 1
            waiter := Function.update s.waiter s.created .pending
            drainWaiters := s.drainWaiters ++ [s.created] }.goto t (.await s.created))
      else none
  -- this one and the next raise where they find their assertion false
  | .pauseWriting => if s.loop = none then some { s with paused := true } else none
  | .resumeWriting =>
      if s.loop = none then
        if s.paused then
          some { s with paused := false, loop := some (.looking s.drainWaiters, false) }
        else some s
      else none
  | .connectionLost exc =>
      if s.loop = none then
        some { s with
          connectionLost := true
          loop := if s.paused then some (.looking s.drainWaiters, exc) else none }
      else none
  | .wake =>
      match s.loop with
      | some (loop, exc) => some (wakeStep s loop exc)
      | none => none
  | .cancel w =>
      if s.waiter w = .pending then
        some { s with waiter := Function.update s.waiter w .cancelled }
      else none
  | .resume t =>
      match s.pc t with
      | .await w => if s.done w then some (s.goto t (.leave w)) else none
      | _ => none
  | .leave t =>
      match s.pc t with
      | .leave w =>
          if s.loop = none then
            some ({ s with drainWaiters := s.drainWaiters.erase w }.goto t .outside)
          else none
      | _ => none

def fresh (T : Type) : State T where
  paused := false
  connectionLost := false
  drainWaiters := []
  waiter := fun _ => .pending
  created := 0
  loop := none
  pc := fun _ => .outside

def machine (T : Type) [DecidableEq T] : Machine (State T) (Act T) where
  start s := s = fresh T
  step := step

end MtAsyncio.Drains
