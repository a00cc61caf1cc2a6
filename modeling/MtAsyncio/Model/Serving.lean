/-
Module: MtAsyncio.Model.Serving
Purpose: The end of a `Server` of `_net.py`: `_attach` and `_detach` of its connections on
  any worker, `close`, and `wait_closed` of any number of tasks, under `_mt_lock`, with the
  loop of `_wakeup` that the last of them comes to, and the cancels of the waiters.
Trusted boundary: the bodies under the lock are those of CPython's `Server`, with its set
  of clients; a completed future resumes its task
Main exports: Waiter, Pc, State, Act, step, machine
-/
import MtAsyncio.Lib.Machine
import MtAsyncio.Lib.WakeLoop

namespace MtAsyncio.Serving

open Lib (Machine WakeLoop)

/-- The future of a `wait_closed`. -/
inductive Waiter where
  | pending
  | result
  | cancelled
deriving DecidableEq

/-- `waiter.done()` -/
def Waiter.done : Waiter → Bool
  | .pending => false
  | _ => true

inductive Pc where
  | outside
  /-- `await waiter` in `wait_closed` -/
  | await (w : Nat)
  /-- `wait_closed` has returned -/
  | returned
deriving DecidableEq

/-- `sockets` tells whether `_sockets` is not `None`; `loop` is the one of `_wakeup` of the
thread that has the lock, and every other section under the lock is one step. -/
structure State (T C : Type) where
  sockets : Bool
  clients : List C
  waiters : Option (List Nat)
  waiter : Nat → Waiter
  created : Nat
  loop : Option (WakeLoop Nat)
  pc : T → Pc

inductive Act (T C : Type) where
  | attach (c : C)
  | detach (c : C)
  | close
  | waitClosed (t : T)
  /-- one step of the loop of `_wakeup` -/
  | wake
  /-- `Task.cancel` reaches a waiter -/
  | cancel (w : Nat)
  | resume (t : T)

variable {T C : Type}

/-- `waiter.done()` -/
def State.done (s : State T C) (w : Nat) : Bool :=
  (s.waiter w).done

/-- `_wakeup`, which cannot go through a `None` of a second time. -/
def State.wakeup (s : State T C) : State T C :=
  match s.waiters with
  | some waiters => { s with waiters := none, loop := some (.looking waiters) }
  | none => s

/-- One step of its loop; `set_result` raises for a waiter that is done. -/
def wakeStep (s : State T C) (loop : WakeLoop Nat) : State T C :=
  match loop.turn s.done with
  | .goes loop => { s with loop := some loop }
  | .settles w loop =>
      { s with waiter := Function.update s.waiter w .result, loop := some loop }
  | .fails => { s with loop := none }
  | .finished => { s with loop := none }

variable [DecidableEq T] [DecidableEq C]

def State.goto (s : State T C) (t : T) (pc : Pc) : State T C :=
  { s with pc := Function.update s.pc t pc }

def step (s : State T C) : Act T C → Option (State T C)
  -- behind `close` its assertion fails
  | .attach c =>
      if s.loop = none then
        some { s with clients := if s.sockets then s.clients.insert c else s.clients }
      else none
  | .detach c =>
      if s.loop = none then
        let left := { s with clients := s.clients.erase c }
        some (if left.clients = [] ∧ left.sockets = false then left.wakeup else left)
      else none
  | .close =>
      if s.loop = none then
        if s.sockets then
          let closed := { s with sockets := false }
          some (if closed.clients = [] then closed.wakeup else closed)
        else some s
      else none
  | .waitClosed t =>
      if s.pc t = .outside ∧ s.loop = none then
        match s.waiters with
        | none => some (s.goto t .returned)
        | some waiters =>
            some ({ s with
              created := s.created + 1
              waiter := Function.update s.waiter s.created .pending
              waiters := some (waiters ++ [s.created]) }.goto t (.await s.created))
      else none
  | .wake =>
      match s.loop with
      | some loop => some (wakeStep s loop)
      | none => none
  | .cancel w =>
      if s.waiter w = .pending then
        some { s with waiter := Function.update s.waiter w .cancelled }
      else none
  -- the result is returned, and a cancel raised
  | .resume t =>
      match s.pc t with
      | .await w =>
          match s.waiter w with
          | .pending => none
          | .result => some (s.goto t .returned)
          | .cancelled => some (s.goto t .outside)
      | _ => none

/-- The server has been made; `_waiters` is the empty list. -/
def fresh (T C : Type) : State T C where
  sockets := true
  clients := []
  waiters := some []
  waiter := fun _ => .pending
  created := 0
  loop := none
  pc := fun _ => .outside

def machine (T C : Type) [DecidableEq T] [DecidableEq C] : Machine (State T C) (Act T C) where
  start s := s = fresh T C
  step := step

end MtAsyncio.Serving
