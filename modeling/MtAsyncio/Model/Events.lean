/-
Module: MtAsyncio.Model.Events
Purpose: `Event`, the registration of a single-event `Waiter` and
  `CoroSuspension` of `events.rs`, the timers of `time.rs`, and the handles of
  `handles.rs` that step a coroutine and dispatch what it yielded.
Trusted boundary: coroutines and the order in which workers take handles are
  arbitrary; a `Waiter` has one event and no checkpoint, so `aborted` is never
  set and `hold` does nothing; a set or clear that a coroutine makes inside of
  its step is one of another thread; one access to an atomic is one step
Main exports: Waiters, Handle, Pc, Yield, State, Act, threadStep, step, machine
-/
import Mathlib.Logic.Function.Basic
import MtAsyncio.Lib.Machine

namespace MtAsyncio.Events

open Lib (Machine)

/-- The `Waiter` objects: the event of each of them, and whether it has a
timeout.  A `Waiter` is registered at most once, so it also names the
`CoroSuspension` that its registration makes. -/
structure Waiters (E X : Type) where
  event : X → E
  timed : X → Bool

/-- A unit of work: a step of a coroutine by `send` or by `throw`, or a timer
that is due. -/
inductive Handle (C X : Type) where
  | send (c : C)
  | throw (c : C)
  | timer (x : X)
deriving DecidableEq

def Handle.coro {C X : Type} : Handle C X → Option C
  | .send c | .throw c => some c
  | .timer _ => none

/-- Where a thread goes on after it has pushed a handle. -/
inductive After (E X : Type) where
  | idle
  /-- back in `add_waker` of the registration of `x` -/
  | unlock (x : X)
  /-- back in the loop of `notify` -/
  | drain (e : E)
deriving DecidableEq

/-- Where a thread stands. -/
inductive Pc (C E X : Type) where
  | idle
  /-- inside of the coroutine -/
  | stepping (c : C)
  /-- `add_handle` or `defer_handle` -/
  | push (h : Handle C X) (after : After E X)
  /-- `register_coro`, before it claims the waiter -/
  | register (c : C) (x : X)
  /-- `add_waker`, before it takes the watchers' lock -/
  | addWaker (c : C) (x : X)
  /-- inside of the lock, before the flag is loaded -/
  | addCheck (c : C) (x : X)
  /-- the flag was set: `waker.wake(py)` in place of `push_back` -/
  | addWake (c : C) (x : X)
  | addPush (c : C) (x : X)
  | addUnlock (x : X)
  /-- the timeout of the waiter -/
  | addTimer (x : X)
  /-- `resume` of a timer's handle -/
  | timer (x : X)
  /-- `set` has flipped the flag -/
  | notify (e : E)
  /-- the loop of `notify`, inside of the lock -/
  | drain (e : E)
  /-- `notify` has popped a waker -/
  | wake (e : E) (x : X)
  /-- `clear` has flipped the flag -/
  | unnotify (e : E)
  /-- a panic has ended the thread -/
  | dead
deriving DecidableEq

/-- What a step of a coroutine ends with. -/
inductive Yield (X : Type) where
  | none_
  | waiter (x : X)
  /-- an object the runtime cannot drive -/
  | undrivable
  | returned
  | raised
deriving DecidableEq

/-- `target`, `consumed` and `published` belong to the suspension of a waiter,
which is published when its waker is pushed; `resumes` counts the handles that
it has made.  `heap` are the pending timers. -/
structure State (T C E X : Type) where
  flag : E → Bool
  watchers : E → List X
  lock : E → Option T
  registered : X → Bool
  target : X → Option C
  published : X → Bool
  consumed : X → Bool
  resumes : X → Nat
  heap : List X
  queue : List (Handle C X)
  spawned : C → Bool
  finished : C → Bool
  pc : T → Pc C E X

inductive Act (T C E X : Type) where
  /-- a thread spawns a coroutine -/
  | spawn (t : T) (c : C)
  /-- a worker takes a handle -/
  | run (t : T) (h : Handle C X)
  /-- the coroutine that a worker is stepping gets to the end of its step -/
  | yield (t : T) (y : Yield X)
  | set (t : T) (e : E)
  | clear (t : T) (e : E)
  /-- the poll thread takes a due timer off the heap -/
  | due (t : T) (x : X)
  /-- the next step of a thread that is inside of a call -/
  | thread (t : T)
deriving DecidableEq

variable {T C E X : Type} [DecidableEq T] [DecidableEq C] [DecidableEq E] [DecidableEq X]

namespace State

def goto (s : State T C E X) (t : T) (pc : Pc C E X) : State T C E X :=
  { s with pc := Function.update s.pc t pc }

/-- The locked section of `add_waker` or `notify` begins. -/
def acquire (s : State T C E X) (t : T) (e : E) (pc : Pc C E X) : Option (State T C E X) :=
  if (s.lock e).isSome then none
  else some ({ s with lock := Function.update s.lock e (some t) }.goto t pc)

def release (s : State T C E X) (t : T) (e : E) (pc : Pc C E X) : State T C E X :=
  { s with lock := Function.update s.lock e none }.goto t pc

/-- The exchange on `consumed` in `resume`: the winner makes the handle. -/
def resume (s : State T C E X) (t : T) (x : X) (after : After E X) (lost : Pc C E X) :
    State T C E X :=
  match s.consumed x, s.target x with
  | false, some c =>
      { s with
        consumed := Function.update s.consumed x true
        resumes := Function.update s.resumes x (s.resumes x + 1) }.goto t (.push (.send c) after)
  | _, _ => s.goto t lost

end State

def After.pc : After E X → Pc C E X
  | .idle => .idle
  | .unlock x => .addUnlock x
  | .drain e => .drain e

/-- The step that follows what a coroutine yielded. -/
def dispatchYielded (s : State T C E X) (t : T) (c : C) : Yield X → State T C E X
  | .none_ => s.goto t (.push (.send c) .idle)
  | .waiter x => s.goto t (.register c x)
  | .undrivable => s.goto t (.push (.throw c) .idle)
  | .returned | .raised => { s with finished := Function.update s.finished c true }.goto t .idle

/-- The exchange on `registered` in `register_coro`; a waiter that is registered
already is a panic, and the coroutine is dropped with the handle. -/
def register (s : State T C E X) (t : T) (c : C) (x : X) : State T C E X :=
  if s.registered x then
    { s with finished := Function.update s.finished c true }.goto t .dead
  else
    { s with
      registered := Function.update s.registered x true
      target := Function.update s.target x (some c) }.goto t (.addWaker c x)

def threadStep (w : Waiters E X) (s : State T C E X) (t : T) : Option (State T C E X) :=
  match s.pc t with
  | .idle | .stepping _ | .dead => none
  | .push h after => some ({ s with queue := s.queue ++ [h] }.goto t after.pc)
  | .register c x => some (register s t c x)
  | .addWaker c x => s.acquire t (w.event x) (.addCheck c x)
  | .addCheck c x =>
      some (s.goto t (if s.flag (w.event x) then .addWake c x else .addPush c x))
  | .addWake _ x => some (s.resume t x (.unlock x) (.addUnlock x))
  | .addPush _ x =>
      some ({ s with
        watchers := Function.update s.watchers (w.event x) (s.watchers (w.event x) ++ [x])
        published := Function.update s.published x true }.goto t (.addUnlock x))
  | .addUnlock x =>
      some (s.release t (w.event x) (if w.timed x then .addTimer x else .idle))
  | .addTimer x => some ({ s with heap := x :: s.heap }.goto t .idle)
  | .timer x => some (s.resume t x .idle .idle)
  | .notify e => s.acquire t e (.drain e)
  | .drain e =>
      match s.watchers e with
      | [] => some (s.release t e .idle)
      | x :: rest =>
          some ({ s with watchers := Function.update s.watchers e rest }.goto t (.wake e x))
  | .wake e x => some (s.resume t x (.drain e) (.drain e))
  | .unnotify e => if (s.lock e).isSome then none else some (s.goto t .idle)

def step (w : Waiters E X) (s : State T C E X) : Act T C E X → Option (State T C E X)
  | .spawn t c =>
      match s.pc t with
      | .idle =>
          if s.spawned c then none
          else some ({ s with spawned := Function.update s.spawned c true }.goto t
            (.push (.send c) .idle))
      | _ => none
  | .run t h =>
      match s.pc t with
      | .idle =>
          if h ∈ s.queue then
            some ({ s with queue := s.queue.erase h }.goto t
              (match h with
              | .send c | .throw c => .stepping c
              | .timer x => .timer x))
          else none
      | _ => none
  | .yield t y =>
      match s.pc t with
      | .stepping c => some (dispatchYielded s t c y)
      | _ => none
  | .set t e =>
      match s.pc t with
      | .idle =>
          if s.flag e then some s
          else some ({ s with flag := Function.update s.flag e true }.goto t (.notify e))
      | _ => none
  | .clear t e =>
      match s.pc t with
      | .idle =>
          if s.flag e then
            some ({ s with flag := Function.update s.flag e false }.goto t (.unnotify e))
          else some s
      | _ => none
  | .due t x =>
      match s.pc t with
      | .idle =>
          if x ∈ s.heap then
            some ({ s with heap := s.heap.erase x }.goto t (.push (.timer x) .idle))
          else none
      | _ => none
  | .thread t => threadStep w s t

def fresh : State T C E X where
  flag := fun _ => false
  watchers := fun _ => []
  lock := fun _ => none
  registered := fun _ => false
  target := fun _ => none
  published := fun _ => false
  consumed := fun _ => false
  resumes := fun _ => 0
  heap := []
  queue := []
  spawned := fun _ => false
  finished := fun _ => false
  pc := fun _ => .idle

def machine (w : Waiters E X) : Machine (State T C E X) (Act T C E X) where
  start s := s = fresh
  step := step w

end MtAsyncio.Events
