/-
Module: MtAsyncio.Model.Countdown
Purpose: The suspension of a coroutine on one `Waiter` over any number of events, as
  in `events.rs`: the registration, `set` and `clear` of the events, the `Sentinel` of a
  waiter on several events, the timer, and `abort` of the checkpoint.
Trusted boundary: one access to an atomic is one step; the countdown of 64 bits is an
  integer, which stands for the largest value when it is -1 (there are not 2^64 clears);
  wakers of other waiters in the same lists only take time
Main exports: Waiter, Stage, After, Pc, State, Act, threadStep, step, machine
-/
import Mathlib.Logic.Function.Basic
import MtAsyncio.Lib.Machine

namespace MtAsyncio.Countdown

open Lib (Machine)

/-!
Threads are drawn from `T` and events from `E`.  An event may occur in a waiter more
than once, so a waker is named by its index.
-/

/-- A `Waiter` object, and whether its registration is given a checkpoint. -/
structure Waiter (E : Type) where
  events : List E
  timed : Bool
  checkpointed : Bool
  /-- only `Event.waiter` has a timeout -/
  single : timed = true → events.length = 1

/-- `build_sentinel` -/
def Waiter.sentinel {E : Type} (w : Waiter E) : Bool :=
  2 ≤ w.events.length

/-- Whether its suspension is published where `abort` looks for it. -/
def Waiter.abortable {E : Type} (w : Waiter E) : Bool :=
  w.events.isEmpty || w.checkpointed

/-- What has become of a waker. -/
inductive Stage (T : Type) where
  | fresh
  /-- inside of `add_waker` -/
  | adding
  | queued
  /-- a thread is about to wake it, or has dropped it since the waiter is aborted -/
  | carried (t : T)
  /-- it has counted -/
  | spent
deriving DecidableEq

/-- Where `resume` returns to. -/
inductive After (E : Type) where
  | idle
  /-- in `add_waker` -/
  | unlock (i : Nat) (e : E)
  /-- in the loop of `notify` -/
  | drain (e : E)
deriving DecidableEq

/-- Where a thread stands. -/
inductive Pc (E : Type) where
  | idle
  /-- `register_coro` has claimed the waiter -/
  | publish
  /-- a waiter without events, in front of `if rself.aborted.load(..)` -/
  | bare
  /-- in front of `add_waker` of the next event, or of the timer -/
  | add (i : Nat)
  /-- inside of the lock, before the flag is loaded -/
  | check (i : Nat) (e : E)
  | push (i : Nat) (e : E)
  | unlock (i : Nat) (e : E)
  | timer
  /-- `resume`, in front of `if self.aborted.load(..)` -/
  | resume (i : Nat) (after : After E)
  /-- in front of `fetch_sub`, or of the exchange on `consumed` -/
  | settle (i : Nat) (after : After E)
  /-- in front of `fetch_add`, as the countdown was at zero -/
  | restore (after : After E)
  /-- in front of `add_handle` -/
  | send (after : After E)
  /-- `set` has flipped the flag -/
  | notify (e : E)
  | drain (e : E)
  /-- `clear` has flipped the flag -/
  | unnotify (e : E)
  /-- the loop of `unnotify`, with the wakers that are left -/
  | hold (e : E) (rest : List Nat)
  /-- `abort_coro`, in front of `self.checkpoint.load()` -/
  | abort
  /-- `error`, in front of the load of `consume`, or of the exchange on `consumed` -/
  | error
  /-- in front of the store of `consume` -/
  | zero
  /-- in front of `add_handle` -/
  | throw
  /-- a panic has ended the thread -/
  | dead
deriving DecidableEq

def After.pc {E : Type} : After E → Pc E
  | .idle => .idle
  | .unlock i e => .unlock i e
  | .drain e => .drain e

/-- `registered` and `aborted` remember whose exchange has set them.  `published` tells
whether the suspension is the one in the checkpoint, and `due` whether its timer is
pending; `sends` and `throws` count the handles that are queued.  Nothing in the program
reads `stage`, `held` (how often `hold` has raised the countdown) and `fired` (the event
has been set during the registration on it or later). -/
structure State (T E : Type) where
  flag : E → Bool
  lock : E → Option T
  watchers : E → List Nat
  registered : Option T
  aborted : Option T
  published : Bool
  consumed : Bool
  counter : Int
  due : Bool
  sends : Nat
  throws : Nat
  stage : Nat → Stage T
  held : Nat
  fired : Nat → Bool
  pc : T → Pc E

inductive Act (T E : Type) where
  /-- the coroutine yields the waiter -/
  | register (t : T)
  | set (t : T) (e : E)
  | clear (t : T) (e : E)
  /-- a worker runs the timer -/
  | expire (t : T)
  | abort (t : T)
  /-- the checkpoint gets the next suspension of the coroutine -/
  | replace
  /-- the next step of a thread that is inside of a call -/
  | thread (t : T)
deriving DecidableEq

variable {T E : Type} [DecidableEq T] [DecidableEq E]

namespace State

def goto (s : State T E) (t : T) (pc : Pc E) : State T E :=
  { s with pc := Function.update s.pc t pc }

def setStage (s : State T E) (i : Nat) (stage : Stage T) : State T E :=
  { s with stage := Function.update s.stage i stage }

/-- A locked section begins. -/
def acquire (s : State T E) (t : T) (e : E) (pc : Pc E) : Option (State T E) :=
  if (s.lock e).isSome then none
  else some ({ s with lock := Function.update s.lock e (some t) }.goto t pc)

def release (s : State T E) (t : T) (e : E) (pc : Pc E) : State T E :=
  { s with lock := Function.update s.lock e none }.goto t pc

/-- The exchange of `set`, when it flips the flag. -/
def flip (w : Waiter E) (s : State T E) (e : E) : State T E :=
  { s with
    flag := Function.update s.flag e true
    fired := fun i => s.fired i || decide (w.events[i]? = some e ∧ s.stage i ≠ .fresh) }

end State

/-- `add_waker`, or what follows the last of them. -/
def addNext (w : Waiter E) (s : State T E) (t : T) (i : Nat) : Option (State T E) :=
  match w.events[i]? with
  | none => some (s.goto t (if w.timed then .timer else .idle))
  | some e => (s.setStage i .adding).acquire t e (.check i e)

/-- `Sentinel::decrement`, up to the test of what `fetch_sub` has found, or the exchange
of a suspension without a sentinel. -/
def settle (w : Waiter E) (s : State T E) (t : T) (i : Nat) (after : After E) : State T E :=
  if w.sentinel then
    ({ s with counter := s.counter - 1 }.setStage i .spent).goto t
      (if s.counter = 0 then .restore after else if s.counter = 1 then .send after else after.pc)
  else if s.consumed then s.goto t after.pc
  else { s with consumed := true }.goto t (.send after)

/-- The load of `Sentinel::consume`, or the exchange of a suspension without a
sentinel. -/
def error (w : Waiter E) (s : State T E) (t : T) : State T E :=
  if w.sentinel then s.goto t (if s.counter = 0 then .idle else .zero)
  else if s.consumed then s.goto t .idle
  else { s with consumed := true }.goto t .throw

def threadStep (w : Waiter E) (s : State T E) (t : T) : Option (State T E) :=
  match s.pc t with
  | .idle | .dead => none
  | .publish =>
      some ({ s with published := s.published || w.abortable }.goto t
        (if w.events.isEmpty then .bare else .add 0))
  | .bare => some (s.goto t (if s.aborted.isSome then .error else .resume 0 .idle))
  | .add i => addNext w s t i
  | .check i e =>
      if s.flag e then
        some (({ s with fired := Function.update s.fired i true }.setStage i (.carried t)).goto t
          (.resume i (.unlock i e)))
      else some (s.goto t (.push i e))
  | .push i e =>
      some (({ s with watchers := Function.update s.watchers e (s.watchers e ++ [i]) }.setStage i
        .queued).goto t (.unlock i e))
  | .unlock i e => some (s.release t e (.add (i + 1)))
  | .timer => some ({ s with due := true }.goto t .idle)
  | .resume i after =>
      some (s.goto t (if s.aborted.isSome then after.pc else .settle i after))
  | .settle i after => some (settle w s t i after)
  | .restore after => some ({ s with counter := s.counter + 1 }.goto t after.pc)
  | .send after => some ({ s with sends := s.sends + 1 }.goto t after.pc)
  | .notify e => s.acquire t e (.drain e)
  | .drain e =>
      match s.watchers e with
      | [] => some (s.release t e .idle)
      | i :: rest =>
          some (({ s with watchers := Function.update s.watchers e rest }.setStage i
            (.carried t)).goto t (.resume i (.drain e)))
  | .unnotify e => s.acquire t e (.hold e (s.watchers e))
  | .hold e [] => some (s.release t e .idle)
  | .hold e (_ :: rest) =>
      if w.sentinel then
        some ({ s with counter := s.counter + 1, held := s.held + 1 }.goto t (.hold e rest))
      else some (s.goto t (.hold e rest))
  | .abort => some (s.goto t (if s.published then .error else .idle))
  | .error => some (error w s t)
  | .zero => some ({ s with counter := 0 }.goto t .throw)
  | .throw => some ({ s with throws := s.throws + 1 }.goto t .idle)

/-- A call of an idle thread. -/
def call (s : State T E) (t : T) (next : State T E) : Option (State T E) :=
  if s.pc t = .idle then some next else none

def step (w : Waiter E) (s : State T E) : Act T E → Option (State T E)
  | .register t =>
      call s t (if s.registered.isSome then s.goto t .dead
        else { s with registered := some t }.goto t .publish)
  | .set t e =>
      call s t (if s.flag e then s else (s.flip w e).goto t (.notify e))
  | .clear t e =>
      call s t (if s.flag e then
          { s with flag := Function.update s.flag e false }.goto t (.unnotify e)
        else s)
  | .expire t =>
      if s.due then call s t ({ s with due := false }.goto t (.resume 0 .idle)) else none
  | .abort t =>
      if w.abortable then
        call s t (if s.aborted.isSome then s else { s with aborted := some t }.goto t .abort)
      else none
  | .replace => some { s with published := false }
  | .thread t => threadStep w s t

/-- Nothing has happened; `Sentinel::new` starts with the number of events. -/
def State.start (T : Type) (w : Waiter E) : State T E where
  flag := fun _ => false
  lock := fun _ => none
  watchers := fun _ => []
  registered := none
  aborted := none
  published := false
  consumed := false
  counter := w.events.length
  due := false
  sends := 0
  throws := 0
  stage := fun _ => .fresh
  held := 0
  fired := fun _ => false
  pc := fun _ => .idle

def machine (T : Type) [DecidableEq T] (w : Waiter E) : Machine (State T E) (Act T E) where
  start s := s = .start T w
  step := step w

end MtAsyncio.Countdown
