/-
Module: MtAsyncio.Model.Deadlines
Purpose: The timeout scope of `_timeouts.py` with a clock: `reschedule` chooses
  between `call_soon` and `call_at` of `_loop.py`, and the coroutine of a timer
  runs the callback of its handle when the timer is due.
Trusted boundary: as for `MtAsyncio.Model.Timeouts`; the clock of the loop and
  the one of the runtime are the same and do not go back, and their readings and
  the deadlines are whole microseconds, to which `call_at` rounds
Main exports: Timer, newTimer, Clocked, Act, step, machine, History, record,
  clockedMachine
-/
import MtAsyncio.Model.Timeouts

namespace MtAsyncio.Deadlines

open Lib (Machine)
open Timeouts (Rescheduled TaskPc)

/-- What runs the callback of a handle. -/
inductive Timer where
  | unset
  /-- `call_soon` -/
  | soon
  /-- the coroutine of `call_at`, before its wait -/
  | delayed (delay : Int)
  /-- the coroutine waits for its timer -/
  | due (tick : Int)
deriving DecidableEq

/-- The callback may run. -/
def Timer.ripe (now : Int) : Timer → Bool
  | .soon => true
  | .due tick => tick ≤ now
  | _ => false

/-- `call_soon(cb) if when <= loop.time() else call_at(when, cb)`; `later` is what
the clock shows in `call_at`. -/
def newTimer (when_ now later : Int) : Timer :=
  if when_ ≤ now then .soon else .delayed (max 0 (when_ - later))

structure Clocked (H P : Type) where
  scope : Timeouts.State Int H P
  now : Int
  timer : H → Timer

inductive Act (H P : Type) where
  /-- a step of the scope, at whose end the clock shows `later` -/
  | scope (a : Timeouts.Act Int H P) (later : Int)
  /-- the coroutine of a timer begins to wait -/
  | arm (h : H)
  | pass (later : Int)

variable {H P : Type} [DecidableEq H] [DecidableEq P]

/-- The runtime runs the handle, if it is one. -/
def Clocked.mayTake (s : Clocked H P) : Timeouts.Act Int H P → Bool
  | .run h => (s.timer h).ripe s.now
  | _ => true

/-- The timers after a step of the scope: `reschedule` may have made a handle. -/
def Clocked.timersAfter (s : Clocked H P) (next : Timeouts.State Int H P) (later : Int) (h : H) :
    Timer :=
  match s.scope.fire h, next.fire h, next.when_ with
  | .fresh, .scheduled, some w => newTimer w s.now later
  | _, _, _ => s.timer h

def step (s : Clocked H P) : Act H P → Option (Clocked H P)
  | .scope a later =>
      if s.now ≤ later ∧ s.mayTake a then
        (Timeouts.step s.scope a).map fun next =>
          { scope := next, now := later, timer := s.timersAfter next later }
      else none
  | .arm h =>
      match s.timer h with
      | .delayed delay => some { s with timer := Function.update s.timer h (.due (s.now + delay)) }
      | _ => none
  | .pass later => if s.now ≤ later then some { s with now := later } else none

def Start (s : Clocked H P) : Prop :=
  Timeouts.Start s.scope ∧ ∀ h, s.timer h = .unset

def machine (H P : Type) [DecidableEq H] [DecidableEq P] : Machine (Clocked H P) (Act H P) where
  start := Start
  step := step

/-! ## History -/

/-- `promised` is the argument of the last `reschedule`, if that returned;
`expirations` has, for each time the scope became EXPIRING, what was promised
and what the clock showed. -/
structure History where
  promised : Option (Option Int)
  expirations : List (Option (Option Int) × Int)
deriving DecidableEq

/-- What a call of `reschedule` on an entered scope promises. -/
def promise (s : Timeouts.State Int H P) (when_ : Option Int) (made : Option H) :
    Option (Option Int) :=
  match s.rescheduled when_ made with
  | (_, .returned _) => some when_
  | (_, .raised) => none

/-- The promise after a step of the scope; a scope that is not entered refuses. -/
def promiseAfter (s : Timeouts.State Int H P) (promised : Option (Option Int)) :
    Timeouts.Act Int H P → Option (Option Int)
  | .reschedule _ when_ made => if s.scope = .entered then promise s when_ made else promised
  | .task made =>
      match s.pc with
      | .armLock when_ => if s.scope = .entered then promise s when_ made else promised
      | _ => promised
  | _ => promised

def record (h : History) (s : Clocked H P) (a : Act H P) (next : Clocked H P) : History :=
  match a with
  | .scope b _ =>
      { promised := promiseAfter s.scope h.promised b
        expirations :=
          if s.scope.scope = .entered ∧ next.scope.scope = .expiring then
            (h.promised, s.now) :: h.expirations
          else h.expirations }
  | _ => h

/-- The scope with its clock and its history. -/
def clockedMachine (H P : Type) [DecidableEq H] [DecidableEq P] :
    Machine (Clocked H P × History) (Act H P) :=
  (machine H P).recording ⟨none, []⟩ record

end MtAsyncio.Deadlines
