/-
Module: MtAsyncio.Model.TimerHeap
Purpose: The timers of `runtime.rs` and `time.rs`: their order, the registration of a
  timer by `Waiter::register` and `add_timer` on any thread, and the poll loop with
  the timeout from the top of the heap, the poll and the drain of what is due.
Trusted boundary: `BinaryHeap` implements its order; a section under the lock of
  `handles_sched` is one step; the clock of the runtime does not go back and shows
  what a `Duration` holds; a poller wake-up stays until a poll takes it; `io.poll` may
  return at any time
Main exports: Timer, Timer.cmp, Snapshot, schedTime, due, CallerPc, PollerPc, State,
  Act, callerStep, pollerStep, step, machine
-/
import Mathlib.Algebra.Group.Nat.Defs
import Mathlib.Logic.Function.Basic
import MtAsyncio.Lib.Machine
import MtAsyncio.Lib.Priority

namespace MtAsyncio.TimerHeap

open Lib (Machine Storage greatestFirst)

/-!
Timers resume targets of `T`, threads that add timers are drawn from `A`, and heaps
are values of `H`.
-/

/-- A deadline in microseconds of the runtime's clock, and what is resumed then. -/
structure Timer (T : Type) where
  when_ : Nat
  target : T
deriving DecidableEq

variable {T H A : Type}

/-- `Ord::cmp` of `Timer` -/
def Timer.cmp (self other : Timer T) : Ordering :=
  if self.when_ < other.when_ then .gt
  else if self.when_ > other.when_ then .lt
  else .eq

/-! ## Arithmetic -/

/-- The microseconds of a `Duration` are below this. -/
def clockMax : Nat := 2 ^ 64 * 1000000

/-- `runtime._get_clock() + (timeout as u128)` -/
def whenOf (clock : Nat) (timeout : BitVec 64) : Nat :=
  (clock + timeout.toNat) % 2 ^ 128

/-- What a poll waits for: the deadline of the top timer, the reading of the clock
and the timeout in microseconds. -/
structure Snapshot where
  deadline : Nat
  tick : Nat
  timeout : BitVec 64
deriving DecidableEq

/-- `sched_time` for a top timer. -/
def schedTime (deadline tick : Nat) : BitVec 64 :=
  if deadline > tick then BitVec.ofNat 64 (deadline - tick) else 0

variable (storage : Storage (greatestFirst (Timer.cmp (T := T))) H)

/-- The timers that the drain at `tick` pops, and what it leaves. -/
def due (tick : Nat) (heap : H) : List (Timer T) × H :=
  storage.takeWhile (fun timer => !decide (timer.when_ > tick)) heap

/-! ## The machine -/

/-- Where a thread that adds a timer stands.  A wake-up goes to the poller of the
run whose waker was loaded. -/
inductive CallerPc (T : Type) where
  | idle
  /-- in front of the push -/
  | push (timer : Timer T)
  /-- in front of `self.waker.load()` -/
  | load
  /-- in front of `v.wake()` -/
  | wake (waker : Option Nat)
deriving DecidableEq

/-- How a poll ended. -/
inductive PollResult where
  | ok
  | interrupted
  | error
deriving DecidableEq

/-- Where the poll thread stands. -/
inductive PollerPc where
  | stopped
  /-- in front of the computation of the timeout -/
  | cycle
  /-- inside of `state.io.poll` -/
  | blocked (snapshot : Option Snapshot)
  /-- inside of the poll with a timeout of 0 -/
  | retrying
  /-- in front of the drain -/
  | draining (result : PollResult)
  | leaving
deriving DecidableEq

/-- `pending` is the wake-up of the current poller, `runs` counts the runs, and
`deferred` has what was put on the injector.  `added` has the timers that were
pushed; nothing in the program reads it. -/
structure State (T H A : Type) where
  heap : H
  now : Nat
  poller : PollerPc
  waker : Option Nat
  runs : Nat
  pending : Bool
  caller : A → CallerPc T
  deferred : List (Timer T)
  added : List (Timer T)

inductive Act (T A : Type) where
  /-- `Waiter::register` reads the clock and makes a timer -/
  | register (a : A) (target : T) (timeout : BitVec 64) (clock : Nat)
  /-- the next step of `add_timer` -/
  | caller (a : A)
  /-- somebody else wakes the poller -/
  | poke
  /-- a run of the runtime begins -/
  | open_
  /-- the timeout is computed -/
  | compute (tick : Nat)
  /-- `io.poll` returns, and has the wake-up among its events or has not -/
  | returns (result : PollResult) (wake : Bool)
  | retried (wake : Bool)
  /-- the timers are drained; `handled` is what `sig_loop_handled` shows -/
  | drain (tick : Nat) (handled : Bool)
  /-- the loop finds that it is to stop -/
  | stop
  /-- the end of `teardown` -/
  | close

variable [DecidableEq A]

def State.setCaller (s : State T H A) (a : A) (pc : CallerPc T) : State T H A :=
  { s with caller := Function.update s.caller a pc }

/-- The next step of `add_timer`. -/
def callerStep (s : State T H A) (a : A) : Option (State T H A) :=
  match s.caller a with
  | .idle => none
  | .push timer =>
      some ({ s with heap := storage.put s.heap timer, added := s.added ++ [timer] }.setCaller a
        .load)
  | .load => some (s.setCaller a (.wake s.waker))
  | .wake waker =>
      some ({ s with
        pending := s.pending || (waker.isSome && waker == s.waker) }.setCaller a .idle)

/-- `sched_time` for the heap. -/
def State.snapshot (s : State T H A) (tick : Nat) : Option Snapshot :=
  (storage.peek s.heap).map fun timer => ⟨timer.when_, tick, schedTime timer.when_ tick⟩

/-- A step that reads the clock. -/
def State.reads (s : State T H A) (tick : Nat) : Bool :=
  s.now ≤ tick && tick < clockMax

/-- Where the loop goes from a poll. -/
def PollResult.next (handled : Bool) : PollResult → PollerPc
  | .ok => .cycle
  | .interrupted => if handled then .cycle else .leaving
  | .error => .leaving

def step (s : State T H A) : Act T A → Option (State T H A)
  | .register a target timeout clock =>
      match s.caller a with
      | .idle =>
          if s.reads clock then
            some ({ s with now := clock }.setCaller a (.push ⟨whenOf clock timeout, target⟩))
          else none
      | _ => none
  | .caller a => callerStep storage s a
  | .poke => some { s with pending := s.pending || s.waker.isSome }
  | .open_ =>
      if s.poller = .stopped then
        some { s with
          poller := .cycle, waker := some s.runs, runs := s.runs + 1, pending := false }
      else none
  | .compute tick =>
      if s.poller = .cycle ∧ s.reads tick then
        some { s with now := tick, poller := .blocked (s.snapshot storage tick) }
      else none
  | .returns result wake =>
      match s.poller with
      | .blocked _ =>
          match result with
          | .interrupted => some { s with poller := .retrying }
          | _ => some { s with poller := .draining result, pending := s.pending && !wake }
      | _ => none
  | .retried wake =>
      if s.poller = .retrying then
        some { s with poller := .draining .interrupted, pending := s.pending && !wake }
      else none
  | .drain tick handled =>
      match s.poller with
      | .draining result =>
          if s.reads tick then
            some { s with
              now := tick
              heap := (due storage tick s.heap).2
              deferred := s.deferred ++ (due storage tick s.heap).1
              poller := result.next handled }
          else none
      | _ => none
  | .stop => if s.poller = .cycle then some { s with poller := .leaving } else none
  | .close =>
      if s.poller = .leaving then some { s with poller := .stopped, waker := none } else none

/-- The runtime has been made. -/
def Start (s : State T H A) : Prop :=
  s.heap = storage.empty ∧ s.poller = .stopped ∧ s.waker = none ∧ (∀ a, s.caller a = .idle) ∧
    s.deferred = [] ∧ s.added = []

def machine : Machine (State T H A) (Act T A) where
  start := Start storage
  step := step storage

end MtAsyncio.TimerHeap
