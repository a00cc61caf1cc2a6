/-
Module: MtAsyncio.Model.FdHandle
Purpose: The handles of one registration of `asyncio/_loop.py`: `_FdHandle`
  with its arm loop, the `ScheduledIO` below it, the poll thread, and the
  kernel as a set of conditions with one edge for each arrival.
Trusted boundary: the tick is an unbounded counter; the kernel reports of an
  edge at least what still holds of its arrival; the probe sees the conditions
  of one moment; a callback ends by returning or by an exception that `_run`
  prints; each direction has at most one handle, which is its only user and is
  never replaced; the registration outlives the handles that are active on it
  (`_drop_registration` cancels both before it closes); a nested call counts as
  a thread of its own
Main exports: Word, Situation, State, Act, step, machine
-/
import Mathlib.Logic.Function.Basic
import MtAsyncio.Model.ScheduledIo

namespace MtAsyncio.FdHandle

open Lib (Machine)
open ScheduledIo (Direction PollEvent readinessFromEvent readyOrShut)

/-! ## The readiness word -/

/-- The word of `ScheduledIO`, its tick beside its bits. -/
structure Word where
  tick : Nat
  bits : BitVec 64
deriving DecidableEq

namespace Word

def setReadiness (word : Word) (ready : BitVec 64) : Word where
  tick := word.tick + 1
  bits := word.bits ||| ready

/-- The update of `clear`, which a newer tick makes void. -/
def clear (word : Word) (ready : BitVec 64) (tick : Nat) : Word :=
  if word.tick ≠ tick then word else { word with bits := word.bits &&& ~~~ready }

end Word

/-! ## Where the threads stand -/

/-- Where a thread stands inside of `_arm`. -/
inductive ArmPc where
  /-- `while self._active` -/
  | active
  /-- the check of `arm_cb` without the lock -/
  | fastCheck
  | lock
  /-- the check under the lock -/
  | recheck
  | store
  /-- the check under the lock found the direction ready -/
  | unlock
  | currentTick
  | storeTick (tick : Nat)
  /-- `_fd_ready` -/
  | probe
  /-- `clear_r` and `clear_w` load the tick they clear for -/
  | loadTick
  | clear (tick : Nat)
  /-- `_dispatch_soon`, after which `_arm` returns -/
  | dispatchSoon
deriving DecidableEq

inductive Pc where
  | outside
  /-- `_arm` of the handle of `d`, with its local `attempts` -/
  | arm (d : Direction) (attempts : Nat) (at_ : ArmPc)
  /-- the slot is filled; the guard is dropped and `_arm` returns -/
  | leave
  /-- `_dispatch` before it tests `_active` -/
  | dispatch (d : Direction)
  /-- `_run`: the user's callback -/
  | run (d : Direction)
deriving DecidableEq

/-- The poll thread. -/
inductive Poller where
  | idle
  /-- between `set_readiness(ready)` and `wake(ready)` -/
  | wake (ready : BitVec 64)
  /-- the callbacks that are left to call, `_wake` of the first of them next -/
  | call (cbs : List Direction)
  /-- inside of `_wake`, which found its handle active -/
  | dispatchSoon (d : Direction) (cbs : List Direction)
deriving DecidableEq

/-- How often the poll thread has the callback of `d` in hand. -/
def Poller.holds (d : Direction) : Poller → Nat
  | .idle => 0
  | .wake _ => 0
  | .call cbs => cbs.count d
  | .dispatchSoon e cbs => (e :: cbs).count d

/-! ## The machine -/

/-- The kernel's `ready` and `edges`, the `ScheduledIO` from `word` to `mutex`,
the threads, and the handles of the two directions. -/
structure State (T : Type) where
  /-- the conditions of the fd that hold now -/
  ready : BitVec 64
  /-- the edges that the poll thread has not taken up -/
  edges : List (BitVec 64)
  word : Word
  /-- `tick_r` and `tick_w` -/
  tick : Direction → Nat
  /-- whether the slot holds `_wake` of the direction's handle -/
  slot : Direction → Bool
  mutex : Option T
  poller : Poller
  pc : T → Pc
  /-- the dispatches in the run queue -/
  queued : Direction → Nat
  added : Direction → Bool
  active : Direction → Bool

/-- What a handle is doing, and on which thread. -/
inductive Situation (T : Type) where
  | arming (t : T)
  | parked
  | woken
  | queued
  | running (t : T)
deriving DecidableEq

inductive Act (T : Type) where
  /-- conditions of the fd come up, by data or otherwise -/
  | arrival (event : PollEvent)
  /-- conditions of the fd go away, by the callback or by other code -/
  | drain (event : PollEvent)
  /-- the poll thread takes up an edge, which the kernel reports as `event` -/
  | poll (edge : BitVec 64) (event : PollEvent)
  /-- the next step of the poll thread -/
  | poller
  /-- `_add_fd_callback` has made the handle and calls its `_arm` -/
  | add (t : T) (d : Direction)
  | cancel (d : Direction)
  /-- a worker takes a dispatch from the run queue -/
  | take (t : T) (d : Direction)
  /-- the next step of `t` -/
  | thread (t : T)
deriving DecidableEq

variable {T : Type} [DecidableEq T]

namespace Pc

def arming (d : Direction) : Pc → Bool
  | .arm e _ _ => e = d
  | _ => false

def running (d : Direction) : Pc → Bool
  | .dispatch e => e = d
  | .run e => e = d
  | _ => false

end Pc

namespace State

/-- What `_fd_ready` reports for the mask of `d`. -/
def level (s : State T) (d : Direction) : Bool :=
  s.ready &&& d.mask != 0

/-- Whether the kernel can report `event` for an edge: what still holds of the
arrival has to be in it. -/
def mayReport (s : State T) (edge : BitVec 64) (event : PollEvent) : Bool :=
  edge &&& s.ready &&& ~~~readinessFromEvent event == 0

/-- How often the handle of `d` is in a situation. -/
def count (s : State T) (d : Direction) : Situation T → Nat
  | .arming t => ((s.pc t).arming d).toNat
  | .parked => (s.slot d).toNat
  | .woken => s.poller.holds d
  | .queued => s.queued d
  | .running t => ((s.pc t).running d).toNat

def goto (s : State T) (t : T) (pc : Pc) : State T :=
  { s with pc := Function.update s.pc t pc }

/-- The handles that `wake(ready)` takes out of their slots, the reader first. -/
def wakeSet (s : State T) (ready : BitVec 64) : List Direction :=
  [.read, .write].filter fun d => s.slot d && ready &&& d.mask != 0

def dispatchSoon (s : State T) (d : Direction) : State T :=
  { s with queued := Function.update s.queued d (s.queued d + 1) }

end State

/-- `_ARM_RETRIES` -/
def armRetries : Nat := 8

/-- One step of `_arm` for the handle of `d`. -/
def armStep (s : State T) (t : T) (d : Direction) (attempts : Nat) :
    ArmPc → Option (State T)
  | .active =>
      some (s.goto t (if s.active d then .arm d attempts .fastCheck else .outside))
  | .fastCheck =>
      some (s.goto t
        (.arm d attempts (if readyOrShut s.word.bits d then .currentTick else .lock)))
  | .lock =>
      if s.mutex.isSome then none
      else some ({ s with mutex := some t }.goto t (.arm d attempts .recheck))
  | .recheck =>
      some (s.goto t
        (.arm d attempts (if readyOrShut s.word.bits d then .unlock else .store)))
  | .store => some ({ s with slot := Function.update s.slot d true }.goto t .leave)
  | .unlock => some ({ s with mutex := none }.goto t (.arm d attempts .currentTick))
  | .currentTick => some (s.goto t (.arm d attempts (.storeTick s.word.tick)))
  | .storeTick tick =>
      some ({ s with tick := Function.update s.tick d tick }.goto t (.arm d attempts .probe))
  | .probe =>
      if s.level d then some (s.goto t (.arm d attempts .dispatchSoon))
      else if armRetries ≤ attempts + 1 then
        some (s.goto t (.arm d (attempts + 1) .dispatchSoon))
      else some (s.goto t (.arm d (attempts + 1) .loadTick))
  | .loadTick => some (s.goto t (.arm d attempts (.clear (s.tick d))))
  | .clear tick =>
      some ({ s with word := s.word.clear d.mask tick }.goto t (.arm d attempts .active))
  | .dispatchSoon => some ((s.dispatchSoon d).goto t .outside)

/-- One step of `t`. -/
def threadStep (s : State T) (t : T) : Option (State T) :=
  match s.pc t with
  | .outside => none
  | .arm d attempts at_ => armStep s t d attempts at_
  | .leave => some ({ s with mutex := none }.goto t .outside)
  | .dispatch d => some (s.goto t (if s.active d then .run d else .outside))
  | .run d => some (s.goto t (.arm d 0 .active))

/-- One step of the poll thread. -/
def pollerStep (s : State T) : Option (State T) :=
  match s.poller with
  | .idle => none
  | .wake ready =>
      if s.mutex.isSome then none
      else
        some { s with
          slot := fun d => s.slot d && ready &&& d.mask == 0
          poller := .call (s.wakeSet ready) }
  | .call [] => some { s with poller := .idle }
  | .call (d :: cbs) =>
      some { s with poller := if s.active d then .dispatchSoon d cbs else .call cbs }
  | .dispatchSoon d cbs => some ({ s with poller := .call cbs }.dispatchSoon d)

def step (s : State T) : Act T → Option (State T)
  | .arrival event =>
      some { s with
        ready := s.ready ||| readinessFromEvent event
        edges := readinessFromEvent event :: s.edges }
  | .drain event => some { s with ready := s.ready &&& ~~~readinessFromEvent event }
  | .poll edge event =>
      if s.poller = .idle ∧ edge ∈ s.edges ∧ s.mayReport edge event then
        some { s with
          edges := s.edges.erase edge
          word := s.word.setReadiness (readinessFromEvent event)
          poller := .wake (readinessFromEvent event) }
      else none
  | .poller => pollerStep s
  | .add t d =>
      if s.pc t = .outside ∧ s.added d = false then
        some ({ s with
          added := Function.update s.added d true
          active := Function.update s.active d true }.goto t (.arm d 0 .active))
      else none
  | .cancel d => some { s with active := Function.update s.active d false }
  | .take t d =>
      if s.pc t = .outside ∧ 0 < s.queued d then
        some ({ s with
          queued := Function.update s.queued d (s.queued d - 1) }.goto t (.dispatch d))
      else none
  | .thread t => threadStep s t

/-- The fd right after its registration: what is ready then has its edge. -/
def registered (event : PollEvent) : State T where
  ready := readinessFromEvent event
  edges := if readinessFromEvent event = 0 then [] else [readinessFromEvent event]
  word := { tick := 0, bits := 0 }
  tick := fun _ => 0
  slot := fun _ => false
  mutex := none
  poller := .idle
  pc := fun _ => .outside
  queued := fun _ => 0
  added := fun _ => false
  active := fun _ => false

def machine : Machine (State T) (Act T) where
  start s := ∃ event, s = registered event
  step := step

end MtAsyncio.FdHandle
