/-
Module: MtAsyncio.Model.FdCallbacks
Purpose: The handles that `add_reader` and `add_writer` put in each other's place
  on one registration of `asyncio/_loop.py`: `_add_fd_callback`,
  `_remove_fd_callback` and `_FdHandle`, with the slots of the `ScheduledIO` that
  all handles of a direction share, and the poll thread.
Trusted boundary: as for `MtAsyncio.Model.FdHandle`, except that a handle can be
  replaced and removed; the registration outlives its handles, so a removal does
  not drop it; nothing else arms the `ScheduledIO`
Main exports: Handle, Pc, Poller, State, Act, armStep, threadStep, pollerStep,
  step, machine
-/
import MtAsyncio.Model.FdHandle

namespace MtAsyncio.FdCallbacks

open Lib (Machine)
open ScheduledIo (Direction PollEvent readinessFromEvent readyOrShut)
open FdHandle (ArmPc Word armRetries)

/-- An `_FdHandle`.  The handles of an fd are numbered in the order in which they
are made. -/
structure Handle where
  number : Nat
  dir : Direction
deriving DecidableEq

inductive Pc where
  | outside
  /-- `_add_fd_callback` has put `h` in the place of `old` and cancels that -/
  | cancelOld (h old : Handle)
  /-- `_remove_fd_callback`, under `_sios_lock`, cancels what it has removed -/
  | cancelRemoved (h : Handle)
  /-- `_arm` of `h`, with its local `attempts` -/
  | arm (h : Handle) (attempts : Nat) (at_ : ArmPc)
  /-- the slot is filled; the guard is dropped and `_arm` returns -/
  | leave
  /-- `_dispatch` before it tests `_active` -/
  | dispatch (h : Handle)
  /-- `_run`: the user's callback -/
  | run (h : Handle)
deriving DecidableEq

/-- The poll thread. -/
inductive Poller where
  | idle
  /-- between `set_readiness(ready)` and `wake(ready)` -/
  | wake (ready : BitVec 64)
  /-- the callbacks that are left to call, `_wake` of the first of them next -/
  | call (cbs : List Handle)
  /-- inside of `_wake`, which found its handle active -/
  | dispatchSoon (h : Handle) (cbs : List Handle)
deriving DecidableEq

/-- The handles that the poll thread has in hand. -/
def Poller.handles : Poller → List Handle
  | .idle => []
  | .wake _ => []
  | .call cbs => cbs
  | .dispatchSoon h cbs => h :: cbs

/-- The kernel's `ready` and `edges`, the `ScheduledIO` from `word` to `mutex`,
the threads, and the registration with its handles. -/
structure State (T : Type) where
  /-- the conditions of the fd that hold now -/
  ready : BitVec 64
  /-- the edges that the poll thread has not taken up -/
  edges : List (BitVec 64)
  word : Word
  /-- `tick_r` and `tick_w` -/
  tick : Direction → Nat
  /-- the handle whose `_wake` is in the slot -/
  slot : Direction → Option Handle
  mutex : Option T
  poller : Poller
  pc : T → Pc
  /-- the dispatches in the run queue -/
  queued : List Handle
  siosLock : Option T
  /-- `reg.reader` and `reg.writer` -/
  registered : Direction → Option Handle
  handles : Nat
  active : Handle → Bool

inductive Act (T : Type) where
  /-- conditions of the fd come up, by data or otherwise -/
  | arrival (event : PollEvent)
  /-- conditions of the fd go away, by the callback or by other code -/
  | drain (event : PollEvent)
  /-- the poll thread takes up an edge, which the kernel reports as `event` -/
  | poll (edge : BitVec 64) (event : PollEvent)
  /-- the next step of the poll thread -/
  | poller
  /-- `_add_fd_callback` makes a handle and swaps it in under `_sios_lock` -/
  | add (t : T) (d : Direction)
  /-- `_remove_fd_callback` takes `_sios_lock` and the handle out of its place -/
  | remove (t : T) (d : Direction)
  /-- a worker takes a dispatch from the run queue -/
  | take (t : T) (h : Handle)
  /-- the next step of `t` -/
  | thread (t : T)
deriving DecidableEq

variable {T : Type} [DecidableEq T]

namespace State

/-- What `_fd_ready` reports for the mask of `d`. -/
def level (s : State T) (d : Direction) : Bool :=
  s.ready &&& d.mask != 0

/-- Whether the kernel can report `event` for an edge: what still holds of the
arrival has to be in it. -/
def mayReport (s : State T) (edge : BitVec 64) (event : PollEvent) : Bool :=
  edge &&& s.ready &&& ~~~readinessFromEvent event == 0

def goto (s : State T) (t : T) (pc : Pc) : State T :=
  { s with pc := Function.update s.pc t pc }

/-- What `wake(ready)` takes out of the slot of `d`. -/
def taken (s : State T) (ready : BitVec 64) (d : Direction) : Option Handle :=
  if ready &&& d.mask = 0 then none else s.slot d

/-- The handles that `wake(ready)` takes out of their slots, the reader first. -/
def wakeSet (s : State T) (ready : BitVec 64) : List Handle :=
  [.read, .write].filterMap (s.taken ready)

def dispatchSoon (s : State T) (h : Handle) : State T :=
  { s with queued := h :: s.queued }

def cancel (s : State T) (h : Handle) : State T :=
  { s with active := Function.update s.active h false }

end State

/-- One step of `_arm` for `h`. -/
def armStep (s : State T) (t : T) (h : Handle) (attempts : Nat) : ArmPc → Option (State T)
  | .active =>
      some (s.goto t (if s.active h then .arm h attempts .fastCheck else .outside))
  | .fastCheck =>
      some (s.goto t
        (.arm h attempts (if readyOrShut s.word.bits h.dir then .currentTick else .lock)))
  | .lock =>
      if s.mutex.isSome then none
      else some ({ s with mutex := some t }.goto t (.arm h attempts .recheck))
  | .recheck =>
      some (s.goto t
        (.arm h attempts (if readyOrShut s.word.bits h.dir then .unlock else .store)))
  | .store => some ({ s with slot := Function.update s.slot h.dir (some h) }.goto t .leave)
  | .unlock => some ({ s with mutex := none }.goto t (.arm h attempts .currentTick))
  | .currentTick => some (s.goto t (.arm h attempts (.storeTick s.word.tick)))
  | .storeTick tick =>
      some ({ s with tick := Function.update s.tick h.dir tick }.goto t (.arm h attempts .probe))
  | .probe =>
      if s.level h.dir then some (s.goto t (.arm h attempts .dispatchSoon))
      else if armRetries ≤ attempts + 1 then
        some (s.goto t (.arm h (attempts + 1) .dispatchSoon))
      else some (s.goto t (.arm h (attempts + 1) .loadTick))
  | .loadTick => some (s.goto t (.arm h attempts (.clear (s.tick h.dir))))
  | .clear tick =>
      some ({ s with word := s.word.clear h.dir.mask tick }.goto t (.arm h attempts .active))
  | .dispatchSoon => some ((s.dispatchSoon h).goto t .outside)

/-- One step of `t`. -/
def threadStep (s : State T) (t : T) : Option (State T) :=
  match s.pc t with
  | .outside => none
  | .cancelOld h old => some ((s.cancel old).goto t (.arm h 0 .active))
  | .cancelRemoved h => some ({ s.cancel h with siosLock := none }.goto t .outside)
  | .arm h attempts at_ => armStep s t h attempts at_
  | .leave => some ({ s with mutex := none }.goto t .outside)
  | .dispatch h => some (s.goto t (if s.active h then .run h else .outside))
  | .run h => some (s.goto t (.arm h 0 .active))

/-- One step of the poll thread. -/
def pollerStep (s : State T) : Option (State T) :=
  match s.poller with
  | .idle => none
  | .wake ready =>
      if s.mutex.isSome then none
      else
        some { s with
          slot := fun d => if ready &&& d.mask = 0 then s.slot d else none
          poller := .call (s.wakeSet ready) }
  | .call [] => some { s with poller := .idle }
  | .call (h :: cbs) =>
      some { s with poller := if s.active h then .dispatchSoon h cbs else .call cbs }
  | .dispatchSoon h cbs => some ({ s with poller := .call cbs }.dispatchSoon h)

/-- The swap of `_add_fd_callback`, and where the thread goes on. -/
def add (s : State T) (t : T) (d : Direction) : State T :=
  let h : Handle := ⟨s.handles, d⟩
  { s with
    handles := s.handles + 1
    active := Function.update s.active h true
    registered := Function.update s.registered d (some h) }.goto t
      (match s.registered d with
        | none => .arm h 0 .active
        | some old => .cancelOld h old)

/-- `_remove_fd_callback` up to the cancel. -/
def remove (s : State T) (t : T) (d : Direction) : State T :=
  match s.registered d with
  | none => s
  | some h =>
      { s with siosLock := some t, registered := Function.update s.registered d none }.goto t
        (.cancelRemoved h)

def step (s : State T) : Act T → Option (State T)
  | .arrival event =>
      some { s with
        ready := s.ready ||| readinessFromEvent event
        edges := readinessFromEvent event :: s.edges }
  | .drain event => some { s with ready := s.ready &&& ~~~readinessFromEvent event }
  | .poll edge event =>
      if s.poller = .idle ∧ s.edges.contains edge ∧ s.mayReport edge event then
        some { s with
          edges := s.edges.erase edge
          word := s.word.setReadiness (readinessFromEvent event)
          poller := .wake (readinessFromEvent event) }
      else none
  | .poller => pollerStep s
  | .add t d => if s.pc t = .outside ∧ s.siosLock = none then some (add s t d) else none
  | .remove t d => if s.pc t = .outside ∧ s.siosLock = none then some (remove s t d) else none
  | .take t h =>
      if s.pc t = .outside ∧ h ∈ s.queued then
        some ({ s with queued := s.queued.erase h }.goto t (.dispatch h))
      else none
  | .thread t => threadStep s t

/-- The fd right after its registration: what is ready then has its edge. -/
def registration (event : PollEvent) : State T where
  ready := readinessFromEvent event
  edges := if readinessFromEvent event = 0 then [] else [readinessFromEvent event]
  word := { tick := 0, bits := 0 }
  tick := fun _ => 0
  slot := fun _ => none
  mutex := none
  poller := .idle
  pc := fun _ => .outside
  queued := []
  siosLock := none
  registered := fun _ => none
  handles := 0
  active := fun _ => false

def machine : Machine (State T) (Act T) where
  start s := ∃ event, s = registration event
  step := step

end MtAsyncio.FdCallbacks
