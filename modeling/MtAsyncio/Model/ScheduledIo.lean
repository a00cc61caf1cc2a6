/-
Module: MtAsyncio.Model.ScheduledIo
Purpose: `ScheduledIO` of `io/schedule.rs`: the readiness word, the waiter
  slots behind their mutex, and the atomic steps of arming, clearing, the poll
  thread and shutdown.
Trusted boundary: `fetch_update` and `fetch_or` are one atomic step; `wake`
  holds the mutex over data that is touched only under it, so it is one step
  too; `usize` is 64 bits wide
Main exports: Ready, Waiters, setReadiness, wake, Pc, State, Act, step, machine
-/
import Mathlib.Logic.Function.Basic
import MtAsyncio.Lib.Machine

namespace MtAsyncio.ScheduledIo

open Lib (Machine)

/-! ## The readiness word -/

namespace Ready

def readable : BitVec 64 := 0b000001
def writable : BitVec 64 := 0b000010
def readClosed : BitVec 64 := 0b000100
def writeClosed : BitVec 64 := 0b001000
def error : BitVec 64 := 0b010000
def shutdown : BitVec 64 := 0b100000

def tickShift : Nat := 6
def tickMask : BitVec 64 := 0xff <<< tickShift

def readAll : BitVec 64 := readable ||| readClosed ||| error
def writeAll : BitVec 64 := writable ||| writeClosed ||| error

end Ready

def tickOf (word : BitVec 64) : BitVec 8 :=
  ((word &&& Ready.tickMask) >>> Ready.tickShift).setWidth 8

/-- The two directions; `arm_r` and `arm_w` and their like differ by it. -/
inductive Direction where
  | read
  | write
deriving DecidableEq

def Direction.mask : Direction → BitVec 64
  | .read => Ready.readAll
  | .write => Ready.writeAll

/-- What `arm` and `arm_cb` test: the direction is ready or shut down. -/
def readyOrShut (word : BitVec 64) (d : Direction) : Bool :=
  word &&& (d.mask ||| Ready.shutdown) != 0

/-- The flags of a `mio` event. -/
structure PollEvent where
  readable : Bool
  writable : Bool
  readClosed : Bool
  writeClosed : Bool
  error : Bool
deriving DecidableEq

def readinessFromEvent (event : PollEvent) : BitVec 64 :=
  (if event.readable then Ready.readable else 0) |||
  (if event.writable then Ready.writable else 0) |||
  (if event.readClosed then Ready.readClosed else 0) |||
  (if event.writeClosed then Ready.writeClosed else 0) |||
  (if event.error then Ready.error else 0)

def setReadiness (word ready : BitVec 64) : BitVec 64 :=
  ((tickOf word + 1).setWidth 64 <<< Ready.tickShift) ||| (word &&& ~~~Ready.tickMask) ||| ready

/-- The update of `clear`, which a newer tick makes void. -/
def clear (word ready : BitVec 64) (tick : BitVec 8) : BitVec 64 :=
  if tickOf word ≠ tick then word else word &&& ~~~ready

/-- The update of `consume`; whether any bit was set is its result. -/
def consume (word mask : BitVec 64) : BitVec 64 × Bool :=
  if word &&& mask = 0 then (word, false) else (word &&& ~~~mask, true)

/-! ## The waiter slots -/

/-- A stored callback or `Event`.  The stamp numbers the stores, so that two
stores of one Python object stay apart. -/
structure Stored (V : Type) where
  stamp : Nat
  value : V
deriving DecidableEq

/-- What a slot is for: `arm` stores an `Event`, `arm_cb` a callback. -/
inductive Kind where
  | event
  | callback
deriving DecidableEq

/-- `Waiters`, and also `WakeSet`, which has the same four fields. -/
structure Waiters (V : Type) where
  reader : Option (Stored V) := none
  writer : Option (Stored V) := none
  readerCb : Option (Stored V) := none
  writerCb : Option (Stored V) := none
deriving DecidableEq

variable {T V : Type} [DecidableEq T]

namespace Waiters

def slot (slots : Waiters V) : Kind → Direction → Option (Stored V)
  | .event, .read => slots.reader
  | .event, .write => slots.writer
  | .callback, .read => slots.readerCb
  | .callback, .write => slots.writerCb

/-- `*slot = Some(..)`: what the slot held is dropped. -/
def put (slots : Waiters V) (x : Stored V) : Kind → Direction → Waiters V
  | .event, .read => { slots with reader := some x }
  | .event, .write => { slots with writer := some x }
  | .callback, .read => { slots with readerCb := some x }
  | .callback, .write => { slots with writerCb := some x }

/-- Everything stored. -/
def members (slots : Waiters V) : List (Stored V) :=
  slots.reader.toList ++ slots.readerCb.toList ++ (slots.writer.toList ++ slots.writerCb.toList)

end Waiters

/-- `wake`: the set that is handed out, and the slots it leaves. -/
def wake (slots : Waiters V) (ready : BitVec 64) : Waiters V × Waiters V :=
  let read := ready &&& Ready.readAll != 0
  let write := ready &&& Ready.writeAll != 0
  ({  reader := if read then slots.reader else none
      readerCb := if read then slots.readerCb else none
      writer := if write then slots.writer else none
      writerCb := if write then slots.writerCb else none },
   {  reader := if read then none else slots.reader
      readerCb := if read then none else slots.readerCb
      writer := if write then none else slots.writer
      writerCb := if write then none else slots.writerCb })

/-! ## The machine -/

/-- Where a thread stands inside of the methods of `ScheduledIO`. -/
inductive Pc (V : Type) where
  | outside
  /-- before the check without the lock -/
  | fastCheck (k : Kind) (d : Direction) (v : V)
  /-- `Py::new(py, Event::new())?` of `arm` -/
  | allocate (d : Direction) (v : V)
  | lock (k : Kind) (d : Direction) (v : V)
  /-- the check under the lock -/
  | recheck (k : Kind) (d : Direction) (v : V)
  | store (k : Kind) (d : Direction) (v : V)
  /-- the guard is dropped; `ready` is what the check under the lock found -/
  | unlock (d : Direction) (ready : Bool)
  /-- `current_tick()` after a check that found the direction ready -/
  | currentTick (d : Direction)
  | storeTick (d : Direction) (tick : BitVec 8)
  /-- `clear_r` and `clear_w` have loaded the tick they clear for -/
  | clear (d : Direction) (tick : BitVec 8)
  /-- the poll thread between `set_readiness(ready)` and `wake(ready)` -/
  | polled (ready : BitVec 64)
  /-- `shutdown` between its `fetch_or` and its `wake` -/
  | shut
deriving DecidableEq

/-- `stores` counts the stores made so far and `woken` lists what the wakes
have handed out, the last one first. -/
structure State (T V : Type) where
  readiness : BitVec 64
  tick : Direction → BitVec 8
  waiters : Waiters V
  mutex : Option T
  pc : T → Pc V
  stores : Nat
  woken : List (Waiters V)

inductive Act (T V : Type) where
  /-- `arm_r`, `arm_w`, `arm_r_cb` or `arm_w_cb` is called -/
  | arm (t : T) (k : Kind) (d : Direction) (v : V)
  /-- `clear_r` or `clear_w` is called and loads its tick -/
  | clear (t : T) (d : Direction)
  | consume (t : T) (d : Direction)
  | shutdown (t : T)
  /-- the poll thread takes up an event of the fd -/
  | poll (event : PollEvent)
  /-- the allocation of an `Event` raises -/
  | outOfMemory (t : T)
  /-- the next step of `t` -/
  | thread (t : T)
deriving DecidableEq

namespace State

def goto (s : State T V) (t : T) (pc : Pc V) : State T V :=
  { s with pc := Function.update s.pc t pc }

/-- The locked section of `wake`. -/
def wakeWith (s : State T V) (t : T) (ready : BitVec 64) : State T V :=
  { s with
    waiters := (wake s.waiters ready).2
    woken := (wake s.waiters ready).1 :: s.woken }.goto t .outside

end State

/-- One step of `t` inside of a method. -/
def threadStep (s : State T V) (t : T) : Option (State T V) :=
  match s.pc t with
  | .outside => none
  | .fastCheck k d v =>
      if readyOrShut s.readiness d then some (s.goto t (.currentTick d))
      else
        match k with
        | .event => some (s.goto t (.allocate d v))
        | .callback => some (s.goto t (.lock .callback d v))
  | .allocate d v => some (s.goto t (.lock .event d v))
  | .lock k d v =>
      if s.mutex.isSome then none
      else some ({ s with mutex := some t }.goto t (.recheck k d v))
  | .recheck k d v =>
      some (s.goto t (if readyOrShut s.readiness d then .unlock d true else .store k d v))
  | .store k d v =>
      some ({ s with
        waiters := s.waiters.put ⟨s.stores, v⟩ k d
        stores := s.stores + 1 }.goto t (.unlock d false))
  | .unlock d ready =>
      some ({ s with mutex := none }.goto t (if ready then .currentTick d else .outside))
  | .currentTick d => some (s.goto t (.storeTick d (tickOf s.readiness)))
  | .storeTick d tick =>
      some ({ s with tick := Function.update s.tick d tick }.goto t .outside)
  | .clear d tick =>
      some ({ s with readiness := clear s.readiness d.mask tick }.goto t .outside)
  | .polled ready => if s.mutex.isSome then none else some (s.wakeWith t ready)
  | .shut =>
      if s.mutex.isSome then none
      else some (s.wakeWith t (Ready.readAll ||| Ready.writeAll))

/-- A step of the machine whose poll thread is `poller`.  The callbacks that the
poll thread calls after a wake run on it like any other caller. -/
def step (poller : T) (s : State T V) : Act T V → Option (State T V)
  | .thread t => threadStep s t
  | .arm t k d v =>
      match s.pc t with
      | .outside => some (s.goto t (.fastCheck k d v))
      | _ => none
  | .clear t d =>
      match s.pc t with
      | .outside => some (s.goto t (.clear d (s.tick d)))
      | _ => none
  | .consume t d =>
      match s.pc t with
      | .outside => some { s with readiness := (consume s.readiness d.mask).1 }
      | _ => none
  | .shutdown t =>
      match s.pc t with
      | .outside => some ({ s with readiness := s.readiness ||| Ready.shutdown }.goto t .shut)
      | _ => none
  | .poll event =>
      match s.pc poller with
      | .outside =>
          some ({ s with
            readiness := setReadiness s.readiness (readinessFromEvent event) }.goto poller
              (.polled (readinessFromEvent event)))
      | _ => none
  | .outOfMemory t =>
      match s.pc t with
      | .allocate _ _ => some (s.goto t .outside)
      | _ => none

/-- `ScheduledIO::new`, with no thread inside. -/
def fresh : State T V where
  readiness := 0
  tick := fun _ => 0
  waiters := {}
  mutex := none
  pc := fun _ => .outside
  stores := 0
  woken := []

def machine (poller : T) : Machine (State T V) (Act T V) where
  start s := s = fresh
  step := step poller

end MtAsyncio.ScheduledIo
