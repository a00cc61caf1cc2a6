/-
Module: MtAsyncio.Model.SyncEvent
Purpose: `Event` of `_sync.py`: `wait` with its except clause, `clear`, and
  `set`, whose loop behind the locked section tests `done()` and calls
  `set_result()` in two steps for each future.
Trusted boundary: as for `MtAsyncio.Model.Tasks`; a section under `_mu` is one
  step
Main exports: SetPc, Waits.wakeStep, State, Act, setLocked, waitLocked, step,
  machine
-/
import MtAsyncio.Model.Waiting

namespace MtAsyncio.SyncEvent

open Lib (Machine)
open Tasks
open Waiting

/-!
Tasks that wait are drawn from `T`, and the threads that call `set` from `P`;
these may be running tasks of `T`.
-/

/-- Where a call of `set` stands.  `collected` are the futures that the locked
section found in `_waiters`; only the loop's `rest` is read. -/
inductive SetPc (F : Type) where
  | outside
  | loop (collected rest : List F)
  /-- `fut` was found not done -/
  | complete (collected : List F) (fut : F) (rest : List F)
  | returned (collected : List F)
  /-- `set_result` raised `InvalidStateError` out of `set` -/
  | raised
deriving DecidableEq

/-- The thread is inside of `set`. -/
def SetPc.busy {F : Type} : SetPc F → Bool
  | .loop .. | .complete .. => true
  | _ => false

variable {S K T F C P : Type} [DecidableEq T] [DecidableEq F] [DecidableEq C] [DecidableEq P]

/-- The next step of the loop in `set`. -/
def wakeStep (w : Waits S K T F C) : SetPc F → Option (Waits S K T F C × SetPc F)
  | .loop collected [] => some (w, .returned collected)
  | .loop collected (fut :: rest) =>
      some (w, if w.done fut then .loop collected rest else .complete collected fut rest)
  | .complete collected fut rest =>
      some (if w.done fut then (w, .raised)
        else (w.setKernel (w.kernel.setState (.fut fut) .finished), .loop collected rest))
  | .outside | .returned _ | .raised => none

structure State (T F C P : Type) where
  waits : Waits Unit Unit T F C
  /-- `_value` -/
  value : Bool
  caller : P → SetPc F

inductive Act (T F C P : Type) where
  | around (a : Around T F C)
  /-- the locked section of `wait`; `f` is the future it makes when it has to
  wait -/
  | wait (t : T) (f : F)
  /-- the next step of `t` inside of the await, its except clause or behind it -/
  | task (t : T)
  /-- the locked section of `set` -/
  | set (p : P)
  /-- the next step of that call -/
  | caller (p : P)
  | clear

def State.setCaller (s : State T F C P) (p : P) (pc : SetPc F) : State T F C P :=
  { s with caller := Function.update s.caller p pc }

/-- The locked section of `set`. -/
def setLocked (s : State T F C P) (p : P) : State T F C P :=
  if s.value then s.setCaller p (.returned (s.waits.waiters ()))
  else { s with value := true, waits := s.waits.setWaiters () [] }.setCaller p
    (.loop (s.waits.waiters ()) (s.waits.waiters ()))

/-- The locked section of `wait`, which returns when the flag is set. -/
def waitLocked (s : State T F C P) (t : T) (f : F) : Option (State T F C P) :=
  if s.value then some s
  else (s.waits.park t () () f).map fun waits => { s with waits := waits }

/-- One step of `t` inside of `wait`. -/
def taskStep (s : State T F C P) (t : T) : Option (State T F C P) :=
  match s.waits.place t with
  | .waiting k f pc => (s.waits.await t k f pc).map fun waits => { s with waits := waits }
  | .caught _ f => some { s with waits := s.waits.leave t () f }
  | .woken _ _ => some { s with waits := s.waits.setPlace t .away }
  | .away | .handing _ _ => none

def step (s : State T F C P) : Act T F C P → Option (State T F C P)
  | .around a => (s.waits.around a).map fun waits => { s with waits := waits }
  | .wait t f =>
      match s.waits.place t with
      | .away => waitLocked s t f
      | _ => none
  | .task t => taskStep s t
  | .set p => if (s.caller p).busy then none else some (setLocked s p)
  | .caller p =>
      (wakeStep s.waits (s.caller p)).map fun next => { s with waits := next.1 }.setCaller p next.2
  | .clear => some { s with value := false }

/-- `Event()`, with no task in `wait` and no thread in `set`. -/
def Start (s : State T F C P) : Prop :=
  s.waits.Fresh ∧ s.value = false ∧ ∀ p, s.caller p = .outside

def machine (T F C P : Type) [DecidableEq T] [DecidableEq F] [DecidableEq C] [DecidableEq P] :
    Machine (State T F C P) (Act T F C P) where
  start := Start
  step := step

end MtAsyncio.SyncEvent
