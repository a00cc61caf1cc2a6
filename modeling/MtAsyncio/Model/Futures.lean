/-
Module: MtAsyncio.Model.Futures
Purpose: One `Future` of `_futures.py` and its native `Event` of `events.rs`
  under any number of threads: `set_result`, `set_exception`, `cancel`,
  `add_done_callback`, `remove_done_callback`, `__await__`, and the regions of
  `_wakes.py` around them.
Trusted boundary: `threading.Lock` and `Mutex` exclude; the loop is not closed,
  so `call_soon` does not raise; making an exception from its class does not
  raise; whether the awaiting task has a cancel pending is left to the label
Main exports: Exceptions, Fields, Completion, Call, Pc, TaskPc, State, Act,
  callStep, threadStep, taskStep, step, machine
-/
import Mathlib.Logic.Function.Basic
import MtAsyncio.Lib.Machine
import MtAsyncio.Model.Wakes

namespace MtAsyncio.Futures

open Lib (Machine)
open Wakes (Region)

/-!
Threads are drawn from `T` and awaiting tasks from `W`.  Results are of type
`V`, exceptions of type `X` and exception classes of type `C`, the messages of
`cancel` of type `M`; callbacks are of type `G` and contexts of type `K`.
-/

/-- What the code asks about exceptions: a class is called to make one, and
`StopIteration` is refused. -/
structure Exceptions (X C : Type) where
  make : C → X
  stopIteration : X → Bool

/-- `_state` -/
inductive Status where
  | pending
  | finished
  | cancelled
deriving DecidableEq

/-- An entry of `_callbacks`.  `id` numbers the registrations; nothing in the
program reads it. -/
structure Entry (G K : Type) where
  fn : G
  context : K
  id : Nat
deriving DecidableEq

/-- The fields that `_lock` guards. -/
structure Fields (V X M G K : Type) where
  state : Status
  result : Option V
  exception : Option X
  cancelMessage : Option M
  callbacks : List (Entry G K)
deriving DecidableEq

/-- What a completing call puts into the future. -/
inductive Completion (V X M : Type) where
  | result (value : V)
  | exception (exception : X)
  | cancel (message : Option M)
deriving DecidableEq

/-- What an await ends with. -/
inductive Outcome (V X M : Type) where
  | returned (value : Option V)
  | raised (exception : X)
  | cancelled (message : Option M)
  /-- `CancelledError` of the task's own pending cancel -/
  | interrupted
  /-- "await wasn't used with future" -/
  | neverSet
  /-- `InvalidStateError('Result is not ready.')` -/
  | notReady
deriving DecidableEq

/-- What a call ends with. -/
inductive Reply where
  | none_
  | true_
  | false_
  | invalidState
  | typeError
  | removed (count : Nat)
deriving DecidableEq

inductive Call (V X C M G K : Type) where
  | setResult (value : V)
  | setException (argument : X ⊕ C)
  | cancel (message : Option M)
  | addDoneCallback (fn : G) (context : K)
  | removeDoneCallback (fn : G)

/-- What a region collects: `self._event.set`, or the `_call_soon` of a handle. -/
inductive Wake (G K : Type) where
  | set
  | soon (entry : Entry G K)
deriving DecidableEq

/-- Where a thread goes on after `event.set()`. -/
inductive After (G K : Type) where
  | callbacks (reply : Reply) (rest : List (Entry G K))
  | flush (rest : List (Wake G K))
deriving DecidableEq

inductive Pc (V X M G K : Type) where
  | idle
  /-- a completing call, before it takes `_lock` -/
  | complete (op : Completion V X M)
  /-- `_wake` of a completing call that ends with `reply` -/
  | wake (reply : Reply) (callbacks : List (Entry G K))
  /-- `event.set()` has flipped the flag, before the lock of `notify` -/
  | notify (after : After G K)
  /-- the loop of `notify`, inside of the lock -/
  | drain (after : After G K)
  /-- the loop of `_run_callbacks` -/
  | runCallbacks (reply : Reply) (rest : List (Entry G K))
  | add (fn : G) (context : K)
  /-- `add_done_callback` has found the future done -/
  | soon (entry : Entry G K)
  | remove (fn : G)
  /-- the loop of `__exit__` -/
  | flush (rest : List (Wake G K))
deriving DecidableEq

inductive TaskPc (V X M : Type) where
  | idle
  | test
  /-- the locked `_must_cancel` test before the suspension -/
  | arm
  /-- the waiter is yielded; `add_waker` has not taken the lock yet -/
  | register
  /-- `add_waker`, inside of the lock -/
  | check
  /-- `add_waker` has found the flag clear -/
  | push
  /-- the waker is among the watchers -/
  | parked
  /-- the task is on the run queue -/
  | runnable
  | disarm
  /-- the locked `_must_cancel` test on a resolved future -/
  | ready
  | isSet
  | read
  | done (outcome : Outcome V X M)
deriving DecidableEq

/-- A completion that went through: who made it, what it put, and whether it
was made inside of a region. -/
structure Win (T V X M : Type) where
  thread : T
  op : Completion V X M
  deferred : Bool
deriving DecidableEq

/-- Holders of the watchers' lock. -/
inductive Holder (T W : Type) where
  | thread (t : T)
  | task (w : W)
deriving DecidableEq

/-- `queue` are the handles that `_call_soon` got.  `issued`, `removed`, `wins`
and `returned` (the winning call has returned) are history; nothing in the
program reads them. -/
structure State (T W V X M G K : Type) where
  fut : Fields V X M G K
  flag : Bool
  watchers : List W
  guard : Option (Holder T W)
  queue : List (Entry G K)
  region : T → Region (Wake G K)
  pc : T → Pc V X M G K
  reply : T → Option Reply
  task : W → TaskPc V X M
  issued : Nat
  removed : List Nat
  wins : List (Win T V X M)
  returned : Bool

inductive Act (T W V X C M G K : Type) where
  | call (t : T) (c : Call V X C M G K)
  /-- the next step of the call thread `t` is inside of -/
  | thread (t : T)
  | enter (t : T)
  | exit (t : T)
  | await (w : W)
  /-- the next step of the await of `w`; `mustCancel` says whether it has a
  cancel pending -/
  | task (w : W) (mustCancel : Bool)

variable {T W V X C M G K : Type}

/-- `_read` -/
def Fields.read (fut : Fields V X M G K) : Outcome V X M :=
  match fut.state, fut.exception with
  | .finished, some exception => .raised exception
  | .finished, none => .returned fut.result
  | .cancelled, _ => .cancelled fut.cancelMessage
  | .pending, _ => .notReady

/-- What the locked section of a completing call writes. -/
def Fields.complete (fut : Fields V X M G K) : Completion V X M → Fields V X M G K
  | .result value => { fut with result := some value, state := .finished, callbacks := [] }
  | .exception exception =>
      { fut with exception := some exception, state := .finished, callbacks := [] }
  | .cancel message => { fut with state := .cancelled, cancelMessage := message, callbacks := [] }

/-- What a completing call that comes too late ends with. -/
def Completion.lost : Completion V X M → Reply
  | .result _ | .exception _ => .invalidState
  | .cancel _ => .false_

def Completion.won : Completion V X M → Reply
  | .result _ | .exception _ => .none_
  | .cancel _ => .true_

def After.pc : After G K → Pc V X M G K
  | .callbacks reply rest => .runCallbacks reply rest
  | .flush rest => .flush rest

section Steps

variable [DecidableEq T] [DecidableEq W] [DecidableEq G]

namespace State

def goto (s : State T W V X M G K) (t : T) (pc : Pc V X M G K) : State T W V X M G K :=
  { s with pc := Function.update s.pc t pc }

/-- The call of `t` ends. -/
def answer (s : State T W V X M G K) (t : T) (reply : Reply) : State T W V X M G K :=
  { s with pc := Function.update s.pc t .idle, reply := Function.update s.reply t (some reply) }

def setTask (s : State T W V X M G K) (w : W) (pc : TaskPc V X M) : State T W V X M G K :=
  { s with task := Function.update s.task w pc }

def setRegion (s : State T W V X M G K) (t : T) (region : Region (Wake G K)) :
    State T W V X M G K :=
  { s with region := Function.update s.region t region }

/-- `call_soon`: the handle is queued, or collected by the region. -/
def callSoon (s : State T W V X M G K) (t : T) (entry : Entry G K) : State T W V X M G K :=
  if (s.region t).wakesNow then { s with queue := s.queue ++ [entry] }
  else s.setRegion t ((s.region t).append (.soon entry))

/-- The exchange on the flag in `event.set()`; only the one that flips it goes
on to `notify`. -/
def set (s : State T W V X M G K) (t : T) (after : After G K) : State T W V X M G K :=
  if s.flag then s.goto t after.pc else { s with flag := true }.goto t (.notify after)

end State

/-- A call begins.  `set_exception` looks at its argument before the state. -/
def callStep (e : Exceptions X C) (s : State T W V X M G K) (t : T) :
    Call V X C M G K → State T W V X M G K
  | .setResult value => s.goto t (.complete (.result value))
  | .setException argument =>
      if e.stopIteration (argument.elim id e.make) then s.answer t .typeError
      else s.goto t (.complete (.exception (argument.elim id e.make)))
  | .cancel message => s.goto t (.complete (.cancel message))
  | .addDoneCallback fn context => s.goto t (.add fn context)
  | .removeDoneCallback fn => s.goto t (.remove fn)

/-- The locked section of a completing call. -/
def completeStep (s : State T W V X M G K) (t : T) (op : Completion V X M) :
    State T W V X M G K :=
  if s.fut.state = .pending then
    { s with
      fut := s.fut.complete op
      wins := s.wins ++ [Win.mk t op !(s.region t).wakesNow] }.goto t
        (.wake op.won s.fut.callbacks)
  else s.answer t op.lost

/-- The locked section of `add_done_callback`. -/
def addStep (s : State T W V X M G K) (t : T) (fn : G) (context : K) : State T W V X M G K :=
  if s.fut.state = .pending then
    { s with
      fut := { s.fut with callbacks := s.fut.callbacks ++ [Entry.mk fn context s.issued] }
      issued := s.issued + 1 }.answer t .none_
  else { s with issued := s.issued + 1 }.goto t (.soon ⟨fn, context, s.issued⟩)

/-- `kept` of `remove_done_callback` -/
def Fields.kept (fut : Fields V X M G K) (fn : G) : List (Entry G K) :=
  fut.callbacks.filter fun entry => entry.fn ≠ fn

/-- The registrations that `remove_done_callback` takes out. -/
def Fields.dropped (fut : Fields V X M G K) (fn : G) : List (Entry G K) :=
  fut.callbacks.filter fun entry => entry.fn = fn

/-- The locked section of `remove_done_callback`. -/
def removeStep (s : State T W V X M G K) (t : T) (fn : G) : State T W V X M G K :=
  { s with
    fut := { s.fut with callbacks := s.fut.kept fn }
    removed := s.removed ++ (s.fut.dropped fn).map Entry.id }.answer t
      (.removed (s.fut.callbacks.length - (s.fut.kept fn).length))

/-- One atomic step of a thread inside of a call or of a region's exit. -/
def threadStep (s : State T W V X M G K) (t : T) : Option (State T W V X M G K) :=
  match s.pc t with
  | .idle => none
  | .complete op => some (completeStep s t op)
  | .wake reply callbacks =>
      some (if (s.region t).wakesNow then s.set t (.callbacks reply callbacks)
        else (s.setRegion t ((s.region t).append .set)).goto t (.runCallbacks reply callbacks))
  | .notify after =>
      if s.guard = none then
        some ({ s with guard := some (.thread t) }.goto t (.drain after))
      else none
  | .drain after =>
      match s.watchers with
      | [] => some ({ s with guard := none }.goto t after.pc)
      | w :: rest => some ({ s with watchers := rest }.setTask w .runnable)
  | .runCallbacks reply [] => some ({ s with returned := true }.answer t reply)
  | .runCallbacks reply (entry :: rest) =>
      some ((s.callSoon t entry).goto t (.runCallbacks reply rest))
  | .add fn context => some (addStep s t fn context)
  | .soon entry => some ((s.callSoon t entry).answer t .none_)
  | .remove fn => some (removeStep s t fn)
  | .flush [] => some (s.goto t .idle)
  | .flush (.set :: rest) => some (s.set t (.flush rest))
  | .flush (.soon entry :: rest) =>
      some ({ s with queue := s.queue ++ [entry] }.goto t (.flush rest))

/-- One atomic step of the await of `w`. -/
def taskStep (s : State T W V X M G K) (w : W) (mustCancel : Bool) :
    Option (State T W V X M G K) :=
  match s.task w with
  | .idle | .done _ | .parked => none
  | .test => some (s.setTask w (if s.flag then .ready else .arm))
  | .arm => some (s.setTask w (if mustCancel then .done .interrupted else .register))
  | .register =>
      if s.guard = none then some ({ s with guard := some (.task w) }.setTask w .check) else none
  | .check =>
      -- a set flag wakes the task in place of the `push_back`
      some (if s.flag then { s with guard := none }.setTask w .runnable else s.setTask w .push)
  | .push => some ({ s with watchers := s.watchers ++ [w], guard := none }.setTask w .parked)
  | .runnable => some (s.setTask w .disarm)
  | .disarm => some (s.setTask w .isSet)
  | .ready => some (s.setTask w (if mustCancel then .done .interrupted else .isSet))
  | .isSet => some (s.setTask w (if s.flag then .read else .done .neverSet))
  | .read => some (s.setTask w (.done s.fut.read))

def step (e : Exceptions X C) (s : State T W V X M G K) :
    Act T W V X C M G K → Option (State T W V X M G K)
  | .call t c =>
      match s.pc t with
      | .idle => some (callStep e s t c)
      | _ => none
  | .thread t => threadStep s t
  | .enter t =>
      match s.pc t with
      | .idle => some (s.setRegion t (s.region t).enter)
      | _ => none
  | .exit t =>
      match s.pc t with
      | .idle =>
          (s.region t).exit.map fun left => (s.setRegion t left.1).goto t (.flush left.2)
      | _ => none
  | .await w =>
      match s.task w with
      | .idle | .done _ => some (s.setTask w .test)
      | _ => none
  | .task w mustCancel => taskStep s w mustCancel

end Steps

def fresh : State T W V X M G K where
  fut := ⟨.pending, none, none, none, []⟩
  flag := false
  watchers := []
  guard := none
  queue := []
  region := fun _ => .outside
  pc := fun _ => .idle
  reply := fun _ => none
  task := fun _ => .idle
  issued := 0
  removed := []
  wins := []
  returned := false

def machine (e : Exceptions X C) [DecidableEq T] [DecidableEq W] [DecidableEq G] :
    Machine (State T W V X M G K) (Act T W V X C M G K) where
  start s := s = fresh
  step := step e

end MtAsyncio.Futures
