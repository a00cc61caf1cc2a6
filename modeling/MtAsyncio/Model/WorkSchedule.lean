/-
Module: MtAsyncio.Model.WorkSchedule
Purpose: The worker scheduler: `WorkSchedule`, `find_work` and `work_loop` of
  `src/work.rs` and the handle pushes of `src/runtime.rs`, as a machine whose
  steps are the individual atomic operations.
Trusted boundary: crossbeam's deques are linearizable queues, `Parker` holds
  one token, and the atomics are sequentially consistent
Main exports: Shared, Unparking, Worker, State, Act, workerStep, machine
-/
import Mathlib.Data.BitVec
import Mathlib.Logic.Function.Basic
import MtAsyncio.Lib.Machine

namespace MtAsyncio.WorkSchedule

open Lib (Machine)

/-!
`n` workers run `work_loop` and `m` further threads push handles of type `H`.
A worker deque is a list with the owner's end first: the owner pushes and pops
at the head, a stealer takes from the other end.  `Steal::Retry` is a lost race
inside one linearizable steal and changes nothing, so a scan of a queue is one
step.

`idle_count` wraps: a producer may claim the flag between the two writes of
`set_idle` and subtract before the worker has added.  `speculation` is a plain
counter; `fetch_sub` on it is truncated subtraction.
-/

/-- The fields the threads share: the queues of the runtime, the atomics of
`WorkSchedule`, and the token of each `Parker`. -/
structure Shared (n : Nat) (H : Type) where
  injector : List H
  deque : Fin n → List H
  idleFlag : Fin n → Bool
  idleCount : BitVec 64
  speculation : Nat
  parkToken : Fin n → Bool
  workStopping : Bool

/-- Where a thread stands inside `unpark_one` (`force = false`), `unpark`
(`force = true`) and the `wake_idle` both end in. -/
inductive Unparking (n : Nat) where
  | loadIdleCount (force : Bool)
  | takeToken (force : Bool)
  | tryFlag (i : Fin n)
  | subIdleCount (i : Fin n)
  | unparkWorker (i : Fin n)
  | giveBack
deriving DecidableEq

/-- The next queue a `find_work` looks at. -/
inductive Scan where
  | own
  | injector
  | stealer (k : Nat)
deriving DecidableEq

/-- Program counter of `work_loop`.  `second` tells the scan before `set_idle`
from the one after it. -/
inductive WorkerPc (n : Nat) (H : Type) where
  | findWork (second : Bool) (scan : Scan)
  | dropToken (h : H)
  | wakeNext (h : H) (u : Unparking n)
  | run (h : H)
  | push (h : H) (u : Unparking n)
  | checkStopping (second : Bool)
  | storeFlag
  | addCount
  | clearIdle (h : H)
  | clearCount (h : H)
  | absorb (h : H)
  | giveUp
  | rescan
  | park
  | unparked
  | unparkedCount
  | unparkedStopping (claimed : Bool)
  | exitClear
  | exitCount
  | exitToken
  | exited
deriving DecidableEq

/-- The locals of one `work_loop`. -/
structure Worker (n : Nat) (H : Type) where
  pc : WorkerPc n H
  isSpeculating : Bool

/-- The three ways a handle is pushed. -/
inductive PushOp where
  | addHandle
  | deferHandle
  | addIoHandle
deriving DecidableEq

structure State (n m : Nat) (H : Type) where
  shared : Shared n H
  worker : Fin n → Worker n H
  /-- `none` outside of a push -/
  producer : Fin m → Option (Unparking n)

inductive Act (n m : Nat) (H : Type) where
  /-- the next atomic step of a worker outside of `handle.run` -/
  | worker (i : Fin n)
  /-- the handle a worker runs pushes another one -/
  | runPush (i : Fin n) (op : PushOp) (h : H)
  /-- `handle.run` returns -/
  | runEnd (i : Fin n)
  | producerPush (p : Fin m) (op : PushOp) (h : H)
  | producer (p : Fin m)
  /-- the two halves of `stop_threads` -/
  | stop
  | stopUnpark (i : Fin n)

variable {n m : Nat} {H : Type}

/-! ## `unpark_one`, `unpark`, `wake_idle` -/

/-- Entry of the flag loop of `wake_idle`. -/
def wakeIdle : Unparking n :=
  if inside : 0 < n then .tryFlag ⟨0, inside⟩ else .giveBack

/-- The loop step of `wake_idle` past a flag that was not set. -/
def nextFlag (i : Fin n) : Unparking n :=
  if inside : i.val + 1 < n then .tryFlag ⟨i.val + 1, inside⟩ else .giveBack

/-- One atomic operation of an unpark call; `none` when it returns. -/
def Unparking.step (g : Shared n H) : Unparking n → Shared n H × Option (Unparking n)
  | .loadIdleCount force =>
      (g, if g.idleCount = 0 then none else some (.takeToken force))
  | .takeToken true =>
      ({ g with speculation := g.speculation + 1 }, some wakeIdle)
  | .takeToken false =>
      if g.speculation = 0 then ({ g with speculation := 1 }, some wakeIdle)
      else (g, none)
  | .tryFlag i =>
      if g.idleFlag i then
        ({ g with idleFlag := Function.update g.idleFlag i false },
          some (.subIdleCount i))
      else (g, some (nextFlag i))
  | .subIdleCount i =>
      ({ g with idleCount := g.idleCount - 1 }, some (.unparkWorker i))
  | .unparkWorker i =>
      ({ g with parkToken := Function.update g.parkToken i true }, none)
  | .giveBack =>
      ({ g with speculation := g.speculation - 1 }, none)

/-! ## Pushing a handle -/

/-- `add_io_handle` wakes by `unpark`, the other two by `unpark_one`. -/
def PushOp.force : PushOp → Bool
  | .addIoHandle => true
  | _ => false

/-- The push of a thread that is no worker goes to the injector. -/
def Shared.inject (g : Shared n H) (h : H) : Shared n H :=
  { g with injector := g.injector ++ [h] }

/-- The push of a worker: `add_handle` uses the worker's own deque. -/
def Shared.pushFrom (g : Shared n H) (i : Fin n) (h : H) : PushOp → Shared n H
  | .addHandle => { g with deque := Function.update g.deque i (h :: g.deque i) }
  | _ => g.inject h

/-! ## `work_loop` -/

namespace Worker

def goto (w : Worker n H) (pc : WorkerPc n H) : Worker n H := { w with pc := pc }

/-- Leave the loop's search with a handle: retire the speculation token first
if the worker holds one. -/
def takeUp (w : Worker n H) (h : H) : Worker n H :=
  w.goto (if w.isSpeculating then .dropToken h else .run h)

/-- A `find_work` returned a handle. -/
def found (w : Worker n H) (second : Bool) (h : H) : Worker n H :=
  if second then w.goto (.clearIdle h) else w.takeUp h

end Worker

/-- One atomic operation of `work_loop`.  Inside `handle.run` the handle
decides what happens next, so there is no step here. -/
def workerStep (g : Shared n H) (i : Fin n) (w : Worker n H) :
    Option (Shared n H × Worker n H) :=
  match w.pc with
  | .findWork second .own =>
      match g.deque i with
      | h :: rest =>
          some ({ g with deque := Function.update g.deque i rest }, w.found second h)
      | [] => some (g, w.goto (.findWork second .injector))
  | .findWork second .injector =>
      match g.injector with
      | h :: rest => some ({ g with injector := rest }, w.found second h)
      | [] => some (g, w.goto (.findWork second (.stealer 0)))
  | .findWork second (.stealer k) =>
      if inside : k < n then
        if k = i.val then some (g, w.goto (.findWork second (.stealer (k + 1))))
        else
          match (g.deque ⟨k, inside⟩).getLast? with
          | some h =>
              some ({ g with deque :=
                  Function.update g.deque ⟨k, inside⟩ (g.deque ⟨k, inside⟩).dropLast },
                w.found second h)
          | none => some (g, w.goto (.findWork second (.stealer (k + 1))))
      else some (g, w.goto (.checkStopping second))
  | .dropToken h =>
      -- the last token retires into a fresh wake-up
      some ({ g with speculation := g.speculation - 1 },
        { pc := if g.speculation = 1 then .wakeNext h (.loadIdleCount false) else .run h
          isSpeculating := false })
  | .wakeNext h u =>
      some ((u.step g).1,
        w.goto (match (u.step g).2 with
          | some u' => .wakeNext h u'
          | none => .run h))
  | .run _ => none
  | .push h u =>
      some ((u.step g).1,
        w.goto (match (u.step g).2 with
          | some u' => .push h u'
          | none => .run h))
  | .checkStopping false =>
      some (g, w.goto
        (if g.workStopping then (if w.isSpeculating then .exitToken else .exited)
          else .storeFlag))
  | .storeFlag =>
      some ({ g with idleFlag := Function.update g.idleFlag i true }, w.goto .addCount)
  | .addCount =>
      some ({ g with idleCount := g.idleCount + 1 }, w.goto (.findWork true .own))
  | .clearIdle h =>
      if g.idleFlag i then
        some ({ g with idleFlag := Function.update g.idleFlag i false },
          w.goto (.clearCount h))
      else some (g, w.goto (.absorb h))
  | .clearCount h =>
      some ({ g with idleCount := g.idleCount - 1 }, w.takeUp h)
  | .absorb h =>
      some ({ g with speculation := g.speculation - 1 }, w.takeUp h)
  | .checkStopping true =>
      some (g, w.goto
        (if g.workStopping then .exitClear
          else if w.isSpeculating then .giveUp else .park))
  | .giveUp =>
      some ({ g with speculation := g.speculation - 1 },
        { pc := .rescan, isSpeculating := false })
  | .rescan =>
      match g.injector with
      | h :: rest => some ({ g with injector := rest }, w.goto (.clearIdle h))
      | [] => some (g, w.goto .park)
  | .park =>
      if g.parkToken i then
        some ({ g with parkToken := Function.update g.parkToken i false },
          w.goto .unparked)
      else none
  | .unparked =>
      if g.idleFlag i then
        some ({ g with idleFlag := Function.update g.idleFlag i false },
          w.goto .unparkedCount)
      else some (g, w.goto (.unparkedStopping true))
  | .unparkedCount =>
      some ({ g with idleCount := g.idleCount - 1 }, w.goto (.unparkedStopping false))
  | .unparkedStopping claimed =>
      some (g,
        if g.workStopping then w.goto .exited
        else { pc := .findWork false .own, isSpeculating := claimed })
  | .exitClear =>
      if g.idleFlag i then
        some ({ g with idleFlag := Function.update g.idleFlag i false },
          w.goto .exitCount)
      else some (g, w.goto (if w.isSpeculating then .exitToken else .exited))
  | .exitCount =>
      some ({ g with idleCount := g.idleCount - 1 },
        w.goto (if w.isSpeculating then .exitToken else .exited))
  | .exitToken =>
      some ({ g with speculation := g.speculation - 1 }, w.goto .exited)
  | .exited => none

/-! ## The machine -/

def State.setWorker (s : State n m H) (i : Fin n) (g : Shared n H) (w : Worker n H) :
    State n m H :=
  { s with shared := g, worker := Function.update s.worker i w }

def State.setProducer (s : State n m H) (p : Fin m) (g : Shared n H)
    (u : Option (Unparking n)) : State n m H :=
  { s with shared := g, producer := Function.update s.producer p u }

def step (s : State n m H) : Act n m H → Option (State n m H)
  | .worker i =>
      (workerStep s.shared i (s.worker i)).map fun next => s.setWorker i next.1 next.2
  | .runPush i op h' =>
      match (s.worker i).pc with
      | .run h =>
          some (s.setWorker i (s.shared.pushFrom i h' op)
            ((s.worker i).goto (.push h (.loadIdleCount op.force))))
      | _ => none
  | .runEnd i =>
      match (s.worker i).pc with
      | .run _ => some (s.setWorker i s.shared ((s.worker i).goto (.findWork false .own)))
      | _ => none
  | .producerPush p op h =>
      match s.producer p with
      | none =>
          some (s.setProducer p (s.shared.inject h) (some (.loadIdleCount op.force)))
      | some _ => none
  | .producer p =>
      match s.producer p with
      | some u => some (s.setProducer p (u.step s.shared).1 (u.step s.shared).2)
      | none => none
  | .stop => some { s with shared := { s.shared with workStopping := true } }
  | .stopUnpark i =>
      if s.shared.workStopping then
        some { s with shared :=
          { s.shared with parkToken := Function.update s.shared.parkToken i true } }
      else none

/-- `Runtime::_run` has just published the schedule and spawned the workers;
handles may already sit in the injector. -/
def Start (s : State n m H) : Prop :=
  (∀ i, s.shared.deque i = []) ∧ (∀ i, s.shared.idleFlag i = false) ∧
    s.shared.idleCount = 0 ∧ s.shared.speculation = 0 ∧
    (∀ i, s.shared.parkToken i = false) ∧ s.shared.workStopping = false ∧
    (∀ i, s.worker i = { pc := .findWork false .own, isSpeculating := false }) ∧
    ∀ p, s.producer p = none

def machine (n m : Nat) (H : Type) : Machine (State n m H) (Act n m H) where
  start := Start
  step := step

end MtAsyncio.WorkSchedule
