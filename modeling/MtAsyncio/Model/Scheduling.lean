/-
Module: MtAsyncio.Model.Scheduling
Purpose: Which operations of the loop put work on a run queue, and when: the
  completions of `Future` with `_wake` and `_run_callbacks`, `Task.cancel`,
  `call_soon`, `create_task` with `Task._spawn`, `call_at`, and the regions of
  `_wakes.py` that hold some of them back.
Trusted boundary: `threading.Lock` and `Mutex` exclude; the loop is not closed;
  the inner race of `event.set()` with `add_waker` is that of
  `MtAsyncio.Model.Futures`, here a task parks in one step
Main exports: Item, Queued, Wake, Op, State, Act, threadStep, operate, step,
  machine
-/
import Mathlib.Logic.Function.Basic
import MtAsyncio.Lib.Machine
import MtAsyncio.Model.Tasks
import MtAsyncio.Model.Wakes

namespace MtAsyncio.Scheduling

open Lib (Machine)
open Tasks (Ref)
open Wakes (Region)

/-!
Threads are drawn from `T`, plain futures from `F`, tasks (which are futures
too) from `W` and handles of callbacks from `G`.  Work carries its origin: the
thread and the number of the outermost region in which the operation was made
that made it runnable, `none` for an operation outside of a region.  Nothing in
the program reads origins.
-/

/-- A unit of work on a run queue. -/
inductive Item (W G : Type) where
  /-- a step of a task -/
  | task (w : W)
  /-- `Handle._run` -/
  | callback (h : G)
  /-- the coroutine `_timer` of `call_at` -/
  | timer (h : G)
deriving DecidableEq

structure Queued (T W G : Type) where
  item : Item W G
  origin : Option (T × Nat)
deriving DecidableEq

/-- What a region collects. -/
inductive Wake (F W G : Type) where
  | set (r : Ref W F)
  | soon (h : G)
deriving DecidableEq

/-- Where a thread goes on after `event.set()`. -/
inductive After (F W G : Type) where
  | callbacks (rest : List G)
  | flush (rest : List (Wake F W G)) (region : Nat)
deriving DecidableEq

inductive Pc (F W G : Type) where
  | idle
  /-- `Task.cancel` of `w`; `outer` is the task waiting for `w` whose `cancel`
  made this call -/
  | cancel (w : W) (outer : Option W)
  /-- a completing call, before it takes the lock of the future; `asker` is the
  task whose `cancel` made this call -/
  | complete (r : Ref W F) (asker : Option W)
  | wake (r : Ref W F) (callbacks : List G)
  /-- `event.set()` wakes the watchers -/
  | notify (r : Ref W F) (after : After F W G)
  | runCallbacks (rest : List G)
  /-- the loop of `__exit__` of region `region` -/
  | flush (rest : List (Wake F W G)) (region : Nat)
deriving DecidableEq

/-- `entered t` counts the outermost regions that `t` has entered. -/
structure State (T F W G : Type) where
  done : Ref W F → Bool
  flag : Ref W F → Bool
  watchers : Ref W F → List W
  callbacks : Ref W F → List G
  futWaiter : W → Option (Ref W F)
  mustCancel : W → Bool
  timers : List (G × Option (T × Nat))
  queue : List (Queued T W G)
  region : T → Region (Wake F W G)
  entered : T → Nat
  pc : T → Pc F W G

/-- The operations of the loop and of its futures. -/
inductive Op (F W G : Type) where
  /-- `set_result`, `set_exception` or `cancel` of a future, or the end of a
  task -/
  | complete (r : Ref W F)
  | cancelTask (w : W)
  | addDoneCallback (r : Ref W F) (h : G)
  | callSoon (h : G)
  | createTask (w : W)
  /-- `call_at` and `call_later`; `due` when the deadline is reached already -/
  | callAt (h : G) (due : Bool)
  | enter
  | exit
deriving DecidableEq

inductive Act (T F W G : Type) where
  /-- `t` makes an operation -/
  | op (t : T) (o : Op F W G)
  /-- the next step of the call `t` is inside of -/
  | thread (t : T)
  /-- a task suspends on a future whose event is not set -/
  | park (w : W) (r : Ref W F)
  /-- a worker takes work off a run queue -/
  | run (q : Queued T W G)
  /-- a timer is due: `_timer` goes on to `h._run()` -/
  | fire (timer : G × Option (T × Nat))
deriving DecidableEq

variable {T F W G : Type} [DecidableEq T] [DecidableEq F] [DecidableEq W] [DecidableEq G]

namespace State

def goto (s : State T F W G) (t : T) (pc : Pc F W G) : State T F W G :=
  { s with pc := Function.update s.pc t pc }

/-- The region an operation of `t` is made in. -/
def origin (s : State T F W G) (t : T) : Option (T × Nat) :=
  if (s.region t).wakesNow then none else some (t, s.entered t)

def push (s : State T F W G) (item : Item W G) (origin : Option (T × Nat)) : State T F W G :=
  { s with queue := s.queue ++ [⟨item, origin⟩] }

def append (s : State T F W G) (t : T) (wake : Wake F W G) : State T F W G :=
  { s with region := Function.update s.region t ((s.region t).append wake) }

/-- `call_soon` -/
def callSoon (s : State T F W G) (t : T) (h : G) : State T F W G :=
  if (s.region t).wakesNow then s.push (.callback h) none else s.append t (.soon h)

/-- `_must_cancel` of the task, if there is one, is set. -/
def ask (s : State T F W G) : Option W → State T F W G
  | some w => { s with mustCancel := Function.update s.mustCancel w true }
  | none => s

end State

def After.pc : After F W G → Pc F W G
  | .callbacks rest => .runCallbacks rest
  | .flush rest region => .flush rest region

/-- The origin of the tasks that `event.set()` wakes. -/
def After.origin (t : T) : After F W G → Option (T × Nat)
  | .callbacks _ => none
  | .flush _ region => some (t, region)

/-- `event.set()`: only the one that flips the flag wakes the watchers. -/
def set (s : State T F W G) (t : T) (r : Ref W F) (after : After F W G) : State T F W G :=
  if s.flag r then s.goto t after.pc
  else { s with flag := Function.update s.flag r true }.goto t (.notify r after)

/-- One atomic step of a thread inside of a call or of a region's exit. -/
def threadStep (s : State T F W G) (t : T) : Option (State T F W G) :=
  match s.pc t with
  | .idle => none
  | .cancel w outer =>
      some (if s.done (.task w) then (s.ask outer).goto t .idle
        else match s.futWaiter w with
          | none => (s.ask (some w)).goto t .idle
          | some (.fut f) => s.goto t (.complete (.fut f) (some w))
          | some (.task u) => s.goto t (.cancel u (some w)))
  | .complete r asker =>
      -- `Task.cancel` of a completed future leaves the request for the next await
      some (if s.done r then (s.ask asker).goto t .idle
        else { s with
          done := Function.update s.done r true
          callbacks := Function.update s.callbacks r [] }.goto t (.wake r (s.callbacks r)))
  | .wake r callbacks =>
      some (if (s.region t).wakesNow then set s t r (.callbacks callbacks)
        else (s.append t (.set r)).goto t (.runCallbacks callbacks))
  | .notify r after =>
      match s.watchers r with
      | [] => some (s.goto t after.pc)
      | w :: rest =>
          some ({ s with
            watchers := Function.update s.watchers r rest
            futWaiter := Function.update s.futWaiter w none }.push (.task w) (after.origin t))
  | .runCallbacks [] => some (s.goto t .idle)
  | .runCallbacks (h :: rest) => some ((s.callSoon t h).goto t (.runCallbacks rest))
  | .flush [] _ => some (s.goto t .idle)
  | .flush (.set r :: rest) region => some (set s t r (.flush rest region))
  | .flush (.soon h :: rest) region =>
      some ((s.push (.callback h) (some (t, region))).goto t (.flush rest region))

/-- The first step of an operation. -/
def operate (s : State T F W G) (t : T) : Op F W G → Option (State T F W G)
  | .complete r => some (s.goto t (.complete r none))
  | .cancelTask w => some (s.goto t (.cancel w none))
  | .addDoneCallback r h =>
      some (if s.done r then s.callSoon t h
        else { s with callbacks := Function.update s.callbacks r (s.callbacks r ++ [h]) })
  | .callSoon h => some (s.callSoon t h)
  -- `_spawn_coro` is called without a look at `pending_wakes()`
  | .createTask w => some (s.push (.task w) (s.origin t))
  | .callAt h due => some (s.push (.timer h) (if due then s.origin t else none))
  | .enter =>
      some { s with
        region := Function.update s.region t (s.region t).enter
        entered := Function.update s.entered t
          (if (s.region t).wakesNow then s.entered t + 1 else s.entered t) }
  | .exit =>
      (s.region t).exit.map fun left =>
        { s with region := Function.update s.region t left.1 }.goto t (.flush left.2 (s.entered t))

def step (s : State T F W G) : Act T F W G → Option (State T F W G)
  | .op t o => if s.pc t = .idle then operate s t o else none
  | .thread t => threadStep s t
  | .park w r =>
      if s.flag r ∨ s.futWaiter w ≠ none then none
      else some { s with
        watchers := Function.update s.watchers r (s.watchers r ++ [w])
        futWaiter := Function.update s.futWaiter w (some r) }
  | .run q =>
      if q ∈ s.queue then
        some { s with
          queue := s.queue.erase q
          timers := match q.item with
            | .timer h => (h, q.origin) :: s.timers
            | _ => s.timers }
      else none
  | .fire timer =>
      if timer ∈ s.timers then
        some ({ s with timers := s.timers.erase timer }.push (.callback timer.1) timer.2)
      else none

def fresh : State T F W G where
  done := fun _ => false
  flag := fun _ => false
  watchers := fun _ => []
  callbacks := fun _ => []
  futWaiter := fun _ => none
  mustCancel := fun _ => false
  timers := []
  queue := []
  region := fun _ => .outside
  entered := fun _ => 0
  pc := fun _ => .idle

def machine (T F W G : Type) [DecidableEq T] [DecidableEq F] [DecidableEq W] [DecidableEq G] :
    Machine (State T F W G) (Act T F W G) where
  start s := s = fresh
  step := step

end MtAsyncio.Scheduling
