/-
Module: MtAsyncio.Model.Executor
Purpose: `run_in_executor` of `_loop.py` with the default executor: `_MtAsyncioExecutor.submit`
  and its `_drain`, `_wrap_concurrent_future` with its `_on_done`, and under them
  `BlockingTask::run` and `ResultHolder` on the threads of the blocking pool.
Trusted boundary: as in `MtAsyncio.Model.BlockingPool`; a coroutine that awaits an event is
  resumed once that is set (`MtAsyncio.Model.Events`); `set_result`, `set_exception` and
  `add_done_callback` of a `concurrent.futures.Future` take its condition for the change of
  its state, and run the callbacks outside of it
Main exports: Obj, Settled, Afut, Body, CallerPc, DrainPc, Call, State, Act, step, machine
-/
import MtAsyncio.Model.BlockingPool

namespace MtAsyncio.Executor

open Lib (Machine)

/-- What a cell of a `ResultHolder` holds. -/
inductive Obj (O : Type) where
  | none
  | bool (b : Bool)
  | other (o : O)
deriving DecidableEq

/-- What completes a future; `cancelledError` is `_MtAsyncioCancelled()`. -/
inductive Settled (O : Type) where
  | result (v : Obj O)
  | exception (e : Obj O)
  | cancelledError
deriving DecidableEq

/-- The future that the caller of `run_in_executor` awaits. -/
inductive Afut (O : Type) where
  | pending
  | settled (x : Settled O)
  | cancelled
deriving DecidableEq

/-- `afut.done()` -/
def Afut.done {O : Type} : Afut O → Bool
  | .pending => false
  | _ => true

/-- Where a thread of the pool stands in `BlockingTask::run`. -/
inductive Body (O : Type) where
  /-- the function has not returned -/
  | call
  /-- `result.store(.., Some(0))` -/
  | storeFlag (raised : Bool) (v : Obj O)
  /-- `result.store(.., Some(1))` -/
  | storeValue (v : Obj O)
  /-- `event.set` -/
  | set_
deriving DecidableEq

/-- Where a call of `run_in_executor` stands. -/
inductive CallerPc where
  | outside
  /-- in `_spawn_blocking` -/
  | submits
  /-- `_spawn_coro(_drain())` -/
  | spawns
  /-- `cfut.add_done_callback(_on_done)` -/
  | attaches
  /-- `_on_done`, which `add_done_callback` calls for a future that is done -/
  | onDone
  | returned
deriving DecidableEq

/-- Where the coroutine `_drain` of a call stands. -/
inductive DrainPc (O : Type) where
  | absent
  | queued
  /-- `await event.waiter(None)` -/
  | waits
  /-- `err, val = res.fetch()` -/
  | fetched (err val : Obj O)
  /-- the callbacks of `cfut` -/
  | callbacks
  | finished
deriving DecidableEq

structure Call (O : Type) where
  caller : CallerPc
  holder : Obj O × Obj O
  event : Bool
  drain : DrainPc O
  -- nothing while `cfut` is running
  cfut : Option (Settled O)
  -- `_on_done` is among the callbacks of `cfut`
  callback : Bool
  -- `afut.set_result` and `afut.set_exception` on the queue of the loop
  handles : List (Settled O)
  afut : Afut O
  -- histories: it was given to the pool, how often its function was called, what that
  -- returned or raised, how often the loop was told
  handed : Bool
  runs : Nat
  answer : Option (Settled O)
  fired : Nat
deriving DecidableEq

/-- A call of the function that has not begun. -/
def Call.new (O : Type) : Call O where
  caller := .outside
  holder := (.none, .none)
  event := false
  drain := .absent
  cfut := none
  callback := false
  handles := []
  afut := .pending
  handed := false
  runs := 0
  answer := none
  fired := 0

/-- `C` are the calls; a thread in `BlockingRunnerPool::run` is named by the call it makes. -/
structure State (C W O : Type) where
  pool : BlockingPool.State C C W
  body : W → Body O
  call : C → Call O
  closed : Bool

inductive Act (C W O : Type) where
  | submit (c : C)
  /-- `_spawn_blocking` raises `e` -/
  | refuse (c : C) (e : Obj O)
  /-- a step of the pool besides the tasks it runs -/
  | pool (a : BlockingPool.Act C C W)
  | spawn (c : C)
  | attach (c : C)
  | onDone (c : C)
  /-- the function of `c` returns or raises -/
  | calls (w : W) (c : C) (raised : Bool) (v : Obj O)
  /-- the next step of `BlockingTask::run` behind it -/
  | runs (w : W) (c : C)
  | drain (c : C)
  /-- a worker takes the handle of `c` from the queue -/
  | handle (c : C)
  /-- `afut.cancel()` -/
  | cancel (c : C)
  | close

variable {C W O : Type}

/-- What the function came to. -/
def outcome (raised : Bool) (v : Obj O) : Settled O :=
  if raised then .exception v else .result v

/-- `cfut.set_exception(..)` and `cfut.set_result(..)` of `_drain` -/
def Call.settle (k : Call O) (err val : Obj O) : Call O :=
  match k.cfut with
  -- `InvalidStateError`
  | some _ => { k with drain := .finished }
  | none =>
      { k with
        drain := .callbacks
        cfut := some (match err with
          | .bool true => .exception val
          | .bool false => .result val
          | _ => .cancelledError) }

/-- `_on_done`; `call_soon` raises on a closed loop. -/
def Call.onDone (k : Call O) (closed : Bool) : Call O :=
  match k.cfut with
  | some x =>
      if closed then k else { k with handles := k.handles ++ [x], fired := k.fired + 1 }
  | none => k

/-- `Handle._run` of `afut.set_result` or `afut.set_exception`: what they raise is printed. -/
def Afut.told (stops : Obj O → Bool) (f : Afut O) (x : Settled O) : Afut O :=
  match f, x with
  -- `StopIteration cannot be raised into a Future`
  | .pending, .exception e => if stops e then .pending else .settled x
  | .pending, _ => .settled x
  -- `InvalidStateError`
  | _, _ => f

/-- The next step of `_drain`. -/
def Call.drainStep (k : Call O) (closed : Bool) : Option (Call O) :=
  match k.drain with
  | .absent | .finished => none
  | .queued => some { k with drain := .waits }
  | .waits => if k.event then some { k with drain := .fetched k.holder.1 k.holder.2 } else none
  | .fetched err val => some (k.settle err val)
  | .callbacks =>
      some (if k.callback then { k.onDone closed with drain := .finished }
        else { k with drain := .finished })

variable [DecidableEq C] [DecidableEq W]

def State.setCall (s : State C W O) (c : C) (k : Call O) : State C W O :=
  { s with call := Function.update s.call c k }

def State.setBody (s : State C W O) (w : W) (b : Body O) : State C W O :=
  { s with body := Function.update s.body w b }

/-- The task that a thread of the pool runs. -/
def running : BlockingPool.WorkerPc C → Option C
  | .run c => some c
  | _ => none

/-- A step of the pool that neither hands a task in nor ends one. -/
def poolStep (tmax : Nat) (s : State C W O) : BlockingPool.Act C C W → Option (State C W O)
  | .run _ _ => none
  | .call r w =>
      (BlockingPool.step tmax s.pool (.call r w)).map fun pool => { s with pool := pool }
  | .worker w =>
      match running (s.pool.worker w) with
      | some _ => none
      | none => (BlockingPool.step tmax s.pool (.worker w)).map fun pool => { s with pool := pool }

/-- The next step of `BlockingTask::run` of `c` on `w`. -/
def runsStep (tmax : Nat) (s : State C W O) (w : W) (c : C) : Option (State C W O) :=
  match s.body w with
  | .call => none
  | .storeFlag raised v =>
      some ((s.setCall c { s.call c with holder := (.bool raised, (s.call c).holder.2) }).setBody w
        (.storeValue v))
  | .storeValue v =>
      some ((s.setCall c { s.call c with holder := ((s.call c).holder.1, v) }).setBody w .set_)
  -- the thread goes back to its loop
  | .set_ =>
      (BlockingPool.step tmax s.pool (.worker w)).map fun pool =>
        { s.setCall c { s.call c with event := true } with pool := pool }.setBody w .call

def step (tmax : Nat) (stops : Obj O → Bool) (s : State C W O) :
    Act C W O → Option (State C W O)
  | .submit c =>
      if (s.call c).caller = .outside ∧ s.closed = false then
        (BlockingPool.step tmax s.pool (.run c c)).map fun pool =>
          { s with pool := pool }.setCall c
            { s.call c with caller := .submits, handed := true }
      else none
  | .refuse c e =>
      if (s.call c).caller = .outside ∧ s.closed = false then
        some (s.setCall c
          { s.call c with
            caller := .attaches
            cfut := some (.exception e)
            answer := some (.exception e) })
      else none
  | .pool a => poolStep tmax s a
  | .spawn c =>
      if (s.call c).caller = .submits ∧ s.pool.call c = .idle then
        some (s.setCall c { s.call c with caller := .spawns })
      else if (s.call c).caller = .spawns then
        some (s.setCall c { s.call c with caller := .attaches, drain := .queued })
      else none
  | .attach c =>
      if (s.call c).caller = .attaches then
        some (s.setCall c (match (s.call c).cfut with
          | none => { s.call c with caller := .returned, callback := true }
          | some _ => { s.call c with caller := .onDone }))
      else none
  | .onDone c =>
      if (s.call c).caller = .onDone then
        some (s.setCall c { (s.call c).onDone s.closed with caller := .returned })
      else none
  | .calls w c raised v =>
      match s.body w with
      | .call =>
          if running (s.pool.worker w) = some c then
            some ((s.setCall c
              { s.call c with
                runs := (s.call c).runs + 1
                answer := some (outcome raised v) }).setBody w (.storeFlag raised v))
          else none
      | _ => none
  | .runs w c => if running (s.pool.worker w) = some c then runsStep tmax s w c else none
  | .drain c => ((s.call c).drainStep s.closed).map (s.setCall c)
  | .handle c =>
      match (s.call c).handles with
      | [] => none
      | x :: rest =>
          some (s.setCall c
            { s.call c with handles := rest, afut := (s.call c).afut.told stops x })
  | .cancel c =>
      if (s.call c).caller = .returned ∧ (s.call c).afut.done = false then
        some (s.setCall c { s.call c with afut := .cancelled })
      else none
  | .close => some { s with closed := true }

/-- An open loop over a new pool, and no call. -/
def Start (s : State C W O) : Prop :=
  BlockingPool.Start s.pool ∧ (∀ w, s.body w = .call) ∧ (∀ c, s.call c = .new O) ∧
    s.closed = false

def machine (tmax : Nat) (stops : Obj O → Bool) (C W : Type) [DecidableEq C] [DecidableEq W] :
    Machine (State C W O) (Act C W O) where
  start := Start
  step := step tmax stops

end MtAsyncio.Executor
