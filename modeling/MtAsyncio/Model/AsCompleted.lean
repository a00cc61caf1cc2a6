/-
Module: MtAsyncio.Model.AsCompleted
Purpose: `as_completed` of `_utils.py` without a timeout: the loop of the generator
  over the set `todo`, the evaluation of the range bound, the yields, and
  `_on_completion` on whatever worker runs it, over the `Queue` that the yielded
  awaitables read from.
Trusted boundary: as for `MtAsyncio.Model.Queue`; an iterator over a set compares
  the size of the set with the one it was made for before it gives out the next
  element; a future schedules each of its callbacks once, when it is done; nobody
  cancels the tasks that await
Main exports: Phase, GenPc, One, State, Act, genStep, onCompletion, step, machine
-/
import MtAsyncio.Model.Queue

namespace MtAsyncio.AsCompleted

open Lib (Machine)
open Tasks
open Waiting

/-!
`futures` lists the elements of `todo` in the order in which the set gives them
out.  Outcomes of futures are drawn from `O`, the tasks that await from `T`, and
the futures that a waiting `get` makes from `W`.
-/

/-- Where `_on_completion` of a future stands. -/
inductive Phase where
  | idle
  | attached
  | scheduled
  /-- `f` was in `todo` -/
  | found
  | discarded
  | ran
deriving DecidableEq

/-- Where the generator stands. -/
inductive GenPc (F : Type) where
  /-- in front of the next element of `todo` -/
  | next (index : Nat)
  /-- `f.add_done_callback(_on_completion)` -/
  | adding (index : Nat) (f : F)
  /-- `range(len(todo))` -/
  | bounding
  | yielding (total : Nat)
  | exhausted
  /-- `RuntimeError('Set changed size during iteration')` -/
  | raised
deriving DecidableEq

/-- Where a `_wait_for_one()` that was yielded stands. -/
inductive One (F O T : Type) where
  | yielded
  | awaited (t : T)
  /-- `f.result()`, which raises `InvalidStateError` if `f` has no outcome -/
  | delivered (f : F) (o : Option O)
deriving DecidableEq

/-- What an awaitable has delivered. -/
def One.delivery {F O T : Type} : One F O T → Option (F × Option O)
  | .delivered f o => some (f, o)
  | .yielded | .awaited _ => none

structure State (F O T W C : Type) where
  status : F → Option O
  phase : F → Phase
  todo : List F
  gen : GenPc F
  done : Queue.State F (List F) T W C
  ones : List (One F O T)

inductive Act (F O T W C : Type) where
  /-- a future is done -/
  | complete (f : F) (o : O)
  /-- the next step of the generator -/
  | gen
  /-- the next step of `_on_completion(f)` -/
  | run (f : F)
  /-- `t` awaits a yielded awaitable; `w` is the future its `get` makes when it has
  to wait -/
  | await (i : Nat) (t : T) (w : W)
  /-- the next step of `t` inside of the await of its `get` -/
  | task (t : T)
  /-- the locked section of a `get` that has waited -/
  | again (i : Nat) (w : W)
  | around (a : Around T W C)

variable {F O T W C : Type} [DecidableEq F] [DecidableEq T] [DecidableEq W] [DecidableEq C]

def State.setPhase (s : State F O T W C) (f : F) (p : Phase) : State F O T W C :=
  { s with phase := Function.update s.phase f p }

/-- What the awaitables have delivered. -/
def State.deliveries (s : State F O T W C) : List (F × Option O) :=
  s.ones.filterMap One.delivery

variable (futures : List F)

/-- One step of the generator. -/
def genStep (s : State F O T W C) : Option (State F O T W C) :=
  match s.gen with
  | .next index =>
      if s.todo.length ≠ futures.length then some { s with gen := .raised }
      else match s.todo[index]? with
        | some f => some { s with gen := .adding index f }
        | none => some { s with gen := .bounding }
  | .adding index f =>
      some { s.setPhase f (if (s.status f).isSome then .scheduled else .attached) with
        gen := .next (index + 1) }
  | .bounding => some { s with gen := .yielding s.todo.length }
  | .yielding total =>
      if s.ones.length < total then some { s with ones := s.ones ++ [.yielded] }
      else some { s with gen := .exhausted }
  | .exhausted | .raised => none

/-- One step of `_on_completion`. -/
def onCompletion (s : State F O T W C) (f : F) : Option (State F O T W C) :=
  match s.phase f with
  | .scheduled => some (s.setPhase f (if f ∈ s.todo then .found else .ran))
  | .found => some { s.setPhase f .discarded with todo := s.todo.erase f }
  | .discarded =>
      some { s.setPhase f .ran with done := (Queue.putNowait (Queue.deque F) 0 s.done f).1 }
  | .idle | .attached | .ran => none

/-- A future is done, and its callback is scheduled. -/
def State.finish (s : State F O T W C) (f : F) (o : O) : State F O T W C :=
  { s.setPhase f (if s.phase f = .attached then .scheduled else s.phase f) with
    status := Function.update s.status f (some o) }

/-- The awaitable behind a locked section of its `get`: either the section has
returned a future, or the task waits.  An outcome never changes, so that it is
read in the same step. -/
def State.resume (s : State F O T W C) (i : Nat) (t : T)
    (done : Queue.State F (List F) T W C) : State F O T W C :=
  { s with
    done := done
    ones := s.ones.set i (match done.returned[s.done.returned.length]? with
      | some f => .delivered f (s.status f)
      | none => .awaited t) }

def queueStep (s : State F O T W C) (a : Queue.Act F T W C) :
    Option (Queue.State F (List F) T W C) :=
  Queue.step (Queue.deque F) 0 s.done a

def step (s : State F O T W C) : Act F O T W C → Option (State F O T W C)
  | .complete f o => if (s.status f).isSome then none else some (s.finish f o)
  | .gen => genStep futures s
  | .run f => onCompletion s f
  | .await i t w =>
      match s.ones[i]? with
      | some .yielded => (queueStep s (.call t .get w)).map (s.resume i t)
      | _ => none
  | .task t => (queueStep s (.task t)).map fun done => { s with done := done }
  | .again i w =>
      match s.ones[i]? with
      | some (.awaited t) => (queueStep s (.again t w)).map (s.resume i t)
      | _ => none
  | .around a =>
      if a.cancels then none
      else (queueStep s (.around a)).map fun done => { s with done := done }

/-- The set was built and the iteration begins; some of the futures may be done. -/
def Start (s : State F O T W C) : Prop :=
  (∀ f, s.phase f = .idle) ∧ s.todo = futures ∧ s.gen = .next 0 ∧
    Queue.Start (Queue.deque F) s.done ∧ s.ones = []

def machine (O T W C : Type) [DecidableEq T] [DecidableEq W] [DecidableEq C] :
    Machine (State F O T W C) (Act F O T W C) where
  start := Start futures
  step := step futures

end MtAsyncio.AsCompleted
