/-
Module: MtAsyncio.Model.TaskClaims
Purpose: The two records of a connection claim, `Task._mt_claims` and
  `SocketTransport._claims`: `_mt_claim` on behalf of the task that the context names,
  which need not be the task that runs it, and the suspension points and the end of a
  task, which hand the claims back.
Trusted boundary: a section under `_claim_lock`, a test or a write of one field and an
  operation on a list or a set is one step; a task that is suspended may be resumed at
  any time; an await of a future that is done, and a callback whose context names no
  task, do nothing here
Main exports: How, TaskPc, Caller, CallPc, State, Act, callStep, taskStep, step, machine
-/
import Mathlib.Logic.Function.Basic
import MtAsyncio.Lib.Machine

namespace MtAsyncio.TaskClaims

open Lib (Machine)

/-!
Tasks are drawn from `T`, transports from `A`, and the callbacks that run with a copy of
a task's context from `F`.  A list of claims is an object, which whoever has read
`_mt_claims` goes on to use: lists are numbered in the order in which they are made.
-/

/-- Where a task hands its claims back. -/
inductive How where
  /-- `Future.__await__` -/
  | await
  /-- `_yield_now` -/
  | yield
  /-- the end of `_runner` -/
  | finish
deriving DecidableEq

/-- Where a task stands. -/
inductive TaskPc (A : Type) where
  | running
  /-- `__await__`, in front of the section under `task._lock` -/
  | arming
  /-- in front of `if task is not None and task._mt_claims is not None` -/
  | testing (how : How)
  /-- the coroutine has ended; in front of the outcome -/
  | ending
  /-- `_mt_release_claims`, in front of its read of `_mt_claims` -/
  | taking (how : How)
  /-- in front of `self._mt_claims = None`, with what it has read -/
  | clearing (how : How) (list : Option Nat)
  /-- the loop over the list, in front of the entry `i` -/
  | handing (how : How) (list i : Nat)
  /-- `_mt_release_claim` of `a` has found a deferred read -/
  | requeueing (how : How) (list i : Nat) (a : A)
  | suspended
  /-- resumed, in front of `task._fut_waiter = None` -/
  | waking
  | ended
deriving DecidableEq

/-- Who calls `_mt_claim`: the task itself, or a callback. -/
inductive Caller (T F : Type) where
  | own (t : T)
  | callback (f : F)
deriving DecidableEq

/-- Where a call of `_mt_claim` of the transport `a` stands, for the task `t`. -/
inductive CallPc (T A : Type) where
  | idle
  /-- in front of `if pending_wakes() is not None` -/
  | pendingWakes (t : T) (a : A)
  /-- in front of `task.done()` -/
  | testDone (t : T) (a : A)
  /-- in front of `task._fut_waiter is not None` -/
  | testWaiter (t : T) (a : A)
  /-- in front of `claims = task._mt_claims` -/
  | read (t : T) (a : A)
  /-- in front of `elif self in claims` -/
  | member (t : T) (a : A) (list : Nat)
  /-- in front of `claims.append(self)` -/
  | append (t : T) (a : A) (list : Nat)
  /-- in front of `task._mt_claims = [self]` -/
  | write (t : T) (a : A)
  /-- in front of the section under `_claim_lock` -/
  | add (t : T) (a : A)
deriving DecidableEq

structure State (T A F : Type) where
  task : T → TaskPc A
  done : T → Bool
  futWaiter : T → Bool
  mtClaims : T → Option Nat
  lists : Nat → List A
  /-- how many lists have been made -/
  made : Nat
  claims : A → List T
  readDeferred : A → Bool
  closing : A → Bool
  queued : A → Nat
  call : Caller T F → CallPc T A

inductive Act (T A F : Type) where
  /-- a task writes to a transport -/
  | write (t : T) (a : A)
  /-- a callback whose context names `t` writes to a transport -/
  | callback (f : F) (t : T) (a : A)
  /-- the test of `pending_wakes()` -/
  | wakes (c : Caller T F) (inside : Bool)
  /-- the next step of a call -/
  | call (c : Caller T F)
  | await (t : T)
  /-- the future is armed -/
  | arm (t : T)
  /-- a cancellation is pending, and is raised -/
  | raise_ (t : T)
  | yield (t : T)
  | finish (t : T)
  /-- the next step of a task on its way to a suspension or to its end, or back -/
  | task (t : T)
  | resume (t : T)
  /-- `_read_ready` stands aside -/
  | standAside (a : A)
  | close (a : A)
deriving DecidableEq

variable {T A F : Type} [DecidableEq T] [DecidableEq A] [DecidableEq F]

namespace State

def setTask (s : State T A F) (t : T) (pc : TaskPc A) : State T A F :=
  { s with task := Function.update s.task t pc }

def setCall (s : State T A F) (c : Caller T F) (pc : CallPc T A) : State T A F :=
  { s with call := Function.update s.call c pc }

/-- The task runs its own code, between two calls. -/
def free (s : State T A F) (t : T) : Bool :=
  s.task t = .running && s.call (.own t) = .idle

end State

/-- The next step of `_mt_claim`, after the test of `pending_wakes()`. -/
def callStep (s : State T A F) (c : Caller T F) : Option (State T A F) :=
  match s.call c with
  | .idle | .pendingWakes _ _ => none
  | .testDone t a => some (s.setCall c (if s.done t then .idle else .testWaiter t a))
  | .testWaiter t a => some (s.setCall c (if s.futWaiter t then .idle else .read t a))
  | .read t a =>
      some (s.setCall c (match s.mtClaims t with
        | none => .write t a
        | some list => .member t a list))
  | .member t a list =>
      some (s.setCall c (if a ∈ s.lists list then .idle else .append t a list))
  | .append t a list =>
      some ({ s with lists := Function.update s.lists list (s.lists list ++ [a]) }.setCall c
        (.add t a))
  | .write t a =>
      some ({ s with
        mtClaims := Function.update s.mtClaims t (some s.made)
        lists := Function.update s.lists s.made [a]
        made := s.made + 1 }.setCall c (.add t a))
  | .add t a =>
      some ({ s with
        claims := Function.update s.claims a
          (if t ∈ s.claims a then s.claims a else t :: s.claims a) }.setCall c .idle)

/-- What follows when the claims are handed back. -/
def How.after : How → TaskPc A
  | .await | .yield => .suspended
  | .finish => .ended

/-- The locked section of `_mt_release_claim`. -/
def mtReleaseClaim (s : State T A F) (t : T) (how : How) (list i : Nat) (a : A) : State T A F :=
  let left := (s.claims a).filter (· ≠ t)
  if left = [] ∧ s.readDeferred a then
    { s with
      claims := Function.update s.claims a left
      readDeferred := Function.update s.readDeferred a false }.setTask t
        (.requeueing how list i a)
  else { s with claims := Function.update s.claims a left }.setTask t (.handing how list (i + 1))

def taskStep (s : State T A F) (t : T) : Option (State T A F) :=
  match s.task t with
  | .running | .arming | .suspended | .ended => none
  | .testing how => some (s.setTask t (if s.mtClaims t = none then how.after else .taking how))
  | .ending => some ({ s with done := Function.update s.done t true }.setTask t (.taking .finish))
  | .taking how => some (s.setTask t (.clearing how (s.mtClaims t)))
  | .clearing how list =>
      some ({ s with mtClaims := Function.update s.mtClaims t none }.setTask t (match list with
        | none => how.after
        | some list => .handing how list 0))
  | .handing how list i =>
      match (s.lists list)[i]? with
      | none => some (s.setTask t how.after)
      | some a => some (mtReleaseClaim s t how list i a)
  | .requeueing how list i a =>
      some ({ s with
        queued := Function.update s.queued a
          (if s.closing a then s.queued a else s.queued a + 1) }.setTask t
            (.handing how list (i + 1)))
  | .waking =>
      some ({ s with futWaiter := Function.update s.futWaiter t false }.setTask t .running)

def step (s : State T A F) : Act T A F → Option (State T A F)
  | .write t a => if s.free t then some (s.setCall (.own t) (.pendingWakes t a)) else none
  | .callback f t a =>
      if s.call (.callback f) = .idle then some (s.setCall (.callback f) (.pendingWakes t a))
      else none
  | .wakes c inside =>
      match s.call c with
      | .pendingWakes t a => some (s.setCall c (if inside then .idle else .testDone t a))
      | _ => none
  | .call c => callStep s c
  | .await t => if s.free t then some (s.setTask t .arming) else none
  | .arm t =>
      if s.task t = .arming then
        some ({ s with futWaiter := Function.update s.futWaiter t true }.setTask t
          (.testing .await))
      else none
  | .raise_ t => if s.task t = .arming then some (s.setTask t .running) else none
  | .yield t => if s.free t then some (s.setTask t (.testing .yield)) else none
  | .finish t => if s.free t then some (s.setTask t .ending) else none
  | .task t => taskStep s t
  | .resume t =>
      if s.task t = .suspended then
        some (s.setTask t (if s.futWaiter t then .waking else .running))
      else none
  | .standAside a =>
      if s.claims a = [] then none
      else some { s with readDeferred := Function.update s.readDeferred a true }
  | .close a => some { s with closing := Function.update s.closing a true }

/-- Nothing is claimed, and every task runs. -/
def fresh (T A F : Type) : State T A F where
  task := fun _ => .running
  done := fun _ => false
  futWaiter := fun _ => false
  mtClaims := fun _ => none
  lists := fun _ => []
  made := 0
  claims := fun _ => []
  readDeferred := fun _ => false
  closing := fun _ => false
  queued := fun _ => 0
  call := fun _ => .idle

def machine (T A F : Type) [DecidableEq T] [DecidableEq A] [DecidableEq F] :
    Machine (State T A F) (Act T A F) where
  start s := s = fresh T A F
  step := step

end MtAsyncio.TaskClaims
