/-
Module: MtAsyncio.Model.Transports
Purpose: The claims of a `SocketTransport` of `_transports.py`: `_mt_claim`,
  the locked write, the release at a suspension or at the end of a task, and
  `_read_ready`, whose claim test and connection lock are two critical sections.
Trusted boundary: a section under `_claim_lock` is one step; the writing tasks
  run their own code, so that `_mt_claim` finds the task that runs it neither
  done nor parked; times are in microseconds
Main exports: TaskPc, ReadPc, Received, State, Act, readReady, mtReleaseClaim,
  machine
-/
import Mathlib.Logic.Function.Basic
import MtAsyncio.Lib.Machine

namespace MtAsyncio.Transports

open Lib (Machine)

/-- `_MAX_READ_DEFER` -/
def maxReadDefer : Nat := 50000

/-- Where a task stands. -/
inductive TaskPc where
  /-- in its own code, between two calls -/
  | running
  /-- `_mt_claim`, before it takes `_claim_lock` -/
  | claiming
  /-- `write`, `writelines` or `write_eof`, before it takes the connection lock -/
  | locking
  | writing
  /-- `_mt_release_claim`, before it takes `_claim_lock` -/
  | releasing (finished : Bool)
  /-- a read was deferred: about to `call_soon(self._read_ready)` -/
  | requeueing (finished : Bool)
  | suspended
  | finished
deriving DecidableEq

/-- Where a worker stands in `_read_ready`. -/
inductive ReadPc where
  | idle
  /-- before it takes `_claim_lock` -/
  | testing
  /-- past the test, before it takes the connection lock -/
  | locking
  /-- inside of the lock, about to read the socket -/
  | reading
  /-- inside of `data_received` or `eof_received` -/
  | calling
deriving DecidableEq

/-- What reading the socket gives: only data and the end of the stream reach the
protocol. -/
inductive Received where
  | nothing
  | data
  | eof
deriving DecidableEq

/-- `claims` is `_claims`; `mtClaims` says that the transport is in the task's
`_mt_claims`; `queued` counts the `_read_ready` that `call_soon` has queued. -/
structure State (T R : Type) where
  claims : List T
  mtClaims : T → Bool
  readDeferred : Bool
  readDeferSince : Option Nat
  lock : Option (T ⊕ R)
  closing : Bool
  queued : Nat
  now : Nat
  task : T → TaskPc
  reader : R → ReadPc

inductive Act (T R : Type) where
  /-- a task calls `write`, `writelines` or `write_eof` -/
  | write (t : T)
  /-- a task gets to a suspension point -/
  | suspend (t : T)
  /-- a task ends -/
  | finish (t : T)
  | resume (t : T)
  /-- the next step of a task that is inside of a call -/
  | task (t : T)
  /-- the reactor calls `_read_ready` -/
  | dispatch (r : R)
  /-- a worker runs a queued `_read_ready` -/
  | runQueued (r : R)
  /-- the claim test, at a time of the monotonic clock -/
  | test (r : R) (now : Nat)
  | lock (r : R)
  | receive (r : R) (got : Received)
  /-- the protocol's callback returns -/
  | return_ (r : R)
  | close
deriving DecidableEq

variable {T R : Type} [DecidableEq T] [DecidableEq R]

namespace State

def setTask (s : State T R) (t : T) (pc : TaskPc) : State T R :=
  { s with task := Function.update s.task t pc }

def setReader (s : State T R) (r : R) (pc : ReadPc) : State T R :=
  { s with reader := Function.update s.reader r pc }

end State

/-- `write` up to `_claim_lock`: a task that holds the claim already goes on. -/
def mtClaim (s : State T R) (t : T) : State T R :=
  if s.mtClaims t then s.setTask t .locking
  else { s with mtClaims := Function.update s.mtClaims t true }.setTask t .claiming

/-- `_mt_release_claims` takes the claims from the task before it hands them
back. -/
def mtReleaseClaims (s : State T R) (t : T) (finished : Bool) : State T R :=
  if s.mtClaims t then
    { s with mtClaims := Function.update s.mtClaims t false }.setTask t (.releasing finished)
  else s.setTask t (if finished then .finished else .suspended)

/-- The locked section of `_mt_release_claim`. -/
def mtReleaseClaim (s : State T R) (t : T) (finished : Bool) : State T R :=
  let claims := s.claims.filter (· ≠ t)
  if claims = [] ∧ s.readDeferred then
    { s with claims := claims, readDeferred := false }.setTask t (.requeueing finished)
  else
    { s with claims := claims }.setTask t (if finished then .finished else .suspended)

def taskStep (s : State T R) (t : T) : Option (State T R) :=
  match s.task t with
  | .running | .suspended | .finished => none
  | .claiming =>
      some ({ s with claims := if t ∈ s.claims then s.claims else t :: s.claims }.setTask t
        .locking)
  | .locking =>
      if s.lock.isSome then none
      else some ({ s with lock := some (.inl t) }.setTask t .writing)
  | .writing => some ({ s with lock := none }.setTask t .running)
  | .releasing finished => some (mtReleaseClaim s t finished)
  | .requeueing finished =>
      some ({ s with queued := if s.closing then s.queued else s.queued + 1 }.setTask t
        (if finished then .finished else .suspended))

/-- The locked section of `_read_ready`: with a claim in place it stands aside,
unless it has been deferred for too long. -/
def readReady (s : State T R) (r : R) (now : Nat) : State T R :=
  let since := s.readDeferSince.getD now
  if s.claims ≠ [] ∧ now - since < maxReadDefer then
    { s with now := now, readDeferSince := some since, readDeferred := true }.setReader r .idle
  else
    { s with now := now, readDeferSince := none, readDeferred := false }.setReader r .locking

def step (s : State T R) : Act T R → Option (State T R)
  | .write t =>
      match s.task t with
      | .running => some (mtClaim s t)
      | _ => none
  | .suspend t =>
      match s.task t with
      | .running => some (mtReleaseClaims s t false)
      | _ => none
  | .finish t =>
      match s.task t with
      | .running => some (mtReleaseClaims s t true)
      | _ => none
  | .resume t =>
      match s.task t with
      | .suspended => some (s.setTask t .running)
      | _ => none
  | .task t => taskStep s t
  | .dispatch r =>
      match s.reader r with
      | .idle => some (s.setReader r .testing)
      | _ => none
  | .runQueued r =>
      match s.reader r with
      | .idle =>
          if s.queued = 0 then none
          else some ({ s with queued := s.queued - 1 }.setReader r .testing)
      | _ => none
  | .test r now =>
      match s.reader r with
      | .testing => if now < s.now then none else some (readReady s r now)
      | _ => none
  | .lock r =>
      match s.reader r with
      | .locking =>
          if s.lock.isSome then none
          else some ({ s with lock := some (.inr r) }.setReader r .reading)
      | _ => none
  | .receive r got =>
      match s.reader r with
      | .reading =>
          match got with
          | .nothing => some ({ s with lock := none }.setReader r .idle)
          | .data | .eof => some (s.setReader r .calling)
      | _ => none
  | .return_ r =>
      match s.reader r with
      | .calling => some ({ s with lock := none }.setReader r .idle)
      | _ => none
  | .close => some { s with closing := true }

/-- Nothing is claimed, no read is under way, and every task runs. -/
def fresh : State T R where
  claims := []
  mtClaims := fun _ => false
  readDeferred := false
  readDeferSince := none
  lock := none
  closing := false
  queued := 0
  now := 0
  task := fun _ => .running
  reader := fun _ => .idle

def machine (T R : Type) [DecidableEq T] [DecidableEq R] : Machine (State T R) (Act T R) where
  start s := s = fresh
  step := step

end MtAsyncio.Transports
