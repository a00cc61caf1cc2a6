/-
Module: MtAsyncio.Model.Semaphore
Purpose: `Semaphore` and `BoundedSemaphore` of `_sync.py`: `acquire` with its
  except clause, which passes a permit on that was granted to a cancelled task,
  and the two `release` methods.
Trusted boundary: as for `MtAsyncio.Model.Waiting`
Main exports: State, Act, acquire, release, step, machine
-/
import MtAsyncio.Model.Waiting

namespace MtAsyncio.Semaphore

open Lib (Machine)
open Tasks
open Waiting

/-- `bound` is `_bound`, of a `BoundedSemaphore` only.  The other fields are
history, which nothing in the program reads: `held` counts the acquires that
returned `True` and were not matched by a `release`, `unmatched` the releases of
the user that match no acquire, `discharged` are the futures whose acquire has
returned or has handed the permit back, `ticket` numbers the futures in the order
of their registration, and `raised` says that a `release` raised. -/
structure State (T F C : Type) where
  waits : Waits Unit Unit T F C
  value : Nat
  bound : Option Nat
  held : Nat
  unmatched : Nat
  discharged : F → Bool
  ticket : F → Nat
  tickets : Nat
  raised : Bool

inductive Act (T F C : Type) where
  | around (a : Around T F C)
  /-- the first locked section of `acquire`; `f` is the future it makes when it
  has to wait -/
  | acquire (t : T) (f : F)
  /-- the user calls `release` -/
  | release
  /-- the next step of `t` inside of `acquire` -/
  | task (t : T)

variable {T F C : Type} [DecidableEq T] [DecidableEq F] [DecidableEq C]

namespace State

def waiters (s : State T F C) : List F :=
  s.waits.waiters ()

def setPlace (s : State T F C) (t : T) (p : Place Unit F) : State T F C :=
  { s with waits := s.waits.setPlace t p }

/-- The acquire of `f` has returned, or has handed its permit back. -/
def discharge (s : State T F C) (f : F) : State T F C :=
  { s with discharged := Function.update s.discharged f true }

end State

/-- The first locked section of `acquire`. -/
def acquire (s : State T F C) (t : T) (f : F) : Option (State T F C) :=
  if 0 < s.value ∧ s.waiters = [] then some { s with value := s.value - 1, held := s.held + 1 }
  else (s.waits.park t () () f).map fun waits =>
    { s with
      waits := waits
      ticket := Function.update s.ticket f s.tickets
      tickets := s.tickets + 1 }

/-- `release`; `none` when the one of `BoundedSemaphore` raises `ValueError`. -/
def release (s : State T F C) : Option (State T F C) :=
  if s.waiters = [] ∧ s.bound.any (· ≤ s.value) = true then none
  else some { s with
    waits := (s.waits.wakeNext ()).1
    value := if (s.waits.wakeNext ()).2 then s.value else s.value + 1 }

/-- The user's `release`: it matches an acquire that returned, if there is one
left. -/
def userRelease (s : State T F C) : State T F C :=
  match release s with
  | none => { s with raised := true }
  | some s' =>
      if s.held = 0 then { s' with unmatched := s.unmatched + 1 }
      else { s' with held := s.held - 1 }

/-- One step of `t` inside of `acquire`. -/
def taskStep (s : State T F C) (t : T) : Option (State T F C) :=
  match s.waits.place t with
  | .away => none
  | .waiting k f pc => (s.waits.await t k f pc).map fun waits => { s with waits := waits }
  | .woken _ f => some (({ s with held := s.held + 1 }.discharge f).setPlace t .away)
  | .caught k f =>
      if f ∈ s.waiters then some { s with waits := s.waits.leave t () f }
      else
        -- granted is `done() and not cancelled()`
        match s.waits.kernel.state (.fut f) with
        | .finished | .failed => some (s.setPlace t (.handing k f))
        | .pending | .cancelled => some (s.setPlace t .away)
  | .handing _ f =>
      match release s with
      | none => some ({ s with raised := true }.setPlace t .away)
      | some s' => some ((s'.discharge f).setPlace t .away)

def step (s : State T F C) : Act T F C → Option (State T F C)
  | .around a => (s.waits.around a).map fun waits => { s with waits := waits }
  | .acquire t f =>
      match s.waits.place t with
      | .away => acquire s t f
      | _ => none
  | .release => some (userRelease s)
  | .task t => taskStep s t

/-- `Semaphore(n)` or `BoundedSemaphore(n)` -/
def Start (n : Nat) (bounded : Bool) (s : State T F C) : Prop :=
  s.waits.Fresh ∧ s.value = n ∧ s.bound = (if bounded then some n else none) ∧ s.held = 0 ∧
    s.unmatched = 0 ∧ (∀ f, s.discharged f = false) ∧ s.tickets = 0 ∧ s.raised = false

def machine (n : Nat) (bounded : Bool) (T F C : Type) [DecidableEq T] [DecidableEq F]
    [DecidableEq C] : Machine (State T F C) (Act T F C) where
  start := Start n bounded
  step := step

end MtAsyncio.Semaphore
