/-
Module: MtAsyncio.Model.DeferWakes
Purpose: One thread that enters and exits the regions of `defer_wakes`, completes
  futures and calls `call_soon` at any depth, and runs the wakes that an outermost
  exit flushes.
Trusted boundary: `traceback.print_exc` does not raise, and no exception comes from
  outside of the wake while `__exit__` runs; the thread-local fields are touched by
  their thread only
Main exports: Wake, Frame, State, Act, step, machine
-/
import Mathlib.Logic.Function.Basic
import MtAsyncio.Lib.Machine
import MtAsyncio.Model.Wakes

namespace MtAsyncio.DeferWakes

open Lib (Machine)
open Wakes (Tls)

variable {E H : Type}

/-- What is performed at once or appended: `self._event.set` of a future, or
`get_runtime()._call_soon` with the `_run` of a handle. -/
inductive Wake (E H : Type) where
  | set (event : E)
  | callSoon (handle : H)
deriving DecidableEq

/-- What the thread is in the middle of, apart from plain code. -/
inductive Frame (E H : Type) where
  /-- the block of a `with defer_wakes()`; the outermost regions are numbered,
  and the ones inside of them have their number -/
  | region (n : Nat)
  /-- the loop of the `__exit__` of the outermost region `n`, before `rest` -/
  | flush (n : Nat) (rest : List (Wake E H))
  /-- a wake called by that loop -/
  | running (wake : Wake E H)
deriving DecidableEq

/-- The fields from `entered` on are a history: the number of outermost regions
so far, what was appended and what was run for each of them, what was performed
at once, and the tracebacks that were printed. -/
structure State (E H : Type) where
  tls : Tls (Wake E H) := {}
  stack : List (Frame E H) := []
  entered : Nat := 0
  appended : Nat → List (Wake E H) := fun _ => []
  ran : Nat → List (Wake E H) := fun _ => []
  woken : List (Wake E H) := []
  printed : List (Wake E H) := []

inductive Act (E H : Type) where
  | enter
  /-- the block is left; `raised` tells whether by an exception, which is passed on -/
  | exit (raised : Bool)
  /-- `Future._wake` of the future with this event -/
  | wake (event : E)
  /-- `EventLoop.call_soon`; `closed` and `reactor` are what its checks find -/
  | callSoon (handle : H) (closed reactor : Bool)
  /-- the loop of the flush on top goes on -/
  | next
  /-- the wake on top returns or raises -/
  | returns (raised : Bool)
deriving DecidableEq

/-- Code runs that may enter a region or complete something. -/
def code : List (Frame E H) → Bool
  | .flush _ _ :: _ => false
  | _ => true

namespace State

variable (s : State E H)

/-- `__enter__` -/
def enter : State E H :=
  let n := if s.tls.depth = 0 then s.entered + 1 else s.entered
  { s with tls := s.tls.enter, stack := .region n :: s.stack, entered := n }

/-- `Future._wake`, and `call_soon` after its checks. -/
def complete (wake : Wake E H) : State E H :=
  match s.tls.pendingWakes with
  | none => { s with woken := s.woken ++ [wake] }
  | some _ =>
      { s with
        tls := s.tls.append wake
        appended := Function.update s.appended s.entered (s.appended s.entered ++ [wake]) }

/-- `for wake in pending`: the next of them is called. -/
def call (n : Nat) (wake : Wake E H) (rest : List (Wake E H)) (below : List (Frame E H)) :
    State E H :=
  { s with
    stack := .running wake :: .flush n rest :: below
    ran := Function.update s.ran n (s.ran n ++ [wake]) }

/-- The call of a wake is over; `print_exc` if it has raised. -/
def ended (wake : Wake E H) (raised : Bool) (below : List (Frame E H)) : State E H :=
  { s with
    stack := below
    printed := if raised then s.printed ++ [wake] else s.printed }

end State

def step (s : State E H) : Act E H → Option (State E H)
  | .enter => if code s.stack then some s.enter else none
  | .exit _ =>
      match s.stack with
      | .region n :: below =>
          match s.tls.exit with
          | some (tls, none) => some { s with tls := tls, stack := below }
          | some (tls, some pending) =>
              some { s with tls := tls, stack := .flush n pending :: below }
          | none => none
      | _ => none
  | .wake event => if code s.stack then some (s.complete (.set event)) else none
  | .callSoon handle closed reactor =>
      if code s.stack then
        -- `_check_closed` and `_ensure_reactor` raise before anything is done
        if closed || !reactor then some s else some (s.complete (.callSoon handle))
      else none
  | .next =>
      match s.stack with
      | .flush n (wake :: rest) :: below => some (s.call n wake rest below)
      | .flush _ [] :: below => some { s with stack := below }
      | _ => none
  | .returns raised =>
      match s.stack with
      | .running wake :: below => some (s.ended wake raised below)
      | _ => none

/-- A thread in no region, before anything was deferred. -/
def machine : Machine (State E H) (Act E H) where
  start s := s = {}
  step := step

end MtAsyncio.DeferWakes
