/-
Module: MtAsyncio.Model.Gather
Purpose: `gather` of `_ctl.py` over any number of children: the loop that
  attaches a callback to each, `_child_done` under its lock on whatever worker
  runs it, and the await of `outer` with the except clause around it.
Trusted boundary: as for `MtAsyncio.Model.Tasks`; a section under the lock of
  `gather` is one step; a future schedules each of its callbacks once, when it is
  done, and its exception is no `StopIteration`, which futures refuse; the awaiting
  task resumes when `outer` is done
Main exports: Error, Outcome, Closure, childDone, State, Act, parentStep, step,
  machine
-/
import MtAsyncio.Lib.Callbacks
import MtAsyncio.Lib.Machine

namespace MtAsyncio.Gather

open Lib (Machine Phase)

/-!
The children are futures of `F`, possibly one of them several times, with results
in `V`; exceptions other than `CancelledError` are drawn from `X`.
-/

inductive Error (X : Type) where
  | raised (x : X)
  | cancelledError
deriving DecidableEq

/-- How a child ended. -/
inductive Outcome (V X : Type) where
  | result (v : V)
  | failed (e : Error X)
  | cancelled
deriving DecidableEq

/-- What `results` has for a child. -/
inductive Entry (V X : Type) where
  | value (v : V)
  | error (e : Error X)
deriving DecidableEq

/-- The state of `outer`. -/
inductive Outer (V X : Type) where
  | pending
  | result (results : List (Option (Entry V X)))
  | failed (e : Error X)
  | cancelled
deriving DecidableEq

/-- Where `gather` stands. -/
inductive ParentPc (V X : Type) where
  | registering (index : Nat)
  /-- in front of `await outer` -/
  | awaiting
  | parked
  /-- the except clause, which cancels the children -/
  | cancelling (index : Nat)
  | returned (results : List (Option (Entry V X)))
  | raised (e : Error X)
deriving DecidableEq

variable {F V X : Type}

/-- `exc` -/
def Outcome.exc : Outcome V X → Option (Error X)
  | .result _ => none
  | .failed e => some e
  | .cancelled => some .cancelledError

/-- `exc if exc is not None else child.result()` -/
def Outcome.entry : Outcome V X → Entry V X
  | .result v => .value v
  | .failed e => .error e
  | .cancelled => .error .cancelledError

def Outer.done : Outer V X → Bool
  | .pending => false
  | _ => true

/-! ## `_child_done` -/

/-- What the callbacks share.  `completions` counts the calls of `set_result` and
`set_exception` on `outer`; nothing in the program reads it. -/
structure Closure (V X : Type) where
  results : List (Option (Entry V X))
  remaining : Int
  settled : Bool
  outer : Outer V X
  completions : Nat
deriving DecidableEq

/-- `if not outer.done(): ...` -/
def Closure.complete (c : Closure V X) (outer : Outer V X) : Closure V X :=
  if c.outer.done then c else { c with outer := outer, completions := c.completions + 1 }

/-- `results[index] = ...` and `remaining -= 1` -/
def Closure.fill (c : Closure V X) (index : Nat) (entry : Entry V X) : Closure V X :=
  { c with results := c.results.set index (some entry), remaining := c.remaining - 1 }

/-- `_child_done` for a child with outcome `o`. -/
def childDone (returnExceptions : Bool) (c : Closure V X) (index : Nat) (o : Outcome V X) :
    Closure V X :=
  if c.settled then c
  else match o.exc, returnExceptions with
    | some exc, false => { c with settled := true }.complete (.failed exc)
    | _, _ =>
        if (c.fill index o.entry).remaining = 0 then
          { c.fill index o.entry with settled := true }.complete
            (.result (c.fill index o.entry).results)
        else c.fill index o.entry

/-- The closure of a `gather` of `n` children. -/
def Closure.start (n : Nat) : Closure V X where
  results := List.replicate n none
  remaining := n
  settled := false
  outer := .pending
  completions := 0

/-! ## The machine -/

/-- `order` has the callbacks that ran, with the outcomes they saw, and
`childCancels` the children that `gather` has called `cancel` on; nothing in the
program reads these two. -/
structure State (F V X : Type) where
  status : F → Option (Outcome V X)
  phase : Nat → Phase
  closure : Closure V X
  parent : ParentPc V X
  mustCancel : Bool
  order : List (Nat × Outcome V X)
  childCancels : List F

inductive Act (F V X : Type) where
  /-- a child is done -/
  | complete (f : F) (o : Outcome V X)
  /-- a worker runs the callback of a child -/
  | run (index : Nat)
  /-- the next step of `gather` -/
  | parent
  /-- somebody cancels the task that is in `gather` -/
  | cancel

variable [DecidableEq F] (children : List F) (returnExceptions : Bool)

/-- What the await of `outer` leads to. -/
def Outer.read : Outer V X → ParentPc V X
  | .pending => .parked
  | .result results => .returned results
  | .failed (.raised x) => .raised (.raised x)
  | .failed .cancelledError | .cancelled => .cancelling 0

def parentStep (s : State F V X) : Option (State F V X) :=
  match s.parent with
  | .registering index =>
      match children[index]? with
      | some child =>
          some { s with
            phase := Function.update s.phase index
              (if (s.status child).isSome then .scheduled else .attached)
            parent := .registering (index + 1) }
      | none => some { s with parent := .awaiting }
  | .awaiting =>
      if s.mustCancel then some { s with mustCancel := false, parent := .cancelling 0 }
      else some { s with parent := s.closure.outer.read }
  | .parked => if s.closure.outer.done then some { s with parent := s.closure.outer.read } else none
  | .cancelling index =>
      match children[index]? with
      | some child =>
          some { s with
            childCancels := child :: s.childCancels
            parent := .cancelling (index + 1) }
      | none => some { s with parent := .raised .cancelledError }
  | .returned _ | .raised _ => none

/-- A child is done, and its callbacks are scheduled. -/
def State.finish (s : State F V X) (f : F) (o : Outcome V X) : State F V X :=
  { s with
    status := Function.update s.status f (some o)
    phase := fun index =>
      if s.phase index = .attached ∧ children[index]? = some f then .scheduled
      else s.phase index }

def State.ran (s : State F V X) (index : Nat) (o : Outcome V X) : State F V X :=
  { s with
    closure := childDone returnExceptions s.closure index o
    phase := Function.update s.phase index .ran
    order := s.order ++ [(index, o)] }

/-- `Task.cancel` of the task that is in `gather`. -/
def State.cancel (s : State F V X) : State F V X :=
  match s.parent with
  | .returned _ | .raised _ => s
  | .parked =>
      if s.closure.outer.done then { s with mustCancel := true }
      else { s with closure := { s.closure with outer := .cancelled } }
  | _ => { s with mustCancel := true }

def step (s : State F V X) : Act F V X → Option (State F V X)
  | .complete f o => if (s.status f).isSome then none else some (s.finish children f o)
  | .run index =>
      if s.phase index = .scheduled then
        (children[index]?.bind s.status).map (s.ran returnExceptions index)
      else none
  | .parent => parentStep children s
  | .cancel => some s.cancel

/-- `gather` is in front of its loop; some of the children may be done. -/
def Start (s : State F V X) : Prop :=
  (∀ index, s.phase index = .idle) ∧ s.closure = .start children.length ∧
    s.parent = .registering 0 ∧ s.mustCancel = false ∧ s.order = [] ∧ s.childCancels = []

def machine (V X : Type) : Machine (State F V X) (Act F V X) where
  start := Start children
  step := step children returnExceptions

end MtAsyncio.Gather
