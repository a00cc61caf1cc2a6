/-
Module: MtAsyncio.Model.TimeoutNest
Purpose: The timeout scopes of one task, nested in each other and one after the
  other: `timeout`, `timeout_at` and `wait_for` of `_ctl.py`, which all open a
  `Timeout`.  The scopes share the cancel requests of the task.
Trusted boundary: as for `MtAsyncio.Model.Timeouts`; the coroutine of the task
  does not end
Main exports: Opener, Opener.when_, Exit, Tally, tally, scopeMachine, Nest,
  NestAct, nestMachine
-/
import MtAsyncio.Lib.Family
import MtAsyncio.Model.Timeouts

namespace MtAsyncio.Timeouts

open Lib (Machine)

/-! ## Who opens a scope -/

/-- The calls whose body runs inside of a `Timeout`. -/
inductive Opener where
  | timeout (delay : Option Int)
  | timeoutAt (when_ : Option Int)
  | waitFor (limit : Option Int)
deriving DecidableEq

/-- `_when` of the scope that is opened when the clock shows `now`; `wait_for`
opens none for a timeout that is not positive. -/
def Opener.when_ (now : Int) : Opener → Option (Option Int)
  | .timeout delay => some (delay.map (now + ·))
  | .timeoutAt when_ => some when_
  | .waitFor none => some none
  | .waitFor (some limit) => if limit ≤ 0 then none else some (some (now + limit))

/-! ## How a scope ends -/

variable {N H P : Type} [DecidableEq N] [DecidableEq H] [DecidableEq P]

/-- What `__aexit__` has decided, and from what: `fired` when the deadline has
cancelled the task, `entry` is `cancelling()` at entry, and `asked` and
`withdrawn` are the requests that others made and took back since. -/
structure Exit where
  et : Raised
  fired : Bool
  entry : Nat
  asked : Nat
  withdrawn : Nat
  timedOut : Bool
deriving DecidableEq

/-- The calls of others since the entry, and the exit. -/
structure Tally where
  asked : Nat
  withdrawn : Nat
  exit : Option Exit
deriving DecidableEq

def TaskPc.timedOut {W : Type} : TaskPc W H → Bool
  | .left timedOut => timedOut
  | _ => false

def tally (h : Tally) (s : State Int H P) (a : Act Int H P) (next : State Int H P) : Tally :=
  match a with
  | .cancel => { h with asked := h.asked + s.cancelGain }
  | .uncancel => { h with withdrawn := h.withdrawn + s.uncancelLoss }
  | .task _ =>
      match s.pc with
      | .setEntered => ⟨0, 0, none⟩
      | .exitUncancel et _ =>
          { h with exit := some ⟨et, s.deadlineCancels ≠ [], s.entryCount, h.asked, h.withdrawn,
            next.pc.timedOut⟩ }
      | _ => h
  | _ => h

/-- One scope with its history. -/
def scopeMachine (H P : Type) [DecidableEq H] [DecidableEq P] :
    Machine (State Int H P × Tally) (Act Int H P) :=
  (machine Int H P).recording ⟨0, 0, none⟩ tally

/-! ## The scopes of a task -/

/-- `stack` are the scopes that the task is in, the innermost first. -/
structure Nest (N H P : Type) where
  scope : N → State Int H P × Tally
  stack : List N

inductive NestAct (N H P : Type) where
  | scope (n : N) (a : Act Int H P)
  /-- somebody who is no scope calls `cancel` or `uncancel` -/
  | cancel
  | uncancel

/-- The task goes on in the innermost scope, or opens one in its body. -/
def Nest.mayTake (s : Nest N H P) (n : N) : Act Int H P → Bool
  | .task _ =>
      match s.stack with
      | [] => (s.scope n).1.pc = .outside
      | m :: _ => m = n || (s.scope m).1.pc.inBody && (s.scope n).1.pc = .outside
  | .exit _ => s.stack.head? = some n
  | .cancel | .uncancel | .finish => false
  | .reschedule .. | .cancelOld _ | .run _ | .deadline _ => true

def Nest.stackAfter (s : Nest N H P) (n : N) (next : State Int H P) : List N :=
  match next.pc with
  | .outside | .refused | .left _ => s.stack.filter (· ≠ n)
  | _ => if n ∈ s.stack then s.stack else n :: s.stack

/-- What the other scopes see of a step that changes the count. -/
def echo (before after : State Int H P × Tally) : Option (Act Int H P) :=
  if before.1.numCancelsRequested < after.1.numCancelsRequested then some .cancel
  else if after.1.numCancelsRequested < before.1.numCancelsRequested then some .uncancel
  else none

def nestStep (s : Nest N H P) : NestAct N H P → Option (Nest N H P)
  | .scope n a =>
      if s.mayTake n a then
        ((scopeMachine H P).stepAt echo s.scope n a).map fun scope =>
          { scope := scope, stack := s.stackAfter n (scope n).1 }
      else none
  | .cancel => some { s with scope := (scopeMachine H P).stepAll s.scope .cancel }
  | .uncancel => some { s with scope := (scopeMachine H P).stepAll s.scope .uncancel }

/-- The task is in no scope; it may have been cancelled before.  Scope `n` is
opened by the call and at the time that `opened n` tells. -/
def NestStart (opened : N → Opener × Int) (s : Nest N H P) : Prop :=
  (∀ n, (scopeMachine H P).start (s.scope n)) ∧
    (∀ n m, (s.scope n).1.numCancelsRequested = (s.scope m).1.numCancelsRequested) ∧
    (∀ n, (opened n).1.when_ (opened n).2 = some (s.scope n).1.when_) ∧ s.stack = []

def nestMachine (opened : N → Opener × Int) (H P : Type) [DecidableEq H] [DecidableEq P] :
    Machine (Nest N H P) (NestAct N H P) where
  start := NestStart opened
  step := nestStep

end MtAsyncio.Timeouts
