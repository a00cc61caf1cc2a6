/-
Module: MtAsyncio.Model.Waiting
Purpose: What the semaphores and the queues of `_sync.py` have in common: tasks
  that make a future, put it on a deque and await it, the except clause around
  the await, and the loop that gives the first live waiter a result.
Trusted boundary: as for `MtAsyncio.Model.Tasks`; a section under `_mu` is one
  step, so that the `done()` test and the `set_result()` of a hand-off are not
  separated
Main exports: Place, Waits, Waits.park, Waits.await, Waits.leave, nextLive,
  Waits.wakeNext, Waits.around
-/
import MtAsyncio.Model.Lock
import MtAsyncio.Model.Tasks

namespace MtAsyncio.Waiting

open Lock (Elsewhere)
open Tasks

/-!
Calls of a primitive are drawn from `K`.  A primitive has one deque for each
side in `S`, and `side` says on which one a call waits: a semaphore has one
side, a queue has its getters and its putters.
-/

/-- Where a task stands in the code of a primitive. -/
inductive Place (K F : Type) where
  /-- not inside of it -/
  | away
  /-- `await fut` -/
  | waiting (k : K) (f : F) (pc : AwaitPc)
  /-- the except clause around the await, before its locked section -/
  | caught (k : K) (f : F)
  /-- behind the await, which has returned -/
  | woken (k : K) (f : F)
  /-- the except clause has found that `f` has a result, which is to be passed
  on -/
  | handing (k : K) (f : F)
deriving DecidableEq

/-- `issued` are the futures that the primitive made. -/
structure Waits (S K T F C : Type) where
  kernel : Kernel T F C
  issued : F → Bool
  waiters : S → List F
  place : T → Place K F

variable {S K T F C : Type} [DecidableEq S] [DecidableEq T] [DecidableEq F] [DecidableEq C]

namespace Waits

def setPlace (w : Waits S K T F C) (t : T) (p : Place K F) : Waits S K T F C :=
  { w with place := Function.update w.place t p }

def setKernel (w : Waits S K T F C) (k : Kernel T F C) : Waits S K T F C :=
  { w with kernel := k }

def setWaiters (w : Waits S K T F C) (side : S) (fs : List F) : Waits S K T F C :=
  { w with waiters := Function.update w.waiters side fs }

/-- `done()` of a future of the primitive. -/
def done (w : Waits S K T F C) (f : F) : Bool :=
  w.kernel.state (.fut f) ≠ .pending

/-- `create_future()` and `append`, and the await begins. -/
def park (w : Waits S K T F C) (t : T) (k : K) (side : S) (f : F) :
    Option (Waits S K T F C) :=
  if w.kernel.created f then none
  else some ({ w with
      kernel := w.kernel.create f
      issued := Function.update w.issued f true
      waiters := Function.update w.waiters side (w.waiters side ++ [f]) }.setPlace t
    (.waiting k f .test))

/-- Where the await leads: only `CancelledError` is caught. -/
def afterAwait (k : K) (f : F) : AwaitPc ⊕ Outcome → Place K F
  | .inl pc => .waiting k f pc
  | .inr .returned => .woken k f
  | .inr .cancelled => .caught k f
  | .inr _ => .away

/-- One step of `await fut`. -/
def await (w : Waits S K T F C) (t : T) (k : K) (f : F) (pc : AwaitPc) :
    Option (Waits S K T F C) :=
  (w.kernel.awaitStep t (.fut f) pc).map fun next =>
    (w.setKernel next.1).setPlace t (afterAwait k f next.2)

/-- The except clause takes the future off the deque, if it is there, and lets
the exception go on. -/
def leave (w : Waits S K T F C) (t : T) (side : S) (f : F) : Waits S K T F C :=
  (w.setWaiters side ((w.waiters side).erase f)).setPlace t .away

end Waits

/-- `while waiters: fut = waiters.popleft(); if not fut.done(): ...; break`: what
is left of the deque, and the future that the loop has stopped at. -/
def nextLive (done : F → Bool) : List F → List F × Option F
  | [] => ([], none)
  | f :: rest => if done f then nextLive done rest else (rest, some f)

namespace Waits

/-- The loop that gives the first live waiter a result; tells whether there was
one. -/
def wakeNext (w : Waits S K T F C) (side : S) : Waits S K T F C × Bool :=
  match nextLive w.done (w.waiters side) with
  | (rest, none) => (w.setWaiters side rest, false)
  | (rest, some f) =>
      ((w.setWaiters side rest).setKernel (w.kernel.setState (.fut f) .finished), true)

end Waits

/-- What happens around the primitive. -/
inductive Around (T F C : Type) where
  | kernel (a : KernelAct T F C)
  /-- a task that is not inside of the primitive goes on -/
  | elsewhere (t : T) (e : Elsewhere T F)

/-- Somebody calls `Task.cancel`. -/
def Around.cancels : Around T F C → Bool
  | .kernel (.cancel _ _) => true
  | _ => false

namespace Waits

/-- Nobody else awaits the futures of the primitive. -/
def elsewhere (w : Waits S K T F C) (t : T) : Elsewhere T F → Option (Waits S K T F C)
  | .create f => if w.kernel.created f then none else some (w.setKernel (w.kernel.create f))
  | .await (.fut f) pc =>
      if w.issued f then none
      else (w.kernel.awaitStep t (.fut f) pc).map fun next => w.setKernel next.1
  | .await (.task u) pc =>
      (w.kernel.awaitStep t (.task u) pc).map fun next => w.setKernel next.1
  | .uncancel pc => some (w.setKernel (w.kernel.uncancelStep t pc).1)
  | .settle ending => some (w.setKernel (w.kernel.settle t ending))

/-- Nobody else gives the futures of the primitive a result; a `Task.cancel` may
cancel them. -/
def around (w : Waits S K T F C) : Around T F C → Option (Waits S K T F C)
  | .kernel (.complete f st) =>
      if w.issued f then none else (w.kernel.step (.complete f st)).map w.setKernel
  | .kernel a => (w.kernel.step a).map w.setKernel
  | .elsewhere t e =>
      match w.place t with
      | .away => w.elsewhere t e
      | _ => none

/-- Nothing was made yet, and no task is inside. -/
def Fresh (w : Waits S K T F C) : Prop :=
  w.kernel.Fresh ∧ (∀ f, w.issued f = false) ∧ (∀ side, w.waiters side = []) ∧
    ∀ t, w.place t = .away

end Waits

end MtAsyncio.Waiting
