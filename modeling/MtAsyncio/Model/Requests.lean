/-
Module: MtAsyncio.Model.Requests
Purpose: What becomes of the requests that `Task.cancel` makes: the steps at
  which a call returns `True`, is passed on to the awaited future, or is raised
  in the coroutine, and the histories that the rules about them are stated on;
  and `_yield_now` of `_sleep.py`, the suspension that is not an await.
Trusted boundary: as for `MtAsyncio.Model.Tasks`
Main exports: Kernel.returnsTrue, answers, passes, raises, Coalescing,
  coalescingMachine, Standing, standingMachine, Promise, promiseMachine, Bodies,
  Delivery, deliveryMachine
-/
import MtAsyncio.Model.Tasks

namespace MtAsyncio.Tasks

open Lib (Machine)

/-!
Nothing in the program reads a history.  `sent` is common to three of them: the
future that a task waits on has been sent `cancel()` for a call on the task.
-/

variable {T F C : Type} [DecidableEq T] [DecidableEq F] [DecidableEq C]

/-! ## Steps of a call -/

/-- The innermost call of `c` returns `True` by its next step, and with it
every call around it. -/
def Kernel.returnsTrue (k : Kernel T F C) (c : C) : Bool :=
  match k.calls c with
  | (t, .read) :: _ => (k.futWaiter t).isNone
  | (_, .futCancel (.fut f)) :: _ => k.state (.fut f) = .pending
  | (_, .set) :: _ => true
  | _ => false

/-- Thread `c` is inside of a call on `t`. -/
def Kernel.calling (k : Kernel T F C) (c : C) (t : T) : Bool :=
  (k.calls c).any fun frame => frame.1 = t

/-- A call of `c` on `t` has sent `cancel()` to the future that `t` waits on. -/
def Kernel.sends (k : Kernel T F C) (c : C) (t : T) : Bool :=
  match k.futWaiter t, k.calls c with
  | some r, (u, pc) :: rest =>
      if u = t then pc = .futCancel r else (t, CancelPc.futCancel r) ∈ rest
  | _, _ => false

/-- A call on `t` returns `True`. -/
def answers (s : State T F C) (a : Act T F C) (t : T) : Bool :=
  match a with
  | .kernel (.call c) => s.kernel.returnsTrue c && s.kernel.calling c t
  | _ => false

/-- A call on `t` returns `True` and the future `t` waits on has taken it. -/
def passes (s : State T F C) (a : Act T F C) (t : T) : Bool :=
  match a with
  | .kernel (.call c) => s.kernel.returnsTrue c && s.kernel.sends c t
  | _ => false

/-- A call on `t` reads `_fut_waiter`. -/
def looks (s : State T F C) (a : Act T F C) (t : T) : Bool :=
  match a with
  | .kernel (.call c) => match s.kernel.calls c with
      | (u, .read) :: _ => u = t
      | _ => false
  | _ => false

/-- A call of `c` on `t` begins. -/
def begins (s : State T F C) (a : Act T F C) (c : C) (t : T) : Bool :=
  match a with
  | .kernel (.cancel c' u) => c' = c ∧ u = t
  | .kernel (.call c') => c' = c && match s.kernel.calls c with
      | (_, .futCancel (.task u)) :: _ => u = t
      | _ => false
  | _ => false

/-! ## Steps of an await -/

def Act.moves (t : T) : Act T F C → Bool
  | .task u => u = t
  | _ => false

/-- Where an await looks at `_must_cancel`. -/
def TaskPc.checks : TaskPc T F → Bool
  | .awaiting _ .arm | .awaiting _ .ready => true
  | _ => false

/-- The await of `t` finds no request and parks. -/
def parks (s : State T F C) (a : Act T F C) (t : T) : Bool :=
  a.moves t && match s.task t with
    | .awaiting _ .arm => !s.kernel.mustCancel t
    | _ => false

/-- The await of `t` reads the outcome and is over. -/
def concludes (s : State T F C) (a : Act T F C) (t : T) : Bool :=
  a.moves t && match s.task t with
    | .awaiting _ .read => true
    | _ => false

/-- The await of `t` raises `CancelledError` for `_must_cancel`. -/
def raisesMust (s : State T F C) (a : Act T F C) (t : T) : Bool :=
  a.moves t && (s.task t).checks && s.kernel.mustCancel t

/-- The await of `t` raises `CancelledError` because the future was cancelled. -/
def raisesRead (s : State T F C) (a : Act T F C) (t : T) : Bool :=
  a.moves t && match s.task t with
    | .awaiting r .read => s.kernel.event r && s.kernel.state r = .cancelled
    | _ => false

def raises (s : State T F C) (a : Act T F C) (t : T) : Bool :=
  raisesMust s a t || raisesRead s a t

/-- `sent` after a step. -/
def noteSent (sent : T → Bool) (s : State T F C) (a : Act T F C) (t : T) : Bool :=
  passes s a t || (sent t && !concludes s a t)

/-! ## Cancels before a resumption -/

/-- `late`: a call found the task not parked, since it last parked.
`delivered`: the await raised `CancelledError` for calls that were passed on to
its future, and no further call has read `_fut_waiter` since the resumption.
`again`: another await raised for `_must_cancel` after that. -/
structure Coalescing (T : Type) where
  sent : T → Bool
  late : T → Bool
  delivered : T → Bool
  again : T → Bool

def Coalescing.empty : Coalescing T where
  sent := fun _ => false
  late := fun _ => false
  delivered := fun _ => false
  again := fun _ => false

def Coalescing.record (h : Coalescing T) (s : State T F C) (a : Act T F C)
    (_ : State T F C) : Coalescing T where
  sent := noteSent h.sent s a
  late := fun t =>
    (looks s a t && (s.kernel.futWaiter t).isNone) || (h.late t && !parks s a t)
  delivered := fun t =>
    !looks s a t && (h.delivered t || (raisesRead s a t && h.sent t && !h.late t))
  again := fun t => h.again t || (h.delivered t && raisesMust s a t)

def coalescingMachine (T F C : Type) [DecidableEq T] [DecidableEq F] [DecidableEq C] :
    Machine (State T F C × Coalescing T) (Act T F C) :=
  (machine T F C).recording Coalescing.empty Coalescing.record

/-! ## Requests that stand -/

/-- `unraised`: a call on the task has returned `True` and no `CancelledError`
has been raised in the coroutine since. -/
structure Standing (T : Type) where
  sent : T → Bool
  unraised : T → Bool

def Standing.empty : Standing T where
  sent := fun _ => false
  unraised := fun _ => false

def Standing.record (h : Standing T) (s : State T F C) (a : Act T F C)
    (_ : State T F C) : Standing T where
  sent := noteSent h.sent s a
  unraised := fun t => !raises s a t && (h.unraised t || answers s a t)

def standingMachine (T F C : Type) [DecidableEq T] [DecidableEq F] [DecidableEq C] :
    Machine (State T F C × Standing T) (Act T F C) :=
  (machine T F C).recording Standing.empty Standing.record

/-! ## What a call has promised -/

/-- `unheard`: no `CancelledError` has been raised in the coroutine since the
call of the thread on it began.  `promised`: such a call has returned `True`,
with no `CancelledError` and no `uncancel()` after it.  `returned`: the
coroutine has returned a value. -/
structure Promise (T C : Type) where
  sent : T → Bool
  unheard : C → T → Bool
  promised : T → Bool
  returned : T → Bool

def Promise.empty : Promise T C where
  sent := fun _ => false
  unheard := fun _ _ => false
  promised := fun _ => false
  returned := fun _ => false

/-- A call on `t` returns `True` and nothing was raised since it began. -/
def Promise.made (h : Promise T C) (s : State T F C) (a : Act T F C) (t : T) : Bool :=
  match a with
  | .kernel (.call c) => s.kernel.returnsTrue c && s.kernel.calling c t && h.unheard c t
  | _ => false

def Act.uncancels (t : T) : Act T F C → Bool
  | .uncancel u => u = t
  | _ => false

def Act.returns (t : T) : Act T F C → Bool
  | .finish u ending => u = t ∧ ending = .returned
  | _ => false

def Promise.record (h : Promise T C) (s : State T F C) (a : Act T F C)
    (_ : State T F C) : Promise T C where
  sent := noteSent h.sent s a
  unheard := fun c t => !raises s a t && (begins s a c t || h.unheard c t)
  promised := fun t =>
    !raises s a t && !a.uncancels t && (h.promised t || h.made s a t)
  returned := fun t => h.returned t || a.returns t

def promiseMachine (T F C : Type) [DecidableEq T] [DecidableEq F] [DecidableEq C] :
    Machine (State T F C × Promise T C) (Act T F C) :=
  (machine T F C).recording Promise.empty Promise.record

/-! ## `_yield_now` -/

/-- `yielding`: the task is suspended in `_yield_now`, that is in `sleep(0)`,
whose event is set already. -/
structure Bodies (T F C : Type) where
  tasks : State T F C
  yielding : T → Bool

inductive BodyAct (T F C : Type) where
  | act (a : Act T F C)
  | yield (t : T)
  | resume (t : T)

/-- The task whose body takes the step. -/
def Act.body : Act T F C → Option T
  | .await t _ | .uncancel t | .finish t _ => some t
  | .kernel _ | .task _ => none

def bodyStep (s : Bodies T F C) : BodyAct T F C → Option (Bodies T F C)
  | .act a =>
      if a.body.any s.yielding then none
      else (step s.tasks a).map fun tasks => { s with tasks := tasks }
  | .yield t =>
      if s.tasks.task t = .running ∧ s.yielding t = false then
        some { s with yielding := Function.update s.yielding t true }
      else none
  | .resume t =>
      if s.yielding t then some { s with yielding := Function.update s.yielding t false }
      else none

def BodyStart (s : Bodies T F C) : Prop :=
  Start s.tasks ∧ ∀ t, s.yielding t = false

def bodyMachine (T F C : Type) [DecidableEq T] [DecidableEq F] [DecidableEq C] :
    Machine (Bodies T F C) (BodyAct T F C) where
  start := BodyStart
  step := bodyStep

/-- From the call of the suspending function to the resumption. -/
def Bodies.atPoint (s : Bodies T F C) (t : T) : Bool :=
  s.yielding t || match s.tasks.task t with
    | .awaiting _ pc => pc ≠ .disarm ∧ pc ≠ .read
    | _ => false

/-- The task comes to a suspension point. -/
def BodyAct.reaches (t : T) : BodyAct T F C → Bool
  | .act (.await u _) | .yield u => u = t
  | _ => false

def BodyAct.raisesMust (s : Bodies T F C) (a : BodyAct T F C) (t : T) : Bool :=
  match a with
  | .act a => Tasks.raisesMust s.tasks a t
  | _ => false

/-- `owed`: the suspension point was reached with `_must_cancel` set, or it was
set there without a `_fut_waiter`.  `missed`: the coroutine went on from such a
point without a `CancelledError`, or `_must_cancel` was not cleared. -/
structure Delivery (T : Type) where
  owed : T → Bool
  missed : T → Bool

def Delivery.empty : Delivery T where
  owed := fun _ => false
  missed := fun _ => false

def Delivery.record (h : Delivery T) (s : Bodies T F C) (a : BodyAct T F C)
    (s' : Bodies T F C) : Delivery T where
  owed := fun t => s'.atPoint t &&
    (h.owed t || (a.reaches t && s.tasks.kernel.mustCancel t) ||
      (s.atPoint t && !s.tasks.kernel.mustCancel t && s'.tasks.kernel.mustCancel t &&
        (s.tasks.kernel.futWaiter t).isNone))
  missed := fun t => h.missed t || (h.owed t && !s'.atPoint t &&
    !(a.raisesMust s t && !s'.tasks.kernel.mustCancel t))

def deliveryMachine (T F C : Type) [DecidableEq T] [DecidableEq F] [DecidableEq C] :
    Machine (Bodies T F C × Delivery T) (BodyAct T F C) :=
  (bodyMachine T F C).recording Delivery.empty Delivery.record

end MtAsyncio.Tasks
