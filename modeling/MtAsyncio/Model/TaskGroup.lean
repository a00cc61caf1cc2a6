/-
Module: MtAsyncio.Model.TaskGroup
Purpose: `TaskGroup` of `_tg.py` over the task kernel: `create_task`, `_abort`,
  `_on_task_done` of every child and the parent's `_aexit`.
Trusted boundary: as for `MtAsyncio.Model.Tasks`; each section under the
  group's lock is one step.  Nobody awaits the parent task
Main exports: Caller, ParentPc, CallbackPc, ChildPc, State, Act, createStep,
  abortStep, callbackStep, parentStep, machine, Shared, sharedMachine, Watched,
  watchedMachine
-/
import MtAsyncio.Model.Tasks

namespace MtAsyncio.TaskGroup

open Lib (Machine)
open Tasks

/-!
The parent is the task `none`, child `k` the task `some k`.  `_tasks` is kept as
a list whose order nothing depends on.  Children are made by the parent's body
and by children of the group.  Futures are of type `F`; `E` are the threads
that may cancel children from outside of the group.
-/

/-- The threads that call `cancel`: the done callbacks, the parent itself, and
whoever cancels children from outside. -/
inductive Caller (K E : Type) where
  | callback (k : K)
  | parent
  | other (e : E)
deriving DecidableEq

/-- Where a call of `create_task` stands. -/
inductive CreatePc where
  | exiting
  | aborting
  | spawn
  | add
  | callback
deriving DecidableEq

/-- Where a call of `_abort` stands. -/
inductive AbortPc (K : Type) where
  | flag
  | snapshot
  | loop (todo : List K)
  | inCancel (todo : List K)
deriving DecidableEq

inductive ChildPc (K : Type) where
  | absent
  | body
  | creating (k : K) (pc : CreatePc)
  | done
deriving DecidableEq

/-- Where `_on_task_done` of a child stands. -/
inductive CallbackPc (K F : Type) where
  | idle
  | abort (pc : AbortPc K)
  | cancelParent
  | inCancel
  | wake
  | test (f : F)
  | set (f : F)
  | done
deriving DecidableEq

/-- The exception the body of the group ends with. -/
inductive Exc where
  | error
  | base
  | cancelled
deriving DecidableEq

/-- The parent: its body, `_aexit` from top to bottom, and after it.  `exc` is
what the body ended with, `prop` whether `propagate_cancellation_error` is set. -/
inductive ParentPc (K F : Type) where
  | body
  | bodyAwait (r : Ref (Option K) F) (pc : AwaitPc)
  | creating (k : K) (pc : CreatePc)
  | exiting (exc : Option Exc)
  | baseError (exc : Option Exc)
  | abortTest (exc : Option Exc)
  | abort (exc : Option Exc) (prop : Bool) (again : Bool) (pc : AbortPc K)
  | loop (exc : Option Exc) (prop : Bool)
  | waiting (exc : Option Exc) (prop : Bool) (f : F) (pc : AwaitPc)
  | caught (exc : Option Exc) (prop : Bool)
  | clear (exc : Option Exc) (prop : Bool)
  | raiseBase (exc : Option Exc) (prop : Bool)
  | requested (exc : Option Exc) (prop : Bool)
  | uncancel (exc : Option Exc) (prop : Bool) (pc : UncancelPc)
  | uncancelled (exc : Option Exc) (prop : Bool)
  | propagate (exc : Option Exc) (prop : Bool)
  | append (exc : Option Exc)
  | report
  | cancelling
  | reUncancel (pc : UncancelPc)
  | reCancel
  | inReCancel
  | leave
  | left
deriving DecidableEq

/-- Where an entry of `_errors` comes from. -/
inductive Source (K : Type) where
  | child (k : K)
  | body
deriving DecidableEq

structure State (K F E : Type) where
  kernel : Kernel (Option K) F (Caller K E)
  exiting : Bool
  aborting : Bool
  /-- `_parent_task is not None` -/
  hasParent : Bool
  parentCancelRequested : Bool
  tasks : List K
  errors : List (Source K)
  baseError : Option (Source K)
  onCompletedFut : Option F
  /-- the futures made for `_on_completed_fut` -/
  issued : F → Bool
  /-- the exception of a failed child is `SystemExit` or `KeyboardInterrupt` -/
  base : K → Bool
  /-- `add_done_callback` was called for the child -/
  registered : K → Bool
  child : K → ChildPc K
  callback : K → CallbackPc K F
  parent : ParentPc K F
  /-- order of creation; nothing in the program reads it -/
  born : K → Nat
  clock : Nat

inductive Act (K F E : Type) where
  | complete (f : F) (st : FutState)
  | wake (r : Ref (Option K) F)
  /-- somebody outside cancels a child -/
  | cancel (e : E) (k : K)
  | call (e : E)
  /-- child `k` awaits something or runs on; where it stands is not tracked -/
  | childAwait (k : K) (r : Ref (Option K) F) (pc : AwaitPc)
  | childUncancel (k : K) (pc : UncancelPc)
  /-- child `k` calls `create_task`, which makes `j` -/
  | childCreate (k j : K)
  /-- child `k` ends -/
  | childEnd (k : K) (ending : Ending) (base : Bool)
  | child (k : K)
  /-- the next step of `_on_task_done` of child `k` -/
  | callback (k : K)
  | bodyAwait (r : Ref (Option K) F)
  | bodyCreate (j : K)
  /-- the body of the group ends -/
  | bodyEnd (exc : Option Exc)
  /-- the next step of the parent; `f` is the future it makes if it needs one -/
  | parent (f : F)

variable {K F E : Type} [DecidableEq K] [DecidableEq F] [DecidableEq E]

namespace State

def setKernel (s : State K F E) (k : Kernel (Option K) F (Caller K E)) : State K F E :=
  { s with kernel := k }

def setChild (s : State K F E) (k : K) (pc : ChildPc K) : State K F E :=
  { s with child := Function.update s.child k pc }

def setCallback (s : State K F E) (k : K) (pc : CallbackPc K F) : State K F E :=
  { s with callback := Function.update s.callback k pc }

def setParent (s : State K F E) (pc : ParentPc K F) : State K F E :=
  { s with parent := pc }

end State

/-! ## `create_task` -/

/-- One step of a `create_task` that makes `k`; `none` in the second place when
it returns or raises. -/
def createStep (s : State K F E) (k : K) : CreatePc → Option (State K F E × Option CreatePc)
  | .exiting => some (s, if s.exiting ∧ s.tasks = [] then none else some .aborting)
  | .aborting => some (s, if s.aborting then none else some .spawn)
  | .spawn =>
      if s.child k = .absent then
        some ({ s.setChild k .body with
          born := Function.update s.born k s.clock, clock := s.clock + 1 }, some .add)
      else none
  | .add => some ({ s with tasks := s.tasks.insert k }, some .callback)
  | .callback => some ({ s with registered := Function.update s.registered k true }, none)

def ChildPc.afterCreate (k : K) : Option CreatePc → ChildPc K
  | some pc => .creating k pc
  | none => .body

/-! ## `_abort` -/

/-- One step of an `_abort` made by thread `c`; `none` in the second place when
it returns. -/
def abortStep (s : State K F E) (c : Caller K E) :
    AbortPc K → Option (State K F E × Option (AbortPc K))
  | .flag => some ({ s with aborting := true }, some .snapshot)
  | .snapshot => some (s, some (.loop s.tasks))
  | .loop [] => some (s, none)
  | .loop (k :: todo) =>
      if s.kernel.state (.task (some k)) = .pending then
        (s.kernel.step (.cancel c (some k))).map fun kernel =>
          (s.setKernel kernel, some (.inCancel todo))
      else some (s, some (.loop todo))
  | .inCancel todo =>
      match s.kernel.calls c with
      | [] => some (s, some (.loop todo))
      | _ :: _ => (s.kernel.cancelStep c).map fun kernel =>
          (s.setKernel kernel, some (.inCancel todo))

/-! ## `_on_task_done` -/

/-- `do_cancel` for a failed child: `parent_done` is the third test. -/
def doCancel (s : State K F E) : Bool :=
  !s.aborting && !s.parentCancelRequested &&
    (s.hasParent && s.kernel.state (.task none) = .pending)

/-- The first locked section of `_on_task_done`. -/
def bookkeep (s : State K F E) (k : K) : State K F E :=
  if s.kernel.state (.task (some k)) = .failed then
    { s with
      tasks := s.tasks.erase k
      errors := s.errors ++ [Source.child k]
      baseError :=
        if s.base k ∧ s.baseError = none then some (Source.child k) else s.baseError
      parentCancelRequested := s.parentCancelRequested || doCancel s }.setCallback k
        (if doCancel s then .abort .flag else .wake)
  else { s with tasks := s.tasks.erase k }.setCallback k .wake

def CallbackPc.afterAbort : Option (AbortPc K) → CallbackPc K F
  | some pc => .abort pc
  | none => .cancelParent

/-- One step of `_on_task_done` of child `k`. -/
def callbackStep (s : State K F E) (k : K) : Option (State K F E) :=
  match s.callback k with
  | .idle =>
      if s.registered k ∧ s.child k = .done then some (bookkeep s k) else none
  | .abort pc =>
      (abortStep s (.callback k) pc).map fun next =>
        next.1.setCallback k (.afterAbort next.2)
  | .cancelParent =>
      (s.kernel.step (.cancel (.callback k) none)).map fun kernel =>
        (s.setKernel kernel).setCallback k .inCancel
  | .inCancel =>
      match s.kernel.calls (.callback k) with
      | [] => some (s.setCallback k .wake)
      | _ :: _ => (s.kernel.cancelStep (.callback k)).map s.setKernel
  | .wake =>
      some (s.setCallback k (match s.onCompletedFut with
        | some f => if s.tasks = [] then .test f else .done
        | none => .done))
  | .test f =>
      some (s.setCallback k
        (if s.kernel.state (.fut f) = .pending then .set f else .done))
  | .set f =>
      -- on a future cancelled in between `set_result` raises, and nothing follows it
      some (if s.kernel.state (.fut f) = .pending then
          (s.setKernel (s.kernel.setState (.fut f) .finished)).setCallback k .done
        else s.setCallback k .done)
  | .done => none

/-! ## `_aexit` -/

namespace ParentPc

def afterBodyAwait (r : Ref (Option K) F) : AwaitPc ⊕ Outcome → ParentPc K F
  | .inl pc => .bodyAwait r pc
  | .inr _ => .body

def afterCreate (k : K) : Option CreatePc → ParentPc K F
  | some pc => .creating k pc
  | none => .body

/-- `_abort` is called before the loop and, `again`, from its except clause. -/
def afterAbort (exc : Option Exc) (prop again : Bool) : Option (AbortPc K) → ParentPc K F
  | some pc => .abort exc prop again pc
  | none => if again then .clear exc prop else .loop exc prop

def afterWait (exc : Option Exc) (prop : Bool) (f : F) : AwaitPc ⊕ Outcome → ParentPc K F
  | .inl pc => .waiting exc prop f pc
  | .inr .cancelled => .caught exc prop
  | .inr _ => .clear exc prop

def afterUncancel (exc : Option Exc) (prop : Bool) : Option UncancelPc → ParentPc K F
  | some pc => .uncancel exc prop pc
  | none => .uncancelled exc prop

def afterReUncancel : Option UncancelPc → ParentPc K F
  | some pc => .reUncancel pc
  | none => .reCancel

end ParentPc

/-- One step of the parent.  `f` is the future made when the group needs one. -/
def parentStep (s : State K F E) (f : F) : Option (State K F E) :=
  match s.parent with
  | .body | .left => none
  | .bodyAwait r pc =>
      (s.kernel.awaitStep none r pc).map fun next =>
        (s.setKernel next.1).setParent (.afterBodyAwait r next.2)
  | .creating k pc =>
      (createStep s k pc).map fun next => next.1.setParent (.afterCreate k next.2)
  | .exiting exc => some ({ s with exiting := true }.setParent (.baseError exc))
  | .baseError exc =>
      some ({ s with baseError :=
        if exc = some Exc.base ∧ s.baseError = none then some Source.body
        else s.baseError }.setParent (.abortTest exc))
  | .abortTest exc =>
      some (s.setParent (if exc ≠ none ∧ s.aborting = false then
          .abort exc (exc = some .cancelled) false .flag
        else .loop exc (exc = some .cancelled)))
  | .abort exc prop again pc =>
      (abortStep s .parent pc).map fun next =>
        next.1.setParent (.afterAbort exc prop again next.2)
  | .loop exc prop =>
      if s.tasks = [] then some (s.setParent (.raiseBase exc prop))
      else
        match s.onCompletedFut with
        | some g => some (s.setParent (.waiting exc prop g .test))
        | none =>
            if s.kernel.created f then none
            else some ({ s with
              kernel := s.kernel.create f
              issued := Function.update s.issued f true
              onCompletedFut := some f }.setParent (.waiting exc prop f .test))
  | .waiting exc prop g pc =>
      (s.kernel.awaitStep none (.fut g) pc).map fun next =>
        (s.setKernel next.1).setParent (.afterWait exc prop g next.2)
  | .caught exc prop =>
      some (s.setParent (if s.aborting then .clear exc prop else .abort exc true true .flag))
  | .clear exc prop => some ({ s with onCompletedFut := none }.setParent (.loop exc prop))
  | .raiseBase exc prop =>
      some (s.setParent (if s.baseError = none then .requested exc prop else .leave))
  | .requested exc prop =>
      some (s.setParent (if s.parentCancelRequested then .uncancel exc prop .test
        else .propagate exc prop))
  | .uncancel exc prop pc =>
      some ((s.setKernel (s.kernel.uncancelStep none pc).1).setParent
        (.afterUncancel exc prop (s.kernel.uncancelStep none pc).2))
  | .uncancelled exc prop =>
      some (s.setParent (.propagate exc
        (if s.kernel.numCancelsRequested none = 0 then false else prop)))
  | .propagate exc prop =>
      some (s.setParent (if prop ∧ s.errors = [] then .leave else .append exc))
  | .append exc =>
      some ({ s with errors :=
        if exc = some Exc.error ∨ exc = some Exc.base then s.errors ++ [Source.body]
        else s.errors }.setParent .report)
  | .report => some (s.setParent (if s.errors = [] then .leave else .cancelling))
  | .cancelling =>
      some (s.setParent
        (if s.kernel.numCancelsRequested none = 0 then .leave else .reUncancel .test))
  | .reUncancel pc =>
      some ((s.setKernel (s.kernel.uncancelStep none pc).1).setParent
        (.afterReUncancel (s.kernel.uncancelStep none pc).2))
  | .reCancel =>
      (s.kernel.step (.cancel .parent none)).map fun kernel =>
        (s.setKernel kernel).setParent .inReCancel
  | .inReCancel =>
      match s.kernel.calls .parent with
      | [] => some (s.setParent .leave)
      | _ :: _ => (s.kernel.cancelStep .parent).map s.setKernel
  | .leave => some ({ s with hasParent := false, baseError := none }.setParent .left)

/-! ## The machine -/

def step (s : State K F E) : Act K F E → Option (State K F E)
  | .complete f st =>
      if s.issued f then none else (s.kernel.step (.complete f st)).map s.setKernel
  | .wake r => (s.kernel.step (.wake r)).map s.setKernel
  | .cancel e k => (s.kernel.step (.cancel (.other e) (some k))).map s.setKernel
  | .call e => (s.kernel.cancelStep (.other e)).map s.setKernel
  | .childAwait k r pc =>
      if s.child k = .body ∧ r ≠ .task none then
        (s.kernel.awaitStep (some k) r pc).map fun next => s.setKernel next.1
      else none
  | .childUncancel k pc =>
      if s.child k = .body then
        some (s.setKernel (s.kernel.uncancelStep (some k) pc).1)
      else none
  | .childCreate k j =>
      if s.child k = .body then some (s.setChild k (.creating j .exiting)) else none
  | .childEnd k ending base =>
      if s.child k = .body then
        some ({ s.setKernel (s.kernel.settle (some k) ending) with
          base := Function.update s.base k base }.setChild k .done)
      else none
  | .child k =>
      match s.child k with
      | .creating j pc =>
          (createStep s j pc).map fun next => next.1.setChild k (.afterCreate j next.2)
      | _ => none
  | .callback k => callbackStep s k
  | .bodyAwait r =>
      if s.parent = .body ∧ r ≠ .task none then some (s.setParent (.bodyAwait r .test)) else none
  | .bodyCreate j =>
      if s.parent = .body then some (s.setParent (.creating j .exiting)) else none
  | .bodyEnd exc => if s.parent = .body then some (s.setParent (.exiting exc)) else none
  | .parent f => parentStep s f

/-- The parent has entered the group with no cancel request of its own. -/
def Start (s : State K F E) : Prop :=
  s.kernel.Fresh ∧ s.exiting = false ∧ s.aborting = false ∧ s.hasParent = true ∧
    s.parentCancelRequested = false ∧ s.tasks = [] ∧ s.errors = [] ∧ s.baseError = none ∧
    s.onCompletedFut = none ∧ (∀ f, s.issued f = false) ∧ (∀ k, s.registered k = false) ∧
    (∀ k, s.child k = .absent) ∧ (∀ k, s.callback k = .idle) ∧ s.parent = .body

def machine (K F E : Type) [DecidableEq K] [DecidableEq F] [DecidableEq E] :
    Machine (State K F E) (Act K F E) where
  start := Start
  step := step

/-! ## Anyone holding the group

`create_task` can be called by any task that was given the group.  The machine
below adds such callers; everything else is the machine above.
-/

def CallbackPc.abortPc : CallbackPc K F → Option (AbortPc K)
  | .abort pc => some pc
  | _ => none

def ParentPc.abortPc : ParentPc K F → Option (AbortPc K)
  | .abort _ _ _ pc => some pc
  | _ => none

/-- The `_abort` that a thread is inside of. -/
def State.abortOf (s : State K F E) : Caller K E → Option (AbortPc K)
  | .callback k => (s.callback k).abortPc
  | .parent => s.parent.abortPc
  | .other _ => none

/-- `outsider` are the `create_task` calls of tasks that are neither the parent
nor children.  `sent` are the children on which an `_abort` has called
`cancel()`; nothing in the program reads it. -/
structure Shared (K F E O : Type) where
  group : State K F E
  outsider : O → Option (K × CreatePc)
  sent : K → Bool

inductive SharedAct (K F E O : Type) where
  | group (a : Act K F E)
  /-- `o` calls `create_task`, which makes `k` -/
  | create (o : O) (k : K)
  /-- the next step of the call `o` is inside of -/
  | outsider (o : O)

/-- The child on which the next step of an `_abort` calls `cancel()`. -/
def AbortPc.sends (s : State K F E) : AbortPc K → Option K
  | .loop (k :: _) => if s.kernel.state (.task (some k)) = .pending then some k else none
  | _ => none

/-- The thread whose `_abort`, if it is inside of one, a step advances. -/
def Act.aborter : Act K F E → Option (Caller K E)
  | .callback k => some (.callback k)
  | .parent _ => some .parent
  | _ => none

/-- The child on which the step calls `cancel()` for an `_abort`. -/
def Act.sends (s : State K F E) (a : Act K F E) : Option K :=
  (a.aborter.bind s.abortOf).bind (AbortPc.sends s)

def noteSent (sent : K → Bool) : Option K → K → Bool
  | some k => Function.update sent k true
  | none => sent

variable {O : Type} [DecidableEq O]

def sharedStep (s : Shared K F E O) : SharedAct K F E O → Option (Shared K F E O)
  | .group a =>
      (step s.group a).map fun group =>
        { s with group := group, sent := noteSent s.sent (a.sends s.group) }
  | .create o k =>
      if s.outsider o = none then
        some { s with outsider := Function.update s.outsider o (some (k, .exiting)) }
      else none
  | .outsider o =>
      match s.outsider o with
      | none => none
      | some (k, pc) =>
          (createStep s.group k pc).map fun next =>
            { s with
              group := next.1
              outsider := Function.update s.outsider o (next.2.map (k, ·)) }

def SharedStart (s : Shared K F E O) : Prop :=
  Start s.group ∧ (∀ o, s.outsider o = none) ∧ ∀ k, s.sent k = false

def sharedMachine (K F E O : Type) [DecidableEq K] [DecidableEq F] [DecidableEq E]
    [DecidableEq O] : Machine (Shared K F E O) (SharedAct K F E O) where
  start := SharedStart
  step := sharedStep

/-! ## Anyone may cancel the parent

In the machine above only the group itself cancels the parent.  Here the threads
of `E` call `cancel` on it as well, at any time and as often as they like.
-/

/-- `ended` is what the body ended with and `raised` what the exception group of
`_aexit` was made of; nothing in the program reads them. -/
structure Watched (K F E : Type) where
  group : State K F E
  ended : Option Exc
  raised : Option (List (Source K))

inductive WatchedAct (K F E : Type) where
  | group (a : Act K F E)
  /-- somebody outside cancels the parent -/
  | cancelParent (e : E)

/-- The step raises the exception group, with the `_errors` it finds. -/
def raises (s : State K F E) : Act K F E → Option (List (Source K))
  | .parent _ => match s.parent with
      | .cancelling =>
          if s.kernel.numCancelsRequested none = 0 then some s.errors else none
      | .inReCancel => if s.kernel.calls .parent = [] then some s.errors else none
      | _ => none
  | _ => none

def noteEnd (ended : Option Exc) : Act K F E → Option Exc
  | .bodyEnd exc => exc
  | _ => ended

def watchedStep (s : Watched K F E) : WatchedAct K F E → Option (Watched K F E)
  | .group a =>
      (step s.group a).map fun group =>
        { group := group
          ended := noteEnd s.ended a
          raised := (raises s.group a).or s.raised }
  | .cancelParent e =>
      (s.group.kernel.step (.cancel (.other e) none)).map fun kernel =>
        { s with group := s.group.setKernel kernel }

def WatchedStart (s : Watched K F E) : Prop :=
  Start s.group ∧ s.raised = none

def watchedMachine (K F E : Type) [DecidableEq K] [DecidableEq F] [DecidableEq E] :
    Machine (Watched K F E) (WatchedAct K F E) where
  start := WatchedStart
  step := watchedStep

end MtAsyncio.TaskGroup
