/-
Module: MtAsyncio.Model.QueueSteps
Purpose: `Queue` of `_sync.py` with the sections under `_mu` taken apart: each
  write of `_put_locked`, `_get_locked` and `task_done` that can be seen without
  `_mu` is a step of its own, and so are the `done()` test and the
  `set_result()` of a hand-off; `join` waits on the `Event` in `_finished`.
Trusted boundary: as for `MtAsyncio.Model.Tasks`; the storage hooks do not raise
  on what they are given; a section under the `_mu` of the event is one step
Main exports: Side, Call, Op, Effects, SectionPc, Frame, State, Act,
  sectionStep, frameStep, awaitStep, step, machine, zeroSince
-/
import MtAsyncio.Lib.Storage
import MtAsyncio.Model.SyncEvent

namespace MtAsyncio.QueueSteps

open Lib (Discipline Machine Storage)
open SyncEvent (SetPc wakeStep)
open Tasks
open Waiting

/-! ## Calls -/

/-- The two deques of the queue and the waiters of its event. -/
inductive Side where
  | getter
  | putter
  | joiner
deriving DecidableEq

/-- The calls that may wait. -/
inductive Call (A : Type) where
  | get
  | put (x : A)
  | join
deriving DecidableEq

/-- The calls with a section under `_mu` that may hand on a wake. -/
inductive Op (A : Type) where
  | get
  | put (x : A)
  | getNowait
  | putNowait (x : A)
deriving DecidableEq

/-- What a call has done to the queue. -/
structure Effects where
  stored : Bool
  counted : Bool
  removed : Bool
deriving DecidableEq

def Effects.nothing : Effects :=
  ⟨false, false, false⟩

/-- Where a thread stands in the locked section of a call. -/
inductive SectionPc (A F : Type) where
  | entering
  /-- is there room, or an item -/
  | testing
  /-- `_put` -/
  | storing (x : A)
  /-- `_unfinished += 1` -/
  | counting
  /-- `_finished.clear()` -/
  | clearing
  /-- `_get` -/
  | removing
  /-- the loop over a deque -/
  | waking (side : Side)
  /-- `fut` was popped and found not done -/
  | completing (side : Side) (fut : F)
  /-- the lock is released and the call ends, or raises -/
  | leaving (raises : Bool)
deriving DecidableEq

/-- Where a thread stands. -/
inductive Frame (A F : Type) where
  | outside
  | inside (op : Op A) (pc : SectionPc A F)
  /-- `join` has found unfinished items -/
  | joining
  /-- `join` has returned -/
  | joined
  /-- `task_done` has counted down to zero and released `_mu` -/
  | finishing
  /-- the loop of `_finished.set()` -/
  | setting (pc : SetPc F)
deriving DecidableEq

variable {A B T F C P : Type}

def Call.side : Call A → Side
  | .get => .getter
  | .put _ => .putter
  | .join => .joiner

/-- The call as one with a locked section. -/
def Call.op : Call A → Option (Op A)
  | .get => some .get
  | .put x => some (.put x)
  | .join => none

/-- Nothing of the queue is running on the thread. -/
def Frame.idle : Frame A F → Bool
  | .outside | .joined => true
  | _ => false

/-! ## The machine -/

/-!
`put`, `get` and `join` are called by tasks of `T`; `put_nowait`, `get_nowait`
and `task_done` by threads of `P`, which may be running tasks of `T`.
-/

/-- `value` is the flag of `_finished`.  `did` is what the last call of a thread
has done and `failures` are the calls that raised with what they had done;
nothing in the program reads these two. -/
structure State (A B T F C P : Type) where
  waits : Waits Side (Call A) T F C
  store : B
  unfinished : Nat
  value : Bool
  mu : Option (T ⊕ P)
  frame : T ⊕ P → Frame A F
  did : T ⊕ P → Effects
  failures : List (Op A × Effects)

inductive Act (A T F C P : Type) where
  | around (a : Around T F C)
  /-- a task calls `put` or `get`, or a thread `put_nowait` or `get_nowait` -/
  | call (u : T ⊕ P) (op : Op A)
  /-- the next step of a thread in its frame; `f` is the future it makes when it
  has to wait -/
  | step (u : T ⊕ P) (f : F)
  /-- the next step of `t` in an await, its except clause or behind it -/
  | await (t : T)
  /-- the section of `task_done` under `_mu` -/
  | taskDone (p : P)
  /-- `t` calls `join` and reads `_unfinished` -/
  | join (t : T)

variable [DecidableEq T] [DecidableEq F] [DecidableEq C] [DecidableEq P]
variable {D : Discipline A} (storage : Storage D B) (maxsize : Int)

namespace State

def goto (s : State A B T F C P) (u : T ⊕ P) (frame : Frame A F) : State A B T F C P :=
  { s with frame := Function.update s.frame u frame }

def note (s : State A B T F C P) (u : T ⊕ P) (effects : Effects) : State A B T F C P :=
  { s with did := Function.update s.did u effects }

/-- The call of `u` raises. -/
def fail (s : State A B T F C P) (u : T ⊕ P) (op : Op A) : State A B T F C P :=
  { s with failures := (op, s.did u) :: s.failures }

/-- The call of `t` makes a future and waits. -/
def park (s : State A B T F C P) (t : T) (k : Call A) (f : F) : Option (State A B T F C P) :=
  (s.waits.park t k k.side f).map fun waits => { s with waits := waits }.goto (.inl t) .outside

end State

/-- `full` -/
def Full (store : B) : Prop :=
  0 < maxsize ∧ maxsize ≤ (storage.contents store).length

instance (store : B) : Decidable (Full storage maxsize store) :=
  inferInstanceAs (Decidable (0 < maxsize ∧ maxsize ≤ (storage.contents store).length))

/-- The test at the head of the section: where the call goes on, `none` when it
has to wait. -/
def tested (store : B) : Op A → Option (SectionPc A F)
  | .put x => if Full storage maxsize store then none else some (.storing x)
  | .putNowait x =>
      some (if Full storage maxsize store then .leaving true else .storing x)
  | .get => if 0 < (storage.contents store).length then some .removing else none
  | .getNowait =>
      some (if (storage.contents store).length = 0 then .leaving true else .removing)

/-- A call waits: what is on its deque is behind it when `_mu` is released. -/
def waitStep (s : State A B T F C P) (u : T ⊕ P) (op : Op A) (f : F) :
    Option (State A B T F C P) :=
  match u, op with
  | .inl t, .put x => { s with mu := none }.park t (.put x) f
  | .inl t, .get => { s with mu := none }.park t .get f
  | _, _ => none

/-- One step of `u` in the section under `_mu`. -/
def sectionStep (s : State A B T F C P) (u : T ⊕ P) (op : Op A) (f : F) :
    SectionPc A F → Option (State A B T F C P)
  | .entering =>
      if s.mu.isSome then none
      else some ({ s with mu := some u }.goto u (.inside op .testing))
  | .testing =>
      match tested storage maxsize s.store op with
      | some pc => some (s.goto u (.inside op pc))
      | none => waitStep s u op f
  | .storing x =>
      some (({ s with store := storage.put s.store x }.note u { s.did u with stored := true }).goto
        u (.inside op .counting))
  | .counting =>
      some (({ s with unfinished := s.unfinished + 1 }.note u { s.did u with counted := true }).goto
        u (.inside op .clearing))
  | .clearing => some ({ s with value := false }.goto u (.inside op (.waking .getter)))
  | .removing =>
      match storage.get s.store with
      | some (_, rest) =>
          some (({ s with store := rest }.note u { s.did u with removed := true }).goto u
            (.inside op (.waking .putter)))
      | none => some (s.goto u (.inside op (.leaving true)))
  | .waking side =>
      match s.waits.waiters side with
      | [] => some (s.goto u (.inside op (.leaving false)))
      | fut :: rest =>
          some ({ s with waits := s.waits.setWaiters side rest }.goto u
            (.inside op (if s.waits.done fut then .waking side else .completing side fut)))
  | .completing _ fut =>
      some (if s.waits.done fut then s.goto u (.inside op (.leaving true))
        else { s with waits := s.waits.setKernel (s.waits.kernel.setState (.fut fut) .finished)
          }.goto u (.inside op (.leaving false)))
  | .leaving raises =>
      some ((if raises then s.fail u op else s).goto u .outside |> fun s => { s with mu := none })

/-- The locked section of `_finished.set()`. -/
def setLocked (s : State A B T F C P) (u : T ⊕ P) : State A B T F C P :=
  if s.value then s.goto u .outside
  else { s with value := true, waits := s.waits.setWaiters .joiner [] }.goto u
    (.setting (.loop (s.waits.waiters .joiner) (s.waits.waiters .joiner)))

/-- One step of `u` in its frame. -/
def frameStep (s : State A B T F C P) (u : T ⊕ P) (f : F) : Option (State A B T F C P) :=
  match s.frame u with
  | .outside | .joined => none
  | .inside op pc => sectionStep storage maxsize s u op f pc
  | .joining =>
      match u with
      | .inl t => if s.value then some (s.goto u .joined) else s.park t .join f
      | .inr _ => none
  | .finishing => some (setLocked s u)
  | .setting pc =>
      (wakeStep s.waits pc).map fun next =>
        { s with waits := next.1 }.goto u (if next.2.busy then .setting next.2 else .outside)

/-- A call that waited leaves with an exception. -/
def State.abandon (s : State A B T F C P) (t : T) (k : Call A) : State A B T F C P :=
  match k.op with
  | some op => s.fail (.inl t) op
  | none => s

/-- Behind the await: `put` and `get` go round their loop, `join` returns. -/
def Call.behind : Call A → Frame A F
  | .get => .inside .get .entering
  | .put x => .inside (.put x) .entering
  | .join => .joined

/-- One step of `t` in an await, its except clause or behind it. -/
def awaitStep (s : State A B T F C P) (t : T) : Option (State A B T F C P) :=
  match s.waits.place t with
  | .waiting k f pc =>
      (s.waits.await t k f pc).map fun waits =>
        match waits.place t with
        | .away => { s with waits := waits }.abandon t k
        | _ => { s with waits := waits }
  | .caught k f =>
      -- the clause of `join` takes the lock of the event
      if k.op.isSome ∧ s.mu.isSome then none
      else some ({ s with waits := s.waits.leave t k.side f }.abandon t k)
  | .woken k _ => some ({ s with waits := s.waits.setPlace t .away }.goto (.inl t) k.behind)
  | .away | .handing _ _ => none

/-- The task is in no await of the queue. -/
def State.away (s : State A B T F C P) (t : T) : Bool :=
  match s.waits.place t with
  | .away => true
  | _ => false

/-- Tasks call what may wait, threads what does not. -/
def mayCall (s : State A B T F C P) (u : T ⊕ P) (op : Op A) : Bool :=
  match u, op with
  | .inl t, .put _ => s.away t
  | .inl t, .get => s.away t
  | .inr _, .putNowait _ => true
  | .inr _, .getNowait => true
  | _, _ => false

/-- The section of `task_done` under `_mu`, which raises when nothing is
unfinished. -/
def taskDone (s : State A B T F C P) (p : P) : State A B T F C P :=
  if s.unfinished = 0 then s
  else { s with unfinished := s.unfinished - 1 }.goto (.inr p)
    (if s.unfinished - 1 = 0 then .finishing else .outside)

def step (s : State A B T F C P) : Act A T F C P → Option (State A B T F C P)
  | .around (.elsewhere t e) =>
      if (s.frame (.inl t)).idle then
        (s.waits.around (.elsewhere t e)).map fun waits => { s with waits := waits }
      else none
  | .around a => (s.waits.around a).map fun waits => { s with waits := waits }
  | .call u op =>
      if (s.frame u).idle ∧ mayCall s u op then
        some ((s.note u .nothing).goto u (.inside op .entering))
      else none
  | .step u f => frameStep storage maxsize s u f
  | .await t => if (s.frame (.inl t)).idle then awaitStep s t else none
  | .taskDone p =>
      if (s.frame (.inr p)).idle ∧ s.mu = none then some (taskDone s p) else none
  | .join t =>
      if (s.frame (.inl t)).idle ∧ s.away t then
        some (s.goto (.inl t) (if 0 < s.unfinished then .joining else .joined))
      else none

def Start (s : State A B T F C P) : Prop :=
  s.waits.Fresh ∧ s.store = storage.empty ∧ s.unfinished = 0 ∧ s.value = true ∧ s.mu = none ∧
    (∀ u, s.frame u = .outside) ∧ (∀ u, s.did u = .nothing) ∧ s.failures = []

def machine (T F C P : Type) [DecidableEq T] [DecidableEq F] [DecidableEq C] [DecidableEq P] :
    Machine (State A B T F C P) (Act A T F C P) where
  start := Start storage
  step := step storage maxsize

/-! ## History -/

/-- Whether `_unfinished` was zero at some moment since a task called `join`,
the moment of the call included. -/
def zeroSince (seen : T → Bool) (_ : State A B T F C P) (a : Act A T F C P)
    (next : State A B T F C P) (t : T) : Bool :=
  (match a with
    | .join u => if u = t then false else seen t
    | _ => seen t) || decide (next.unfinished = 0)

end MtAsyncio.QueueSteps
