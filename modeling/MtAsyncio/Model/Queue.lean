/-
Module: MtAsyncio.Model.Queue
Purpose: `Queue`, `LifoQueue` and `PriorityQueue` of `_sync.py`: the loops of
  `put` and `get` with their except clauses, `put_nowait`, `get_nowait` and
  `task_done`, over the storage hooks `_put` and `_get`.
Trusted boundary: as for `MtAsyncio.Model.Waiting`; `heapq` is a storage that
  gives out a least item first
Main exports: Side, Call, State, Act, deque, stack, putLocked, getLocked, enter,
  putNowait, getNowait, taskDone, step, machine
-/
import MtAsyncio.Lib.Storage
import MtAsyncio.Model.Waiting

namespace MtAsyncio.Queue

open Lib (Discipline Machine Storage oldestFirst newestFirst)
open Tasks
open Waiting

/-! ## The storage hooks -/

/-- `_queue` of a `Queue`: `append` and `popleft`. -/
def deque (A : Type) : Storage (oldestFirst A) (List A) where
  empty := []
  contents items := items
  put items x := items ++ [x]
  get
    | [] => none
    | x :: rest => some (x, rest)
  contents_empty := rfl
  put_accepts _ _ := rfl
  get_returns := by
    intro items x rest got
    cases items with
    | nil => cases got
    | cons y items =>
        cases got
        rfl
  get_isSome := by
    intro items nonempty
    cases items with
    | nil => exact absurd rfl nonempty
    | cons y items => rfl

/-- `_queue` of a `LifoQueue`: `append` and `pop`. -/
def stack (A : Type) : Storage (newestFirst A) (List A) where
  empty := []
  contents items := items
  put items x := items ++ [x]
  get items := items.getLast?.map fun x => (x, items.dropLast)
  contents_empty := rfl
  put_accepts _ _ := rfl
  get_returns := by
    intro items x rest got
    obtain ⟨last, isLast, same⟩ := Option.map_eq_some_iff.mp got
    cases same
    exact (List.dropLast_append_getLast? x isLast).symm
  get_isSome := by
    intro items nonempty
    rw [Option.isSome_map, List.getLast?_eq_some_getLast nonempty]
    rfl

/-! ## The queue -/

/-- The two deques of futures. -/
inductive Side where
  | getter
  | putter
deriving DecidableEq

/-- The calls that may wait. -/
inductive Call (A : Type) where
  | get
  | put (x : A)
deriving DecidableEq

variable {A B T F C : Type}

def Call.side : Call A → Side
  | .get => .getter
  | .put _ => .putter

/-- `finished` is the flag of `_finished`, `setting` counts the `task_done` that
have found no unfinished item and are about to set it.  The other fields are
history, which nothing in the program reads: the items that puts accepted and
gets returned, in order, and the number of `task_done` that did not raise. -/
structure State (A B T F C : Type) where
  waits : Waits Side (Call A) T F C
  store : B
  unfinished : Nat
  finished : Bool
  setting : Nat
  accepted : List A
  returned : List A
  dones : Nat

/-- What the methods raise. -/
inductive Error where
  | queueFull
  | queueEmpty
  /-- `ValueError('task_done() called too many times')` -/
  | tooManyTaskDone
deriving DecidableEq

inductive Act (A T F C : Type) where
  | around (a : Around T F C)
  /-- the first locked section of `put` or `get`; `f` is the future it makes when
  it has to wait -/
  | call (t : T) (k : Call A) (f : F)
  /-- the next step of `t` inside of the await or its except clause -/
  | task (t : T)
  /-- the locked section of a `put` or `get` that has waited -/
  | again (t : T) (f : F)
  | putNowait (x : A)
  | getNowait
  | taskDone
  /-- a `task_done` goes on to `_finished.set()` -/
  | setFinished

variable [DecidableEq T] [DecidableEq F] [DecidableEq C]
variable {D : Discipline A} (storage : Storage D B) (maxsize : Int)

def State.setPlace (s : State A B T F C) (t : T) (p : Place (Call A) F) : State A B T F C :=
  { s with waits := s.waits.setPlace t p }

/-- `_qlen` -/
def qlen (s : State A B T F C) : Nat :=
  (storage.contents s.store).length

/-- `full` -/
def Full (s : State A B T F C) : Prop :=
  0 < maxsize ∧ maxsize ≤ qlen storage s

instance (s : State A B T F C) : Decidable (Full storage maxsize s) :=
  inferInstanceAs (Decidable (0 < maxsize ∧ maxsize ≤ qlen storage s))

/-- `_put_locked` -/
def putLocked (s : State A B T F C) (x : A) : State A B T F C :=
  { s with
    store := storage.put s.store x
    unfinished := s.unfinished + 1
    finished := false
    waits := (s.waits.wakeNext .getter).1
    accepted := s.accepted ++ [x] }

/-- `_get_locked`; `none` when there is nothing to get. -/
def getLocked (s : State A B T F C) : Option (State A B T F C) :=
  (storage.get s.store).map fun got =>
    { s with
      store := got.2
      waits := (s.waits.wakeNext .putter).1
      returned := s.returned ++ [got.1] }

/-- The call makes a future and waits. -/
def wait (s : State A B T F C) (t : T) (k : Call A) (f : F) : Option (State A B T F C) :=
  (s.waits.park t k k.side f).map fun waits => { s with waits := waits }

/-- The locked section in the loop of `put` and of `get`. -/
def enter (s : State A B T F C) (t : T) (k : Call A) (f : F) : Option (State A B T F C) :=
  match k with
  | .put x =>
      if Full storage maxsize s then wait s t (.put x) f
      else some ((putLocked storage s x).setPlace t .away)
  | .get =>
      if 0 < qlen storage s then (getLocked storage s).map fun s' => s'.setPlace t .away
      else wait s t .get f

def putNowait (s : State A B T F C) (x : A) : State A B T F C × Option Error :=
  if Full storage maxsize s then (s, some .queueFull) else (putLocked storage s x, none)

def getNowait (s : State A B T F C) : State A B T F C × Option Error :=
  if qlen storage s = 0 then (s, some .queueEmpty)
  else ((getLocked storage s).getD s, none)

/-- The locked section of `task_done`. -/
def taskDone (s : State A B T F C) : State A B T F C × Option Error :=
  if s.unfinished = 0 then (s, some .tooManyTaskDone)
  else ({ s with
    unfinished := s.unfinished - 1
    dones := s.dones + 1
    setting := if s.unfinished - 1 = 0 then s.setting + 1 else s.setting }, none)

/-- One step of `t` inside of the await or its except clause. -/
def taskStep (s : State A B T F C) (t : T) : Option (State A B T F C) :=
  match s.waits.place t with
  | .waiting k f pc => (s.waits.await t k f pc).map fun waits => { s with waits := waits }
  | .caught k f => some { s with waits := s.waits.leave t k.side f }
  | .away | .woken _ _ | .handing _ _ => none

def step (s : State A B T F C) : Act A T F C → Option (State A B T F C)
  | .around a => (s.waits.around a).map fun waits => { s with waits := waits }
  | .call t k f =>
      match s.waits.place t with
      | .away => enter storage maxsize s t k f
      | _ => none
  | .task t => taskStep s t
  | .again t f =>
      match s.waits.place t with
      | .woken k _ => enter storage maxsize s t k f
      | _ => none
  | .putNowait x => some (putNowait storage maxsize s x).1
  | .getNowait => some (getNowait storage s).1
  | .taskDone => some (taskDone s).1
  | .setFinished =>
      if s.setting = 0 then none else some { s with setting := s.setting - 1, finished := true }

def Start (s : State A B T F C) : Prop :=
  s.waits.Fresh ∧ s.store = storage.empty ∧ s.unfinished = 0 ∧ s.finished = true ∧
    s.setting = 0 ∧ s.accepted = [] ∧ s.returned = [] ∧ s.dones = 0

def machine (T F C : Type) [DecidableEq T] [DecidableEq F] [DecidableEq C] :
    Machine (State A B T F C) (Act A T F C) where
  start := Start storage
  step := step storage maxsize

end MtAsyncio.Queue
