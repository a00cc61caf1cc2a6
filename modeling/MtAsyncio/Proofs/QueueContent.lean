/-
Module: MtAsyncio.Proofs.QueueContent
Purpose: What is in a queue: nothing that puts accept is lost or doubled, the
  queue never holds more than `maxsize` items, and every get returns the item
  that the discipline of its class prescribes.
Trusted boundary: none
Main exports: Follows, ContentLaw, queue_content_law
-/
import Mathlib.Data.Multiset.AddSub
import MtAsyncio.Model.Queue
import MtAsyncio.Proofs.WaitingLists

namespace MtAsyncio.Queue

open Lib (Discipline Machine Storage oldestFirst newestFirst leastFirst)
open Tasks
open Waiting

variable {A B T F C : Type} [DecidableEq T] [DecidableEq F]
variable {D : Discipline A} {storage : Storage D B} {maxsize : Int}
variable {s s' : State A B T F C} {a : Act A T F C} {t : T} {f : F} {k : Call A} {x : A}

/-! ## What a step does to the contents -/

/-- Nothing happens to the items, one is accepted into a queue that is not full,
or one is returned. -/
inductive Change (storage : Storage D B) (maxsize : Int) (s s' : State A B T F C) : Prop where
  | same (store : s'.store = s.store) (accepted : s'.accepted = s.accepted)
      (returned : s'.returned = s.returned)
      (unfinished : s'.unfinished + s'.dones = s.unfinished + s.dones)
  | accepts (x : A) (room : ¬Full storage maxsize s) (store : s'.store = storage.put s.store x)
      (accepted : s'.accepted = s.accepted ++ [x]) (returned : s'.returned = s.returned)
      (unfinished : s'.unfinished = s.unfinished + 1) (dones : s'.dones = s.dones)
  | returns (x : A) (got : storage.get s.store = some (x, s'.store))
      (accepted : s'.accepted = s.accepted) (returned : s'.returned = s.returned ++ [x])
      (unfinished : s'.unfinished = s.unfinished) (dones : s'.dones = s.dones)

theorem putLocked_change (room : ¬Full storage maxsize s) (x : A) :
    Change storage maxsize s (putLocked storage s x) :=
  .accepts x room rfl rfl rfl rfl rfl

theorem getLocked_change (taken : getLocked storage s = some s') :
    Change storage maxsize s s' := by
  obtain ⟨⟨x, rest⟩, got, rfl⟩ := Option.map_eq_some_iff.mp taken
  exact .returns x got rfl rfl rfl rfl

theorem wait_change (taken : wait s t k f = some s') : Change storage maxsize s s' := by
  obtain ⟨waits, -, rfl⟩ := Option.map_eq_some_iff.mp taken
  exact .same rfl rfl rfl rfl

omit [DecidableEq F] in
theorem Change.setPlace (change : Change storage maxsize s s') (p : Place (Call A) F) :
    Change storage maxsize s (s'.setPlace t p) := by
  cases change with
  | same store accepted returned unfinished => exact .same store accepted returned unfinished
  | accepts x room store accepted returned unfinished dones =>
      exact .accepts x room store accepted returned unfinished dones
  | returns x got accepted returned unfinished dones =>
      exact .returns x got accepted returned unfinished dones

theorem enter_change (taken : enter storage maxsize s t k f = some s') :
    Change storage maxsize s s' := by
  cases k with
  | put x =>
      simp only [enter] at taken
      split at taken
      · exact wait_change taken
      · rename_i room
        cases taken
        exact (putLocked_change room x).setPlace .away
  | get =>
      simp only [enter] at taken
      split at taken
      · obtain ⟨s', got, rfl⟩ := Option.map_eq_some_iff.mp taken
        exact (getLocked_change got).setPlace .away
      · exact wait_change taken

theorem step_change [DecidableEq C] (taken : step storage maxsize s a = some s') :
    Change storage maxsize s s' := by
  cases a with
  | around a =>
      obtain ⟨waits, -, rfl⟩ := Option.map_eq_some_iff.mp taken
      exact .same rfl rfl rfl rfl
  | call t k f =>
      simp only [step] at taken
      split at taken
      · exact enter_change taken
      · cases taken
  | task t =>
      simp only [step, taskStep] at taken
      split at taken
      · obtain ⟨waits, -, rfl⟩ := Option.map_eq_some_iff.mp taken
        exact .same rfl rfl rfl rfl
      · cases taken
        exact .same rfl rfl rfl rfl
      all_goals cases taken
  | again t f =>
      simp only [step] at taken
      split at taken
      · exact enter_change taken
      · cases taken
  | putNowait x =>
      cases taken
      simp only [putNowait]
      split
      · exact .same rfl rfl rfl rfl
      · rename_i room
        exact putLocked_change room x
  | getNowait =>
      cases taken
      simp only [getNowait]
      split
      · exact .same rfl rfl rfl rfl
      · cases got : getLocked storage s with
        | none => exact .same rfl rfl rfl rfl
        | some s' => exact getLocked_change got
  | taskDone =>
      cases taken
      simp only [taskDone]
      split
      · exact .same rfl rfl rfl rfl
      · refine .same rfl rfl rfl ?_
        simp only
        omega
  | setFinished =>
      simp only [step] at taken
      split at taken
      · cases taken
      · cases taken
        exact .same rfl rfl rfl rfl

/-! ## The law -/

/-- The contents change as the discipline of the class prescribes. -/
def Follows (storage : Storage D B) (s s' : State A B T F C) : Prop :=
  (s'.accepted = s.accepted ∧ s'.returned = s.returned ∧
    storage.contents s'.store = storage.contents s.store) ∨
  (∃ x, s'.accepted = s.accepted ++ [x] ∧ s'.returned = s.returned ∧
    D.accepts (storage.contents s.store) x (storage.contents s'.store)) ∨
  ∃ x, s'.accepted = s.accepted ∧ s'.returned = s.returned ++ [x] ∧
    D.returns (storage.contents s.store) x (storage.contents s'.store)

/-- A call that raises leaves the queue as it is. -/
structure RaisesCleanly (storage : Storage D B) (maxsize : Int) (s : State A B T F C) : Prop where
  putNowait : ∀ x, (putNowait storage maxsize s x).2 ≠ none → (putNowait storage maxsize s x).1 = s
  getNowait : (getNowait storage s).2 ≠ none → (getNowait storage s).1 = s
  taskDone : (taskDone s).2 ≠ none → (taskDone s).1 = s

structure ContentLaw [DecidableEq C] (storage : Storage D B) (maxsize : Int) (s : State A B T F C) :
    Prop where
  conserved : (s.accepted : Multiset A) =
    (s.returned : Multiset A) + (storage.contents s.store : Multiset A)
  capacity : 0 < maxsize → (qlen storage s : Int) ≤ maxsize
  unfinished : (s.unfinished : Int) = (s.accepted.length : Int) - s.dones
  follows : ∀ a s', step storage maxsize s a = some s' → Follows storage s s'
  raises : RaisesCleanly storage maxsize s

omit [DecidableEq T] [DecidableEq F] in
theorem Change.follows (change : Change storage maxsize s s') : Follows storage s s' := by
  cases change with
  | same store accepted returned unfinished => exact .inl ⟨accepted, returned, by rw [store]⟩
  | accepts x room store accepted returned unfinished dones =>
      refine .inr (.inl ⟨x, accepted, returned, ?_⟩)
      rw [store]
      exact storage.put_accepts s.store x
  | returns x got accepted returned unfinished dones =>
      exact .inr (.inr ⟨x, accepted, returned, storage.get_returns _ _ _ got⟩)

theorem raisesCleanly (s : State A B T F C) : RaisesCleanly storage maxsize s := by
  refine ⟨?_, ?_, ?_⟩
  · intro x raises
    simp only [putNowait] at raises ⊢
    split
    · rfl
    · rename_i room
      rw [if_neg room] at raises
      exact absurd rfl raises
  · intro raises
    simp only [getNowait] at raises ⊢
    split
    · rfl
    · rename_i nonempty
      rw [if_neg nonempty] at raises
      exact absurd rfl raises
  · intro raises
    simp only [taskDone] at raises ⊢
    split
    · rfl
    · rename_i some
      rw [if_neg some] at raises
      exact absurd rfl raises

theorem coe_append_singleton (items : List A) (x : A) :
    ((items ++ [x] : List A) : Multiset A) = x ::ₘ (items : Multiset A) :=
  Multiset.coe_eq_coe.mpr List.perm_append_comm

/-- What the steps keep of the law. -/
structure Kept (storage : Storage D B) (maxsize : Int) (s : State A B T F C) : Prop where
  conserved : (s.accepted : Multiset A) =
    (s.returned : Multiset A) + (storage.contents s.store : Multiset A)
  capacity : 0 < maxsize → (qlen storage s : Int) ≤ maxsize
  unfinished : s.unfinished + s.dones = s.accepted.length

omit [DecidableEq T] [DecidableEq F] in
theorem Kept.change (kept : Kept storage maxsize s) (change : Change storage maxsize s s') :
    Kept storage maxsize s' := by
  obtain ⟨conserved, capacity, balance⟩ := kept
  cases change with
  | same store accepted returned unfinished =>
      refine ⟨?_, ?_, ?_⟩
      · rw [accepted, returned, store, conserved]
      · simp only [qlen, store]
        exact capacity
      · rw [accepted]
        omega
  | accepts x room store accepted returned unfinished dones =>
      have takes := storage.put_accepts s.store x
      have length := Discipline.accepts_length takes
      refine ⟨?_, ?_, ?_⟩
      · have added : (storage.contents (storage.put s.store x) : Multiset A) =
            x ::ₘ (storage.contents s.store : Multiset A) :=
          Multiset.coe_eq_coe.mpr (D.accepts_perm _ _ _ takes)
        rw [accepted, returned, store, added, Multiset.add_cons, ← conserved,
          coe_append_singleton]
      · intro bounded
        have left : ¬maxsize ≤ qlen storage s := fun filled => room ⟨bounded, filled⟩
        simp only [qlen, store, length] at left ⊢
        omega
      · rw [accepted, List.length_append, List.length_singleton]
        omega
  | returns x got accepted returned unfinished dones =>
      have gives := storage.get_returns _ _ _ got
      have length := Discipline.returns_length gives
      refine ⟨?_, ?_, ?_⟩
      · have removed : (storage.contents s.store : Multiset A) =
            x ::ₘ (storage.contents s'.store : Multiset A) :=
          Multiset.coe_eq_coe.mpr (D.returns_perm _ _ _ gives)
        rw [accepted, returned, conserved, removed, coe_append_singleton, Multiset.add_cons,
          Multiset.cons_add]
      · intro bounded
        have within := capacity bounded
        simp only [qlen] at within ⊢
        omega
      · rw [accepted]
        omega

omit [DecidableEq T] [DecidableEq F] in
theorem Kept.start (start : Start storage s) : Kept storage maxsize s := by
  obtain ⟨-, store, unfinished, -, -, accepted, returned, dones⟩ := start
  refine ⟨?_, ?_, ?_⟩
  · rw [accepted, returned, store, storage.contents_empty]
    rfl
  · intro bounded
    simp only [qlen, store, storage.contents_empty, List.length_nil]
    omega
  · rw [unfinished, dones, accepted]
    rfl

theorem content_law [DecidableEq C] (reached : (machine storage maxsize T F C).Reachable s) :
    ContentLaw storage maxsize s := by
  have kept : Kept storage maxsize s := by
    refine reached.invariant (Kept storage maxsize) ?_ ?_
    · intro s start
      exact .start start
    · intro s a s' kept _ taken
      exact kept.change (step_change taken)
  have balance := kept.unfinished
  exact ⟨kept.conserved, kept.capacity, by omega, fun a s' taken => (step_change taken).follows,
    raisesCleanly s⟩

/-- First in, first out over a whole run. -/
theorem accepted_eq_returned_append [DecidableEq C] {s : State A (List A) T F C}
    (reached : (machine (deque A) maxsize T F C).Reachable s) :
    s.accepted = s.returned ++ s.store := by
  refine reached.invariant (fun s => s.accepted = s.returned ++ s.store) ?_ ?_
  · rintro s ⟨-, store, -, -, -, accepted, returned, -⟩
    rw [accepted, returned, store]
    rfl
  · intro s a s' inOrder _ taken
    cases step_change taken with
    | same store accepted returned unfinished => rw [accepted, returned, store, inOrder]
    | accepts x room store accepted returned unfinished dones =>
        rw [accepted, returned, store, inOrder, List.append_assoc]
        rfl
    | returns x got accepted returned unfinished dones =>
        have oldest : s.store = x :: s'.store := (deque A).get_returns _ _ _ got
        rw [accepted, returned, inOrder, oldest, List.append_assoc]
        rfl

def freshState (storage : Storage D B) (T F C : Type) : State A B T F C where
  waits := freshWaits Side (Call A) T F C
  store := storage.empty
  unfinished := 0
  finished := true
  setting := 0
  accepted := []
  returned := []
  dones := 0

omit [DecidableEq T] [DecidableEq F] in
theorem freshState_start : Start storage (freshState storage T F C) :=
  ⟨freshWaits_fresh, rfl, rfl, rfl, rfl, rfl, rfl, rfl⟩

/-- A heap that looks for its least item when it is asked for it. -/
def lazyHeap : Storage (leastFirst Nat) (List Nat) where
  empty := []
  contents items := items
  put items x := items ++ [x]
  get items := items.min?.map fun x => (x, items.erase x)
  contents_empty := rfl
  put_accepts _ _ := List.perm_append_comm
  get_returns := by
    intro items x rest got
    obtain ⟨least, isLeast, same⟩ := Option.map_eq_some_iff.mp got
    cases same
    obtain ⟨member, below⟩ := List.min?_eq_some_iff.mp isLeast
    exact ⟨List.perm_cons_erase member, below⟩
  get_isSome := by
    intro items nonempty
    rw [Option.isSome_map]
    exact List.isSome_min?_iff.mpr nonempty

/-- A getter waits; two items are put into a queue of one slot, the second by a
putter that has to wait until the getter has taken the first. -/
def handOverRun : List (Act Nat Nat Nat Unit) :=
  List.flatten
    [[.call 0 .get 10, .task 0, .task 0, .task 0, .call 1 (.put 5) 11, .call 2 (.put 3) 12],
      [.around (.kernel (.wake (.fut 10))), .task 0, .task 0, .task 0, .again 0 13],
      .task 2 :: .around (.kernel (.wake (.fut 12))) :: .replicate 5 (.task 2)]

theorem handOverRun_ends :
    ((machine (deque Nat) 1 Nat Nat Unit).exec (freshState (deque Nat) _ _ _) handOverRun).any
      (fun s => s.accepted = [5] ∧ s.returned = [5] ∧ s.waits.place 2 = .woken (.put 3) 12) =
      true := by
  decide +kernel

/-- A full priority queue gives out its least item. -/
def leastRun : List (Act Nat Nat Nat Unit) :=
  [.putNowait 5, .putNowait 3, .putNowait 4, .getNowait, .taskDone]

theorem leastRun_ends :
    ((machine lazyHeap 2 Nat Nat Unit).exec (freshState lazyHeap _ _ _) leastRun).any
      (fun s => s.accepted = [5, 3] ∧ s.returned = [3] ∧ s.unfinished = 1) = true := by
  decide +kernel

end MtAsyncio.Queue
