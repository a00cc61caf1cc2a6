/-
Module: MtAsyncio.Lib.Callbacks
Purpose: Callbacks that a loop attaches to the futures of a list, one for each place
  of it.  One whose future is done is scheduled at once, the others when it gets
  done; a scheduled callback is run once.  So those that ran are callbacks of
  different places, and each has seen the outcome of its own future.
Trusted boundary: none
Main exports: Phase, Board, Board.attach, Board.finish, Board.run, Board.detach,
  Callbacks, Callbacks.length_le, Callbacks.mem_of_full, Board.Ended, Board.Ordered,
  Ordered.attach, Ordered.finish, Ordered.run, Ordered.detach, Ordered.callbacks,
  Ordered.full
-/
import Mathlib.Data.List.Nodup
import Mathlib.Data.List.Perm.Subperm
import Mathlib.Data.List.Range
import Mathlib.Logic.Function.Basic

namespace MtAsyncio.Lib

/-- Where the callback of a place stands. -/
inductive Phase where
  | idle
  | attached
  | scheduled
  | ran
deriving DecidableEq

/-- The outcomes of the futures, the callbacks, and those that ran, with the outcomes
they saw. -/
structure Board (F O : Type*) where
  status : F → Option O
  phase : Nat → Phase
  order : List (Nat × O)

/-! ## The callbacks that ran -/

section Callbacks

variable {O : Type*} {n i : Nat} {o : O} {order : List (Nat × O)}

/-- The callbacks are those of different places of a list of `n`. -/
structure Callbacks (n : Nat) (order : List (Nat × O)) : Prop where
  nodup : (order.map Prod.fst).Nodup
  bound : ∀ i ∈ order.map Prod.fst, i < n

theorem Callbacks.length_le (callbacks : Callbacks n order) : order.length ≤ n := by
  have within : order.map Prod.fst ⊆ List.range n :=
    fun i member => List.mem_range.mpr (callbacks.bound i member)
  have fewer := (callbacks.nodup.subperm within).length_le
  simpa using fewer

/-- Once all callbacks ran, each of them did. -/
theorem Callbacks.mem_of_full (callbacks : Callbacks n order) (full : order.length = n)
    (bound : i < n) : i ∈ order.map Prod.fst := by
  have within : order.map Prod.fst ⊆ List.range n :=
    fun i member => List.mem_range.mpr (callbacks.bound i member)
  have all := (callbacks.nodup.subperm within).perm_of_length_le (by simp [full])
  exact all.mem_iff.mpr (List.mem_range.mpr bound)

theorem Callbacks.init (callbacks : Callbacks n (order ++ [(i, o)])) :
    Callbacks n order ∧ i ∉ order.map Prod.fst ∧ i < n ∧ order.length < n := by
  have nodup := callbacks.nodup
  rw [List.map_append, List.nodup_append] at nodup
  refine ⟨⟨nodup.1, ?_⟩, ?_, ?_, ?_⟩
  · intro j member
    exact callbacks.bound j (by simp only [List.map_append, List.mem_append, member, true_or])
  · intro member
    exact nodup.2.2 i member i (by simp) rfl
  · exact callbacks.bound i (by simp)
  · have fewer := callbacks.length_le
    simp only [List.length_append, List.length_singleton] at fewer
    omega

end Callbacks

variable {F O : Type*} {fs : List F} {b : Board F O} {n index i : Nat} {f : F} {o : O}

/-! ## What happens to them -/

namespace Board

/-- The loop attaches a callback to `f`, or schedules it at once. -/
def attach (b : Board F O) (index : Nat) (f : F) : Board F O :=
  { b with
    phase := Function.update b.phase index
      (if (b.status f).isSome then .scheduled else .attached) }

/-- A callback is run. -/
def run (b : Board F O) (index : Nat) (o : O) : Board F O :=
  { b with
    phase := Function.update b.phase index .ran
    order := b.order ++ [(index, o)] }

/-- `f` is done, and its callbacks are scheduled. -/
def finish [DecidableEq F] (b : Board F O) (fs : List F) (f : F) (o : O) : Board F O :=
  { b with
    status := Function.update b.status f (some o)
    phase := fun index =>
      if b.phase index = .attached ∧ fs[index]? = some f then .scheduled else b.phase index }

/-- The callbacks that wait for `f` are taken back. -/
def detach [DecidableEq F] (b : Board F O) (fs : List F) (f : F) : Board F O :=
  { b with
    phase := fun index =>
      if b.phase index = .attached ∧ fs[index]? = some f then .idle else b.phase index }

/-- The future of place `i` is done with outcome `o`. -/
def Ended (b : Board F O) (fs : List F) (i : Nat) (o : O) : Prop :=
  ∃ f, fs[i]? = some f ∧ b.status f = some o

/-- The loop has come to place `n`.  Each callback is attached once, scheduled when its
future is done, and run once. -/
structure Ordered (fs : List F) (n : Nat) (b : Board F O) : Prop where
  nodup : (b.order.map Prod.fst).Nodup
  ran : ∀ i, b.phase i = .ran ↔ i ∈ b.order.map Prod.fst
  ended : ∀ i o, (i, o) ∈ b.order → b.Ended fs i o
  scheduled : ∀ i, b.phase i = .scheduled → ∃ o, b.Ended fs i o
  attached : ∀ i, b.phase i = .attached → ∃ f, fs[i]? = some f ∧ b.status f = none
  idle : ∀ i, n ≤ i → b.phase i = .idle
  within : n ≤ fs.length

theorem Ended.bound (ended : b.Ended fs i o) : i < fs.length := by
  obtain ⟨f, at_, -⟩ := ended
  exact (List.getElem?_eq_some_iff.mp at_).1

theorem status_finish [DecidableEq F] (g : F) :
    (b.finish fs f o).status g = if g = f then some o else b.status g :=
  Function.update_apply ..

/-- What is done stays done. -/
theorem Ended.finish [DecidableEq F] {o' : O} (ended : b.Ended fs i o')
    (live : b.status f = none) : (b.finish fs f o).Ended fs i o' := by
  obtain ⟨g, at_, done⟩ := ended
  refine ⟨g, at_, ?_⟩
  rw [status_finish]
  split
  · rename_i isF
    rw [isF, live] at done
    cases done
  · exact done

namespace Ordered

theorem callbacks (ordered : b.Ordered fs n) : Callbacks fs.length b.order := by
  refine ⟨ordered.nodup, ?_⟩
  intro i member
  obtain ⟨ran, isRan, rfl⟩ := List.mem_map.mp member
  exact (ordered.ended ran.1 ran.2 isRan).bound

theorem start (phase : ∀ i, b.phase i = .idle) (order : b.order = []) : b.Ordered fs 0 := by
  constructor
  all_goals simp [phase, order]

/-- A callback that has not run is no longer or not yet where it was. -/
theorem ran_moved {phase : Nat → Phase} (ordered : b.Ordered fs n)
    (moved : ∀ i, phase i = .ran ↔ b.phase i = .ran) (i : Nat) :
    phase i = .ran ↔ i ∈ b.order.map Prod.fst :=
  (moved i).trans (ordered.ran i)

theorem attach (ordered : b.Ordered fs index) (here : fs[index]? = some f) :
    (b.attach index f).Ordered fs (index + 1) := by
  have isIdle : b.phase index = .idle := ordered.idle index le_rfl
  have bound : index < fs.length := (List.getElem?_eq_some_iff.mp here).1
  have phase : ∀ i, (b.attach index f).phase i =
      if i = index then (if (b.status f).isSome then .scheduled else .attached) else b.phase i :=
    fun i => Function.update_apply ..
  refine ⟨ordered.nodup, ordered.ran_moved ?_, ordered.ended, ?_, ?_, ?_, bound⟩
  · intro i
    rw [phase]
    split
    · rename_i self
      rw [self, isIdle]
      split <;> decide
    · rfl
  · intro i scheduled
    rw [phase] at scheduled
    split at scheduled
    · rename_i self
      cases status : b.status f with
      | none => simp [status] at scheduled
      | some o => exact ⟨o, f, self ▸ here, status⟩
    · exact ordered.scheduled i scheduled
  · intro i attached
    rw [phase] at attached
    split at attached
    · rename_i self
      cases status : b.status f with
      | none => exact ⟨f, self ▸ here, status⟩
      | some o => simp [status] at attached
    · exact ordered.attached i attached
  · intro i beyond
    rw [phase, if_neg (by omega)]
    exact ordered.idle i (by omega)

theorem finish [DecidableEq F] (ordered : b.Ordered fs n) (live : b.status f = none) :
    (b.finish fs f o).Ordered fs n := by
  have phase : ∀ i, (b.finish fs f o).phase i =
      if b.phase i = .attached ∧ fs[i]? = some f then .scheduled else b.phase i := fun _ => rfl
  refine ⟨ordered.nodup, ordered.ran_moved ?_, ?_, ?_, ?_, ?_, ordered.within⟩
  · intro i
    rw [phase]
    split
    · rename_i here
      rw [here.1]
      decide
    · rfl
  · intro i o' member
    exact (ordered.ended i o' member).finish live
  · intro i scheduled
    rw [phase] at scheduled
    split at scheduled
    · rename_i here
      refine ⟨o, f, here.2, ?_⟩
      rw [status_finish, if_pos rfl]
    · obtain ⟨o', ended⟩ := ordered.scheduled i scheduled
      exact ⟨o', ended.finish live⟩
  · intro i attached
    rw [phase] at attached
    split at attached
    · cases attached
    · rename_i other
      obtain ⟨g, at_, pending⟩ := ordered.attached i attached
      refine ⟨g, at_, ?_⟩
      rw [status_finish, if_neg]
      · exact pending
      · rintro rfl
        exact other ⟨attached, at_⟩
  · intro i beyond
    rw [phase, ordered.idle i beyond]
    rfl

theorem run (ordered : b.Ordered fs n) (scheduled : b.phase i = .scheduled)
    (ended : b.Ended fs i o) : (b.run i o).Ordered fs n := by
  have new : i ∉ b.order.map Prod.fst := by
    rw [← ordered.ran i, scheduled]
    decide
  have phase : ∀ j, (b.run i o).phase j = if j = i then .ran else b.phase j :=
    fun j => Function.update_apply ..
  have order : (b.run i o).order.map Prod.fst = b.order.map Prod.fst ++ [i] := by
    simp [Board.run]
  refine ⟨?_, ?_, ?_, ?_, ?_, ?_, ordered.within⟩
  · rw [order, List.nodup_append]
    refine ⟨ordered.nodup, List.nodup_singleton i, ?_⟩
    rintro a member b last rfl
    exact new (List.mem_singleton.mp last ▸ member)
  · intro j
    rw [phase, order, List.mem_append, List.mem_singleton, ← ordered.ran j]
    split
    · rename_i self
      simp [self]
    · rename_i other
      simp [other]
  · intro j o' member
    obtain member | last := List.mem_append.mp member
    · exact ordered.ended j o' member
    · cases List.mem_singleton.mp last
      exact ended
  · intro j isScheduled
    rw [phase] at isScheduled
    split at isScheduled
    · cases isScheduled
    · exact ordered.scheduled j isScheduled
  · intro j isAttached
    rw [phase] at isAttached
    split at isAttached
    · cases isAttached
    · exact ordered.attached j isAttached
  · intro j beyond
    rw [phase]
    split
    · rename_i self
      have isIdle := ordered.idle j beyond
      rw [self, scheduled] at isIdle
      cases isIdle
    · exact ordered.idle j beyond

theorem detach [DecidableEq F] (ordered : b.Ordered fs n) : (b.detach fs f).Ordered fs n := by
  have phase : ∀ i, (b.detach fs f).phase i =
      if b.phase i = .attached ∧ fs[i]? = some f then .idle else b.phase i := fun _ => rfl
  refine ⟨ordered.nodup, ordered.ran_moved ?_, ordered.ended, ?_, ?_, ?_, ordered.within⟩
  · intro i
    rw [phase]
    split
    · rename_i waits
      rw [waits.1]
      decide
    · rfl
  · intro i scheduled
    rw [phase] at scheduled
    split at scheduled
    · cases scheduled
    · exact ordered.scheduled i scheduled
  · intro i attached
    rw [phase] at attached
    split at attached
    · cases attached
    · exact ordered.attached i attached
  · intro i beyond
    rw [phase, ordered.idle i beyond, ite_self]

/-- When every future is done and has its callback, and no callback is left to run, all
of them have run. -/
theorem full (ordered : b.Ordered fs n) (done : ∀ f ∈ fs, (b.status f).isSome)
    (present : ∀ i < fs.length, b.phase i ≠ .idle) (ran : ∀ i, b.phase i ≠ .scheduled) :
    b.order.length = fs.length := by
  refine Nat.le_antisymm ordered.callbacks.length_le ?_
  have all : List.range fs.length ⊆ b.order.map Prod.fst := by
    intro i member
    rw [← ordered.ran i]
    cases phase : b.phase i with
    | ran => rfl
    | scheduled => exact absurd phase (ran i)
    | idle => exact absurd phase (present i (List.mem_range.mp member))
    | attached =>
        obtain ⟨f, at_, pending⟩ := ordered.attached i phase
        have isDone := done f (List.mem_of_getElem? at_)
        rw [pending] at isDone
        cases isDone
  have fewer := (List.nodup_range.subperm all).length_le
  simpa using fewer

end Ordered

/-! ## The places before the loop -/

/-- Every place that the loop has come by has its callback. -/
def Filled (n : Nat) (b : Board F O) : Prop :=
  ∀ i < n, b.phase i ≠ .idle

namespace Filled

theorem attach (filled : b.Filled index) : (b.attach index f).Filled (index + 1) := by
  intro i below
  show Function.update b.phase index _ i ≠ .idle
  rw [Function.update_apply]
  split
  · split <;> decide
  · exact filled i (by omega)

theorem finish [DecidableEq F] (filled : b.Filled n) : (b.finish fs f o).Filled n := by
  intro i below
  show (if b.phase i = .attached ∧ fs[i]? = some f then Phase.scheduled else b.phase i) ≠ .idle
  split
  · decide
  · exact filled i below

theorem run (filled : b.Filled n) : (b.run i o).Filled n := by
  intro j below
  show Function.update b.phase i .ran j ≠ .idle
  rw [Function.update_apply]
  split
  · decide
  · exact filled j below

end Filled

end Board

end MtAsyncio.Lib
