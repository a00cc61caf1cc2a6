/-
Module: MtAsyncio.Lib.Machine
Purpose: Interleaving machines.  A machine is a set of start states and a
  partial step function on labelled atomic steps; the label says which thread
  moves and resolves its choices.  `Reach` collects the states of the runs all
  of whose steps meet a guard, so the guard `True` gives plain reachability.
Trusted boundary: none
Main exports: Machine, Machine.Reach, Machine.Reachable, Machine.exec,
  Reach.invariant, Reachable.next, exec_invariant, Reachable.of_exec, Reach.of_execIf,
  Machine.Inevitably, inevitably_of_measure, Inevitably.not_of_invariant,
  Machine.recording, Reach.recorded
-/
import Mathlib.Data.Option.Basic
import Mathlib.Tactic.TypeStar

namespace MtAsyncio.Lib

/-- A machine over states `σ` with atomic steps labelled by `α`.  A step that
is not enabled in a state is `none` there. -/
structure Machine (σ α : Type*) where
  start : σ → Prop
  step : σ → α → Option σ

namespace Machine

variable {σ α : Type*}

/-- The states reached by the runs all of whose steps meet `guard`. -/
inductive Reach (M : Machine σ α) (guard : σ → α → Prop) : σ → Prop where
  | start {s : σ} (initial : M.start s) : Reach M guard s
  | step {s s' : σ} {a : α} (before : Reach M guard s) (allowed : guard s a)
      (taken : M.step s a = some s') : Reach M guard s'

/-- Reachability by any run. -/
abbrev Reachable (M : Machine σ α) : σ → Prop :=
  M.Reach fun _ _ => True

/-- Take the steps of a list in order. -/
def exec (M : Machine σ α) : σ → List α → Option σ
  | s, [] => some s
  | s, a :: rest => (M.step s a).bind fun s' => M.exec s' rest

/-- Take the steps of a list in order, checking `ok` before each of them. -/
def execIf (M : Machine σ α) (ok : σ → α → Bool) : σ → List α → Option σ
  | s, [] => some s
  | s, a :: rest =>
      if ok s a then (M.step s a).bind fun s' => M.execIf ok s' rest else none

variable {M : Machine σ α} {guard : σ → α → Prop}

/-- The invariant rule: what holds at the start and survives every guarded
step holds in every state of every guarded run. -/
theorem Reach.invariant (inv : σ → Prop)
    (initial : ∀ s, M.start s → inv s)
    (preserved : ∀ s a s', inv s → guard s a → M.step s a = some s' → inv s')
    {s : σ} (reached : M.Reach guard s) : inv s := by
  induction reached with
  | start isStart => exact initial _ isStart
  | step before allowed taken inductionHypothesis =>
      exact preserved _ _ _ inductionHypothesis allowed taken

/-- A stronger guard reaches fewer states. -/
theorem Reach.mono {weaker : σ → α → Prop}
    (implies : ∀ s a, guard s a → weaker s a)
    {s : σ} (reached : M.Reach guard s) : M.Reach weaker s := by
  induction reached with
  | start isStart => exact .start isStart
  | step before allowed taken inductionHypothesis =>
      exact .step inductionHypothesis (implies _ _ allowed) taken

theorem Reach.reachable {s : σ} (reached : M.Reach guard s) : M.Reachable s :=
  reached.mono fun _ _ _ => trivial

/-- One more step. -/
theorem Reachable.next {s s' : σ} {a : α} (reached : M.Reachable s)
    (taken : M.step s a = some s') : M.Reachable s' :=
  .step reached trivial taken

/-- A guarded run of the machine can be continued by a checked list of steps. -/
theorem Reach.of_execIf {ok : σ → α → Bool}
    (sound : ∀ s a, ok s a = true → guard s a) :
    ∀ {s s' : σ} {steps : List α}, M.Reach guard s →
      M.execIf ok s steps = some s' → M.Reach guard s' := by
  intro s s' steps
  induction steps generalizing s with
  | nil =>
      intro reached executed
      simp only [execIf, Option.some.injEq] at executed
      exact executed ▸ reached
  | cons a rest ih =>
      intro reached executed
      simp only [execIf] at executed
      split at executed
      · rename_i allowed
        obtain ⟨middle, taken, executed⟩ := Option.bind_eq_some_iff.mp executed
        exact ih (.step reached (sound _ _ allowed) taken) executed
      · cases executed

/-- A checked list of steps from a start state that ends where `p` holds. -/
theorem Reach.exists_of_execIf {ok : σ → α → Bool}
    (sound : ∀ s a, ok s a = true → guard s a) {s : σ} {steps : List α}
    {p : σ → Bool} (initial : M.start s)
    (ends : (M.execIf ok s steps).any p = true) :
    ∃ s', M.Reach guard s' ∧ p s' = true := by
  obtain ⟨s', executed, holds⟩ := (Option.any_eq_true p _).mp ends
  exact ⟨s', Reach.of_execIf sound (.start initial) executed, holds⟩

/-- What every step preserves is preserved by a list of steps. -/
theorem exec_invariant (inv : σ → Prop)
    (preserved : ∀ s a s', inv s → M.step s a = some s' → inv s') :
    ∀ {s s' : σ} {steps : List α}, inv s → M.exec s steps = some s' → inv s' := by
  intro s s' steps
  induction steps generalizing s with
  | nil =>
      intro holds executed
      simp only [exec, Option.some.injEq] at executed
      exact executed ▸ holds
  | cons a rest ih =>
      intro holds executed
      obtain ⟨middle, taken, executed⟩ := Option.bind_eq_some_iff.mp executed
      exact ih (preserved s a middle holds taken) executed

theorem Reachable.of_exec {s s' : σ} {steps : List α} (reached : M.Reachable s)
    (executed : M.exec s steps = some s') : M.Reachable s' :=
  exec_invariant M.Reachable (fun _ _ _ before taken => before.next taken) reached executed

/-- A list of steps from a start state that ends where `p` holds. -/
theorem Reachable.exists_of_exec {s : σ} {steps : List α} {p : σ → Bool}
    (initial : M.start s) (ends : (M.exec s steps).any p = true) :
    ∃ s', M.Reachable s' ∧ p s' = true := by
  obtain ⟨s', executed, holds⟩ := (Option.any_eq_true p _).mp ends
  exact ⟨s', Reachable.of_exec (.start initial) executed, holds⟩

/-! ## What is bound to happen -/

/-- Whatever steps of `own` come next, there is one until `p` holds, and `p`
holds after finitely many of them. -/
inductive Inevitably (M : Machine σ α) (own : α → Prop) (p : σ → Prop) : σ → Prop where
  | now {s : σ} (holds : p s) : Inevitably M own p s
  | later {s s' : σ} {a : α} (isOwn : own a) (taken : M.step s a = some s')
      (next : ∀ a s', own a → M.step s a = some s' → Inevitably M own p s') :
      Inevitably M own p s

/-- The variant rule: no state of the invariant is stuck before `p` holds, and
every step makes the measure smaller. -/
theorem inevitably_of_measure {own : α → Prop} {p : σ → Prop} (inv : σ → Prop)
    (measure : σ → Nat)
    (enabled : ∀ s, inv s → ¬p s → ∃ a s', own a ∧ M.step s a = some s')
    (smaller : ∀ s a s', inv s → ¬p s → own a → M.step s a = some s' →
      inv s' ∧ measure s' < measure s)
    {s : σ} (holds : inv s) : M.Inevitably own p s := by
  induction size : measure s using Nat.strongRecOn generalizing s with
  | ind n inductionHypothesis =>
      by_cases done : p s
      · exact .now done
      · obtain ⟨a, s', isOwn, taken⟩ := enabled s holds done
        refine .later isOwn taken ?_
        intro b r isOwn' taken'
        obtain ⟨kept, less⟩ := smaller s b r holds done isOwn' taken'
        exact inductionHypothesis _ (size ▸ less) kept rfl

/-- What is bound to happen does not stay impossible for ever. -/
theorem Inevitably.not_of_invariant {own : α → Prop} {p : σ → Prop} (inv : σ → Prop)
    (preserved : ∀ s a s', inv s → own a → M.step s a = some s' → inv s')
    (never : ∀ s, inv s → ¬p s) {s : σ} (bound : M.Inevitably own p s) : ¬inv s := by
  induction bound with
  | now holds => exact fun holdsInv => never _ holdsInv holds
  | later isOwn taken _ inductionHypothesis =>
      intro holdsInv
      exact inductionHypothesis _ _ isOwn taken (preserved _ _ _ holdsInv isOwn taken)

/-! ## Histories -/

variable {η : Type*}

/-- The machine with a record of its past beside its state.  The record holds
no step up and no step reads it. -/
def recording (M : Machine σ α) (empty : η) (record : η → σ → α → σ → η) :
    Machine (σ × η) α where
  start s := M.start s.1 ∧ s.2 = empty
  step s a := (M.step s.1 a).map fun next => (next, record s.2 s.1 a next)

variable {empty : η} {record : η → σ → α → σ → η} {guarded : σ × η → α → Prop}

/-- The run without its record. -/
theorem Reach.unrecorded {s : σ × η} (reached : (M.recording empty record).Reach guarded s) :
    M.Reachable s.1 := by
  induction reached with
  | start isStart => exact .start isStart.1
  | step before allowed taken inductionHypothesis =>
      obtain ⟨next, moved, rfl⟩ := Option.map_eq_some_iff.mp taken
      exact .step inductionHypothesis trivial moved

/-- The invariant rule for a state and its record; what holds in every state of
the machine can be used in the step. -/
theorem Reach.recorded (inv : σ → η → Prop)
    (initial : ∀ s, M.start s → inv s empty)
    (preserved : ∀ s h a s', M.Reachable s → inv s h → guarded (s, h) a →
      M.step s a = some s' → inv s' (record h s a s'))
    {s : σ × η} (reached : (M.recording empty record).Reach guarded s) : inv s.1 s.2 := by
  induction reached with
  | start isStart =>
      obtain ⟨first, same⟩ := isStart
      rw [same]
      exact initial _ first
  | step before allowed taken inductionHypothesis =>
      obtain ⟨next, moved, rfl⟩ := Option.map_eq_some_iff.mp taken
      exact preserved _ _ _ _ before.unrecorded inductionHypothesis allowed moved

end Machine

end MtAsyncio.Lib
