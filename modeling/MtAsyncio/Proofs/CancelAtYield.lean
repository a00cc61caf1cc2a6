/-
Module: MtAsyncio.Proofs.CancelAtYield
Purpose: A pending cancel is delivered at every suspension point.  Every await
  of a future looks at `_must_cancel` before it parks and on its way past a
  future that is complete; `_yield_now` never looks, so a cancel that is pending
  when a body yields, or comes while it does, is not raised there.
Trusted boundary: none
Main exports: Delivered, OffYields, cancel_delivered_at_points, yield_misses_cancel
-/
import MtAsyncio.Proofs.RequestSteps

namespace MtAsyncio.Tasks

open Lib (Machine)

variable {T F C : Type} [DecidableEq T] [DecidableEq F] [DecidableEq C]

/-- No coroutine has gone on from a suspension point past a pending cancel. -/
def Delivered (h : Delivery T) : Prop :=
  ∀ t, h.missed t = false

/-- No body yields with `_must_cancel` set, and no call sets it on a task that
yields. -/
structure OffYields (p : Bodies T F C × Delivery T) (a : BodyAct T F C) : Prop where
  entered : ∀ t, a = .yield t → p.1.tasks.kernel.mustCancel t = false
  during : ∀ c t, a = .act (.kernel (.call c)) → p.1.tasks.kernel.Writes c t →
    p.1.yielding t = false

/-- The await that a pending cancel is owed at has its look still to come. -/
structure Owed (s : Bodies T F C) (t : T) : Prop where
  must : s.tasks.kernel.mustCancel t = true
  ahead : ∃ r pc, s.tasks.task t = .awaiting r pc ∧ (pc = .test ∨ pc = .arm ∨ pc = .ready)

structure Owing (s : Bodies T F C) (h : Delivery T) : Prop where
  owed : ∀ t, h.owed t = true → Owed s t
  yields : ∀ t, s.yielding t = true →
    s.tasks.task t = .running ∧ s.tasks.kernel.mustCancel t = false
  missed : ∀ t, h.missed t = false

theorem bodies_reachable {s : Bodies T F C} (reached : (bodyMachine T F C).Reachable s) :
    (machine T F C).Reachable s.tasks := by
  refine Machine.Reach.invariant (fun s : Bodies T F C => (machine T F C).Reachable s.tasks)
    (fun s (start : BodyStart s) => .start start.1) (fun s a s' before _ taken => ?_) reached
  cases a with
  | act a =>
      simp only [bodyMachine, bodyStep] at taken
      split at taken
      · cases taken
      · obtain ⟨tasks, moved, rfl⟩ := Option.map_eq_some_iff.mp taken
        exact Machine.Reach.step (a := a) before trivial moved
  | yield t | resume t =>
      simp only [bodyMachine, bodyStep] at taken
      split at taken <;> cases taken
      exact before

omit [DecidableEq T] [DecidableEq F] [DecidableEq C] in
/-- An await that has its look to come is a suspension point. -/
theorem Owed.atPoint {s : Bodies T F C} {t : T} (owed : Owed s t) : s.atPoint t = true := by
  obtain ⟨r, pc, at_, ahead⟩ := owed.ahead
  rcases ahead with rfl | rfl | rfl <;> simp [Bodies.atPoint, at_]

omit [DecidableEq C] in
/-- The look is taken, or still to come. -/
theorem Owed.own {s : Bodies T F C} {a : Act T F C} {tasks : State T F C} {t : T}
    (owed : Owed s t) (awake : s.yielding t = false) (step : OwnStep s.tasks t a tasks) :
    Owed { s with tasks := tasks } t ∨
      (raisesMust s.tasks a t = true ∧ tasks.kernel.mustCancel t = false ∧
        ({ s with tasks := tasks } : Bodies T F C).atPoint t = false) := by
  obtain ⟨must, r, pc, here, ahead⟩ := owed
  cases step with
  | tests r' at_ =>
      refine .inl ⟨must, r', _, Function.update_self .., ?_⟩
      split
      · exact .inr (.inr rfl)
      · exact .inr (.inl rfl)
  | raises r' pc' at_ checks must' =>
      refine .inr ⟨?_, Function.update_self .., ?_⟩
      · rcases checks with rfl | rfl <;>
          simp [Tasks.raisesMust, Act.moves, TaskPc.checks, at_, must]
      · simp [Bodies.atPoint, awake, State.setTask]
  | parks r' at_ free | goesOn r' at_ free =>
      rw [free] at must
      cases must
  | suspends r' at_ | resumes r' at_ woken | disarms r' at_ | concludes r' at_ =>
      rw [at_] at here
      cases here
      rcases ahead with ahead | ahead | ahead <;> cases ahead
  | awaits r' at_ | fails ending at_ failed | settles ending at_ | uncancels at_ | returns at_
  | uncancelTests at_ | decrements at_ | compares at_ | clears at_ | takes at_ =>
      rw [at_] at here
      cases here

omit [DecidableEq C] in
/-- A step of the task itself, which does not yield. -/
theorem Owing.own {s : Bodies T F C} {h : Delivery T} {a : Act T F C} {tasks : State T F C} {t : T}
    (owing : Owing s h) (awake : s.yielding t = false) (step : OwnStep s.tasks t a tasks) :
    ((h.record s (.act a) { s with tasks := tasks }).owed t = true →
        Owed { s with tasks := tasks } t) ∧
      (h.record s (.act a) { s with tasks := tasks }).missed t = false := by
  have unset : (!s.tasks.kernel.mustCancel t && tasks.kernel.mustCancel t) = false := by
    by_contra set
    simp only [Bool.not_eq_false, Bool.and_eq_true, Bool.not_eq_true'] at set
    rw [step.must set.2] at set
    cases set.1
  by_cases before : h.owed t = true
  · rcases (owing.owed t before).own awake step with still | ⟨raised, clear, gone⟩
    · refine ⟨fun _ => still, ?_⟩
      simp [Delivery.record, owing.missed t, still.atPoint]
    · refine ⟨fun owed => ?_, ?_⟩
      · simp [Delivery.record, gone] at owed
      · simp [Delivery.record, owing.missed t, BodyAct.raisesMust, raised, clear]
  · refine ⟨fun owed => ?_, by simp [Delivery.record, owing.missed t, before]⟩
    simp only [Delivery.record, before, Bool.false_or, Bool.and_assoc, Bool.and_eq_true,
      Bool.or_eq_true] at owed
    rcases owed.2 with ⟨reaches, must⟩ | ⟨-, set, must, -⟩
    · -- the body comes to an await with the request pending
      cases step with
      | awaits r at_ => exact ⟨must, r, .test, Function.update_self .., .inl rfl⟩
      | _ => cases reaches
    · simp [set, must] at unset

/-- A step of a call. -/
theorem Owing.call {s : Bodies T F C} {h : Delivery T} {c : C} {k : Kernel T F C} {t : T}
    (settled : Settled s.tasks) (owing : Owing s h)
    (allowed : OffYields (s, h) (.act (.kernel (.call c))))
    (called : s.tasks.kernel.cancelStep c = some k) :
    ((h.record s (.act (.kernel (.call c))) { s with tasks := { s.tasks with kernel := k } }).owed
        t = true → Owed { s with tasks := { s.tasks with kernel := k } } t) ∧
      (h.record s (.act (.kernel (.call c)))
        { s with tasks := { s.tasks with kernel := k } }).missed t = false := by
  have move := Kernel.cancelStep_move called
  have still : h.owed t = true → Owed { s with tasks := { s.tasks with kernel := k } } t := by
    intro before
    obtain ⟨must, ahead⟩ := owing.owed t before
    exact ⟨move.keepsMust must, ahead⟩
  constructor
  · intro owed
    simp only [Delivery.record, BodyAct.reaches, Bool.false_and, Bool.or_false, Bool.and_assoc,
      Bool.and_eq_true, Bool.or_eq_true, Bool.not_eq_true', Option.isNone_iff_eq_none] at owed
    rcases owed.2 with before | ⟨there, unset, set, free⟩
    · exact still before
    · refine ⟨set, ?_⟩
      rcases move.must t set with before | writes
      · rw [before] at unset
        cases unset
      · -- the request comes to an await that has not armed `_fut_waiter`
        have awake : s.yielding t = false := allowed.during c t rfl writes
        simp only [Bodies.atPoint, awake, Bool.false_or] at there
        split at there
        · rename_i r pc at_
          have waiter := settled.waiter t
          rw [free, at_] at waiter
          refine ⟨r, pc, at_, ?_⟩
          cases pc with
          | test => exact .inl rfl
          | arm => exact .inr (.inl rfl)
          | ready => exact .inr (.inr rfl)
          | armed | suspended => cases waiter
          | disarm | read => simp at there
        · cases there
  · by_cases before : h.owed t = true
    · have there := (still before).atPoint
      simp [Delivery.record, owing.missed t, there]
    · simp [Delivery.record, owing.missed t, before]

omit [DecidableEq F] [DecidableEq C] in
/-- A body begins to yield with no request pending, or stops. -/
theorem Owing.turns {s : Bodies T F C} {h : Delivery T} {a : BodyAct T F C} {yielding : T → Bool}
    (owing : Owing s h)
    (unreached : ∀ t, (a.reaches t && s.tasks.kernel.mustCancel t) = false)
    (yields : ∀ t, yielding t = true →
      s.tasks.task t = .running ∧ s.tasks.kernel.mustCancel t = false) :
    Owing { s with yielding := yielding } (h.record s a { s with yielding := yielding }) := by
  have still : ∀ t, h.owed t = true → Owed { s with yielding := yielding } t := fun t before =>
    ⟨(owing.owed t before).must, (owing.owed t before).ahead⟩
  refine ⟨fun t owed => ?_, yields, fun t => ?_⟩
  · simp only [Delivery.record, unreached, Bool.or_false, Bool.and_assoc, Bool.and_eq_true,
      Bool.or_eq_true, Bool.not_eq_true'] at owed
    rcases owed.2 with before | ⟨-, unset, set, -⟩
    · exact still t before
    · rw [unset] at set
      cases set
  · by_cases before : h.owed t = true
    · simp [Delivery.record, owing.missed t, (still t before).atPoint]
    · simp [Delivery.record, owing.missed t, before]

theorem owing_step {s s' : Bodies T F C} {h : Delivery T} {a : BodyAct T F C}
    (settled : Settled s.tasks) (owing : Owing s h) (allowed : OffYields (s, h) a)
    (taken : bodyStep s a = some s') : Owing s' (h.record s a s') := by
  cases a with
  | act a =>
      simp only [bodyStep] at taken
      split at taken
      · cases taken
      · rename_i bodied
        obtain ⟨tasks, moved, rfl⟩ := Option.map_eq_some_iff.mp taken
        have each : ∀ t, ((h.record s (.act a) { s with tasks := tasks }).owed t = true →
              Owed { s with tasks := tasks } t) ∧
            (s.yielding t = true →
              tasks.task t = .running ∧ tasks.kernel.mustCancel t = false) ∧
              (h.record s (.act a) { s with tasks := tasks }).missed t = false := by
          intro t
          cases step_view moved t with
          | own step =>
              -- a body that yields takes no other step
              have awake : s.yielding t = false := by
                by_contra yields
                have suspended := Bool.not_eq_false _ ▸ yields
                have running := (owing.yields t suspended).1
                cases step with
                | awaits r at_ => exact bodied (by simp [Act.body, suspended])
                | uncancels at_ => exact bodied (by simp [Act.body, suspended])
                | returns at_ => exact bodied (by simp [Act.body, suspended])
                | fails ending at_ failed => exact bodied (by simp [Act.body, suspended])
                | _ => simp_all
              obtain ⟨owed, missed⟩ := owing.own awake step
              refine ⟨owed, fun yields => ?_, missed⟩
              rw [awake] at yields
              cases yields
          | call c k label next called =>
              subst label next
              obtain ⟨owed, missed⟩ := owing.call settled allowed called (t := t)
              refine ⟨owed, fun yields => ⟨(owing.yields t yields).1, ?_⟩, missed⟩
              by_contra set
              rcases (Kernel.cancelStep_move called).must t (Bool.not_eq_false _ ▸ set) with
                before | writes
              · rw [(owing.yields t yields).2] at before
                cases before
              · rw [allowed.during c t rfl writes] at yields
                cases yields
          | apart silent same =>
              have unreached : (BodyAct.act a).reaches t = false := by
                cases a with
                | await u r =>
                    have other : u ≠ t := fun self => silent.body (by rw [self]; rfl)
                    simpa [BodyAct.reaches] using other
                | _ => rfl
              have there : ({ s with tasks := tasks } : Bodies T F C).atPoint t = s.atPoint t := by
                simp only [Bodies.atPoint, same.task]
              have unchanged : (!s.tasks.kernel.mustCancel t && tasks.kernel.mustCancel t) =
                  false := by
                rw [same.must]
                exact Bool.not_and_self _
              have still : h.owed t = true → Owed { s with tasks := tasks } t := by
                intro before
                obtain ⟨must, ahead⟩ := owing.owed t before
                refine ⟨same.must.trans must, ?_⟩
                rw [same.task]
                exact ahead
              refine ⟨fun owed => ?_, fun yields => ?_, ?_⟩
              · simp only [Delivery.record, unreached, Bool.false_and, Bool.or_false,
                  Bool.and_assoc, Bool.and_eq_true, Bool.or_eq_true] at owed
                rcases owed.2 with before | ⟨-, unset, set, -⟩
                · exact still before
                · simp [unset, set] at unchanged
              · rw [same.task, same.must]
                exact owing.yields t yields
              · by_cases before : h.owed t = true
                · simp [Delivery.record, owing.missed t, (still before).atPoint]
                · simp [Delivery.record, owing.missed t, before]
        exact ⟨fun t => (each t).1, fun t => (each t).2.1, fun t => (each t).2.2⟩
  | yield u =>
      simp only [bodyStep] at taken
      split at taken <;> cases taken
      rename_i free
      have clear : s.tasks.kernel.mustCancel u = false := allowed.entered u rfl
      apply owing.turns
      · intro t
        by_cases self : u = t
        · rw [← self, clear]
          exact Bool.and_false _
        · simp [BodyAct.reaches, self]
      · intro t yields
        by_cases self : t = u
        · subst self
          exact ⟨free.1, clear⟩
        · rw [Function.update_of_ne self] at yields
          exact owing.yields t yields
  | resume u =>
      simp only [bodyStep] at taken
      split at taken <;> cases taken
      apply owing.turns
      · exact fun _ => rfl
      · intro t yields
        by_cases self : t = u
        · rw [self, Function.update_self] at yields
          cases yields
        · rw [Function.update_of_ne self] at yields
          exact owing.yields t yields

/-- In every run in which no body yields with a cancel pending and none comes
while one does, whatever else the bodies await. -/
theorem cancel_delivered_at_points {p : Bodies T F C × Delivery T}
    (reached : (deliveryMachine T F C).Reach OffYields p) : Delivered p.2 := by
  have owing : Owing p.1 p.2 := Machine.Reach.recorded Owing
    (fun s (start : BodyStart s) => by
      refine ⟨by rintro _ ⟨⟩, fun t yields => ?_, fun _ => rfl⟩
      rw [start.2] at yields
      cases yields)
    (fun _ _ _ _ before owing allowed taken =>
      owing_step (settled_of_reachable (bodies_reachable before)) owing allowed taken) reached
  exact owing.missed

/-! ## Runs -/

def freshBodies (T F C : Type) : Bodies T F C where
  tasks := freshState T F C
  yielding := fun _ => false

theorem delivery_start : (deliveryMachine T F C).start (freshBodies T F C, Delivery.empty) :=
  ⟨⟨freshState_start, fun _ => rfl⟩, rfl⟩

/-- A whole `cancel` of a task that is not parked. -/
def cancelBody : List (BodyAct Unit Unit Unit) :=
  .act (.kernel (.cancel () ())) :: .replicate 3 (.act (.kernel (.call ())))

/-- The body yields after a cancel. -/
def yieldingRun : List (BodyAct Unit Unit Unit) :=
  cancelBody ++ [.yield (), .resume ()]

theorem yieldingRun_ends :
    ((deliveryMachine Unit Unit Unit).exec (freshBodies _ _ _, .empty) yieldingRun).any
      (fun p => p.2.missed ()) = true := by
  decide +kernel

theorem yield_misses_cancel :
    ¬ ∀ p : Bodies Unit Unit Unit × Delivery Unit,
      (deliveryMachine Unit Unit Unit).Reachable p → Delivered p.2 := by
  intro always
  obtain ⟨p, reached, missed⟩ := Machine.Reachable.exists_of_exec delivery_start yieldingRun_ends
  rw [always p reached ()] at missed
  cases missed

/-- A decidable part of `OffYields` for one task: no call while it yields. -/
def offYields (p : Bodies Unit F C × Delivery Unit) : BodyAct Unit F C → Bool
  | .yield _ => !p.1.tasks.kernel.mustCancel ()
  | .act (.kernel (.call _)) => !p.1.yielding ()
  | _ => true

omit [DecidableEq F] [DecidableEq C] in
theorem offYields_sound (p : Bodies Unit F C × Delivery Unit) (a : BodyAct Unit F C)
    (checked : offYields p a = true) : OffYields p a := by
  constructor
  · rintro t rfl
    simpa [offYields] using checked
  · rintro c t rfl -
    simpa [offYields] using checked

/-- The body yields, is cancelled after that and awaits a future. -/
def awaitingRun : List (BodyAct Unit Unit Unit) :=
  .yield () :: .resume () :: cancelBody ++ .act (.await () (.fut ())) ::
    .replicate 2 (.act (.task ()))

theorem awaitingRun_ends :
    ((deliveryMachine Unit Unit Unit).execIf offYields (freshBodies _ _ _, .empty) awaitingRun).any
      (fun p => p.1.tasks.task () = .running ∧ p.1.tasks.kernel.mustCancel () = false ∧
        p.1.tasks.kernel.numCancelsRequested () = 1) = true := by
  decide +kernel

theorem cancel_delivered_at_await :
    ∃ p : Bodies Unit Unit Unit × Delivery Unit, p.1.tasks.task () = .running ∧
      p.1.tasks.kernel.mustCancel () = false ∧ p.1.tasks.kernel.numCancelsRequested () = 1 ∧
        Delivered p.2 := by
  obtain ⟨p, reached, ends⟩ :=
    Machine.Reach.exists_of_execIf offYields_sound delivery_start awaitingRun_ends
  obtain ⟨running, clear, counted⟩ := of_decide_eq_true ends
  exact ⟨p, running, clear, counted, cancel_delivered_at_points reached⟩

end MtAsyncio.Tasks
