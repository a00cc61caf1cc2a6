/-
Module: MtAsyncio.Proofs.FutureWatchers
Purpose: The watchers of a `Future` and what its completion leaves.  `add_waker`
  and `notify` exclude each other, so that nobody parks after the watchers were
  told; and a completed future stays as it is.
Trusted boundary: none
Main exports: Watched, watched_step, Kept, step_kept
-/
import MtAsyncio.Proofs.FutureWake

namespace MtAsyncio.Futures

variable {T W V X C M G K : Type}

/-! ## The watchers -/

/-- The task waits for the watchers' lock to be let go of, or is past it, and
has seen the flag. -/
def TaskPc.sawFlag : TaskPc V X M → Bool
  | .runnable | .disarm | .ready | .isSet | .read => true
  | _ => false

/-- `add_waker` and `notify` exclude each other, so that who finds the flag
clear is among the watchers before they are told. -/
structure Watched (s : State T W V X M G K) : Prop where
  draining : ∀ t, s.guard = some (.thread t) ↔ ∃ after, s.pc t = .drain after
  adding : ∀ w, s.guard = some (.task w) ↔ s.task w = .check ∨ s.task w = .push
  parked : ∀ w, s.task w = .parked ↔ w ∈ s.watchers
  distinct : s.watchers.Nodup
  told : Woke s → s.watchers = [] ∧ ∀ w, s.task w ≠ .push
  saw : ∀ w, (s.task w).sawFlag = true → s.flag = true
  outcome : ∀ w outcome, s.task w = .done outcome →
    outcome = .interrupted ∨ s.fut.state ≠ .pending ∧ outcome = s.fut.read

section Watchers

variable [DecidableEq T] [DecidableEq W] [DecidableEq G] {s s' : State T W V X M G K} {t : T}

/-- Away from `notify`, a thread does not touch the watchers, and it sets the
flag only to go on to `notify`. -/
structure Aside (s : State T W V X M G K) (t : T) (s' : State T W V X M G K) : Prop where
  watchers : s'.watchers = s.watchers
  guard : s'.guard = s.guard
  task : s'.task = s.task
  others : ∀ u, u ≠ t → s'.pc u = s.pc u
  before : ∀ after, s.pc t ≠ .drain after
  after : ∀ after, s'.pc t ≠ .drain after
  flag : s'.flag = s.flag ∧ (s'.pc t).notifying = (s.pc t).notifying ∨
    s'.flag = true ∧ (s'.pc t).notifying = true

omit [DecidableEq W] [DecidableEq G] in
theorem set_aside {after : After G K} (before : (s.pc t).notifying = false) :
    Aside s t (s.set t after) := by
  have away : ∀ next, s.pc t ≠ .drain next := by
    intro next at_
    rw [at_] at before
    cases before
  unfold State.set
  split
  · refine ⟨rfl, rfl, rfl, fun u other => Function.update_of_ne other .., away, ?_, .inl ⟨rfl, ?_⟩⟩
    · intro next
      simp only [State.goto, Function.update_self]
      cases after <;> rintro ⟨⟩
    · simp only [State.goto, Function.update_self, before, After.pc_notifying]
  · refine ⟨rfl, rfl, rfl, fun u other => Function.update_of_ne other .., away, ?_, .inr ⟨rfl, ?_⟩⟩
    · intro next
      simp only [State.goto, Function.update_self]
      rintro ⟨⟩
    · simp only [State.goto, Function.update_self, Pc.notifying]

omit [DecidableEq W] [DecidableEq G] in
theorem Aside.goto {r : State T W V X M G K} {pc : Pc V X M G K}
    (away : (s.pc t).notifying = false) (watchers : r.watchers = s.watchers)
    (guard : r.guard = s.guard) (task : r.task = s.task) (same : r.pc = s.pc)
    (flag : r.flag = s.flag) (quiet : pc.notifying = false) : Aside s t (r.goto t pc) := by
  have here : (r.goto t pc).pc t = pc := Function.update_self ..
  refine ⟨watchers, guard, task, ?_, ?_, ?_, .inl ⟨flag, ?_⟩⟩
  · intro u other
    exact (Function.update_of_ne other ..).trans (congrFun same u)
  · intro next at_
    rw [at_] at away
    cases away
  · intro next at_
    rw [here] at at_
    rw [at_] at quiet
    cases quiet
  · rw [here, quiet, away]

omit [DecidableEq W] [DecidableEq G] in
theorem Aside.answer {r : State T W V X M G K} {reply : Reply}
    (away : (s.pc t).notifying = false) (watchers : r.watchers = s.watchers)
    (guard : r.guard = s.guard) (task : r.task = s.task) (same : r.pc = s.pc)
    (flag : r.flag = s.flag) : Aside s t (r.answer t reply) := by
  have gone : Aside s t (r.goto t .idle) := .goto away watchers guard task same flag rfl
  exact ⟨gone.watchers, gone.guard, gone.task, gone.others, gone.before, gone.after, gone.flag⟩

theorem thread_aside (taken : threadStep s t = some s') (away : (s.pc t).notifying = false) :
    Aside s t s' := by
  cases threadStep_move taken with
  | completed | collected | late | flushed | flushedSoon => exact .goto away rfl rfl rfl rfl rfl rfl
  | lost | returned | added | removed => exact .answer away rfl rfl rfl rfl rfl
  | woke | flushedSet => exact set_aside away
  | notified at_ | drained at_ | told at_ =>
      rw [at_] at away
      cases away
  | @scheduled _ entry =>
      obtain ⟨-, flag, watchers, guard, pc, task, -⟩ := callSoon_frame s t entry
      exact .goto away watchers guard task pc flag rfl
  | @queued entry =>
      obtain ⟨-, flag, watchers, guard, pc, task, -⟩ := callSoon_frame s t entry
      exact .answer away watchers guard task pc flag

/-- What a step leaves of a completed future. -/
def Kept (s s' : State T W V X M G K) : Prop :=
  s'.fut.state = s.fut.state ∧ s'.fut.result = s.fut.result ∧
    s'.fut.exception = s.fut.exception ∧ s'.fut.cancelMessage = s.fut.cancelMessage ∧
    s'.wins = s.wins

omit [DecidableEq T] [DecidableEq W] [DecidableEq G] in
theorem Kept.of_eq (fut : s'.fut = s.fut) (wins : s'.wins = s.wins) : Kept s s' := by
  rw [Kept, fut, wins]
  exact ⟨rfl, rfl, rfl, rfl, rfl⟩

omit [DecidableEq T] [DecidableEq W] [DecidableEq G] in
theorem Kept.read (kept : Kept s s') : s'.fut.read = s.fut.read := by
  obtain ⟨state, result, exception, message, -⟩ := kept
  rw [Fields.read, Fields.read, state, result, exception, message]

omit [DecidableEq W] [DecidableEq G] in
theorem set_kept (s : State T W V X M G K) (t : T) (after : After G K) :
    Kept s (s.set t after) := by
  unfold State.set
  split <;> exact .of_eq rfl rfl

omit [DecidableEq W] [DecidableEq G] in
theorem callStep_kept (e : Exceptions X C) (s : State T W V X M G K) (t : T)
    (c : Call V X C M G K) : Kept s (callStep e s t c) := by
  cases c with
  | setException argument =>
      simp only [callStep]
      split <;> exact .of_eq rfl rfl
  | _ => exact .of_eq rfl rfl

theorem thread_kept (taken : threadStep s t = some s') (done : s.fut.state ≠ .pending) :
    Kept s s' := by
  cases threadStep_move taken with
  | completed _ pending | added _ pending => exact absurd pending done
  | woke | flushedSet => exact set_kept ..
  | @scheduled _ entry | @queued entry =>
      obtain ⟨fut, -, -, -, -, -, -, -, wins, -⟩ := callSoon_frame s t entry
      exact .of_eq fut wins
  | removed => exact ⟨rfl, rfl, rfl, rfl, rfl⟩
  | lost | collected | notified | drained | told | returned | late | flushed | flushedSoon =>
      exact .of_eq rfl rfl

/-- A completed future stays as it is. -/
theorem step_kept {e : Exceptions X C} {a : Act T W V X C M G K}
    (taken : step e s a = some s') (done : s.fut.state ≠ .pending) : Kept s s' := by
  cases a with
  | call t c =>
      simp only [step] at taken
      split at taken <;> cases taken
      exact callStep_kept ..
  | thread t => exact thread_kept taken done
  | enter t =>
      simp only [step] at taken
      split at taken <;> cases taken
      exact .of_eq rfl rfl
  | exit t =>
      simp only [step] at taken
      split at taken
      · obtain ⟨left, -, rfl⟩ := Option.map_eq_some_iff.mp taken
        exact .of_eq rfl rfl
      · cases taken
  | await w =>
      simp only [step] at taken
      split at taken <;> cases taken <;> exact .of_eq rfl rfl
  | task w must =>
      obtain ⟨fut, -, -, -, -, -, -, wins, -⟩ := taskStep_frame taken
      exact .of_eq fut wins

omit [DecidableEq W] [DecidableEq G] in
theorem Watched.aside (watched : Watched s) (aside : Aside s t s')
    (kept : s.fut.state ≠ .pending → Kept s s') : Watched s' where
  draining := by
    intro u
    rw [aside.guard, watched.draining u]
    by_cases self : u = t
    · subst self
      constructor
      · rintro ⟨next, at_⟩
        exact absurd at_ (aside.before next)
      · rintro ⟨next, at_⟩
        exact absurd at_ (aside.after next)
    · rw [aside.others u self]
  adding := by
    rw [aside.guard, aside.task]
    exact watched.adding
  parked := by
    rw [aside.task, aside.watchers]
    exact watched.parked
  distinct := by
    rw [aside.watchers]
    exact watched.distinct
  told := by
    intro woke
    rw [aside.watchers, aside.task]
    apply watched.told
    rcases aside.flag with ⟨flag, same⟩ | ⟨-, tells⟩
    · refine ⟨flag.symm.trans woke.1, ?_⟩
      intro u
      by_cases self : u = t
      · subst self
        exact same.symm.trans (woke.2 u)
      · rw [← aside.others u self]
        exact woke.2 u
    · rw [woke.2 t] at tells
      cases tells
  saw := by
    intro w saw
    rw [aside.task] at saw
    rcases aside.flag with ⟨flag, -⟩ | ⟨flag, -⟩
    · exact flag.trans (watched.saw w saw)
    · exact flag
  outcome := by
    intro w outcome done
    rw [aside.task] at done
    apply (watched.outcome w outcome done).imp_right
    rintro ⟨completed, read⟩
    have same := kept completed
    exact ⟨same.1 ▸ completed, read.trans same.read.symm⟩

omit [DecidableEq W] [DecidableEq G] in
/-- `notify` takes the lock. -/
theorem Watched.notify (watched : Watched s) {after : After G K} (free : s.guard = none) :
    Watched ({ s with guard := some (.thread t) }.goto t (.drain after)) := by
  have here : ({ s with guard := some (.thread t) }.goto t (.drain after)).pc t = .drain after :=
    Function.update_self ..
  refine ⟨?_, ?_, watched.parked, watched.distinct, ?_, watched.saw, watched.outcome⟩
  · intro u
    by_cases self : u = t
    · subst self
      exact ⟨fun _ => ⟨after, here⟩, fun _ => rfl⟩
    · constructor
      · rintro ⟨⟩
        exact absurd rfl self
      · rintro ⟨next, at_⟩
        have drains := (watched.draining u).mpr
          ⟨next, (Function.update_of_ne self ..).symm.trans at_⟩
        rw [free] at drains
        cases drains
  · intro w
    constructor
    · rintro ⟨⟩
    · intro adds
      have holds := (watched.adding w).mpr adds
      rw [free] at holds
      cases holds
  · intro woke
    have silent := woke.2 t
    rw [here] at silent
    cases silent

omit [DecidableEq W] [DecidableEq G] in
/-- `notify` finds no more watchers and lets the lock go. -/
theorem Watched.drained (watched : Watched s) {after : After G K} (at_ : s.pc t = .drain after)
    (empty : s.watchers = []) : Watched ({ s with guard := none }.goto t after.pc) := by
  have holds : s.guard = some (.thread t) := (watched.draining t).mpr ⟨after, at_⟩
  have nobody : ∀ w, ¬(s.task w = .check ∨ s.task w = .push) := by
    intro w adds
    have held := (watched.adding w).mpr adds
    rw [holds] at held
    cases held
  refine ⟨?_, ?_, watched.parked, watched.distinct, ?_, watched.saw, watched.outcome⟩
  · intro u
    constructor
    · rintro ⟨⟩
    · rintro ⟨next, drains⟩
      by_cases self : u = t
      · subst self
        simp only [State.goto, Function.update_self] at drains
        cases after <;> cases drains
      · have held := (watched.draining u).mpr
          ⟨next, (Function.update_of_ne self ..).symm.trans drains⟩
        rw [holds] at held
        cases held
        exact absurd rfl self
  · intro w
    constructor
    · rintro ⟨⟩
    · intro adds
      exact absurd adds (nobody w)
  · intro _
    exact ⟨empty, fun w pushes => nobody w (.inr pushes)⟩

omit [DecidableEq T] [DecidableEq G] in
/-- `notify` wakes a watcher. -/
theorem Watched.wakes (watched : Watched s) (woken : Woken s) {after : After G K} {w : W}
    {rest : List W} (at_ : s.pc t = .drain after) (filled : s.watchers = w :: rest) :
    Watched ({ s with watchers := rest }.setTask w .runnable) := by
  have here : ({ s with watchers := rest }.setTask w .runnable).task w = .runnable :=
    Function.update_self ..
  have others : ∀ v, v ≠ w → ({ s with watchers := rest }.setTask w .runnable).task v = s.task v :=
    fun v other => Function.update_of_ne other ..
  have distinct := watched.distinct
  rw [filled, List.nodup_cons] at distinct
  have waits : s.task w = .parked := (watched.parked w).mpr (filled ▸ List.mem_cons_self)
  have flag : s.flag = true := woken.telling t (by rw [at_]; rfl)
  refine ⟨watched.draining, ?_, ?_, distinct.2, ?_, ?_, ?_⟩
  · intro v
    by_cases self : v = w
    · subst self
      rw [here]
      refine (watched.adding v).trans ?_
      rw [waits]
      simp
    · rw [others v self]
      exact watched.adding v
  · intro v
    by_cases self : v = w
    · subst self
      rw [here]
      exact ⟨by rintro ⟨⟩, fun member => absurd member distinct.1⟩
    · rw [others v self, watched.parked v, filled, List.mem_cons]
      exact ⟨fun member => member.resolve_left self, .inr⟩
  · intro woke
    have silent : (s.pc t).notifying = false := woke.2 t
    rw [at_] at silent
    cases silent
  · intro v saw
    exact flag
  · intro v outcome done
    by_cases self : v = w
    · subst self
      rw [here] at done
      cases done
    · rw [others v self] at done
      exact watched.outcome v outcome done

theorem Watched.thread (watched : Watched s) (woken : Woken s)
    (taken : threadStep s t = some s') : Watched s' := by
  by_cases away : (s.pc t).notifying = false
  · exact watched.aside (thread_aside taken away) (thread_kept taken)
  · cases threadStep_move taken with
    | notified at_ free => exact watched.notify free
    | drained at_ empty => exact watched.drained at_ empty
    | told at_ filled => exact watched.wakes woken at_ filled
    | completed at_ | lost at_ | woke at_ | collected at_ | returned at_ | scheduled at_ | added at_
    | late at_ | queued at_ | removed at_ | flushed at_ | flushedSet at_ | flushedSoon at_ =>
        rw [at_] at away
        exact absurd rfl away

omit [DecidableEq T] [DecidableEq G] in
/-- A task moves outside of `add_waker`. -/
theorem Watched.setTask (watched : Watched s) {w : W} {pc : TaskPc V X M}
    (before : s.task w ≠ .check ∧ s.task w ≠ .push ∧ s.task w ≠ .parked)
    (after : pc ≠ .check ∧ pc ≠ .push ∧ pc ≠ .parked)
    (saw : pc.sawFlag = true → s.flag = true)
    (outcome : ∀ outcome, pc = .done outcome →
      outcome = .interrupted ∨ s.fut.state ≠ .pending ∧ outcome = s.fut.read) :
    Watched (s.setTask w pc) := by
  have here : (s.setTask w pc).task w = pc := Function.update_self ..
  have others : ∀ v, v ≠ w → (s.setTask w pc).task v = s.task v :=
    fun v other => Function.update_of_ne other ..
  refine ⟨watched.draining, ?_, ?_, watched.distinct, ?_, ?_, ?_⟩
  · intro v
    by_cases self : v = w
    · subst self
      rw [here]
      have away : ¬(s.task v = .check ∨ s.task v = .push) := not_or.mpr ⟨before.1, before.2.1⟩
      exact (watched.adding v).trans ⟨fun adds => absurd adds away,
        fun adds => absurd adds (not_or.mpr ⟨after.1, after.2.1⟩)⟩
    · rw [others v self]
      exact watched.adding v
  · intro v
    by_cases self : v = w
    · subst self
      rw [here]
      exact ⟨fun waits => absurd waits after.2.2,
        fun member => absurd ((watched.parked v).mpr member) before.2.2⟩
    · rw [others v self]
      exact watched.parked v
  · intro woke
    obtain ⟨empty, nobody⟩ := watched.told woke
    refine ⟨empty, ?_⟩
    intro v
    by_cases self : v = w
    · subst self
      rw [here]
      exact after.2.1
    · rw [others v self]
      exact nobody v
  · intro v
    by_cases self : v = w
    · subst self
      rw [here]
      exact saw
    · rw [others v self]
      exact watched.saw v
  · intro v
    by_cases self : v = w
    · subst self
      rw [here]
      exact outcome
    · rw [others v self]
      exact watched.outcome v

omit [DecidableEq T] [DecidableEq G] in
/-- `add_waker` takes the lock, or lets it go without a push. -/
theorem Watched.locks (watched : Watched s) {w : W} {pc : TaskPc V X M}
    {guard : Option (Holder T W)} (before : s.task w ≠ .parked) (after : pc ≠ .parked)
    (moves : s.guard = none ∧ guard = some (.task w) ∧ pc = .check ∨
      s.guard = some (.task w) ∧ guard = none ∧ pc = .runnable)
    (saw : pc.sawFlag = true → s.flag = true) :
    Watched ({ s with guard := guard }.setTask w pc) := by
  have here : ({ s with guard := guard }.setTask w pc).task w = pc := Function.update_self ..
  have others : ∀ v, v ≠ w → ({ s with guard := guard }.setTask w pc).task v = s.task v :=
    fun v other => Function.update_of_ne other ..
  refine ⟨?_, ?_, ?_, watched.distinct, ?_, ?_, ?_⟩
  · intro u
    have never : s.guard ≠ some (.thread u) := by
      rcases moves with ⟨held, -, -⟩ | ⟨held, -, -⟩ <;> rw [held] <;> rintro ⟨⟩
    have idle := mt (watched.draining u).mpr never
    constructor
    · intro holds
      rcases moves with ⟨-, taken, -⟩ | ⟨-, taken, -⟩ <;> cases taken.symm.trans holds
    · intro drains
      exact absurd drains idle
  · intro v
    by_cases self : v = w
    · subst self
      rw [here]
      rcases moves with ⟨-, rfl, rfl⟩ | ⟨-, rfl, rfl⟩
      · exact ⟨fun _ => .inl rfl, fun _ => rfl⟩
      · simp [State.setTask]
    · rw [others v self]
      have never : s.guard ≠ some (.task v) := by
        rcases moves with ⟨held, -, -⟩ | ⟨held, -, -⟩ <;> rw [held]
        · rintro ⟨⟩
        · rintro ⟨⟩
          exact self rfl
      have idle := mt (watched.adding v).mpr never
      constructor
      · intro holds
        rcases moves with ⟨-, taken, -⟩ | ⟨-, taken, -⟩ <;> cases taken.symm.trans holds
        exact absurd rfl self
      · intro adds
        exact absurd adds idle
  · intro v
    by_cases self : v = w
    · subst self
      rw [here]
      exact ⟨fun waits => absurd waits after,
        fun member => absurd ((watched.parked v).mpr member) before⟩
    · rw [others v self]
      exact watched.parked v
  · intro woke
    obtain ⟨empty, nobody⟩ := watched.told woke
    refine ⟨empty, ?_⟩
    intro v
    by_cases self : v = w
    · subst self
      rw [here]
      rcases moves with ⟨-, -, rfl⟩ | ⟨-, -, rfl⟩ <;> rintro ⟨⟩
    · rw [others v self]
      exact nobody v
  · intro v
    by_cases self : v = w
    · subst self
      rw [here]
      exact saw
    · rw [others v self]
      exact watched.saw v
  · intro v outcome
    by_cases self : v = w
    · subst self
      rw [here]
      rcases moves with ⟨-, -, rfl⟩ | ⟨-, -, rfl⟩ <;> rintro ⟨⟩
    · rw [others v self]
      exact watched.outcome v outcome

omit [DecidableEq T] [DecidableEq G] in
/-- `add_waker` has found the flag clear. -/
theorem Watched.pushes (watched : Watched s) {w : W} (at_ : s.task w = .check)
    (clear : s.flag = false) : Watched (s.setTask w .push) := by
  have here : (s.setTask w .push).task w = .push := Function.update_self ..
  have others : ∀ v, v ≠ w → (s.setTask w .push).task v = s.task v :=
    fun v other => Function.update_of_ne other ..
  have holds : s.guard = some (.task w) := (watched.adding w).mpr (.inl at_)
  refine ⟨watched.draining, ?_, ?_, watched.distinct, ?_, ?_, ?_⟩
  · intro v
    by_cases self : v = w
    · subst self
      exact ⟨fun _ => .inr here, fun _ => holds⟩
    · rw [others v self]
      exact watched.adding v
  · intro v
    by_cases self : v = w
    · subst self
      rw [here]
      refine ⟨by rintro ⟨⟩, fun member => ?_⟩
      have waits := (watched.parked v).mpr member
      rw [at_] at waits
      cases waits
    · rw [others v self]
      exact watched.parked v
  · intro woke
    cases clear.symm.trans woke.1
  · intro v
    by_cases self : v = w
    · subst self
      rw [here]
      rintro ⟨⟩
    · rw [others v self]
      exact watched.saw v
  · intro v outcome
    by_cases self : v = w
    · subst self
      rw [here]
      rintro ⟨⟩
    · rw [others v self]
      exact watched.outcome v outcome

omit [DecidableEq T] [DecidableEq G] in
/-- `add_waker` pushes the waker and lets the lock go. -/
theorem Watched.parks (watched : Watched s) {w : W} (at_ : s.task w = .push) :
    Watched ({ s with watchers := s.watchers ++ [w], guard := none }.setTask w .parked) := by
  set after := { s with watchers := s.watchers ++ [w], guard := none }.setTask w .parked
  have here : after.task w = .parked := Function.update_self ..
  have others : ∀ v, v ≠ w → after.task v = s.task v :=
    fun v other => Function.update_of_ne other ..
  have holds : s.guard = some (.task w) := (watched.adding w).mpr (.inr at_)
  have fresh : w ∉ s.watchers := by
    intro member
    have waits := (watched.parked w).mpr member
    rw [at_] at waits
    cases waits
  refine ⟨?_, ?_, ?_, ?_, ?_, ?_, ?_⟩
  · intro u
    constructor
    · rintro ⟨⟩
    · intro drains
      have held := (watched.draining u).mpr drains
      rw [holds] at held
      cases held
  · intro v
    constructor
    · rintro ⟨⟩
    · intro adds
      by_cases self : v = w
      · subst self
        rw [here] at adds
        simp at adds
      · rw [others v self] at adds
        have held := (watched.adding v).mpr adds
        rw [holds] at held
        cases held
        exact absurd rfl self
  · intro v
    by_cases self : v = w
    · subst self
      exact ⟨fun _ => List.mem_append_right _ List.mem_cons_self, fun _ => here⟩
    · rw [others v self, watched.parked v]
      refine ⟨List.mem_append_left _, fun member => ?_⟩
      rcases List.mem_append.mp member with old | new
      · exact old
      · exact absurd (List.mem_singleton.mp new) self
  · refine List.nodup_append.mpr ⟨watched.distinct, by simp, ?_⟩
    intro v old u new same
    exact fresh (List.mem_singleton.mp new ▸ same ▸ old)
  · intro woke
    exact absurd at_ ((watched.told woke).2 w)
  · intro v
    by_cases self : v = w
    · subst self
      rw [here]
      rintro ⟨⟩
    · rw [others v self]
      exact watched.saw v
  · intro v outcome
    by_cases self : v = w
    · subst self
      rw [here]
      rintro ⟨⟩
    · rw [others v self]
      exact watched.outcome v outcome

omit [DecidableEq T] [DecidableEq G] in
theorem Watched.taskStep (watched : Watched s) (woken : Woken s) {w : W} {must : Bool}
    (taken : taskStep s w must = some s') : Watched s' := by
  cases at_ : s.task w with
  | idle | done _ | parked =>
      simp only [Futures.taskStep, at_] at taken
      cases taken
  | test =>
      simp only [Futures.taskStep, at_] at taken
      cases taken
      apply watched.setTask (by rw [at_]; simp)
      · split <;> simp
      · split
        · rename_i flag
          exact fun _ => flag
        · rintro ⟨⟩
      · split <;> rintro _ ⟨⟩
  | arm =>
      simp only [Futures.taskStep, at_] at taken
      cases taken
      apply watched.setTask (by rw [at_]; simp)
      · split <;> simp
      · split <;> rintro ⟨⟩
      · split <;> rintro _ ⟨⟩
        exact .inl rfl
  | register =>
      simp only [Futures.taskStep, at_] at taken
      split at taken <;> cases taken
      rename_i free
      exact watched.locks (by rw [at_]; rintro ⟨⟩) (by rintro ⟨⟩) (.inl ⟨free, rfl, rfl⟩)
        (by rintro ⟨⟩)
  | check =>
      simp only [Futures.taskStep, at_] at taken
      cases taken
      have holds : s.guard = some (.task w) := (watched.adding w).mpr (.inl at_)
      split
      · rename_i flag
        exact watched.locks (by rw [at_]; rintro ⟨⟩) (by rintro ⟨⟩) (.inr ⟨holds, rfl, rfl⟩)
          (fun _ => flag)
      · rename_i clear
        exact watched.pushes at_ (by simpa using clear)
  | push =>
      simp only [Futures.taskStep, at_] at taken
      cases taken
      exact watched.parks at_
  | runnable =>
      simp only [Futures.taskStep, at_] at taken
      cases taken
      exact watched.setTask (by rw [at_]; simp) (by simp)
        (fun _ => watched.saw w (by rw [at_]; rfl)) (by rintro _ ⟨⟩)
  | disarm =>
      simp only [Futures.taskStep, at_] at taken
      cases taken
      exact watched.setTask (by rw [at_]; simp) (by simp)
        (fun _ => watched.saw w (by rw [at_]; rfl)) (by rintro _ ⟨⟩)
  | ready =>
      simp only [Futures.taskStep, at_] at taken
      cases taken
      apply watched.setTask (by rw [at_]; simp)
      · split <;> simp
      · exact fun _ => watched.saw w (by rw [at_]; rfl)
      · split <;> rintro _ ⟨⟩
        exact .inl rfl
  | isSet =>
      have flag := watched.saw w (by rw [at_]; rfl)
      simp only [Futures.taskStep, at_, flag, if_true] at taken
      cases taken
      exact watched.setTask (by rw [at_]; simp) (by simp) (fun _ => flag) (by rintro _ ⟨⟩)
  | read =>
      have flag := watched.saw w (by rw [at_]; rfl)
      simp only [Futures.taskStep, at_] at taken
      cases taken
      refine watched.setTask (by rw [at_]; simp) (by simp) (by rintro ⟨⟩) ?_
      rintro _ ⟨⟩
      exact .inr ⟨woken.done_of_flag flag, rfl⟩

theorem watched_step {e : Exceptions X C} {a : Act T W V X C M G K} (watched : Watched s)
    (woken : Woken s) (taken : step e s a = some s') : Watched s' := by
  cases a with
  | call t c =>
      simp only [step] at taken
      split at taken <;> cases taken
      rename_i at_
      have away : (s.pc t).notifying = false := by
        rw [at_]
        rfl
      refine watched.aside (t := t) ?_ (fun _ => callStep_kept ..)
      cases c with
      | setException argument =>
          simp only [callStep]
          split
          · exact .answer away rfl rfl rfl rfl rfl
          · exact .goto away rfl rfl rfl rfl rfl rfl
      | _ => exact .goto away rfl rfl rfl rfl rfl rfl
  | thread t => exact watched.thread woken taken
  | enter t =>
      simp only [step] at taken
      split at taken <;> cases taken
      rename_i at_
      exact ⟨watched.draining, watched.adding, watched.parked, watched.distinct, watched.told,
        watched.saw, watched.outcome⟩
  | exit t =>
      simp only [step] at taken
      split at taken
      · rename_i at_
        obtain ⟨left, -, rfl⟩ := Option.map_eq_some_iff.mp taken
        exact watched.aside (t := t) (.goto (by rw [at_]; rfl) rfl rfl rfl rfl rfl rfl)
          (fun _ => .of_eq rfl rfl)
      · cases taken
  | await w =>
      simp only [step] at taken
      split at taken <;> cases taken
      all_goals
        rename_i at_
        exact watched.setTask (by rw [at_]; simp) (by simp) (by rintro ⟨⟩) (by rintro _ ⟨⟩)
  | task w must => exact watched.taskStep woken taken

end Watchers

end MtAsyncio.Futures
