/-
Module: MtAsyncio.Proofs.ConditionOwner
Purpose: A task that is back from `Condition.wait` owns the lock, provided that
  no cancel is delivered at the await of the finally clause.  That await is
  cancellable like any other, so a cancel delivered there lets `wait` raise
  without the lock.
Trusted boundary: none
Main exports: fits, Placed, Undelivered, wait_keeps_lock, wait_loses_lock
-/
import MtAsyncio.Model.Condition
import MtAsyncio.Proofs.LockOwner

namespace MtAsyncio.Lock

open Tasks

variable {T F C : Type} [DecidableEq T] [DecidableEq F] [DecidableEq C]

/-! ## What a step of the lock leaves alone -/

/-- The task whose counter a step moves. -/
def Act.actor : Act T F C → Option T
  | .acquire t _ | .release t | .task t => some t
  | .kernel _ | .elsewhere _ _ => none

omit [DecidableEq C] in
theorem lockStep_others {s s' : State T F C} {t u : T} (taken : lockStep s t = some s')
    (other : u ≠ t) : s'.task u = s.task u := by
  have set : ∀ (g : State T F C) (pc : LockPc F), g.task = s.task →
      (g.setTask t pc).task u = s.task u := by
    intro g pc same
    simp only [State.setTask, Function.update_of_ne other, same]
  unfold lockStep at taken
  split at taken
  · cases taken
  · cases taken
  · cases taken
  · obtain ⟨next, -, rfl⟩ := Option.map_eq_some_iff.mp taken
    exact set _ _ rfl
  · (repeat' split at taken) <;> cases taken <;> exact set _ _ rfl
  · split at taken <;> cases taken
    exact set _ _ rfl
  · split at taken <;> cases taken <;> exact set _ _ rfl
  · split at taken <;> cases taken <;> exact set _ _ rfl

omit [DecidableEq C] in
theorem elsewhere_task {s s' : State T F C} {t : T} {e : Elsewhere T F}
    (taken : elsewhere s t e = some s') : s'.task = s.task := by
  cases e with
  | create f =>
      simp only [elsewhere] at taken
      split at taken <;> cases taken
      rfl
  | await r pc =>
      cases r with
      | fut f =>
          simp only [elsewhere] at taken
          split at taken
          · cases taken
          · obtain ⟨next, -, rfl⟩ := Option.map_eq_some_iff.mp taken
            rfl
      | task v =>
          obtain ⟨next, -, rfl⟩ := Option.map_eq_some_iff.mp taken
          rfl
  | uncancel pc =>
      cases taken
      rfl
  | settle ending =>
      cases taken
      rfl

theorem step_others {s s' : State T F C} {a : Act T F C} {u : T} (taken : step s a = some s')
    (other : a.actor ≠ some u) : s'.task u = s.task u := by
  cases a with
  | kernel a =>
      cases a with
      | complete f st =>
          simp only [step] at taken
          split at taken
          · cases taken
          · obtain ⟨k', -, rfl⟩ := Option.map_eq_some_iff.mp taken
            rfl
      | wake r =>
          obtain ⟨k', -, rfl⟩ := Option.map_eq_some_iff.mp taken
          rfl
      | cancel c t =>
          obtain ⟨k', -, rfl⟩ := Option.map_eq_some_iff.mp taken
          rfl
      | call c =>
          obtain ⟨k', -, rfl⟩ := Option.map_eq_some_iff.mp taken
          rfl
  | elsewhere t e =>
      simp only [step] at taken
      split at taken
      · rw [elsewhere_task taken]
      · rw [elsewhere_task taken]
      · cases taken
  | acquire t f =>
      have distinct : u ≠ t := fun same => other (congrArg some same.symm)
      simp only [step, acquire] at taken
      (repeat' split at taken) <;> cases taken <;>
        simp only [State.setTask, Function.update_of_ne distinct]
  | release t =>
      have distinct : u ≠ t := fun same => other (congrArg some same.symm)
      simp only [step] at taken
      split at taken <;> cases taken
      simp only [State.setTask, Function.update_of_ne distinct]
  | task t => exact lockStep_others taken fun same => other (congrArg some same.symm)

omit [DecidableEq C] in
/-- What a task does elsewhere completes no future. -/
theorem elsewhere_state {s s' : State T F C} {t : T} {e : Elsewhere T F} {f : F}
    (made : s.kernel.created f = true) (taken : elsewhere s t e = some s') :
    s'.kernel.state (.fut f) = s.kernel.state (.fut f) := by
  cases e with
  | create g =>
      simp only [elsewhere] at taken
      split at taken <;> cases taken
      rename_i unmade
      have other : Ref.fut (T := T) f ≠ .fut g := by
        rintro ⟨rfl⟩
        exact unmade made
      simp only [State.setKernel, Kernel.create, Function.update_of_ne other]
  | await r pc =>
      cases r with
      | fut g =>
          simp only [elsewhere] at taken
          split at taken
          · cases taken
          · obtain ⟨next, moved, rfl⟩ := Option.map_eq_some_iff.mp taken
            exact congrFun (awaitStep_frame moved).1 _
      | task v =>
          obtain ⟨next, moved, rfl⟩ := Option.map_eq_some_iff.mp taken
          exact congrFun (awaitStep_frame moved).1 _
  | uncancel pc =>
      cases taken
      cases pc <;> rfl
  | settle ending =>
      cases taken
      simp only [State.setKernel]
      unfold Kernel.settle
      split
      · simp [Kernel.setState]
      · rfl

/-- A future of the lock is cancelled by a `cancel` call only. -/
theorem step_cancels {s s' : State T F C} {a : Act T F C} {f : F} (queue : Queue s)
    (made : s.issued f = true) (taken : step s a = some s')
    (cancelled : s'.kernel.state (.fut f) = .cancelled) :
    s.kernel.state (.fut f) = .cancelled ∨
      ∃ c u rest, a = .kernel (.call c) ∧ s.kernel.calls c = (u, .futCancel (.fut f)) :: rest ∧
        s.kernel.state (.fut f) = .pending := by
  have fresh := queue.fresh f made
  cases a with
  | kernel a =>
      cases a with
      | complete g st =>
          simp only [step] at taken
          split at taken
          · cases taken
          · rename_i foreign
            obtain ⟨k', moved, rfl⟩ := Option.map_eq_some_iff.mp taken
            simp only [Kernel.step] at moved
            split at moved <;> cases moved
            have other : Ref.fut (T := T) f ≠ .fut g := by
              rintro ⟨rfl⟩
              exact foreign made
            simp only [State.setKernel, Kernel.setState, Function.update_of_ne other] at cancelled
            exact .inl cancelled
      | wake r =>
          obtain ⟨k', moved, rfl⟩ := Option.map_eq_some_iff.mp taken
          simp only [Kernel.step] at moved
          split at moved <;> cases moved
          exact .inl cancelled
      | cancel c t =>
          obtain ⟨k', moved, rfl⟩ := Option.map_eq_some_iff.mp taken
          simp only [Kernel.step] at moved
          split at moved <;> cases moved
          exact .inl cancelled
      | call c =>
          obtain ⟨k', moved, rfl⟩ := Option.map_eq_some_iff.mp taken
          rcases (Kernel.cancelStep_effect moved).state with same | ⟨t, g, rest, stack, before, new⟩
          · exact .inl ((congrFun same _).symm.trans cancelled)
          · by_cases self : f = g
            · subst self
              exact .inr ⟨c, t, rest, rfl, stack, before⟩
            · simp only [State.setKernel, new,
                Function.update_of_ne (fun eq => self (Ref.fut.inj eq) : Ref.fut f ≠ .fut g)]
                at cancelled
              exact .inl cancelled
  | elsewhere t e =>
      have same : s'.kernel.state (.fut f) = s.kernel.state (.fut f) := by
        simp only [step] at taken
        split at taken
        · exact elsewhere_state fresh taken
        · exact elsewhere_state fresh taken
        · cases taken
      exact .inl (same ▸ cancelled)
  | acquire t g =>
      refine .inl ?_
      simp only [step, acquire] at taken
      (repeat' split at taken) <;> cases taken
      · exact cancelled
      · rename_i unmade
        have other : Ref.fut (T := T) f ≠ .fut g := by
          rintro ⟨rfl⟩
          exact unmade fresh
        simpa only [State.setTask, Kernel.create, Function.update_of_ne other] using cancelled
  | release t =>
      simp only [step] at taken
      split at taken <;> cases taken
      exact .inl cancelled
  | task t =>
      refine .inl ?_
      simp only [step] at taken
      unfold lockStep at taken
      split at taken
      · cases taken
      · cases taken
      · cases taken
      · obtain ⟨next, moved, rfl⟩ := Option.map_eq_some_iff.mp taken
        exact (congrFun (awaitStep_frame moved).1 _).symm.trans cancelled
      · (repeat' split at taken) <;> cases taken <;> exact cancelled
      · split at taken <;> cases taken
        exact cancelled
      · split at taken <;> cases taken <;> exact cancelled
      · rename_i g at_
        split at taken <;> cases taken
        · by_cases self : f = g
          · simp [State.setTask, Kernel.setState, self] at cancelled
          · simpa only [State.setTask, Kernel.setState,
              Function.update_of_ne (fun eq => self (Ref.fut.inj eq) : Ref.fut f ≠ .fut g)]
              using cancelled
        · exact cancelled

end MtAsyncio.Lock

namespace MtAsyncio.Condition

open Lib (Machine)
open Tasks
open Lock (LockPc Owner Sound)

variable {T F C N : Type} [DecidableEq T] [DecidableEq F] [DecidableEq C]

/-! ## Where the lock stands for each task -/

/-- The counters of the lock that go with a counter of the condition. -/
def fits : CondPc F → LockPc F → Bool
  | .away, .outside => true
  | .entering, .waiting _ _ | .entering, .caught _ | .entering, .entering
  | .entering, .popping | .entering, .setting _ => true
  | .inside, .holding | .append _, .holding | .toRelease _, .holding => true
  | .leaving, .entering | .leaving, .popping | .leaving, .setting _ => true
  | .releasing _, .entering | .releasing _, .popping | .releasing _, .setting _ => true
  | .awaiting _ _, .outside | .caught _, .outside | .reacquire, .outside => true
  | .acquiring, .waiting _ _ => true
  | _, _ => false

structure Placed (s : State T F C N) : Prop where
  sound : Sound s.lock
  fits : ∀ t, fits (s.task t) (s.lock.task t) = true
  uncancelled : ∀ t f pc, s.task t = .acquiring → s.lock.task t = .waiting f pc →
    s.lock.kernel.state (.fut f) ≠ .cancelled

/-- No cancel is delivered at the await of a finally clause: its tests find
`_must_cancel` down, no `cancel` hits the pending future it waits on, and none
hits a hand-off of the lock. -/
structure Undelivered (s : State T F C N) (a : Act T F C N) : Prop where
  calls : ∀ c u f rest, a = .kernel (.call c) →
    s.lock.kernel.calls c = (u, .futCancel (.fut f)) :: rest →
    s.lock.kernel.state (.fut f) = .pending →
    (∀ v, s.lock.task v ≠ .setting f) ∧
      ∀ t pc, s.task t = .acquiring → s.lock.task t ≠ .waiting f pc
  tests : ∀ t f pc, a = .task t → s.task t = .acquiring → s.lock.task t = .waiting f pc →
    pc = .arm ∨ pc = .ready → s.lock.kernel.mustCancel t = false

/-- The condition takes a step of the lock that moves no task's counter. -/
theorem Placed.setLock {s : State T F C N} (placed : Placed s) {a : Lock.Act T F C}
    {l : Lock.State T F C} (undisturbed : Lock.HandOffUndisturbed s.lock a)
    (taken : Lock.step s.lock a = some l) (passive : a.actor = none)
    (missed : ∀ c u f rest, a = .kernel (.call c) →
      s.lock.kernel.calls c = (u, .futCancel (.fut f)) :: rest →
      s.lock.kernel.state (.fut f) = .pending →
      ∀ t pc, s.task t = .acquiring → s.lock.task t ≠ .waiting f pc) :
    Placed (s.setLock l) where
  sound := Lock.sound_step placed.sound undisturbed taken
  fits := by
    intro t
    have same : l.task t = s.lock.task t := Lock.step_others taken (by rw [passive]; simp)
    simp only [State.setLock, same]
    exact placed.fits t
  uncancelled := by
    intro t f pc at_ waits cancelled
    have same : l.task t = s.lock.task t := Lock.step_others taken (by rw [passive]; simp)
    simp only [State.setLock, same] at waits
    have made := placed.sound.queue.made t f (by rw [waits]; rfl)
    rcases Lock.step_cancels placed.sound.queue made taken cancelled with
      before | ⟨c, u, rest, call, stack, pending⟩
    · exact placed.uncancelled t f pc at_ waits before
    · exact missed c u f rest call stack pending t pc at_ waits

/-- A task takes a step of the lock's code and follows it. -/
theorem Placed.follow {s s' : State T F C N} (placed : Placed s) {t : T} {pc : CondPc F}
    {a : Lock.Act T F C} (actor : a.actor = some t)
    (taken : Condition.follow s t pc a = some s')
    (lands : ∀ l, Lock.step s.lock a = some l → Sound l →
      Condition.fits (afterLock pc (l.task t)) (l.task t) = true)
    (clean : ∀ l f apc, Lock.step s.lock a = some l → afterLock pc (l.task t) = .acquiring →
      l.task t = .waiting f apc → l.kernel.state (.fut f) ≠ .cancelled) : Placed s' := by
  obtain ⟨l, moved, rfl⟩ := Option.map_eq_some_iff.mp taken
  have undisturbed : Lock.HandOffUndisturbed s.lock a := by
    rintro c u f rest v rfl
    cases actor
  have sound := Lock.sound_step placed.sound undisturbed moved
  refine ⟨sound, fun u => ?_, fun u f apc at_ waits cancelled => ?_⟩
  · by_cases self : u = t
    · subst self
      simp only [State.setLock, State.setTask, Function.update_self]
      exact lands l moved sound
    · have same : l.task u = s.lock.task u := Lock.step_others moved (by
        rw [actor]
        exact fun eq => self (Option.some.inj eq).symm)
      simp only [State.setLock, State.setTask, Function.update_of_ne self, same]
      exact placed.fits u
  · by_cases self : u = t
    · subst self
      simp only [State.setLock, State.setTask, Function.update_self] at at_ waits
      exact clean l f apc moved at_ waits cancelled
    · have same : l.task u = s.lock.task u := Lock.step_others moved (by
        rw [actor]
        exact fun eq => self (Option.some.inj eq).symm)
      simp only [State.setLock, State.setTask, Function.update_of_ne self] at at_ waits
      rw [same] at waits
      have made := placed.sound.queue.made u f (by rw [waits]; rfl)
      rcases Lock.step_cancels placed.sound.queue made moved cancelled with
        before | ⟨c, v, rest, rfl, -, -⟩
      · exact placed.uncancelled u f apc at_ waits before
      · cases actor

omit [DecidableEq F] [DecidableEq C] in
/-- A task moves with the lock left alone. -/
theorem Placed.setTask {s : State T F C N} (placed : Placed s) {t : T} {pc : CondPc F}
    (lands : Condition.fits pc (s.lock.task t) = true) (other : pc ≠ .acquiring) :
    Placed (s.setTask t pc) where
  sound := placed.sound
  fits := by
    intro u
    by_cases self : u = t
    · subst self
      simpa only [State.setTask, Function.update_self] using lands
    · simp only [State.setTask, Function.update_of_ne self]
      exact placed.fits u
  uncancelled := by
    intro u f apc at_ waits
    by_cases self : u = t
    · subst self
      simp only [State.setTask, Function.update_self] at at_
      exact absurd at_ other
    · simp only [State.setTask, Function.update_of_ne self] at at_
      exact placed.uncancelled u f apc at_ waits

/-! ## Steps of a task -/

omit [DecidableEq F] in
theorem lands_entering {pc : LockPc F} (quiet : pc ≠ .raised) :
    fits (afterLock .entering pc) pc = true := by
  cases pc <;> first | rfl | exact absurd rfl quiet

omit [DecidableEq C] in
/-- The counters `release` goes through. -/
theorem lockStep_release {s s' : Lock.State T F C} {t : T}
    (releasing : s.task t = .entering ∨ (s.task t).critical = true)
    (taken : Lock.lockStep s t = some s') :
    s'.task t = .outside ∨ s'.task t = .popping ∨ (∃ f, s'.task t = .setting f) ∨
      s'.task t = .raised := by
  have set : ∀ (g : Lock.State T F C) (pc : LockPc F), (g.setTask t pc).task t = pc :=
    fun g pc => Function.update_self ..
  cases at_ : s.task t with
  | outside | holding | raised | waiting | caught =>
      rw [at_] at releasing
      rcases releasing with same | inside
      · cases same
      · cases inside
  | entering =>
      simp only [Lock.lockStep, at_] at taken
      split at taken <;> cases taken
      exact .inr (.inl (set _ _))
  | popping =>
      simp only [Lock.lockStep, at_] at taken
      split at taken <;> cases taken
      · exact .inl (set _ _)
      · simp only [set]
        split
        · exact .inr (.inr (.inl ⟨_, rfl⟩))
        · exact .inr (.inl rfl)
  | setting f =>
      simp only [Lock.lockStep, at_] at taken
      split at taken <;> cases taken
      · exact .inl (set _ _)
      · exact .inr (.inr (.inr (set _ _)))

theorem lands_releasing {s l : Lock.State T F C} {t : T} {pc : CondPc F}
    (form : pc = .leaving ∨ ∃ f, pc = .releasing f) (before : fits pc (s.task t) = true)
    (taken : Lock.step s (.task t) = some l) (sound : Sound l) :
    fits (afterLock pc (l.task t)) (l.task t) = true := by
  have quiet := sound.owned.quiet t
  have releasing : s.task t = .entering ∨ (s.task t).critical = true := by
    rcases form with rfl | ⟨f, rfl⟩ <;> cases at_ : s.task t <;> rw [at_] at before <;>
      first | exact .inl rfl | exact .inr rfl | cases before
  rcases lockStep_release releasing taken with at_ | at_ | ⟨g, at_⟩ | at_
  · rcases form with rfl | ⟨f, rfl⟩ <;> rw [at_] <;> rfl
  · rcases form with rfl | ⟨f, rfl⟩ <;> rw [at_] <;> rfl
  · rcases form with rfl | ⟨f, rfl⟩ <;> rw [at_] <;> rfl
  · exact absurd at_ quiet

omit [DecidableEq F] [DecidableEq C] in
/-- The await of the finally clause, with no cancel delivered at it. -/
theorem awaitStep_undelivered {s : Lock.State T F C} (sound : Sound s) {t : T} {f : F}
    {pc : AwaitPc} {k' : Kernel T F C} {next : AwaitPc ⊕ Outcome}
    (at_ : s.task t = .waiting f pc)
    (tests : pc = .arm ∨ pc = .ready → s.kernel.mustCancel t = false)
    (clean : s.kernel.state (.fut f) ≠ .cancelled)
    (taken : s.kernel.awaitStep t (.fut f) pc = some (k', next)) :
    (∃ pc', next = .inl pc') ∨ next = .inr .returned := by
  cases pc with
  | test | armed | disarm =>
      cases taken
      exact .inl ⟨_, rfl⟩
  | arm =>
      simp only [Kernel.awaitStep, tests (.inl rfl)] at taken
      cases taken
      exact .inl ⟨_, rfl⟩
  | ready =>
      simp only [Kernel.awaitStep, tests (.inr rfl)] at taken
      cases taken
      exact .inl ⟨_, rfl⟩
  | suspended =>
      simp only [Kernel.awaitStep] at taken
      split at taken <;> cases taken
      exact .inl ⟨_, rfl⟩
  | read =>
      have set := sound.queue.resumed t f .read at_ rfl
      have ended := sound.queue.fence (.fut f) set
      have unfailed := sound.queue.notFailed f (sound.queue.made t f (by rw [at_]; rfl))
      simp only [Kernel.awaitStep, set, if_true, Kernel.read] at taken
      cases status : s.kernel.state (.fut f) with
      | pending => exact absurd status ended
      | failed => exact absurd status unfailed
      | cancelled => exact absurd status clean
      | finished =>
          simp only [status] at taken
          cases taken
          exact .inr rfl

theorem Placed.acquiring {s s' : State T F C N} (placed : Placed s) {t : T}
    (undelivered : Undelivered s (.task t)) (at_ : s.task t = .acquiring)
    (taken : Condition.follow s t .acquiring (.task t) = some s') : Placed s' := by
  have before := placed.fits t
  rw [at_] at before
  cases waits : s.lock.task t with
  | waiting f pc =>
      have clean := placed.uncancelled t f pc at_ waits
      -- the step is one of the await, which does not raise
      have lands : ∀ l, Lock.step s.lock (.task t) = some l →
          l.kernel.state = s.lock.kernel.state ∧
            (l.task t = .holding ∨ ∃ pc', l.task t = .waiting f pc') := by
        intro l moved
        simp only [Lock.step, Lock.lockStep, waits] at moved
        obtain ⟨⟨k', next⟩, awaited, rfl⟩ := Option.map_eq_some_iff.mp moved
        refine ⟨(awaitStep_frame awaited).1, ?_⟩
        simp only [Lock.State.setTask, Function.update_self]
        rcases awaitStep_undelivered placed.sound waits
          (undelivered.tests t f pc rfl at_ waits) clean awaited with ⟨pc', rfl⟩ | rfl
        · exact .inr ⟨pc', rfl⟩
        · exact .inl rfl
      refine placed.follow rfl taken (fun l moved _ => ?_) fun l g apc moved _ waits' => ?_
      · rcases (lands l moved).2 with holds | ⟨pc', waits'⟩
        · rw [holds]
          rfl
        · rw [waits']
          rfl
      · obtain ⟨state, holds | ⟨pc', same⟩⟩ := lands l moved
        · rw [holds] at waits'
          cases waits'
        · rw [same] at waits'
          cases waits'
          rw [state]
          exact clean
  | _ =>
      rw [waits] at before
      cases before

/-- The calls of `release` by a task that holds the lock. -/
theorem Placed.release {s : State T F C N} (placed : Placed s) {t : T} {pc : CondPc F}
    (holds : s.lock.task t = .holding) (form : pc = .leaving ∨ ∃ f, pc = .releasing f) :
    Placed ((s.setLock (s.lock.setTask t .entering)).setTask t pc) := by
  have moved : Lock.step s.lock (.release t) = some (s.lock.setTask t .entering) := by
    simp only [Lock.step, holds]
  have after : (s.lock.setTask t .entering).task t = .entering := Function.update_self ..
  have same : afterLock pc ((s.lock.setTask t .entering).task t) = pc := by
    rw [after]
    rcases form with rfl | ⟨f, rfl⟩ <;> rfl
  have taken : Condition.follow s t pc (.release t) =
      some ((s.setLock (s.lock.setTask t .entering)).setTask t pc) := by
    simp only [Condition.follow, moved, Option.map_some, same]
  refine placed.follow rfl taken (fun l moved' _ => ?_) fun l f apc moved' at_ => ?_
  · rw [moved] at moved'
    cases moved'
    rw [same, after]
    rcases form with rfl | ⟨f, rfl⟩ <;> rfl
  · rw [moved] at moved'
    cases moved'
    rw [same] at at_
    rcases form with rfl | ⟨f, rfl⟩ <;> cases at_

/-- The await of `wait` itself. -/
theorem Placed.awaiting {s s' : State T F C N} (placed : Placed s) {t : T} {f : F}
    {pc : AwaitPc} {next : Kernel T F C × (AwaitPc ⊕ Outcome)}
    (at_ : s.task t = .awaiting f pc)
    (taken : (Lock.step s.lock (.elsewhere t (.await (.fut f) pc))).map
      (fun l => (s.setLock l).setTask t (afterAwait f next.2)) = some s') : Placed s' := by
  have before := placed.fits t
  rw [at_] at before
  have outside : s.lock.task t = .outside := by
    cases at' : s.lock.task t <;> rw [at'] at before <;> first | rfl | cases before
  obtain ⟨l, moved, rfl⟩ := Option.map_eq_some_iff.mp taken
  have placed' := placed.setLock (by rintro _ _ _ _ _ ⟨⟩) moved rfl (by rintro _ _ _ _ ⟨⟩)
  refine placed'.setTask ?_ ?_
  · have same : l.task t = .outside := (Lock.step_others moved (by rintro ⟨⟩)).trans outside
    simp only [State.setLock, same]
    obtain ⟨k', next⟩ := next
    rcases next with pc' | outcome
    · rfl
    · cases outcome <;> rfl
  · obtain ⟨k', next⟩ := next
    rcases next with pc' | outcome
    · rintro ⟨⟩
    · cases outcome <;> rintro ⟨⟩

theorem Placed.task {s s' : State T F C N} (placed : Placed s) {t : T}
    (undelivered : Undelivered s (.task t)) (taken : taskStep s t = some s') : Placed s' := by
  have before := placed.fits t
  cases at_ : s.task t with
  | away | inside | reacquire =>
      simp only [taskStep, at_] at taken
      cases taken
  | entering =>
      simp only [taskStep, at_] at taken
      refine placed.follow rfl taken (fun l _ sound => lands_entering (sound.owned.quiet t))
        fun l f apc _ same => ?_
      cases after : l.task t <;> rw [after] at same <;> cases same
  | leaving =>
      simp only [taskStep, at_] at taken
      rw [at_] at before
      refine placed.follow rfl taken
        (fun l moved sound => lands_releasing (.inl rfl) before moved sound)
        fun l f apc _ same => ?_
      cases after : l.task t <;> rw [after] at same <;> cases same
  | append f =>
      rw [at_] at before
      simp only [taskStep, at_] at taken
      split at taken <;> cases taken
      have holds : s.lock.task t = .holding := by
        cases at' : s.lock.task t <;> rw [at'] at before <;> first | rfl | cases before
      have placed' : Placed { s with waiters := s.waiters ++ [f] } :=
        ⟨placed.sound, placed.fits, placed.uncancelled⟩
      exact placed'.setTask (by simp only [holds]; rfl) (by simp)
  | toRelease f =>
      rw [at_] at before
      simp only [taskStep, at_] at taken
      cases taken
      refine placed.release ?_ (.inr ⟨f, rfl⟩)
      cases at' : s.lock.task t <;> rw [at'] at before <;> first | rfl | cases before
  | releasing f =>
      simp only [taskStep, at_] at taken
      rw [at_] at before
      refine placed.follow rfl taken
        (fun l moved sound => lands_releasing (.inr ⟨f, rfl⟩) before moved sound)
        fun l g apc _ same => ?_
      cases after : l.task t <;> rw [after] at same <;> cases same
  | awaiting f pc =>
      simp only [taskStep, at_] at taken
      obtain ⟨next, -, moved⟩ := Option.bind_eq_some_iff.mp taken
      exact placed.awaiting at_ moved
  | caught f =>
      rw [at_] at before
      simp only [taskStep, at_] at taken
      split at taken <;> cases taken
      have outside : s.lock.task t = .outside := by
        cases at' : s.lock.task t <;> rw [at'] at before <;> first | rfl | cases before
      have placed' : Placed { s with waiters := s.waiters.erase f } :=
        ⟨placed.sound, placed.fits, placed.uncancelled⟩
      exact placed'.setTask (by simp only [outside]; rfl) (by simp)
  | acquiring =>
      simp only [taskStep, at_] at taken
      exact placed.acquiring undelivered at_ taken

/-! ## Steps of the others -/

omit [DecidableEq T] [DecidableEq F] [DecidableEq C] in
/-- The notifiers complete futures that `wait` made and move the queue. -/
theorem Placed.setNotifier [DecidableEq N] {s : State T F C N} (placed : Placed s) (p : N)
    (pc : NotifyPc F) (waiters : List F) (mu : Option N) :
    Placed ({ s with waiters := waiters, mu := mu }.setNotifier p pc) :=
  ⟨placed.sound, placed.fits, placed.uncancelled⟩

theorem Placed.setResult [DecidableEq N] {s s' : State T F C N} (placed : Placed s) {p : N} {f : F}
    {next : NotifyPc F} (taken : Condition.setResult s p f next = some s') : Placed s' := by
  simp only [Condition.setResult] at taken
  split at taken
  · obtain ⟨l, moved, rfl⟩ := Option.map_eq_some_iff.mp taken
    have placed' := placed.setLock (by rintro _ _ _ _ _ ⟨⟩) moved rfl (by rintro _ _ _ _ ⟨⟩)
    exact placed'.setNotifier p next _ _
  · cases taken
    exact placed.setNotifier p .idle _ _

theorem Placed.notifier [DecidableEq N] {s s' : State T F C N} (placed : Placed s) {p : N}
    (taken : notifierStep s p = some s') : Placed s' := by
  unfold notifierStep at taken
  split at taken
  · cases taken
  · split at taken <;> cases taken <;> exact placed.setNotifier p _ _ _
  · exact placed.setResult taken
  · cases taken
    exact placed.setNotifier p _ _ _
  · cases taken
    exact placed.setNotifier p _ _ _
  · exact placed.setResult taken

/-- A future that the finally clause has just queued is not cancelled. -/
theorem acquire_clean {s l : Lock.State T F C} {t : T} {f g : F} {apc : AwaitPc}
    (taken : Lock.step s (.acquire t f) = some l) (waits : l.task t = .waiting g apc) :
    l.kernel.state (.fut g) ≠ .cancelled := by
  simp only [Lock.step, Lock.acquire] at taken
  (repeat' split at taken) <;> cases taken
  · simp [Lock.State.setTask] at waits
  · simp only [Lock.State.setTask, Function.update_self, LockPc.waiting.injEq] at waits
    simp [Lock.State.setTask, Kernel.create, ← waits.1]

theorem acquire_lands {s l : Lock.State T F C} {t : T} {f : F}
    (taken : Lock.step s (.acquire t f) = some l) :
    l.task t = .holding ∨ ∃ g apc, l.task t = .waiting g apc := by
  simp only [Lock.step, Lock.acquire] at taken
  (repeat' split at taken) <;> cases taken
  · exact .inl (Function.update_self ..)
  · exact .inr ⟨f, .test, Function.update_self ..⟩

theorem placed_step [DecidableEq N] {s s' : State T F C N} {a : Act T F C N} (placed : Placed s)
    (undelivered : Undelivered s a) (taken : step s a = some s') : Placed s' := by
  cases a with
  | kernel a =>
      have undisturbed : Lock.HandOffUndisturbed s.lock (.kernel a) := by
        rintro c u f rest v call stack handing
        cases call
        obtain ⟨pending, -⟩ := placed.sound.queue.handing v f handing
        exact (undelivered.calls c u f rest rfl stack pending).1 v handing
      have missed : ∀ c u f rest, Lock.Act.kernel a = .kernel (.call c) →
          s.lock.kernel.calls c = (u, .futCancel (.fut f)) :: rest →
          s.lock.kernel.state (.fut f) = .pending →
          ∀ t pc, s.task t = .acquiring → s.lock.task t ≠ .waiting f pc := by
        rintro c u f rest call stack pending
        cases call
        exact (undelivered.calls c u f rest rfl stack pending).2
      cases a with
      | complete f st =>
          simp only [step] at taken
          split at taken
          · cases taken
          · obtain ⟨l, moved, rfl⟩ := Option.map_eq_some_iff.mp taken
            exact placed.setLock undisturbed moved rfl missed
      | wake r =>
          obtain ⟨l, moved, rfl⟩ := Option.map_eq_some_iff.mp taken
          exact placed.setLock undisturbed moved rfl missed
      | cancel c t =>
          obtain ⟨l, moved, rfl⟩ := Option.map_eq_some_iff.mp taken
          exact placed.setLock undisturbed moved rfl missed
      | call c =>
          obtain ⟨l, moved, rfl⟩ := Option.map_eq_some_iff.mp taken
          exact placed.setLock undisturbed moved rfl missed
  | elsewhere t e =>
      have passes : ∀ {s'}, (Lock.step s.lock (.elsewhere t e)).map s.setLock = some s' →
          Placed s' := by
        intro s' taken
        obtain ⟨l, moved, rfl⟩ := Option.map_eq_some_iff.mp taken
        exact placed.setLock (by rintro _ _ _ _ _ ⟨⟩) moved rfl (by rintro _ _ _ _ ⟨⟩)
      simp only [step] at taken
      (repeat' split at taken) <;> first | exact passes taken | cases taken
  | enter t f =>
      simp only [step] at taken
      split at taken
      · refine placed.follow rfl taken (fun l _ sound => lands_entering (sound.owned.quiet t))
          fun l g apc _ same => ?_
        cases after : l.task t <;> rw [after] at same <;> cases same
      · cases taken
  | exit t =>
      simp only [step] at taken
      split at taken <;> cases taken
      rename_i at_
      have before := placed.fits t
      rw [at_] at before
      refine placed.release ?_ (.inl rfl)
      cases at' : s.lock.task t <;> rw [at'] at before <;> first | rfl | cases before
  | wait t f =>
      simp only [step] at taken
      split at taken
      · rename_i at_
        obtain ⟨l, moved, rfl⟩ := Option.map_eq_some_iff.mp taken
        have before := placed.fits t
        rw [at_] at before
        have holds : s.lock.task t = .holding := by
          cases at' : s.lock.task t <;> rw [at'] at before <;> first | rfl | cases before
        have same : l.task t = .holding := (Lock.step_others moved (by rintro ⟨⟩)).trans holds
        have placed' := placed.setLock (by rintro _ _ _ _ _ ⟨⟩) moved rfl (by rintro _ _ _ _ ⟨⟩)
        have issued : Placed ({ s with issued := Function.update s.issued f true }.setLock l) :=
          ⟨placed'.sound, placed'.fits, placed'.uncancelled⟩
        exact issued.setTask (by simp only [State.setLock, same]; rfl) (by simp)
      · cases taken
  | reacquire t f =>
      simp only [step] at taken
      split at taken
      · refine placed.follow rfl taken (fun l moved _ => ?_)
          fun l g apc moved _ waits => acquire_clean moved waits
        rcases acquire_lands moved with holds | ⟨g, apc, waits⟩
        · rw [holds]
          rfl
        · rw [waits]
          rfl
      · cases taken
  | task t => exact placed.task undelivered taken
  | notify p n =>
      simp only [step] at taken
      split at taken <;> cases taken
      exact placed.setNotifier p _ _ _
  | notifyAll p =>
      simp only [step] at taken
      split at taken <;> cases taken
      exact placed.setNotifier p _ _ _
  | notifier p => exact placed.notifier taken

omit [DecidableEq T] [DecidableEq F] [DecidableEq C] in
theorem placed_start {s : State T F C N} (start : Start s) : Placed s := by
  obtain ⟨lock, -, -, -, task, -⟩ := start
  refine ⟨Lock.sound_start lock, fun t => ?_, fun t f pc at_ => ?_⟩
  · rw [task, lock.2.2.2.2.2 t]
    rfl
  · rw [task] at at_
    cases at_

/-- In every run in which no cancel is delivered at a finally clause, a task in
the body of `async with cond`, be it back from `wait` or about to leave, is the
one owner of the lock. -/
theorem wait_keeps_lock [DecidableEq N] {s : State T F C N}
    (reached : (machine T F C N).Reach Undelivered s) (t : T) (inside : s.task t = .inside) :
    Owner s.lock t ∧ ∀ u, Owner s.lock u → u = t := by
  have placed := Machine.Reach.invariant Placed (fun _ => placed_start)
    (fun _ _ _ placed undelivered taken => placed_step placed undelivered taken) reached
  have before := placed.fits t
  rw [inside] at before
  have owner : Owner s.lock t := by
    refine .inl ?_
    cases at' : s.lock.task t <;> rw [at'] at before <;> first | rfl | cases before
  exact ⟨owner, fun u other => placed.sound.owned.unique u t other owner⟩

/-! ## Runs -/

def freshState (T F C N : Type) : State T F C N where
  lock := Lock.freshState T F C
  waiters := []
  issued := fun _ => false
  mu := none
  task := fun _ => .away
  notifier := fun _ => .idle

omit [DecidableEq T] [DecidableEq F] [DecidableEq C] in
theorem freshState_start : Start (freshState T F C N) :=
  ⟨Lock.freshState_start, rfl, fun _ => rfl, rfl, fun _ => rfl, fun _ => rfl⟩

/-- Task `false` is suspended in `wait`; the lock is free. -/
def waitingRun : List (Act Bool Nat Nat Nat) :=
  [.enter false 0, .wait false 0, .task false, .task false, .task false, .task false, .task false,
    .task false, .task false]

/-- Task `true` notifies task `false` and keeps the lock; task `false` is cancelled while it
waits for the lock. -/
def losingRun : List (Act Bool Nat Nat Nat) :=
  List.flatten
    [waitingRun,
      [.enter true 1, .notify 0 1, .notifier 0, .notifier 0, .notifier 0, .kernel (.wake (.fut 0))],
      [.task false, .task false, .task false, .reacquire false 1, .task false, .task false, .task
        false],
      [.kernel (.cancel 0 false), .kernel (.call 0), .kernel (.call 0), .kernel (.call 0),
        .kernel (.call 0), .kernel (.wake (.fut 1))],
      [.task false, .task false, .task false, .task false]]

theorem losingRun_ends :
    ((machine Bool Nat Nat Nat).exec (freshState _ _ _ _) losingRun).any
      (fun s => s.task false = .inside ∧ s.lock.task false = .outside ∧
        s.lock.task true = .holding) = true := by
  decide +kernel

theorem wait_loses_lock :
    ¬ ∀ s : State Bool Nat Nat Nat,
      (machine Bool Nat Nat Nat).Reachable s → ∀ t, s.task t = .inside →
        Owner s.lock t ∧ ∀ u, Owner s.lock u → u = t := by
  intro always
  obtain ⟨s, reached, ends⟩ := Machine.Reachable.exists_of_exec freshState_start losingRun_ends
  obtain ⟨inside, -, holds⟩ := of_decide_eq_true ends
  have same := (always s reached false inside).2 true (.inl (by rw [holds]; rfl))
  cases same

/-- `Undelivered` for two tasks, decided by the counters. -/
def calm (s : State Bool F C N) : Act Bool F C N → Bool
  | .kernel (.call c) =>
      match s.lock.kernel.calls c with
      | (_, .futCancel (.fut f)) :: _ =>
          ∀ t, s.lock.task t ≠ .setting f ∧ s.task t ≠ .acquiring
      | _ => true
  | .task t => s.task t ≠ .acquiring
  | _ => true

omit [DecidableEq C] in
theorem undelivered_of_calm (s : State Bool F C N) (a : Act Bool F C N)
    (checked : calm s a = true) : Undelivered s a := by
  constructor
  · rintro c u f rest rfl stack -
    simp only [calm, stack, decide_eq_true_eq] at checked
    exact ⟨fun v => (checked v).1, fun t pc at_ => absurd at_ (checked t).2⟩
  · rintro t f pc rfl at_
    simp [calm, at_] at checked

/-- Task `false` is cancelled in `wait` and takes the lock again before it raises. -/
def keepingRun : List (Act Bool Nat Nat Nat) :=
  List.flatten
    [waitingRun,
      [.kernel (.cancel 0 false), .kernel (.call 0), .kernel (.call 0), .kernel (.call 0),
        .kernel (.call 0), .kernel (.wake (.fut 0))],
      [.task false, .task false, .task false, .task false, .reacquire false 1]]

theorem keepingRun_ends :
    ((machine Bool Nat Nat Nat).execIf calm (freshState _ _ _ _) keepingRun).any
      (fun s => s.task false = .inside ∧ s.lock.kernel.state (.fut 0) = .cancelled) = true := by
  decide +kernel

theorem wait_keeps_lock_when_cancelled :
    ∃ s : State Bool Nat Nat Nat,
      s.lock.kernel.state (.fut 0) = .cancelled ∧ s.task false = .inside ∧
        Owner s.lock false ∧ ∀ u, Owner s.lock u → u = false := by
  obtain ⟨s, reached, ends⟩ :=
    Machine.Reach.exists_of_execIf undelivered_of_calm freshState_start keepingRun_ends
  obtain ⟨inside, cancelled⟩ := of_decide_eq_true ends
  exact ⟨s, cancelled, inside, wait_keeps_lock reached false inside⟩

end MtAsyncio.Condition
