/-
Module: MtAsyncio.Proofs.RequestSteps
Purpose: The steps of the task machine as one task sees them: a step of a
  `cancel` call, a step of its own, or a step that does nothing to it.  What a
  call has been passed on to is the future the task still waits on.
Trusted boundary: none
Main exports: CancelMove, OwnStep, Apart, View, step_view, Sent, sent_step
-/
import MtAsyncio.Model.Requests
import MtAsyncio.Proofs.TaskCancel

namespace MtAsyncio.Tasks

open Lib (Machine)

variable {T F C : Type} [DecidableEq T] [DecidableEq F]

/-! ## Inversion of the steps -/

/-- The steps of the innermost call of `c`. -/
inductive CancelMove [DecidableEq C] (k : Kernel T F C) (c : C) : Kernel T F C → Prop where
  | asks {t : T} {rest : List (T × CancelPc T F)} (stack : k.calls c = (t, .done) :: rest)
      (pending : k.state (.task t) = .pending) :
      CancelMove k c (k.setCalls c ((t, .count) :: rest))
  | refused {t : T} {rest : List (T × CancelPc T F)} (stack : k.calls c = (t, .done) :: rest)
      (ended : k.state (.task t) ≠ .pending) : CancelMove k c (k.setCalls c (returnTo false rest))
  | counts {t : T} {rest : List (T × CancelPc T F)} (stack : k.calls c = (t, .count) :: rest) :
      CancelMove k c ((k.addCancels t 1).setCalls c ((t, .read) :: rest))
  | unparked {t : T} {rest : List (T × CancelPc T F)} (stack : k.calls c = (t, .read) :: rest)
      (free : k.futWaiter t = none) :
      CancelMove k c ((k.setMust t true).setCalls c (returnTo true rest))
  | parked {t : T} {r : Ref T F} {rest : List (T × CancelPc T F)}
      (stack : k.calls c = (t, .read) :: rest) (waits : k.futWaiter t = some r) :
      CancelMove k c (k.setCalls c ((t, .futCancel r) :: rest))
  | hits {t : T} {f : F} {rest : List (T × CancelPc T F)}
      (stack : k.calls c = (t, .futCancel (.fut f)) :: rest)
      (pending : k.state (.fut f) = .pending) :
      CancelMove k c ((k.setState (.fut f) .cancelled).setCalls c (returnTo true rest))
  | finds {t : T} {f : F} {rest : List (T × CancelPc T F)}
      (stack : k.calls c = (t, .futCancel (.fut f)) :: rest)
      (ended : k.state (.fut f) ≠ .pending) : CancelMove k c (k.setCalls c ((t, .set) :: rest))
  | nests {t u : T} {rest : List (T × CancelPc T F)}
      (stack : k.calls c = (t, .futCancel (.task u)) :: rest) :
      CancelMove k c (k.setCalls c ((u, .done) :: (t, .futCancel (.task u)) :: rest))
  | sets {t : T} {rest : List (T × CancelPc T F)} (stack : k.calls c = (t, .set) :: rest) :
      CancelMove k c ((k.setMust t true).setCalls c (returnTo true rest))

theorem Kernel.cancelStep_move [DecidableEq C] {k k' : Kernel T F C} {c : C}
    (taken : k.cancelStep c = some k') : CancelMove k c k' := by
  unfold Kernel.cancelStep at taken
  split at taken
  · cases taken
  · rename_i t rest stack
    cases taken
    split
    · exact .asks stack ‹_›
    · exact .refused stack ‹_›
  · rename_i t rest stack
    cases taken
    exact .counts stack
  · rename_i t rest stack
    split at taken <;> cases taken
    · exact .unparked stack ‹_›
    · exact .parked stack ‹_›
  · rename_i t f rest stack
    split at taken <;> cases taken
    · exact .hits stack ‹_›
    · exact .finds stack ‹_›
  · rename_i t u rest stack
    cases taken
    exact .nests stack
  · rename_i t rest stack
    cases taken
    exact .sets stack

/-- The steps of `t` itself. -/
inductive OwnStep (s : State T F C) (t : T) : Act T F C → State T F C → Prop where
  | awaits (r : Ref T F) (at_ : s.task t = .running) :
      OwnStep s t (.await t r) (s.setTask t s.kernel (.awaiting r .test))
  | uncancels (at_ : s.task t = .running) :
      OwnStep s t (.uncancel t) (s.setTask t s.kernel (.uncancel .test))
  | returns (at_ : s.task t = .running) :
      OwnStep s t (.finish t .returned) (s.setTask t s.kernel .takeMust)
  | fails (ending : Ending) (at_ : s.task t = .running) (failed : ending ≠ .returned) :
      OwnStep s t (.finish t ending) (s.setTask t s.kernel (.settle ending))
  | tests (r : Ref T F) (at_ : s.task t = .awaiting r .test) :
      OwnStep s t (.task t)
        (s.setTask t s.kernel (.awaiting r (if s.kernel.event r then .ready else .arm)))
  | raises (r : Ref T F) (pc : AwaitPc) (at_ : s.task t = .awaiting r pc)
      (checks : pc = .arm ∨ pc = .ready) (must : s.kernel.mustCancel t = true) :
      OwnStep s t (.task t) (s.setTask t (s.kernel.setMust t false) .running)
  | parks (r : Ref T F) (at_ : s.task t = .awaiting r .arm)
      (free : s.kernel.mustCancel t = false) :
      OwnStep s t (.task t) (s.setTask t (s.kernel.setWaiter t (some r)) (.awaiting r .armed))
  | goesOn (r : Ref T F) (at_ : s.task t = .awaiting r .ready)
      (free : s.kernel.mustCancel t = false) :
      OwnStep s t (.task t) (s.setTask t s.kernel (.awaiting r .read))
  | suspends (r : Ref T F) (at_ : s.task t = .awaiting r .armed) :
      OwnStep s t (.task t) (s.setTask t s.kernel (.awaiting r .suspended))
  | resumes (r : Ref T F) (at_ : s.task t = .awaiting r .suspended)
      (woken : s.kernel.event r = true) :
      OwnStep s t (.task t) (s.setTask t s.kernel (.awaiting r .disarm))
  | disarms (r : Ref T F) (at_ : s.task t = .awaiting r .disarm) :
      OwnStep s t (.task t) (s.setTask t (s.kernel.setWaiter t none) (.awaiting r .read))
  | concludes (r : Ref T F) (at_ : s.task t = .awaiting r .read) :
      OwnStep s t (.task t) (s.setTask t s.kernel .running)
  | uncancelTests (at_ : s.task t = .uncancel .test) :
      OwnStep s t (.task t) (s.setTask t s.kernel
        (if 0 < s.kernel.numCancelsRequested t then .uncancel .decrement else .running))
  | decrements (at_ : s.task t = .uncancel .decrement) :
      OwnStep s t (.task t) (s.setTask t (s.kernel.addCancels t (-1)) (.uncancel .compare))
  | compares (at_ : s.task t = .uncancel .compare) :
      OwnStep s t (.task t) (s.setTask t s.kernel
        (if s.kernel.numCancelsRequested t = 0 then .uncancel .clear else .running))
  | clears (at_ : s.task t = .uncancel .clear) :
      OwnStep s t (.task t) (s.setTask t (s.kernel.setMust t false) .running)
  | takes (at_ : s.task t = .takeMust) :
      OwnStep s t (.task t) (s.setTask t (s.kernel.setMust t false)
        (.settle (if s.kernel.mustCancel t then .cancelled else .returned)))
  | settles (ending : Ending) (at_ : s.task t = .settle ending) :
      OwnStep s t (.task t) (s.setTask t (s.kernel.settle t ending) .done)

theorem own_step [DecidableEq C] {s s' : State T F C} {t : T} (taken : step s (.task t) = some s') :
    OwnStep s t (.task t) s' := by
  obtain ⟨⟨k, pc⟩, moved, rfl⟩ := Option.map_eq_some_iff.mp taken
  cases at_ : s.task t with
  | running =>
      rw [at_] at moved
      cases moved
  | awaiting r pc =>
      rw [at_] at moved
      obtain ⟨⟨k', next⟩, awaited, same⟩ := Option.map_eq_some_iff.mp moved
      cases same
      cases pc with
      | test =>
          cases awaited
          have tests := OwnStep.tests r at_
          cases woken : s.kernel.event r <;> rw [woken] at tests <;> exact tests
      | arm =>
          simp only [Kernel.awaitStep] at awaited
          split at awaited <;> cases awaited
          · exact .raises r .arm at_ (.inl rfl) ‹_›
          · exact .parks r at_ (Bool.not_eq_true _ ▸ ‹_›)
      | armed =>
          cases awaited
          exact .suspends r at_
      | suspended =>
          simp only [Kernel.awaitStep] at awaited
          split at awaited <;> cases awaited
          exact .resumes r at_ ‹_›
      | disarm =>
          cases awaited
          exact .disarms r at_
      | ready =>
          simp only [Kernel.awaitStep] at awaited
          split at awaited <;> cases awaited
          · exact .raises r .ready at_ (.inr rfl) ‹_›
          · exact .goesOn r at_ (Bool.not_eq_true _ ▸ ‹_›)
      | read =>
          cases awaited
          exact .concludes r at_
  | uncancel pc =>
      rw [at_] at moved
      cases moved
      cases pc with
      | test =>
          have tests := OwnStep.uncancelTests at_
          by_cases positive : 0 < s.kernel.numCancelsRequested t
          · simpa only [Kernel.uncancelStep, if_pos positive] using tests
          · simpa only [Kernel.uncancelStep, if_neg positive] using tests
      | decrement => exact .decrements at_
      | compare =>
          have compares := OwnStep.compares at_
          by_cases zero : s.kernel.numCancelsRequested t = 0
          · simpa only [Kernel.uncancelStep, if_pos zero] using compares
          · simpa only [Kernel.uncancelStep, if_neg zero] using compares
      | clear => exact .clears at_
  | takeMust =>
      rw [at_] at moved
      cases moved
      exact .takes at_
  | settle ending =>
      rw [at_] at moved
      cases moved
      exact .settles ending at_
  | done =>
      rw [at_] at moved
      cases moved

/-- A step that does nothing to `t`. -/
structure Apart (s s' : State T F C) (t : T) : Prop where
  task : s'.task t = s.task t
  must : s'.kernel.mustCancel t = s.kernel.mustCancel t
  count : s'.kernel.numCancelsRequested t = s.kernel.numCancelsRequested t
  ended : s'.kernel.state (.task t) = s.kernel.state (.task t)
  cancelled : ∀ f, s.kernel.state (.fut f) = .cancelled → s'.kernel.state (.fut f) = .cancelled
  event : ∀ r, s.kernel.event r = true → s'.kernel.event r = true
  calling : ∀ c, s.kernel.calling c t = true → s'.kernel.calling c t = true

/-- The act is neither a step of a call nor one of `t`. -/
structure Silent (a : Act T F C) (t : T) : Prop where
  call : ∀ c, a ≠ .kernel (.call c)
  body : a.body ≠ some t
  moves : a.moves t = false
  returns : a.returns t = false

/-- A step as task `t` sees it. -/
inductive View [DecidableEq C] (s : State T F C) (a : Act T F C) (s' : State T F C) (t : T) :
    Prop where
  | call (c : C) (k : Kernel T F C) (label : a = .kernel (.call c))
      (next : s' = { s with kernel := k }) (taken : s.kernel.cancelStep c = some k)
  | own (step : OwnStep s t a s')
  | apart (silent : Silent a t) (same : Apart s s' t)

omit [DecidableEq F] in
/-- Another task's counter moves. -/
theorem Apart.setTask {s : State T F C} {t u : T} (other : t ≠ u) (k : Kernel T F C)
    (pc : TaskPc T F) (must : k.mustCancel t = s.kernel.mustCancel t)
    (count : k.numCancelsRequested t = s.kernel.numCancelsRequested t)
    (ended : k.state (.task t) = s.kernel.state (.task t))
    (cancelled : ∀ f, s.kernel.state (.fut f) = .cancelled → k.state (.fut f) = .cancelled)
    (event : k.event = s.kernel.event) (calls : k.calls = s.kernel.calls) :
    Apart s (s.setTask u k pc) t where
  task := Function.update_of_ne other ..
  must := must
  count := count
  ended := ended
  cancelled := cancelled
  event := by
    simp only [State.setTask, event]
    exact fun _ => id
  calling := by
    intro c
    simp only [State.setTask, Kernel.calling, calls]
    exact id

theorem OwnStep.apart {s s' : State T F C} {t u : T} (other : t ≠ u)
    (own : OwnStep s u (.task u) s') : Apart s s' t := by
  cases own with
  | raises r pc at_ checks must =>
      exact .setTask other _ _ (Function.update_of_ne other ..) rfl rfl (fun _ => id) rfl rfl
  | clears at_ =>
      exact .setTask other _ _ (Function.update_of_ne other ..) rfl rfl (fun _ => id) rfl rfl
  | takes at_ =>
      exact .setTask other _ _ (Function.update_of_ne other ..) rfl rfl (fun _ => id) rfl rfl
  | decrements at_ =>
      exact .setTask other _ _ rfl (Function.update_of_ne other ..) rfl (fun _ => id) rfl rfl
  | settles ending at_ =>
      have apart : Ref.task (F := F) t ≠ .task u := fun same => other (Ref.task.inj same)
      unfold Kernel.settle
      split
      · refine .setTask other _ _ rfl rfl (Function.update_of_ne apart ..) (fun f => ?_) rfl rfl
        simp only [Kernel.setState, Function.update_of_ne (by simp : Ref.fut f ≠ .task u)]
        exact id
      · exact .setTask other _ _ rfl rfl rfl (fun _ => id) rfl rfl
  | _ => exact .setTask other _ _ rfl rfl rfl (fun _ => id) rfl rfl

theorem step_view [DecidableEq C] {s s' : State T F C} {a : Act T F C} (taken : step s a = some s')
    (t : T) :
    View s a s' t := by
  cases a with
  | kernel a =>
      obtain ⟨k, moved, rfl⟩ := Option.map_eq_some_iff.mp taken
      cases a with
      | complete f st =>
          simp only [Kernel.step] at moved
          split at moved <;> cases moved
          rename_i allowed
          refine .apart ⟨by simp, by simp [Act.body], rfl, rfl⟩
            ⟨rfl, rfl, rfl, rfl, fun g cancelled => ?_, fun _ => id, fun _ => id⟩
          by_cases self : g = f
          · rw [self, allowed.1] at cancelled
            cases cancelled
          · have other : Ref.fut (T := T) g ≠ .fut f := fun same => self (Ref.fut.inj same)
            simpa only [Kernel.setState, Function.update_of_ne other] using cancelled
      | wake r =>
          simp only [Kernel.step] at moved
          split at moved <;> cases moved
          refine .apart ⟨by simp, by simp [Act.body], rfl, rfl⟩ ⟨rfl, rfl, rfl, rfl, fun _ => id,
            fun r' woken => ?_, fun _ => id⟩
          by_cases self : r' = r
          · simp only [self, Function.update_self]
          · simpa only [Function.update_of_ne self] using woken
      | cancel c u =>
          simp only [Kernel.step] at moved
          split at moved <;> cases moved
          rename_i idle
          refine .apart ⟨by simp, by simp [Act.body], rfl, rfl⟩ ⟨rfl, rfl, rfl, rfl, fun _ => id,
            fun _ => id, fun c' calling => ?_⟩
          by_cases self : c' = c
          · rw [self] at calling
            simp [Kernel.calling, idle] at calling
          · simpa only [Kernel.calling, Kernel.setCalls, Function.update_of_ne self] using calling
      | call c => exact .call c k rfl rfl moved
  | await u r =>
      simp only [step] at taken
      split at taken <;> cases taken
      rename_i at_
      by_cases self : t = u
      · subst self
        exact .own (.awaits r at_)
      · exact .apart ⟨by simp, by simpa [Act.body] using fun same => self same.symm, rfl, rfl⟩
          (.setTask self _ _ rfl rfl rfl (fun _ => id) rfl rfl)
  | uncancel u =>
      simp only [step] at taken
      split at taken <;> cases taken
      rename_i at_
      by_cases self : t = u
      · subst self
        exact .own (.uncancels at_)
      · have other : u ≠ t := fun same => self same.symm
        exact .apart ⟨by simp, by simpa [Act.body] using other, rfl, rfl⟩
          (.setTask self _ _ rfl rfl rfl (fun _ => id) rfl rfl)
  | finish u ending =>
      simp only [step] at taken
      split at taken <;> cases taken
      rename_i at_
      by_cases self : t = u
      · subst self
        split
        · rename_i returned
          exact returned ▸ .own (.returns at_)
        · exact .own (.fails ending at_ ‹_›)
      · have other : u ≠ t := fun same => self same.symm
        exact .apart ⟨by simp, by simpa [Act.body] using other, rfl, by simp [Act.returns, other]⟩
          (.setTask self _ _ rfl rfl rfl (fun _ => id) rfl rfl)
  | task u =>
      by_cases self : t = u
      · subst self
        exact .own (own_step taken)
      · have other : u ≠ t := fun same => self same.symm
        exact .apart ⟨by simp, by simp [Act.body], by simp [Act.moves, other], rfl⟩
          ((own_step taken).apart self)

theorem settled_of_reachable [DecidableEq C] {s : State T F C}
    (reached : (machine T F C).Reachable s) :
    Settled s :=
  Machine.Reach.invariant Settled (fun _ => settled_start)
    (fun _ _ _ settled _ taken => settled_step settled taken) reached

/-! ## Steps at which nothing happens to a request -/

section Silence

variable {s s' : State T F C} {a : Act T F C} {t : T}

theorem Silent.passes (silent : Silent a t) : passes s a t = false := by
  unfold Tasks.passes
  split
  · exact absurd rfl (silent.call _)
  · rfl

omit [DecidableEq F] in
theorem Silent.answers (silent : Silent a t) : answers s a t = false := by
  unfold Tasks.answers
  split
  · exact absurd rfl (silent.call _)
  · rfl

omit [DecidableEq F] in
theorem Silent.looks (silent : Silent a t) : looks s a t = false := by
  unfold Tasks.looks
  split
  · exact absurd rfl (silent.call _)
  · rfl

omit [DecidableEq F] in
theorem Silent.raisesMust (silent : Silent a t) : raisesMust s a t = false := by
  simp only [Tasks.raisesMust, silent.moves, Bool.false_and]

omit [DecidableEq F] in
theorem Silent.raisesRead (silent : Silent a t) : raisesRead s a t = false := by
  simp only [Tasks.raisesRead, silent.moves, Bool.false_and]

omit [DecidableEq F] in
theorem Silent.raises (silent : Silent a t) : raises s a t = false := by
  simp only [Tasks.raises, silent.raisesMust, silent.raisesRead, Bool.or_self]

omit [DecidableEq F] in
theorem Silent.parks (silent : Silent a t) : parks s a t = false := by
  simp only [Tasks.parks, silent.moves, Bool.false_and]

theorem OwnStep.passes (own : OwnStep s t a s') : passes s a t = false := by
  cases own <;> rfl

theorem OwnStep.answers (own : OwnStep s t a s') : answers s a t = false := by
  cases own <;> rfl

theorem OwnStep.looks (own : OwnStep s t a s') : looks s a t = false := by
  cases own <;> rfl

/-- A task only takes its own request back. -/
theorem OwnStep.must (own : OwnStep s t a s') (must : s'.kernel.mustCancel t = true) :
    s.kernel.mustCancel t = true := by
  cases own with
  | raises r pc at_ checks before => exact before
  | clears at_ | takes at_ => simp [State.setTask, Kernel.setMust] at must
  | settles ending at_ =>
      simp only [State.setTask, Kernel.settle] at must
      split at must <;> exact must
  | _ => exact must

theorem OwnStep.calls (own : OwnStep s t a s') : s'.kernel.calls = s.kernel.calls := by
  cases own with
  | settles ending at_ =>
      simp only [State.setTask, Kernel.settle]
      split <;> rfl
  | _ => rfl

theorem OwnStep.count (own : OwnStep s t a s') (positive : 0 < s'.kernel.numCancelsRequested t) :
    0 < s.kernel.numCancelsRequested t := by
  cases own with
  | decrements at_ =>
      simp only [State.setTask, Kernel.addCancels, Function.update_self] at positive
      omega
  | settles ending at_ =>
      simp only [State.setTask, Kernel.settle] at positive
      split at positive <;> exact positive
  | _ => exact positive

theorem OwnStep.pending (own : OwnStep s t a s')
    (pending : s'.kernel.state (.task t) = .pending) :
    s.kernel.state (.task t) = .pending := by
  cases own with
  | settles ending at_ => exact s.kernel.settle_completed t ending _ pending
  | _ => exact pending

/-- What can become of a task's own request. -/
theorem OwnStep.keepsMust (own : OwnStep s t a s') (must : s.kernel.mustCancel t = true) :
    s'.kernel.mustCancel t = true ∨ Tasks.raises s a t = true ∨
      (a = .task t ∧ s.task t = .uncancel .clear) ∨
        s.task t = .takeMust ∧ s'.task t = .settle .cancelled := by
  cases own with
  | raises r pc at_ checks before =>
      refine .inr (.inl ?_)
      rcases checks with rfl | rfl <;>
        simp [Tasks.raises, Tasks.raisesMust, Act.moves, TaskPc.checks, at_, must]
  | clears at_ => exact .inr (.inr (.inl ⟨rfl, at_⟩))
  | takes at_ =>
      refine .inr (.inr (.inr ⟨at_, ?_⟩))
      simp only [State.setTask, Function.update_self, must, if_true]
  | settles ending at_ =>
      simp only [State.setTask, Kernel.settle]
      split <;> exact .inl must
  | _ => exact .inl must

/-- What has been passed on stays so to the end of the await. -/
theorem OwnStep.keepsSent (own : OwnStep s t a s') {sent : T → Bool} (was : sent t = true) :
    noteSent sent s a t = true ∨ ∃ r, a = .task t ∧ s.task t = .awaiting r .read := by
  by_cases over_ : Tasks.concludes s a t = true
  · right
    simp only [Tasks.concludes, Bool.and_eq_true] at over_
    obtain ⟨moves, atRead⟩ := over_
    split at atRead
    · rename_i r at_
      cases own with
      | concludes r' here => exact ⟨_, rfl, at_⟩
      | _ => simp_all
    · cases atRead
  · left
    simp [noteSent, was, Bool.not_eq_true _ ▸ over_]

theorem OwnStep.atSettle (own : OwnStep s t a s') {ending : Ending}
    (at_ : s.task t = .settle ending) : s' = s.setTask t (s.kernel.settle t ending) .done := by
  cases own with
  | settles ending' here =>
      rw [at_] at here
      cases here
      rfl
  | _ => simp_all

theorem Kernel.settle_ended (k : Kernel T F C) (t : T) (ending : Ending) :
    (k.settle t ending).state (.task t) ≠ .pending := by
  unfold Kernel.settle
  split
  · simp only [Kernel.setState, Function.update_self]
    cases ending <;> rintro ⟨⟩
  · exact ‹_›

omit [DecidableEq F] in
theorem raises_at_read {r : Ref T F} (at_ : s.task t = .awaiting r .read)
    (woken : s.kernel.event r = true) (cancelled : s.kernel.state r = .cancelled) :
    raises s (.task t) t = true := by
  simp [raises, raisesRead, Act.moves, at_, woken, cancelled]

end Silence

/-! ## What the steps of a call do to a task -/

omit [DecidableEq F] in
theorem Kernel.calling_iff {k : Kernel T F C} {c : C} {t : T} :
    k.calling c t = true ↔ ∃ pc, (t, pc) ∈ k.calls c := by
  simp only [Kernel.calling, List.any_eq_true, decide_eq_true_eq]
  constructor
  · rintro ⟨frame, member, rfl⟩
    exact ⟨frame.2, member⟩
  · rintro ⟨pc, member⟩
    exact ⟨(t, pc), member, rfl⟩

/-- The next step of `c` sets the request of `t`: the second locked write, or the
first when the task is not parked. -/
def Kernel.Writes (k : Kernel T F C) (c : C) (t : T) : Prop :=
  ∃ pc rest, k.calls c = (t, pc) :: rest ∧ (pc = .set ∨ pc = .read ∧ k.futWaiter t = none)

theorem CancelMove.must [DecidableEq C] {k k' : Kernel T F C} {c : C} (move : CancelMove k c k')
    (t : T) (must : k'.mustCancel t = true) : k.mustCancel t = true ∨ k.Writes c t := by
  have written : ∀ {u : T} {stack : List (T × CancelPc T F)},
      ((k.setMust u true).setCalls c stack).mustCancel t = true →
        k.mustCancel t = true ∨ t = u := by
    intro u stack must
    by_cases self : t = u
    · exact .inr self
    · simp only [Kernel.setCalls, Kernel.setMust, Function.update_of_ne self] at must
      exact .inl must
  cases move with
  | unparked stack free =>
      rcases written must with before | rfl
      · exact .inl before
      · exact .inr ⟨_, _, stack, .inr ⟨rfl, free⟩⟩
  | sets stack =>
      rcases written must with before | rfl
      · exact .inl before
      · exact .inr ⟨_, _, stack, .inl rfl⟩
  | _ => exact .inl must

theorem CancelMove.writes [DecidableEq C] {k k' : Kernel T F C} {c : C} (move : CancelMove k c k')
    {t : T} (writes : k.Writes c t) : k'.mustCancel t = true := by
  obtain ⟨pc, rest, stack, how⟩ := writes
  cases move with
  | unparked here free | sets here =>
      rw [stack] at here
      cases here
      exact Function.update_self ..
  | parked here waits =>
      rw [stack] at here
      cases here
      rcases how with how | ⟨-, free⟩
      · cases how
      · rw [free] at waits
        cases waits
  | asks here | refused here | counts here | nests here | hits here | finds here =>
      rw [stack] at here
      cases here
      rcases how with how | ⟨how, -⟩ <;> cases how

/-- No call takes a request back. -/
theorem CancelMove.keepsMust [DecidableEq C] {k k' : Kernel T F C} {c : C}
    (move : CancelMove k c k') {t : T} (must : k.mustCancel t = true) : k'.mustCancel t = true := by
  have written : ∀ u, Function.update k.mustCancel u true t = true := by
    intro u
    by_cases self : t = u
    · rw [self, Function.update_self]
    · rw [Function.update_of_ne self, must]
  cases move with
  | unparked stack free => exact written _
  | sets stack => exact written _
  | _ => exact must

theorem CancelMove.cancelled [DecidableEq C] {k k' : Kernel T F C} {c : C}
    (move : CancelMove k c k') {f : F}
    (cancelled : k.state (.fut f) = .cancelled) : k'.state (.fut f) = .cancelled := by
  cases move with
  | hits stack pending =>
      rename_i t g rest
      by_cases self : Ref.fut (T := T) f = .fut g
      · simp only [Kernel.setCalls, Kernel.setState, self, Function.update_self]
      · simpa only [Kernel.setCalls, Kernel.setState, Function.update_of_ne self] using cancelled
  | _ => exact cancelled

theorem CancelMove.ended [DecidableEq C] {k k' : Kernel T F C} {c : C} (move : CancelMove k c k')
    (t : T) :
    k'.state (.task t) = k.state (.task t) := by
  cases move with
  | hits stack pending =>
      rename_i u f rest
      have apart : Ref.task (F := F) t ≠ .fut f := by simp
      simp only [Kernel.setCalls, Kernel.setState, Function.update_of_ne apart]
  | _ => rfl

omit [DecidableEq T] [DecidableEq F] in
/-- Below the innermost call every other one stands at the task it was passed
on to. -/
theorem Chained.below {frame : T × CancelPc T F} {rest : List (T × CancelPc T F)}
    (chained : Chained (frame :: rest)) {t : T} {pc : CancelPc T F} (member : (t, pc) ∈ rest) :
    ∃ u, pc = .futCancel (.task u) := by
  induction rest generalizing frame with
  | nil => cases member
  | cons outer rest inductionHypothesis =>
      obtain ⟨made, chained⟩ := List.isChain_cons_cons.mp chained
      rcases List.mem_cons.mp member with same | deeper
      · subst same
        exact ⟨_, made⟩
      · exact inductionHypothesis chained deeper

omit [DecidableEq T] [DecidableEq F] in
theorem mem_returnTo_false {t : T} {pc : CancelPc T F} {rest : List (T × CancelPc T F)}
    (member : (t, pc) ∈ rest) : ∃ pc', (t, pc') ∈ returnTo false rest := by
  cases rest with
  | nil => cases member
  | cons frame rest =>
      rcases List.mem_cons.mp member with same | deeper
      · subst same
        exact ⟨.set, List.mem_cons_self⟩
      · exact ⟨pc, List.mem_cons_of_mem _ deeper⟩

/-- A call that does not return `True` goes on, or finds its task done. -/
theorem CancelMove.unanswered [DecidableEq C] {k k' : Kernel T F C} {c : C}
    (move : CancelMove k c k')
    (open_ : k.returnsTrue c = false) {t : T} (pending : k.state (.task t) = .pending)
    (calling : k.calling c t = true) : k'.calling c t = true := by
  obtain ⟨pc, member⟩ := Kernel.calling_iff.mp calling
  have goesOn : ∀ {u : T} {pc₁ pc₂ : CancelPc T F} {rest : List (T × CancelPc T F)}
      {g : Kernel T F C}, k.calls c = (u, pc₁) :: rest →
      (g.setCalls c ((u, pc₂) :: rest)).calling c t = true := by
    intro u pc₁ pc₂ rest g stack
    rw [stack] at member
    rw [Kernel.calling_iff]
    simp only [Kernel.setCalls, Function.update_self]
    rcases List.mem_cons.mp member with same | deeper
    · cases same
      exact ⟨pc₂, List.mem_cons_self⟩
    · exact ⟨pc, List.mem_cons_of_mem _ deeper⟩
  cases move with
  | asks stack live => exact goesOn stack
  | counts stack => exact goesOn stack
  | parked stack waits => exact goesOn stack
  | finds stack ended => exact goesOn stack
  | refused stack ended =>
      rw [stack] at member
      rw [Kernel.calling_iff]
      simp only [Kernel.setCalls, Function.update_self]
      rcases List.mem_cons.mp member with same | deeper
      · cases same
        exact absurd pending ended
      · exact mem_returnTo_false deeper
  | nests stack =>
      rw [stack] at member
      rw [Kernel.calling_iff]
      simp only [Kernel.setCalls, Function.update_self]
      exact ⟨pc, List.mem_cons_of_mem _ member⟩
  | unparked stack free => simp [Kernel.returnsTrue, stack, free] at open_
  | hits stack live => simp [Kernel.returnsTrue, stack, live] at open_
  | sets stack => simp [Kernel.returnsTrue, stack] at open_

/-- A call that returns `True` sets the request or has been passed on, as long
as the tasks around the innermost one still wait where they did. -/
theorem CancelMove.answered [DecidableEq C] {s : State T F C} (settled : Settled s)
    {k : Kernel T F C} {c : C}
    (move : CancelMove s.kernel c k) (returns : s.kernel.returnsTrue c = true) {t : T}
    (around : ∀ u frame rest, s.kernel.calls c = frame :: rest →
      (t, CancelPc.futCancel (.task u)) ∈ rest → s.kernel.futWaiter t = some (.task u))
    (calling : s.kernel.calling c t = true) :
    s.kernel.Writes c t ∨ s.kernel.sends c t = true := by
  have chained := settled.chained c
  obtain ⟨pc, member⟩ := Kernel.calling_iff.mp calling
  cases stack : s.kernel.calls c with
  | nil =>
      rw [stack] at member
      cases member
  | cons frame rest =>
      obtain ⟨u, innermost⟩ := frame
      rw [stack] at member chained
      by_cases self : u = t
      · subst self
        cases move with
        | unparked here free =>
            rw [stack] at here
            cases here
            exact .inl ⟨_, _, stack, .inr ⟨rfl, free⟩⟩
        | sets here =>
            rw [stack] at here
            cases here
            exact .inl ⟨_, _, stack, .inl rfl⟩
        | hits here pending =>
            rw [stack] at here
            cases here
            have waits := settled.frames c u _ (stack ▸ List.mem_cons_self) pending
            right
            simp [Kernel.sends, waits, stack]
        | asks here | refused here | counts here | nests here =>
            rw [stack] at here
            cases here
            simp [Kernel.returnsTrue, stack] at returns
        | parked here waits =>
            rw [stack] at here
            cases here
            simp [Kernel.returnsTrue, stack, waits] at returns
        | finds here ended =>
            rw [stack] at here
            cases here
            simp [Kernel.returnsTrue, stack, ended] at returns
      · have outer : (t, pc) ∈ rest := by
          rcases List.mem_cons.mp member with same | outer
          · cases same
            exact absurd rfl self
          · exact outer
        obtain ⟨v, rfl⟩ := chained.below outer
        have waits := around v (u, innermost) rest stack outer
        right
        simp [Kernel.sends, waits, stack, self, outer]

/-! ## What has been passed on -/

/-- The task waits on a future, or has just come from it; a plain one is
cancelled. -/
def Sent (s : State T F C) (t : T) : Prop :=
  ∃ r pc, s.task t = .awaiting r pc ∧ (pc.parked = true ∨ pc = .read) ∧
    ∀ f, r = .fut f → s.kernel.state (.fut f) = .cancelled

omit [DecidableEq F] in
/-- A task that waits does not park. -/
theorem Sent.parks {s : State T F C} {t : T} (sent : Sent s t) (a : Act T F C) :
    parks s a t = false := by
  obtain ⟨r, pc, at_, parked, -⟩ := sent
  have other : pc ≠ .arm := by
    rintro rfl
    rcases parked with parked | parked <;> cases parked
  simp only [Tasks.parks, at_]
  split
  · rename_i same
    cases same
    exact absurd rfl other
  · exact Bool.and_false _

omit [DecidableEq T] [DecidableEq F] in
theorem Settled.parked {s : State T F C} (settled : Settled s) {t : T} {r : Ref T F}
    (waits : s.kernel.futWaiter t = some r) :
    ∃ pc, s.task t = .awaiting r pc ∧ pc.parked = true := by
  rw [settled.waiter] at waits
  cases at_ : s.task t with
  | awaiting r' pc =>
      rw [at_] at waits
      simp only [TaskPc.waitsOn] at waits
      split at waits <;> cases waits
      exact ⟨pc, rfl, ‹_›⟩
  | _ =>
      rw [at_] at waits
      cases waits

/-- A call that has been passed on returns `True` from the future the task
waits on. -/
theorem Sent.passed [DecidableEq C] {s : State T F C} (settled : Settled s) {c : C}
    {k : Kernel T F C} {t : T}
    (move : CancelMove s.kernel c k) (passed : passes s (.kernel (.call c)) t = true) :
    Sent { s with kernel := k } t := by
  have chained := settled.chained c
  simp only [passes, Kernel.sends, Bool.and_eq_true] at passed
  obtain ⟨returns, sends⟩ := passed
  split at sends
  · rename_i r u pc rest waits stack
    obtain ⟨at_, task, parked⟩ := settled.parked waits
    refine ⟨r, at_, task, .inl parked, ?_⟩
    rintro f rfl
    rw [stack] at chained
    have innermost : (u, pc) = (t, .futCancel (.fut f)) := by
      split at sends
      · rename_i self
        rw [self, of_decide_eq_true sends]
      · -- below the innermost call every other stands at a task
        obtain ⟨inner, made⟩ := chained.below (of_decide_eq_true sends)
        cases made
    cases innermost
    simp only [Kernel.returnsTrue, stack, decide_eq_true_eq] at returns
    cases move with
    | hits hit pending =>
        rw [stack] at hit
        cases hit
        exact Function.update_self ..
    | finds hit ended =>
        rw [stack] at hit
        cases hit
        exact absurd returns ended
    | asks hit | refused hit | counts hit | unparked hit | parked hit | nests hit | sets hit =>
        rw [stack] at hit
        cases hit
  · cases sends

theorem sent_step [DecidableEq C] {s s' : State T F C} {a : Act T F C} {sent : T → Bool}
    (settled : Settled s)
    (before : ∀ t, sent t = true → Sent s t) (taken : step s a = some s') (t : T)
    (after : noteSent sent s a t = true) : Sent s' t := by
  simp only [noteSent, Bool.or_eq_true, Bool.and_eq_true, Bool.not_eq_true'] at after
  cases step_view taken t with
  | call c k label next called =>
      subst label next
      have move := Kernel.cancelStep_move called
      rcases after with passed | ⟨was, -⟩
      · exact Sent.passed settled move passed
      · obtain ⟨r, pc, at_, parked, cancelled⟩ := before t was
        exact ⟨r, pc, at_, parked, fun f same => move.cancelled (cancelled f same)⟩
  | apart silent same =>
      rcases after with passed | ⟨was, -⟩
      · rw [silent.passes] at passed
        cases passed
      · obtain ⟨r, pc, at_, parked, cancelled⟩ := before t was
        exact ⟨r, pc, same.task.trans at_, parked,
          fun f here => same.cancelled f (cancelled f here)⟩
  | own step =>
      rw [step.passes] at after
      obtain ⟨was, open_⟩ := after.resolve_left (by simp)
      obtain ⟨r, pc, at_, parked, cancelled⟩ := before t was
      have moves : ∀ pc', (pc'.parked = true ∨ pc' = .read) →
          ∀ k : Kernel T F C, k.state = s.kernel.state →
            Sent (s.setTask t k (.awaiting r pc')) t := by
        intro pc' next k same
        refine ⟨r, pc', Function.update_self .., next, fun f here => ?_⟩
        simp only [State.setTask, same]
        exact cancelled f here
      cases step with
      | suspends r' here =>
          rw [at_] at here
          cases here
          exact moves .suspended (.inl rfl) _ rfl
      | resumes r' here woken =>
          rw [at_] at here
          cases here
          exact moves .disarm (.inl rfl) _ rfl
      | disarms r' here =>
          rw [at_] at here
          cases here
          exact moves .read (.inr rfl) _ rfl
      | concludes r' here =>
          simp [concludes, Act.moves, here] at open_
      | tests r' here | parks r' here free | goesOn r' here free =>
          rw [at_] at here
          cases here
          rcases parked with parked | parked <;> cases parked
      | raises r' pc' here checks must =>
          rw [at_] at here
          cases here
          rcases checks with rfl | rfl <;> rcases parked with parked | parked <;> cases parked
      | awaits r' here | uncancels here | returns here | fails ending here failed
      | uncancelTests here | decrements here | compares here | clears here | takes here
      | settles ending here =>
          rw [at_] at here
          cases here

/-- An await that is past its wait has seen the event set. -/
theorem woken_of_reachable [DecidableEq C] {s : State T F C}
    (reached : (machine T F C).Reachable s) :
    ∀ t r pc, s.task t = .awaiting r pc → pc = .disarm ∨ pc = .ready ∨ pc = .read →
      s.kernel.event r = true := by
  refine Machine.Reach.invariant (fun s : State T F C => ∀ t r pc, s.task t = .awaiting r pc →
    pc = .disarm ∨ pc = .ready ∨ pc = .read → s.kernel.event r = true) ?_ ?_ reached
  · intro s start t r pc at_ _
    rw [start.2] at at_
    cases at_
  · intro s a s' woken _ taken t r pc at_ past
    cases step_view taken t with
    | call c k label next called =>
        subst label next
        have event := (Kernel.cancelStep_effect called).event
        simp only [event]
        exact woken t r pc at_ past
    | apart silent same =>
        rw [same.task] at at_
        exact same.event r (woken t r pc at_ past)
    | own step =>
        cases step with
        | tests r' here =>
            simp only [State.setTask, Function.update_self, TaskPc.awaiting.injEq] at at_
            obtain ⟨rfl, rfl⟩ := at_
            by_cases set : s.kernel.event r' = true
            · exact set
            · simp [set] at past
        | goesOn r' here free =>
            simp only [State.setTask, Function.update_self, TaskPc.awaiting.injEq] at at_
            obtain ⟨rfl, rfl⟩ := at_
            exact woken t r' .ready here (.inr (.inl rfl))
        | resumes r' here set =>
            simp only [State.setTask, Function.update_self, TaskPc.awaiting.injEq] at at_
            obtain ⟨rfl, rfl⟩ := at_
            exact set
        | disarms r' here =>
            simp only [State.setTask, Function.update_self, TaskPc.awaiting.injEq] at at_
            obtain ⟨rfl, rfl⟩ := at_
            exact woken t r' .disarm here (.inl rfl)
        | awaits r' here | parks r' here free | suspends r' here =>
            simp only [State.setTask, Function.update_self, TaskPc.awaiting.injEq] at at_
            obtain ⟨rfl, rfl⟩ := at_
            simp at past
        | uncancelTests here | compares here =>
            simp only [State.setTask, Function.update_self] at at_
            split at at_ <;> cases at_
        | _ =>
            simp only [State.setTask, Function.update_self] at at_
            cases at_

end MtAsyncio.Tasks
