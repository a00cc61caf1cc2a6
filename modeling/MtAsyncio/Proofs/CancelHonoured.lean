/-
Module: MtAsyncio.Proofs.CancelHonoured
Purpose: A `cancel` that returned `True` is honoured when the coroutine returns
  without having heard of it.  The code keeps to this for the calls that set
  `_must_cancel` before `_runner` takes it; a call that sets it between the two
  sections of the epilogue, or after a `done()` test that the end of the task
  has overtaken, is told `True` about a task that finishes with a result.
Trusted boundary: none
Main exports: Honoured, Timely, cancel_honoured, cancel_missed_by_epilogue
-/
import MtAsyncio.Proofs.RequestSteps

namespace MtAsyncio.Tasks

open Lib (Machine)

variable {T F C : Type} [DecidableEq T] [DecidableEq F] [DecidableEq C]

/-- A task whose coroutine has returned ends cancelled when a cancel of it was
promised. -/
def Honoured (s : State T F C) (h : Promise T C) : Prop :=
  ∀ t, s.task t = .done → h.returned t = true → h.promised t = true →
    s.kernel.state (.task t) = .cancelled

/-- Every condition is on a call on `t` with nothing raised in `t` since it
began, or on a `t` to which a cancel is promised. -/
structure Timely (p : State T F C × Promise T C) (a : Act T F C) : Prop where
  /-- `_must_cancel` is not set between the two sections of the epilogue of a
  coroutine that returned, nor after it on a task with a result -/
  writes : ∀ c t, a = .kernel (.call c) → p.1.kernel.Writes c t → p.2.unheard c t = true →
    p.1.task t ≠ .settle .returned ∧
      (p.1.task t = .done → p.2.returned t = true → p.1.kernel.state (.task t) = .cancelled)
  /-- a task whose call was passed on to another task still waits on that one
  when the call returns -/
  waits : ∀ c t u frame rest, a = .kernel (.call c) → p.1.kernel.returnsTrue c = true →
    p.1.kernel.calls c = frame :: rest → (t, CancelPc.futCancel (.task u)) ∈ rest →
    p.2.unheard c t = true → p.1.kernel.futWaiter t = some (.task u)
  /-- and that one ends cancelled -/
  honours : ∀ t r, a = .task t → p.1.task t = .awaiting r .read → p.2.sent t = true →
    p.2.promised t = true → p.1.kernel.state r = .cancelled
  /-- no `uncancel` clears a cancel promised since it began -/
  clears : ∀ t, a = .task t → p.1.task t = .uncancel .clear → p.2.promised t = false

/-- `_must_cancel` is still to be looked at. -/
def TaskPc.looksAgain : TaskPc T F → Bool
  | .running | .awaiting _ _ | .uncancel _ | .takeMust => true
  | .settle _ | .done => false

/-- Where a promised cancel of `t` is. -/
structure Kept (s : State T F C) (h : Promise T C) (t : T) : Prop where
  looks : (s.task t).looksAgain = true → s.kernel.mustCancel t = true ∨ h.sent t = true
  taken : s.task t ≠ .settle .returned
  done : s.task t = .done → h.returned t = true → s.kernel.state (.task t) = .cancelled

structure Promised (s : State T F C) (h : Promise T C) : Prop where
  sent : ∀ t, h.sent t = true → Sent s t
  live : ∀ t, s.task t ≠ .done → s.kernel.state (.task t) = .pending
  returned : ∀ t, h.returned t = true → s.task t = .takeMust ∨ s.task t = .settle .returned ∨
    s.task t = .settle .cancelled ∨ s.task t = .done
  kept : ∀ t, h.promised t = true → Kept s h t

omit [DecidableEq C] in
theorem Promised.own_live {s s' : State T F C} {h : Promise T C} {a : Act T F C} {t : T}
    (promised : Promised s h) (step : OwnStep s t a s') (alive : s'.task t ≠ .done) :
    s'.kernel.state (.task t) = .pending := by
  cases step with
  | settles ending at_ => exact absurd (Function.update_self ..) alive
  | awaits r at_ | tests r at_ | parks r at_ free | goesOn r at_ free | suspends r at_
  | resumes r at_ woken | disarms r at_ | concludes r at_ | uncancels at_ | returns at_
  | uncancelTests at_ | decrements at_ | compares at_ | clears at_ | takes at_ =>
      exact promised.live t (by rw [at_]; simp)
  | fails ending at_ failed => exact promised.live t (by rw [at_]; simp)
  | raises r pc at_ checks must => exact promised.live t (by rw [at_]; simp)

theorem Promised.own_returned {s s' : State T F C} {h : Promise T C} {a : Act T F C} {t : T}
    (promised : Promised s h) (step : OwnStep s t a s')
    (returned : (h.record s a s').returned t = true) :
    s'.task t = .takeMust ∨ s'.task t = .settle .returned ∨ s'.task t = .settle .cancelled ∨
      s'.task t = .done := by
  simp only [Promise.record, Bool.or_eq_true] at returned
  rcases returned with before | now
  · have late := promised.returned t before
    cases step with
    | takes at_ =>
        simp only [State.setTask, Function.update_self]
        split
        · exact .inr (.inr (.inl rfl))
        · exact .inr (.inl rfl)
    | settles ending at_ => exact .inr (.inr (.inr (Function.update_self ..)))
    | _ => simp_all
  · cases step with
    | returns at_ => exact .inl (Function.update_self ..)
    | fails ending at_ failed =>
        simp only [Act.returns, decide_eq_true_eq] at now
        exact absurd now.2 failed
    | _ => cases now

/-- A step of the task itself keeps what was promised. -/
theorem Kept.own {s s' : State T F C} {h : Promise T C} {a : Act T F C} {t : T}
    (promised : Promised s h) (woken : ∀ r, s.task t = .awaiting r .read → s.kernel.event r = true)
    (allowed : Timely (s, h) a) (step : OwnStep s t a s') (before : h.promised t = true)
    (quiet : raises s a t = false) : Kept s' (h.record s a s') t := by
  have kept := promised.kept t before
  have request : (s.task t).looksAgain = true →
      (s'.kernel.mustCancel t = true ∨ (h.record s a s').sent t = true) ∨
        s'.task t = .settle .cancelled := by
    intro open_
    rcases kept.looks open_ with must | sent
    · rcases step.keepsMust must with still | raised | ⟨rfl, clears⟩ | ⟨-, taken⟩
      · exact .inl (.inl still)
      · rw [raised] at quiet
        cases quiet
      · rw [allowed.clears t rfl clears] at before
        cases before
      · exact .inr taken
    · rcases step.keepsSent sent with still | ⟨r, rfl, at_⟩
      · exact .inl (.inr still)
      · rw [raises_at_read at_ (woken r at_) (allowed.honours t r rfl at_ sent before)] at quiet
        cases quiet
  cases ended : (s.task t).looksAgain with
  | true =>
      -- the epilogue finds the request
      have unsettled : s'.task t ≠ .done := by
        intro done
        cases step with
        | settles ending at_ =>
            rw [at_] at ended
            cases ended
        | uncancelTests at_ | compares at_ =>
            simp only [State.setTask, Function.update_self] at done
            split at done <;> cases done
        | _ =>
            simp only [State.setTask, Function.update_self] at done
            cases done
      refine ⟨fun open_ => ?_, fun settles => ?_, fun done => absurd done unsettled⟩
      · rcases request ended with there | taken
        · exact there
        · rw [taken] at open_
          cases open_
      · cases step with
        | takes at_ =>
            simp only [State.setTask, Function.update_self] at settles
            rcases kept.looks ended with must | sent
            · simp [must] at settles
            · obtain ⟨r, pc, awaiting, -⟩ := promised.sent t sent
              rw [at_] at awaiting
              cases awaiting
        | fails ending at_ failed =>
            simp only [State.setTask, Function.update_self, TaskPc.settle.injEq] at settles
            exact absurd settles failed
        | uncancelTests at_ | compares at_ =>
            simp only [State.setTask, Function.update_self] at settles
            split at settles <;> cases settles
        | settles ending at_ =>
            rw [at_] at ended
            cases ended
        | _ =>
            simp only [State.setTask, Function.update_self] at settles
            cases settles
  | false =>
      cases step with
      | settles ending at_ =>
          refine ⟨fun open_ => ?_, fun settles => ?_, fun _ returned => ?_⟩
          · simp only [State.setTask, Function.update_self] at open_
            cases open_
          · simp only [State.setTask, Function.update_self] at settles
            cases settles
          · have late : h.returned t = true := by
              simpa [Promise.record, Act.returns] using returned
            have cancelled : ending = .cancelled := by
              rcases promised.returned t late with here | here | here | here <;> rw [at_] at here
              · cases here
              · cases here
                exact absurd at_ kept.taken
              · cases here
                rfl
              · cases here
            have pending := promised.live t (by rw [at_]; simp)
            simp only [State.setTask, Kernel.settle, pending, if_true, Kernel.setState,
              Function.update_self, cancelled, Ending.state]
      | raises r pc at_ checks must =>
          rw [at_] at ended
          cases ended
      | fails ending at_ failed =>
          rw [at_] at ended
          cases ended
      | awaits r at_ | tests r at_ | parks r at_ free | goesOn r at_ free | suspends r at_
      | resumes r at_ woken | disarms r at_ | concludes r at_ | uncancels at_ | returns at_
      | uncancelTests at_ | decrements at_ | compares at_ | clears at_ | takes at_ =>
          rw [at_] at ended
          cases ended

/-- A step of a call keeps what was promised and what it promises. -/
theorem Kept.call {s : State T F C} {h : Promise T C} {c : C} {k : Kernel T F C} {t : T}
    (settled : Settled s) (promised : Promised s h) (allowed : Timely (s, h) (.kernel (.call c)))
    (called : s.kernel.cancelStep c = some k)
    (after : (h.record s (.kernel (.call c)) { s with kernel := k }).promised t = true) :
    Kept { s with kernel := k } (h.record s (.kernel (.call c)) { s with kernel := k }) t := by
  have move := Kernel.cancelStep_move called
  simp only [Promise.record, Bool.and_eq_true, Bool.or_eq_true] at after
  rcases after.2 with before | made
  · obtain ⟨looks, taken, done⟩ := promised.kept t before
    refine ⟨fun open_ => ?_, taken, fun ended returned => ?_⟩
    · apply (looks open_).imp
      · exact move.keepsMust
      · intro sent
        simp [Promise.record, noteSent, sent, concludes, Act.moves]
    · simp only [Promise.record, Act.returns, Bool.or_false] at returned
      rw [move.ended]
      exact done ended returned
  · simp only [Promise.made, Bool.and_eq_true] at made
    obtain ⟨⟨returns, inside⟩, unheard⟩ := made
    rcases move.answered settled returns
      (fun u frame rest stack member =>
        allowed.waits c t u frame rest rfl returns stack member unheard) inside with writes | sends
    · obtain ⟨unsettled, done⟩ := allowed.writes c t rfl writes unheard
      refine ⟨fun _ => .inl (move.writes writes), unsettled, fun ended returned => ?_⟩
      simp only [Promise.record, Act.returns, Bool.or_false] at returned
      rw [move.ended]
      exact done ended returned
    · -- a task that waits on a future is not at its end
      have passed : passes s (.kernel (.call c)) t = true := by
        simp [passes, returns, sends]
      obtain ⟨r, pc, at_, -⟩ := Sent.passed settled move passed
      refine ⟨fun _ => .inr ?_, ?_, ?_⟩
      · simp [Promise.record, noteSent, passed]
      · rw [at_]
        simp
      · intro ended
        rw [at_] at ended
        cases ended

theorem promised_step {s s' : State T F C} {h : Promise T C} {a : Act T F C}
    (reached : (machine T F C).Reachable s) (promised : Promised s h)
    (allowed : Timely (s, h) a) (taken : step s a = some s') :
    Promised s' (h.record s a s') := by
  have settled := settled_of_reachable reached
  refine ⟨fun t sent => sent_step settled promised.sent taken t sent, fun t alive => ?_,
    fun t returned => ?_, fun t after => ?_⟩
  · cases step_view taken t with
    | own step => exact promised.own_live step alive
    | call c k label next called =>
        subst label next
        exact ((Kernel.cancelStep_move called).ended t).trans (promised.live t alive)
    | apart silent same =>
        rw [same.task] at alive
        exact same.ended.trans (promised.live t alive)
  · cases step_view taken t with
    | own step => exact promised.own_returned step returned
    | call c k label next called =>
        subst label next
        simp only [Promise.record, Act.returns, Bool.or_false] at returned
        exact promised.returned t returned
    | apart silent same =>
        simp only [Promise.record, silent.returns, Bool.or_false] at returned
        rw [same.task]
        exact promised.returned t returned
  · cases step_view taken t with
    | own step =>
        have unmade : h.made s a t = false := by cases step <;> rfl
        simp only [Promise.record, unmade, Bool.or_false, Bool.and_eq_true,
          Bool.not_eq_true'] at after
        exact .own promised
          (fun r at_ => woken_of_reachable reached t r .read at_ (.inr (.inr rfl)))
          allowed step after.2 after.1.1
    | call c k label next called =>
        subst label next
        exact .call settled promised allowed called after
    | apart silent same =>
        have unmade : h.made s a t = false := by
          unfold Promise.made
          split
          · exact absurd rfl (silent.call _)
          · rfl
        simp only [Promise.record, unmade, Bool.or_false, Bool.and_eq_true] at after
        obtain ⟨looks, taken, done⟩ := promised.kept t after.2
        refine ⟨fun open_ => ?_, by rw [same.task]; exact taken, fun ended returned => ?_⟩
        · rw [same.task] at open_
          rw [same.must]
          refine (looks open_).imp_right fun sent => ?_
          simp [Promise.record, noteSent, sent, concludes, silent.moves]
        · simp only [Promise.record, silent.returns, Bool.or_false] at returned
          rw [same.task] at ended
          exact same.ended.trans (done ended returned)

/-- In every run in which requests are set in time and the tasks that are sent a
cancel end with it. -/
theorem cancel_honoured {p : State T F C × Promise T C}
    (reached : (promiseMachine T F C).Reach Timely p) : Honoured p.1 p.2 := by
  have promised : Promised p.1 p.2 := Machine.Reach.recorded Promised
    (fun s (start : Start s) => by
      refine ⟨by rintro _ ⟨⟩, fun t _ => start.1.1 _, by rintro _ ⟨⟩, by rintro _ ⟨⟩⟩)
    (fun _ _ _ _ before promised allowed taken => promised_step before promised allowed taken)
    reached
  exact fun t ended returned asked => (promised.kept t asked).done ended returned

/-! ## Runs -/

theorem promise_start : (promiseMachine T F C).start (freshState T F C, Promise.empty) :=
  ⟨freshState_start, rfl⟩

/-- The coroutine returns and `_runner` finds no request; a cancel comes before
it completes the task. -/
def epilogueRun : List (Act Unit Unit Unit) :=
  List.flatten
    [[.finish () .returned, .task ()],
      .kernel (.cancel () ()) :: .replicate 3 (.kernel (.call ())), [.task ()]]

theorem epilogueRun_ends :
    ((promiseMachine Unit Unit Unit).exec (freshState _ _ _, .empty) epilogueRun).any
      (fun p => p.1.task () = .done ∧ p.2.returned () = true ∧ p.2.promised () = true ∧
        p.1.kernel.state (.task ()) = .finished) = true := by
  decide +kernel

theorem cancel_missed_by_epilogue :
    ¬ ∀ p : State Unit Unit Unit × Promise Unit Unit,
      (promiseMachine Unit Unit Unit).Reachable p → Honoured p.1 p.2 := by
  intro always
  obtain ⟨p, reached, ends⟩ := Machine.Reachable.exists_of_exec promise_start epilogueRun_ends
  obtain ⟨done, returned, promised, finished⟩ := of_decide_eq_true ends
  rw [always p reached () done returned promised] at finished
  cases finished

/-- A decidable part of `Timely` for one task: single calls, on a task whose
coroutine has not ended. -/
def timely (p : State Unit F C × Promise Unit C) : Act Unit F C → Bool
  | .kernel (.call c) =>
      (p.1.kernel.calls c).length ≤ 1 && (p.1.task ()).looksAgain
  | .task _ => match p.1.task () with
      | .uncancel .clear => !p.2.promised ()
      | .awaiting r .read => !p.2.sent () || p.1.kernel.state r = .cancelled
      | _ => true
  | _ => true

omit [DecidableEq F] [DecidableEq C] in
theorem timely_sound (p : State Unit F C × Promise Unit C) (a : Act Unit F C)
    (checked : timely p a = true) : Timely p a := by
  constructor
  · rintro c t rfl - -
    simp only [timely, Bool.and_eq_true] at checked
    constructor
    · intro settles
      rw [settles] at checked
      cases checked.2
    · intro done
      rw [done] at checked
      cases checked.2
  · rintro c t u frame rest rfl - stack member -
    simp only [timely, stack, List.length_cons, Bool.and_eq_true, decide_eq_true_eq] at checked
    have empty : rest = [] := List.eq_nil_of_length_eq_zero (by omega)
    rw [empty] at member
    cases member
  · rintro t r rfl at_ sent -
    simpa [timely, at_, sent] using checked
  · rintro t rfl at_
    simpa [timely, at_] using checked

/-- The task is cancelled in its body and returns without another await. -/
def honouredRun : List (Act Unit Unit Unit) :=
  List.flatten
    [.kernel (.cancel () ()) :: .replicate 3 (.kernel (.call ())),
      [.finish () .returned, .task (), .task ()]]

theorem honouredRun_ends :
    ((promiseMachine Unit Unit Unit).execIf timely (freshState _ _ _, .empty) honouredRun).any
      (fun p => p.1.task () = .done ∧ p.2.returned () = true ∧ p.2.promised () = true) = true := by
  decide +kernel

theorem cancel_honoured_without_await :
    ∃ p : State Unit Unit Unit × Promise Unit Unit, p.1.task () = .done ∧
      p.2.returned () = true ∧ p.2.promised () = true ∧ Honoured p.1 p.2 := by
  obtain ⟨p, reached, ends⟩ :=
    Machine.Reach.exists_of_execIf timely_sound promise_start honouredRun_ends
  obtain ⟨done, returned, promised⟩ := of_decide_eq_true ends
  exact ⟨p, done, returned, promised, cancel_honoured reached⟩

end MtAsyncio.Tasks
