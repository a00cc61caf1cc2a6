/-
Module: MtAsyncio.Proofs.DeadlineEarly
Purpose: A rescheduled timeout does not expire before its new deadline, as long
  as no callback of a handle that `reschedule` has replaced gets the lock of
  `_on_timeout` before that; `_on_timeout` does not ask which handle calls it.
Trusted boundary: none
Main exports: Effect, effect_of_step, NotSuperseded, Punctual,
  rescheduled_not_early, superseded_expires_early
-/
import MtAsyncio.Model.Deadlines

namespace MtAsyncio.Deadlines

open Lib (Machine)
open Timeouts (TaskPc Rescheduled)

variable {H P : Type} [DecidableEq H]
variable {s s' : Timeouts.State Int H P} {c c' : Clocked H P} {p : Option (Option Int)}
variable {a : Timeouts.Act Int H P} {w now later : Int}

/-! ## What a step does to the handles -/

/-- What a step of the scope does to `_timeout_handler`, the handles and the
promise. -/
inductive Effect (s : Timeouts.State Int H P) (a : Timeouts.Act Int H P)
    (s' : Timeouts.State Int H P) : Prop where
  | keeps (handler : s'.timeoutHandler = s.timeoutHandler) (fire : s'.fire = s.fire)
      (promised : ∀ p, promiseAfter s p a = p) (calm : s.scope = .entered → s'.scope ≠ .expiring)
  | drops (handler : s'.timeoutHandler = none) (fire : s'.fire = s.fire)
      (calm : s.scope = .entered → s'.scope ≠ .expiring)
  | arms (w : Int) (h : H) (handler : s'.timeoutHandler = some h) (fresh : s.fire h = .fresh)
      (fire : s'.fire = Function.update s.fire h .scheduled) (when_ : s'.when_ = some w)
      (promised : ∀ p, promiseAfter s p a = some (some w))
      (calm : s.scope = .entered → s'.scope ≠ .expiring)
  | runs (h : H) (isRun : a = .run h) (fresh : s.fire h = .scheduled) (fire : Timeouts.Fire)
      (past : fire ≠ .fresh) (next : s' = { s with fire := Function.update s.fire h fire })
  | fires (h : H) (isDeadline : a = .deadline h) (called : s.fire h = .called)
      (handler : s'.timeoutHandler = none) (fire : s'.fire = Function.update s.fire h .over_)

/-- The locked section of `reschedule`, wherever it is called. -/
theorem rescheduled_effect {when_ : Option Int} {made : Option H} (makes : s.Makes made)
    (promised : ∀ p, promiseAfter s p a =
      if s.scope = .entered then promise s when_ made else p)
    (handler : s'.timeoutHandler = (s.rescheduled when_ made).1.timeoutHandler)
    (fire : s'.fire = (s.rescheduled when_ made).1.fire)
    (whens : s'.when_ = (s.rescheduled when_ made).1.when_)
    (scope : s'.scope = (s.rescheduled when_ made).1.scope) : Effect s a s' := by
  by_cases entered : s.scope = .entered
  · simp only [Timeouts.State.rescheduled, entered, ne_eq, not_true_eq_false, if_false]
      at promised handler fire whens scope
    cases when_ with
    | none =>
        refine .drops handler fire ?_
        rw [scope]
        rintro - ⟨⟩
    | some w =>
        cases made with
        | none =>
            refine .drops handler fire ?_
            rw [scope]
            rintro - ⟨⟩
        | some h =>
            refine .arms w h handler (makes h rfl) fire whens ?_ ?_
            · intro p
              rw [promised p, if_pos trivial]
              simp [promise, Timeouts.State.rescheduled, entered]
            · rw [scope]
              rintro - ⟨⟩
  · have refused : s.rescheduled when_ made = (s, .raised) := if_pos entered
    rw [refused] at handler fire scope
    refine .keeps handler fire ?_ (fun isEntered => absurd isEntered entered)
    intro p
    rw [promised p, if_neg entered]

theorem effect_of_arm {when_ : Option Int} {made : Option H} (stage : s.pc = .armLock when_)
    (taken : s.taskStep made = some s') : Effect s (.task made) s' := by
  simp only [Timeouts.State.taskStep, stage] at taken
  split at taken
  · rename_i makes
    have promised : ∀ p, promiseAfter s p (.task made : Timeouts.Act Int H P) =
        if s.scope = .entered then promise s when_ made else p := by
      intro p
      simp only [promiseAfter, stage]
    have effect := @rescheduled_effect H P _ s s' (.task made) when_ made makes promised
    cases result : s.rescheduled when_ made with
    | mk middle outcome =>
        rw [result] at taken effect
        cases outcome with
        | raised =>
            obtain rfl := Option.some.inj taken
            exact effect rfl rfl rfl rfl
        | returned old =>
            cases old <;> obtain rfl := Option.some.inj taken <;> exact effect rfl rfl rfl rfl
  · cases taken

theorem effect_of_task {made : Option H} (taken : s.taskStep made = some s') :
    Effect s (.task made) s' := by
  cases stage : s.pc with
  | armLock when_ => exact effect_of_arm stage taken
  | refused | body | left => simp [Timeouts.State.taskStep, stage] at taken
  | exitLock et =>
      simp only [Timeouts.State.taskStep, stage, Option.some.injEq] at taken
      subst taken
      refine .drops rfl rfl ?_
      intro entered
      simp [entered, Timeouts.Scope.leave]
  | setEntered =>
      simp only [Timeouts.State.taskStep, stage, Option.some.injEq] at taken
      subst taken
      refine .keeps rfl rfl ?_ ?_
      · intro p
        simp only [promiseAfter, stage]
      · rintro - ⟨⟩
  | exitUncancel et expiring =>
      simp only [Timeouts.State.taskStep, stage] at taken
      split at taken
      all_goals
        obtain rfl := Option.some.inj taken
        refine .keeps rfl rfl ?_ (fun entered expires => ?_)
        · intro p
          simp only [promiseAfter, stage]
        · exact absurd (entered.symm.trans expires) (by decide)
  | _ =>
      simp only [Timeouts.State.taskStep, stage, Option.some.injEq] at taken
      subst taken
      refine .keeps rfl rfl ?_ (fun entered expires => ?_)
      · intro p
        simp only [promiseAfter, stage]
      · exact absurd (entered.symm.trans expires) (by decide)

theorem effect_of_step [DecidableEq P] (taken : Timeouts.step s a = some s') : Effect s a s' := by
  have calm : ∀ {s' : Timeouts.State Int H P}, s'.scope = s.scope → s.scope = .entered →
      s'.scope ≠ .expiring := by
    intro s' same entered
    rw [same, entered]
    decide
  cases a with
  | task made =>
      simp only [Timeouts.step] at taken
      split at taken
      · cases taken
      · exact effect_of_task taken
  | exit et | finish =>
      simp only [Timeouts.step] at taken
      split at taken
      · obtain rfl := Option.some.inj taken
        exact .keeps rfl rfl (fun _ => rfl) (calm rfl)
      · cases taken
  | reschedule q when_ made =>
      simp only [Timeouts.step] at taken
      split at taken
      · rename_i makes
        have effect := @rescheduled_effect H P _ s s' (.reschedule q when_ made) when_ made
          makes.2 (fun _ => rfl)
        cases result : s.rescheduled when_ made with
        | mk middle outcome =>
            rw [result] at taken effect
            cases outcome <;> obtain rfl := Option.some.inj taken <;> exact effect rfl rfl rfl rfl
      · cases taken
  | cancelOld q =>
      obtain ⟨h, -, rfl⟩ := Option.map_eq_some_iff.mp taken
      exact .keeps rfl rfl (fun _ => rfl) (calm rfl)
  | run h =>
      simp only [Timeouts.step] at taken
      split at taken
      · rename_i scheduled
        obtain rfl := Option.some.inj taken
        refine .runs h rfl scheduled _ ?_ rfl
        split <;> decide
      · cases taken
  | deadline h =>
      simp only [Timeouts.step] at taken
      split at taken
      · rename_i called
        obtain rfl := Option.some.inj taken
        refine .fires h rfl called ?_ rfl
        unfold Timeouts.State.onTimeout
        split
        · rfl
        · split <;> rfl
      · cases taken
  | cancel | uncancel =>
      obtain rfl := Option.some.inj taken
      exact .keeps rfl rfl (fun _ => rfl) (calm rfl)

/-! ## Timers -/

/-- The callback of the handle does not run before `w`. -/
def Timer.notBefore (now w : Int) : Timer → Prop
  | .unset => False
  | .soon => w ≤ now
  | .delayed delay => w ≤ now + delay
  | .due tick => w ≤ tick

theorem Timer.notBefore_later {timer : Timer} (kept : timer.notBefore now w)
    (later_ : now ≤ later) : timer.notBefore later w := by
  cases timer with
  | unset => exact kept
  | soon => exact Int.le_trans kept later_
  | delayed delay =>
      simp only [Timer.notBefore] at kept ⊢
      omega
  | due tick => exact kept

theorem Timer.notBefore_ripe {timer : Timer} (kept : timer.notBefore now w)
    (ripe : timer.ripe now = true) : w ≤ now := by
  cases timer with
  | unset | delayed => cases ripe
  | soon => exact kept
  | due tick => exact Int.le_trans kept (of_decide_eq_true ripe)

theorem newTimer_notBefore (later_ : now ≤ later) :
    (newTimer w now later).notBefore later w := by
  unfold newTimer
  split
  · rename_i past
    exact Int.le_trans past later_
  · simp only [Timer.notBefore]
    omega

/-! ## Expirations -/

/-- Every time the scope became EXPIRING, the deadline that the last `reschedule`
had promised was over. -/
def Punctual (h : History) : Prop :=
  ∀ promised t, (some promised, t) ∈ h.expirations → ∃ w, promised = some w ∧ w ≤ t

/-- No callback of a handle that was replaced gets the lock of `_on_timeout` in an
entered scope before the deadline that the last `reschedule` has promised. -/
def NotSuperseded (past : Clocked H P × History) (a : Act H P) : Prop :=
  ∀ h later, a = .scope (.deadline h) later → past.1.scope.scope = .entered →
    past.1.scope.timeoutHandler = some h ∨
      ∀ promised, past.2.promised = some promised → ∃ w, promised = some w ∧ w ≤ past.1.now

/-- The handle of the scope was made for the deadline that is promised. -/
structure Timed (c : Clocked H P) (h : History) : Prop where
  current : ∀ g, c.scope.timeoutHandler = some g →
    ∃ w, h.promised = some (some w) ∧ (c.timer g).notBefore c.now w ∧
      c.scope.fire g ≠ .fresh ∧ (c.scope.fire g = .called → w ≤ c.now)
  early : Punctual h

omit [DecidableEq H] in
theorem Timed.passes {h : History} (timed : Timed c h) (later_ : c.now ≤ later) :
    Timed { c with now := later } h := by
  refine ⟨?_, timed.early⟩
  intro g isCurrent
  obtain ⟨w, promised, notBefore, made, called⟩ := timed.current g isCurrent
  exact ⟨w, promised, Timer.notBefore_later notBefore later_, made,
    fun ran => Int.le_trans (called ran) later_⟩

theorem Timed.arm {h : History} {g : H} {delay : Int} (timed : Timed c h)
    (delayed : c.timer g = .delayed delay) :
    Timed { c with timer := Function.update c.timer g (.due (c.now + delay)) } h := by
  refine ⟨?_, timed.early⟩
  intro g' isCurrent
  obtain ⟨w, promised, notBefore, rest⟩ := timed.current g' isCurrent
  refine ⟨w, promised, ?_, rest⟩
  show (Function.update c.timer g (.due (c.now + delay)) g').notBefore c.now w
  rw [Function.update_apply]
  split
  · rename_i same
    rw [same, delayed] at notBefore
    exact notBefore
  · exact notBefore

omit [DecidableEq H] in
/-- A handle that was made before keeps its timer. -/
theorem timersAfter_made {g : H} (made : c.scope.fire g ≠ .fresh) :
    c.timersAfter s' later g = c.timer g := by
  unfold Clocked.timersAfter
  split
  · contradiction
  · rfl

theorem record_calm {h : History} (calm : c.scope.scope = .entered → s'.scope ≠ .expiring) :
    (record h c (.scope a later) ⟨s', later, c.timersAfter s' later⟩).expirations =
      h.expirations := by
  refine if_neg ?_
  rintro ⟨entered, expiring⟩
  exact calm entered expiring

theorem timed_scope [DecidableEq P] {h : History} (timed : Timed c h) (later_ : c.now ≤ later)
    (may : c.mayTake a = true) (superseded : NotSuperseded (c, h) (.scope a later))
    (taken : Timeouts.step c.scope a = some s') :
    Timed ⟨s', later, c.timersAfter s' later⟩
      (record h c (.scope a later) ⟨s', later, c.timersAfter s' later⟩) := by
  cases effect_of_step taken with
  | keeps handler fire promised calm =>
      constructor
      · intro g isCurrent
        change s'.timeoutHandler = some g at isCurrent
        rw [handler] at isCurrent
        obtain ⟨w, was, notBefore, made, called⟩ := timed.current g isCurrent
        refine ⟨w, ?_, ?_, ?_, ?_⟩
        · exact (promised h.promised).trans was
        · show (c.timersAfter s' later g).notBefore later w
          rw [timersAfter_made made]
          exact Timer.notBefore_later notBefore later_
        · show s'.fire g ≠ .fresh
          rw [fire]
          exact made
        · show s'.fire g = .called → w ≤ later
          rw [fire]
          exact fun ran => Int.le_trans (called ran) later_
      · unfold Punctual
        rw [record_calm calm]
        exact timed.early
  | drops handler fire calm =>
      constructor
      · intro g isCurrent
        exact absurd (handler.symm.trans isCurrent) (by rintro ⟨⟩)
      · unfold Punctual
        rw [record_calm calm]
        exact timed.early
  | arms w g handler fresh fire when_ promised calm =>
      constructor
      · intro g' isCurrent
        obtain rfl : g = g' := Option.some.inj (handler.symm.trans isCurrent)
        have scheduled : s'.fire g = .scheduled := by
          rw [fire]
          exact Function.update_self ..
        refine ⟨w, promised h.promised, ?_, ?_, ?_⟩
        · show (c.timersAfter s' later g).notBefore later w
          simp only [Clocked.timersAfter, fresh, scheduled, when_]
          exact newTimer_notBefore later_
        · show s'.fire g ≠ .fresh
          rw [scheduled]
          decide
        · show s'.fire g = .called → w ≤ later
          rw [scheduled]
          rintro ⟨⟩
      · unfold Punctual
        rw [record_calm calm]
        exact timed.early
  | runs g isRun scheduled fire past next =>
      subst isRun next
      constructor
      · intro g' isCurrent
        obtain ⟨w, was, notBefore, made, called⟩ := timed.current g' isCurrent
        refine ⟨w, was, ?_, ?_, ?_⟩
        · show (c.timersAfter _ later g').notBefore later w
          rw [timersAfter_made made]
          exact Timer.notBefore_later notBefore later_
        · show Function.update c.scope.fire g fire g' ≠ .fresh
          rw [Function.update_apply]
          split
          · exact past
          · exact made
        · show Function.update c.scope.fire g fire g' = .called → w ≤ later
          rw [Function.update_apply]
          split
          · rename_i same
            subst same
            exact fun _ => Int.le_trans (Timer.notBefore_ripe notBefore may) later_
          · exact fun ran => Int.le_trans (called ran) later_
      · unfold Punctual
        rw [record_calm (by rintro entered; simp [entered])]
        exact timed.early
  | fires g isDeadline called handler fire =>
      subst isDeadline
      constructor
      · intro g' isCurrent
        exact absurd (handler.symm.trans isCurrent) (by rintro ⟨⟩)
      · intro promised t member
        simp only [record] at member
        split at member
        · rename_i expires
          obtain new | member := List.mem_cons.mp member
          · obtain ⟨isPromised, rfl⟩ := Prod.mk.inj new
            obtain isCurrent | over_ := superseded g later rfl expires.1
            · obtain ⟨w, was, -, -, ran⟩ := timed.current g isCurrent
              exact ⟨w, Option.some.inj (isPromised.trans was), ran called⟩
            · exact over_ promised isPromised.symm
          · exact timed.early promised t member
        · exact timed.early promised t member

theorem timed_step [DecidableEq P] {a : Act H P} {h : History} (timed : Timed c h)
    (superseded : NotSuperseded (c, h) a) (taken : step c a = some c') :
    Timed c' (record h c a c') := by
  cases a with
  | scope a later =>
      simp only [step] at taken
      split at taken
      · rename_i allowed
        obtain ⟨next, moved, rfl⟩ := Option.map_eq_some_iff.mp taken
        exact timed_scope timed allowed.1 allowed.2 superseded moved
      · cases taken
  | arm g =>
      simp only [step] at taken
      split at taken
      · rename_i delayed
        obtain rfl := Option.some.inj taken
        exact timed.arm delayed
      · cases taken
  | pass later =>
      simp only [step] at taken
      split at taken
      · rename_i later_
        obtain rfl := Option.some.inj taken
        exact timed.passes later_
      · cases taken

theorem rescheduled_not_early [DecidableEq P] {past : Clocked H P × History}
    (reached : (clockedMachine H P).Reach NotSuperseded past) : Punctual past.2 := by
  refine Timed.early (c := past.1) ?_
  refine Machine.Reach.recorded Timed ?_ ?_ reached
  · rintro c ⟨⟨-, handler, -⟩, -⟩
    refine ⟨?_, by rintro _ _ ⟨⟩⟩
    intro g isCurrent
    rw [handler] at isCurrent
    cases isCurrent
  · intro c h a c' _ timed superseded taken
    exact timed_step timed superseded taken

/-! ## Runs -/

/-- A scope with a deadline at 10, and a clock at 0. -/
def clockedBeginning : Clocked Nat Unit where
  scope :=
    { scope := .created, when_ := some 10, timeoutHandler := none, task := false,
      cancelled := fun _ => false, fire := fun _ => .fresh, old := fun _ => none, pc := .outside,
      numCancelsRequested := 0, done := false, entryCount := 0, deadlineCancels := [],
      scopeUncancels := 0, foundNone := false, others := 0 }
  now := 0
  timer _ := .unset

theorem clockedBeginning_start : (clockedMachine Nat Unit).start (clockedBeginning, ⟨none, []⟩) :=
  ⟨⟨⟨rfl, rfl, rfl, fun _ => rfl, fun _ => rfl, fun _ => rfl, rfl, rfl, rfl, rfl, rfl⟩,
    fun _ => rfl⟩, rfl⟩

/-- The scope is entered with handle 0, whose callback is called at 10. -/
def enteredRun : List (Act Nat Unit) :=
  .replicate 5 (.scope (.task none) 0) ++
    [.scope (.task (some 0)) 0, .arm 0, .pass 10, .scope (.run 0) 10]

/-- `NotSuperseded`, decided. -/
def notSuperseded (past : Clocked Nat Unit × History) : Act Nat Unit → Bool
  | .scope (.deadline h) _ =>
      past.1.scope.timeoutHandler = some h ||
        match past.2.promised with
        | none => true
        | some none => false
        | some (some w) => w ≤ past.1.now
  | _ => true

theorem notSuperseded_sound (past : Clocked Nat Unit × History) (a : Act Nat Unit)
    (checked : notSuperseded past a = true) : NotSuperseded past a := by
  rintro h later rfl -
  simp only [notSuperseded, Bool.or_eq_true, decide_eq_true_eq] at checked
  refine checked.imp_right ?_
  intro over_ promised isPromised
  rw [isPromised] at over_
  cases promised with
  | none => cases over_
  | some w => exact ⟨w, rfl, of_decide_eq_true over_⟩

/-- The deadline is put off to 20 while nothing is called; the timer is armed late,
and the scope expires at 21. -/
theorem punctualRun_ends :
    ((clockedMachine Nat Unit).execIf notSuperseded (clockedBeginning, ⟨none, []⟩)
      (.replicate 5 (.scope (.task none) 0) ++
        [.scope (.task (some 0)) 0, .arm 0, .scope (.reschedule () (some 20) (some 1)) 5,
          .scope (.cancelOld ()) 6, .arm 1, .pass 21, .scope (.run 1) 21,
          .scope (.deadline 1) 21])).any
      (fun past => past.2.expirations = [(some (some 20), 21)]) = true := by
  decide +kernel

theorem rescheduled_not_early_put_off :
    ∃ past : Clocked Nat Unit × History,
      past.2.expirations = [(some (some 20), 21)] ∧ Punctual past.2 := by
  obtain ⟨past, reached, ends⟩ := Machine.Reach.exists_of_execIf notSuperseded_sound
    clockedBeginning_start punctualRun_ends
  exact ⟨past, of_decide_eq_true ends, rescheduled_not_early reached⟩

/-- The callback of handle 0 is called; `reschedule` puts the deadline off to 100
and returns, and then the callback gets the lock. -/
theorem supersededRun_ends :
    ((clockedMachine Nat Unit).exec (clockedBeginning, ⟨none, []⟩)
      (enteredRun ++ [.scope (.reschedule () (some 100) (some 1)) 10, .scope (.cancelOld ()) 10,
        .scope (.deadline 0) 10])).any
      (fun past => past.2.expirations = [(some (some 100), 10)]) = true := by
  decide +kernel

theorem superseded_expires_early :
    ¬ ∀ past : Clocked Nat Unit × History,
      (clockedMachine Nat Unit).Reachable past → Punctual past.2 := by
  intro always
  obtain ⟨past, reached, ends⟩ :=
    Machine.Reachable.exists_of_exec clockedBeginning_start supersededRun_ends
  have expired : (some (some 100), 10) ∈ past.2.expirations := by
    rw [of_decide_eq_true ends]
    exact List.mem_cons_self
  obtain ⟨w, same, early⟩ := always past reached (some 100) 10 expired
  cases same
  exact absurd early (by decide)

end MtAsyncio.Deadlines
