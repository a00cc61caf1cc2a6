/-
Module: MtAsyncio.Proofs.TimeoutErrors
Purpose: When an expired scope becomes `TimeoutError`.  `__aexit__` compares the
  requests that are left with zero, so a scope whose deadline has cancelled the
  task raises `TimeoutError` just when the requests from before its entry have
  been taken back inside of it.
Trusted boundary: none
Main exports: State.TallyAt, Tallied, expired_times_out_iff,
  expired_not_timed_out
-/
import MtAsyncio.Model.TimeoutNest
import MtAsyncio.Proofs.TimeoutBalance

namespace MtAsyncio.Timeouts

open Lib (Machine)

variable {N H P : Type} [DecidableEq N]
variable {s s' : State Int H P} {h : Tally} {a : Act Int H P}

/-! ## The accounts of one scope -/

/-- The count is what it was at entry, and what was asked and taken back since. -/
def State.Even (s : State Int H P) (h : Tally) : Prop :=
  s.done = false →
    s.numCancelsRequested + h.withdrawn = s.entryCount + h.asked + s.deadlineCancels.length

/-- The scope at each stage. -/
def State.TallyAt (s : State Int H P) (h : Tally) : Stage → Prop
  | .before => s.scope = .created ∧ s.deadlineCancels = []
  | .entering | .inside =>
      (s.scope = .entered ∧ s.deadlineCancels = [] ∨
        s.scope = .expiring ∧ s.deadlineCancels.length ≤ 1) ∧ s.Even h
  | .leaving expiring =>
      s.scope ≠ .entered ∧ s.deadlineCancels.length ≤ 1 ∧
        (s.deadlineCancels ≠ [] → expiring = true) ∧ s.Even h
  | .left => s.scope ≠ .entered

/-- An exit of a scope that the deadline has expired, out of a body that ended
with `CancelledError`, is a `TimeoutError` just when the requests of others are
all taken back. -/
def Exit.Fair (e : Exit) : Prop :=
  e.fired = true → e.et = .cancelled →
    (e.timedOut = true ↔ e.entry + e.asked ≤ e.withdrawn)

structure Tallied (s : State Int H P) (h : Tally) : Prop where
  at_ : s.TallyAt h s.pc.stage
  running : s.pc.outer = false → s.done = false
  exit : ∀ e, h.exit = some e → e.Fair

/-! ## Steps -/

theorem Same.tallyAt (same : Same s s') {stage : Stage} (at_ : s.TallyAt h stage) :
    s'.TallyAt h stage := by
  obtain ⟨scope, -, count, done, entry, asked, -⟩ := same
  cases stage <;>
    simpa only [State.TallyAt, State.Even, scope, count, done, entry, asked] using at_

theorem Same.tallied (same : Same s s') (pc : s'.pc = s.pc) (tallied : Tallied s h) :
    Tallied s' h := by
  refine ⟨?_, ?_, tallied.exit⟩
  · rw [pc]
    exact same.tallyAt tallied.at_
  · rw [pc]
    exact fun inner => same.done.trans (tallied.running inner)

/-- The task goes on to a stage with the same accounts. -/
theorem Same.goes (same : Same s s') (running : s'.done = false) (at_ : s.TallyAt h s'.pc.stage)
    (exit : ∀ e, h.exit = some e → e.Fair) : Tallied s' h :=
  ⟨same.tallyAt at_, fun _ => running, exit⟩

/-- A deadline that finds the scope entered asks once, or fails. -/
theorem onTimeout_tallyAt (entered : s.scope = .entered) (none : s.deadlineCancels = [])
    (even : s.Even h) : s.onTimeout.scope = .expiring ∧ s.onTimeout.deadlineCancels.length ≤ 1 ∧
      s.onTimeout.Even h := by
  simp only [State.onTimeout, entered, ne_eq, not_true_eq_false, if_false]
  split
  · refine ⟨rfl, by simp [none], ?_⟩
    intro running
    change s.done = false at running
    have was := even running
    simp only [State.cancelGain, running, none, List.length_nil] at was ⊢
    simp
    omega
  · exact ⟨rfl, by simp [none], even⟩

theorem onTimeout_tallied (tallied : Tallied s h) : Tallied s.onTimeout h := by
  obtain ⟨samePc, sameDone⟩ := s.onTimeout_pc
  by_cases entered : s.scope = .entered
  · refine ⟨?_, ?_, tallied.exit⟩
    · have at_ := tallied.at_
      rw [samePc]
      generalize s.pc.stage = stage at at_ ⊢
      have fired : (s.scope = .entered ∧ s.deadlineCancels = [] ∨
          s.scope = .expiring ∧ s.deadlineCancels.length ≤ 1) ∧ s.Even h →
            s.onTimeout.TallyAt h .inside := by
        rintro ⟨⟨-, none⟩ | ⟨expiring, -⟩, even⟩
        · obtain ⟨expiring, one, even⟩ := onTimeout_tallyAt entered none even
          exact ⟨.inr ⟨expiring, one⟩, even⟩
        · exact absurd (entered.symm.trans expiring) (by decide)
      cases stage with
      | before => exact absurd (at_.1.symm.trans entered) (by decide)
      | entering | inside => exact fired at_
      | leaving expiring => exact absurd entered at_.1
      | left => exact absurd entered at_
    · rw [samePc, sameDone]
      exact tallied.running
  · exact (State.onTimeout_same entered).tallied samePc tallied

/-- `uncancel` in `__aexit__`, and the comparison of what is left with zero. -/
theorem exit_fair {et : Raised} {expiring : Bool} {e : Exit}
    (leaving : s.TallyAt h (.leaving expiring)) (running : s.done = false)
    (isExit : e = ⟨et, s.deadlineCancels ≠ [], s.entryCount, h.asked, h.withdrawn,
      expiring && decide (s.numCancelsRequested - s.uncancelLoss = 0 ∧ et = .cancelled)⟩) :
    e.Fair := by
  subst isExit
  obtain ⟨-, one, expired, even⟩ := leaving
  intro fired isCancelled
  have asked : s.deadlineCancels ≠ [] := of_decide_eq_true fired
  have single : s.deadlineCancels.length = 1 :=
    Nat.le_antisymm one (List.length_pos_iff.mpr asked)
  have count := even running
  rw [single] at count
  change et = .cancelled at isCancelled
  have loss : s.numCancelsRequested - s.uncancelLoss = 0 ↔ s.numCancelsRequested ≤ 1 := by
    unfold State.uncancelLoss
    split <;> omega
  simp only [expired asked, isCancelled, Bool.true_and, and_true, decide_eq_true_eq, loss]
  omega

/-- The `reschedule` in `__aenter__`. -/
theorem armLock_same [DecidableEq H] {when_ : Option Int} {made : Option H}
    (stage : s.pc = .armLock when_)
    (taken : s.taskStep made = some s') : Same s s' ∧ s'.pc.stage = .inside := by
  have same := (s.rescheduled_same when_ made).1
  simp only [State.taskStep, stage] at taken
  split at taken
  · cases result : s.rescheduled when_ made with
    | mk middle outcome =>
        rw [result] at taken same
        obtain ⟨scope, task, count, done, entry, asked, took, found, others⟩ := same
        cases outcome with
        | raised =>
            obtain rfl := Option.some.inj taken
            exact ⟨⟨scope, task, count, done, entry, asked, took, found, others⟩, rfl⟩
        | returned old =>
            cases old <;> obtain rfl := Option.some.inj taken <;>
              exact ⟨⟨scope, task, count, done, entry, asked, took, found, others⟩, rfl⟩
  · cases taken

theorem exitLock_tallied [DecidableEq H] {et : Raised} {made : Option H}
    (stage : s.pc = .exitLock et)
    (tallied : Tallied s h) (running : s.done = false) (taken : s.taskStep made = some s') :
    Tallied s' h := by
  have at_ := tallied.at_
  rw [stage] at at_
  obtain ⟨open_, even⟩ := at_
  simp only [State.taskStep, stage, Option.some.injEq] at taken
  subst taken
  have leaving : s.scope.leave ≠ .entered ∧ s.deadlineCancels.length ≤ 1 ∧
      (s.deadlineCancels ≠ [] → decide (s.scope = .expiring) = true) := by
    obtain ⟨entered, none⟩ | ⟨expiring, one⟩ := open_
    · simp [entered, none, Scope.leave]
    · simp [expiring, one, Scope.leave]
  obtain ⟨left, one, expired⟩ := leaving
  refine ⟨?_, fun _ => running, tallied.exit⟩
  cases s.timeoutHandler with
  | none => exact ⟨left, one, expired, even⟩
  | some g => exact ⟨left, one, expired, even⟩

theorem exitUncancel_tallied [DecidableEq H] {et : Raised} {expiring : Bool} {made : Option H}
    (stage : s.pc = .exitUncancel et expiring) (tallied : Tallied s h) (running : s.done = false)
    (taken : s.taskStep made = some s') : Tallied s' (tally h s (.task made) s') := by
  have at_ := tallied.at_
  rw [stage] at at_
  have left : s'.scope = s.scope ∧ s'.done = s.done ∧
      s'.pc = .left (expiring && decide (s.numCancelsRequested - s.uncancelLoss = 0 ∧
        et = .cancelled)) := by
    simp only [State.taskStep, stage] at taken
    cases expiring <;> obtain rfl := Option.some.inj taken <;> exact ⟨rfl, rfl, rfl⟩
  obtain ⟨scope, done, pc⟩ := left
  refine ⟨?_, ?_, ?_⟩
  · rw [pc]
    show s'.scope ≠ .entered
    rw [scope]
    exact at_.1
  · rw [done]
    exact fun _ => running
  · intro e isExit
    simp only [tally, stage, pc, TaskPc.timedOut, Option.some.injEq] at isExit
    exact exit_fair at_ running isExit.symm

theorem taskStep_tallied [DecidableEq H] {made : Option H} (tallied : Tallied s h)
    (running : s.done = false)
    (taken : s.taskStep made = some s') : Tallied s' (tally h s (.task made) s') := by
  have at_ := tallied.at_
  -- the other stages leave the tally alone
  have plain : (∀ et expiring, s.pc ≠ .exitUncancel et expiring) → s.pc ≠ .setEntered →
      tally h s (.task made) s' = h := by
    intro leaves enters
    cases stage : s.pc with
    | setEntered => exact absurd stage enters
    | exitUncancel et expiring => exact absurd stage (leaves et expiring)
    | _ => simp only [tally, stage]
  cases stage : s.pc with
  | exitUncancel et expiring => exact exitUncancel_tallied stage tallied running taken
  | setEntered =>
      rw [stage] at at_
      simp only [State.taskStep, stage, Option.some.injEq] at taken
      subst taken
      simp only [tally, stage]
      refine ⟨⟨.inl ⟨rfl, at_.2⟩, ?_⟩, fun _ => running, by rintro e ⟨⟩⟩
      intro _
      simp [at_.2]
  | refused | body | left => simp [State.taskStep, stage] at taken
  | armLock when_ =>
      rw [plain (by simp [stage]) (by simp [stage])]
      rw [stage] at at_
      obtain ⟨same, inside⟩ := armLock_same stage taken
      exact same.goes (same.done.trans running) (by rw [inside]; exact at_) tallied.exit
  | exitLock et =>
      rw [plain (by simp [stage]) (by simp [stage])]
      exact exitLock_tallied stage tallied running taken
  | outside =>
      rw [plain (by simp [stage]) (by simp [stage])]
      rw [stage] at at_
      simp only [State.taskStep, stage, Option.some.injEq] at taken
      subst taken
      rw [if_neg (not_not_intro at_.1)]
      exact ⟨at_, fun _ => running, tallied.exit⟩
  | armTest =>
      rw [plain (by simp [stage]) (by simp [stage])]
      rw [stage] at at_
      simp only [State.taskStep, stage, Option.some.injEq] at taken
      subst taken
      refine ⟨?_, fun _ => running, tallied.exit⟩
      by_cases isSet : s.when_.isSome
      · simp only [isSet, if_true]
        exact at_
      · simp only [isSet]
        exact at_
  | setTask | armRead | enterOld | exitHandler =>
      rw [plain (by simp [stage]) (by simp [stage])]
      rw [stage] at at_
      simp only [State.taskStep, stage, Option.some.injEq] at taken
      subst taken
      exact ⟨at_, fun _ => running, tallied.exit⟩

/-- Others change the count, and the tally with it. -/
theorem others_tallied {count asked withdrawn : Nat} {others : Int}
    (balance : s.done = false → s.numCancelsRequested + h.withdrawn + asked + s.entryCount =
      count + withdrawn + h.asked + s.entryCount) (tallied : Tallied s h) :
    Tallied { s with numCancelsRequested := count, others := others }
      { h with asked := asked, withdrawn := withdrawn } := by
  refine ⟨?_, tallied.running, tallied.exit⟩
  have at_ := tallied.at_
  have even : s.Even h → State.Even { s with numCancelsRequested := count, others := others }
      { h with asked := asked, withdrawn := withdrawn } := by
    intro was running
    have before := was running
    have step := balance running
    simp only
    omega
  show State.TallyAt _ _ s.pc.stage
  generalize s.pc.stage = stage at at_ ⊢
  cases stage with
  | before | left => exact at_
  | entering | inside => exact ⟨at_.1, even at_.2⟩
  | leaving expiring => exact ⟨at_.1, at_.2.1, at_.2.2.1, even at_.2.2.2⟩

/-- The task ends, in code of its own. -/
theorem finish_tallied (tallied : Tallied s h) (outer : s.pc.outer = true) :
    Tallied { s with done := true } h := by
  refine ⟨?_, fun inner => absurd (outer.symm.trans inner) (by decide), tallied.exit⟩
  have at_ := tallied.at_
  cases stage : s.pc with
  | refused | body =>
      rw [stage] at at_
      exact ⟨at_.1, by rintro ⟨⟩⟩
  | left timedOut =>
      rw [stage] at at_
      exact at_
  | _ => simp [stage, TaskPc.outer] at outer

theorem tallied_step [DecidableEq H] [DecidableEq P] (tallied : Tallied s h)
    (taken : step s a = some s') :
    Tallied s' (tally h s a s') := by
  cases a with
  | task made =>
      simp only [step] at taken
      split at taken
      · cases taken
      · rename_i running
        exact taskStep_tallied tallied (by simpa using running) taken
  | exit et =>
      simp only [step] at taken
      split at taken
      · rename_i here
        obtain ⟨inBody, running⟩ := here
        obtain rfl := Option.some.inj taken
        have at_ := tallied.at_
        cases stage : s.pc with
        | body =>
            rw [stage] at at_
            exact ⟨at_, fun _ => running, tallied.exit⟩
        | _ => simp [stage, TaskPc.inBody] at inBody
      · cases taken
  | finish =>
      simp only [step] at taken
      split at taken
      · rename_i here
        obtain rfl := Option.some.inj taken
        exact finish_tallied tallied here.1
      · cases taken
  | reschedule p when_ made =>
      obtain ⟨same, pc⟩ := reschedule_same taken
      exact same.tallied pc tallied
  | cancelOld p =>
      obtain ⟨g, -, rfl⟩ := Option.map_eq_some_iff.mp taken
      exact Same.tallied (s := s) (by constructor <;> rfl) rfl tallied
  | run g =>
      simp only [step] at taken
      split at taken
      · obtain rfl := Option.some.inj taken
        exact Same.tallied (s := s) (by constructor <;> rfl) rfl tallied
      · cases taken
  | deadline g =>
      simp only [step] at taken
      split at taken
      · obtain rfl := Option.some.inj taken
        exact Same.tallied (s := s.onTimeout) (by constructor <;> rfl) rfl
          (onTimeout_tallied tallied)
      · cases taken
  | cancel =>
      obtain rfl := Option.some.inj taken
      exact others_tallied (fun _ => by omega) tallied
  | uncancel =>
      obtain rfl := Option.some.inj taken
      refine others_tallied (fun _ => ?_) tallied
      have covered : s.uncancelLoss ≤ s.numCancelsRequested := by
        unfold State.uncancelLoss
        split <;> omega
      omega

theorem tallied_of_reachable [DecidableEq H] [DecidableEq P] {past : State Int H P × Tally}
    (reached : (scopeMachine H P).Reachable past) : Tallied past.1 past.2 := by
  refine Machine.Reach.recorded Tallied ?_ ?_ reached
  · rintro s ⟨scope, -, -, -, -, -, stage, running, asked, -, -⟩
    refine ⟨?_, fun _ => running, by rintro e ⟨⟩⟩
    rw [stage]
    exact ⟨scope, asked⟩
  · intro s h a s' _ tallied _ taken
    exact tallied_step tallied taken

/-! ## The scopes of a task -/

variable {opened : N → Opener × Int} {nest : Nest N H P} {n : N}

/-- Each scope of a nest goes through a run of its own, in which the other scopes
are others. -/
theorem nest_scope_reachable [DecidableEq H] [DecidableEq P]
    (reached : (nestMachine opened H P).Reachable nest) (n : N) :
    (scopeMachine H P).Reachable (nest.scope n) := by
  refine Machine.Reach.invariant (fun nest => ∀ n, (scopeMachine H P).Reachable (nest.scope n))
    ?_ ?_ reached n
  · rintro nest ⟨starts, -⟩ n
    exact .start (starts n)
  · intro nest a nest' scopes _ taken
    cases a with
    | scope m a =>
        change nestStep nest (.scope m a) = some nest' at taken
        simp only [nestStep] at taken
        split at taken
        · obtain ⟨scope, moved, rfl⟩ := Option.map_eq_some_iff.mp taken
          exact Machine.stepAt_reachable scopes moved
        · cases taken
    | cancel =>
        obtain rfl := Option.some.inj taken
        intro n
        exact Machine.stepAll_reachable (a := .cancel) scopes n
    | uncancel =>
        obtain rfl := Option.some.inj taken
        intro n
        exact Machine.stepAll_reachable (a := .uncancel) scopes n

/-- Whatever the nest and the history of the task: a scope whose deadline has
cancelled the task, and whose body ended with `CancelledError`, raises
`TimeoutError` just when the requests that were there at its entry, and those
that others made since, are all taken back. -/
theorem expired_times_out_iff [DecidableEq H] [DecidableEq P] {e : Exit}
    (reached : (nestMachine opened H P).Reachable nest)
    (left : (nest.scope n).2.exit = some e) (fired : e.fired = true)
    (isCancelled : e.et = .cancelled) :
    e.timedOut = true ↔ e.entry + e.asked ≤ e.withdrawn :=
  (tallied_of_reachable (nest_scope_reachable reached n)).exit e left fired isCancelled

/-! ## Runs -/

def freshScope (requests : Nat) (when_ : Option Int) (H P : Type) : State Int H P where
  scope := .created
  when_ := when_
  timeoutHandler := none
  task := false
  cancelled _ := false
  fire _ := .fresh
  old _ := none
  pc := .outside
  numCancelsRequested := requests
  done := false
  entryCount := 0
  deadlineCancels := []
  scopeUncancels := 0
  foundNone := false
  others := 0

/-- Two scopes of a task with `requests` outstanding cancels: a `timeout` and, in
its body, a `wait_for`. -/
def freshNest (requests : Nat) : Nest Bool Nat Unit where
  scope inner := (freshScope requests (some (if inner then 5 else 10)) Nat Unit, ⟨0, 0, none⟩)
  stack := []

def openedBy (inner : Bool) : Opener × Int :=
  (if inner then .waitFor (some 5) else .timeout (some 10), 0)

theorem freshNest_start (requests : Nat) :
    (nestMachine openedBy Nat Unit).start (freshNest requests) := by
  refine ⟨?_, fun _ _ => rfl, ?_, rfl⟩
  · intro n
    exact ⟨⟨rfl, rfl, rfl, fun _ => rfl, fun _ => rfl, fun _ => rfl, rfl, rfl, rfl, rfl, rfl⟩, rfl⟩
  · intro inner
    cases inner <;> rfl

/-- Both scopes are entered, the deadline of the inner one cancels the task, and
the `CancelledError` ends its body. -/
def expireInner : List (NestAct Bool Nat Unit) :=
  .replicate 5 (.scope false (.task none)) ++ [.scope false (.task (some 0))] ++
    .replicate 5 (.scope true (.task none)) ++
    [.scope true (.task (some 0)), .scope true (.run 0), .scope true (.deadline 0),
      .scope true (.exit .cancelled), .scope true (.task none), .scope true (.task none)]

/-- The task enters with no request, and `wait_for` raises `TimeoutError`. -/
theorem timedOutRun_ends :
    ((nestMachine openedBy Nat Unit).exec (freshNest 0) expireInner).any
      (fun s => (s.scope true).2.exit = some ⟨.cancelled, true, 0, 0, 0, true⟩) = true := by
  decide +kernel

theorem expired_times_out_iff_nested :
    ∃ s : Nest Bool Nat Unit, (nestMachine openedBy Nat Unit).Reachable s ∧ ∃ e,
      (s.scope true).2.exit = some e ∧ (e.timedOut = true ↔ e.entry + e.asked ≤ e.withdrawn) := by
  obtain ⟨s, reached, ends⟩ :=
    Machine.Reachable.exists_of_exec (freshNest_start 0) timedOutRun_ends
  exact ⟨s, reached, _, of_decide_eq_true ends,
    expired_times_out_iff reached (of_decide_eq_true ends) rfl rfl⟩

/-- The task enters with a request that it has caught and not taken back. -/
theorem untimedRun_ends :
    ((nestMachine openedBy Nat Unit).exec (freshNest 1) expireInner).any
      (fun s => (s.scope true).2.exit = some ⟨.cancelled, true, 1, 0, 0, false⟩) = true := by
  decide +kernel

/-- An expired scope that nobody else has cancelled lets its own `CancelledError`
out. -/
theorem expired_not_timed_out :
    ¬ ∀ s : Nest Bool Nat Unit, (nestMachine openedBy Nat Unit).Reachable s →
      ∀ n e, (s.scope n).2.exit = some e → e.fired = true → e.et = .cancelled → e.asked = 0 →
        e.timedOut = true := by
  intro always
  obtain ⟨s, reached, ends⟩ :=
    Machine.Reachable.exists_of_exec (freshNest_start 1) untimedRun_ends
  have timedOut := always s reached true _ (of_decide_eq_true ends) rfl rfl rfl
  cases timedOut

end MtAsyncio.Timeouts
