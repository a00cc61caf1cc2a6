/-
Module: MtAsyncio.Proofs.TimeoutBalance
Purpose: What a timeout scope does to the cancel requests of its task.  The
  deadline asks once at most, only in an entered scope that nobody is leaving,
  and `__aexit__` takes that request back.
Trusted boundary: none
Main exports: TaskAssigned, Stage, State.AccountsAt, Accounts, accounts_step,
  timeout_balance
-/
import Mathlib.Tactic.Linarith
import MtAsyncio.Model.Timeouts

namespace MtAsyncio.Timeouts

open Lib (Machine)

variable {W H P : Type} {s s' : State W H P}

/-! ## Stages of a scope -/

/-- How far the task has come with the scope. -/
inductive Stage where
  | before
  | entering
  | inside
  | leaving (expiring : Bool)
  | left

def TaskPc.stage : TaskPc W H → Stage
  | .outside | .setEntered => .before
  | .setTask => .entering
  | .armTest | .armRead | .armLock _ | .enterOld _ | .refused | .body | .exitLock _ => .inside
  | .exitHandler _ expiring _ | .exitUncancel _ expiring => .leaving expiring
  | .left _ => .left

/-- By how much the count exceeds what it was at entry and what others made of
it since. -/
def State.surplus (s : State W H P) : Int :=
  s.numCancelsRequested - s.entryCount - s.others

/-- The deadline has asked, or it may still ask. -/
def State.Open (s : State W H P) : Prop :=
  s.scope = .entered ∧ s.deadlineCancels = [] ∨
    s.scope = .expiring ∧ s.deadlineCancels = [(.entered, false)]

/-- The scope was left, after the deadline asked or not. -/
def State.Shut (s : State W H P) (expiring : Bool) : Prop :=
  s.scope = (if expiring then .expired else .exited) ∧
    s.deadlineCancels = if expiring then [(.entered, false)] else []

/-- `__aexit__` has not taken back what the deadline asked. -/
def State.Owes (s : State W H P) : Prop :=
  s.scopeUncancels = 0 ∧ s.foundNone = false ∧
    (s.done = false → s.surplus = s.deadlineCancels.length)

/-- The accounts of a scope at each stage. -/
def State.AccountsAt (s : State W H P) : Stage → Prop
  | .before =>
      s.scope = .created ∧ s.task = false ∧ s.deadlineCancels = [] ∧ s.scopeUncancels = 0 ∧
        s.foundNone = false
  | .entering => s.scope = .entered ∧ s.task = false ∧ s.deadlineCancels = [] ∧ s.Owes
  | .inside => s.task = true ∧ s.Open ∧ s.Owes
  | .leaving expiring => s.Shut expiring ∧ s.Owes
  | .left =>
      s.scopeUncancels = s.deadlineCancels.length ∧ (∃ expiring, s.Shut expiring) ∧
        s.surplus = if s.foundNone then 1 else 0

structure Accounts (s : State W H P) : Prop where
  at_ : s.AccountsAt s.pc.stage
  running : s.pc.outer = false → s.done = false

/-! ## What keeps the accounts -/

/-- The fields that the accounts read, but for the stage. -/
structure Same (s s' : State W H P) : Prop where
  scope : s'.scope = s.scope
  task : s'.task = s.task
  count : s'.numCancelsRequested = s.numCancelsRequested
  done : s'.done = s.done
  entry : s'.entryCount = s.entryCount
  asked : s'.deadlineCancels = s.deadlineCancels
  taken : s'.scopeUncancels = s.scopeUncancels
  found : s'.foundNone = s.foundNone
  others : s'.others = s.others

theorem Same.at_ (same : Same s s') {stage : Stage} (at_ : s.AccountsAt stage) :
    s'.AccountsAt stage := by
  obtain ⟨scope, task, count, done, entry, asked, taken, found, others⟩ := same
  cases stage <;>
    simpa only [State.AccountsAt, State.Open, State.Shut, State.Owes, State.surplus, scope, task,
      count, done, entry, asked, taken, found, others] using at_

theorem Same.accounts (same : Same s s') (pc : s'.pc = s.pc) (accounts : Accounts s) :
    Accounts s' := by
  constructor
  · rw [pc]
    exact same.at_ accounts.at_
  · intro inner
    rw [pc] at inner
    exact same.done.trans (accounts.running inner)

theorem State.rescheduled_same [DecidableEq H] (s : State W H P) (when_ : Option W)
    (made : Option H) :
    Same s (s.rescheduled when_ made).1 ∧ (s.rescheduled when_ made).1.pc = s.pc := by
  unfold rescheduled
  split
  · exact ⟨by constructor <;> rfl, rfl⟩
  · cases when_ with
    | none => exact ⟨by constructor <;> rfl, rfl⟩
    | some w =>
        cases made with
        | none => exact ⟨by constructor <;> rfl, rfl⟩
        | some h => exact ⟨by constructor <;> rfl, rfl⟩

/-! ## The deadline -/

/-- Every deadline callback finds `_task` assigned. -/
def TaskAssigned (s : State W H P) (a : Act W H P) : Prop :=
  (∃ h, a = .deadline h) → s.scope = .entered → s.task = true

theorem State.onTimeout_same (apart : s.scope ≠ .entered) : Same s s.onTimeout := by
  rw [State.onTimeout, if_pos apart]
  constructor <;> rfl

theorem State.onTimeout_pc (s : State W H P) :
    s.onTimeout.pc = s.pc ∧ s.onTimeout.done = s.done := by
  unfold State.onTimeout
  split
  · exact ⟨rfl, rfl⟩
  · split <;> exact ⟨rfl, rfl⟩

/-- A deadline that finds the scope entered asks, for the first time. -/
theorem onTimeout_inside (entered : s.scope = .entered) (early : s.pc.tookLock = false)
    (inside : s.AccountsAt .inside) : s.onTimeout.AccountsAt .inside := by
  obtain ⟨known, open_, took, found, surplus⟩ := inside
  have none : s.deadlineCancels = [] := by
    obtain ⟨-, none⟩ | ⟨expiring, -⟩ := open_
    · exact none
    · simp [entered] at expiring
  have fired : s.onTimeout = { s with
      timeoutHandler := Option.none
      scope := .expiring
      numCancelsRequested := s.numCancelsRequested + s.cancelGain
      deadlineCancels := [(.entered, false)] } := by
    simp [State.onTimeout, entered, known, early, none]
  rw [fired]
  refine ⟨known, .inr ⟨rfl, rfl⟩, took, found, ?_⟩
  intro running
  have before := surplus running
  have running' : s.done = false := running
  simp only [State.surplus, State.cancelGain, none, running', List.length_nil] at before ⊢
  simp
  omega

/-- Only an entered scope that nobody is leaving may still be asked for. -/
theorem State.AccountsAt.entered {stage : Stage} (at_ : s.AccountsAt stage)
    (entered : s.scope = .entered) (known : s.task = true) : stage = .inside := by
  cases stage with
  | before => simp [at_.1] at entered
  | entering => simp [at_.2.1] at known
  | inside => rfl
  | leaving expiring =>
      have scope := at_.1.1
      cases expiring <;> simp [entered] at scope
  | left =>
      obtain ⟨-, ⟨expiring, scope, -⟩, -⟩ := at_
      cases expiring <;> simp [entered] at scope

theorem TaskPc.tookLock_of_stage {pc : TaskPc W H} (stage : pc.stage = .inside) :
    pc.tookLock = false := by
  cases pc <;> first | rfl | cases stage

theorem onTimeout_accounts (assigned : s.scope = .entered → s.task = true)
    (accounts : Accounts s) : Accounts s.onTimeout := by
  obtain ⟨samePc, sameDone⟩ := s.onTimeout_pc
  by_cases entered : s.scope = .entered
  · have inside := accounts.at_.entered entered (assigned entered)
    have at_ := accounts.at_
    rw [inside] at at_
    constructor
    · rw [samePc, inside]
      exact onTimeout_inside entered (TaskPc.tookLock_of_stage inside) at_
    · intro inner
      rw [samePc] at inner
      exact sameDone.trans (accounts.running inner)
  · exact (State.onTimeout_same entered).accounts samePc accounts

/-! ## The task -/

theorem State.Open.shut (open_ : s.Open) (scope : s'.scope = s.scope.leave)
    (asked : s'.deadlineCancels = s.deadlineCancels) : s'.Shut (s.scope = .expiring) := by
  obtain ⟨entered, none⟩ | ⟨expiring, one⟩ := open_
  · simp [State.Shut, Scope.leave, scope, asked, entered, none]
  · simp [State.Shut, Scope.leave, scope, asked, expiring, one]

/-- The locked section of the `reschedule` call in `__aenter__`. -/
theorem armLock_accounts [DecidableEq H] {when_ : Option W} {made : Option H}
    (stage : s.pc = .armLock when_) (inside : s.AccountsAt .inside) (running : s.done = false)
    (taken : s.taskStep made = some s') : Accounts s' := by
  have same := (s.rescheduled_same when_ made).1
  simp only [State.taskStep, stage] at taken
  split at taken
  · generalize s.rescheduled when_ made = result at taken same
    have still := same.at_ inside
    have running' := same.done.trans running
    cases result with
    | mk middle outcome =>
        cases outcome with
        | raised =>
            obtain rfl := Option.some.inj taken
            exact ⟨still, fun _ => running'⟩
        | returned old =>
            cases old with
            | none =>
                obtain rfl := Option.some.inj taken
                exact ⟨still, fun _ => running'⟩
            | some h =>
                obtain rfl := Option.some.inj taken
                exact ⟨still, fun _ => running'⟩
  · cases taken

/-- The call of `uncancel` in `__aexit__` takes back what the deadline asked,
unless nothing is left to take back. -/
theorem exitUncancel_accounts [DecidableEq H] {made : Option H} {et : Raised} {expiring : Bool}
    (stage : s.pc = .exitUncancel et expiring) (leaving : s.AccountsAt (.leaving expiring))
    (running : s.done = false) (taken : s.taskStep made = some s') : Accounts s' := by
  obtain ⟨shut, took, found, surplus⟩ := leaving
  have asked := surplus running
  simp only [State.taskStep, stage] at taken
  cases expiring with
  | false =>
      obtain rfl := Option.some.inj taken
      refine ⟨⟨took.trans (congrArg List.length shut.2).symm, ⟨false, shut⟩, ?_⟩, fun _ => running⟩
      simpa [State.surplus, found, shut.2] using asked
  | true =>
      obtain rfl := Option.some.inj taken
      refine ⟨⟨?_, ⟨true, shut⟩, ?_⟩, fun _ => running⟩
      · simp [took, shut.2]
      · simp only [State.surplus, shut.2, State.uncancelLoss] at asked ⊢
        by_cases none : s.numCancelsRequested = 0
        · simp [none] at asked ⊢
          omega
        · simp [none, Nat.pos_of_ne_zero none] at asked ⊢
          omega

theorem taskStep_accounts [DecidableEq H] {made : Option H} (running : s.done = false)
    (accounts : Accounts s) (taken : s.taskStep made = some s') : Accounts s' := by
  have at_ := accounts.at_
  cases stage : s.pc with
  | armLock when_ => exact armLock_accounts stage (by rwa [stage] at at_) running taken
  | exitUncancel et expiring =>
      exact exitUncancel_accounts stage (by rwa [stage] at at_) running taken
  | outside =>
      simp only [State.taskStep, stage, Option.some.injEq] at taken
      subst taken
      rw [stage] at at_
      rw [if_neg (not_not_intro at_.1)]
      exact ⟨at_, fun _ => running⟩
  | setEntered =>
      simp only [State.taskStep, stage, Option.some.injEq] at taken
      subst taken
      rw [stage] at at_
      obtain ⟨-, task, asked, took, found⟩ := at_
      refine ⟨⟨rfl, task, asked, took, found, ?_⟩, fun _ => running⟩
      simp [State.surplus, asked]
  | setTask =>
      simp only [State.taskStep, stage, Option.some.injEq] at taken
      subst taken
      rw [stage] at at_
      obtain ⟨entered, -, asked, owes⟩ := at_
      exact ⟨⟨rfl, .inl ⟨entered, asked⟩, owes⟩, fun _ => running⟩
  | armTest =>
      simp only [State.taskStep, stage, Option.some.injEq] at taken
      subst taken
      rw [stage] at at_
      refine ⟨?_, fun _ => running⟩
      by_cases isSet : s.when_.isSome
      · simp only [isSet, if_true]
        exact at_
      · simp only [isSet]
        exact at_
  | armRead =>
      simp only [State.taskStep, stage, Option.some.injEq] at taken
      subst taken
      rw [stage] at at_
      exact ⟨at_, fun _ => running⟩
  | enterOld old =>
      simp only [State.taskStep, stage, Option.some.injEq] at taken
      subst taken
      rw [stage] at at_
      exact ⟨at_, fun _ => running⟩
  | exitLock et =>
      simp only [State.taskStep, stage, Option.some.injEq] at taken
      subst taken
      rw [stage] at at_
      obtain ⟨-, open_, owes⟩ := at_
      refine ⟨?_, fun _ => running⟩
      cases handler : s.timeoutHandler with
      | none => exact ⟨open_.shut rfl rfl, owes⟩
      | some h => exact ⟨open_.shut rfl rfl, owes⟩
  | exitHandler et expiring h =>
      simp only [State.taskStep, stage, Option.some.injEq] at taken
      subst taken
      rw [stage] at at_
      exact ⟨at_, fun _ => running⟩
  | refused => simp [State.taskStep, stage] at taken
  | body => simp [State.taskStep, stage] at taken
  | left timedOut => simp [State.taskStep, stage] at taken

/-- The task ends, in code of its own. -/
theorem finish_accounts (accounts : Accounts s) (outer : s.pc.outer = true) :
    Accounts { s with done := true } := by
  refine ⟨?_, fun inner => absurd (outer.symm.trans inner) (by decide)⟩
  have owes : s.Owes → State.Owes { s with done := true } := by
    rintro ⟨took, found, -⟩
    exact ⟨took, found, Bool.noConfusion⟩
  have at_ := accounts.at_
  cases stage : s.pc with
  | refused =>
      rw [stage] at at_
      exact ⟨at_.1, at_.2.1, owes at_.2.2⟩
  | body =>
      rw [stage] at at_
      exact ⟨at_.1, at_.2.1, owes at_.2.2⟩
  | left timedOut =>
      rw [stage] at at_
      exact at_
  | _ => simp [stage, TaskPc.outer] at outer

/-! ## The other steps -/

/-- The locked section of `reschedule` in another thread. -/
theorem reschedule_same [DecidableEq H] [DecidableEq P] {p : P} {when_ : Option W} {made : Option H}
    (taken : step s (.reschedule p when_ made) = some s') : Same s s' ∧ s'.pc = s.pc := by
  have same := s.rescheduled_same when_ made
  simp only [step] at taken
  split at taken
  · generalize s.rescheduled when_ made = result at taken same
    cases result with
    | mk middle outcome =>
        obtain ⟨⟨scope, task, count, done, entry, asked, took, found, others⟩, pc⟩ := same
        cases outcome with
        | raised =>
            obtain rfl := Option.some.inj taken
            exact ⟨⟨scope, task, count, done, entry, asked, took, found, others⟩, pc⟩
        | returned old =>
            obtain rfl := Option.some.inj taken
            exact ⟨⟨scope, task, count, done, entry, asked, took, found, others⟩, pc⟩
  · cases taken

/-- Somebody else changes the count; the surplus of the scope stays. -/
theorem others_accounts {count : Nat} {others : Int}
    (same : (count : Int) - others = s.numCancelsRequested - s.others) (accounts : Accounts s) :
    Accounts { s with numCancelsRequested := count, others := others } := by
  have surplus : State.surplus { s with numCancelsRequested := count, others := others } =
      s.surplus := by
    simp only [State.surplus]
    omega
  refine ⟨?_, accounts.running⟩
  have at_ := accounts.at_
  show State.AccountsAt _ s.pc.stage
  generalize s.pc.stage = stage at at_ ⊢
  cases stage <;>
    · simp only [State.AccountsAt, State.Owes, surplus] at at_ ⊢
      exact at_

theorem accounts_step [DecidableEq H] [DecidableEq P] {a : Act W H P} (assigned : TaskAssigned s a)
    (accounts : Accounts s) (taken : step s a = some s') : Accounts s' := by
  cases a with
  | task made =>
      simp only [step] at taken
      split at taken
      · cases taken
      · rename_i running
        exact taskStep_accounts (by simpa using running) accounts taken
  | exit et =>
      simp only [step] at taken
      split at taken
      · rename_i here
        obtain ⟨inBody, running⟩ := here
        obtain rfl := Option.some.inj taken
        have at_ := accounts.at_
        cases stage : s.pc with
        | body =>
            rw [stage] at at_
            exact ⟨at_, fun _ => running⟩
        | _ => simp [stage, TaskPc.inBody] at inBody
      · cases taken
  | finish =>
      simp only [step] at taken
      split at taken
      · rename_i here
        obtain rfl := Option.some.inj taken
        exact finish_accounts accounts here.1
      · cases taken
  | reschedule p when_ made =>
      obtain ⟨same, pc⟩ := reschedule_same taken
      exact same.accounts pc accounts
  | cancelOld p =>
      obtain ⟨h, -, rfl⟩ := Option.map_eq_some_iff.mp taken
      exact Same.accounts (s := s) (by constructor <;> rfl) rfl accounts
  | run h =>
      simp only [step] at taken
      split at taken
      · obtain rfl := Option.some.inj taken
        exact Same.accounts (s := s) (by constructor <;> rfl) rfl accounts
      · cases taken
  | deadline h =>
      simp only [step] at taken
      split at taken
      · obtain rfl := Option.some.inj taken
        have fired := onTimeout_accounts (assigned ⟨h, rfl⟩) accounts
        exact Same.accounts (s := s.onTimeout) (by constructor <;> rfl) rfl fired
      · cases taken
  | cancel =>
      obtain rfl := Option.some.inj taken
      exact others_accounts (by push_cast; omega) accounts
  | uncancel =>
      obtain rfl := Option.some.inj taken
      refine others_accounts ?_ accounts
      have covered : s.uncancelLoss ≤ s.numCancelsRequested := by
        unfold State.uncancelLoss
        split <;> omega
      omega

/-! ## Runs -/

theorem accounts_of_reach [DecidableEq H] [DecidableEq P]
    (reached : (machine W H P).Reach TaskAssigned s) : Accounts s := by
  refine reached.invariant Accounts ?_ ?_
  · rintro s ⟨scope, -, task, -, -, -, stage, running, asked, took, found⟩
    refine ⟨?_, fun _ => running⟩
    rw [stage]
    exact ⟨scope, task, asked, took, found⟩
  · intro s a s' accounts assigned taken
    exact accounts_step assigned accounts taken

theorem State.Shut.asked {expiring : Bool} (shut : s.Shut expiring) :
    s.deadlineCancels = [] ∨ s.deadlineCancels = [(.entered, false)] := by
  cases expiring with
  | false => exact .inl shut.2
  | true => exact .inr shut.2

theorem State.AccountsAt.asked {stage : Stage} (at_ : s.AccountsAt stage) :
    s.deadlineCancels = [] ∨ s.deadlineCancels = [(.entered, false)] := by
  cases stage with
  | before => exact .inl at_.2.2.1
  | entering => exact .inl at_.2.2.1
  | inside => exact at_.2.1.imp And.right And.right
  | leaving expiring => exact at_.1.asked
  | left =>
      obtain ⟨-, ⟨expiring, shut⟩, -⟩ := at_
      exact shut.asked

/-- `__aexit__` has ended. -/
def TaskPc.hasLeft : TaskPc W H → Bool
  | .left _ => true
  | _ => false

theorem Accounts.early (accounts : Accounts s) (notLeft : s.pc.hasLeft = false) :
    s.scopeUncancels = 0 := by
  have at_ := accounts.at_
  cases stage : s.pc with
  | outside => rw [stage] at at_; exact at_.2.2.2.1
  | setEntered => rw [stage] at at_; exact at_.2.2.2.1
  | setTask => rw [stage] at at_; exact at_.2.2.2.1
  | exitHandler et expiring h => rw [stage] at at_; exact at_.2.1
  | exitUncancel et expiring => rw [stage] at at_; exact at_.2.1
  | left timedOut => simp [stage, TaskPc.hasLeft] at notLeft
  | _ => rw [stage] at at_; exact at_.2.2.1

theorem Accounts.late (accounts : Accounts s) (hasLeft : s.pc.hasLeft = true) :
    s.AccountsAt .left := by
  have at_ := accounts.at_
  cases stage : s.pc with
  | left timedOut => rwa [stage] at at_
  | _ => simp [stage, TaskPc.hasLeft] at hasLeft

/-- In the life of a scope the deadline asks once at most, in an entered scope
and before `__aexit__` has taken the lock.  `__aexit__` calls `uncancel` once if
the deadline asked and not at all otherwise.  After it the count is what it was
at entry and what others made of it, unless that `uncancel` found the count at
zero: others had taken back the request of the deadline before. -/
theorem timeout_balance [DecidableEq H] [DecidableEq P]
    (reached : (machine W H P).Reach TaskAssigned s) :
    (s.deadlineCancels = [] ∨ s.deadlineCancels = [(.entered, false)]) ∧
    (s.pc.hasLeft = false → s.scopeUncancels = 0) ∧
    (s.pc.hasLeft = true →
      s.scopeUncancels = s.deadlineCancels.length ∧
        (s.numCancelsRequested : Int) =
          s.entryCount + s.others + if s.foundNone then 1 else 0) := by
  have accounts := accounts_of_reach reached
  refine ⟨?_, ?_, ?_⟩
  · exact accounts.at_.asked
  · exact accounts.early
  · intro hasLeft
    obtain ⟨took, -, surplus⟩ := accounts.late hasLeft
    refine ⟨took, ?_⟩
    rw [← surplus, State.surplus]
    omega

/-! A deadline that asks, another `uncancel` that takes the request back, and the
one of `__aexit__` that has nothing left to take. -/

def beginning : State Unit Nat Unit where
  scope := .created
  when_ := some ()
  timeoutHandler := none
  task := false
  cancelled _ := false
  fire _ := .fresh
  old _ := none
  pc := .outside
  numCancelsRequested := 0
  done := false
  entryCount := 0
  deadlineCancels := []
  scopeUncancels := 0
  foundNone := false
  others := 0

theorem beginning_start : (machine Unit Nat Unit).start beginning := by
  refine ⟨rfl, rfl, rfl, ?_, ?_, ?_, rfl, rfl, rfl, rfl, rfl⟩ <;> intro _ <;> rfl

/-- The task enters the scope, and its deadline asks. -/
def expireRun : List (Act Unit Nat Unit) :=
  [.task none, .task none, .task none, .task none, .task none, .task (some 0), .run 0,
    .deadline 0]

def leaveRun : List (Act Unit Nat Unit) :=
  [.exit .nothing, .task none, .task none]

/-- `TaskAssigned`, decided. -/
def assignedOk (s : State Unit Nat Unit) : Act Unit Nat Unit → Bool
  | .deadline _ => !(s.scope = .entered : Bool) || s.task
  | _ => true

theorem assignedOk_sound (s : State Unit Nat Unit) (a : Act Unit Nat Unit)
    (ok : assignedOk s a = true) : TaskAssigned s a := by
  rintro ⟨h, rfl⟩ entered
  simpa [assignedOk, entered] using ok

theorem balancedRun_ends :
    ((machine Unit Nat Unit).execIf assignedOk beginning (expireRun ++ leaveRun)).any
      (fun s => s.pc.hasLeft ∧ s.scopeUncancels = 1 ∧ s.numCancelsRequested = 0) = true := by
  decide

theorem timeout_balance_left :
    ∃ s : State Unit Nat Unit, (machine Unit Nat Unit).Reach TaskAssigned s ∧
      s.scopeUncancels = s.deadlineCancels.length ∧ s.scopeUncancels = 1 := by
  obtain ⟨s, reached, holds⟩ :=
    Machine.Reach.exists_of_execIf assignedOk_sound beginning_start balancedRun_ends
  simp only [decide_eq_true_eq] at holds
  exact ⟨s, reached, ((timeout_balance reached).2.2 holds.1).1, holds.2.1⟩

/-- The count differs from the one at entry by what others did to it. -/
def Balanced (s : State W H P) : Prop :=
  s.pc.hasLeft = true →
    s.scopeUncancels = s.deadlineCancels.length ∧
      (s.numCancelsRequested : Int) = s.entryCount + s.others

theorem takenBackRun_ends :
    ((machine Unit Nat Unit).execIf assignedOk beginning
      (expireRun ++ [.uncancel] ++ leaveRun)).any
      (fun s => s.pc.hasLeft ∧ s.numCancelsRequested = 0 ∧ s.entryCount = 0 ∧ s.others = -1) =
      true := by
  decide

/-- Two calls of `reschedule` between the assignments of `_state` and `_task`,
the first of them with a handle that starts before it is cancelled. -/
def unassignedRun : List (Act Unit Nat Unit) :=
  [.task none, .task none, .reschedule () (some ()) (some 0), .run 0, .reschedule () none none,
    .deadline 0, .task none, .task none]

theorem unassignedRun_ends :
    ((machine Unit Nat Unit).exec beginning (unassignedRun ++ leaveRun)).any
      (fun s => s.pc.hasLeft ∧ s.scopeUncancels = 1 ∧ s.deadlineCancels = []) = true := by
  decide

/-- Others may take back the request of the deadline before `__aexit__` does,
and a deadline that comes between the two assignments of `__aenter__` makes none
for it to take back. -/
theorem not_balanced :
    (¬∀ s : State Unit Nat Unit, (machine Unit Nat Unit).Reach TaskAssigned s → Balanced s) ∧
      ¬∀ s : State Unit Nat Unit, (machine Unit Nat Unit).Reachable s →
        s.pc.hasLeft = true → s.scopeUncancels = s.deadlineCancels.length := by
  constructor
  · intro balanced
    obtain ⟨s, reached, holds⟩ :=
      Machine.Reach.exists_of_execIf assignedOk_sound beginning_start takenBackRun_ends
    simp only [decide_eq_true_eq] at holds
    obtain ⟨hasLeft, zero, entry, others⟩ := holds
    have equal := (balanced s reached hasLeft).2
    rw [zero, entry, others] at equal
    cases equal
  · intro balanced
    obtain ⟨s, reached, holds⟩ :=
      Machine.Reachable.exists_of_exec beginning_start unassignedRun_ends
    simp only [decide_eq_true_eq] at holds
    obtain ⟨hasLeft, one, none⟩ := holds
    have equal := balanced s reached hasLeft
    rw [one, none] at equal
    cases equal

end MtAsyncio.Timeouts
