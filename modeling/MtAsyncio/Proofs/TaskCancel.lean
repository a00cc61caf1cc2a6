/-
Module: MtAsyncio.Proofs.TaskCancel
Purpose: What a step of `Task.cancel` can do, and where a cancel request ends
  up.  A `cancel` that has read `_fut_waiter` acts on it later: when the task
  has gone on to another future by then, its second locked write leaves a
  request behind that nothing delivers.
Trusted boundary: none
Main exports: Kernel.CancelEffect, Settled, NoPendingCancel, Accepted, InTime,
  cancel_delivered, cancel_left_behind
-/
import Mathlib.Data.List.Chain
import MtAsyncio.Model.Requests

namespace MtAsyncio.Tasks

open Lib (Machine)

variable {T F C : Type} [DecidableEq T] [DecidableEq F] [DecidableEq C]

/-! ## One step of a `cancel` call -/

/-- The fields a step of the innermost `cancel` call of `c` touches. -/
structure CancelEffect (k : Kernel T F C) (c : C) (k' : Kernel T F C) : Prop where
  event : k'.event = k.event
  created : k'.created = k.created
  futWaiter : k'.futWaiter = k.futWaiter
  others : ∀ c', c' ≠ c → k'.calls c' = k.calls c'
  state : k'.state = k.state ∨ ∃ t f rest, k.calls c = (t, .futCancel (.fut f)) :: rest ∧
    k.state (.fut f) = .pending ∧ k'.state = Function.update k.state (.fut f) .cancelled
  must : k'.mustCancel = k.mustCancel ∨
    ∃ t pc rest, k.calls c = (t, pc) :: rest ∧ k'.mustCancel = Function.update k.mustCancel t true ∧
      (pc = .set ∨ pc = .read ∧ k.futWaiter t = none)
  /-- a frame that looks at a future is old, or has just read it -/
  frames : ∀ t r, (t, CancelPc.futCancel r) ∈ k'.calls c →
    (t, CancelPc.futCancel r) ∈ k.calls c ∨ k.futWaiter t = some r

omit [DecidableEq T] [DecidableEq F] in
theorem mem_returnTo {result : Bool} {t : T} {r : Ref T F} {rest : List (T × CancelPc T F)}
    (member : (t, CancelPc.futCancel r) ∈ returnTo result rest) :
    (t, CancelPc.futCancel r) ∈ rest := by
  cases rest with
  | nil => cases member
  | cons frame rest =>
      cases result with
      | true => cases member
      | false =>
          cases member with
          | tail _ member => exact List.mem_cons_of_mem _ member

theorem Kernel.cancelStep_effect {k k' : Kernel T F C} {c : C}
    (taken : k.cancelStep c = some k') : CancelEffect k c k' := by
  -- the frames below the innermost one are never rewritten to look at a future
  have below : ∀ {stack : List (T × CancelPc T F)} {g : Kernel T F C},
      (∀ t r, (t, CancelPc.futCancel r) ∈ stack →
        (t, CancelPc.futCancel r) ∈ k.calls c ∨ k.futWaiter t = some r) →
      ∀ t r, (t, CancelPc.futCancel r) ∈ (g.setCalls c stack).calls c →
        (t, CancelPc.futCancel r) ∈ k.calls c ∨ k.futWaiter t = some r := by
    intro stack g given t r member
    simp only [Kernel.setCalls, Function.update_self] at member
    exact given t r member
  have apart : ∀ {stack : List (T × CancelPc T F)} {g : Kernel T F C}, g.calls = k.calls →
      ∀ c', c' ≠ c → (g.setCalls c stack).calls c' = k.calls c' := by
    intro stack g same c' other
    simp only [Kernel.setCalls, Function.update_of_ne other, same]
  unfold Kernel.cancelStep at taken
  split at taken
  · cases taken
  · rename_i t rest stack
    cases taken
    split
    · refine ⟨rfl, rfl, rfl, apart rfl, .inl rfl, .inl rfl, below fun u r member => ?_⟩
      cases member with
      | tail _ member => exact .inl (stack ▸ List.mem_cons_of_mem _ member)
    · refine ⟨rfl, rfl, rfl, apart rfl, .inl rfl, .inl rfl, below fun u r member => ?_⟩
      exact .inl (stack ▸ List.mem_cons_of_mem _ (mem_returnTo member))
  · rename_i t rest stack
    cases taken
    refine ⟨rfl, rfl, rfl, apart rfl, .inl rfl, .inl rfl, below fun u r member => ?_⟩
    cases member with
    | tail _ member => exact .inl (stack ▸ List.mem_cons_of_mem _ member)
  · rename_i t rest stack
    split at taken <;> cases taken
    · rename_i waiter
      refine ⟨rfl, rfl, rfl, apart rfl, .inl rfl,
        .inr ⟨t, .read, rest, stack, rfl, .inr ⟨rfl, waiter⟩⟩, below fun u r member => ?_⟩
      exact .inl (stack ▸ List.mem_cons_of_mem _ (mem_returnTo member))
    · rename_i r waiter
      refine ⟨rfl, rfl, rfl, apart rfl, .inl rfl, .inl rfl, below fun u r' member => ?_⟩
      cases member with
      | head => exact .inr waiter
      | tail _ member => exact .inl (stack ▸ List.mem_cons_of_mem _ member)
  · rename_i t f rest stack
    split at taken <;> cases taken
    · rename_i pending
      refine ⟨rfl, rfl, rfl, apart rfl, .inr ⟨t, f, rest, stack, pending, rfl⟩, .inl rfl,
        below fun u r member => ?_⟩
      exact .inl (stack ▸ List.mem_cons_of_mem _ (mem_returnTo member))
    · refine ⟨rfl, rfl, rfl, apart rfl, .inl rfl, .inl rfl, below fun u r member => ?_⟩
      cases member with
      | tail _ member => exact .inl (stack ▸ List.mem_cons_of_mem _ member)
  · rename_i t u rest stack
    cases taken
    refine ⟨rfl, rfl, rfl, apart rfl, .inl rfl, .inl rfl, below fun v r member => ?_⟩
    cases member with
    | tail _ member => exact .inl (stack ▸ member)
  · rename_i t rest stack
    cases taken
    refine ⟨rfl, rfl, rfl, apart rfl, .inl rfl, .inr ⟨t, .set, rest, stack, rfl, .inl rfl⟩,
      below fun u r member => ?_⟩
    exact .inl (stack ▸ List.mem_cons_of_mem _ (mem_returnTo member))

omit [DecidableEq C] in
/-- No `cancel` completes a task: it only asks. -/
theorem CancelEffect.task {k k' : Kernel T F C} {c : C} (effect : CancelEffect k c k') (t : T) :
    k'.state (.task t) = k.state (.task t) := by
  rcases effect.state with same | ⟨u, f, rest, -, -, changed⟩
  · rw [same]
  · have other : Ref.task t ≠ .fut f := by simp
    rw [changed, Function.update_of_ne other]

/-- A call stands around the one it made. -/
def Chained (stack : List (T × CancelPc T F)) : Prop :=
  stack.IsChain fun inner outer => outer.2 = .futCancel (.task inner.1)

omit [DecidableEq T] [DecidableEq F] in
theorem Chained.next {t : T} {pc pc' : CancelPc T F} {rest : List (T × CancelPc T F)}
    (chained : Chained ((t, pc) :: rest)) : Chained ((t, pc') :: rest) := by
  cases rest with
  | nil => exact .singleton _
  | cons frame rest =>
      obtain ⟨made, inner⟩ := List.isChain_cons_cons.mp chained
      exact List.isChain_cons_cons.mpr ⟨made, inner⟩

omit [DecidableEq T] [DecidableEq F] in
theorem Chained.returned {result : Bool} {t : T} {pc : CancelPc T F}
    {rest : List (T × CancelPc T F)} (chained : Chained ((t, pc) :: rest)) :
    Chained (returnTo result rest) := by
  cases rest with
  | nil => exact .nil
  | cons frame rest =>
      cases result with
      | true => exact .nil
      | false => exact Chained.next (List.isChain_cons_cons.mp chained).2

theorem Kernel.cancelStep_chained {k k' : Kernel T F C} {c : C}
    (taken : k.cancelStep c = some k') (chained : Chained (k.calls c)) :
    Chained (k'.calls c) := by
  have set : ∀ {stack : List (T × CancelPc T F)} {g : Kernel T F C}, Chained stack →
      Chained ((g.setCalls c stack).calls c) := by
    intro stack g given
    simpa only [Kernel.setCalls, Function.update_self] using given
  unfold Kernel.cancelStep at taken
  split at taken
  · cases taken
  · rename_i t rest stack
    rw [stack] at chained
    cases taken
    split
    · exact set chained.next
    · exact set chained.returned
  · rename_i t rest stack
    rw [stack] at chained
    cases taken
    exact set chained.next
  · rename_i t rest stack
    rw [stack] at chained
    split at taken <;> cases taken
    · exact set chained.returned
    · exact set chained.next
  · rename_i t f rest stack
    rw [stack] at chained
    split at taken <;> cases taken
    · exact set chained.returned
    · exact set chained.next
  · rename_i t u rest stack
    rw [stack] at chained
    cases taken
    exact set (List.isChain_cons_cons.mpr ⟨rfl, chained⟩)
  · rename_i t rest stack
    rw [stack] at chained
    cases taken
    exact set chained.returned

/-! ## Where a task waits -/

/-- From the arming of `_fut_waiter` to its disarming. -/
def AwaitPc.parked : AwaitPc → Bool
  | .armed | .suspended | .disarm => true
  | _ => false

/-- The future `_fut_waiter` names while the task is at this counter. -/
def TaskPc.waitsOn : TaskPc T F → Option (Ref T F)
  | .awaiting r pc => if pc.parked then some r else none
  | _ => none

/-- What holds in every run, whatever the callers of `cancel` do. -/
structure Settled (s : State T F C) : Prop where
  fence : ∀ r, s.kernel.event r = true → s.kernel.state r ≠ .pending
  waiter : ∀ t, s.kernel.futWaiter t = (s.task t).waitsOn
  resumed : ∀ t r, s.task t = .awaiting r .disarm → s.kernel.state r ≠ .pending
  /-- a call that acts on a pending future acts on the one its task waits on -/
  frames : ∀ c t r, (t, CancelPc.futCancel r) ∈ s.kernel.calls c →
    s.kernel.state r = .pending → s.kernel.futWaiter t = some r
  chained : ∀ c, Chained (s.kernel.calls c)

omit [DecidableEq T] [DecidableEq F] [DecidableEq C] in
/-- A step that only completes futures, and the task counters with it. -/
theorem Settled.of_completed {s s' : State T F C} (settled : Settled s)
    (fence : ∀ r, s'.kernel.event r = true → s'.kernel.state r ≠ .pending)
    (completed : ∀ r, s'.kernel.state r = .pending → s.kernel.state r = .pending)
    (waiter : s'.kernel.futWaiter = s.kernel.futWaiter)
    (calls : s'.kernel.calls = s.kernel.calls) (task : s'.task = s.task) : Settled s' where
  fence := fence
  waiter := by
    intro t
    rw [waiter, task]
    exact settled.waiter t
  resumed := by
    intro t r at_ pending
    rw [task] at at_
    exact settled.resumed t r at_ (completed r pending)
  frames := by
    intro c t r member pending
    rw [calls] at member
    rw [waiter]
    exact settled.frames c t r member (completed r pending)
  chained := by
    rw [calls]
    exact settled.chained

omit [DecidableEq F] [DecidableEq C] in
/-- The move of one task: it may complete futures, and lets go of a future it
waited on only when that one is complete. -/
theorem Settled.setTask {s : State T F C} (settled : Settled s) {t : T} {k : Kernel T F C}
    {pc : TaskPc T F} (event : k.event = s.kernel.event)
    (completed : ∀ r, k.state r = .pending → s.kernel.state r = .pending)
    (calls : k.calls = s.kernel.calls)
    (others : ∀ u, u ≠ t → k.futWaiter u = s.kernel.futWaiter u)
    (own : k.futWaiter t = pc.waitsOn)
    (kept : ∀ r, s.kernel.futWaiter t = some r → k.state r = .pending → k.futWaiter t = some r)
    (resumed : ∀ r, pc = .awaiting r .disarm → k.state r ≠ .pending) :
    Settled (s.setTask t k pc) where
  fence := by
    intro r set pending
    simp only [State.setTask, event] at set
    exact settled.fence r set (completed r pending)
  waiter := by
    intro u
    by_cases self : u = t
    · subst self
      simp only [State.setTask, Function.update_self, own]
    · simp only [State.setTask, Function.update_of_ne self, others u self]
      exact settled.waiter u
  resumed := by
    intro u r at_ pending
    by_cases self : u = t
    · subst self
      simp only [State.setTask, Function.update_self] at at_
      exact resumed r at_ pending
    · simp only [State.setTask, Function.update_of_ne self] at at_
      exact settled.resumed u r at_ (completed r pending)
  frames := by
    intro c u r member pending
    simp only [State.setTask, calls] at member
    have before := settled.frames c u r member (completed r pending)
    by_cases self : u = t
    · subst self
      exact kept r before pending
    · simp only [State.setTask, others u self]
      exact before
  chained := by
    simp only [State.setTask, calls]
    exact settled.chained

omit [DecidableEq F] [DecidableEq C] in
/-- A move between counters where the task waits on nothing. -/
theorem Settled.move {s : State T F C} (settled : Settled s) {t : T} {k : Kernel T F C}
    {pc : TaskPc T F} (outside : (s.task t).waitsOn = none) (event : k.event = s.kernel.event)
    (completed : ∀ r, k.state r = .pending → s.kernel.state r = .pending)
    (waiter : k.futWaiter = s.kernel.futWaiter) (calls : k.calls = s.kernel.calls)
    (next : pc.waitsOn = none) : Settled (s.setTask t k pc) := by
  have free : k.futWaiter t = none := by rw [waiter, settled.waiter, outside]
  refine settled.setTask event completed calls (fun u _ => congrFun waiter u)
    (free.trans next.symm) (fun r held => ?_) (fun r at_ => ?_)
  · rw [settled.waiter, outside] at held
    cases held
  · rw [at_] at next
    cases next

theorem Settled.cancelStep {s : State T F C} (settled : Settled s) {c : C}
    {k' : Kernel T F C} (taken : s.kernel.cancelStep c = some k') :
    Settled { s with kernel := k' } := by
  have effect := Kernel.cancelStep_effect taken
  have completed : ∀ r, k'.state r = .pending → s.kernel.state r = .pending := by
    intro r pending
    rcases effect.state with same | ⟨t, f, rest, -, before, changed⟩
    · rw [same] at pending
      exact pending
    · by_cases self : r = .fut f
      · exact self ▸ before
      · rw [changed, Function.update_of_ne self] at pending
        exact pending
  constructor
  · intro r set pending
    rw [effect.event] at set
    exact settled.fence r set (completed r pending)
  · intro t
    rw [effect.futWaiter]
    exact settled.waiter t
  · intro t r at_ pending
    exact settled.resumed t r at_ (completed r pending)
  · intro c' t r member pending
    rw [effect.futWaiter]
    by_cases self : c' = c
    · subst self
      rcases effect.frames t r member with old | read
      · exact settled.frames c' t r old (completed r pending)
      · exact read
    · rw [effect.others c' self] at member
      exact settled.frames c' t r member (completed r pending)
  · intro c'
    by_cases self : c' = c
    · subst self
      exact Kernel.cancelStep_chained taken (settled.chained c')
    · simp only [effect.others c' self]
      exact settled.chained c'

/-- Steps of the surroundings. -/
theorem Settled.kernel {s : State T F C} (settled : Settled s) {a : KernelAct T F C}
    {k' : Kernel T F C} (taken : s.kernel.step a = some k') :
    Settled { s with kernel := k' } := by
  cases a with
  | complete f st =>
      simp only [Kernel.step] at taken
      split at taken <;> cases taken
      rename_i allowed
      have completed : ∀ r, (s.kernel.setState (.fut f) st).state r = .pending →
          s.kernel.state r = .pending := by
        intro r pending
        by_cases self : r = .fut f
        · exact self ▸ allowed.1
        · simpa only [Kernel.setState, Function.update_of_ne self] using pending
      exact settled.of_completed (fun r set pending => settled.fence r set (completed r pending))
        completed rfl rfl rfl
  | wake r =>
      simp only [Kernel.step] at taken
      split at taken <;> cases taken
      rename_i ended
      refine settled.of_completed (fun r' set => ?_) (fun _ => id) rfl rfl rfl
      by_cases self : r' = r
      · exact self ▸ ended
      · simp only [Function.update_of_ne self] at set
        exact settled.fence r' set
  | cancel c t =>
      simp only [Kernel.step] at taken
      split at taken <;> cases taken
      refine ⟨settled.fence, settled.waiter, settled.resumed, fun c' u r member => ?_,
        fun c' => ?_⟩
      · by_cases self : c' = c
        · subst self
          simp [Kernel.setCalls] at member
        · simp only [Kernel.setCalls, Function.update_of_ne self] at member
          exact settled.frames c' u r member
      · by_cases self : c' = c
        · subst self
          simp only [Kernel.setCalls, Function.update_self]
          exact .singleton _
        · simp only [Kernel.setCalls, Function.update_of_ne self]
          exact settled.chained c'
  | call c => exact settled.cancelStep taken

omit [DecidableEq F] [DecidableEq C] in
/-- An await touches `_must_cancel` and `_fut_waiter` of its own task only. -/
theorem awaitStep_frame {k k' : Kernel T F C} {t : T} {r : Ref T F} {pc : AwaitPc}
    {next : AwaitPc ⊕ Outcome} (taken : k.awaitStep t r pc = some (k', next)) :
    k'.state = k.state ∧ k'.event = k.event ∧ k'.created = k.created ∧ k'.calls = k.calls := by
  cases pc with
  | arm | ready | suspended =>
      simp only [Kernel.awaitStep] at taken
      split at taken <;> cases taken <;> exact ⟨rfl, rfl, rfl, rfl⟩
  | _ =>
      cases taken
      exact ⟨rfl, rfl, rfl, rfl⟩

omit [DecidableEq F] [DecidableEq C] in
/-- Steps of an await. -/
theorem Settled.awaitStep {s : State T F C} (settled : Settled s) {t : T} {r : Ref T F}
    {pc : AwaitPc} {k' : Kernel T F C} {next : AwaitPc ⊕ Outcome} (at_ : s.task t = .awaiting r pc)
    (taken : s.kernel.awaitStep t r pc = some (k', next)) :
    Settled (s.setTask t k' (.afterAwait r next)) := by
  have waiter := settled.waiter t
  rw [at_] at waiter
  cases pc with
  | test =>
      cases taken
      refine settled.move (by rw [at_]; rfl) rfl (fun _ => id) rfl rfl ?_
      cases s.kernel.event r <;> rfl
  | arm =>
      simp only [Kernel.awaitStep] at taken
      split at taken <;> cases taken
      · exact settled.move (by rw [at_]; rfl) rfl (fun _ => id) rfl rfl rfl
      · refine settled.setTask rfl (fun _ => id) rfl
          (fun u other => Function.update_of_ne other _ _) (Function.update_self ..)
          (fun r' held => ?_) (by rintro _ ⟨⟩)
        rw [waiter] at held
        cases held
  | armed =>
      cases taken
      exact settled.setTask rfl (fun _ => id) rfl (fun _ _ => rfl) waiter (fun _ held _ => held)
        (by rintro _ ⟨⟩)
  | suspended =>
      simp only [Kernel.awaitStep] at taken
      split at taken <;> cases taken
      rename_i set
      refine settled.setTask rfl (fun _ => id) rfl (fun _ _ => rfl) waiter (fun _ held _ => held)
        fun r' same => ?_
      cases same
      exact settled.fence r set
  | disarm =>
      cases taken
      refine settled.setTask rfl (fun _ => id) rfl
        (fun u other => Function.update_of_ne other _ _) (Function.update_self ..)
        (fun r' held pending => ?_) (by rintro _ ⟨⟩)
      -- the future it lets go of is complete
      rw [waiter] at held
      cases held
      exact absurd pending (settled.resumed t r at_)
  | ready =>
      simp only [Kernel.awaitStep] at taken
      split at taken <;> cases taken <;>
        exact settled.move (by rw [at_]; rfl) rfl (fun _ => id) rfl rfl rfl
  | read =>
      cases taken
      exact settled.move (by rw [at_]; rfl) rfl (fun _ => id) rfl rfl rfl

omit [DecidableEq C] in
theorem Kernel.settle_completed (k : Kernel T F C) (t : T) (ending : Ending) (r : Ref T F)
    (pending : (k.settle t ending).state r = .pending) : k.state r = .pending := by
  unfold Kernel.settle at pending
  split at pending
  · rename_i before
    by_cases self : r = .task t
    · exact self ▸ before
    · simpa only [Kernel.setState, Function.update_of_ne self] using pending
  · exact pending

omit [DecidableEq C] in
theorem Settled.task {s : State T F C} (settled : Settled s) {t : T} {k' : Kernel T F C}
    {pc' : TaskPc T F} (taken : taskStep s.kernel t (s.task t) = some (k', pc')) :
    Settled (s.setTask t k' pc') := by
  cases at_ : s.task t with
  | running =>
      rw [at_] at taken
      cases taken
  | awaiting r pc =>
      rw [at_] at taken
      obtain ⟨⟨k', next⟩, moved, same⟩ := Option.map_eq_some_iff.mp taken
      cases same
      exact settled.awaitStep at_ moved
  | uncancel pc =>
      rw [at_] at taken
      cases taken
      cases pc with
      | test | compare =>
          refine settled.move (by rw [at_]; rfl) rfl (fun _ => id) rfl rfl ?_
          dsimp only [Kernel.uncancelStep]
          split <;> rfl
      | decrement | clear => exact settled.move (by rw [at_]; rfl) rfl (fun _ => id) rfl rfl rfl
  | takeMust =>
      rw [at_] at taken
      cases taken
      exact settled.move (by rw [at_]; rfl) rfl (fun _ => id) rfl rfl rfl
  | settle ending =>
      rw [at_] at taken
      cases taken
      refine settled.move (by rw [at_]; rfl) ?_ (s.kernel.settle_completed t ending) ?_ ?_ rfl <;>
        (unfold Kernel.settle; split <;> rfl)
  | done =>
      rw [at_] at taken
      cases taken

theorem settled_step {s s' : State T F C} {a : Act T F C} (settled : Settled s)
    (taken : step s a = some s') : Settled s' := by
  cases a with
  | kernel a =>
      obtain ⟨k', moved, rfl⟩ := Option.map_eq_some_iff.mp taken
      exact settled.kernel moved
  | await t r =>
      simp only [step] at taken
      split at taken <;> cases taken
      rename_i at_
      exact settled.move (by rw [at_]; rfl) rfl (fun _ => id) rfl rfl rfl
  | uncancel t =>
      simp only [step] at taken
      split at taken <;> cases taken
      rename_i at_
      exact settled.move (by rw [at_]; rfl) rfl (fun _ => id) rfl rfl rfl
  | finish t ending =>
      simp only [step] at taken
      split at taken <;> cases taken
      rename_i at_
      refine settled.move (by rw [at_]; rfl) rfl (fun _ => id) rfl rfl ?_
      split <;> rfl
  | task t =>
      obtain ⟨⟨k', pc'⟩, moved, rfl⟩ := Option.map_eq_some_iff.mp taken
      exact settled.task moved

omit [DecidableEq T] [DecidableEq F] [DecidableEq C] in
theorem settled_start {s : State T F C} (start : Start s) : Settled s := by
  obtain ⟨⟨state, event, -, waiter, -, -, calls⟩, task⟩ := start
  constructor
  · intro r set
    rw [event] at set
    cases set
  · intro t
    rw [waiter, task]
    rfl
  · intro t r at_
    rw [task] at at_
    cases at_
  · intro c t r member
    rw [calls] at member
    cases member
  · intro c
    rw [calls]
    exact .nil

/-! ## Delivery -/

/-- No call is under way, and a task suspended on a pending future has no
request pending. -/
def NoPendingCancel (s : State T F C) : Prop :=
  (∀ c, s.kernel.calls c = []) → ∀ t r, s.task t = .awaiting r .suspended →
    s.kernel.state r = .pending → s.kernel.mustCancel t = false

/-- The request reached task `t`: it is pending with nothing in the way of its
next await, the future `t` waits on was cancelled, or the request reached the
task that `t` waits on. -/
inductive Accepted (k : Kernel T F C) : T → Prop where
  | must {t : T} (raised : k.mustCancel t = true)
      (free : ∀ r, k.futWaiter t = some r → k.state r ≠ .pending) : Accepted k t
  | fut {t : T} {f : F} (parked : k.futWaiter t = some (.fut f))
      (cancelled : k.state (.fut f) = .cancelled) : Accepted k t
  | task {t u : T} (parked : k.futWaiter t = some (.task u)) (inner : Accepted k u) :
      Accepted k t

/-- The await of `t` raises `CancelledError` for a pending request. -/
def Raises (s : State T F C) (a : Act T F C) (t : T) : Prop :=
  a = .task t ∧ ∃ r pc k', s.task t = .awaiting r pc ∧
    s.kernel.awaitStep t r pc = some (k', .inr .cancelled)

/-- The task withdraws the request by `uncancel`, or ends with it. -/
def Withdraws (s : State T F C) (a : Act T F C) (t : T) : Prop :=
  a = .task t ∧ (s.task t = .uncancel .clear ∨ s.task t = .takeMust)

/-- A call that returns `True` is in time: a task that gets the second locked
write has not parked on another pending future, and a task whose call was
passed on to the task it waited on still waits on that one. -/
def InTime (s : State T F C) (a : Act T F C) : Prop :=
  ∀ c t pc rest, a = .kernel (.call c) → s.kernel.calls c = (t, pc) :: rest →
    s.kernel.returnsTrue c = true →
    (pc = .set → ∀ r, s.kernel.futWaiter t = some r → s.kernel.state r ≠ .pending) ∧
      ∀ u v, (u, CancelPc.futCancel (.task v)) ∈ rest →
        s.kernel.futWaiter u = some (.task v)

omit [DecidableEq T] [DecidableEq F] [DecidableEq C] in
/-- The request of the innermost call reaches the tasks around it. -/
theorem accepted_outwards {k : Kernel T F C} {t : T} {pc : CancelPc T F}
    {rest : List (T × CancelPc T F)} (chained : Chained ((t, pc) :: rest))
    (inner : Accepted k t)
    (parked : ∀ u v, (u, CancelPc.futCancel (.task v)) ∈ rest → k.futWaiter u = some (.task v)) :
    ∀ frame ∈ (t, pc) :: rest, Accepted k frame.1 := by
  induction rest generalizing t pc with
  | nil =>
      intro frame member
      rw [List.mem_singleton] at member
      exact member ▸ inner
  | cons outer rest inductionHypothesis =>
      obtain ⟨u, outerPc⟩ := outer
      obtain ⟨made, chained⟩ := List.isChain_cons_cons.mp chained
      cases made
      have waits := parked u t List.mem_cons_self
      intro frame member
      rcases List.mem_cons.mp member with rfl | member
      · exact inner
      · exact inductionHypothesis chained (.task waits inner)
          (fun u' v' member' => parked u' v' (List.mem_cons_of_mem _ member')) frame member

/-- A call that returns `True` in time has reached its task. -/
theorem accepted_of_returns {s : State T F C} (settled : Settled s) {c : C}
    {k' : Kernel T F C} (inTime : InTime s (.kernel (.call c)))
    (returns : s.kernel.returnsTrue c = true) (taken : s.kernel.cancelStep c = some k') :
    ∀ frame ∈ s.kernel.calls c, Accepted k' frame.1 := by
  have effect := Kernel.cancelStep_effect taken
  have chained := settled.chained c
  cases stack : s.kernel.calls c with
  | nil => simp
  | cons frame rest =>
      obtain ⟨t, pc⟩ := frame
      obtain ⟨late, passed⟩ := inTime c t pc rest rfl stack returns
      rw [stack] at chained
      refine accepted_outwards chained ?_ fun u v member => by
        rw [effect.futWaiter]
        exact passed u v member
      simp only [Kernel.returnsTrue, stack] at returns
      simp only [Kernel.cancelStep, stack] at taken
      cases pc with
      | done => cases returns
      | count => cases returns
      | read =>
          rw [Option.isNone_iff_eq_none] at returns
          simp only [returns] at taken
          cases taken
          refine .must (Function.update_self ..) fun r waits => ?_
          rw [effect.futWaiter, returns] at waits
          cases waits
      | futCancel r =>
          cases r with
          | fut f =>
              have returns : s.kernel.state (.fut f) = .pending := of_decide_eq_true returns
              simp only [returns, if_true] at taken
              cases taken
              have waits := settled.frames c t (.fut f) (by rw [stack]; exact List.mem_cons_self)
                returns
              exact .fut waits (Function.update_self ..)
          | task u => cases returns
      | set =>
          cases taken
          exact .must (Function.update_self ..) (late rfl)

omit [DecidableEq C] in
/-- A task moves its own request and its own `_fut_waiter` only. -/
theorem taskStep_others {k k' : Kernel T F C} {t u : T} {pc pc' : TaskPc T F}
    (taken : taskStep k u pc = some (k', pc')) (other : t ≠ u) :
    k'.mustCancel t = k.mustCancel t ∧ k'.futWaiter t = k.futWaiter t := by
  cases pc with
  | running => cases taken
  | awaiting r pc =>
      obtain ⟨⟨k', next⟩, moved, same⟩ := Option.map_eq_some_iff.mp taken
      cases same
      cases pc with
      | arm | ready | suspended =>
          simp only [Kernel.awaitStep] at moved
          split at moved <;> cases moved <;>
            simp [Kernel.setMust, Kernel.setWaiter, Function.update_of_ne other]
      | _ =>
          cases moved
          simp [Kernel.setWaiter, Function.update_of_ne other]
  | uncancel pc =>
      cases taken
      cases pc <;> simp [Kernel.uncancelStep, Kernel.addCancels, Kernel.setMust,
        Function.update_of_ne other]
  | takeMust =>
      cases taken
      simp [Kernel.takeMust, Kernel.setMust, Function.update_of_ne other]
  | settle ending =>
      cases taken
      unfold Kernel.settle
      split <;> exact ⟨rfl, rfl⟩
  | done => cases taken

omit [DecidableEq C] in
/-- With its own request pending a task does not park. -/
theorem must_lasts_own {s : State T F C} {t : T} {k' : Kernel T F C} {pc' : TaskPc T F}
    (must : s.kernel.mustCancel t = true)
    (taken : taskStep s.kernel t (s.task t) = some (k', pc')) :
    (k'.mustCancel t = true ∧ ∀ r, k'.futWaiter t = some r → s.kernel.futWaiter t = some r) ∨
      Raises s (.task t) t ∨ Withdraws s (.task t) t := by
  cases at_ : s.task t with
  | running =>
      rw [at_] at taken
      cases taken
  | awaiting r pc =>
      rw [at_] at taken
      obtain ⟨⟨k', next⟩, moved, same⟩ := Option.map_eq_some_iff.mp taken
      cases same
      cases pc with
      | arm =>
          refine .inr (.inl ⟨rfl, r, .arm, s.kernel.setMust t false, at_, ?_⟩)
          simp only [Kernel.awaitStep, must, if_true]
      | ready =>
          refine .inr (.inl ⟨rfl, r, .ready, s.kernel.setMust t false, at_, ?_⟩)
          simp only [Kernel.awaitStep, must, if_true]
      | suspended =>
          simp only [Kernel.awaitStep] at moved
          split at moved <;> cases moved
          exact .inl ⟨must, fun _ => id⟩
      | disarm =>
          cases moved
          refine .inl ⟨must, fun r' waits => ?_⟩
          simp [Kernel.setWaiter] at waits
      | test | armed | read =>
          cases moved
          exact .inl ⟨must, fun _ => id⟩
  | uncancel pc =>
      rw [at_] at taken
      cases taken
      cases pc with
      | clear => exact .inr (.inr ⟨rfl, .inl at_⟩)
      | _ => exact .inl ⟨must, fun _ => id⟩
  | takeMust => exact .inr (.inr ⟨rfl, .inr at_⟩)
  | settle ending =>
      rw [at_] at taken
      cases taken
      unfold Kernel.settle
      split <;> exact .inl ⟨must, fun _ => id⟩
  | done =>
      rw [at_] at taken
      cases taken

/-- A pending request keeps its task from parking until it is raised or
withdrawn. -/
theorem must_lasts {s s' : State T F C} {a : Act T F C} {t : T}
    (must : s.kernel.mustCancel t = true) (taken : step s a = some s') :
    (s'.kernel.mustCancel t = true ∧
        ∀ r, s'.kernel.futWaiter t = some r → s.kernel.futWaiter t = some r) ∨
      Raises s a t ∨ Withdraws s a t := by
  have same : s'.kernel.mustCancel = s.kernel.mustCancel →
      s'.kernel.futWaiter = s.kernel.futWaiter → s'.kernel.mustCancel t = true ∧
        ∀ r, s'.kernel.futWaiter t = some r → s.kernel.futWaiter t = some r := by
    intro musts waiters
    rw [musts, waiters]
    exact ⟨must, fun _ => id⟩
  cases a with
  | kernel a =>
      obtain ⟨k', moved, rfl⟩ := Option.map_eq_some_iff.mp taken
      cases a with
      | complete f st =>
          simp only [Kernel.step] at moved
          split at moved <;> cases moved
          exact .inl (same rfl rfl)
      | wake r =>
          simp only [Kernel.step] at moved
          split at moved <;> cases moved
          exact .inl (same rfl rfl)
      | cancel c u =>
          simp only [Kernel.step] at moved
          split at moved <;> cases moved
          exact .inl (same rfl rfl)
      | call c =>
          have effect := Kernel.cancelStep_effect moved
          refine .inl ⟨?_, by simp only [effect.futWaiter]; exact fun _ => id⟩
          rcases effect.must with musts | ⟨u, pc, rest, -, musts, -⟩
          · simp only [musts, must]
          · simp only [musts]
            by_cases self : t = u
            · rw [self, Function.update_self]
            · rw [Function.update_of_ne self, must]
  | await u r =>
      simp only [step] at taken
      split at taken <;> cases taken
      exact .inl (same rfl rfl)
  | uncancel u =>
      simp only [step] at taken
      split at taken <;> cases taken
      exact .inl (same rfl rfl)
  | finish u ending =>
      simp only [step] at taken
      split at taken <;> cases taken
      exact .inl (same rfl rfl)
  | task u =>
      obtain ⟨⟨k', pc'⟩, moved, rfl⟩ := Option.map_eq_some_iff.mp taken
      by_cases self : t = u
      · subst self
        exact must_lasts_own must moved
      · obtain ⟨musts, waiters⟩ := taskStep_others moved self
        simp only [State.setTask, musts, waiters]
        exact .inl ⟨must, fun _ => id⟩

/-- No request is pending for a task that waits on a pending future. -/
def Quiet (k : Kernel T F C) : Prop :=
  ∀ t r, k.futWaiter t = some r → k.state r = .pending → k.mustCancel t = false

theorem quiet_of_cancelStep {s : State T F C} (quiet : Quiet s.kernel) {c : C}
    {k' : Kernel T F C} (inTime : InTime s (.kernel (.call c)))
    (taken : s.kernel.cancelStep c = some k') : Quiet k' := by
  have effect := Kernel.cancelStep_effect taken
  intro t r waits pending
  rw [effect.futWaiter] at waits
  have before : s.kernel.state r = .pending := by
    rcases effect.state with same | ⟨u, f, rest, -, before, changed⟩
    · rwa [same] at pending
    · by_cases self : r = .fut f
      · exact self ▸ before
      · rwa [changed, Function.update_of_ne self] at pending
  rcases effect.must with same | ⟨u, pc, rest, stack, changed, how⟩
  · rw [same]
    exact quiet t r waits before
  · by_cases self : t = u
    · -- the task that gets the request waits on nothing that is pending
      subst self
      rcases how with rfl | ⟨-, free⟩
      · have returns : s.kernel.returnsTrue c = true := by simp only [Kernel.returnsTrue, stack]
        exact absurd before ((inTime c t .set rest rfl stack returns).1 rfl r waits)
      · rw [free] at waits
        cases waits
    · rw [changed, Function.update_of_ne self]
      exact quiet t r waits before

omit [DecidableEq F] [DecidableEq C] in
theorem Quiet.setMust_false {k : Kernel T F C} (quiet : Quiet k) (t : T) :
    Quiet (k.setMust t false) := by
  intro u r waits pending
  by_cases self : u = t
  · simp [Kernel.setMust, self]
  · simp only [Kernel.setMust, Function.update_of_ne self]
    exact quiet u r waits pending

omit [DecidableEq T] [DecidableEq F] [DecidableEq C] in
theorem quiet_of_same {k k' : Kernel T F C} (quiet : Quiet k)
    (waiter : k'.futWaiter = k.futWaiter) (must : k'.mustCancel = k.mustCancel)
    (completed : ∀ r, k'.state r = .pending → k.state r = .pending) : Quiet k' := by
  intro t r waits pending
  rw [waiter] at waits
  rw [must]
  exact quiet t r waits (completed r pending)

omit [DecidableEq F] [DecidableEq C] in
theorem quiet_of_awaitStep {k k' : Kernel T F C} (quiet : Quiet k) {t : T} {r : Ref T F}
    {pc : AwaitPc} {next : AwaitPc ⊕ Outcome} (taken : k.awaitStep t r pc = some (k', next)) :
    Quiet k' := by
  cases pc with
  | arm =>
      simp only [Kernel.awaitStep] at taken
      split at taken <;> cases taken
      · exact quiet.setMust_false t
      · rename_i free
        intro u r' waits pending
        by_cases self : u = t
        · rw [self]
          exact Bool.not_eq_true _ ▸ free
        · simp only [Kernel.setWaiter, Function.update_of_ne self] at waits
          exact quiet u r' waits pending
  | ready =>
      simp only [Kernel.awaitStep] at taken
      split at taken <;> cases taken
      · exact quiet.setMust_false t
      · exact quiet
  | suspended =>
      simp only [Kernel.awaitStep] at taken
      split at taken <;> cases taken
      exact quiet
  | disarm =>
      cases taken
      intro u r' waits pending
      by_cases self : u = t
      · simp [Kernel.setWaiter, self] at waits
      · simp only [Kernel.setWaiter, Function.update_of_ne self] at waits
        exact quiet u r' waits pending
  | test | armed | read =>
      cases taken
      exact quiet

theorem quiet_step {s s' : State T F C} {a : Act T F C} (quiet : Quiet s.kernel)
    (inTime : InTime s a) (taken : step s a = some s') : Quiet s'.kernel := by
  cases a with
  | kernel a =>
      obtain ⟨k', moved, rfl⟩ := Option.map_eq_some_iff.mp taken
      cases a with
      | complete f st =>
          simp only [Kernel.step] at moved
          split at moved <;> cases moved
          rename_i allowed
          refine quiet_of_same quiet rfl rfl fun r pending => ?_
          by_cases self : r = .fut f
          · exact self ▸ allowed.1
          · simpa only [Kernel.setState, Function.update_of_ne self] using pending
      | wake r =>
          simp only [Kernel.step] at moved
          split at moved <;> cases moved
          exact quiet_of_same quiet rfl rfl fun _ => id
      | cancel c u =>
          simp only [Kernel.step] at moved
          split at moved <;> cases moved
          exact quiet_of_same quiet rfl rfl fun _ => id
      | call c => exact quiet_of_cancelStep quiet inTime moved
  | await u r =>
      simp only [step] at taken
      split at taken <;> cases taken
      exact quiet
  | uncancel u =>
      simp only [step] at taken
      split at taken <;> cases taken
      exact quiet
  | finish u ending =>
      simp only [step] at taken
      split at taken <;> cases taken
      exact quiet
  | task u =>
      obtain ⟨⟨k', pc'⟩, moved, rfl⟩ := Option.map_eq_some_iff.mp taken
      cases at_ : s.task u with
      | running =>
          rw [at_] at moved
          cases moved
      | awaiting r pc =>
          rw [at_] at moved
          obtain ⟨⟨k', next⟩, awaited, same⟩ := Option.map_eq_some_iff.mp moved
          cases same
          exact quiet_of_awaitStep quiet awaited
      | uncancel pc =>
          rw [at_] at moved
          cases moved
          cases pc with
          | clear => exact quiet.setMust_false u
          | _ => exact quiet_of_same quiet rfl rfl fun _ => id
      | takeMust =>
          rw [at_] at moved
          cases moved
          exact quiet.setMust_false u
      | settle ending =>
          rw [at_] at moved
          cases moved
          refine quiet_of_same quiet ?_ ?_ (s.kernel.settle_completed u ending) <;>
            (simp only [State.setTask]; unfold Kernel.settle; split <;> rfl)
      | done =>
          rw [at_] at moved
          cases moved

/-- In every run whose calls return in time: a task suspended on a pending
future has no request pending, a call that returns `True` has reached its task,
and a pending request keeps the task from parking until it is raised or
withdrawn. -/
theorem cancel_delivered {s : State T F C} (reached : (machine T F C).Reach InTime s) :
    NoPendingCancel s ∧ ∀ a s', InTime s a → step s a = some s' →
      (∀ c, a = .kernel (.call c) → s.kernel.returnsTrue c = true →
        ∀ frame ∈ s.kernel.calls c, Accepted s'.kernel frame.1) ∧
      ∀ t, s.kernel.mustCancel t = true →
        (s'.kernel.mustCancel t = true ∧
            ∀ r, s'.kernel.futWaiter t = some r → s.kernel.futWaiter t = some r) ∨
          Raises s a t ∨ Withdraws s a t := by
  obtain ⟨settled, quiet⟩ := Machine.Reach.invariant (fun s => Settled s ∧ Quiet s.kernel)
    (fun s (start : Start s) => ⟨settled_start start, fun t r _ _ => start.1.2.2.2.2.1 t⟩)
    (fun s a s' before inTime taken =>
      ⟨settled_step before.1 taken, quiet_step before.2 inTime taken⟩) reached
  refine ⟨fun _ t r at_ pending => ?_, fun a s' inTime taken => ⟨?_, fun t must => ?_⟩⟩
  · refine quiet t r ?_ pending
    rw [settled.waiter, at_]
    rfl
  · rintro c rfl returns
    obtain ⟨k', moved, rfl⟩ := Option.map_eq_some_iff.mp taken
    exact accepted_of_returns settled inTime returns moved
  · exact must_lasts must taken

/-! ## Runs -/

/-- No future is complete and every task is in its body. -/
def freshState (T F C : Type) : State T F C where
  kernel :=
    { state := fun _ => .pending
      event := fun _ => false
      created := fun _ => false
      futWaiter := fun _ => none
      mustCancel := fun _ => false
      numCancelsRequested := fun _ => 0
      calls := fun _ => [] }
  task := fun _ => .running

omit [DecidableEq T] [DecidableEq F] [DecidableEq C] in
theorem freshState_start : Start (freshState T F C) :=
  ⟨⟨fun _ => rfl, fun _ => rfl, fun _ => rfl, fun _ => rfl, fun _ => rfl, fun _ => rfl,
    fun _ => rfl⟩, fun _ => rfl⟩

/-- The call reads the first future; the task is resumed and parks on the
second one before the call goes on. -/
def lateRun : List (Act Nat Nat Unit) :=
  [.await 0 (.fut 0), .task 0, .task 0, .task 0,
    .kernel (.cancel () 0), .kernel (.call ()), .kernel (.call ()), .kernel (.call ()),
    .kernel (.complete 0 .finished), .kernel (.wake (.fut 0)),
    .task 0, .task 0, .task 0,
    .await 0 (.fut 1), .task 0, .task 0, .task 0,
    .kernel (.call ()), .kernel (.call ())]

theorem lateRun_ends :
    ((machine Nat Nat Unit).exec (freshState _ _ _) lateRun).any
      (fun s => s.kernel.calls () = [] ∧ s.task 0 = .awaiting (.fut 1) .suspended ∧
        s.kernel.state (.fut 1) = .pending ∧ s.kernel.mustCancel 0 = true) = true := by
  decide +kernel

theorem cancel_left_behind :
    ¬ ∀ s : State Nat Nat Unit,
      (machine Nat Nat Unit).Reachable s → NoPendingCancel s := by
  intro never
  obtain ⟨s, reached, ends⟩ :=
    Machine.Reachable.exists_of_exec freshState_start lateRun_ends
  obtain ⟨calls, at_, pending, must⟩ := of_decide_eq_true ends
  have idle : ∀ c, s.kernel.calls c = [] := fun _ => calls
  rw [never s reached idle 0 _ at_ pending] at must
  cases must

/-- A decidable part of `InTime`: single calls, and no second locked write on a
task that waits. -/
def prompt (s : State T F C) : Act T F C → Bool
  | .kernel (.call c) =>
      match s.kernel.calls c with
      | [(t, .set)] => (s.kernel.futWaiter t).isNone
      | [_] => true
      | _ => false
  | _ => true

omit [DecidableEq T] [DecidableEq F] [DecidableEq C] in
theorem inTime_of_prompt (s : State T F C) (a : Act T F C) (checked : prompt s a = true) :
    InTime s a := by
  rintro c t pc rest rfl stack -
  simp only [prompt, stack] at checked
  cases rest with
  | nil =>
      refine ⟨?_, by simp⟩
      rintro rfl r waits
      simp [waits] at checked
  | cons outer rest => simp at checked

/-- The call finds the future complete and the task back in its body; the
request waits for the next await. -/
def promptRun : List (Act Nat Nat Unit) :=
  [.await 0 (.fut 0), .task 0, .task 0, .task 0,
    .kernel (.cancel () 0), .kernel (.call ()), .kernel (.call ()), .kernel (.call ()),
    .kernel (.complete 0 .finished), .kernel (.wake (.fut 0)),
    .task 0, .task 0, .task 0, .kernel (.call ()), .kernel (.call ()), .await 0 (.fut 1), .task 0]

theorem promptRun_ends :
    ((machine Nat Nat Unit).execIf prompt (freshState _ _ _) promptRun).any
      (fun s => s.kernel.mustCancel 0 = true ∧ s.task 0 = .awaiting (.fut 1) .arm) = true := by
  decide +kernel

theorem cancel_delivered_at_next_await :
    ∃ s : State Nat Nat Unit, s.kernel.mustCancel 0 = true ∧
      s.task 0 = .awaiting (.fut 1) .arm ∧ NoPendingCancel s := by
  obtain ⟨s, reached, ends⟩ :=
    Machine.Reach.exists_of_execIf inTime_of_prompt freshState_start promptRun_ends
  obtain ⟨must, at_⟩ := of_decide_eq_true ends
  exact ⟨s, must, at_, (cancel_delivered reached).1⟩

end MtAsyncio.Tasks
