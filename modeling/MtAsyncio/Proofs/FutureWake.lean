/-
Module: MtAsyncio.Proofs.FutureWake
Purpose: The wake of a `Future` is in exactly one place: due while the future is
  pending, carried by the thread that won, being told to the watchers, or done.
Trusted boundary: none
Main exports: Spot, spots, ThreadMove, threadStep_move, Woken, woken_step
-/
import Mathlib.Data.List.Count
import MtAsyncio.Lib.Places
import MtAsyncio.Model.Futures

namespace MtAsyncio.Futures

open Lib (Machine Once)
open Wakes (Region)

variable {T W V X C M G K : Type}

/-! ## The wake of the future -/

def Wake.isSet : Wake G K → Bool
  | .set => true
  | .soon _ => false

/-- How often `event.set()` is still to be called. -/
def sets (wakes : List (Wake G K)) : Nat :=
  wakes.countP Wake.isSet

theorem sets_cons (rest : List (Wake G K)) : sets (.set :: rest) = sets rest + 1 := by
  rw [sets, List.countP_cons]
  rfl

def After.sets : After G K → Nat
  | .callbacks _ _ => 0
  | .flush rest => Futures.sets rest

namespace Pc

def sets : Pc V X M G K → Nat
  | .wake _ _ => 1
  | .notify after | .drain after => after.sets
  | .flush rest => Futures.sets rest
  | _ => 0

/-- `event.set()` has flipped the flag and not returned yet. -/
def notifying : Pc V X M G K → Bool
  | .notify _ | .drain _ => true
  | _ => false

/-- Nothing of the wake is with a thread that stands here. -/
def plain : Pc V X M G K → Bool
  | .idle | .complete _ | .add _ _ | .soon _ | .remove _ => true
  | _ => false

/-- The call has completed the future. -/
def winning : Pc V X M G K → Bool
  | .wake _ _ | .notify (.callbacks _ _) | .drain (.callbacks _ _) | .runCallbacks _ _ => true
  | _ => false

end Pc

theorem After.pc_sets (after : After G K) : (after.pc : Pc V X M G K).sets = after.sets := by
  cases after <;> rfl

theorem After.pc_notifying (after : After G K) : (after.pc : Pc V X M G K).notifying = false := by
  cases after <;> rfl

/-- Where the wake of the future can be. -/
inductive Spot (T : Type) where
  | due
  | carried (t : T)
  | given (t : T)
  | done

/-- The flag is set and every watcher of before has been woken. -/
def Woke (s : State T W V X M G K) : Prop :=
  s.flag = true ∧ ∀ t, (s.pc t).notifying = false

open Classical in
/-- How often the wake of the future is in each place. -/
noncomputable def spots (s : State T W V X M G K) : Spot T → Nat
  | .due => if s.fut.state = .pending then 1 else 0
  | .carried t => (s.pc t).sets + sets (s.region t).pending
  | .given t => if (s.pc t).notifying then 1 else 0
  | .done => if Woke s then 1 else 0

/-- The result that a completion gives to those who wait. -/
def Completion.outcome : Completion V X M → Outcome V X M
  | .result value => .returned (some value)
  | .exception raised => .raised raised
  | .cancel message => .cancelled message

/-- The wake is in one place, and the winner is known by it. -/
structure Woken (s : State T W V X M G K) : Prop where
  once : Once (spots s)
  wins : s.fut.state = .pending ∧ s.wins = [] ∧ s.fut.exception = none ∨
    s.fut.state ≠ .pending ∧ ∃ win, s.wins = [win] ∧ s.fut.read = win.op.outcome
  telling : ∀ t, (s.pc t).notifying = true → s.flag = true
  winner : ∀ t, (s.pc t).winning = true → ∃ win, s.wins = [win] ∧ win.thread = t
  deferred : ∀ t reply callbacks, s.pc t = .wake reply callbacks → ∀ win ∈ s.wins,
    win.deferred = !(s.region t).wakesNow
  ran : ∀ t reply rest, s.pc t = .runCallbacks reply rest → ∀ win ∈ s.wins,
    win.deferred = false → Woke s
  returned : s.returned = true → s.wins ≠ [] ∧ ∀ win ∈ s.wins, win.deferred = false → Woke s

section Steps

variable [DecidableEq T] {s s' : State T W V X M G K} {t : T}

/-- What one step of a thread can do. -/
inductive ThreadMove [DecidableEq W] [DecidableEq G] (s : State T W V X M G K) (t : T) :
    State T W V X M G K → Prop where
  | completed {op : Completion V X M} (at_ : s.pc t = .complete op)
      (pending : s.fut.state = .pending) :
      ThreadMove s t ({ s with
        fut := s.fut.complete op
        wins := s.wins ++ [Win.mk t op !(s.region t).wakesNow] }.goto t
          (.wake op.won s.fut.callbacks))
  | lost {op : Completion V X M} (at_ : s.pc t = .complete op) (done : s.fut.state ≠ .pending) :
      ThreadMove s t (s.answer t op.lost)
  | woke {reply : Reply} {callbacks : List (Entry G K)} (at_ : s.pc t = .wake reply callbacks) :
      ThreadMove s t (s.set t (.callbacks reply callbacks))
  | collected {reply : Reply} {callbacks : List (Entry G K)} (at_ : s.pc t = .wake reply callbacks)
      (inside : (s.region t).wakesNow = false) :
      ThreadMove s t ((s.setRegion t ((s.region t).append .set)).goto t
        (.runCallbacks reply callbacks))
  | notified {after : After G K} (at_ : s.pc t = .notify after) (free : s.guard = none) :
      ThreadMove s t ({ s with guard := some (.thread t) }.goto t (.drain after))
  | drained {after : After G K} (at_ : s.pc t = .drain after) (empty : s.watchers = []) :
      ThreadMove s t ({ s with guard := none }.goto t after.pc)
  | told {after : After G K} {w : W} {rest : List W} (at_ : s.pc t = .drain after)
      (filled : s.watchers = w :: rest) :
      ThreadMove s t ({ s with watchers := rest }.setTask w .runnable)
  | returned {reply : Reply} (at_ : s.pc t = .runCallbacks reply []) :
      ThreadMove s t ({ s with returned := true }.answer t reply)
  | scheduled {reply : Reply} {entry : Entry G K} {rest : List (Entry G K)}
      (at_ : s.pc t = .runCallbacks reply (entry :: rest)) :
      ThreadMove s t ((s.callSoon t entry).goto t (.runCallbacks reply rest))
  | added {fn : G} {context : K} (at_ : s.pc t = .add fn context)
      (pending : s.fut.state = .pending) :
      ThreadMove s t ({ s with
        fut := { s.fut with callbacks := s.fut.callbacks ++ [Entry.mk fn context s.issued] }
        issued := s.issued + 1 }.answer t .none_)
  | late {fn : G} {context : K} (at_ : s.pc t = .add fn context) (done : s.fut.state ≠ .pending) :
      ThreadMove s t ({ s with issued := s.issued + 1 }.goto t (.soon ⟨fn, context, s.issued⟩))
  | queued {entry : Entry G K} (at_ : s.pc t = .soon entry) :
      ThreadMove s t ((s.callSoon t entry).answer t .none_)
  | removed {fn : G} (at_ : s.pc t = .remove fn) : ThreadMove s t (removeStep s t fn)
  | flushed (at_ : s.pc t = .flush []) : ThreadMove s t (s.goto t .idle)
  | flushedSet {rest : List (Wake G K)} (at_ : s.pc t = .flush (.set :: rest)) :
      ThreadMove s t (s.set t (.flush rest))
  | flushedSoon {entry : Entry G K} {rest : List (Wake G K)}
      (at_ : s.pc t = .flush (.soon entry :: rest)) :
      ThreadMove s t ({ s with queue := s.queue ++ [entry] }.goto t (.flush rest))

theorem threadStep_move [DecidableEq W] [DecidableEq G] (taken : threadStep s t = some s') :
    ThreadMove s t s' := by
  cases at_ : s.pc t with
  | idle =>
      simp only [threadStep, at_] at taken
      cases taken
  | complete op =>
      simp only [threadStep, at_, completeStep] at taken
      cases taken
      split
      · rename_i pending
        exact .completed at_ pending
      · rename_i done
        exact .lost at_ done
  | wake reply callbacks =>
      simp only [threadStep, at_] at taken
      cases taken
      split
      · exact .woke at_
      · rename_i inside
        exact .collected at_ (by simpa using inside)
  | notify after =>
      simp only [threadStep, at_] at taken
      split at taken <;> cases taken
      rename_i free
      exact .notified at_ free
  | drain after =>
      simp only [threadStep, at_] at taken
      split at taken <;> cases taken
      · rename_i empty
        exact .drained at_ empty
      · rename_i filled
        exact .told at_ filled
  | runCallbacks reply rest =>
      cases rest with
      | nil =>
          simp only [threadStep, at_] at taken
          cases taken
          exact .returned at_
      | cons entry rest =>
          simp only [threadStep, at_] at taken
          cases taken
          exact .scheduled at_
  | add fn context =>
      simp only [threadStep, at_, addStep] at taken
      cases taken
      split
      · rename_i pending
        exact .added at_ pending
      · rename_i done
        exact .late at_ done
  | soon entry =>
      simp only [threadStep, at_] at taken
      cases taken
      exact .queued at_
  | remove fn =>
      simp only [threadStep, at_] at taken
      cases taken
      exact .removed at_
  | flush rest =>
      cases rest with
      | nil =>
          simp only [threadStep, at_] at taken
          cases taken
          exact .flushed at_
      | cons wake rest =>
          cases wake with
          | set =>
              simp only [threadStep, at_] at taken
              cases taken
              exact .flushedSet at_
          | soon entry =>
              simp only [threadStep, at_] at taken
              cases taken
              exact .flushedSoon at_

omit [DecidableEq T] in
/-- A set flag is being told to the watchers, or has been. -/
theorem spots_of_flag (flag : s.flag = true) :
    ∃ p, spots s p ≠ 0 ∧ p ≠ .due ∧ ∀ u, p ≠ .carried u := by
  by_cases quiet : ∀ u, (s.pc u).notifying = false
  · refine ⟨.done, ?_, by rintro ⟨⟩, by rintro u ⟨⟩⟩
    rw [spots, if_pos ⟨flag, quiet⟩]
    exact Nat.one_ne_zero
  · obtain ⟨u, gives⟩ := not_forall.mp quiet
    refine ⟨.given u, ?_, by rintro ⟨⟩, by rintro v ⟨⟩⟩
    rw [spots, if_pos (by simpa using gives)]
    exact Nat.one_ne_zero

omit [DecidableEq T] in
/-- The flag is set only when the future is done. -/
theorem Woken.done_of_flag (woken : Woken s) (flag : s.flag = true) : s.fut.state ≠ .pending := by
  intro pending
  obtain ⟨p, here, notDue, -⟩ := spots_of_flag flag
  have zero := woken.once.apart here notDue.symm
  rw [spots, if_pos pending] at zero
  cases zero

omit [DecidableEq T] in
theorem Woken.flag_clear (woken : Woken s) (carries : spots s (.carried t) ≠ 0) :
    s.flag = false := by
  by_contra set
  obtain ⟨p, here, -, notCarried⟩ := spots_of_flag (by simpa using set)
  exact carries (woken.once.apart here (notCarried t).symm)

/-- Only one thread moves, and it keeps what it has of the wake. -/
theorem spots_same (state : s'.fut.state = s.fut.state) (flag : s'.flag = s.flag)
    (others : ∀ u, u ≠ t → s'.pc u = s.pc u ∧ s'.region u = s.region u)
    (notifying : (s'.pc t).notifying = (s.pc t).notifying)
    (carried : (s'.pc t).sets + sets (s'.region t).pending =
      (s.pc t).sets + sets (s.region t).pending) (p : Spot T) : spots s' p = spots s p := by
  have told : ∀ u, (s'.pc u).notifying = (s.pc u).notifying := by
    intro u
    by_cases self : u = t
    · exact self ▸ notifying
    · rw [(others u self).1]
  have woke : Woke s' ↔ Woke s := by
    simp only [Woke, flag, told]
  cases p with
  | due => simp only [spots, state]
  | carried u =>
      by_cases self : u = t
      · exact self ▸ carried
      · simp only [spots, others u self]
  | given u => simp only [spots, told u]
  | done =>
      classical
      exact if_congr woke rfl rfl

/-- A thread moves and the future stays as it is. -/
theorem Woken.move (woken : Woken s) (once : Once (spots s'))
    (fut : s'.fut.state = s.fut.state ∧ s'.fut.exception = s.fut.exception ∧
      s'.fut.read = s.fut.read)
    (wins : s'.wins = s.wins)
    (others : ∀ u, u ≠ t → s'.pc u = s.pc u ∧ s'.region u = s.region u)
    (raised : s.flag = true → s'.flag = true)
    (telling : (s'.pc t).notifying = true → s'.flag = true)
    (woke : Woke s → Woke s') (winner : (s'.pc t).winning = true → (s.pc t).winning = true)
    (deferred : ∀ reply callbacks, s'.pc t ≠ .wake reply callbacks)
    (ran : ∀ reply rest, s'.pc t = .runCallbacks reply rest → ∀ win ∈ s.wins,
      win.deferred = false → Woke s')
    (returned : s'.returned = true → s.returned = true ∨
      ∃ reply rest, s.pc t = .runCallbacks reply rest) : Woken s' where
  once := once
  wins := by
    rw [fut.1, fut.2.1, fut.2.2, wins]
    exact woken.wins
  telling := by
    intro u at_
    by_cases self : u = t
    · subst self
      exact telling at_
    · rw [(others u self).1] at at_
      exact raised (woken.telling u at_)
  winner := by
    intro u at_
    rw [wins]
    by_cases self : u = t
    · subst self
      exact woken.winner u (winner at_)
    · rw [(others u self).1] at at_
      exact woken.winner u at_
  deferred := by
    intro u reply callbacks at_
    by_cases self : u = t
    · subst self
      exact absurd at_ (deferred reply callbacks)
    · rw [(others u self).1] at at_
      rw [wins, (others u self).2]
      exact woken.deferred u reply callbacks at_
  ran := by
    intro u reply rest at_
    rw [wins]
    by_cases self : u = t
    · subst self
      exact ran reply rest at_
    · rw [(others u self).1] at at_
      intro win member now
      exact woke (woken.ran u reply rest at_ win member now)
  returned := by
    intro back
    rw [wins]
    rcases returned back with before | ⟨reply, rest, at_⟩
    · obtain ⟨some, told⟩ := woken.returned before
      exact ⟨some, fun win member now => woke (told win member now)⟩
    · obtain ⟨win, one, -⟩ := woken.winner t (by rw [at_]; rfl)
      refine ⟨by rw [one]; rintro ⟨⟩, ?_⟩
      intro win member now
      exact woke (woken.ran t reply rest at_ win member now)

/-- A thread moves and keeps what it has of the wake. -/
theorem Woken.keep (woken : Woken s)
    (fut : s'.fut.state = s.fut.state ∧ s'.fut.exception = s.fut.exception ∧
      s'.fut.read = s.fut.read)
    (flag : s'.flag = s.flag) (wins : s'.wins = s.wins)
    (others : ∀ u, u ≠ t → s'.pc u = s.pc u ∧ s'.region u = s.region u)
    (notifying : (s'.pc t).notifying = (s.pc t).notifying)
    (carried : (s'.pc t).sets + sets (s'.region t).pending =
      (s.pc t).sets + sets (s.region t).pending)
    (winner : (s'.pc t).winning = true → (s.pc t).winning = true)
    (deferred : ∀ reply callbacks, s'.pc t ≠ .wake reply callbacks)
    (ran : ∀ reply rest, s'.pc t = .runCallbacks reply rest → ∀ win ∈ s.wins,
      win.deferred = false → Woke s)
    (returned : s'.returned = true → s.returned = true ∨
      ∃ reply rest, s.pc t = .runCallbacks reply rest) : Woken s' := by
  have woke : Woke s → Woke s' := by
    intro told
    refine ⟨flag.trans told.1, ?_⟩
    intro u
    by_cases self : u = t
    · subst self
      exact notifying.trans (told.2 u)
    · rw [(others u self).1]
      exact told.2 u
  exact woken.move (woken.once.same (spots_same fut.1 flag others notifying carried)) fut wins
    others (fun set => flag.trans set)
    (fun told => flag.trans (woken.telling t (notifying.symm.trans told))) woke winner deferred
    (fun reply rest at_ win member now => woke (ran reply rest at_ win member now)) returned

/-- `event.set()` flips the flag. -/
theorem Woken.set (woken : Woken s) {after : After G K} (due : (s.pc t).sets = after.sets + 1)
    (before : (s.pc t).notifying = false)
    (winner : ∀ reply rest, after = .callbacks reply rest → (s.pc t).winning = true) :
    Woken (s.set t after) := by
  have clear : s.flag = false := by
    apply woken.flag_clear (t := t)
    rw [spots, due]
    omega
  have moved : s.set t after = { s with flag := true }.goto t (.notify after) := by
    rw [State.set, clear]
    rfl
  have here : ({ s with flag := true }.goto t (.notify after)).pc t = .notify after :=
    Function.update_self ..
  have others : ∀ u, u ≠ t → ({ s with flag := true }.goto t (.notify after)).pc u = s.pc u ∧
      ({ s with flag := true }.goto t (.notify after)).region u = s.region u :=
    fun u other => ⟨Function.update_of_ne other .., rfl⟩
  have unwoken : ¬Woke s := by
    intro woke
    cases clear.symm.trans woke.1
  have once : Once (spots ({ s with flag := true }.goto t (.notify after))) := by
    refine woken.once.transfer (p := .carried t) (q := .given t) (by rintro ⟨⟩) ?_ ?_
    · have left : spots ({ s with flag := true }.goto t (.notify after)) (.carried t) =
          after.sets + sets (s.region t).pending := by
        rw [spots, here]
        rfl
      have tells : spots ({ s with flag := true }.goto t (.notify after)) (.given t) = 1 := by
        rw [spots, here]
        rfl
      have silent : spots s (.given t) = 0 := by
        rw [spots, before]
        rfl
      rw [left, tells, silent, spots, due]
      omega
    · intro p notCarried notGiven
      cases p with
      | due => rfl
      | carried u =>
          have other : u ≠ t := fun same => notCarried (same ▸ rfl)
          simp only [spots, others u other]
      | given u =>
          have other : u ≠ t := fun same => notGiven (same ▸ rfl)
          simp only [spots, others u other]
      | done =>
          have told : ¬Woke ({ s with flag := true }.goto t (.notify after)) := by
            intro woke
            have silent := woke.2 t
            rw [here] at silent
            cases silent
          rw [spots, spots, if_neg told, if_neg unwoken]
  rw [moved]
  refine woken.move once ⟨rfl, rfl, rfl⟩ rfl others (fun _ => rfl) (fun _ => rfl)
    (fun woke => absurd woke unwoken) ?_ ?_ ?_ .inl
  · rw [here]
    intro wins
    cases after with
    | callbacks reply rest => exact winner reply rest rfl
    | flush rest => cases wins
  · rw [here]
    rintro _ _ ⟨⟩
  · rw [here]
    rintro _ _ ⟨⟩

/-- `notify` has woken the last watcher. -/
theorem Woken.drained (woken : Woken s) {after : After G K} {guard : Option (Holder T W)}
    (at_ : s.pc t = .drain after) : Woken ({ s with guard := guard }.goto t after.pc) := by
  have given : spots s (.given t) ≠ 0 := by
    rw [spots, at_, Pc.notifying, if_pos rfl]
    exact Nat.one_ne_zero
  have flag : s.flag = true := woken.telling t (by rw [at_]; rfl)
  have here : ({ s with guard := guard }.goto t after.pc).pc t = after.pc :=
    Function.update_self ..
  have others : ∀ u, u ≠ t → ({ s with guard := guard }.goto t after.pc).pc u = s.pc u ∧
      ({ s with guard := guard }.goto t after.pc).region u = s.region u :=
    fun u other => ⟨Function.update_of_ne other .., rfl⟩
  -- the wake is given once, so nobody else is telling it
  have woke : Woke ({ s with guard := guard }.goto t after.pc) := by
    refine ⟨flag, ?_⟩
    intro u
    by_cases self : u = t
    · rw [self, here, After.pc_notifying]
    · have zero := woken.once.apart given (q := .given u) (by rintro ⟨⟩; exact self rfl)
      rw [(others u self).1]
      by_contra tells
      rw [spots, if_pos (by simpa using tells)] at zero
      cases zero
  have unwoken : ¬Woke s := by
    intro before
    have silent := before.2 t
    rw [at_] at silent
    cases silent
  have once : Once (spots ({ s with guard := guard }.goto t after.pc)) := by
    refine woken.once.transfer (p := .given t) (q := .done) (by rintro ⟨⟩) ?_ ?_
    · rw [spots, spots, spots, spots, here, at_, After.pc_notifying, if_pos woke, if_neg unwoken]
      rfl
    · intro p notGiven notDone
      cases p with
      | due => rfl
      | carried u =>
          by_cases self : u = t
          · subst self
            rw [spots, spots, here, at_, After.pc_sets]
            rfl
          · simp only [spots, others u self]
      | given u =>
          have other : u ≠ t := fun same => notGiven (same ▸ rfl)
          simp only [spots, others u other]
      | done => exact absurd rfl notDone
  refine woken.move once ⟨rfl, rfl, rfl⟩ rfl others id (fun _ => flag)
    (fun _ => woke) ?_ ?_ (fun _ _ _ _ _ _ => woke) .inl
  · rw [here, at_]
    cases after <;> exact id
  · rw [here]
    cases after <;> rintro _ _ ⟨⟩

/-- A completing call finds the future pending. -/
theorem Woken.complete (woken : Woken s) {op : Completion V X M} (at_ : s.pc t = .complete op)
    (pending : s.fut.state = .pending) :
    Woken ({ s with
      fut := s.fut.complete op
      wins := s.wins ++ [Win.mk t op !(s.region t).wakesNow] }.goto t
        (.wake op.won s.fut.callbacks)) := by
  obtain ⟨empty, clean⟩ : s.wins = [] ∧ s.fut.exception = none := by
    rcases woken.wins with ⟨-, empty, clean⟩ | ⟨done, -⟩
    · exact ⟨empty, clean⟩
    · exact absurd pending done
  have done : (s.fut.complete op).state ≠ .pending := by
    cases op <;> rintro ⟨⟩
  have due : spots s .due ≠ 0 := by
    rw [spots, if_pos pending]
    exact Nat.one_ne_zero
  have clear : s.flag = false := by
    by_contra set
    exact woken.done_of_flag (by simpa using set) pending
  rw [empty, List.nil_append]
  set after := { s with
    fut := s.fut.complete op
    wins := [Win.mk t op !(s.region t).wakesNow] }.goto t (.wake op.won s.fut.callbacks) with named
  have here : after.pc t = .wake op.won s.fut.callbacks := Function.update_self ..
  have others : ∀ u, u ≠ t → after.pc u = s.pc u := fun u other => Function.update_of_ne other ..
  -- before its completion nobody is inside of a winning call
  have nobody : ∀ u, u ≠ t → (after.pc u).winning = false := by
    intro u other
    rw [others u other]
    by_contra wins
    obtain ⟨win, one, -⟩ := woken.winner u (by simpa using wins)
    rw [empty] at one
    cases one
  refine ⟨?_, .inr ⟨done, _, rfl, ?_⟩, ?_, ?_, ?_, ?_, ?_⟩
  · refine woken.once.transfer (p := .due) (q := .carried t) (by rintro ⟨⟩) ?_ ?_
    · have settled : spots after .due = 0 := if_neg done
      have carries : spots after (.carried t) = 1 + sets (s.region t).pending := by
        rw [spots, here]
        rfl
      have before : spots s (.carried t) = sets (s.region t).pending := by
        rw [spots, at_]
        exact Nat.zero_add _
      rw [settled, carries, before, spots, if_pos pending, Nat.zero_add]
    · intro p notDue notCarried
      cases p with
      | due => exact absurd rfl notDue
      | carried u =>
          have other : u ≠ t := fun same => notCarried (same ▸ rfl)
          rw [spots, spots, others u other]
          rfl
      | given u =>
          by_cases self : u = t
          · rw [spots, spots, self, here, at_]
            rfl
          · rw [spots, spots, others u self]
      | done =>
          have unwoken : ∀ r : State T W V X M G K, r.flag = false → ¬Woke r := by
            intro r clear woke
            cases clear.symm.trans woke.1
          rw [spots, spots, if_neg (unwoken after clear), if_neg (unwoken s clear)]
  · cases op <;> simp [after, State.goto, Fields.complete, Fields.read, Completion.outcome, clean]
  · intro u tells
    have other : u ≠ t := by
      rintro rfl
      rw [here] at tells
      cases tells
    rw [others u other] at tells
    exact woken.telling u tells
  · intro u wins
    by_cases self : u = t
    · exact ⟨_, rfl, self.symm⟩
    · rw [nobody u self] at wins
      cases wins
  · intro u reply callbacks call win member
    have self : u = t := by
      by_contra other
      have wins := nobody u other
      rw [call] at wins
      cases wins
    rw [List.mem_singleton.mp member, self]
    rfl
  · intro u reply rest call
    have wins : (after.pc u).winning = true := by
      rw [call]
      rfl
    by_cases self : u = t
    · rw [self, here] at call
      cases call
    · rw [nobody u self] at wins
      cases wins
  · intro back
    exact absurd empty (woken.returned back).1

/-- `call_soon` touches the queue or the region of its thread. -/
theorem callSoon_frame (s : State T W V X M G K) (t : T) (entry : Entry G K) :
    (s.callSoon t entry).fut = s.fut ∧ (s.callSoon t entry).flag = s.flag ∧
      (s.callSoon t entry).watchers = s.watchers ∧ (s.callSoon t entry).guard = s.guard ∧
      (s.callSoon t entry).pc = s.pc ∧ (s.callSoon t entry).task = s.task ∧
      (s.callSoon t entry).issued = s.issued ∧ (s.callSoon t entry).removed = s.removed ∧
      (s.callSoon t entry).wins = s.wins ∧ (s.callSoon t entry).returned = s.returned ∧
      ∀ u, u ≠ t → (s.callSoon t entry).region u = s.region u := by
  unfold State.callSoon
  split
  · exact ⟨rfl, rfl, rfl, rfl, rfl, rfl, rfl, rfl, rfl, rfl, fun _ _ => rfl⟩
  · exact ⟨rfl, rfl, rfl, rfl, rfl, rfl, rfl, rfl, rfl, rfl,
      fun u other => Function.update_of_ne other ..⟩

theorem callSoon_sets (s : State T W V X M G K) (t : T) (entry : Entry G K) :
    sets ((s.callSoon t entry).region t).pending = sets (s.region t).pending := by
  unfold State.callSoon
  split
  · rfl
  · rename_i region
    simp only [State.setRegion, Function.update_self]
    rw [Wakes.Region.pending_append (by simpa using region), sets, List.countP_append]
    rfl

/-- A thread with nothing of the wake goes on to where it has nothing of it. -/
theorem Woken.plain (woken : Woken s)
    (fut : s'.fut.state = s.fut.state ∧ s'.fut.exception = s.fut.exception ∧
      s'.fut.read = s.fut.read)
    (flag : s'.flag = s.flag) (wins : s'.wins = s.wins)
    (others : ∀ u, u ≠ t → s'.pc u = s.pc u ∧ s'.region u = s.region u)
    (before : (s.pc t).sets = 0 ∧ (s.pc t).notifying = false)
    (region : sets (s'.region t).pending = sets (s.region t).pending)
    (after : (s'.pc t).plain = true)
    (returned : s'.returned = true → s.returned = true ∨
      ∃ reply rest, s.pc t = .runCallbacks reply rest) : Woken s' := by
  have quiet : (s'.pc t).sets = 0 ∧ (s'.pc t).notifying = false ∧ (s'.pc t).winning = false := by
    cases pc : s'.pc t with
    | idle | complete _ | add _ _ | soon _ | remove _ => exact ⟨rfl, rfl, rfl⟩
    | wake _ _ | notify _ | drain _ | runCallbacks _ _ | flush _ =>
        rw [pc] at after
        cases after
  refine woken.keep fut flag wins others (quiet.2.1.trans before.2.symm) ?_ ?_ ?_ ?_ returned
  · rw [quiet.1, before.1, region]
  · intro winning
    cases quiet.2.2.symm.trans winning
  · intro reply callbacks pc
    rw [pc] at after
    cases after
  · intro reply rest pc
    rw [pc] at after
    cases after

theorem Woken.thread [DecidableEq W] [DecidableEq G] (woken : Woken s)
    (taken : threadStep s t = some s') : Woken s' := by
  have here : ∀ (r : State T W V X M G K) (pc : Pc V X M G K), (r.goto t pc).pc t = pc :=
    fun _ _ => Function.update_self ..
  have others : ∀ (r : State T W V X M G K) (pc : Pc V X M G K) (u : T), u ≠ t →
      (r.goto t pc).pc u = r.pc u := fun _ _ _ other => Function.update_of_ne other ..
  have answered : ∀ (r : State T W V X M G K) (reply : Reply), (r.answer t reply).pc t = .idle :=
    fun _ _ => Function.update_self ..
  cases threadStep_move taken with
  | completed at_ pending => exact woken.complete at_ pending
  | lost at_ done =>
      exact woken.plain (t := t) ⟨rfl, rfl, rfl⟩ rfl rfl
        (fun u other => ⟨Function.update_of_ne other .., rfl⟩) (by rw [at_]; exact ⟨rfl, rfl⟩) rfl
        (by rw [answered]; rfl) .inl
  | woke at_ =>
      exact woken.set (by rw [at_]; rfl) (by rw [at_]; rfl) (fun _ _ _ => by rw [at_]; rfl)
  | @collected reply callbacks at_ inside =>
      have deferred := woken.deferred t reply callbacks at_
      refine woken.keep (t := t) ⟨rfl, rfl, rfl⟩ rfl rfl
        (fun u other => ⟨Function.update_of_ne other .., Function.update_of_ne other ..⟩)
        (by rw [here, at_]; rfl) ?_ (fun _ => by rw [at_]; rfl) (by rw [here]; rintro _ _ ⟨⟩)
        ?_ .inl
      · rw [here, at_]
        simp only [State.goto, State.setRegion, Function.update_self]
        rw [Wakes.Region.pending_append inside, sets, List.countP_append]
        change 0 + (sets (s.region t).pending + 1) = 1 + sets (s.region t).pending
        omega
      · intro _ _ _ win member now
        -- the wake waits for the region's exit, so this win is a deferred one
        rw [deferred win member, inside] at now
        cases now
  | @notified after at_ free =>
      refine woken.keep (t := t) ⟨rfl, rfl, rfl⟩ rfl rfl
        (fun u other => ⟨Function.update_of_ne other .., rfl⟩) (by rw [here, at_]; rfl)
        (by rw [here, at_]; rfl) ?_ (by rw [here]; rintro _ _ ⟨⟩) (by rw [here]; rintro _ _ ⟨⟩) .inl
      rw [here, at_]
      cases after <;> exact id
  | drained at_ empty => exact woken.drained at_
  | told at_ filled =>
      exact woken.keep (t := t) ⟨rfl, rfl, rfl⟩ rfl rfl (fun u _ => ⟨rfl, rfl⟩) rfl rfl id
        (fun _ _ pc => by cases at_.symm.trans pc) (fun _ _ pc => by cases at_.symm.trans pc) .inl
  | @returned reply at_ =>
      exact woken.plain (t := t) ⟨rfl, rfl, rfl⟩ rfl rfl
        (fun u other => ⟨Function.update_of_ne other .., rfl⟩)
        (by rw [at_]; exact ⟨rfl, rfl⟩) rfl
        (by rw [answered]; rfl) (fun _ => .inr ⟨reply, [], at_⟩)
  | @scheduled reply entry rest at_ =>
      obtain ⟨fut, flag, -, -, pc, -, -, -, wins, returned, region⟩ := callSoon_frame s t entry
      refine woken.keep (t := t) ?_ flag wins ?_ (by rw [here, at_]; rfl) ?_
        (fun _ => by rw [at_]; rfl) (by rw [here]; rintro _ _ ⟨⟩) ?_ ?_
      · simp only [State.goto, fut]
        exact ⟨trivial, trivial, trivial⟩
      · intro u other
        exact ⟨(others _ _ u other).trans (congrFun pc u), region u other⟩
      · rw [here, at_]
        exact congrArg (0 + ·) (callSoon_sets s t entry)
      · intro _ _ _
        exact woken.ran t reply _ at_
      · intro back
        exact .inl (returned ▸ back)
  | added at_ pending =>
      exact woken.plain (t := t) ⟨rfl, rfl, rfl⟩ rfl rfl
        (fun u other => ⟨Function.update_of_ne other .., rfl⟩) (by rw [at_]; exact ⟨rfl, rfl⟩) rfl
        (by rw [answered]; rfl) .inl
  | late at_ done =>
      exact woken.plain (t := t) ⟨rfl, rfl, rfl⟩ rfl rfl
        (fun u other => ⟨others _ _ u other, rfl⟩) (by rw [at_]; exact ⟨rfl, rfl⟩) rfl
        (by rw [here]; rfl) .inl
  | @queued entry at_ =>
      obtain ⟨fut, flag, -, -, pc, -, -, -, wins, returned, region⟩ := callSoon_frame s t entry
      refine woken.plain (t := t) ?_ flag wins ?_ (by rw [at_]; exact ⟨rfl, rfl⟩)
        (callSoon_sets s t entry) (by rw [answered]; rfl) ?_
      · simp only [State.answer, fut]
        exact ⟨trivial, trivial, trivial⟩
      · intro u other
        exact ⟨(Function.update_of_ne other ..).trans (congrFun pc u), region u other⟩
      · intro back
        exact .inl (returned ▸ back)
  | removed at_ =>
      exact woken.plain (t := t) ⟨rfl, rfl, rfl⟩ rfl rfl
        (fun u other => ⟨Function.update_of_ne other .., rfl⟩) (by rw [at_]; exact ⟨rfl, rfl⟩) rfl
        (by rw [removeStep, answered]; rfl) .inl
  | flushed at_ =>
      exact woken.plain (t := t) ⟨rfl, rfl, rfl⟩ rfl rfl
        (fun u other => ⟨others _ _ u other, rfl⟩) (by rw [at_]; exact ⟨rfl, rfl⟩) rfl
        (by rw [here]; rfl) .inl
  | @flushedSet rest at_ =>
      exact woken.set (by rw [at_]; exact sets_cons rest) (by rw [at_]; rfl) (by rintro _ _ ⟨⟩)
  | flushedSoon at_ =>
      exact woken.keep (t := t) ⟨rfl, rfl, rfl⟩ rfl rfl
        (fun u other => ⟨others _ _ u other, rfl⟩) (by rw [here, at_]; rfl)
        (by rw [here, at_]; rfl) (by rw [here]; rintro ⟨⟩) (by rw [here]; rintro _ _ ⟨⟩)
        (by rw [here]; rintro _ _ ⟨⟩) .inl

omit [DecidableEq T] in
/-- A task awaits; the wake is not its business. -/
theorem Woken.tasks (woken : Woken s) (fut : s'.fut = s.fut) (flag : s'.flag = s.flag)
    (wins : s'.wins = s.wins) (pc : s'.pc = s.pc) (region : s'.region = s.region)
    (returned : s'.returned = s.returned) : Woken s' := by
  have woke : Woke s' ↔ Woke s := by
    simp only [Woke, flag, pc]
  have same : spots s' = spots s := by
    funext p
    cases p with
    | due => simp only [spots, fut]
    | carried u => simp only [spots, pc, region]
    | given u => simp only [spots, pc]
    | done =>
        classical
        exact if_congr woke rfl rfl
  refine ⟨same ▸ woken.once, ?_, ?_, ?_, ?_, ?_, ?_⟩
  · rw [fut, wins]
    exact woken.wins
  · rw [pc, flag]
    exact woken.telling
  · rw [pc, wins]
    exact woken.winner
  · rw [pc, wins, region]
    exact woken.deferred
  · rw [pc, wins, woke]
    exact woken.ran
  · rw [returned, wins, woke]
    exact woken.returned

omit [DecidableEq T] in
theorem taskStep_frame [DecidableEq W] {w : W} {must : Bool} (taken : taskStep s w must = some s') :
    s'.fut = s.fut ∧ s'.flag = s.flag ∧ s'.queue = s.queue ∧ s'.region = s.region ∧
      s'.pc = s.pc ∧ s'.issued = s.issued ∧ s'.removed = s.removed ∧ s'.wins = s.wins ∧
      s'.returned = s.returned := by
  cases at_ : s.task w with
  | idle | done _ | parked =>
      simp only [taskStep, at_] at taken
      cases taken
  | register =>
      simp only [taskStep, at_] at taken
      split at taken <;> cases taken
      exact ⟨rfl, rfl, rfl, rfl, rfl, rfl, rfl, rfl, rfl⟩
  | check =>
      simp only [taskStep, at_] at taken
      cases taken
      split <;> exact ⟨rfl, rfl, rfl, rfl, rfl, rfl, rfl, rfl, rfl⟩
  | test | arm | push | runnable | disarm | ready | isSet | read =>
      simp only [taskStep, at_] at taken
      cases taken
      exact ⟨rfl, rfl, rfl, rfl, rfl, rfl, rfl, rfl, rfl⟩

theorem woken_step [DecidableEq W] [DecidableEq G] {e : Exceptions X C} {a : Act T W V X C M G K}
    (woken : Woken s) (taken : step e s a = some s') : Woken s' := by
  cases a with
  | call t c =>
      simp only [step] at taken
      split at taken
      · rename_i at_
        cases taken
        have begins : ∀ pc : Pc V X M G K, pc.plain = true → Woken (s.goto t pc) := by
          intro pc plain
          have here : (s.goto t pc).pc t = pc := Function.update_self ..
          exact woken.plain (t := t) ⟨rfl, rfl, rfl⟩ rfl rfl
            (fun u other => ⟨Function.update_of_ne other .., rfl⟩)
            (by rw [at_]; exact ⟨rfl, rfl⟩) rfl
            (by rw [here]; exact plain) .inl
        cases c with
        | setException argument =>
            simp only [callStep]
            split
            · exact (begins .idle rfl).tasks rfl rfl rfl rfl rfl rfl
            · exact begins _ rfl
        | _ => exact begins _ rfl
      · cases taken
  | thread t => exact woken.thread taken
  | enter t =>
      simp only [step] at taken
      split at taken
      · rename_i at_
        cases taken
        refine woken.plain (t := t) ⟨rfl, rfl, rfl⟩ rfl rfl
          (fun u other => ⟨rfl, Function.update_of_ne other ..⟩) (by rw [at_]; exact ⟨rfl, rfl⟩) ?_
          (congrArg Pc.plain at_) .inl
        simp only [State.setRegion, Function.update_self, Wakes.Region.pending_enter]
      · cases taken
  | exit t =>
      simp only [step] at taken
      split at taken
      · rename_i at_
        obtain ⟨⟨region, flush⟩, left, rfl⟩ := Option.map_eq_some_iff.mp taken
        have here : ((s.setRegion t region).goto t (.flush flush)).pc t = .flush flush :=
          Function.update_self ..
        refine woken.keep (t := t) ⟨rfl, rfl, rfl⟩ rfl rfl
          (fun u other => ⟨Function.update_of_ne other .., Function.update_of_ne other ..⟩)
          (by rw [here, at_]; rfl) ?_ (by rw [here]; rintro ⟨⟩) (by rw [here]; rintro _ _ ⟨⟩)
          (by rw [here]; rintro _ _ ⟨⟩) .inl
        rw [here, at_]
        simp only [State.goto, State.setRegion, Function.update_self]
        rw [← Wakes.Region.pending_exit left, sets, sets, List.countP_append]
        exact (Nat.zero_add _).symm
      · cases taken
  | await w =>
      simp only [step] at taken
      split at taken <;> cases taken <;> exact woken.tasks rfl rfl rfl rfl rfl rfl
  | task w must =>
      obtain ⟨fut, flag, -, region, pc, -, -, wins, returned⟩ := taskStep_frame taken
      exact woken.tasks fut flag wins pc region returned

end Steps

end MtAsyncio.Futures
