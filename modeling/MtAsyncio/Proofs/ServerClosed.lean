/-
Module: MtAsyncio.Proofs.ServerClosed
Purpose: `wait_closed` returns behind the close and the last connection and not before,
  whichever of them comes last on whatever worker, and then nobody is left waiting, unless
  a cancel lands between the `done()` and the `set_result` of a waiter.
Trusted boundary: none
Main exports: Spares, Closing, closing_step, closing, wait_closed_woken, wait_closed_strands
-/
import MtAsyncio.Model.Serving

namespace MtAsyncio.Serving

open Lib (Machine WakeLoop Turn Tended)

variable {T C : Type} {s s' : State T C} {a : Act T C} {t : T}
  {w : Nat} {loop : WakeLoop Nat}

/-- A task sleeps in `wait_closed`. -/
def State.Sleeps (s : State T C) (w : Nat) : Prop :=
  ∃ t, s.pc t = .await w

/-- The waiter is in `_waiters`, where the one who closes the server finds it. -/
def State.Listed (s : State T C) (w : Nat) : Prop :=
  ∃ waiters, s.waiters = some waiters ∧ w ∈ waiters

/-- The waiter that a cancel settles. -/
def Act.cancels : Act T C → Option Nat
  | .cancel w => some w
  | _ => none

/-- No cancel reaches a waiter between its `done()` and its `set_result`. -/
abbrev Spares : State T C → Act T C → Prop :=
  WakeLoop.Spares State.loop Act.cancels

/-- The server is closed and has no connection. -/
def State.Over (s : State T C) : Prop :=
  s.sockets = false ∧ s.clients = []

structure Closing (s : State T C) : Prop where
  tended : Tended s.Sleeps s.Listed s.done s.loop
  over_ : s.waiters = none ↔ s.Over
  looping : s.loop ≠ none → s.waiters = none
  told : ∀ w, s.waiter w = .result → s.Over
  returned : ∀ t, s.pc t = .returned → s.Over

/-- A waiter is settled. -/
theorem done_settled (outcome : Waiter) (settles : outcome.done = true) :
    ({ s with waiter := Function.update s.waiter w outcome } : State T C).done =
      Function.update s.done w true :=
  WakeLoop.settled_update Waiter.done s.waiter w settles

/-- The server is closed, or loses a connection; the last of these wakes the waiters up. -/
theorem Closing.ends (closing : Closing s) (sockets : Bool) (clients : List C)
    (free : s.loop = none) (after : s.Over → sockets = false ∧ clients = []) :
    Closing (if clients = [] ∧ sockets = false then
      { s with sockets := sockets, clients := clients }.wakeup
      else { s with sockets := sockets, clients := clients }) := by
  have tended := closing.tended
  rw [free] at tended
  split
  · rename_i isOver
    have isOver : sockets = false ∧ clients = [] := isOver.symm
    unfold State.wakeup
    dsimp only
    split
    · rename_i waiters listed
      refine { closing with
        tended := tended.begins ?_
        over_ := ⟨fun _ => isOver, fun _ => rfl⟩
        looping := fun _ => rfl
        told := fun _ _ => isOver
        returned := fun _ _ => isOver }
      rintro w - ⟨waiters', listed', member⟩
      rw [listed] at listed'
      cases listed'
      exact member
    · rename_i gone
      exact { closing with
        over_ := ⟨fun _ => isOver, fun _ => gone⟩
        told := fun _ _ => isOver
        returned := fun _ _ => isOver }
  · rename_i notOver
    have open_ : ¬s.Over := fun isOver => notOver (after isOver).symm
    refine { closing with
      over_ := ⟨fun gone => absurd (closing.over_.mp gone) open_, ?_⟩
      told := fun w result => absurd (closing.told w result) open_
      returned := fun t back => absurd (closing.returned t back) open_ }
    exact fun isOver => absurd isOver.symm notOver

theorem closing_wake (closing : Closing s) (inside : s.loop = some loop) :
    Closing (wakeStep s loop) := by
  have gone : s.waiters = none := by
    refine closing.looping ?_
    rw [inside]
    exact Option.some_ne_none loop
  have tended : Tended s.Sleeps s.Listed s.done (some loop) := inside ▸ closing.tended
  unfold wakeStep
  cases turn : loop.turn s.done with
  | goes loop' => exact { closing with tended := tended.goes turn, looping := fun _ => gone }
  | settles w loop' =>
      have after := tended.settles turn
      rw [← done_settled .result rfl] at after
      exact { closing with
        tended := after
        looping := fun _ => gone
        told := fun _ _ => closing.over_.mp gone }
  | fails => exact absurd turn tended.not_fails
  | finished =>
      exact { closing with
        tended := tended.finished turn
        looping := fun no => absurd rfl no }

/-- A task goes on behind its `await`. -/
theorem Closing.moves [DecidableEq T] {pc : Pc} (closing : Closing s) (awake : ∀ w, pc ≠ .await w)
    (back : pc = .returned → s.Over) : Closing (s.goto t pc) := by
  have sleeps : ∀ w, (s.goto t pc).Sleeps w → s.Sleeps w := by
    rintro w ⟨u, isWaiting⟩
    have isWaiting : Function.update s.pc t pc u = .await w := isWaiting
    by_cases isT : u = t
    · rw [isT, Function.update_self] at isWaiting
      exact absurd isWaiting (awake w)
    · rw [Function.update_of_ne isT] at isWaiting
      exact ⟨u, isWaiting⟩
  refine { closing with tended := ?_, returned := ?_ }
  · exact closing.tended.mono (fun w sleeping _ => .inl (sleeps w sleeping)) fun _ shut => shut
  · intro u isBack
    have isBack : Function.update s.pc t pc u = .returned := isBack
    by_cases isT : u = t
    · rw [isT, Function.update_self] at isBack
      exact back isBack
    · rw [Function.update_of_ne isT] at isBack
      exact closing.returned u isBack

/-- A task finds the server in use. -/
theorem Closing.parks [DecidableEq T] {waiters : List Nat} (closing : Closing s)
    (free : s.loop = none) (listed : s.waiters = some waiters) :
    Closing ({ s with
      created := s.created + 1
      waiter := Function.update s.waiter s.created .pending
      waiters := some (waiters ++ [s.created]) }.goto t (.await s.created)) := by
  have inUse : ¬s.Over := by
    intro isOver
    rw [closing.over_.mpr isOver] at listed
    cases listed
  refine ⟨⟨?_, ?_⟩, ?_, ?_, ?_, ?_⟩
  · rintro w ⟨u, isWaiting⟩ unsettled
    refine .inl ⟨_, rfl, ?_⟩
    by_cases new : w = s.created
    · exact List.mem_append_right _ (new ▸ List.mem_singleton_self _)
    · have isWaiting : Function.update s.pc t (.await s.created) u = .await w := isWaiting
      have other : u ≠ t := by
        rintro rfl
        rw [Function.update_self] at isWaiting
        exact new (Pc.await.inj isWaiting).symm
      rw [Function.update_of_ne other] at isWaiting
      have unsettled : (Function.update s.waiter s.created .pending w).done = false := unsettled
      rw [Function.update_of_ne new] at unsettled
      rcases closing.tended.attended w ⟨u, isWaiting⟩ unsettled with
        ⟨waiters', listed', member⟩ | ahead
      · rw [listed] at listed'
        cases listed'
        exact List.mem_append_left _ member
      · rw [free] at ahead
        cases ahead
  · intro w isChosen
    have isChosen : WakeLoop.chosenOf s.loop = some w := isChosen
    rw [free] at isChosen
    cases isChosen
  · exact ⟨fun no => (nomatch no), fun isOver => absurd isOver inUse⟩
  · exact fun looping => absurd free looping
  · intro w result
    have result : Function.update s.waiter s.created .pending w = .result := result
    by_cases new : w = s.created
    · rw [new, Function.update_self] at result
      cases result
    · rw [Function.update_of_ne new] at result
      exact closing.told w result
  · intro u back
    have back : Function.update s.pc t (.await s.created) u = .returned := back
    by_cases isT : u = t
    · rw [isT, Function.update_self] at back
      cases back
    · rw [Function.update_of_ne isT] at back
      exact closing.returned u back

theorem closing_step [DecidableEq T] [DecidableEq C] (closing : Closing s) (spares : Spares s a)
    (taken : step s a = some s') :
    Closing s' := by
  cases a with
  | attach c =>
      simp only [step] at taken
      split at taken <;> cases taken
      have still : s.Over ↔ s.sockets = false ∧
          (if s.sockets then s.clients.insert c else s.clients) = [] := by
        by_cases isOpen : s.sockets = true
        · refine iff_of_false ?_ ?_ <;> rintro ⟨isClosed, -⟩ <;> rw [isOpen] at isClosed <;>
            cases isClosed
        · rw [if_neg isOpen]
          exact Iff.rfl
      exact { closing with
        over_ := closing.over_.trans still
        told := fun w result => still.mp (closing.told w result)
        returned := fun t back => still.mp (closing.returned t back) }
  | detach c =>
      simp only [step] at taken
      split at taken <;> cases taken
      rename_i free
      refine closing.ends _ _ free ?_
      rintro ⟨isClosed, isEmpty⟩
      refine ⟨isClosed, ?_⟩
      rw [isEmpty]
      rfl
  | close =>
      simp only [step] at taken
      split at taken
      · rename_i free
        split at taken <;> cases taken
        · have ended := closing.ends false s.clients free
            fun isOver => ⟨rfl, isOver.2⟩
          simpa using ended
        · exact closing
      · cases taken
  | waitClosed t =>
      simp only [step] at taken
      split at taken
      · rename_i ready
        split at taken <;> cases taken
        · rename_i gone
          exact closing.moves (fun _ no => nomatch no) fun _ => closing.over_.mp gone
        · rename_i waiters listed
          exact closing.parks ready.2 listed
      · cases taken
  | wake =>
      simp only [step] at taken
      split at taken <;> cases taken
      rename_i loop inside
      exact closing_wake closing inside
  | cancel w =>
      simp only [step] at taken
      split at taken <;> cases taken
      have done := done_settled (s := s) (w := w) .cancelled rfl
      refine { closing with tended := ?_, told := ?_ }
      · rw [done]
        exact closing.tended.settle (spares w rfl)
      · intro v result
        have result : Function.update s.waiter w .cancelled v = .result := result
        by_cases same : v = w
        · rw [same, Function.update_self] at result
          cases result
        · rw [Function.update_of_ne same] at result
          exact closing.told v result
  | resume t =>
      simp only [step] at taken
      split at taken
      · rename_i w waits
        split at taken
        · cases taken
        · rename_i result
          cases taken
          exact closing.moves (fun _ no => nomatch no) fun _ => closing.told w result
        · cases taken
          exact closing.moves (fun _ no => nomatch no) fun no => nomatch no
      · cases taken

theorem closing [DecidableEq T] [DecidableEq C] (reached : (machine T C).Reach Spares s) :
    Closing s := by
  refine reached.invariant Closing ?_ ?_
  · rintro s rfl
    refine ⟨⟨?_, fun _ no => (nomatch no)⟩, ⟨fun no => (nomatch no), ?_⟩, ?_, ?_, ?_⟩
    · rintro w ⟨t, no⟩
      cases no
    · rintro ⟨no, -⟩
      cases no
    · exact fun no => absurd rfl no
    · exact fun _ no => nomatch no
    · exact fun _ no => nomatch no
  · exact fun s a s' closing spares taken => closing_step closing spares taken

/-- `wait_closed` returns only when the server is closed and its last connection is gone,
and that stays so; as long as no cancel lands between the `done()` and the `set_result` of
one waiter, whoever sleeps in it sleeps because the server is open or has a connection, or
is about to be woken up. -/
theorem wait_closed_woken [DecidableEq T] [DecidableEq C] (reached : (machine T C).Reach Spares s) :
    (∀ t, s.pc t = .returned → s.sockets = false ∧ s.clients = []) ∧
      ∀ t w, s.pc t = .await w → s.waiter w = .pending →
        s.sockets = true ∨ s.clients ≠ [] ∨ ∃ loop, s.loop = some loop ∧ w ∈ loop.ahead := by
  have closing := closing reached
  refine ⟨closing.returned, ?_⟩
  intro t w sleeps pending
  have unsettled : s.done w = false := by
    unfold State.done
    rw [pending]
    rfl
  rcases closing.tended.attended w ⟨t, sleeps⟩ unsettled with ⟨waiters, listed, -⟩ | ahead
  · have inUse : ¬s.Over := by
      intro isOver
      rw [closing.over_.mpr isOver] at listed
      cases listed
    by_cases isEmpty : s.clients = []
    · cases isOpen : s.sockets with
      | true => exact .inl rfl
      | false => exact absurd ⟨isOpen, isEmpty⟩ inUse
    · exact .inr (.inl isEmpty)
  · exact .inr (.inr (WakeLoop.exists_of_mem_aheadOf ahead))

/-- The check of `Spares`. -/
abbrev spares : State T C → Act T C → Bool :=
  WakeLoop.spares State.loop Act.cancels

/-- The last connection goes behind the close, with one waiter cancelled before. -/
def lastRun : List (Act Nat Nat) :=
  [.attach 70, .waitClosed 0, .waitClosed 1, .waitClosed 2, .close, .cancel 0, .detach 70,
    .wake, .wake, .wake, .resume 1]

theorem lastRun_ends :
    ((machine Nat Nat).execIf spares (fresh Nat Nat) lastRun).any
      (fun s => decide (s.pc 1 = .returned ∧ s.pc 2 = .await 2 ∧ s.waiter 2 = .pending)) =
        true := by
  decide +kernel

theorem wait_closed_woken_last :
    ∃ s : State Nat Nat, s.sockets = false ∧ s.clients = [] ∧
      ∃ loop, s.loop = some loop ∧ 2 ∈ loop.ahead := by
  obtain ⟨s, reached, ends⟩ := Machine.Reach.exists_of_execIf WakeLoop.spares_sound rfl lastRun_ends
  obtain ⟨back, sleeps, pending⟩ := of_decide_eq_true ends
  obtain ⟨returned, woken⟩ := wait_closed_woken reached
  obtain ⟨isClosed, isEmpty⟩ := returned 1 back
  refine ⟨s, isClosed, isEmpty, ?_⟩
  rcases woken 2 2 sleeps pending with isOpen | inUse | ahead
  · rw [isClosed] at isOpen
    cases isOpen
  · exact absurd isEmpty inUse
  · exact ahead

/-- A cancel lands behind the `done()` of the first waiter. -/
def passedRun : List (Act Nat Nat) :=
  [.waitClosed 0, .waitClosed 1, .close, .wake, .cancel 0, .wake]

theorem passedRun_ends :
    ((machine Nat Nat).exec (fresh Nat Nat) passedRun).any
      (fun s => decide (s.sockets = false ∧ s.clients = [] ∧ s.waiters = none ∧ s.loop = none ∧
        s.pc 1 = .await 1 ∧ s.waiter 1 = .pending)) = true := by
  decide +kernel

/-- The guard is needed: a cancel between the two leaves a task asleep in `wait_closed` of
a server that is closed and has no connection. -/
theorem wait_closed_strands :
    ∃ s : State Nat Nat, (machine Nat Nat).Reachable s ∧ s.sockets = false ∧ s.clients = [] ∧
      s.waiters = none ∧ s.loop = none ∧ s.pc 1 = .await 1 ∧ s.waiter 1 = .pending := by
  obtain ⟨s, reached, ends⟩ := Machine.Reachable.exists_of_exec rfl passedRun_ends
  exact ⟨s, reached, of_decide_eq_true ends⟩

end MtAsyncio.Serving
