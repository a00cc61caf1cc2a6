/-
Module: MtAsyncio.Proofs.DrainWoken
Purpose: A writer sleeps in `drain` only while its protocol is paused and connected: no
  resume and no loss of the connection passes a waiter over, unless a cancel lands between
  its `done()` and its `set_result`, which strands those behind it.
Trusted boundary: none
Main exports: Spares, Woken, woken_step, woken, drain_woken, drain_strands
-/
import MtAsyncio.Model.Drains

namespace MtAsyncio.Drains

open Lib (Machine WakeLoop Turn Tended)

variable {T : Type} {s s' : State T} {a : Act T} {t : T} {w : Nat}
  {loop : WakeLoop Nat} {exc : Bool}

/-- The waiter of a writer that has not left `_drain_helper`. -/
def Pc.waits : Pc → Option Nat
  | .await w | .leave w => some w
  | .outside => none

/-- The loop over `_drain_waiters`, where one is running. -/
def State.running (s : State T) : Option (WakeLoop Nat) :=
  s.loop.map Prod.fst

/-- The waiter that a cancel settles. -/
def Act.cancels : Act T → Option Nat
  | .cancel w => some w
  | _ => none

/-- No cancel reaches a waiter between its `done()` and its `set_result`. -/
abbrev Spares : State T → Act T → Prop :=
  WakeLoop.Spares State.running Act.cancels

/-- A waiter on the list that has not been settled waits for a paused and connected
protocol, or the loop comes to it. -/
structure Woken (s : State T) : Prop where
  tended : Tended (· ∈ s.drainWaiters)
    (fun _ => s.paused = true ∧ s.connectionLost = false) s.done s.running
  listed : ∀ t w, (s.pc t).waits = some w → w ∈ s.drainWaiters ∧ w < s.created
  apart : ∀ t u w, (s.pc t).waits = some w → (s.pc u).waits = some w → t = u

theorem running_free (free : s.loop = none) : s.running = none := by
  unfold State.running
  rw [free]
  rfl

theorem pc_goto [DecidableEq T] (s : State T) (t u : T) (pc : Pc) :
    (s.goto t pc).pc u = if u = t then pc else s.pc u := by
  unfold State.goto
  exact Function.update_apply _ _ _ _

/-- A waiter is settled. -/
theorem done_settled (outcome : Waiter) (settles : outcome.done = true) :
    ({ s with waiter := Function.update s.waiter w outcome } : State T).done =
      Function.update s.done w true :=
  WakeLoop.settled_update Waiter.done s.waiter w settles

/-- A writer goes on, and waits for what it has waited for or for nothing. -/
theorem Woken.moves [DecidableEq T] {pc : Pc} (woken : Woken s)
    (same : ∀ w, pc.waits = some w → (s.pc t).waits = some w) : Woken (s.goto t pc) := by
  have waits : ∀ u w, ((s.goto t pc).pc u).waits = some w → (s.pc u).waits = some w := by
    intro u w isWaiting
    rw [pc_goto] at isWaiting
    split at isWaiting
    · rename_i isT
      exact isT ▸ same w isWaiting
    · exact isWaiting
  refine ⟨woken.tended, ?_, ?_⟩
  · exact fun u w isWaiting => woken.listed u w (waits u w isWaiting)
  · exact fun u v w one two => woken.apart u v w (waits u w one) (waits v w two)

/-- The gate opens, and the loop begins. -/
theorem Woken.begins {paused connectionLost exc : Bool} (woken : Woken s) (free : s.loop = none) :
    Woken { s with
      paused := paused, connectionLost := connectionLost,
      loop := some (.looking s.drainWaiters, exc) } := by
  have tended := woken.tended
  rw [running_free free] at tended
  exact { woken with tended := tended.begins fun _ member _ => member }

theorem woken_wake (woken : Woken s) (inside : s.loop = some (loop, exc)) :
    Woken (wakeStep s loop exc) := by
  have tended : Tended (· ∈ s.drainWaiters)
      (fun _ => s.paused = true ∧ s.connectionLost = false) s.done (some loop) := by
    have before := woken.tended
    unfold State.running at before
    rwa [inside] at before
  unfold wakeStep
  cases turn : loop.turn s.done with
  | goes loop' => exact { woken with tended := tended.goes turn }
  | settles w loop' =>
      have settles : (if exc then Waiter.exception else .result).done = true := by
        split <;> rfl
      have after := tended.settles turn
      rw [← done_settled _ settles] at after
      exact { woken with tended := after }
  | fails => exact absurd turn tended.not_fails
  | finished => exact { woken with tended := tended.finished turn }

/-- A writer finds its protocol paused. -/
theorem Woken.parks [DecidableEq T] (woken : Woken s) (free : s.loop = none)
    (shut : s.paused = true ∧ s.connectionLost = false) :
    Woken ({ s with
      created := s.created + 1
      waiter := Function.update s.waiter s.created .pending
      drainWaiters := s.drainWaiters ++ [s.created] }.goto t (.await s.created)) := by
  have waits : ∀ u w, (Function.update s.pc t (.await s.created) u).waits = some w →
      u = t ∧ w = s.created ∨ (s.pc u).waits = some w := by
    intro u w isWaiting
    by_cases isT : u = t
    · rw [isT, Function.update_self] at isWaiting
      exact .inl ⟨isT, (Option.some.inj isWaiting).symm⟩
    · rw [Function.update_of_ne isT] at isWaiting
      exact .inr isWaiting
  have none_ := running_free free
  refine ⟨⟨fun w _ _ => .inl shut, ?_⟩, ?_, ?_⟩
  · intro w isChosen
    have isChosen : WakeLoop.chosenOf s.running = some w := isChosen
    rw [none_] at isChosen
    cases isChosen
  · intro u w isWaiting
    rcases waits u w isWaiting with ⟨-, rfl⟩ | was
    · exact ⟨List.mem_append_right _ (List.mem_singleton_self _), Nat.lt_succ_self _⟩
    · obtain ⟨member, below⟩ := woken.listed u w was
      exact ⟨List.mem_append_left _ member, Nat.lt_succ_of_lt below⟩
  · intro u v w one two
    rcases waits u w one with ⟨isT, rfl⟩ | was
    · rcases waits v _ two with ⟨isT', -⟩ | was'
      · exact isT.trans isT'.symm
      · exact absurd (woken.listed v _ was').2 (Nat.lt_irrefl _)
    · rcases waits v w two with ⟨-, rfl⟩ | was'
      · exact absurd (woken.listed u _ was).2 (Nat.lt_irrefl _)
      · exact woken.apart u v w was was'

/-- A waiter that nobody waits for any more is taken from the list. -/
theorem Woken.erase (woken : Woken s) (unwaited : ∀ u, (s.pc u).waits ≠ some w) :
    Woken { s with drainWaiters := s.drainWaiters.erase w } := by
  refine { woken with tended := ?_, listed := ?_ }
  · refine woken.tended.mono ?_ fun _ shut => shut
    exact fun v member _ => .inl (List.mem_of_mem_erase member)
  · intro u v isWaiting
    obtain ⟨member, below⟩ := woken.listed u v isWaiting
    have other : v ≠ w := fun same => unwaited u (same ▸ isWaiting)
    exact ⟨(List.mem_erase_of_ne other).mpr member, below⟩

theorem woken_step [DecidableEq T] (woken : Woken s) (spares : Spares s a)
    (taken : step s a = some s') :
    Woken s' := by
  cases a with
  | drain t =>
      simp only [step] at taken
      split at taken
      · rename_i ready
        split at taken
        · cases taken
          exact woken
        · rename_i waits
          cases taken
          have shut : s.connectionLost = false ∧ s.paused = true := by simpa using waits
          exact woken.parks ready.2 shut.symm
      · cases taken
  | pauseWriting =>
      simp only [step] at taken
      split at taken <;> cases taken
      refine { woken with tended := ?_ }
      refine woken.tended.mono (fun _ member _ => .inl member) ?_
      exact fun _ shut => ⟨rfl, shut.2⟩
  | resumeWriting =>
      simp only [step] at taken
      split at taken
      · rename_i free
        split at taken <;> cases taken
        · exact woken.begins free
        · exact woken
      · cases taken
  | connectionLost exc =>
      simp only [step] at taken
      split at taken <;> cases taken
      rename_i free
      by_cases paused : s.paused = true
      · rw [if_pos paused]
        exact woken.begins free
      · rw [if_neg paused]
        have tended := woken.tended
        rw [running_free free] at tended
        refine { woken with tended := tended.mono (fun _ member _ => .inl member) ?_ }
        exact fun _ shut => absurd shut.1 paused
  | wake =>
      simp only [step] at taken
      split at taken <;> cases taken
      rename_i loop exc inside
      exact woken_wake woken inside
  | cancel w =>
      simp only [step] at taken
      split at taken <;> cases taken
      have done := done_settled (s := s) (w := w) .cancelled rfl
      refine { woken with tended := ?_ }
      rw [done]
      exact woken.tended.settle (spares w rfl)
  | resume t =>
      simp only [step] at taken
      split at taken
      · rename_i w waits
        split at taken <;> cases taken
        refine woken.moves ?_
        rw [waits]
        exact fun _ same => same
      · cases taken
  | leave t =>
      simp only [step] at taken
      split at taken
      · rename_i w waits
        split at taken <;> cases taken
        have moved : Woken (s.goto t .outside) := woken.moves fun _ no => nomatch no
        refine moved.erase ?_
        intro u isWaiting
        rw [pc_goto] at isWaiting
        split at isWaiting
        · cases isWaiting
        · rename_i isNot
          refine isNot (woken.apart u t w isWaiting ?_)
          rw [waits]
          rfl
      · cases taken

theorem woken [DecidableEq T] (reached : (machine T).Reach Spares s) : Woken s := by
  refine reached.invariant Woken ?_ ?_
  · rintro s rfl
    refine ⟨⟨?_, fun _ no => (nomatch no)⟩, fun _ _ no => (nomatch no),
      fun _ _ _ no => (nomatch no)⟩
    exact fun w member => absurd member List.not_mem_nil
  · exact fun s a s' woken spares taken => woken_step woken spares taken

/-- As long as no cancel lands between the `done()` and the `set_result` of one waiter, a
writer sleeps in `drain` only while its protocol is paused and still connected, or while
the thread that resumes it, or loses the connection, is on its way to it. -/
theorem drain_woken [DecidableEq T] (reached : (machine T).Reach Spares s)
    (sleeps : s.pc t = .await w) (pending : s.waiter w = .pending) :
    s.paused = true ∧ s.connectionLost = false ∨
      ∃ loop exc, s.loop = some (loop, exc) ∧ w ∈ loop.ahead := by
  have woken := woken reached
  have listed := woken.listed t w (by rw [sleeps]; rfl)
  have unsettled : s.done w = false := by
    unfold State.done
    rw [pending]
    rfl
  rcases woken.tended.attended w listed.1 unsettled with shut | ahead
  · exact .inl shut
  · obtain ⟨loop, isRunning, member⟩ := WakeLoop.exists_of_mem_aheadOf ahead
    obtain ⟨⟨_, exc⟩, inside, rfl⟩ := Option.map_eq_some_iff.mp isRunning
    exact .inr ⟨_, exc, inside, member⟩

/-- The check of `Spares`. -/
abbrev spares : State T → Act T → Bool :=
  WakeLoop.spares State.running Act.cancels

/-- One writer has been woken up and one was cancelled; the third is ahead. -/
def resumedRun : List (Act Nat) :=
  [.pauseWriting, .drain 0, .drain 1, .drain 2, .cancel 1, .resumeWriting, .wake, .wake, .wake]

theorem resumedRun_ends :
    ((machine Nat).execIf spares (fresh Nat) resumedRun).any
      (fun s => decide (s.pc 2 = .await 2 ∧ s.waiter 2 = .pending ∧ s.paused = false)) =
        true := by
  decide +kernel

theorem drain_woken_ahead :
    ∃ s : State Nat, s.paused = false ∧ ∃ loop exc, s.loop = some (loop, exc) ∧
      2 ∈ loop.ahead := by
  obtain ⟨s, reached, ends⟩ :=
    Machine.Reach.exists_of_execIf WakeLoop.spares_sound rfl resumedRun_ends
  obtain ⟨sleeps, pending, running⟩ := of_decide_eq_true ends
  refine ⟨s, running, (drain_woken reached sleeps pending).resolve_left ?_⟩
  rintro ⟨paused, -⟩
  rw [running] at paused
  cases paused

/-- A cancel lands behind the `done()` of the first waiter, and the second is passed over. -/
def strandingRun : List (Act Nat) :=
  [.pauseWriting, .drain 0, .drain 1, .resumeWriting, .wake, .cancel 0, .wake]

theorem strandingRun_ends :
    ((machine Nat).exec (fresh Nat) strandingRun).any
      (fun s => decide (s.loop = none ∧ s.paused = false ∧ s.pc 1 = .await 1 ∧
        s.waiter 1 = .pending)) = true := by
  decide +kernel

/-- The guard is needed: a cancel between the two leaves a writer asleep beside a protocol
that takes its data. -/
theorem drain_strands :
    ∃ s : State Nat, (machine Nat).Reachable s ∧ s.loop = none ∧ s.paused = false ∧
      s.pc 1 = .await 1 ∧ s.waiter 1 = .pending := by
  obtain ⟨s, reached, ends⟩ := Machine.Reachable.exists_of_exec rfl strandingRun_ends
  exact ⟨s, reached, of_decide_eq_true ends⟩

end MtAsyncio.Drains
