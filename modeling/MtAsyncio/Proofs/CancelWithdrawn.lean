/-
Module: MtAsyncio.Proofs.CancelWithdrawn
Purpose: `uncancel` does not withdraw somebody else's cancel.  The code keeps
  to this unless a `cancel` counts itself and sets `_must_cancel` between the
  comparison of an `uncancel` with zero and its locked write, which then clears
  a request that is not its own.
Trusted boundary: none
Main exports: Stands, Undisturbed, cancel_stands, uncancel_withdraws_cancel
-/
import MtAsyncio.Proofs.RequestSteps

namespace MtAsyncio.Tasks

open Lib (Machine)

variable {T F C : Type} [DecidableEq T] [DecidableEq F] [DecidableEq C]

/-- With no call and no `uncancel` on a live task under way, a cancel that was
counted and not raised is pending, or the future that the task waits on or has
just come from has been sent `cancel()`, or `_runner` has taken the request and
is about to cancel the task. -/
def Stands (s : State T F C) (h : Standing T) : Prop :=
  ∀ t, (∀ c, s.kernel.calling c t = false) → (∀ pc, s.task t ≠ .uncancel pc) →
    s.kernel.state (.task t) = .pending → 0 < s.kernel.numCancelsRequested t →
    h.unraised t = true →
      s.kernel.mustCancel t = true ∨ (h.sent t = true ∧ Sent s t) ∨
        s.task t = .settle .cancelled

structure Undisturbed (p : State T F C × Standing T) (a : Act T F C) : Prop where
  /-- an `uncancel` that clears a counted, unraised request leaves it to a call
  still under way -/
  clears : ∀ t, a = .task t → p.1.task t = .uncancel .clear →
    0 < p.1.kernel.numCancelsRequested t → p.1.kernel.mustCancel t = true →
    p.2.unraised t = true → ∃ c, p.1.kernel.calling c t = true
  /-- a task whose call was passed on to another task still waits on that one
  when the call returns -/
  waits : ∀ c t u frame rest, a = .kernel (.call c) → p.1.kernel.returnsTrue c = true →
    p.1.kernel.calls c = frame :: rest → (t, CancelPc.futCancel (.task u)) ∈ rest →
    p.1.kernel.futWaiter t = some (.task u)
  /-- and that one ends cancelled -/
  honours : ∀ t r, a = .task t → p.1.task t = .awaiting r .read → p.2.sent t = true →
    p.1.kernel.state r = .cancelled

/-- Where a counted, unraised request of a live task is. -/
structure Stand (s : State T F C) (h : Standing T) : Prop where
  sent : ∀ t, h.sent t = true → Sent s t
  owed : ∀ t, s.kernel.state (.task t) = .pending → 0 < s.kernel.numCancelsRequested t →
    h.unraised t = true →
      s.kernel.mustCancel t = true ∨ h.sent t = true ∨ s.task t = .settle .cancelled ∨
        ∃ c, s.kernel.calling c t = true

omit [DecidableEq C] in
/-- A step of the task itself. -/
theorem Stand.own {s s' : State T F C} {h : Standing T} {a : Act T F C} {t : T}
    (stand : Stand s h) (woken : ∀ r, s.task t = .awaiting r .read → s.kernel.event r = true)
    (allowed : Undisturbed (s, h) a) (step : OwnStep s t a s')
    (pending : s'.kernel.state (.task t) = .pending)
    (positive : 0 < s'.kernel.numCancelsRequested t)
    (unraised : (h.record s a s').unraised t = true) :
    s'.kernel.mustCancel t = true ∨ (h.record s a s').sent t = true ∨
      s'.task t = .settle .cancelled ∨ ∃ c, s'.kernel.calling c t = true := by
  simp only [Standing.record, step.answers, Bool.or_false, Bool.and_eq_true,
    Bool.not_eq_true'] at unraised
  obtain ⟨quiet, before⟩ := unraised
  have called : (∃ c, s.kernel.calling c t = true) → ∃ c, s'.kernel.calling c t = true := by
    simp only [Kernel.calling, step.calls]
    exact id
  rcases stand.owed t (step.pending pending) (step.count positive) before with
    must | sent | taken | calling
  · rcases step.keepsMust must with kept | raised | ⟨rfl, clears⟩ | ⟨-, taken⟩
    · exact .inl kept
    · rw [raised] at quiet
      cases quiet
    · exact .inr (.inr (.inr (called
        (allowed.clears t rfl clears (step.count positive) must before))))
    · exact .inr (.inr (.inl taken))
  · rcases step.keepsSent sent with kept | ⟨r, rfl, at_⟩
    · exact .inr (.inl kept)
    · have raised := raises_at_read at_ (woken r at_) (allowed.honours t r rfl at_ sent)
      rw [raised] at quiet
      cases quiet
  · rw [step.atSettle taken] at pending
    exact absurd pending (s.kernel.settle_ended t .cancelled)
  · exact .inr (.inr (.inr (called calling)))

/-- A step of a call. -/
theorem Stand.call {s : State T F C} {h : Standing T} {c : C} {k : Kernel T F C}
    (settled : Settled s) (stand : Stand s h) (allowed : Undisturbed (s, h) (.kernel (.call c)))
    (called : s.kernel.cancelStep c = some k) {t : T}
    (pending : k.state (.task t) = .pending) (positive : 0 < k.numCancelsRequested t)
    (unraised : (h.record s (.kernel (.call c)) { s with kernel := k }).unraised t = true) :
    k.mustCancel t = true ∨ (h.record s (.kernel (.call c)) { s with kernel := k }).sent t = true ∨
      s.task t = .settle .cancelled ∨ ∃ c', k.calling c' t = true := by
  have move := Kernel.cancelStep_move called
  have effect := Kernel.cancelStep_effect called
  rw [move.ended] at pending
  by_cases inside : s.kernel.calling c t = true
  · by_cases returns : s.kernel.returnsTrue c = true
    · rcases move.answered settled returns
        (fun u frame rest stack member => allowed.waits c t u frame rest rfl returns stack member)
        inside with writes | sends
      · exact .inl (move.writes writes)
      · refine .inr (.inl ?_)
        simp [Standing.record, noteSent, passes, returns, sends]
    · have still := move.unanswered (Bool.not_eq_true _ ▸ returns) pending inside
      exact .inr (.inr (.inr ⟨c, still⟩))
  · -- the task is none of those the call is about
    have unasked : s.kernel.calling c t = false := Bool.not_eq_true _ ▸ inside
    have before : h.unraised t = true := by
      simpa [Standing.record, answers, unasked, raises, raisesMust, raisesRead, Act.moves]
        using unraised
    have counted : 0 < s.kernel.numCancelsRequested t ∨ ∃ c', k.calling c' t = true := by
      cases move with
      | counts stack =>
          rename_i u rest
          have other : t ≠ u := by
            rintro rfl
            exact inside (Kernel.calling_iff.mpr ⟨_, stack ▸ List.mem_cons_self⟩)
          simp only [Kernel.setCalls, Kernel.addCancels, Function.update_of_ne other] at positive
          exact .inl positive
      | nests stack => exact .inl positive
      | _ => exact .inl positive
    rcases counted with counted | calling
    · rcases stand.owed t pending counted before with must | sent | taken | ⟨c', calling⟩
      · exact .inl (move.keepsMust must)
      · refine .inr (.inl ?_)
        simp [Standing.record, noteSent, sent, concludes, Act.moves]
      · exact .inr (.inr (.inl taken))
      · have other : c' ≠ c := by
          rintro rfl
          exact inside calling
        refine .inr (.inr (.inr ⟨c', ?_⟩))
        simpa only [Kernel.calling, effect.others c' other] using calling
    · exact .inr (.inr (.inr calling))

theorem stand_step {s s' : State T F C} {h : Standing T} {a : Act T F C}
    (reached : (machine T F C).Reachable s) (stand : Stand s h)
    (allowed : Undisturbed (s, h) a) (taken : step s a = some s') :
    Stand s' (h.record s a s') := by
  have settled := settled_of_reachable reached
  refine ⟨fun t sent => sent_step settled stand.sent taken t sent,
    fun t pending positive unraised => ?_⟩
  cases step_view taken t with
  | own step =>
      exact stand.own (fun r at_ => woken_of_reachable reached t r .read at_ (.inr (.inr rfl)))
        allowed step pending positive unraised
  | call c k label next called =>
      subst label next
      exact stand.call settled allowed called pending positive unraised
  | apart silent same =>
      rw [same.ended] at pending
      rw [same.count] at positive
      simp only [Standing.record, silent.answers, silent.raises, Bool.or_false, Bool.not_false,
        Bool.true_and] at unraised
      rw [same.must, same.task]
      apply (stand.owed t pending positive unraised).imp_right
      rintro (sent | taken | ⟨c, calling⟩)
      · left
        simp [Standing.record, noteSent, sent, concludes, silent.moves]
      · exact .inr (.inl taken)
      · exact .inr (.inr ⟨c, same.calling c calling⟩)

/-- In every run in which no `uncancel` clears a request that is not its own and
the tasks that are sent a cancel end with it. -/
theorem cancel_stands {p : State T F C × Standing T}
    (reached : (standingMachine T F C).Reach Undisturbed p) : Stands p.1 p.2 := by
  have stand : Stand p.1 p.2 := Machine.Reach.recorded Stand
    (fun _ _ => ⟨by rintro _ ⟨⟩, by rintro _ _ _ ⟨⟩⟩)
    (fun _ _ _ _ before stand allowed taken => stand_step before stand allowed taken) reached
  intro t idle _ pending positive unraised
  rcases stand.owed t pending positive unraised with must | sent | taken | ⟨c, calling⟩
  · exact .inl must
  · exact .inr (.inl ⟨sent, stand.sent t sent⟩)
  · exact .inr (.inr taken)
  · rw [idle c] at calling
    cases calling

/-! ## Runs -/

theorem standing_start : (standingMachine T F C).start (freshState T F C, Standing.empty) :=
  ⟨freshState_start, rfl⟩

/-- A whole `cancel` of a running task. -/
def wholeCancel (c : Bool) : List (Act Unit Unit Bool) :=
  .kernel (.cancel c ()) :: .replicate 3 (.kernel (.call c))

/-- The task takes one cancel back; another one comes between the comparison
and the locked write of its `uncancel`. -/
def withdrawingRun : List (Act Unit Unit Bool) :=
  List.flatten
    [wholeCancel false, .uncancel () :: .replicate 3 (.task ()), wholeCancel true, [.task ()]]

theorem withdrawingRun_ends :
    ((standingMachine Unit Unit Bool).exec (freshState _ _ _, .empty) withdrawingRun).any
      (fun p => p.1.task () = .running ∧ p.1.kernel.state (.task ()) = .pending ∧
        p.1.kernel.numCancelsRequested () = 1 ∧ p.1.kernel.mustCancel () = false ∧
        p.2.unraised () = true ∧ p.2.sent () = false ∧
        p.1.kernel.calls false = [] ∧ p.1.kernel.calls true = []) = true := by
  decide +kernel

theorem uncancel_withdraws_cancel :
    ¬ ∀ p : State Unit Unit Bool × Standing Unit,
      (standingMachine Unit Unit Bool).Reachable p → Stands p.1 p.2 := by
  intro always
  obtain ⟨p, reached, ends⟩ :=
    Machine.Reachable.exists_of_exec standing_start withdrawingRun_ends
  obtain ⟨running, pending, counted, clear, unraised, unsent, first, second⟩ :=
    of_decide_eq_true ends
  have idle : ∀ c, p.1.kernel.calling c () = false := by
    intro c
    cases c <;> simp [Kernel.calling, first, second]
  rcases always p reached () idle (by simp [running]) pending (by omega) unraised with
    must | ⟨sent, -⟩ | taken
  · rw [clear] at must
    cases must
  · rw [unsent] at sent
    cases sent
  · rw [running] at taken
    cases taken

/-- A decidable part of `Undisturbed` for one task: single calls, and no
`uncancel` that clears a counted, unraised request. -/
def undisturbed (p : State Unit F C × Standing Unit) : Act Unit F C → Bool
  | .kernel (.call c) => (p.1.kernel.calls c).length ≤ 1
  | .task _ => match p.1.task () with
      | .uncancel .clear => !(0 < p.1.kernel.numCancelsRequested () && p.1.kernel.mustCancel () &&
          p.2.unraised ())
      | .awaiting r .read => !p.2.sent () || p.1.kernel.state r = .cancelled
      | _ => true
  | _ => true

omit [DecidableEq F] [DecidableEq C] in
theorem undisturbed_sound (p : State Unit F C × Standing Unit) (a : Act Unit F C)
    (checked : undisturbed p a = true) : Undisturbed p a := by
  constructor
  · rintro t rfl at_ counted must unraised
    simp [undisturbed, at_, counted, must, unraised] at checked
  · rintro c t u frame rest rfl - stack member
    simp only [undisturbed, stack, List.length_cons, decide_eq_true_eq] at checked
    have empty : rest = [] := List.eq_nil_of_length_eq_zero (by omega)
    rw [empty] at member
    cases member
  · rintro t r rfl at_ sent
    simpa [undisturbed, at_, sent] using checked

/-- Two cancels, of which the task takes one back. -/
def standingRun : List (Act Unit Unit Bool) :=
  List.flatten [wholeCancel false, wholeCancel true, .uncancel () :: .replicate 3 (.task ())]

theorem standingRun_ends :
    ((standingMachine Unit Unit Bool).execIf undisturbed (freshState _ _ _, .empty)
      standingRun).any
      (fun p => p.1.task () = .running ∧ p.1.kernel.numCancelsRequested () = 1 ∧
        p.2.unraised () = true) = true := by
  decide +kernel

theorem cancel_stands_after_uncancel :
    ∃ p : State Unit Unit Bool × Standing Unit, p.1.task () = .running ∧
      p.1.kernel.numCancelsRequested () = 1 ∧ p.2.unraised () = true ∧ Stands p.1 p.2 := by
  obtain ⟨p, reached, ends⟩ :=
    Machine.Reach.exists_of_execIf undisturbed_sound standing_start standingRun_ends
  obtain ⟨running, counted, unraised⟩ := of_decide_eq_true ends
  exact ⟨p, running, counted, unraised, cancel_stands reached⟩

end MtAsyncio.Tasks
