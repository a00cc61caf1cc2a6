/-
Module: MtAsyncio.Proofs.CancelCoalesced
Purpose: Cancels that reach a parked task before it resumes are one cancel.
  The code keeps to this as long as a call finds the future it read still
  pending: a call that finds it cancelled already sets `_must_cancel`, which
  the raise at the await does not clear, and the next await raises again.
Trusted boundary: none
Main exports: Coalesced, FindsPending, cancels_are_coalesced,
  second_cancel_raises_again
-/
import MtAsyncio.Proofs.RequestSteps

namespace MtAsyncio.Tasks

open Lib (Machine)

variable {T F C : Type} [DecidableEq T] [DecidableEq F] [DecidableEq C]

/-- The rule about the cancels that reached a task before its resumption. -/
structure Coalesced (s : State T F C) (h : Coalescing T) : Prop where
  /-- the future was cancelled for them, so the await will raise -/
  received : ∀ t f pc, h.sent t = true → s.task t = .awaiting (.fut f) pc →
    s.kernel.state (.fut f) = .cancelled
  /-- it has raised, and nothing is left of them -/
  cleared : ∀ t, h.delivered t = true → (∀ c, s.kernel.calling c t = false) →
    s.kernel.mustCancel t = false
  once : ∀ t, h.again t = false

/-- No call finds the future it read cancelled for an earlier call, and none is
passed on while `_must_cancel` is set. -/
structure FindsPending (p : State T F C × Coalescing T) (a : Act T F C) : Prop where
  set : ∀ c t rest, a = .kernel (.call c) → p.1.kernel.calls c = (t, .set) :: rest →
    (p.2.sent t = true → p.2.late t = true) ∧ p.2.delivered t = false
  passes : ∀ t, passes p.1 a t = true → p.1.kernel.mustCancel t = false

/-- `_must_cancel` is clear from the moment a call is passed on to the raise and
after it, until the next call. -/
structure Spent (s : State T F C) (h : Coalescing T) : Prop where
  sent : ∀ t, h.sent t = true → Sent s t
  parked : ∀ t, h.sent t = true → h.late t = false → s.kernel.mustCancel t = false
  delivered : ∀ t, h.delivered t = true → s.kernel.mustCancel t = false
  once : ∀ t, h.again t = false

omit [DecidableEq C] in
/-- A step that sets no request of `t` and is no step of a call. -/
theorem Spent.quiet {s s' : State T F C} {h : Coalescing T} {a : Act T F C} (spent : Spent s h)
    {t : T} (unpassed : passes s a t = false) (unread : looks s a t = false)
    (parks : h.sent t = true → parks s a t = false)
    (must : s'.kernel.mustCancel t = true → s.kernel.mustCancel t = true) :
    ((h.record s a s').sent t = true → (h.record s a s').late t = false →
        s'.kernel.mustCancel t = false) ∧
      ((h.record s a s').delivered t = true → s'.kernel.mustCancel t = false) ∧
        (h.record s a s').again t = false := by
  have down : s.kernel.mustCancel t = false → s'.kernel.mustCancel t = false := by
    intro clear
    by_contra raised
    rw [must (Bool.not_eq_false _ ▸ raised)] at clear
    cases clear
  refine ⟨fun sent late => ?_, fun delivered => ?_, ?_⟩
  · simp only [Coalescing.record, noteSent, unpassed, Bool.false_or, Bool.and_eq_true] at sent
    simp only [Coalescing.record, unread, parks sent.1, Bool.false_and, Bool.false_or,
      Bool.not_false, Bool.and_true] at late
    exact down (spent.parked t sent.1 late)
  · simp only [Coalescing.record, unread, Bool.not_false, Bool.true_and, Bool.or_eq_true,
      Bool.and_eq_true, Bool.not_eq_true'] at delivered
    rcases delivered with before | ⟨⟨-, sent⟩, late⟩
    · exact down (spent.delivered t before)
    · exact down (spent.parked t sent late)
  · simp only [Coalescing.record, spent.once t, Bool.false_or, Bool.and_eq_false_iff]
    by_cases delivered : h.delivered t = true
    · right
      simp only [raisesMust, spent.delivered t delivered, Bool.and_false]
    · exact .inl (Bool.not_eq_true _ ▸ delivered)

theorem spent_step {s s' : State T F C} {h : Coalescing T} {a : Act T F C} (settled : Settled s)
    (spent : Spent s h) (allowed : FindsPending (s, h) a) (taken : step s a = some s') :
    Spent s' (h.record s a s') := by
  have each : ∀ t, ((h.record s a s').sent t = true → (h.record s a s').late t = false →
        s'.kernel.mustCancel t = false) ∧
      ((h.record s a s').delivered t = true → s'.kernel.mustCancel t = false) ∧
        (h.record s a s').again t = false := by
    intro t
    cases step_view taken t with
    | apart silent same =>
        exact spent.quiet silent.passes silent.looks (fun _ => silent.parks)
          (by rw [same.must]; exact id)
    | own step =>
        exact spent.quiet step.passes step.looks (fun sent => (spent.sent t sent).parks a)
          step.must
    | call c k label next called =>
        subst label next
        have move := Kernel.cancelStep_move called
        -- where the request comes from, the history says so
        have raised : k.mustCancel t = true → s.kernel.mustCancel t = true ∨
            ((h.sent t = true → h.late t = true) ∧ h.delivered t = false ∧
              s.kernel.sends c t = false) ∨
            (s.kernel.futWaiter t = none ∧ looks s (.kernel (.call c)) t = true) := by
          intro must
          rcases move.must t must with before | ⟨pc, rest, stack, rfl | ⟨rfl, free⟩⟩
          · exact .inl before
          · obtain ⟨late, undelivered⟩ := allowed.set c t rest rfl stack
            refine .inr (.inl ⟨late, undelivered, ?_⟩)
            cases waits : s.kernel.futWaiter t <;> simp [Kernel.sends, waits, stack]
          · exact .inr (.inr ⟨free, by simp [looks, stack]⟩)
        refine ⟨fun sent late => ?_, fun delivered => ?_, ?_⟩
        · by_contra up
          have must : k.mustCancel t = true := Bool.not_eq_false _ ▸ up
          simp only [Coalescing.record, noteSent, Bool.or_eq_true, Bool.and_eq_true] at sent
          simp only [Coalescing.record, Bool.or_eq_false_iff, Bool.and_eq_false_iff] at late
          rcases raised must with before | ⟨later, -, unsent⟩ | ⟨free, looked⟩
          · rcases sent with passed | ⟨was, -⟩
            · rw [allowed.passes t passed] at before
              cases before
            · have unlate : h.late t = false := by simpa [parks, Act.moves] using late.2
              rw [spent.parked t was unlate] at before
              cases before
          · rcases sent with passed | ⟨was, -⟩
            · simp [passes, unsent] at passed
            · have unlate : h.late t = false := by simpa [parks, Act.moves] using late.2
              rw [later was] at unlate
              cases unlate
          · rcases late.1 with unread | parked
            · rw [looked] at unread
              cases unread
            · simp [free] at parked
        · by_contra up
          have must : k.mustCancel t = true := Bool.not_eq_false _ ▸ up
          simp only [Coalescing.record, Bool.and_eq_true, Bool.not_eq_true', raisesRead,
            Act.moves, Bool.false_and, Bool.or_false] at delivered
          rcases raised must with before | ⟨-, undelivered, -⟩ | ⟨-, looked⟩
          · rw [spent.delivered t delivered.2] at before
            cases before
          · rw [undelivered] at delivered
            cases delivered.2
          · rw [looked] at delivered
            cases delivered.1
        · simp only [Coalescing.record, spent.once t, raisesMust, Act.moves, Bool.false_and,
            Bool.and_false, Bool.or_self]
  refine ⟨fun t sent => sent_step settled spent.sent taken t sent, fun t => (each t).1,
    fun t => (each t).2.1, fun t => (each t).2.2⟩

/-- In every run in which calls find the future they read pending. -/
theorem cancels_are_coalesced {p : State T F C × Coalescing T}
    (reached : (coalescingMachine T F C).Reach FindsPending p) : Coalesced p.1 p.2 := by
  have spent : Spent p.1 p.2 := Machine.Reach.recorded Spent
    (fun _ _ => ⟨by rintro _ ⟨⟩, by rintro _ ⟨⟩, by rintro _ ⟨⟩, fun _ => rfl⟩)
    (fun _ _ _ _ before spent allowed taken =>
      spent_step (settled_of_reachable before) spent allowed taken) reached
  refine ⟨fun t f pc sent at_ => ?_, fun t delivered _ => spent.delivered t delivered, spent.once⟩
  obtain ⟨r, pc', here, -, cancelled⟩ := spent.sent t sent
  rw [at_] at here
  cases here
  exact cancelled f rfl

/-! ## Runs -/

theorem coalescing_start : (coalescingMachine T F C).start (freshState T F C, Coalescing.empty) :=
  ⟨freshState_start, rfl⟩

/-- Two threads cancel a task parked on a future before it resumes; it raises
there and awaits another future to clean up. -/
def twiceRun : List (Act Unit Bool Bool) :=
  List.flatten
    [.await () (.fut false) :: .replicate 3 (.task ()),
      .kernel (.cancel false ()) :: .replicate 4 (.kernel (.call false)),
      .kernel (.cancel true ()) :: .replicate 5 (.kernel (.call true)),
      .kernel (.wake (.fut false)) :: .replicate 3 (.task ()),
      .await () (.fut true) :: .replicate 2 (.task ())]

theorem twiceRun_ends :
    ((coalescingMachine Unit Bool Bool).exec (freshState _ _ _, .empty) twiceRun).any
      (fun p => p.2.again ()) = true := by
  decide +kernel

theorem second_cancel_raises_again :
    ¬ ∀ p : State Unit Bool Bool × Coalescing Unit,
      (coalescingMachine Unit Bool Bool).Reachable p → Coalesced p.1 p.2 := by
  intro always
  obtain ⟨p, reached, again⟩ := Machine.Reachable.exists_of_exec coalescing_start twiceRun_ends
  rw [(always p reached).once ()] at again
  cases again

/-- `FindsPending` for one task, decided by the history. -/
def findsPending (p : State Unit F C × Coalescing Unit) (a : Act Unit F C) : Bool :=
  (match a with
    | .kernel (.call c) => match p.1.kernel.calls c with
        | (_, .set) :: _ => (!p.2.sent () || p.2.late ()) && !p.2.delivered ()
        | _ => true
    | _ => true) && (!passes p.1 a () || !p.1.kernel.mustCancel ())

omit [DecidableEq C] in
theorem findsPending_sound (p : State Unit F C × Coalescing Unit) (a : Act Unit F C)
    (checked : findsPending p a = true) : FindsPending p a := by
  simp only [findsPending, Bool.and_eq_true, Bool.or_eq_true, Bool.not_eq_true'] at checked
  constructor
  · rintro c t rest rfl stack
    have found := checked.1
    simp only [stack, Bool.and_eq_true, Bool.or_eq_true, Bool.not_eq_true'] at found
    refine ⟨fun sent => found.1.resolve_left ?_, found.2⟩
    rw [sent]
    simp
  · intro t passed
    refine checked.2.resolve_left ?_
    rw [passed]
    simp

/-- One cancel reaches the task before it resumes. -/
def onceRun : List (Act Unit Bool Bool) :=
  List.flatten
    [.await () (.fut false) :: .replicate 3 (.task ()),
      .kernel (.cancel false ()) :: .replicate 4 (.kernel (.call false)),
      .kernel (.wake (.fut false)) :: .replicate 3 (.task ())]

theorem onceRun_ends :
    ((coalescingMachine Unit Bool Bool).execIf findsPending (freshState _ _ _, .empty) onceRun).any
      (fun p => p.2.delivered ()) = true := by
  decide +kernel

theorem cancels_are_coalesced_once :
    ∃ p : State Unit Bool Bool × Coalescing Unit,
      p.2.delivered () = true ∧ Coalesced p.1 p.2 := by
  obtain ⟨p, reached, delivered⟩ :=
    Machine.Reach.exists_of_execIf findsPending_sound coalescing_start onceRun_ends
  exact ⟨p, delivered, cancels_are_coalesced reached⟩

end MtAsyncio.Tasks
