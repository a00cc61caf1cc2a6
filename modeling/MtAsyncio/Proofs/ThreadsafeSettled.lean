/-
Module: MtAsyncio.Proofs.ThreadsafeSettled
Purpose: When `run_coroutine_threadsafe` settles its future: `_chain` hands every
  outcome over but a cancelled one, since a future that it has marked as running
  cannot be cancelled any more.
Trusted boundary: none
Main exports: Outcome.agrees, Settles, Sane, sane_of_reachable, settles_iff
-/
import MtAsyncio.Model.Threadsafe

namespace MtAsyncio.Threadsafe

open Lib (Machine)

variable {V X : Type} {s s' : State V X} {o : Outcome V X} {f : Conc V X}

/-- The future has the outcome of the task. -/
def Outcome.agrees : Outcome V X → Conc V X → Prop
  | .result v, f => f = .result v
  | .exception x, f => f = .exception x
  | .cancelled, f => f.isCancelled = true

/-- The future is in a terminal state, and it has the outcome of the task unless the
caller has cancelled it. -/
structure Settles (s : State V X) : Prop where
  terminal : s.future.terminal = true
  same : s.took = false → ∀ o, s.task = .done o → o.agrees s.future

/-! ## The states of the future -/

/-- Nobody but the caller has touched the future. -/
def Untouched (s : State V X) : Prop :=
  s.future = if s.took then .cancelled else .pending

/-- What `_chain` leaves behind for a task with outcome `o`. -/
def Handed (s : State V X) (o : Outcome V X) : Prop :=
  if s.took then s.future.isCancelled = true
  else match o with
    | .result v => s.future = .result v
    | .exception x => s.future = .exception x
    | .cancelled => s.future = .running

/-- `_callback` holds the future. -/
def CallbackHolds (s : State V X) : CallbackPc X → Prop
  | .create => s.task = .absent ∧ Untouched s
  | .attach => s.task ≠ .absent ∧ Untouched s
  | .notify _ => s.task = .absent ∧ Untouched s
  | .store _ => s.task = .absent ∧ s.future = .running ∧ s.took = false
  | .raised _ => s.task = .absent ∧ s.future.terminal = true
  | .returned | .broken => False

/-- Where `_callback` and `_chain` stand, and what they have made of the future. -/
def Holds (s : State V X) : ChainPc → Prop
  | .absent => CallbackHolds s s.callback
  | .attached => s.callback = .returned ∧ s.task ≠ .absent ∧ s.task.isDone = false ∧ Untouched s
  | .scheduled | .notify => s.callback = .returned ∧ s.task.isDone = true ∧ Untouched s
  | .transfer =>
      s.callback = .returned ∧ s.task.isDone = true ∧ s.future = .running ∧ s.took = false
  | .returned => s.callback = .returned ∧ ∃ o, s.task = .done o ∧ Handed s o
  | .broken => False

def Sane (s : State V X) : Prop :=
  Holds s s.chain

/-! ## The caller -/

def State.cancel (s : State V X) : State V X :=
  { s with future := s.future.cancel.2, took := s.took || s.future.cancel.1 }

theorem untouched_cancel (untouched : Untouched s) : Untouched s.cancel := by
  unfold Untouched at untouched
  cases took : s.took with
  | true =>
      rw [took] at untouched
      simp [Untouched, State.cancel, untouched, took, Conc.cancel]
  | false =>
      rw [took] at untouched
      simp [Untouched, State.cancel, untouched, Conc.cancel]

/-- A running future cannot be cancelled. -/
theorem running_cancel (running : s.future = .running) (took : s.took = false) :
    s.cancel.future = .running ∧ s.cancel.took = false := by
  simp [State.cancel, running, took, Conc.cancel]

theorem terminal_cancel (terminal : s.future.terminal = true) :
    s.cancel.future.terminal = true := by
  show s.future.cancel.2.terminal = true
  cases future : s.future with
  | pending | running =>
      rw [future] at terminal
      cases terminal
  | cancelled | cancelledAndNotified | result | exception => rfl

theorem handed_cancel (handed : Handed s o) : Handed s.cancel o := by
  cases took : s.took with
  | true =>
      simp only [Handed, took, if_true] at handed
      cases future : s.future with
      | cancelled | cancelledAndNotified =>
          simp [Handed, State.cancel, took, future, Conc.cancel, Conc.isCancelled]
      | _ =>
          rw [future] at handed
          cases handed
  | false =>
      cases o <;> simp only [Handed, took] at handed <;>
        simp_all [Handed, State.cancel, Conc.cancel]

theorem callbackHolds_cancel {pc : CallbackPc X} (holds : CallbackHolds s pc) :
    CallbackHolds s.cancel pc := by
  cases pc with
  | create | attach | notify => exact ⟨holds.1, untouched_cancel holds.2⟩
  | store => exact ⟨holds.1, running_cancel holds.2.1 holds.2.2⟩
  | raised => exact ⟨holds.1, terminal_cancel holds.2⟩
  | returned | broken => exact holds

theorem sane_cancel (sane : Sane s) : Sane s.cancel := by
  unfold Sane at sane ⊢
  show Holds s.cancel s.chain
  cases chain : s.chain with
  | absent =>
      rw [chain] at sane
      exact callbackHolds_cancel sane
  | attached =>
      rw [chain] at sane
      exact ⟨sane.1, sane.2.1, sane.2.2.1, untouched_cancel sane.2.2.2⟩
  | scheduled | notify =>
      rw [chain] at sane
      exact ⟨sane.1, sane.2.1, untouched_cancel sane.2.2⟩
  | transfer =>
      rw [chain] at sane
      exact ⟨sane.1, sane.2.1, running_cancel sane.2.2.1 sane.2.2.2⟩
  | returned =>
      rw [chain] at sane
      obtain ⟨returned, o, done, handed⟩ := sane
      exact ⟨returned, o, done, handed_cancel handed⟩
  | broken =>
      rw [chain] at sane
      exact sane

/-! ## `_callback` -/

/-- Before `_callback` has returned there is no `_chain`. -/
theorem Sane.absent (sane : Sane s) (before : s.callback ≠ .returned) : s.chain = .absent := by
  unfold Sane at sane
  cases chain : s.chain with
  | absent => rfl
  | attached | scheduled | notify | transfer | returned =>
      rw [chain] at sane
      exact absurd sane.1 before
  | broken =>
      rw [chain] at sane
      exact sane.elim

theorem Sane.callback (sane : Sane s) (before : s.callback ≠ .returned) :
    CallbackHolds s s.callback := by
  have absent := sane.absent before
  unfold Sane at sane
  rw [absent] at sane
  exact sane

/-- What `set_running_or_notify_cancel` finds in a future that only the caller has
touched. -/
theorem notify_untouched (untouched : Untouched s) :
    s.future.setRunningOrNotifyCancel =
      if s.took then some (false, .cancelledAndNotified) else some (true, .running) := by
  rw [untouched]
  split <;> rfl

theorem sane_create {error : Option X} (sane : Sane s)
    (taken : step s (.create error) = some s') : Sane s' := by
  simp only [step] at taken
  split at taken
  · rename_i create
    have before : s.callback ≠ .returned := by simp [create]
    have holds := sane.callback before
    have absent := sane.absent before
    rw [create] at holds
    obtain rfl := Option.some.inj taken
    unfold Sane
    rw [absent]
    exact ⟨by simp, holds.2⟩
  · rename_i create
    have before : s.callback ≠ .returned := by simp [create]
    have holds := sane.callback before
    have absent := sane.absent before
    rw [create] at holds
    obtain rfl := Option.some.inj taken
    unfold Sane
    rw [absent]
    exact holds
  · cases taken

theorem sane_callback (sane : Sane s) (taken : callbackStep s = some s') : Sane s' := by
  unfold callbackStep at taken
  split at taken
  · rename_i attach
    have holds := sane.callback (by simp [attach])
    rw [attach] at holds
    obtain rfl := Option.some.inj taken
    show Holds _ (if s.task.isDone then ChainPc.scheduled else .attached)
    split
    · rename_i done
      exact ⟨rfl, done, holds.2⟩
    · rename_i live
      exact ⟨rfl, holds.1, by simpa using live, holds.2⟩
  · rename_i x notify
    have before : s.callback ≠ .returned := by simp [notify]
    have holds := sane.callback before
    have absent := sane.absent before
    rw [notify] at holds
    rw [notify_untouched holds.2] at taken
    cases took : s.took with
    | true =>
        simp only [took, if_true] at taken
        obtain rfl := Option.some.inj taken
        unfold Sane
        rw [absent]
        exact ⟨holds.1, rfl⟩
    | false =>
        simp only [took] at taken
        obtain rfl := Option.some.inj taken
        unfold Sane
        rw [absent]
        exact ⟨holds.1, rfl, rfl⟩
  · rename_i x store
    have before : s.callback ≠ .returned := by simp [store]
    have holds := sane.callback before
    have absent := sane.absent before
    rw [store] at holds
    simp only [holds.2.1, Conc.settle] at taken
    obtain rfl := Option.some.inj taken
    unfold Sane
    rw [absent]
    exact ⟨holds.1, rfl⟩
  all_goals cases taken

/-! ## The task -/

/-- While the task runs, `_callback` is about to attach `_chain`, or has attached it. -/
theorem Sane.running {mustCancel : Bool} (sane : Sane s) (running : s.task = .running mustCancel) :
    (s.chain = .absent ∧ s.callback = .attach ∨ s.chain = .attached ∧ s.callback = .returned) ∧
      Untouched s := by
  unfold Sane at sane
  cases chain : s.chain with
  | absent =>
      rw [chain] at sane
      change CallbackHolds s s.callback at sane
      cases callback : s.callback with
      | attach =>
          rw [callback] at sane
          exact ⟨.inl ⟨rfl, rfl⟩, sane.2⟩
      | create | notify | store | raised =>
          rw [callback] at sane
          have absent := sane.1
          rw [running] at absent
          cases absent
      | returned | broken =>
          rw [callback] at sane
          exact sane.elim
  | attached =>
      rw [chain] at sane
      exact ⟨.inr ⟨rfl, sane.1⟩, sane.2.2.2⟩
  | scheduled | notify | transfer =>
      rw [chain] at sane
      have done := sane.2.1
      rw [running] at done
      cases done
  | returned =>
      rw [chain] at sane
      obtain ⟨-, o, done, -⟩ := sane
      rw [running] at done
      cases done
  | broken =>
      rw [chain] at sane
      exact sane.elim

/-- A request, or its delivery, to a task that is running. -/
theorem sane_request {before after : Bool} (sane : Sane s) (running : s.task = .running before) :
    Sane { s with task := .running after } := by
  obtain ⟨⟨chain, callback⟩ | ⟨chain, callback⟩, untouched⟩ := sane.running running
  · show Holds _ s.chain
    rw [chain]
    show CallbackHolds _ s.callback
    rw [callback]
    exact ⟨by simp, untouched⟩
  · show Holds _ s.chain
    rw [chain]
    exact ⟨callback, by simp, rfl, untouched⟩

theorem sane_finish {mustCancel : Bool} (sane : Sane s) (running : s.task = .running mustCancel) :
    Sane { s with
      task := .done o
      chain := if s.chain = .attached then .scheduled else s.chain } := by
  obtain ⟨⟨chain, callback⟩ | ⟨chain, callback⟩, untouched⟩ := sane.running running
  · show Holds _ (if s.chain = .attached then .scheduled else s.chain)
    rw [chain]
    show CallbackHolds _ s.callback
    rw [callback]
    exact ⟨by simp, untouched⟩
  · show Holds _ (if s.chain = .attached then .scheduled else s.chain)
    rw [chain]
    exact ⟨callback, rfl, untouched⟩

/-! ## `_chain` -/

theorem Task.exists_of_isDone {t : Task V X} (done : t.isDone = true) : ∃ o, t = .done o := by
  cases t with
  | done o => exact ⟨o, rfl⟩
  | absent | running => cases done

/-- What `_chain` makes of a future that it has marked as running: of a cancelled
task it makes nothing. -/
theorem handed_transfer (took : s.took = false) (transferred : o.transfer .running = some f) :
    Handed { s with future := f, chain := .returned } o := by
  simp only [Handed, took]
  cases o with
  | result | exception =>
      simp only [Outcome.transfer, Conc.settle] at transferred
      exact (Option.some.inj transferred).symm
  | cancelled => exact (Option.some.inj transferred).symm

theorem sane_chain (sane : Sane s) (taken : chainStep s = some s') : Sane s' := by
  unfold chainStep at taken
  unfold Sane at sane
  cases chain : s.chain with
  | scheduled =>
      simp only [chain] at taken sane
      obtain ⟨returned, done, untouched⟩ := sane
      obtain rfl := Option.some.inj taken
      show Holds _ (if s.future.isCancelled then ChainPc.returned else .notify)
      split
      · rename_i cancelled
        obtain ⟨o, done⟩ := Task.exists_of_isDone done
        refine ⟨returned, o, done, ?_⟩
        have took : s.took = true := by
          by_contra not
          rw [untouched, if_neg not] at cancelled
          cases cancelled
        simpa [Handed, took] using cancelled
      · exact ⟨returned, done, untouched⟩
  | notify =>
      simp only [chain] at taken sane
      obtain ⟨returned, done, untouched⟩ := sane
      rw [notify_untouched untouched] at taken
      cases took : s.took with
      | true =>
          simp only [took, if_true] at taken
          obtain rfl := Option.some.inj taken
          obtain ⟨o, done⟩ := Task.exists_of_isDone done
          refine ⟨returned, o, done, ?_⟩
          simp [Handed, Conc.isCancelled]
      | false =>
          simp only [took] at taken
          obtain rfl := Option.some.inj taken
          exact ⟨returned, done, rfl, rfl⟩
  | transfer =>
      simp only [chain] at taken sane
      obtain ⟨returned, done, running, took⟩ := sane
      obtain ⟨o, done⟩ := Task.exists_of_isDone done
      simp only [done, running] at taken
      split at taken
      · rename_i broken
        cases o <;> simp [Outcome.transfer, Conc.settle] at broken
      · rename_i future transferred
        obtain rfl := Option.some.inj taken
        exact ⟨returned, o, rfl, handed_transfer took transferred⟩
  | absent | attached | returned | broken => simp [chain] at taken

theorem sane_step {a : Act V X} (sane : Sane s) (taken : step s a = some s') : Sane s' := by
  cases a with
  | cancel =>
      obtain rfl := Option.some.inj taken
      exact sane_cancel sane
  | create error => exact sane_create sane taken
  | callback => exact sane_callback sane taken
  | request | deliver =>
      simp only [step] at taken
      split at taken
      · rename_i running
        obtain rfl := Option.some.inj taken
        exact sane_request sane running
      · cases taken
  | finish ending =>
      simp only [step] at taken
      split at taken
      · rename_i running
        obtain rfl := Option.some.inj taken
        exact sane_finish sane running
      · cases taken
  | chain => exact sane_chain sane taken

theorem sane_of_reachable (reached : (machine V X).Reachable s) : Sane s := by
  refine Machine.Reach.invariant Sane ?_ ?_ reached
  · rintro s rfl
    exact ⟨rfl, rfl⟩
  · intro s a s' sane _ taken
    exact sane_step sane taken

/-! ## The claim -/

theorem settles_of_handed (done : s.task = .done o) (handed : Handed s o) :
    Settles s ↔ (o ≠ .cancelled ∨ s.took = true) := by
  cases took : s.took with
  | true =>
      simp only [Handed, took, if_true] at handed
      refine iff_of_true ⟨?_, fun untaken => ?_⟩ (.inr rfl)
      · cases future : s.future with
        | cancelled | cancelledAndNotified => rfl
        | _ =>
            rw [future] at handed
            cases handed
      · rw [took] at untaken
        cases untaken
  | false =>
      simp only [Handed, took] at handed
      cases o with
      | result v =>
          refine iff_of_true ⟨by rw [handed]; rfl, ?_⟩ (.inl (by simp))
          intro _ o' done'
          obtain rfl := Task.done.inj (done.symm.trans done')
          exact handed
      | exception x =>
          refine iff_of_true ⟨by rw [handed]; rfl, ?_⟩ (.inl (by simp))
          intro _ o' done'
          obtain rfl := Task.done.inj (done.symm.trans done')
          exact handed
      | cancelled =>
          refine iff_of_false ?_ (by simp)
          intro settles
          have terminal := settles.terminal
          rw [handed] at terminal
          cases terminal

/-- `_chain` and `_callback` always come to their ends.  Behind `_chain` the future
is settled if and only if the task was not cancelled or the caller's own `cancel()`
came through; behind a `create_task` that raised it is settled. -/
theorem settles_iff (reached : (machine V X).Reachable s) :
    s.chain ≠ .broken ∧ s.callback ≠ .broken ∧
      (s.chain = .returned → (Settles s ↔ s.task ≠ .done .cancelled ∨ s.took = true)) ∧
        ∀ x, s.callback = .raised x → s.future.terminal = true := by
  have sane := sane_of_reachable reached
  refine ⟨?_, ?_, ?_, ?_⟩
  · intro broken
    unfold Sane at sane
    rw [broken] at sane
    exact sane
  · intro broken
    have holds := sane.callback (by simp [broken])
    rw [broken] at holds
    exact holds
  · intro returned
    unfold Sane at sane
    rw [returned] at sane
    obtain ⟨-, o, done, handed⟩ := sane
    rw [settles_of_handed done handed, done]
    simp
  · intro x raised
    have holds := sane.callback (by simp [raised])
    rw [raised] at holds
    exact holds.2

/-! ## Runs -/

theorem resultRun_ends :
    ((machine Nat Nat).exec (.start Nat Nat)
      [.create none, .finish (.returned 7), .callback, .chain, .chain, .cancel, .chain]).any
      (fun s => s.chain = .returned ∧ s.task = .done (.result 7) ∧ s.took = false) = true := by
  decide +kernel

theorem settles_iff_result :
    ∃ s : State Nat Nat, s.chain = .returned ∧ s.task = .done (.result 7) ∧ Settles s := by
  obtain ⟨s, reached, ends⟩ := Machine.Reachable.exists_of_exec rfl resultRun_ends
  obtain ⟨returned, done, -⟩ := of_decide_eq_true ends
  refine ⟨s, returned, done, ((settles_iff reached).2.2.1 returned).mpr (.inl ?_)⟩
  rw [done]
  decide

/-- The task is cancelled, and the caller has not touched the future. -/
theorem cancelledRun_ends :
    ((machine Nat Nat).exec (.start Nat Nat)
      [.create none, .callback, .request, .deliver, .finish .cancelledError, .chain, .chain,
        .chain]).any
      (fun s => s.chain = .returned ∧ s.future = .running) = true := by
  decide +kernel

theorem cancelled_never_settles :
    ¬∀ s : State Nat Nat, (machine Nat Nat).Reachable s → s.chain = .returned → Settles s := by
  intro always
  obtain ⟨s, reached, ends⟩ := Machine.Reachable.exists_of_exec rfl cancelledRun_ends
  obtain ⟨returned, running⟩ := of_decide_eq_true ends
  have terminal := (always s reached returned).terminal
  rw [running] at terminal
  cases terminal

end MtAsyncio.Threadsafe
