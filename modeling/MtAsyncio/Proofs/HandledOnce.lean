/-
Module: MtAsyncio.Proofs.HandledOnce
Purpose: A handle that was pushed is in exactly one place, whatever is popped, stolen and
  pushed beside it: in a queue, with one worker, or behind its one run.
Trusted boundary: none
Main exports: queued, carried, workerStep_handles, Ledger, ledger, handled_once
-/
import Mathlib.Algebra.BigOperators.Group.Finset.Basic
import Mathlib.Algebra.Order.Group.Multiset
import MtAsyncio.Lib.Ledger
import MtAsyncio.Model.Shutdown
import MtAsyncio.Proofs.WorkTokens

namespace MtAsyncio.Shutdown

open Lib (Machine)
open scoped BigOperators
open WorkSchedule (Shared Worker WorkerPc Unparking PushOp workerStep)

variable {n m : Nat} {H : Type} {g g' : Shared n H} {i : Fin n} {w w' : Worker n H}
  {s s' : State n m H} {a : Act n m H}

/-- The handles in the queues. -/
def queued (g : Shared n H) : Multiset H :=
  (g.injector : Multiset H) + ∑ j, (g.deque j : Multiset H)

/-- The handle that a worker has in its hands. -/
def carried : WorkerPc n H → Multiset H
  | .dropToken h | .wakeNext h _ | .run h | .push h _ | .clearIdle h | .clearCount h
  | .absorb h => {h}
  | _ => 0

theorem carried_takeUp (w : Worker n H) (h : H) : carried (w.takeUp h).pc = {h} := by
  unfold Worker.takeUp
  cases w.isSpeculating <;> rfl

theorem carried_found (w : Worker n H) (second : Bool) (h : H) :
    carried (w.found second h).pc = {h} := by
  cases second with
  | false => exact carried_takeUp w h
  | true => rfl

/-! ## One step of a worker -/

/-- A deque is given other content. -/
theorem queued_update (g : Shared n H) (j : Fin n) (deque : List H) :
    queued { g with deque := Function.update g.deque j deque } + (g.deque j : Multiset H) =
      queued g + (deque : Multiset H) := by
  have others : ∀ k, k ≠ j → ((Function.update g.deque j deque k : List H) : Multiset H) =
      (g.deque k : Multiset H) := by
    intro k other
    rw [Function.update_of_ne other]
  have total := Lib.sum_eq_off _ _ j others
  rw [Function.update_self] at total
  unfold queued
  rw [add_assoc, add_assoc]
  exact congrArg _ total

/-- A handle is taken from a deque. -/
theorem queued_taken {j : Fin n} {h : H} {rest : List H}
    (content : (g.deque j : Multiset H) = {h} + (rest : Multiset H)) :
    queued { g with deque := Function.update g.deque j rest } + {h} = queued g := by
  have total := queued_update g j rest
  rw [content, ← add_assoc] at total
  exact add_right_cancel total

/-- A handle is taken from the injector. -/
theorem queued_stolen {h : H} {rest : List H} (content : g.injector = h :: rest) :
    queued { g with injector := rest } + {h} = queued g := by
  have left : (rest : Multiset H) + {h} = (g.injector : Multiset H) := by
    rw [content, ← Multiset.cons_coe, ← Multiset.singleton_add, add_comm]
  unfold queued
  rw [← left, add_right_comm]

/-- A worker takes a handle from a queue into its empty hands, or moves none. -/
theorem workerStep_handles (taken : workerStep g i w = some (g', w')) :
    queued g' + carried w'.pc = queued g + carried w.pc := by
  have same : g'.deque = g.deque → g'.injector = g.injector → carried w'.pc = carried w.pc →
      queued g' + carried w'.pc = queued g + carried w.pc := by
    intro deque injector hands
    unfold queued
    rw [deque, injector, hands]
  -- a handle leaves a queue for the hands
  have moved : ∀ {h : H}, queued g' + {h} = queued g → carried w.pc = 0 → carried w'.pc = {h} →
      queued g' + carried w'.pc = queued g + carried w.pc := by
    intro h left empty full
    rw [empty, full, left, add_zero]
  obtain ⟨pc, speculating⟩ := w
  cases pc with
  | findWork second scan =>
      cases scan with
      | own =>
          simp only [workerStep] at taken
          split at taken <;> cases taken
          · rename_i h rest queue
            refine moved (queued_taken ?_) rfl (carried_found _ second h)
            rw [queue]
            rfl
          · exact same rfl rfl rfl
      | injector =>
          simp only [workerStep] at taken
          split at taken <;> cases taken
          · rename_i h rest queue
            exact moved (queued_stolen queue) rfl (carried_found _ second h)
          · exact same rfl rfl rfl
      | stealer k =>
          simp only [workerStep] at taken
          split at taken
          · rename_i inside
            split at taken
            · cases taken
              exact same rfl rfl rfl
            · split at taken <;> cases taken
              · rename_i h stolen
                refine moved (queued_taken ?_) rfl (carried_found _ second h)
                have whole := List.dropLast_append_getLast? h stolen
                rw [← whole, ← Multiset.coe_add, add_comm, List.dropLast_concat]
                rfl
              · exact same rfl rfl rfl
          · cases taken
            exact same rfl rfl rfl
  | rescan =>
      simp only [workerStep] at taken
      split at taken <;> cases taken
      · rename_i h rest queue
        exact moved (queued_stolen queue) rfl rfl
      · exact same rfl rfl rfl
  | wakeNext h u =>
      cases taken
      obtain ⟨deque, injector, -⟩ := u.step_queues g
      refine same deque injector ?_
      dsimp only [Worker.goto]
      split <;> rfl
  | push h u =>
      cases taken
      obtain ⟨deque, injector, -⟩ := u.step_queues g
      refine same deque injector ?_
      dsimp only [Worker.goto]
      split <;> rfl
  | dropToken h =>
      cases taken
      refine same rfl rfl ?_
      dsimp only
      split <;> rfl
  | clearCount h | absorb h =>
      cases taken
      exact same rfl rfl (carried_takeUp _ h)
  | clearIdle h | park | unparked =>
      simp only [workerStep] at taken
      split at taken <;> cases taken <;> exact same rfl rfl rfl
  | checkStopping second =>
      cases second <;> cases taken <;> refine same rfl rfl ?_ <;> dsimp only [Worker.goto]
      · split
        · split <;> rfl
        · rfl
      · split
        · rfl
        · split <;> rfl
  | storeFlag | addCount | giveUp | unparkedCount | exitToken =>
      cases taken
      exact same rfl rfl rfl
  | unparkedStopping claimed =>
      cases taken
      refine same rfl rfl ?_
      dsimp only [Worker.goto]
      split <;> rfl
  | exitClear =>
      simp only [workerStep] at taken
      split at taken <;> cases taken
      · exact same rfl rfl rfl
      · refine same rfl rfl ?_
        dsimp only [Worker.goto]
        split <;> rfl
  | exitCount =>
      cases taken
      refine same rfl rfl ?_
      dsimp only [Worker.goto]
      split <;> rfl
  | run h => cases taken
  | exited => cases taken

/-- A push puts its handle into a queue. -/
theorem queued_inject (g : Shared n H) (h : H) : queued (g.inject h) = queued g + {h} := by
  have longer : ((g.injector ++ [h] : List H) : Multiset H) = (g.injector : Multiset H) + {h} :=
    (Multiset.coe_add _ _).symm
  unfold queued Shared.inject
  rw [longer, add_right_comm]

theorem queued_pushFrom (g : Shared n H) (i : Fin n) (h : H) (op : PushOp) :
    queued (g.pushFrom i h op) = queued g + {h} := by
  cases op with
  | addHandle =>
      have total := queued_update g i (h :: g.deque i)
      rw [← Multiset.cons_coe, ← Multiset.singleton_add, ← add_assoc] at total
      exact add_right_cancel total
  | deferHandle => exact queued_inject g h
  | addIoHandle => exact queued_inject g h

/-! ## The ledger -/

/-- Every handle that was pushed has been run, is in a queue, or in the hands of a worker. -/
def Ledger (s : State n m H) : Prop :=
  (s.pushed : Multiset H) =
    s.ran + queued s.work.shared + ∑ i, carried (s.work.worker i).pc

/-- One worker moves, and with it the handles `pushed` and `ran`. -/
theorem Ledger.move {teardown : Teardown} (ledger : Ledger s) (pushed ran : List H)
    (exchanged : (ran : Multiset H) + s.ran + queued g + carried w.pc =
      pushed + (s.ran + queued s.work.shared) + carried (s.work.worker i).pc) :
    Ledger { s with
      work := s.work.setWorker i g w, pushed := pushed ++ s.pushed, ran := ran ++ s.ran,
      teardown := teardown } := by
  have others : ∀ j, j ≠ i → carried (Function.update s.work.worker i w j).pc =
      carried (s.work.worker j).pc := by
    intro j other
    rw [Function.update_of_ne other]
  have ends : carried (Function.update s.work.worker i w i).pc = carried w.pc := by
    rw [Function.update_self]
  have total := Lib.sum_exchange _ _ i others ((congrArg _ ends).trans exchanged)
  show ((pushed ++ s.pushed : List H) : Multiset H) =
    ((ran ++ s.ran : List H) : Multiset H) + queued g +
      ∑ j, carried (Function.update s.work.worker i w j).pc
  rw [← Multiset.coe_add, ← Multiset.coe_add, total, show (s.pushed : Multiset H) = _ from ledger,
    add_assoc (pushed : Multiset H)]

/-- The queues and the workers have the handles that they had. -/
theorem Ledger.same {work : WorkSchedule.State n m H} {teardown : Teardown} {pending : Nat}
    {counted : Fin n → Bool} (ledger : Ledger s)
    (deque : work.shared.deque = s.work.shared.deque)
    (injector : work.shared.injector = s.work.shared.injector)
    (worker : work.worker = s.work.worker) :
    Ledger { s with
      work := work, teardown := teardown, pending := pending, counted := counted } := by
  unfold Ledger queued at ledger ⊢
  rw [ledger, deque, injector, worker]

theorem ledger_teardown (ledger : Ledger s) (taken : teardownStep s = some s') : Ledger s' := by
  unfold teardownStep at taken
  split at taken
  · cases taken
  · obtain ⟨work, moved, rfl⟩ := Option.map_eq_some_iff.mp taken
    cases moved
    exact ledger.same rfl rfl rfl
  · split at taken
    · obtain ⟨work, moved, rfl⟩ := Option.map_eq_some_iff.mp taken
      simp only [WorkSchedule.step] at moved
      split at moved <;> cases moved
      exact ledger.same rfl rfl rfl
    · cases taken
      exact ledger.same rfl rfl rfl
  · cases taken
    exact ledger.same rfl rfl rfl
  · cases taken
  · cases taken

theorem ledger_step (ledger : Ledger s) (taken : step s a = some s') : Ledger s' := by
  cases a with
  | worker i =>
      obtain ⟨work, moved, rfl⟩ := Option.map_eq_some_iff.mp taken
      obtain ⟨⟨g, w⟩, goes, rfl⟩ := Option.map_eq_some_iff.mp moved
      refine ledger.move [] [] ?_
      have kept := workerStep_handles goes
      rw [Multiset.coe_nil, zero_add, zero_add, add_assoc, kept, add_assoc]
  | runPush i op h' =>
      obtain ⟨work, moved, rfl⟩ := Option.map_eq_some_iff.mp taken
      simp only [WorkSchedule.step] at moved
      split at moved <;> cases moved
      rename_i h runs
      refine ledger.move [h'] [] ?_
      rw [runs, queued_pushFrom]
      show (0 : Multiset H) + s.ran + (queued s.work.shared + {h'}) + {h} =
        {h'} + (s.ran + queued s.work.shared) + {h}
      rw [zero_add, ← add_assoc, add_comm ({h'} : Multiset H)]
  | runEnd i =>
      obtain ⟨work, moved, rfl⟩ := Option.map_eq_some_iff.mp taken
      simp only [WorkSchedule.step] at moved
      split at moved <;> cases moved
      rename_i h runs
      refine ledger.move [] (running (s.work.worker i).pc) ?_
      rw [runs]
      show ({h} : Multiset H) + s.ran + queued s.work.shared + 0 =
        0 + (s.ran + queued s.work.shared) + {h}
      rw [add_zero, zero_add, add_assoc, add_comm]
  | producerPush p op h =>
      obtain ⟨work, moved, rfl⟩ := Option.map_eq_some_iff.mp taken
      simp only [WorkSchedule.step] at moved
      split at moved <;> cases moved
      show ((h :: s.pushed : List H) : Multiset H) =
        s.ran + queued (s.work.shared.inject h) + ∑ i, carried (s.work.worker i).pc
      rw [queued_inject, ← Multiset.cons_coe, ← Multiset.singleton_add,
        show (s.pushed : Multiset H) = _ from ledger, ← add_assoc (s.ran : Multiset H),
        add_right_comm _ ({h} : Multiset H),
        add_comm ({h} : Multiset H)]
  | producer p =>
      obtain ⟨work, moved, rfl⟩ := Option.map_eq_some_iff.mp taken
      simp only [WorkSchedule.step] at moved
      split at moved <;> cases moved
      rename_i u inside
      obtain ⟨deque, injector, -⟩ := u.step_queues s.work.shared
      exact ledger.same deque injector rfl
  | leave =>
      simp only [step] at taken
      split at taken <;> cases taken
      exact ledger.same rfl rfl rfl
  | teardown => exact ledger_teardown ledger taken
  | countdown i =>
      simp only [step] at taken
      split at taken <;> cases taken
      exact ledger.same rfl rfl rfl
  | spurious =>
      simp only [step] at taken
      split at taken <;> cases taken
      exact ledger.same rfl rfl rfl

theorem ledger (reached : (machine n m H).Reachable s) : Ledger s := by
  refine reached.invariant Ledger ?_ ?_
  · rintro s ⟨⟨deque, -, -, -, -, -, worker, -⟩, -, -, -, pushed, ran⟩
    unfold Ledger queued
    have noDeque : ∑ j, (s.work.shared.deque j : Multiset H) = 0 := by
      refine Finset.sum_eq_zero fun j _ => ?_
      rw [deque]
      rfl
    have noHands : ∑ i, carried (s.work.worker i).pc = 0 := by
      refine Finset.sum_eq_zero fun i _ => ?_
      rw [worker]
      rfl
    rw [pushed, ran, noDeque, noHands, Multiset.coe_nil, zero_add, add_zero, add_zero]
  · exact fun s a s' ledger _ taken => ledger_step ledger taken

/-- Whatever the workers pop, steal and push, and however the threads are interleaved: a
handle has been pushed as often as it has been run, waits in the injector or a deque, and
is in the hands of a worker. -/
theorem handled_once [DecidableEq H] (reached : (machine n m H).Reachable s) (h : H) :
    s.pushed.count h =
      s.ran.count h + s.work.shared.injector.count h + ∑ i, (s.work.shared.deque i).count h +
        ∑ i, (carried (s.work.worker i).pc).count h := by
  have counted := congrArg (Multiset.count h) (ledger reached)
  unfold queued at counted
  simp only [Multiset.count_add, Multiset.coe_count, Multiset.count_sum', ← add_assoc] at counted
  exact counted

def worker₀ : Fin 2 := ⟨0, Nat.zero_lt_two⟩

def worker₁ : Fin 2 := ⟨1, Nat.one_lt_two⟩

/-- A worker runs a handle and pushes another one, which the other worker steals. -/
def stealingRun : List (Act 2 1 Nat) :=
  [.worker worker₀, .worker worker₀, .runPush worker₀ .addHandle 8, .worker worker₀,
    .runEnd worker₀, .worker worker₁, .worker worker₁, .worker worker₁]

theorem stealingRun_ends :
    ((machine 2 1 Nat).exec (spawned 2 1 [7]) stealingRun).any
      (fun s => decide (s.ran = [7] ∧ s.pushed = [8, 7] ∧ s.work.shared.deque worker₀ = [])) =
        true := by
  decide +kernel

theorem handled_once_stolen :
    ∃ s : State 2 1 Nat, s.ran = [7] ∧
      1 = s.ran.count 8 + s.work.shared.injector.count 8 +
        ∑ i, (s.work.shared.deque i).count 8 + ∑ i, (carried (s.work.worker i).pc).count 8 := by
  obtain ⟨s, reached, ends⟩ :=
    Machine.Reachable.exists_of_exec (spawned_start [7]) stealingRun_ends
  obtain ⟨ran, pushed, -⟩ := of_decide_eq_true ends
  have ledger := handled_once reached 8
  rw [pushed] at ledger
  exact ⟨s, ran, ledger⟩

end MtAsyncio.Shutdown
