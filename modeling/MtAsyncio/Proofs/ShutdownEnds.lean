/-
Module: MtAsyncio.Proofs.ShutdownEnds
Purpose: `_run` returns behind its workers: every one has left its loop and left nothing
  in its deque, so that a handle which has not been run waits in the injector.  And it
  does return: behind the stop flag nobody sleeps for ever, and what the workers still do
  comes to an end where the handles push no more.
Trusted boundary: none
Main exports: Down, down, returned_drained, rank, own, shutdown_returns
-/
import MtAsyncio.Proofs.HandledOnce
import MtAsyncio.Proofs.WorkStranded

namespace MtAsyncio.Shutdown

open Lib (Machine)
open scoped BigOperators
open WorkSchedule (Shared Worker WorkerPc Unparking PushOp workerStep)

variable {n m : Nat} {H : Type} {g g' : Shared n H} {i : Fin n} {w w' : Worker n H}
  {s s' : State n m H} {a : Act n m H}

/-! ## Behind the stop flag -/

/-- The worker has found its own deque empty and has not run a handle since, or is behind
its loop. -/
def emptied : WorkerPc n H → Bool
  | .findWork false .own => false
  | .findWork _ _ | .checkStopping _ | .storeFlag | .addCount | .giveUp | .rescan | .park
  | .unparked | .unparkedCount | .unparkedStopping _ | .exitClear | .exitCount | .exitToken
  | .exited => true
  | _ => false

/-- Behind `park`, on the way to look at the stop flag. -/
def leaving : WorkerPc n H → Bool
  | .unparked | .unparkedCount | .unparkedStopping _ | .exited => true
  | _ => false

/-- `stop_threads` has raised the flag. -/
def stopped : Teardown → Bool
  | .polling | .storeStopping => false
  | _ => true

/-- `stop_threads` has unparked the worker. -/
def signalled (i : Fin n) : Teardown → Bool
  | .polling | .storeStopping => false
  | .unpark k => decide (i.val < k)
  | _ => true

theorem emptied_of_drained {pc : WorkerPc n H} (drained : pc.drained = true) :
    emptied pc = true := by
  cases pc with
  | findWork second scan => cases second <;> cases scan <;> first | rfl | cases drained
  | _ => first | rfl | cases drained

/-- A worker that has been behind its own deque was before, or has just found it empty. -/
theorem emptied_before (taken : workerStep g i w = some (g', w'))
    (empty : emptied w'.pc = true) : w'.pc.drained = true ∨ emptied w.pc = true := by
  obtain ⟨pc, speculating⟩ := w
  cases pc with
  | findWork second scan =>
      refine .inl ?_
      cases scan <;> simp only [workerStep] at taken <;> (repeat' split at taken) <;>
        cases taken <;> cases second <;> first
          | rfl
          | (cases speculating <;> cases empty)
  | wakeNext h u =>
      cases taken
      dsimp only [Worker.goto] at empty
      split at empty <;> cases empty
  | push h u =>
      cases taken
      dsimp only [Worker.goto] at empty
      split at empty <;> cases empty
  | dropToken h =>
      cases taken
      dsimp only at empty
      split at empty <;> cases empty
  | clearCount h | absorb h =>
      cases taken
      cases speculating <;> cases empty
  | clearIdle h =>
      simp only [workerStep] at taken
      split at taken <;> cases taken <;> cases empty
  | run h => cases taken
  | _ => exact .inr rfl

theorem workerStep_emptied (taken : workerStep g i w = some (g', w'))
    (before : emptied w.pc = true → g.deque i = []) (empty : emptied w'.pc = true) :
    g'.deque i = [] := by
  have keeps := WorkSchedule.workerStep_queues taken fun drained =>
    before (emptied_of_drained drained)
  rcases emptied_before taken empty with drained | was
  · exact keeps.drained drained
  · exact keeps.deques i (before was)

/-- With the flag up a worker that has been unparked does not sleep again. -/
theorem workerStep_leaving (taken : workerStep g i w = some (g', w'))
    (stopping : g.workStopping = true)
    (before : g.parkToken i = true ∨ leaving w.pc = true) :
    g'.parkToken i = true ∨ leaving w'.pc = true := by
  by_cases isLeaving : leaving w.pc = true
  · refine .inr ?_
    obtain ⟨pc, speculating⟩ := w
    cases pc with
    | unparked =>
        simp only [workerStep] at taken
        split at taken <;> cases taken <;> rfl
    | unparkedCount =>
        cases taken
        rfl
    | unparkedStopping claimed =>
        cases taken
        rw [if_pos stopping]
        rfl
    | exited => cases taken
    | _ => cases isLeaving
  · have token := before.resolve_right isLeaving
    cases inside : w.pc.unparking with
    | some u =>
        refine .inl ?_
        obtain ⟨pc, speculating⟩ := w
        cases pc with
        | wakeNext h u | push h u =>
            cases taken
            exact u.step_parkToken token
        | _ => cases inside
    | none =>
        rcases WorkSchedule.workerStep_parkToken taken inside with same | ⟨unparked, -⟩
        · exact .inl (by rw [same]; exact token)
        · refine .inr ?_
          rw [unparked]
          rfl

theorem workerStep_keeps_token {j : Fin n} (taken : workerStep g i w = some (g', w'))
    (other : j ≠ i) (token : g.parkToken j = true) : g'.parkToken j = true := by
  cases inside : w.pc.unparking with
  | some u =>
      obtain ⟨pc, speculating⟩ := w
      cases pc with
      | wakeNext h u | push h u =>
          cases taken
          exact u.step_parkToken token
      | _ => cases inside
  | none =>
      rcases WorkSchedule.workerStep_parkToken taken inside with same | ⟨-, lowered⟩
      · rw [same]
        exact token
      · rw [lowered, Function.update_of_ne other]
        exact token

/-- What is on its way down: an emptied deque stays empty, the flag is up behind
`storeStopping`, a worker that has been signalled is awake, and `pending` counts the
workers that have not been counted. -/
structure Down (s : State n m H) : Prop where
  emptied : ∀ i, emptied (s.work.worker i).pc = true → s.work.shared.deque i = []
  stopping : stopped s.teardown = true → s.work.shared.workStopping = true
  awake : ∀ i, signalled i s.teardown = true →
    s.work.shared.parkToken i = true ∨ leaving (s.work.worker i).pc = true
  pending : s.pending = ∑ i, (!s.counted i).toNat
  counted : ∀ i, s.counted i = true → ended (s.work.worker i).pc = true
  waiting : s.teardown = .waiting → 0 < s.pending
  returned : s.teardown = .returned → s.pending = 0

theorem stopped_of_signalled {teardown : Teardown} (is : signalled i teardown = true) :
    stopped teardown = true := by
  cases teardown <;> first | rfl | cases is

/-- A worker moves. -/
theorem Down.worker (down : Down s) {pushed ran : List H}
    (keeps : ∀ j, j ≠ i → s.work.shared.deque j = [] → g.deque j = [])
    (empties : Shutdown.emptied w.pc = true → g.deque i = [])
    (flag : g.workStopping = s.work.shared.workStopping)
    (tokens : ∀ j, j ≠ i → s.work.shared.parkToken j = true → g.parkToken j = true)
    (wakes : signalled i s.teardown = true → g.parkToken i = true ∨ leaving w.pc = true)
    (ends : ended (s.work.worker i).pc = true → ended w.pc = true) :
    Down { s with work := s.work.setWorker i g w, pushed := pushed, ran := ran } := by
  refine { down with emptied := ?_, stopping := ?_, awake := ?_, counted := ?_ }
  · intro j empty
    by_cases same : j = i
    · subst same
      have empty : Shutdown.emptied (Function.update s.work.worker j w j).pc = true := empty
      rw [Function.update_self] at empty
      exact empties empty
    · have empty : Shutdown.emptied (Function.update s.work.worker i w j).pc = true := empty
      rw [Function.update_of_ne same] at empty
      exact keeps j same (down.emptied j empty)
  · exact fun is => flag.trans (down.stopping is)
  · intro j is
    show g.parkToken j = true ∨ leaving (Function.update s.work.worker i w j).pc = true
    by_cases same : j = i
    · subst same
      rw [Function.update_self]
      exact wakes is
    · rw [Function.update_of_ne same]
      exact (down.awake j is).imp_left (tokens j same)
  · intro j is
    show ended (Function.update s.work.worker i w j).pc = true
    by_cases same : j = i
    · subst same
      rw [Function.update_self]
      exact ends (down.counted j is)
    · rw [Function.update_of_ne same]
      exact down.counted j is

/-- The workers stay where they are, and so do their deques. -/
theorem Down.beside (down : Down s) {work : WorkSchedule.State n m H} {teardown : Teardown}
    {pushed : List H} (workers : work.worker = s.work.worker)
    (deque : work.shared.deque = s.work.shared.deque)
    (flag : stopped teardown = true → work.shared.workStopping = true)
    (tokens : ∀ i, signalled i teardown = true →
      work.shared.parkToken i = true ∨ leaving (s.work.worker i).pc = true)
    (waiting : teardown = .waiting → 0 < s.pending)
    (returned : teardown = .returned → s.pending = 0) :
    Down { s with work := work, teardown := teardown, pushed := pushed } := by
  refine ⟨?_, flag, ?_, down.pending, ?_, waiting, returned⟩
  · intro i empty
    show work.shared.deque i = []
    rw [deque]
    exact down.emptied i (workers ▸ empty)
  · intro i is
    show work.shared.parkToken i = true ∨ leaving (work.worker i).pc = true
    rw [workers]
    exact tokens i is
  · intro i is
    show ended (work.worker i).pc = true
    rw [workers]
    exact down.counted i is

theorem down_teardown (down : Down s) (taken : teardownStep s = some s') : Down s' := by
  unfold teardownStep at taken
  split at taken
  · cases taken
  · obtain ⟨work, moved, rfl⟩ := Option.map_eq_some_iff.mp taken
    cases moved
    refine down.beside rfl rfl (fun _ => rfl) ?_ (fun no => Teardown.noConfusion no)
      fun no => Teardown.noConfusion no
    intro i is
    have below : i.val < 0 := of_decide_eq_true is
    exact absurd below (Nat.not_lt_zero _)
  · rename_i k unparks
    split at taken
    · rename_i inside
      obtain ⟨work, moved, rfl⟩ := Option.map_eq_some_iff.mp taken
      have flag := down.stopping (by rw [unparks]; rfl)
      simp only [WorkSchedule.step, if_pos flag] at moved
      cases moved
      refine down.beside rfl rfl (fun _ => flag) ?_ (fun no => Teardown.noConfusion no)
        fun no => Teardown.noConfusion no
      intro i is
      show Function.update s.work.shared.parkToken ⟨k, inside⟩ true i = true ∨ _
      by_cases same : i = ⟨k, inside⟩
      · rw [same, Function.update_self]
        exact .inl rfl
      · rw [Function.update_of_ne same]
        refine down.awake i ?_
        rw [unparks]
        refine decide_eq_true ?_
        have atMost : i.val < k + 1 := of_decide_eq_true is
        exact Nat.lt_of_le_of_ne (Nat.lt_succ_iff.mp atMost) fun equal => same (Fin.ext equal)
    · rename_i outside
      cases taken
      refine down.beside rfl rfl ?_ ?_ (fun no => Teardown.noConfusion no)
        fun no => Teardown.noConfusion no
      · exact fun _ => down.stopping (by rw [unparks]; rfl)
      · intro i _
        refine down.awake i ?_
        rw [unparks]
        exact decide_eq_true (Nat.lt_of_lt_of_le i.isLt (Nat.not_lt.mp outside))
  · rename_i tests
    cases taken
    refine down.beside rfl rfl ?_ ?_ ?_ ?_
    · exact fun _ => down.stopping (by rw [tests]; rfl)
    · exact fun i _ => down.awake i (by rw [tests]; rfl)
    · intro waits
      by_contra none_
      rw [if_neg none_] at waits
      cases waits
    · intro returns
      by_contra some_
      rw [if_pos (Nat.pos_of_ne_zero some_)] at returns
      cases returns
  · cases taken
  · cases taken

theorem down_countdown (down : Down s) (ends : ended (s.work.worker i).pc = true)
    (uncounted : s.counted i = false) :
    Down { s with
      pending := s.pending - 1
      counted := Function.update s.counted i true
      teardown := if s.teardown = .waiting then .test else s.teardown } := by
  have total := Lib.sum_eq_off (fun j => (!s.counted j).toNat)
    (fun j => (!Function.update s.counted i true j).toNat) i (by
      intro j other
      rw [Function.update_of_ne other])
  rw [Function.update_self, uncounted] at total
  have fewer : s.pending - 1 = ∑ j, (!Function.update s.counted i true j).toNat := by
    have total : ∑ j, (!Function.update s.counted i true j).toNat + 1 =
        ∑ j, (!s.counted j).toNat + 0 := total
    rw [down.pending]
    omega
  refine ⟨down.emptied, ?_, ?_, fewer, ?_, ?_, ?_⟩
  · intro is
    refine down.stopping ?_
    by_contra running
    have notWaiting : s.teardown ≠ .waiting := fun waits => running (by rw [waits]; rfl)
    rw [if_neg notWaiting] at is
    exact running is
  · intro j is
    refine down.awake j ?_
    by_cases waits : s.teardown = .waiting
    · rw [waits]
      rfl
    · rwa [if_neg waits] at is
  · intro j is
    by_cases same : j = i
    · exact same ▸ ends
    · have is : Function.update s.counted i true j = true := is
      rw [Function.update_of_ne same] at is
      exact down.counted j is
  · intro waits
    by_cases was : s.teardown = .waiting
    · rw [if_pos was] at waits
      cases waits
    · rw [if_neg was] at waits
      exact absurd waits was
  · intro returned
    by_cases was : s.teardown = .waiting
    · rw [if_pos was] at returned
      cases returned
    · rw [if_neg was] at returned
      show s.pending - 1 = 0
      rw [down.returned returned]

theorem down_step (down : Down s) (taken : step s a = some s') : Down s' := by
  cases a with
  | worker i =>
      obtain ⟨work, moved, rfl⟩ := Option.map_eq_some_iff.mp taken
      obtain ⟨⟨g, w⟩, goes, rfl⟩ := Option.map_eq_some_iff.mp moved
      have before : Shutdown.emptied (s.work.worker i).pc = true → s.work.shared.deque i = [] :=
        down.emptied i
      have keeps := WorkSchedule.workerStep_queues goes fun drained =>
        before (emptied_of_drained drained)
      have flag := WorkSchedule.workerStep_stopping goes
      refine down.worker (fun j _ => keeps.deques j) (workerStep_emptied goes before) flag
        (fun j other => workerStep_keeps_token goes other) ?_ ?_
      · intro is
        have stopping := down.stopping (stopped_of_signalled is)
        exact workerStep_leaving goes stopping (down.awake i is)
      · intro ends
        cases pc : (s.work.worker i).pc with
        | exited =>
            unfold workerStep at goes
            rw [pc] at goes
            cases goes
        | _ =>
            rw [pc] at ends
            cases ends
  | runPush i op h' =>
      obtain ⟨work, moved, rfl⟩ := Option.map_eq_some_iff.mp taken
      simp only [WorkSchedule.step] at moved
      split at moved <;> cases moved
      rename_i h runs
      have flag : (s.work.shared.pushFrom i h' op).workStopping = s.work.shared.workStopping := by
        cases op <;> rfl
      have tokens : (s.work.shared.pushFrom i h' op).parkToken = s.work.shared.parkToken := by
        cases op <;> rfl
      refine down.worker ?_ (fun no => absurd no Bool.false_ne_true) flag ?_ ?_ ?_
      · intro j other empty
        cases op with
        | addHandle => exact (Function.update_of_ne other _ _).trans empty
        | deferHandle | addIoHandle => exact empty
      · intro j _ token
        rw [tokens]
        exact token
      · intro is
        rw [tokens]
        refine .inl ((down.awake i is).resolve_right ?_)
        rw [runs]
        exact Bool.false_ne_true
      · rw [runs]
        exact fun no => absurd no Bool.false_ne_true
  | runEnd i =>
      obtain ⟨work, moved, rfl⟩ := Option.map_eq_some_iff.mp taken
      simp only [WorkSchedule.step] at moved
      split at moved <;> cases moved
      rename_i h runs
      refine down.worker (fun _ _ empty => empty) (fun no => absurd no Bool.false_ne_true) rfl
        (fun _ _ token => token) ?_ ?_
      · intro is
        refine .inl ((down.awake i is).resolve_right ?_)
        rw [runs]
        exact Bool.false_ne_true
      · rw [runs]
        exact fun no => absurd no Bool.false_ne_true
  | producerPush p op h =>
      obtain ⟨work, moved, rfl⟩ := Option.map_eq_some_iff.mp taken
      simp only [WorkSchedule.step] at moved
      split at moved <;> cases moved
      exact down.beside rfl rfl down.stopping down.awake down.waiting down.returned
  | producer p =>
      obtain ⟨work, moved, rfl⟩ := Option.map_eq_some_iff.mp taken
      simp only [WorkSchedule.step] at moved
      split at moved <;> cases moved
      rename_i u inside
      obtain ⟨deque, -, flag⟩ := u.step_queues s.work.shared
      refine down.beside rfl deque ?_ ?_ down.waiting down.returned
      · exact fun is => flag.trans (down.stopping is)
      · exact fun i is => (down.awake i is).imp_left u.step_parkToken
  | leave =>
      simp only [step] at taken
      split at taken <;> cases taken
      exact down.beside rfl rfl (fun no => absurd no Bool.false_ne_true)
        (fun _ no => absurd no Bool.false_ne_true) (fun no => Teardown.noConfusion no)
        fun no => Teardown.noConfusion no
  | teardown => exact down_teardown down taken
  | countdown i =>
      simp only [step] at taken
      split at taken <;> cases taken
      rename_i behind
      exact down_countdown down behind.1 behind.2
  | spurious =>
      simp only [step] at taken
      split at taken <;> cases taken
      rename_i waits
      refine down.beside rfl rfl ?_ ?_ (fun no => Teardown.noConfusion no)
        fun no => Teardown.noConfusion no
      · exact fun _ => down.stopping (by rw [waits]; rfl)
      · exact fun i _ => down.awake i (by rw [waits]; rfl)

theorem down (reached : (machine n m H).Reachable s) : Down s := by
  refine reached.invariant Down ?_ ?_
  · rintro s ⟨⟨deque, -, -, -, -, -, -, -⟩, polling, pending, counted, -, -⟩
    refine ⟨fun i _ => deque i, ?_, ?_, ?_, ?_, ?_, ?_⟩
    · rw [polling]
      exact fun no => absurd no Bool.false_ne_true
    · rw [polling]
      exact fun _ no => absurd no Bool.false_ne_true
    · rw [pending]
      simp [counted]
    · intro i is
      rw [counted] at is
      cases is
    · rw [polling]
      exact fun no => Teardown.noConfusion no
    · rw [polling]
      exact fun no => Teardown.noConfusion no
  · exact fun s a s' down _ taken => down_step down taken

/-- Where nothing is pending every worker is behind its loop. -/
theorem Down.ended (down : Down s) (none_ : s.pending = 0) (i : Fin n) :
    (s.work.worker i).pc = .exited := by
  have zero : (!s.counted i).toNat = 0 := by
    have entry := Lib.entry_le_sum (fun j => (!s.counted j).toNat) i
    rw [← down.pending, none_] at entry
    exact Nat.eq_zero_of_le_zero entry
  have counted : s.counted i = true := by
    cases is : s.counted i with
    | true => rfl
    | false =>
        rw [is] at zero
        cases zero
  have ended := down.counted i counted
  cases pc : (s.work.worker i).pc with
  | exited => rfl
  | _ =>
      rw [pc] at ended
      cases ended

/-- When `_run` returns, every worker has left its loop with nothing in its deque or in
its hands: a handle that was pushed as often as it was not run is in the injector, where
the workers of the next `_run` find it. -/
theorem returned_drained [DecidableEq H] (reached : (machine n m H).Reachable s)
    (returned : s.teardown = .returned) :
    (∀ i, (s.work.worker i).pc = .exited ∧ s.work.shared.deque i = []) ∧
      ∀ h, s.pushed.count h = s.ran.count h + s.work.shared.injector.count h := by
  have down := down reached
  have exited := down.ended (down.returned returned)
  have noDeque : ∀ i, s.work.shared.deque i = [] := by
    intro i
    refine down.emptied i ?_
    rw [exited]
    rfl
  refine ⟨fun i => ⟨exited i, noDeque i⟩, ?_⟩
  intro h
  have deques : ∑ i, (s.work.shared.deque i).count h = 0 := by
    refine Finset.sum_eq_zero fun i _ => ?_
    rw [noDeque]
    rfl
  have hands : ∑ i, (carried (s.work.worker i).pc).count h = 0 := by
    refine Finset.sum_eq_zero fun i _ => ?_
    rw [exited]
    rfl
  rw [handled_once reached h, deques, hands]
  rfl

def only : Fin 1 := ⟨0, Nat.zero_lt_one⟩

/-- A worker runs what it pushed itself before it leaves; a handle that comes behind its
last look stays in the injector. -/
def leftRun : List (Act 1 1 Nat) :=
  [.worker only, .worker only, .leave, .teardown, .runPush only .addHandle 8, .worker only,
    .runEnd only, .worker only, .runEnd only, .worker only, .worker only, .worker only,
    .worker only, .producerPush only .addHandle 9, .worker only, .teardown, .teardown,
    .teardown, .countdown only, .teardown]

theorem leftRun_ends :
    ((machine 1 1 Nat).exec (spawned 1 1 [7]) leftRun).any
      (fun s => decide (s.teardown = .returned ∧ s.ran = [8, 7] ∧
        s.work.shared.injector = [9])) = true := by
  decide +kernel

theorem returned_drained_left :
    ∃ s : State 1 1 Nat, s.ran = [8, 7] ∧ s.work.shared.injector = [9] ∧
      ∀ h, s.pushed.count h = [8, 7].count h + [9].count h := by
  obtain ⟨s, reached, ends⟩ := Machine.Reachable.exists_of_exec (spawned_start [7]) leftRun_ends
  obtain ⟨returned, ran, injector⟩ := of_decide_eq_true ends
  have counts := (returned_drained reached returned).2
  rw [ran, injector] at counts
  exact ⟨s, ran, injector, counts⟩

/-! ## What is still to be done -/

/-- What is left of an unpark call. -/
def unparkRank : Option (Unparking n) → Nat
  | none => 0
  | some (.unparkWorker _) => 1
  | some .giveBack => 1
  | some (.subIdleCount _) => 2
  | some (.tryFlag i) => n - i.val + 2
  | some (.takeToken _) => n + 3
  | some (.loadIdleCount _) => n + 4

/-- What is left of a worker's loop behind the stop flag, until it is left or the handle
in its hands has been run. -/
def rank : WorkerPc n H → Nat
  | .run _ => 0
  | .push _ u | .wakeNext _ u => unparkRank (some u)
  | .dropToken _ => n + 5
  | .clearCount _ | .absorb _ => n + 6
  | .clearIdle _ => n + 7
  | .exited => n + 8
  | .exitToken | .unparkedStopping _ => n + 9
  | .exitCount | .unparkedCount | .checkStopping false => n + 10
  | .exitClear | .unparked => n + 11
  | .findWork false (.stealer k) => n + 11 + (n - k)
  | .findWork false .injector => n + 12 + n
  | .findWork false .own => n + 13 + n
  | .park | .checkStopping true => n + 12
  | .rescan => n + 13
  | .giveUp => n + 14
  | .findWork true (.stealer k) => n + 13 + (n - k)
  | .findWork true .injector => n + 14 + n
  | .findWork true .own => n + 15 + n
  | .addCount => n + 16 + n
  | .storeFlag => n + 17 + n

theorem unparkRank_wakeIdle : unparkRank (some (WorkSchedule.wakeIdle (n := n))) < n + 3 := by
  unfold WorkSchedule.wakeIdle
  split <;> simp only [unparkRank] <;> omega

theorem unparkRank_nextFlag (i : Fin n) :
    unparkRank (some (WorkSchedule.nextFlag i)) < n - i.val + 2 := by
  unfold WorkSchedule.nextFlag
  split <;> simp only [unparkRank] <;> omega

theorem unparkRank_step (g : Shared n H) (u : Unparking n) :
    unparkRank (u.step g).2 < unparkRank (some u) := by
  cases u with
  | loadIdleCount force =>
      simp only [Unparking.step]
      split <;> simp only [unparkRank] <;> omega
  | takeToken force =>
      have entry := unparkRank_wakeIdle (n := n)
      cases force with
      | true => exact entry
      | false =>
          simp only [Unparking.step]
          split
          · exact entry
          · simp only [unparkRank]
            omega
  | tryFlag i =>
      simp only [Unparking.step]
      split
      · simp only [unparkRank]
        omega
      · exact unparkRank_nextFlag i
  | subIdleCount i => exact Nat.lt_succ_self 1
  | unparkWorker i => exact Nat.zero_lt_one
  | giveBack => exact Nat.zero_lt_one

theorem rank_takeUp (w : Worker n H) (h : H) : rank (w.takeUp h).pc ≤ n + 5 := by
  unfold Worker.takeUp
  cases w.isSpeculating
  · exact Nat.zero_le _
  · exact Nat.le_refl _

/-- A worker has found a handle. -/
theorem rank_found {second : Bool} {scan : WorkSchedule.Scan} {h : H}
    (searches : w.pc = .findWork second scan) : rank (w.found second h).pc < rank w.pc := by
  have found : rank (w.found second h).pc ≤ n + 7 := by
    cases second with
    | false => exact Nat.le_trans (rank_takeUp w h) (by omega)
    | true => exact Nat.le_refl _
  refine Nat.lt_of_le_of_lt found ?_
  rw [searches]
  cases second <;> cases scan <;> simp only [rank] <;> omega

theorem rank_exits (speculating : Bool) :
    rank (if speculating = true then .exitToken else .exited : WorkerPc n H) ≤ n + 9 := by
  cases speculating
  · exact Nat.le_succ _
  · exact Nat.le_refl _

/-- Behind the stop flag every step of a worker brings it on. -/
theorem workerStep_rank (taken : workerStep g i w = some (g', w'))
    (stopping : g.workStopping = true) : rank w'.pc < rank w.pc := by
  obtain ⟨pc, speculating⟩ := w
  cases pc with
  | findWork second scan =>
      cases scan with
      | own =>
          simp only [workerStep] at taken
          split at taken <;> cases taken
          · exact rank_found rfl
          · cases second <;> simp only [Worker.goto, rank] <;> omega
      | injector =>
          simp only [workerStep] at taken
          split at taken <;> cases taken
          · exact rank_found rfl
          · cases second <;> simp only [Worker.goto, rank] <;> omega
      | stealer k =>
          simp only [workerStep] at taken
          split at taken
          · split at taken
            · cases taken
              cases second <;> simp only [Worker.goto, rank] <;> omega
            · split at taken <;> cases taken
              · exact rank_found rfl
              · cases second <;> simp only [Worker.goto, rank] <;> omega
          · cases taken
            cases second <;> simp only [Worker.goto, rank] <;> omega
  | wakeNext h u | push h u =>
      cases taken
      have less := unparkRank_step g u
      dsimp only [Worker.goto]
      split
      · rename_i next
        rw [next] at less
        exact less
      · rename_i next
        rw [next] at less
        exact less
  | dropToken h =>
      cases taken
      dsimp only
      split <;> simp only [rank, unparkRank] <;> omega
  | clearCount h | absorb h =>
      cases taken
      exact Nat.lt_of_le_of_lt (rank_takeUp _ h) (Nat.lt_succ_self _)
  | checkStopping second =>
      cases second <;> cases taken <;> rw [if_pos stopping]
      · exact Nat.lt_of_le_of_lt (rank_exits speculating) (Nat.lt_succ_self _)
      · exact Nat.lt_succ_self _
  | unparkedStopping claimed =>
      cases taken
      rw [if_pos stopping]
      exact Nat.lt_succ_self _
  | run h => cases taken
  | exited => cases taken
  | exitClear =>
      simp only [workerStep] at taken
      split at taken <;> cases taken
      · exact Nat.lt_succ_self _
      · exact Nat.lt_of_le_of_lt (rank_exits speculating) (by simp only [rank]; omega)
  | exitCount =>
      cases taken
      exact Nat.lt_of_le_of_lt (rank_exits speculating) (Nat.lt_succ_self _)
  | clearIdle h | rescan | park | unparked =>
      simp only [workerStep] at taken
      split at taken <;> cases taken <;> simp only [Worker.goto, rank] <;> omega
  | storeFlag | addCount | giveUp | unparkedCount | exitToken =>
      cases taken
      simp only [Worker.goto, rank]
      omega

/-! ## It returns -/

/-- The steps of the threads themselves: no handle and no producer pushes another one, the
wait is not left without a notification. -/
def own : Act n m H → Prop
  | .runPush .. | .producerPush .. | .leave | .spurious => False
  | _ => True

def teardownRank : Teardown → Nat
  | .polling | .storeStopping => 0
  | .unpark k => n - k + 2
  | .test => 1
  | .waiting | .returned => 0

/-- The handles that have not been run. -/
def unrun (s : State n m H) : Nat :=
  (queued s.work.shared + ∑ i, carried (s.work.worker i).pc).card

/-- What is left to be done. -/
def size (s : State n m H) : Nat :=
  (2 * n + 14) * unrun s + ∑ i, rank (s.work.worker i).pc + ∑ p, unparkRank (s.work.producer p) +
    2 * s.pending + teardownRank (n := n) s.teardown

/-- A worker that is awake has a step of its own. -/
theorem workerStep_enabled (awake : w.pc = .park → g.parkToken i = true)
    (runs : ∀ h, w.pc ≠ .run h) (alive : w.pc ≠ .exited) :
    ∃ next, workerStep g i w = some next := by
  obtain ⟨pc, speculating⟩ := w
  cases pc with
  | findWork second scan =>
      cases scan <;> simp only [workerStep] <;> (repeat' split) <;> exact ⟨_, rfl⟩
  | checkStopping second => cases second <;> exact ⟨_, rfl⟩
  | park =>
      simp only [workerStep]
      rw [if_pos (awake rfl)]
      exact ⟨_, rfl⟩
  | run h => exact absurd rfl (runs h)
  | exited => exact absurd rfl alive
  | clearIdle h | rescan | unparked | exitClear =>
      simp only [workerStep]
      split <;> exact ⟨_, rfl⟩
  | _ => exact ⟨_, rfl⟩

/-- A worker moves on, with its handle or behind it. -/
theorem size_worker (ran : List H)
    (less : (2 * n + 14) * (queued g + carried w.pc).card + rank w.pc <
      (2 * n + 14) * (queued s.work.shared + carried (s.work.worker i).pc).card +
        rank (s.work.worker i).pc) :
    size { s with work := s.work.setWorker i g w, ran := ran } < size s := by
  have others : ∀ {A : Type} (f : Worker n H → A) (j : Fin n), j ≠ i →
      f (Function.update s.work.worker i w j) = f (s.work.worker j) := by
    intro A f j other
    rw [Function.update_of_ne other]
  have hands := Lib.sum_eq_off _ _ i (others fun w => carried w.pc)
  have ranks := Lib.sum_eq_off _ _ i (others fun w => rank w.pc)
  rw [Function.update_self] at hands ranks
  have handles := congrArg Multiset.card hands
  rw [Multiset.card_add, Multiset.card_add] at handles
  rw [Multiset.card_add, Multiset.card_add] at less
  have scaled : (2 * n + 14) * unrun { s with work := s.work.setWorker i g w, ran := ran } +
      (2 * n + 14) * ((queued s.work.shared).card + (carried (s.work.worker i).pc).card) =
      (2 * n + 14) * unrun s + (2 * n + 14) * ((queued g).card + (carried w.pc).card) := by
    rw [← Nat.mul_add, ← Nat.mul_add]
    refine congrArg _ ?_
    unfold unrun
    rw [Multiset.card_add, Multiset.card_add]
    show (queued g).card + (∑ j, carried (Function.update s.work.worker i w j).pc).card + _ = _
    omega
  unfold size
  show _ + ∑ j, rank (Function.update s.work.worker i w j).pc +
    ∑ p, unparkRank (s.work.producer p) + 2 * s.pending + teardownRank s.teardown < _
  omega

/-- A thread beside the workers moves on. -/
theorem size_beside {work : WorkSchedule.State n m H} {teardown : Teardown} {pending : Nat}
    {counted : Fin n → Bool} (workers : work.worker = s.work.worker)
    (deque : work.shared.deque = s.work.shared.deque)
    (injector : work.shared.injector = s.work.shared.injector)
    (less : ∑ p, unparkRank (work.producer p) + 2 * pending + teardownRank (n := n) teardown <
      ∑ p, unparkRank (s.work.producer p) + 2 * s.pending + teardownRank (n := n) s.teardown) :
    size { s with work := work, teardown := teardown, pending := pending, counted := counted } <
      size s := by
  have same : unrun { s with
      work := work, teardown := teardown, pending := pending, counted := counted } = unrun s := by
    simp only [unrun, queued, workers, deque, injector]
  unfold size
  rw [same]
  dsimp only
  rw [workers]
  omega

theorem size_teardown (isStopped : stopped s.teardown = true)
    (taken : teardownStep s = some s') : size s' < size s := by
  unfold teardownStep at taken
  split at taken
  · cases taken
  · rename_i stores
    rw [stores] at isStopped
    cases isStopped
  · rename_i k unparks
    split at taken
    · rename_i inside
      obtain ⟨work, moved, rfl⟩ := Option.map_eq_some_iff.mp taken
      simp only [WorkSchedule.step] at moved
      split at moved <;> cases moved
      refine size_beside (s := s) rfl rfl rfl ?_
      refine Nat.add_lt_add_left ?_ _
      rw [unparks]
      simp only [teardownRank]
      omega
    · cases taken
      refine size_beside (s := s) rfl rfl rfl ?_
      refine Nat.add_lt_add_left ?_ _
      rw [unparks]
      simp only [teardownRank]
      omega
  · rename_i tests
    cases taken
    refine size_beside (s := s) rfl rfl rfl ?_
    refine Nat.add_lt_add_left ?_ _
    rw [tests]
    split <;> exact Nat.zero_lt_one
  · cases taken
  · cases taken

/-- Behind the stop flag every step of the threads leaves less to be done. -/
theorem size_less (down : Down s) (isStopped : stopped s.teardown = true) (isOwn : own a)
    (taken : step s a = some s') : size s' < size s := by
  cases a with
  | worker i =>
      obtain ⟨work, moved, rfl⟩ := Option.map_eq_some_iff.mp taken
      obtain ⟨⟨g, w⟩, goes, rfl⟩ := Option.map_eq_some_iff.mp moved
      refine size_worker s.ran ?_
      rw [workerStep_handles goes]
      exact Nat.add_lt_add_left (workerStep_rank goes (down.stopping isStopped)) _
  | runEnd i =>
      obtain ⟨work, moved, rfl⟩ := Option.map_eq_some_iff.mp taken
      simp only [WorkSchedule.step] at moved
      split at moved <;> cases moved
      rename_i h runs
      refine size_worker _ ?_
      rw [runs]
      show _ * Multiset.card (_ + 0) + (n + 13 + n) < _ * Multiset.card (_ + {h}) + 0
      rw [add_zero, Multiset.card_add, Multiset.card_singleton, Nat.mul_add]
      omega
  | producer p =>
      obtain ⟨work, moved, rfl⟩ := Option.map_eq_some_iff.mp taken
      simp only [WorkSchedule.step] at moved
      split at moved <;> cases moved
      rename_i u inside
      obtain ⟨deque, injector, -⟩ := u.step_queues s.work.shared
      have others : ∀ q, q ≠ p → unparkRank (Function.update s.work.producer p
          (u.step s.work.shared).2 q) = unparkRank (s.work.producer q) := by
        intro q other
        rw [Function.update_of_ne other]
      have ranks := Lib.sum_eq_off _ _ p others
      rw [Function.update_self, inside] at ranks
      have less := unparkRank_step s.work.shared u
      refine size_beside rfl deque injector ?_
      refine Nat.add_lt_add_right (Nat.add_lt_add_right ?_ _) _
      show ∑ q, unparkRank (Function.update s.work.producer p (u.step s.work.shared).2 q) < _
      omega
  | teardown => exact size_teardown isStopped taken
  | countdown i =>
      simp only [step] at taken
      split at taken <;> cases taken
      rename_i behind
      have some_ : 0 < s.pending := by
        have entry := Lib.entry_le_sum (fun j => (!s.counted j).toNat) i
        rw [← down.pending, behind.2] at entry
        exact entry
      refine size_beside rfl rfl rfl ?_
      split
      · simp only [teardownRank]
        omega
      · omega
  | runPush i op h => exact isOwn.elim
  | producerPush p op h => exact isOwn.elim
  | leave => exact isOwn.elim
  | spurious => exact isOwn.elim

/-- Behind the stop flag nobody waits for a thread that waits itself. -/
theorem own_enabled (down : Down s) (isStopped : stopped s.teardown = true)
    (running : s.teardown ≠ .returned) : ∃ a s', own a ∧ step s a = some s' := by
  by_cases waits : s.teardown = .waiting
  · have some_ := down.waiting waits
    rw [down.pending] at some_
    obtain ⟨i, uncounted⟩ := Lib.exists_pos_of_sum_pos some_
    have uncounted : s.counted i = false := by
      cases is : s.counted i with
      | false => rfl
      | true =>
          rw [is] at uncounted
          cases uncounted
    by_cases ends : ended (s.work.worker i).pc = true
    · exact ⟨.countdown i, _, trivial, if_pos ⟨ends, uncounted⟩⟩
    · by_cases runs : ∃ h, (s.work.worker i).pc = .run h
      · obtain ⟨h, runs⟩ := runs
        refine ⟨.runEnd i, ?_⟩
        simp only [step, State.working, WorkSchedule.step, runs]
        exact ⟨_, trivial, rfl⟩
      · have awake : (s.work.worker i).pc = .park → s.work.shared.parkToken i = true := by
          intro parks
          refine (down.awake i (by rw [waits]; rfl)).resolve_right ?_
          rw [parks]
          exact Bool.false_ne_true
        obtain ⟨next, goes⟩ := workerStep_enabled awake (fun h is => runs ⟨h, is⟩) (by
          intro exited
          rw [exited] at ends
          exact ends rfl)
        refine ⟨.worker i, ?_⟩
        simp only [step, State.working, WorkSchedule.step, goes]
        exact ⟨_, trivial, rfl⟩
  · refine ⟨.teardown, ?_⟩
    have flag := down.stopping isStopped
    simp only [step, teardownStep]
    cases at_ : s.teardown with
    | polling | storeStopping =>
        rw [at_] at isStopped
        cases isStopped
    | unpark k =>
        dsimp only
        split
        · simp only [State.working, WorkSchedule.step, if_pos flag]
          exact ⟨_, trivial, rfl⟩
        · exact ⟨_, trivial, rfl⟩
    | test => exact ⟨_, trivial, rfl⟩
    | waiting => exact absurd at_ waits
    | returned => exact absurd at_ running

theorem stopped_step (isStopped : stopped s.teardown = true) (isOwn : own a)
    (taken : step s a = some s') : stopped s'.teardown = true := by
  cases a with
  | worker i | runEnd i | producer p =>
      obtain ⟨work, moved, rfl⟩ := Option.map_eq_some_iff.mp taken
      exact isStopped
  | teardown =>
      simp only [step] at taken
      unfold teardownStep at taken
      split at taken
      · cases taken
      · obtain ⟨work, moved, rfl⟩ := Option.map_eq_some_iff.mp taken
        rfl
      · split at taken
        · obtain ⟨work, moved, rfl⟩ := Option.map_eq_some_iff.mp taken
          rfl
        · cases taken
          rfl
      · cases taken
        dsimp only
        split <;> rfl
      · cases taken
      · cases taken
  | countdown i =>
      simp only [step] at taken
      split at taken <;> cases taken
      dsimp only
      split
      · rfl
      · exact isStopped
  | runPush i op h => exact isOwn.elim
  | producerPush p op h => exact isOwn.elim
  | leave => exact isOwn.elim
  | spurious => exact isOwn.elim

/-- Once `stop_threads` has raised the flag, `_run` is bound to return: from then on no
order of the steps goes on for ever and none gets stuck, as long as the handles that are
still run return and push no others, no other thread goes on pushing, and the wait of
`_run` is not left spuriously again and again. -/
theorem shutdown_returns (reached : (machine n m H).Reachable s)
    (isStopped : stopped s.teardown = true) :
    (machine n m H).Inevitably own (fun s => s.teardown = .returned) s := by
  refine Machine.inevitably_of_measure (fun s => (machine n m H).Reachable s ∧
    stopped s.teardown = true) size ?_ ?_ ⟨reached, isStopped⟩
  · rintro s ⟨reached, isStopped⟩ running
    exact own_enabled (down reached) isStopped running
  · rintro s a s' ⟨reached, isStopped⟩ - isOwn taken
    refine ⟨⟨reached.next taken, stopped_step isStopped isOwn taken⟩, ?_⟩
    exact size_less (down reached) isStopped isOwn taken

/-- The flag is raised beside a worker that runs a handle. -/
def raisedRun : List (Act 1 1 Nat) :=
  [.worker only, .worker only, .leave, .teardown]

theorem raisedRun_ends :
    ((machine 1 1 Nat).exec (spawned 1 1 [7]) raisedRun).any
      (fun s => decide (s.teardown = .unpark 0 ∧ s.work.shared.injector = [])) = true := by
  decide +kernel

theorem shutdown_returns_running :
    ∃ s : State 1 1 Nat, s.teardown = .unpark 0 ∧
      (machine 1 1 Nat).Inevitably own (fun s => s.teardown = .returned) s := by
  obtain ⟨s, reached, ends⟩ :=
    Machine.Reachable.exists_of_exec (spawned_start [7]) raisedRun_ends
  obtain ⟨unparks, -⟩ := of_decide_eq_true ends
  exact ⟨s, unparks, shutdown_returns reached (by rw [unparks]; rfl)⟩

end MtAsyncio.Shutdown
