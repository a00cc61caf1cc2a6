/-
Module: MtAsyncio.Proofs.WorkTokens
Purpose: The ledgers of the worker scheduler.  `speculation` is the number of
  wake tokens outstanding and `idle_count` the number of idle flags set, up to
  the operations that are half done; both are sums over the threads, and every
  atomic step posts to the ledger what it does to the counter.
Trusted boundary: none
Main exports: Worker.tokens, Worker.idle, Balanced, balanced_step,
  balanced_of_reach
-/
import Mathlib.Tactic.LinearCombination
import Mathlib.Tactic.Ring
import MtAsyncio.Lib.Ledger
import MtAsyncio.Model.WorkSchedule

namespace MtAsyncio.WorkSchedule

open scoped BigOperators
open Lib (Machine)

variable {n m : Nat} {H : Type}

/-! ## What each thread holds -/

/-- A condition's part of a machine counter. -/
@[simp] def unit : Bool → BitVec 64
  | true => 1
  | false => 0

/-- Tokens of a thread inside an unpark call: it has one from taking it until
it claims a flag or gives it back. -/
@[simp] def Unparking.tokens : Unparking n → Nat
  | .tryFlag _ | .giveBack => 1
  | _ => 0

/-- Subtractions from `idle_count` that a claim still owes. -/
@[simp] def Unparking.idle : Unparking n → BitVec 64
  | .subIdleCount _ => 1
  | _ => 0

@[simp] def unparkTokens : Option (Unparking n) → Nat
  | none => 0
  | some u => u.tokens

@[simp] def unparkIdle : Option (Unparking n) → BitVec 64
  | none => 0
  | some u => u.idle

namespace WorkerPc

/-- The unpark call a worker is inside of, if any. -/
@[simp] def unparking : WorkerPc n H → Option (Unparking n)
  | .wakeNext _ u | .push _ u => some u
  | _ => none

/-- Between the flag store of `set_idle` and the compare-exchange of
`clear_idle`: the worker's idle flag is up unless a producer claimed it. -/
@[simp] def advertised : WorkerPc n H → Bool
  | .addCount | .findWork true _ | .checkStopping true | .giveUp | .rescan
  | .park | .clearIdle _ | .unparked | .exitClear => true
  | _ => false

/-- A claim that `clear_idle` has observed and `is_speculating` does not carry
yet. -/
@[simp] def observed : WorkerPc n H → Bool
  | .absorb _ | .unparkedStopping true => true
  | _ => false

/-- `set_idle` raised the flag and still owes the addition. -/
@[simp] def owesAdd : WorkerPc n H → Bool
  | .addCount => true
  | _ => false

/-- `clear_idle` lowered the flag and still owes the subtraction. -/
@[simp] def owesCount : WorkerPc n H → Bool
  | .clearCount _ | .unparkedCount | .exitCount => true
  | _ => false

/-- The counters at which `is_speculating` is known to be false. -/
@[simp] def notSpeculating : WorkerPc n H → Bool
  | .wakeNext _ _ | .run _ | .push _ _ | .rescan | .park | .unparked
  | .unparkedCount | .unparkedStopping _ => true
  | _ => false

/-- The counters at which `is_speculating` is known to be true. -/
@[simp] def speculating : WorkerPc n H → Bool
  | .dropToken _ | .giveUp | .exitToken => true
  | _ => false

/-- The counters reached only after `work_stopping` was seen. -/
@[simp] def exiting : WorkerPc n H → Bool
  | .exitClear | .exitCount | .exitToken | .exited => true
  | _ => false

/-- The worker has found its own deque empty and has not run a handle since. -/
@[simp] def drained : WorkerPc n H → Bool
  | .findWork false .own => false
  | .findWork _ _ | .checkStopping _ | .storeFlag | .addCount | .giveUp
  | .rescan | .park => true
  | _ => false

end WorkerPc

/-- What `is_speculating` can be at each program counter before the stop. -/
structure Worker.Consistent (w : Worker n H) : Prop where
  off : w.pc.notSpeculating = true → w.isSpeculating = false
  on : w.pc.speculating = true → w.isSpeculating = true
  running : w.pc.exiting = false

/-- Tokens charged to a worker: its own, an unobserved or unposted claim of its
flag, and the one of an unpark call it makes. -/
def Worker.tokens (w : Worker n H) (flag : Bool) : Nat :=
  w.isSpeculating.toNat + (w.pc.advertised && !flag).toNat + w.pc.observed.toNat +
    unparkTokens w.pc.unparking

/-- The worker's part of `idle_count`. -/
def Worker.idle (w : Worker n H) (flag : Bool) : BitVec 64 :=
  unit flag - unit w.pc.owesAdd + unit w.pc.owesCount + unparkIdle w.pc.unparking

/-! ## The balance -/

/-- The ledgers agree with the counters. -/
structure Balanced (s : State n m H) : Prop where
  consistent : ∀ i, (s.worker i).Consistent
  flagged : ∀ i, s.shared.idleFlag i = true → (s.worker i).pc.advertised = true
  speculation : s.shared.speculation =
    ∑ i, (s.worker i).tokens (s.shared.idleFlag i) + ∑ p, unparkTokens (s.producer p)
  idleCount : s.shared.idleCount =
    ∑ i, (s.worker i).idle (s.shared.idleFlag i) + ∑ p, unparkIdle (s.producer p)
  drained : ∀ i, (s.worker i).pc.drained = true → s.shared.deque i = []

/-! ## One step posts what it does -/

theorem wakeIdle_entry : (wakeIdle (n := n)).tokens = 1 ∧ (wakeIdle (n := n)).idle = 0 := by
  unfold wakeIdle
  split <;> exact ⟨rfl, rfl⟩

theorem nextFlag_entry (i : Fin n) : (nextFlag i).tokens = 1 ∧ (nextFlag i).idle = 0 := by
  unfold nextFlag
  split <;> exact ⟨rfl, rfl⟩

/-- What a step of a thread inside an unpark call does to the ledgers: either
it touches no flag and posts its own entry, or it claims a flag. -/
theorem Unparking.step_posts (g : Shared n H) (u : Unparking n)
    (charged : u.tokens ≤ g.speculation) :
    ((u.step g).1.idleFlag = g.idleFlag ∧
      (u.step g).1.speculation + u.tokens = g.speculation + unparkTokens (u.step g).2 ∧
      (u.step g).1.idleCount + u.idle = g.idleCount + unparkIdle (u.step g).2) ∨
    ∃ j, u = .tryFlag j ∧ g.idleFlag j = true ∧
      u.step g = ({ g with idleFlag := Function.update g.idleFlag j false },
        some (.subIdleCount j)) := by
  cases u with
  | loadIdleCount force =>
      left
      simp only [Unparking.step]
      split <;> simp
  | takeToken force =>
      left
      cases force with
      | true =>
          refine ⟨rfl, ?_, ?_⟩
          · show g.speculation + 1 + 0 = g.speculation + (wakeIdle (n := n)).tokens
            rw [wakeIdle_entry.1]
          · show g.idleCount + 0 = g.idleCount + (wakeIdle (n := n)).idle
            rw [wakeIdle_entry.2]
      | false =>
          simp only [Unparking.step]
          split
          · rename_i zero
            refine ⟨rfl, ?_, ?_⟩
            · show 1 + 0 = g.speculation + (wakeIdle (n := n)).tokens
              rw [wakeIdle_entry.1, zero]
            · show g.idleCount + 0 = g.idleCount + (wakeIdle (n := n)).idle
              rw [wakeIdle_entry.2]
          · simp
  | tryFlag i =>
      by_cases flag : g.idleFlag i = true
      · exact .inr ⟨i, rfl, flag, by simp [Unparking.step, flag]⟩
      · left
        have step : (Unparking.tryFlag i).step g = (g, some (nextFlag i)) := by
          simp [Unparking.step, flag]
        rw [step]
        exact ⟨rfl, congrArg _ (nextFlag_entry i).1.symm, congrArg _ (nextFlag_entry i).2.symm⟩
  | subIdleCount i =>
      left
      simp [Unparking.step]
  | unparkWorker i =>
      left
      simp [Unparking.step]
  | giveBack =>
      left
      simp only [Unparking.tokens] at charged
      simp only [Unparking.step, Unparking.tokens, Unparking.idle, unparkTokens, unparkIdle,
        and_true, true_and]
      omega

/-- The move of a worker that leaves its ledger entries as they are. -/
structure Worker.Alike (w w' : Worker n H) : Prop where
  consistent : w'.Consistent
  advertised : w.pc.advertised = true → w'.pc.advertised = true
  tokens : ∀ flag, (flag = true → w.pc.advertised = true) → w'.tokens flag = w.tokens flag
  idle : ∀ flag, w'.idle flag = w.idle flag

/-- A step of worker `i` posts to the ledgers what it does to the counters, and
touches no other worker's flag. -/
structure Posts (g g' : Shared n H) (i : Fin n) (w w' : Worker n H) : Prop where
  consistent : w'.Consistent
  flagged : g'.idleFlag i = true → w'.pc.advertised = true
  others : ∀ j, j ≠ i → g'.idleFlag j = g.idleFlag j
  speculation : g'.speculation + w.tokens (g.idleFlag i) =
    g.speculation + w'.tokens (g'.idleFlag i)
  idleCount : g'.idleCount + w.idle (g.idleFlag i) =
    g.idleCount + w'.idle (g'.idleFlag i)

theorem Worker.Alike.posts {g g' : Shared n H} {i : Fin n} {w w' : Worker n H}
    (alike : w.Alike w') (flagged : g.idleFlag i = true → w.pc.advertised = true)
    (flags : g'.idleFlag = g.idleFlag) (speculation : g'.speculation = g.speculation)
    (count : g'.idleCount = g.idleCount) : Posts g g' i w w' where
  consistent := alike.consistent
  flagged := by
    rw [flags]
    exact fun flag => alike.advertised (flagged flag)
  others := by simp [flags]
  speculation := by rw [flags, speculation, alike.tokens _ flagged]
  idleCount := by rw [flags, count, alike.idle]

/-- Moves between counters that the ledgers do not tell apart. -/
theorem Worker.alike_of_same {w w' : Worker n H} (consistent : w'.Consistent)
    (speculating : w'.isSpeculating = w.isSpeculating)
    (advertised : w'.pc.advertised = w.pc.advertised)
    (observed : w'.pc.observed = w.pc.observed) (owesAdd : w'.pc.owesAdd = w.pc.owesAdd)
    (owesCount : w'.pc.owesCount = w.pc.owesCount)
    (unparking : w'.pc.unparking = w.pc.unparking) : w.Alike w' where
  consistent := consistent
  advertised := by rw [advertised]; exact id
  tokens := by
    intro flag _
    simp only [Worker.tokens, speculating, advertised, observed, unparking]
  idle := by
    intro flag
    simp only [Worker.idle, owesAdd, owesCount, unparking]

theorem Worker.takeUp_consistent (w : Worker n H) (h : H) : (w.takeUp h).Consistent := by
  obtain ⟨pc, speculating⟩ := w
  cases speculating with
  | true => exact ⟨by rintro ⟨⟩, fun _ => rfl, rfl⟩
  | false => exact ⟨fun _ => rfl, by rintro ⟨⟩, rfl⟩

/-- A successful `find_work` moves no ledger entry. -/
theorem Worker.found_alike {w : Worker n H} {second : Bool} {scan : Scan} (h : H)
    (at_ : w.pc = .findWork second scan) : w.Alike (w.found second h) := by
  obtain ⟨pc, speculating⟩ := w
  subst at_
  cases second with
  | true => exact Worker.alike_of_same ⟨by rintro ⟨⟩, by rintro ⟨⟩, rfl⟩ rfl rfl rfl rfl rfl rfl
  | false =>
      have consistent := Worker.takeUp_consistent (n := n) ⟨.findWork false scan, speculating⟩ h
      cases speculating <;>
        exact Worker.alike_of_same consistent rfl rfl rfl rfl rfl rfl

theorem workerStep_posts {g g' : Shared n H} {i : Fin n} {w w' : Worker n H}
    (taken : workerStep g i w = some (g', w')) (outside : w.pc.unparking = none)
    (running : g.workStopping = false) (consistent : w.Consistent)
    (flagged : g.idleFlag i = true → w.pc.advertised = true)
    (charged : w.tokens (g.idleFlag i) ≤ g.speculation) : Posts g g' i w w' := by
  obtain ⟨pc, speculating⟩ := w
  obtain ⟨off, on, alive⟩ := consistent
  cases pc with
  | findWork second scan =>
      have silent : ∀ next, (Worker.mk (n := n) (H := H) (.findWork second scan) speculating).Alike
          (Worker.mk (.findWork second next) speculating) := by
        intro next
        cases second <;>
          exact Worker.alike_of_same ⟨by simp, by simp, rfl⟩ rfl rfl rfl rfl rfl rfl
      cases scan with
      | own =>
          simp only [workerStep] at taken
          split at taken <;> cases taken
          · exact (Worker.found_alike _ rfl).posts flagged rfl rfl rfl
          · exact (silent _).posts flagged rfl rfl rfl
      | injector =>
          simp only [workerStep] at taken
          split at taken <;> cases taken
          · exact (Worker.found_alike _ rfl).posts flagged rfl rfl rfl
          · exact (silent _).posts flagged rfl rfl rfl
      | stealer k =>
          simp only [workerStep] at taken
          split at taken
          · split at taken
            · cases taken
              exact (silent _).posts flagged rfl rfl rfl
            · split at taken <;> cases taken
              · exact (Worker.found_alike _ rfl).posts flagged rfl rfl rfl
              · exact (silent _).posts flagged rfl rfl rfl
          · cases taken
            refine Worker.Alike.posts ?_ flagged rfl rfl rfl
            cases second <;>
              exact Worker.alike_of_same ⟨by rintro ⟨⟩, by rintro ⟨⟩, rfl⟩ rfl rfl rfl rfl rfl rfl
  | dropToken h =>
      cases taken
      have on : speculating = true := on rfl
      have lowered : g.idleFlag i = false := by simpa using flagged
      simp [Worker.tokens, on, lowered] at charged
      constructor
      · split <;> exact ⟨fun _ => rfl, by simp, rfl⟩
      · exact fun raised => by simp [lowered] at raised
      · exact fun _ _ => rfl
      · split <;> simp [Worker.tokens, on] <;> omega
      · split <;> simp [Worker.idle]
  | wakeNext h u => cases outside
  | run h => cases taken
  | push h u => cases outside
  | checkStopping second =>
      cases second with
      | false =>
          cases taken
          simp only [running, Bool.false_eq_true, if_false]
          refine Worker.Alike.posts ?_ flagged rfl rfl rfl
          exact Worker.alike_of_same ⟨by rintro ⟨⟩, by rintro ⟨⟩, rfl⟩ rfl rfl rfl rfl rfl rfl
      | true =>
          cases taken
          simp only [running, Bool.false_eq_true, if_false]
          refine Worker.Alike.posts ?_ flagged rfl rfl rfl
          cases speculating with
          | true =>
              exact Worker.alike_of_same ⟨by rintro ⟨⟩, fun _ => rfl, rfl⟩ rfl rfl rfl rfl rfl
                rfl
          | false =>
              exact Worker.alike_of_same ⟨fun _ => rfl, by rintro ⟨⟩, rfl⟩ rfl rfl rfl rfl
                rfl rfl
  | storeFlag =>
      cases taken
      have lowered : g.idleFlag i = false := by simpa using flagged
      constructor
      · exact ⟨by rintro ⟨⟩, by rintro ⟨⟩, rfl⟩
      · exact fun _ => rfl
      · exact fun j other => Function.update_of_ne other _ _
      · simp [Worker.tokens, Worker.goto, lowered]
      · simp [Worker.idle, Worker.goto, lowered]
  | addCount =>
      cases taken
      constructor
      · exact ⟨by rintro ⟨⟩, by rintro ⟨⟩, rfl⟩
      · exact fun _ => rfl
      · exact fun _ _ => rfl
      · simp [Worker.tokens, Worker.goto]
      · simp [Worker.idle, Worker.goto]
  | clearIdle h =>
      simp only [workerStep] at taken
      split at taken <;> cases taken
      · rename_i raised
        constructor
        · exact ⟨by rintro ⟨⟩, by rintro ⟨⟩, rfl⟩
        · simp
        · exact fun j other => Function.update_of_ne other _ _
        · simp [Worker.tokens, Worker.goto, raised]
        · simp [Worker.idle, Worker.goto, raised]
      · rename_i lowered
        constructor
        · exact ⟨by rintro ⟨⟩, by rintro ⟨⟩, rfl⟩
        · exact fun raised => absurd raised lowered
        · exact fun _ _ => rfl
        · simp [Worker.tokens, Worker.goto, lowered]
        · simp [Worker.idle, Worker.goto]
  | clearCount h =>
      cases taken
      have lowered : g.idleFlag i = false := by simpa using flagged
      constructor
      · exact Worker.takeUp_consistent _ h
      · exact fun raised => by simp [lowered] at raised
      · exact fun _ _ => rfl
      · cases speculating <;> simp [Worker.tokens, Worker.takeUp, Worker.goto]
      · cases speculating <;> simp [Worker.idle, Worker.takeUp, Worker.goto, lowered]
  | absorb h =>
      cases taken
      have lowered : g.idleFlag i = false := by simpa using flagged
      simp [Worker.tokens] at charged
      constructor
      · exact Worker.takeUp_consistent _ h
      · exact fun raised => by simp [lowered] at raised
      · exact fun _ _ => rfl
      · cases speculating <;> simp [Worker.tokens, Worker.takeUp, Worker.goto] <;> omega
      · cases speculating <;> simp [Worker.idle, Worker.takeUp, Worker.goto]
  | giveUp =>
      cases taken
      have on : speculating = true := on rfl
      simp [Worker.tokens, on] at charged
      constructor
      · exact ⟨fun _ => rfl, by simp, rfl⟩
      · exact fun _ => rfl
      · exact fun _ _ => rfl
      · simp [Worker.tokens, on]
        omega
      · simp [Worker.idle]
  | rescan => 
      simp only [workerStep] at taken
      split at taken <;> cases taken
      · refine Worker.Alike.posts ?_ flagged rfl rfl rfl
        exact Worker.alike_of_same ⟨by rintro ⟨⟩, by rintro ⟨⟩, rfl⟩ rfl rfl rfl rfl rfl rfl
      · refine Worker.Alike.posts ?_ flagged rfl rfl rfl
        exact Worker.alike_of_same ⟨off, by rintro ⟨⟩, rfl⟩ rfl rfl rfl rfl rfl rfl
  | park =>
      simp only [workerStep] at taken
      split at taken <;> cases taken
      refine Worker.Alike.posts ?_ flagged rfl rfl rfl
      exact Worker.alike_of_same ⟨off, by rintro ⟨⟩, rfl⟩ rfl rfl rfl rfl rfl rfl
  | unparked =>
      simp only [workerStep] at taken
      split at taken <;> cases taken
      · rename_i raised
        constructor
        · exact ⟨off, by rintro ⟨⟩, rfl⟩
        · simp
        · exact fun j other => Function.update_of_ne other _ _
        · simp [Worker.tokens, Worker.goto, raised]
        · simp [Worker.idle, Worker.goto, raised]
      · rename_i lowered
        constructor
        · exact ⟨off, by rintro ⟨⟩, rfl⟩
        · exact fun raised => absurd raised lowered
        · exact fun _ _ => rfl
        · simp [Worker.tokens, Worker.goto, lowered]
        · simp [Worker.idle, Worker.goto]
  | unparkedCount =>
      cases taken
      have lowered : g.idleFlag i = false := by simpa using flagged
      constructor
      · exact ⟨off, by rintro ⟨⟩, rfl⟩
      · exact fun raised => by simp [lowered] at raised
      · exact fun _ _ => rfl
      · simp [Worker.tokens, Worker.goto]
      · simp [Worker.idle, Worker.goto, lowered]
  | unparkedStopping claimed =>
      cases taken
      have lowered : g.idleFlag i = false := by simpa using flagged
      have silent : speculating = false := off rfl
      simp only [running, Bool.false_eq_true, if_false]
      constructor
      · exact ⟨by simp, by simp, rfl⟩
      · exact fun raised => by simp [lowered] at raised
      · exact fun _ _ => rfl
      · cases claimed <;> simp [Worker.tokens, silent]
      · simp [Worker.idle]
  | exitClear => cases alive
  | exitCount => cases alive
  | exitToken => cases alive
  | exited => cases alive

/-! ## The queues -/

/-- An unpark call leaves the queues and the stop flag alone. -/
theorem Unparking.step_queues (g : Shared n H) (u : Unparking n) :
    (u.step g).1.deque = g.deque ∧ (u.step g).1.injector = g.injector ∧
      (u.step g).1.workStopping = g.workStopping := by
  cases u with
  | takeToken force =>
      cases force with
      | true => exact ⟨rfl, rfl, rfl⟩
      | false => by_cases free : g.speculation = 0 <;> simp [Unparking.step, free]
  | tryFlag i => by_cases raised : g.idleFlag i = true <;> simp [Unparking.step, raised]
  | _ => exact ⟨rfl, rfl, rfl⟩

theorem workerStep_stopping {g g' : Shared n H} {i : Fin n} {w w' : Worker n H}
    (taken : workerStep g i w = some (g', w')) : g'.workStopping = g.workStopping := by
  unfold workerStep at taken
  (repeat' split at taken) <;> cases taken <;>
    first | rfl | exact (Unparking.step_queues _ _).2.2

/-- A step of worker `i` that pushes nothing: empty queues stay empty, and the
own deque is empty where the worker has found it so. -/
structure KeepsQueues (g g' : Shared n H) (i : Fin n) (w' : Worker n H) : Prop where
  deques : ∀ j, g.deque j = [] → g'.deque j = []
  drained : w'.pc.drained = true → g'.deque i = []
  injector : g.injector = [] → g'.injector = []

theorem KeepsQueues.of_same {g g' : Shared n H} {i : Fin n} {w' : Worker n H}
    (deque : g'.deque = g.deque) (injector : g.injector = [] → g'.injector = [])
    (drained : w'.pc.drained = true → g.deque i = []) : KeepsQueues g g' i w' where
  deques := by simp [deque]
  drained := by rw [deque]; exact drained
  injector := injector

theorem Worker.found_not_drained (w : Worker n H) (second : Bool) (h : H) :
    (w.found second h).pc.drained = false := by
  obtain ⟨pc, speculating⟩ := w
  cases second <;> cases speculating <;> rfl

theorem Worker.takeUp_not_drained (w : Worker n H) (h : H) :
    (w.takeUp h).pc.drained = false :=
  w.found_not_drained false h

theorem workerStep_queues {g g' : Shared n H} {i : Fin n} {w w' : Worker n H}
    (taken : workerStep g i w = some (g', w'))
    (drained : w.pc.drained = true → g.deque i = []) : KeepsQueues g g' i w' := by
  obtain ⟨pc, speculating⟩ := w
  cases pc with
  | findWork second scan =>
      cases scan with
      | own =>
          simp only [workerStep] at taken
          split at taken <;> cases taken
          · rename_i h rest queue
            refine ⟨fun j empty => ?_, fun still => ?_, id⟩
            · have other : j ≠ i := by
                rintro rfl
                simp [queue] at empty
              exact (Function.update_of_ne other _ _).trans empty
            · rw [Worker.found_not_drained] at still
              cases still
          · rename_i queue
            exact .of_same rfl id fun _ => queue
      | injector =>
          have own : g.deque i = [] := drained (by cases second <;> rfl)
          simp only [workerStep] at taken
          split at taken <;> cases taken
          · rename_i h rest queue
            exact .of_same rfl (fun empty => by simp [queue] at empty) fun _ => own
          · exact .of_same rfl id fun _ => own
      | stealer k =>
          have own : g.deque i = [] := drained (by cases second <;> rfl)
          simp only [workerStep] at taken
          split at taken
          · rename_i inside
            split at taken
            · cases taken
              exact .of_same rfl id fun _ => own
            · split at taken <;> cases taken
              · rename_i h stolen
                have keeps : ∀ j, g.deque j = [] → Function.update g.deque ⟨k, inside⟩
                    (g.deque ⟨k, inside⟩).dropLast j = [] := by
                  intro j empty
                  have other : j ≠ ⟨k, inside⟩ := by
                    rintro rfl
                    simp [empty] at stolen
                  rw [Function.update_of_ne other]
                  exact empty
                exact ⟨keeps, fun _ => keeps i own, id⟩
              · exact .of_same rfl id fun _ => own
          · cases taken
            exact .of_same rfl id fun _ => own
  | wakeNext h u =>
      cases taken
      obtain ⟨deque, injector, -⟩ := u.step_queues g
      refine .of_same deque (by simp [injector]) fun still => ?_
      dsimp only [Worker.goto] at still
      split at still <;> cases still
  | push h u =>
      cases taken
      obtain ⟨deque, injector, -⟩ := u.step_queues g
      refine .of_same deque (by simp [injector]) fun still => ?_
      dsimp only [Worker.goto] at still
      split at still <;> cases still
  | run h => cases taken
  | exited => cases taken
  | rescan =>
      simp only [workerStep] at taken
      split at taken <;> cases taken
      · rename_i h rest queue
        exact .of_same rfl (fun empty => by simp [queue] at empty) fun still => by cases still
      · exact .of_same rfl id fun _ => drained rfl
  | dropToken h =>
      cases taken
      refine .of_same rfl id fun still => ?_
      dsimp only at still
      split at still <;> cases still
  | clearCount h =>
      cases taken
      refine .of_same rfl id fun still => ?_
      rw [Worker.takeUp_not_drained] at still
      cases still
  | absorb h =>
      cases taken
      refine .of_same rfl id fun still => ?_
      rw [Worker.takeUp_not_drained] at still
      cases still
  | checkStopping second =>
      cases second <;> cases taken <;> exact .of_same rfl id fun _ => drained rfl
  | storeFlag | addCount | giveUp =>
      cases taken
      exact .of_same rfl id fun _ => drained rfl
  | clearIdle h =>
      simp only [workerStep] at taken
      split at taken <;> cases taken <;> exact .of_same rfl id (by rintro ⟨⟩)
  | park | unparked =>
      simp only [workerStep] at taken
      split at taken <;> cases taken <;> exact .of_same rfl id (by rintro ⟨⟩)
  | unparkedCount | exitToken =>
      cases taken
      exact .of_same rfl id (by rintro ⟨⟩)
  | unparkedStopping claimed =>
      cases taken
      cases g.workStopping <;> exact .of_same rfl id (by rintro ⟨⟩)
  | exitClear =>
      simp only [workerStep] at taken
      split at taken <;> cases taken
      · exact .of_same rfl id (by rintro ⟨⟩)
      · cases speculating <;> exact .of_same rfl id (by rintro ⟨⟩)
  | exitCount =>
      cases taken
      cases speculating <;> exact .of_same rfl id (by rintro ⟨⟩)

/-! ## The balance is kept -/

section Totals

variable (worker : Fin n → Worker n H) (flag : Fin n → Bool)

theorem tokens_update_worker (i : Fin n) (w' : Worker n H) :
    ∑ k, (Function.update worker i w' k).tokens (flag k) + (worker i).tokens (flag i) =
      ∑ k, (worker k).tokens (flag k) + w'.tokens (flag i) := by
  have total := Lib.sum_eq_off (fun k => (worker k).tokens (flag k))
    (fun k => (Function.update worker i w' k).tokens (flag k)) i
    fun k other => by simp only [Function.update_of_ne other]
  simpa only [Function.update_self] using total

theorem idle_update_worker (i : Fin n) (w' : Worker n H) :
    ∑ k, (Function.update worker i w' k).idle (flag k) + (worker i).idle (flag i) =
      ∑ k, (worker k).idle (flag k) + w'.idle (flag i) := by
  have total := Lib.sum_eq_off (fun k => (worker k).idle (flag k))
    (fun k => (Function.update worker i w' k).idle (flag k)) i
    fun k other => by simp only [Function.update_of_ne other]
  simpa only [Function.update_self] using total

variable {flag}

/-- A claimed flag charges its token to the worker. -/
theorem tokens_claim {j : Fin n} (raised : flag j = true)
    (advertised : (worker j).pc.advertised = true) :
    ∑ k, (worker k).tokens (Function.update flag j false k) =
      ∑ k, (worker k).tokens (flag k) + 1 := by
  have total := Lib.sum_eq_off (fun k => (worker k).tokens (flag k))
    (fun k => (worker k).tokens (Function.update flag j false k)) j
    fun k other => by simp only [Function.update_of_ne other]
  have charge : (worker j).tokens false = (worker j).tokens true + 1 := by
    simp only [Worker.tokens, advertised, Bool.and_true, Bool.and_false, Bool.not_true,
      Bool.not_false, Bool.toNat_true, Bool.toNat_false]
    omega
  simp only [Function.update_self, raised] at total
  omega

theorem idle_claim {j : Fin n} (raised : flag j = true) :
    ∑ k, (worker k).idle (Function.update flag j false k) + 1 =
      ∑ k, (worker k).idle (flag k) := by
  have total := Lib.sum_eq_off (fun k => (worker k).idle (flag k))
    (fun k => (worker k).idle (Function.update flag j false k)) j
    fun k other => by simp only [Function.update_of_ne other]
  have charge : (worker j).idle true = (worker j).idle false + 1 := by
    simp only [Worker.idle, unit]
    ring
  simp only [Function.update_self, raised] at total
  linear_combination total - charge

end Totals

theorem tokens_update_producer (producer : Fin m → Option (Unparking n)) (p : Fin m)
    (u' : Option (Unparking n)) :
    ∑ q, unparkTokens (Function.update producer p u' q) + unparkTokens (producer p) =
      ∑ q, unparkTokens (producer q) + unparkTokens u' := by
  have total := Lib.sum_eq_off (fun q => unparkTokens (producer q))
    (fun q => unparkTokens (Function.update producer p u' q)) p
    fun q other => by simp only [Function.update_of_ne other]
  simpa only [Function.update_self] using total

theorem idle_update_producer (producer : Fin m → Option (Unparking n)) (p : Fin m)
    (u' : Option (Unparking n)) :
    ∑ q, unparkIdle (Function.update producer p u' q) + unparkIdle (producer p) =
      ∑ q, unparkIdle (producer q) + unparkIdle u' := by
  have total := Lib.sum_eq_off (fun q => unparkIdle (producer q))
    (fun q => unparkIdle (Function.update producer p u' q)) p
    fun q other => by simp only [Function.update_of_ne other]
  simpa only [Function.update_self] using total

namespace Balanced

variable {s : State n m H}

theorem worker_charged (balanced : Balanced s) (i : Fin n) :
    (s.worker i).tokens (s.shared.idleFlag i) ≤ s.shared.speculation := by
  have entry := Lib.entry_le_sum (fun k => (s.worker k).tokens (s.shared.idleFlag k)) i
  rw [balanced.speculation]
  exact Nat.le_add_right_of_le entry

theorem producer_charged (balanced : Balanced s) (p : Fin m) :
    unparkTokens (s.producer p) ≤ s.shared.speculation := by
  have entry := Lib.entry_le_sum (fun q => unparkTokens (s.producer q)) p
  rw [balanced.speculation]
  exact Nat.le_add_left_of_le entry

/-- A worker step that posts its entries keeps the balance. -/
theorem setWorker (balanced : Balanced s) {i : Fin n} {g' : Shared n H} {w' : Worker n H}
    (posts : Posts s.shared g' i (s.worker i) w')
    (others : ∀ k, k ≠ i → s.shared.deque k = [] → g'.deque k = [])
    (own : w'.pc.drained = true → g'.deque i = []) : Balanced (s.setWorker i g' w') where
  consistent := by
    intro k
    by_cases same : k = i
    · subst same
      simpa [State.setWorker] using posts.consistent
    · simpa [State.setWorker, Function.update_of_ne same] using balanced.consistent k
  flagged := by
    intro k raised
    by_cases same : k = i
    · subst same
      simpa [State.setWorker] using posts.flagged raised
    · have raised : s.shared.idleFlag k = true := by
        rw [← posts.others k same]
        exact raised
      simpa [State.setWorker, Function.update_of_ne same] using balanced.flagged k raised
  speculation := by
    have total := tokens_update_worker s.worker g'.idleFlag i w'
    have flags := Lib.sum_eq_off (fun k => (s.worker k).tokens (s.shared.idleFlag k))
      (fun k => (s.worker k).tokens (g'.idleFlag k)) i
      fun k other => by simp only [posts.others k other]
    have before := balanced.speculation
    have post := posts.speculation
    simp only [State.setWorker]
    omega
  idleCount := by
    have total := idle_update_worker s.worker g'.idleFlag i w'
    have flags := Lib.sum_eq_off (fun k => (s.worker k).idle (s.shared.idleFlag k))
      (fun k => (s.worker k).idle (g'.idleFlag k)) i
      fun k other => by simp only [posts.others k other]
    have before := balanced.idleCount
    have post := posts.idleCount
    simp only [State.setWorker]
    linear_combination post + before - total - flags
  drained := by
    intro k still
    by_cases same : k = i
    · subst same
      exact own (by simpa [State.setWorker] using still)
    · refine others k same (balanced.drained k ?_)
      simpa [State.setWorker, Function.update_of_ne same] using still

/-- A worker claims the idle flag of another one: the token moves over. -/
theorem claimByWorker (balanced : Balanced s) {i j : Fin n} {w' : Worker n H}
    (raised : s.shared.idleFlag j = true) (alike : w'.Consistent)
    (silent : (s.worker i).pc.advertised = false)
    (tokens : ∀ flag, (s.worker i).tokens flag = 1 + w'.tokens flag)
    (idle : ∀ flag, w'.idle flag = (s.worker i).idle flag + 1)
    (drained : w'.pc.drained = false) :
    Balanced (s.setWorker i
      { s.shared with idleFlag := Function.update s.shared.idleFlag j false } w') where
  consistent := by
    intro k
    by_cases same : k = i
    · subst same
      simpa [State.setWorker] using alike
    · simpa [State.setWorker, Function.update_of_ne same] using balanced.consistent k
  flagged := by
    intro k raised'
    have still : k ≠ j ∧ s.shared.idleFlag k = true := by
      by_cases same : k = j
      · simp [State.setWorker, same] at raised'
      · exact ⟨same, by simpa [State.setWorker, Function.update_of_ne same] using raised'⟩
    have advertised := balanced.flagged k still.2
    have other : k ≠ i := by
      rintro rfl
      rw [silent] at advertised
      cases advertised
    simpa [State.setWorker, Function.update_of_ne other] using advertised
  speculation := by
    have total := tokens_update_worker s.worker
      (Function.update s.shared.idleFlag j false) i w'
    have claim := tokens_claim s.worker raised (balanced.flagged j raised)
    have before := balanced.speculation
    have moved := tokens (Function.update s.shared.idleFlag j false i)
    simp only [State.setWorker]
    omega
  idleCount := by
    have total := idle_update_worker s.worker
      (Function.update s.shared.idleFlag j false) i w'
    have claim := idle_claim s.worker raised
    have before := balanced.idleCount
    have moved := idle (Function.update s.shared.idleFlag j false i)
    simp only [State.setWorker]
    linear_combination before - total - claim - moved
  drained := by
    intro k still
    by_cases same : k = i
    · subst same
      simp only [State.setWorker, Function.update_self, drained] at still
      cases still
    · refine balanced.drained k ?_
      simpa [State.setWorker, Function.update_of_ne same] using still

/-- A thread outside the workers takes a step that moves no flag. -/
theorem setProducer (balanced : Balanced s) {p : Fin m} {g' : Shared n H}
    {u' : Option (Unparking n)} (flags : g'.idleFlag = s.shared.idleFlag)
    (deques : g'.deque = s.shared.deque)
    (speculation : g'.speculation + unparkTokens (s.producer p) =
      s.shared.speculation + unparkTokens u')
    (idleCount : g'.idleCount + unparkIdle (s.producer p) =
      s.shared.idleCount + unparkIdle u') : Balanced (s.setProducer p g' u') where
  consistent := balanced.consistent
  flagged := by
    simp only [State.setProducer, flags]
    exact balanced.flagged
  speculation := by
    have total := tokens_update_producer s.producer p u'
    have before := balanced.speculation
    simp only [State.setProducer, flags]
    omega
  idleCount := by
    have total := idle_update_producer s.producer p u'
    have before := balanced.idleCount
    simp only [State.setProducer, flags]
    linear_combination idleCount + before - total
  drained := by
    simp only [State.setProducer, deques]
    exact balanced.drained

/-- A thread outside the workers claims an idle flag. -/
theorem claimByProducer (balanced : Balanced s) {p : Fin m} {j : Fin n}
    (trying : s.producer p = some (.tryFlag j)) (raised : s.shared.idleFlag j = true) :
    Balanced (s.setProducer p
      { s.shared with idleFlag := Function.update s.shared.idleFlag j false }
      (some (.subIdleCount j))) where
  consistent := balanced.consistent
  flagged := by
    intro k raised'
    by_cases same : k = j
    · simp [State.setProducer, same] at raised'
    · exact balanced.flagged k
        (by simpa [State.setProducer, Function.update_of_ne same] using raised')
  speculation := by
    have total := tokens_update_producer s.producer p (some (.subIdleCount j))
    have claim := tokens_claim s.worker raised (balanced.flagged j raised)
    have before := balanced.speculation
    rw [trying] at total
    change _ + 1 = _ + 0 at total
    simp only [State.setProducer]
    omega
  idleCount := by
    have total := idle_update_producer s.producer p (some (.subIdleCount j))
    have claim := idle_claim s.worker raised
    have before := balanced.idleCount
    rw [trying] at total
    change _ + 0 = _ + 1 at total
    simp only [State.setProducer]
    linear_combination before - total - claim
  drained := balanced.drained

end Balanced

/-- A worker inside the unpark call `u`, or running its handle when there is
none. -/
structure Worker.Calls (w : Worker n H) (u : Option (Unparking n)) : Prop where
  consistent : w.Consistent
  silent : w.isSpeculating = false
  advertised : w.pc.advertised = false
  observed : w.pc.observed = false
  owesAdd : w.pc.owesAdd = false
  owesCount : w.pc.owesCount = false
  drained : w.pc.drained = false
  unparking : w.pc.unparking = u

theorem Worker.Calls.tokens {w : Worker n H} {u : Option (Unparking n)} (calls : w.Calls u)
    (flag : Bool) : w.tokens flag = unparkTokens u := by
  simp only [Worker.tokens, calls.silent, calls.advertised, calls.observed, calls.unparking,
    Bool.false_and, Bool.toNat_false, Nat.zero_add]

theorem Worker.Calls.idle {w : Worker n H} {u : Option (Unparking n)} (calls : w.Calls u)
    (flag : Bool) : w.idle flag = unit flag + unparkIdle u := by
  simp only [Worker.idle, calls.owesAdd, calls.owesCount, calls.unparking]
  simp [unit]

theorem workerStep_unparking {g g' : Shared n H} {i : Fin n} {w w' : Worker n H}
    {u : Unparking n} (taken : workerStep g i w = some (g', w'))
    (inside : w.pc.unparking = some u) (consistent : w.Consistent) :
    g' = (u.step g).1 ∧ w.Calls (some u) ∧ w'.Calls (u.step g).2 := by
  obtain ⟨pc, speculating⟩ := w
  cases pc with
  | wakeNext h v | push h v =>
      cases inside
      have silent : speculating = false := consistent.off rfl
      subst silent
      simp only [workerStep, Option.some.injEq, Prod.mk.injEq] at taken
      obtain ⟨rfl, rfl⟩ := taken
      refine ⟨rfl, ⟨consistent, rfl, rfl, rfl, rfl, rfl, rfl, rfl⟩, ?_⟩
      cases (u.step g).2 <;>
        exact ⟨⟨fun _ => rfl, by rintro ⟨⟩, rfl⟩, rfl, rfl, rfl, rfl, rfl, rfl, rfl⟩
  | _ => cases inside

/-- A step of worker `i` outside of `handle.run` keeps the balance. -/
theorem Balanced.worker {s : State n m H} (balanced : Balanced s)
    (running : s.shared.workStopping = false) {i : Fin n} {g' : Shared n H}
    {w' : Worker n H} (taken : workerStep s.shared i (s.worker i) = some (g', w')) :
    Balanced (s.setWorker i g' w') := by
  have consistent := balanced.consistent i
  have flagged := balanced.flagged i
  have charged := balanced.worker_charged i
  have queues := workerStep_queues taken (balanced.drained i)
  cases inside : (s.worker i).pc.unparking with
  | none =>
      exact balanced.setWorker
        (workerStep_posts taken inside running consistent flagged charged)
        (fun k _ => queues.deques k) queues.drained
  | some u =>
      obtain ⟨rfl, calls, calls'⟩ := workerStep_unparking taken inside consistent
      rw [calls.tokens] at charged
      have lowered : s.shared.idleFlag i = false := by
        rw [calls.advertised] at flagged
        simpa using flagged
      rcases u.step_posts s.shared charged with ⟨flags, speculation, count⟩ | ⟨j, rfl, raised, step⟩
      · refine balanced.setWorker ⟨calls'.consistent, ?_, ?_, ?_, ?_⟩
          (fun k _ => queues.deques k) queues.drained
        · simp [flags, lowered]
        · simp [flags]
        · rw [calls.tokens, calls'.tokens]
          exact speculation
        · rw [calls.idle, calls'.idle, flags, lowered]
          simpa [unit] using count
      · rw [step] at calls' ⊢
        refine balanced.claimByWorker raised calls'.consistent calls.advertised ?_ ?_
          calls'.drained
        · intro flag
          rw [calls.tokens, calls'.tokens]
          rfl
        · intro flag
          rw [calls.idle, calls'.idle]
          simp

/-- A step of a thread outside the workers keeps the balance. -/
theorem Balanced.producer {s : State n m H} (balanced : Balanced s) {p : Fin m}
    {u : Unparking n} (inside : s.producer p = some u) :
    Balanced (s.setProducer p (u.step s.shared).1 (u.step s.shared).2) := by
  have charged := balanced.producer_charged p
  rw [inside] at charged
  rcases u.step_posts s.shared charged with ⟨flags, speculation, count⟩ | ⟨j, rfl, raised, step⟩
  · refine balanced.setProducer flags (u.step_queues s.shared).1 ?_ ?_
    · rw [inside]
      exact speculation
    · rw [inside]
      exact count
  · rw [step]
    exact balanced.claimByProducer inside raised

/-- `handle.run` starts a push or returns: no counter moves. -/
theorem Balanced.fromRun {s : State n m H} (balanced : Balanced s) {i : Fin n} {h : H}
    (runs : (s.worker i).pc = .run h) {g' : Shared n H} {pc' : WorkerPc n H}
    (flags : g'.idleFlag = s.shared.idleFlag)
    (speculation : g'.speculation = s.shared.speculation)
    (count : g'.idleCount = s.shared.idleCount)
    (others : ∀ k, k ≠ i → g'.deque k = s.shared.deque k)
    (next : pc' = .findWork false .own ∨ ∃ force, pc' = .push h (.loadIdleCount force)) :
    Balanced (s.setWorker i g' ((s.worker i).goto pc')) := by
  have silent : (s.worker i).isSpeculating = false :=
    (balanced.consistent i).off (by rw [runs]; rfl)
  have lowered : s.shared.idleFlag i = false := by
    have flagged := balanced.flagged i
    rw [runs] at flagged
    simpa using flagged
  refine balanced.setWorker ⟨?_, ?_, ?_, ?_, ?_⟩ ?_ ?_
  · rcases next with rfl | ⟨force, rfl⟩
    · exact ⟨by rintro ⟨⟩, by rintro ⟨⟩, rfl⟩
    · exact ⟨fun _ => silent, by rintro ⟨⟩, rfl⟩
  · simp [flags, lowered]
  · simp [flags]
  · rcases next with rfl | ⟨force, rfl⟩ <;>
      simp [Worker.tokens, Worker.goto, runs, speculation]
  · rcases next with rfl | ⟨force, rfl⟩ <;>
      simp [Worker.idle, Worker.goto, runs, count, flags]
  · intro k other empty
    rw [others k other]
    exact empty
  · rcases next with rfl | ⟨force, rfl⟩ <;> rintro ⟨⟩

/-- Before the stop, every step keeps the balance. -/
theorem balanced_step {s s' : State n m H} {a : Act n m H} (balanced : Balanced s)
    (running : s'.shared.workStopping = false) (taken : step s a = some s') :
    Balanced s' := by
  cases a with
  | worker i =>
      obtain ⟨⟨g', w'⟩, moved, rfl⟩ := Option.map_eq_some_iff.mp taken
      exact balanced.worker ((workerStep_stopping moved).symm.trans running) moved
  | runPush i op h' =>
      simp only [step] at taken
      split at taken <;> cases taken
      rename_i h runs
      cases op with
      | addHandle =>
          exact balanced.fromRun runs rfl rfl rfl
            (fun k other => Function.update_of_ne other _ _) (.inr ⟨_, rfl⟩)
      | deferHandle => exact balanced.fromRun runs rfl rfl rfl (fun _ _ => rfl) (.inr ⟨_, rfl⟩)
      | addIoHandle => exact balanced.fromRun runs rfl rfl rfl (fun _ _ => rfl) (.inr ⟨_, rfl⟩)
  | runEnd i =>
      simp only [step] at taken
      split at taken <;> cases taken
      rename_i h runs
      exact balanced.fromRun runs rfl rfl rfl (fun _ _ => rfl) (.inl rfl)
  | producerPush p op h =>
      simp only [step] at taken
      split at taken <;> cases taken
      rename_i outside
      exact balanced.setProducer rfl rfl (by rw [outside]; rfl) (by rw [outside]; rfl)
  | producer p =>
      simp only [step] at taken
      split at taken <;> cases taken
      rename_i u inside
      exact balanced.producer inside
  | stop =>
      cases taken
      cases running
  | stopUnpark i =>
      simp only [step] at taken
      split at taken <;> cases taken
      rename_i stopping
      rw [stopping] at running
      cases running

/-- The stop flag is never lowered while the workers run. -/
theorem running_before {s s' : State n m H} {a : Act n m H}
    (running : s'.shared.workStopping = false) (taken : step s a = some s') :
    s.shared.workStopping = false := by
  cases a with
  | worker i =>
      obtain ⟨⟨g', w'⟩, moved, rfl⟩ := Option.map_eq_some_iff.mp taken
      exact (workerStep_stopping moved).symm.trans running
  | runPush i op h' =>
      simp only [step] at taken
      split at taken <;> cases taken
      cases op <;> exact running
  | runEnd i =>
      simp only [step] at taken
      split at taken <;> cases taken
      exact running
  | producerPush p op h =>
      simp only [step] at taken
      split at taken <;> cases taken
      exact running
  | producer p =>
      simp only [step] at taken
      split at taken <;> cases taken
      rename_i u inside
      exact (u.step_queues s.shared).2.2.symm.trans running
  | stop =>
      cases taken
      cases running
  | stopUnpark i =>
      simp only [step] at taken
      split at taken <;> cases taken
      exact running

theorem balanced_start {s : State n m H} (start : Start s) : Balanced s := by
  obtain ⟨deque, flag, count, speculation, -, -, worker, producer⟩ := start
  constructor
  · intro i
    rw [worker]
    exact ⟨by simp, by simp, rfl⟩
  · intro i raised
    rw [flag] at raised
    cases raised
  · simp [worker, producer, flag, speculation, Worker.tokens]
  · simp [worker, producer, flag, count, Worker.idle]
  · intro i _
    exact deque i

/-- In every state of every run before the stop the counters are the totals of
the ledgers. -/
theorem balanced_of_reach {guard : State n m H → Act n m H → Prop} {s : State n m H}
    (reached : (machine n m H).Reach guard s) :
    s.shared.workStopping = false → Balanced s := by
  refine Machine.Reach.invariant (fun s => s.shared.workStopping = false → Balanced s)
    (fun s start _ => balanced_start start) ?_ reached
  intro s a s' before _ taken running
  exact balanced_step (before (running_before running taken)) running taken

end MtAsyncio.WorkSchedule
