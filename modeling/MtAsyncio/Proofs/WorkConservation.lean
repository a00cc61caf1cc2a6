/-
Module: MtAsyncio.Proofs.WorkConservation
Purpose: Injected work does not wait beside a sleeping worker while everybody
  else runs handles.  A wake that was elided is owed by the token that was out;
  three places retire a token without paying: the end of `wake_idle`'s flag
  loop, the absorbed claim of a worker that was not speculating, and the handle
  picked up by the last scan before parking.
Trusted boundary: none
Main exports: WorkConserved, Compensated, Covered, work_is_conserved,
  work_waits_beside_sleeper
-/
import Mathlib.Algebra.BigOperators.Ring.Finset
import MtAsyncio.Proofs.WorkStranded

namespace MtAsyncio.WorkSchedule

open scoped BigOperators
open Lib (Machine)

variable {n m : Nat} {H : Type}

/-! ## The property -/

/-- Awake and outside of `handle.run`. -/
def WorkerPc.searching : WorkerPc n H → Bool
  | .run _ | .push _ _ | .park | .exited => false
  | _ => true

/-- Blocked in `park()` with the idle flag still set and no unpark token. -/
def Asleep (s : State n m H) (i : Fin n) : Prop :=
  (s.worker i).pc = .park ∧ s.shared.idleFlag i = true ∧ s.shared.parkToken i = false

/-- Awake and searching for work, or claimed and about to be. -/
def Searching (s : State n m H) (i : Fin n) : Prop :=
  (s.worker i).pc.searching = true ∨ (s.worker i).pc = .park ∧ s.shared.idleFlag i = false

/-- No push-and-unpark is in progress, on a worker or elsewhere. -/
def NoPushUnderWay (s : State n m H) : Prop :=
  NoPush s ∧ ∀ i h u, (s.worker i).pc ≠ .push h u

def WorkConserved (s : State n m H) : Prop :=
  s.shared.workStopping = false → NoPushUnderWay s → s.shared.injector ≠ [] →
    ∀ i, Asleep s i → ∃ j, j ≠ i ∧ Searching s j

/-! ## Who owes a wake -/

/-- The call has not come to its token yet. -/
def Unparking.undecided : Unparking n → Bool
  | .loadIdleCount _ | .takeToken _ => true
  | _ => false

/-- The worker falls asleep without another look at the injector. -/
def Dozing (s : State n m H) (i : Fin n) : Prop :=
  (s.worker i).sleepy = true ∧ s.shared.idleFlag i = true ∧ s.shared.parkToken i = false

/-- Some thread has an unpark call before it that has not come to its token. -/
def WakeAhead (s : State n m H) : Prop :=
  ∃ t u, s.call t = some u ∧ u.undecided = true

/-- The step retires the last token, or follows its retirement, and neither
wakes a worker nor looks at the injector again. -/
def RetiresSilently (s : State n m H) : Act n m H → Prop
  | .worker i =>
      s.shared.speculation = 1 ∧ ((∃ h, (s.worker i).pc = .absorb h) ∧
          (s.worker i).isSpeculating = false ∨
        (s.worker i).pc.unparking = some .giveBack) ∨
      s.shared.speculation = 0 ∧ (s.worker i).pc = .rescan
  | .producer p => s.shared.speculation = 1 ∧ s.producer p = some .giveBack
  | _ => False

/-- What the step leaves in the injector. -/
def leftInjected [DecidableEq H] (s : State n m H) : Act n m H → List H
  | .worker i => if (s.worker i).pc = .rescan then s.shared.injector.tail else s.shared.injector
  | _ => s.shared.injector

/-- A token is retired silently only when no injected handle is left, nobody
sleeps, or another wake or last scan is still to come. -/
def Compensated [DecidableEq H] (s : State n m H) (a : Act n m H) : Prop :=
  RetiresSilently s a → leftInjected s a = [] ∨ (∀ i, ¬Dozing s i) ∨ WakeAhead s ∨
    ∃ j, a ≠ .worker j ∧ (s.worker j).pc = .rescan

/-- A token is out, or a call has not come to it, or a last scan is ahead. -/
def Alert (s : State n m H) : Prop :=
  s.shared.speculation ≠ 0 ∨ WakeAhead s ∨ ∃ j, (s.worker j).pc = .rescan

def Covered (s : State n m H) : Prop :=
  s.shared.injector ≠ [] → (∃ i, Dozing s i) → Alert s

/-! ## The load of `idle_count` -/

theorem unit_eq (b : Bool) : unit b = ((b.toNat : Nat) : BitVec 64) := by
  cases b <;> rfl

theorem unparkIdle_unit (u : Option (Unparking n)) : ∃ b, unparkIdle u = unit b := by
  cases u with
  | none => exact ⟨false, rfl⟩
  | some u => cases u <;> first | exact ⟨true, rfl⟩ | exact ⟨false, rfl⟩

/-- A worker whose flag is not claimed adds at most one to `idle_count`. -/
theorem Worker.idle_unit {w : Worker n H} {flag : Bool}
    (flagged : flag = true → w.pc.advertised = true)
    (unclaimed : w.pc.owesAdd = true → flag = true) :
    ∃ b, w.idle flag = unit b ∧ (flag = true → w.pc.owesAdd = false → b = true) := by
  obtain ⟨pc, speculating⟩ := w
  cases flag with
  | true =>
      have advertised := flagged rfl
      cases pc with
      | addCount => exact ⟨false, by simp [Worker.idle], by simp⟩
      | wakeNext h u | push h u => cases advertised
      | _ => exact ⟨true, by simp_all [Worker.idle], fun _ _ => rfl⟩
  | false =>
      cases pc with
      | addCount => cases unclaimed rfl
      | wakeNext h u | push h u =>
          obtain ⟨b, same⟩ := unparkIdle_unit (some u)
          exact ⟨b, by simpa [Worker.idle] using same, by rintro ⟨⟩⟩
      | clearCount h | unparkedCount | exitCount =>
          exact ⟨true, by simp [Worker.idle], by rintro ⟨⟩⟩
      | _ => exact ⟨false, by simp [Worker.idle], by rintro ⟨⟩⟩

/-- With no token out the load of `idle_count` sees every raised flag. -/
theorem Balanced.idleCount_ne_zero {s : State n m H} (balanced : Balanced s)
    (fits : n + m < 2 ^ 64) (none : s.shared.speculation = 0) {i : Fin n}
    (raised : s.shared.idleFlag i = true) (added : (s.worker i).pc.owesAdd = false) :
    s.shared.idleCount ≠ 0 := by
  have unclaimed : ∀ k, (s.worker k).pc.owesAdd = true → s.shared.idleFlag k = true := by
    intro k owes
    have charged := balanced.worker_charged k
    rw [none, Nat.le_zero] at charged
    by_contra lowered
    have at_ : (s.worker k).pc = .addCount := by
      cases pc : (s.worker k).pc <;> simp_all
    simp [Worker.tokens, at_, lowered] at charged
  choose b worker raises using fun k => Worker.idle_unit (balanced.flagged k) (unclaimed k)
  choose c producer using fun p => unparkIdle_unit (s.producer p)
  have count : s.shared.idleCount =
      ((∑ k, (b k).toNat + ∑ p, (c p).toNat : Nat) : BitVec 64) := by
    simp only [balanced.idleCount, worker, producer, unit_eq, Nat.cast_add, Nat.cast_sum]
  have one : 1 ≤ ∑ k, (b k).toNat := by
    have entry := Lib.entry_le_sum (fun k => (b k).toNat) i
    rw [raises i raised added] at entry
    exact entry
  have workers : ∑ k, (b k).toNat ≤ n := by
    have each : ∑ k, (b k).toNat ≤ ∑ _k : Fin n, 1 :=
      Finset.sum_le_sum fun k _ => Bool.toNat_le (b k)
    simpa using each
  have producers : ∑ p, (c p).toNat ≤ m := by
    have each : ∑ p, (c p).toNat ≤ ∑ _p : Fin m, 1 :=
      Finset.sum_le_sum fun p _ => Bool.toNat_le (c p)
    simpa using each
  intro zero
  have size := congrArg BitVec.toNat (count.symm.trans zero)
  simp only [BitVec.natCast_eq_ofNat, BitVec.toNat_ofNat] at size
  rw [Nat.mod_eq_of_lt (by omega)] at size
  have empty : ∑ k, (b k).toNat + ∑ p, (c p).toNat = 0 := size
  omega

/-! ## Steps -/

/-- A step of an unpark call passes the alert on, unless it gives the last
token back. -/
theorem Unparking.step_alert {g : Shared n H} {u : Unparking n}
    (loads : u.undecided = true → g.idleCount = 0 → g.speculation ≠ 0)
    (kept : u = .giveBack → g.speculation ≠ 1)
    (alert : g.speculation ≠ 0 ∨ u.undecided = true) :
    (u.step g).1.speculation ≠ 0 ∨ ∃ u', (u.step g).2 = some u' ∧ u'.undecided = true := by
  cases u with
  | loadIdleCount force =>
      by_cases empty : g.idleCount = 0
      · exact .inl (loads rfl empty)
      · exact .inr ⟨.takeToken force, by simp only [Unparking.step, if_neg empty], rfl⟩
  | takeToken force =>
      cases force with
      | true => exact .inl (Nat.succ_ne_zero _)
      | false => by_cases free : g.speculation = 0 <;> simp [Unparking.step, free]
  | tryFlag i =>
      have out : g.speculation ≠ 0 := alert.resolve_right (by simp [undecided])
      by_cases raised : g.idleFlag i = true <;> simp [Unparking.step, raised, out]
  | subIdleCount i | unparkWorker i =>
      exact .inl (alert.resolve_right (by simp [undecided]))
  | giveBack =>
      have out : g.speculation ≠ 0 := alert.resolve_right (by simp [undecided])
      have notLast := kept rfl
      refine .inl ?_
      simp only [Unparking.step]
      omega

/-- A step of an unpark call raises no idle flag. -/
theorem Unparking.step_idleFlag {g : Shared n H} (u : Unparking n) {i : Fin n}
    (raised : (u.step g).1.idleFlag i = true) : g.idleFlag i = true := by
  cases u with
  | takeToken force =>
      cases force with
      | true => exact raised
      | false => by_cases free : g.speculation = 0 <;> simpa [Unparking.step, free] using raised
  | tryFlag j =>
      by_cases up : g.idleFlag j = true
      · by_cases same : i = j
        · exact same ▸ up
        · simpa [Unparking.step, up, same] using raised
      · simpa [Unparking.step, up] using raised
  | _ => exact raised

/-- A worker that stays sleepy only looks at deques. -/
theorem workerStep_stays_sleepy {g g' : Shared n H} {i : Fin n} {w w' : Worker n H}
    (taken : workerStep g i w = some (g', w')) (sleepy : w.sleepy = true)
    (still : w'.sleepy = true) : g' = g := by
  obtain ⟨pc, speculating⟩ := w
  cases pc with
  | findWork second scan =>
      cases second with
      | false => cases scan <;> cases sleepy
      | true =>
          cases scan with
          | own | injector => cases sleepy
          | stealer k =>
              simp only [workerStep] at taken
              (repeat' split at taken) <;> cases taken <;> first | rfl | skip
              rw [Worker.found_not_sleepy] at still
              cases still
  | checkStopping second =>
      cases second with
      | false => cases sleepy
      | true =>
          cases taken
          rfl
  | park =>
      simp only [workerStep] at taken
      split at taken <;> cases taken
      cases still
  | _ => cases sleepy

/-- Outside of unpark calls a worker passes the alert on, unless it retires the
last token silently. -/
theorem workerStep_alert {g g' : Shared n H} {i : Fin n} {w w' : Worker n H}
    (taken : workerStep g i w = some (g', w')) (outside : w.pc.unparking = none)
    (running : w.Consistent) (charged : w.tokens (g.idleFlag i) ≤ g.speculation)
    (kept : (∃ h, w.pc = .absorb h) → w.isSpeculating = false → g.speculation ≠ 1)
    (rescans : w.pc = .rescan → g.injector ≠ [] → g.speculation ≠ 0)
    (alert : g.speculation ≠ 0 ∨ w.pc = .rescan) :
    g'.speculation ≠ 0 ∨ (∃ u, w'.pc.unparking = some u ∧ u.undecided = true) ∨
      w'.pc = .rescan ∨ g'.injector = [] := by
  obtain ⟨pc, speculating⟩ := w
  cases pc with
  | dropToken h =>
      cases taken
      by_cases last : g.speculation = 1
      · exact .inr (.inl ⟨.loadIdleCount false, by simp [last], rfl⟩)
      · have out : g.speculation ≠ 0 := alert.resolve_right (by simp)
        exact .inl (by simp only; omega)
  | absorb h =>
      cases taken
      have out : g.speculation ≠ 0 := alert.resolve_right (by simp)
      refine .inl ?_
      cases speculating with
      | true =>
          have two : 2 ≤ g.speculation := by simpa [Worker.tokens] using charged
          simp only
          omega
      | false =>
          have notLast := kept ⟨h, rfl⟩ rfl
          simp only
          omega
  | giveUp =>
      cases taken
      exact .inr (.inr (.inl rfl))
  | rescan =>
      simp only [workerStep] at taken
      split at taken <;> cases taken
      · rename_i filled
        exact .inl (rescans rfl (by simp [filled]))
      · rename_i empty
        exact .inr (.inr (.inr empty))
  | exitClear | exitCount | exitToken | exited => cases running.running
  | wakeNext h u | push h u => cases outside
  | findWork second scan =>
      have out : g.speculation ≠ 0 := alert.resolve_right (by simp)
      cases scan <;> simp only [workerStep] at taken <;>
        (repeat' split at taken) <;> cases taken <;> exact .inl out
  | checkStopping second =>
      have out : g.speculation ≠ 0 := alert.resolve_right (by simp)
      cases second <;> cases taken <;> exact .inl out
  | _ =>
      have out : g.speculation ≠ 0 := alert.resolve_right (by simp)
      simp only [workerStep] at taken
      first
        | cases taken; done
        | cases taken; exact .inl out
        | split at taken <;> cases taken <;> exact .inl out

/-! ## The cover is kept -/

theorem Worker.owesAdd_of_sleepy {w : Worker n H} (sleepy : w.sleepy = true) :
    w.pc.owesAdd = false := by
  obtain ⟨pc, speculating⟩ := w
  cases pc <;> first | rfl | cases sleepy

/-- With a worker dozing, a load of `idle_count` that sees zero has missed a
worker that somebody claimed. -/
theorem Dozing.loads {s : State n m H} (balanced : Balanced s) (fits : n + m < 2 ^ 64)
    {i : Fin n} (dozing : Dozing s i) (empty : s.shared.idleCount = 0) :
    s.shared.speculation ≠ 0 := by
  intro none
  exact balanced.idleCount_ne_zero fits none dozing.2.1
    (Worker.owesAdd_of_sleepy dozing.1) empty

/-- A step of an unpark call puts nobody to sleep. -/
theorem Dozing.of_unpark {s : State n m H} {u : Unparking n} {worker : Fin n → Worker n H}
    {producer : Fin m → Option (Unparking n)} {k : Fin n}
    (same : worker k = s.worker k)
    (dozing : Dozing { shared := (u.step s.shared).1, worker := worker, producer := producer } k) :
    Dozing s k := by
  obtain ⟨sleepy, raised, untoken⟩ := dozing
  refine ⟨same ▸ sleepy, u.step_idleFlag raised, ?_⟩
  by_contra token
  rw [u.step_parkToken (Bool.not_eq_false _ ▸ token)] at untoken
  cases untoken

/-- A step of the unpark call of thread `t`. -/
theorem Covered.unpark {s s' : State n m H} (covered : Covered s) (balanced : Balanced s)
    (fits : n + m < 2 ^ 64) {t : Fin n ⊕ Fin m} {u : Unparking n} (inside : s.call t = some u)
    (shared : s'.shared = (u.step s.shared).1) (self : s'.call t = (u.step s.shared).2)
    (others : ∀ v, v ≠ t → s'.call v = s.call v)
    (scans : ∀ j, (s.worker j).pc = .rescan → (s'.worker j).pc = .rescan)
    (dozes : ∀ k, Dozing s' k → Dozing s k)
    (compensated : u = .giveBack → s.shared.speculation = 1 → s.shared.injector = [] ∨
      (∀ i, ¬Dozing s i) ∨ WakeAhead s ∨ ∃ j, (s.worker j).pc = .rescan) : Covered s' := by
  rintro filled ⟨k, dozing'⟩
  have dozing := dozes k dozing'
  have before : s.shared.injector ≠ [] := by
    rw [shared, (u.step_queues s.shared).2.1] at filled
    exact filled
  have ahead : ∀ v w, v ≠ t → s.call v = some w → w.undecided = true → Alert s' := by
    intro v w apart calls undecided
    exact .inr (.inl ⟨v, w, (others v apart).trans calls, undecided⟩)
  by_cases last : u = .giveBack ∧ s.shared.speculation = 1
  · rcases compensated last.1 last.2 with left | none | ⟨v, w, calls, undecided⟩ | ⟨j, at_⟩
    · exact absurd left before
    · exact absurd dozing (none k)
    · refine ahead v w ?_ calls undecided
      rintro rfl
      rw [inside, last.1] at calls
      cases calls
      cases undecided
    · exact .inr (.inr ⟨j, scans j at_⟩)
  · have kept : u = .giveBack → s.shared.speculation ≠ 1 := fun is one => last ⟨is, one⟩
    have mine : s.shared.speculation ≠ 0 ∨ u.undecided = true → Alert s' := by
      intro alert
      rcases Unparking.step_alert (fun _ => dozing.loads balanced fits) kept alert with
        out | ⟨u', next, undecided⟩
      · exact .inl (shared ▸ out)
      · exact .inr (.inl ⟨t, u', self.trans next, undecided⟩)
    rcases covered before ⟨k, dozing⟩ with out | ⟨v, w, calls, undecided⟩ | ⟨j, at_⟩
    · exact mine (.inl out)
    · by_cases same : v = t
      · subst same
        rw [inside] at calls
        cases calls
        exact mine (.inr undecided)
      · exact ahead v w same calls undecided
    · exact .inr (.inr ⟨j, scans j at_⟩)

/-- A step of worker `i` leaves the calls and last scans of the others alone. -/
theorem Alert.of_others {s : State n m H} {i : Fin n} {g' : Shared n H} {w' : Worker n H}
    (others : (∃ t u, t ≠ .inl i ∧ s.call t = some u ∧ u.undecided = true) ∨
      ∃ j, j ≠ i ∧ (s.worker j).pc = .rescan) : Alert (s.setWorker i g' w') := by
  rcases others with ⟨t, u, apart, calls, undecided⟩ | ⟨j, apart, at_⟩
  · refine .inr (.inl ⟨t, u, ?_, undecided⟩)
    cases t with
    | inl j =>
        have notI : j ≠ i := fun same => apart (congrArg _ same)
        simpa only [State.call, State.setWorker, Function.update_of_ne notI] using calls
    | inr p => exact calls
  · refine .inr (.inr ⟨j, ?_⟩)
    simpa only [State.setWorker, Function.update_of_ne apart] using at_

/-- A worker outside of unpark calls puts nobody else to sleep, and itself only
when it finds the injector empty. -/
theorem Dozing.of_worker {s : State n m H} (balanced : Balanced s)
    (running : s.shared.workStopping = false) {i : Fin n} {g' : Shared n H} {w' : Worker n H}
    (taken : workerStep s.shared i (s.worker i) = some (g', w'))
    (outside : (s.worker i).pc.unparking = none) {k : Fin n}
    (dozing : Dozing (s.setWorker i g' w') k) : Dozing s k ∨ g'.injector = [] := by
  obtain ⟨sleepy, raised, untoken⟩ := dozing
  simp only [State.setWorker] at sleepy raised untoken
  by_cases self : k = i
  · subst self
    rw [Function.update_self] at sleepy
    cases before : (s.worker k).sleepy with
    | true =>
        have same := workerStep_stays_sleepy taken before sleepy
        exact .inl ⟨before, same ▸ raised, same ▸ untoken⟩
    | false =>
        rcases workerStep_sleepy taken outside running before with awake | empty
        · rw [awake] at sleepy
          cases sleepy
        · exact .inr empty
  · rw [Function.update_of_ne self] at sleepy
    have flags := (workerStep_posts taken outside running (balanced.consistent i)
      (balanced.flagged i) (balanced.worker_charged i)).others k self
    refine .inl ⟨sleepy, flags ▸ raised, ?_⟩
    rcases workerStep_parkToken taken outside with same | ⟨-, lowered⟩
    · exact same ▸ untoken
    · rwa [lowered, Function.update_of_ne self] at untoken

theorem Covered.worker [DecidableEq H] {s : State n m H} (covered : Covered s)
    (balanced : Balanced s) (fits : n + m < 2 ^ 64) (running : s.shared.workStopping = false)
    {i : Fin n} {g' : Shared n H} {w' : Worker n H}
    (taken : workerStep s.shared i (s.worker i) = some (g', w'))
    (compensated : Compensated s (.worker i)) : Covered (s.setWorker i g' w') := by
  cases inside : (s.worker i).pc.unparking with
  | some u =>
      obtain ⟨rfl, -, calls⟩ := workerStep_unparking taken inside (balanced.consistent i)
      have notRescan : (s.worker i).pc ≠ .rescan := by
        intro at_
        rw [at_] at inside
        cases inside
      refine covered.unpark (t := .inl i) balanced fits inside rfl ?_ ?_ ?_ ?_ ?_
      · simp only [State.call, State.setWorker, Function.update_self, calls.unparking]
      · rintro (j | p) apart
        · have notI : j ≠ i := fun same => apart (congrArg _ same)
          simp only [State.call, State.setWorker, Function.update_of_ne notI]
        · rfl
      · intro j at_
        have notI : j ≠ i := fun same => notRescan (same ▸ at_)
        simpa only [State.setWorker, Function.update_of_ne notI] using at_
      · intro k dozing
        have notI : k ≠ i := by
          rintro rfl
          have sleepy := dozing.1
          simp only [State.setWorker, Function.update_self, calls.awake] at sleepy
          cases sleepy
        exact dozing.of_unpark (Function.update_of_ne notI _ _)
      · intro last one
        rcases compensated (.inl ⟨one, .inr (last ▸ inside)⟩) with left | none | ahead | ⟨j, -, at_⟩
        · simp only [leftInjected, if_neg notRescan] at left
          exact .inl left
        · exact .inr (.inl none)
        · exact .inr (.inr (.inl ahead))
        · exact .inr (.inr (.inr ⟨j, at_⟩))
  | none =>
      rintro filled ⟨k, dozing'⟩
      have dozing := (dozing'.of_worker balanced running taken inside).resolve_right filled
      have before : s.shared.injector ≠ [] := fun empty =>
        filled ((workerStep_queues taken (balanced.drained i)).injector empty)
      have apart : ∀ t u, s.call t = some u → t ≠ .inl i := by
        rintro t u calls rfl
        rw [State.call, inside] at calls
        cases calls
      by_cases silent : RetiresSilently s (.worker i)
      · rcases compensated silent with left | none | ⟨t, u, calls, undecided⟩ | ⟨j, other, at_⟩
        · refine absurd ?_ filled
          simp only [leftInjected] at left
          split at left
          · rename_i at_
            simp only [workerStep, at_] at taken
            cases queue : s.shared.injector with
            | nil => exact absurd queue before
            | cons h rest =>
                simp only [queue, Option.some.injEq, Prod.mk.injEq] at taken
                rw [queue, List.tail_cons] at left
                rw [← taken.1]
                exact left
          · exact absurd left before
        · exact absurd dozing (none k)
        · exact .of_others (.inl ⟨t, u, apart t u calls, calls, undecided⟩)
        · exact .of_others (.inr ⟨j, fun same => other (same ▸ rfl), at_⟩)
      · have mine : s.shared.speculation ≠ 0 ∨ (s.worker i).pc = .rescan →
            Alert (s.setWorker i g' w') := by
          intro alert
          rcases workerStep_alert taken inside (balanced.consistent i) (balanced.worker_charged i)
              (fun absorbs off one => silent (.inl ⟨one, .inl ⟨absorbs, off⟩⟩))
              (fun at_ _ none => silent (.inr ⟨none, at_⟩)) alert with
            out | ⟨u, calls, undecided⟩ | at_ | empty
          · exact .inl out
          · refine .inr (.inl ⟨.inl i, u, ?_, undecided⟩)
            simpa only [State.call, State.setWorker, Function.update_self] using calls
          · refine .inr (.inr ⟨i, ?_⟩)
            simpa only [State.setWorker, Function.update_self] using at_
          · exact absurd empty filled
        rcases covered before ⟨k, dozing⟩ with out | ⟨t, u, calls, undecided⟩ | ⟨j, at_⟩
        · exact mine (.inl out)
        · exact .of_others (.inl ⟨t, u, apart t u calls, calls, undecided⟩)
        · by_cases self : j = i
          · exact mine (.inr (self ▸ at_))
          · exact .of_others (.inr ⟨j, self, at_⟩)

theorem Covered.producer [DecidableEq H] {s : State n m H} (covered : Covered s)
    (balanced : Balanced s) (fits : n + m < 2 ^ 64) {p : Fin m} {u : Unparking n}
    (inside : s.producer p = some u) (compensated : Compensated s (.producer p)) :
    Covered (s.setProducer p (u.step s.shared).1 (u.step s.shared).2) := by
  refine covered.unpark (t := .inr p) balanced fits inside rfl ?_ ?_ (fun _ => id) ?_ ?_
  · simp only [State.call, State.setProducer, Function.update_self]
  · rintro (i | q) apart
    · rfl
    · have notP : q ≠ p := fun same => apart (congrArg _ same)
      simp only [State.call, State.setProducer, Function.update_of_ne notP]
  · intro k dozing
    exact dozing.of_unpark rfl
  · intro last one
    rcases compensated ⟨one, last ▸ inside⟩ with left | none | ahead | ⟨j, -, at_⟩
    · exact .inl left
    · exact .inr (.inl none)
    · exact .inr (.inr (.inl ahead))
    · exact .inr (.inr (.inr ⟨j, at_⟩))

theorem covered_step [DecidableEq H] {s s' : State n m H} {a : Act n m H}
    (fits : n + m < 2 ^ 64) (covered : Covered s) (balanced : Balanced s)
    (running : s'.shared.workStopping = false) (compensated : Compensated s a)
    (taken : step s a = some s') : Covered s' := by
  cases a with
  | worker i =>
      obtain ⟨⟨g', w'⟩, moved, rfl⟩ := Option.map_eq_some_iff.mp taken
      exact covered.worker balanced fits ((workerStep_stopping moved).symm.trans running) moved
        compensated
  | runPush i op h' =>
      simp only [step] at taken
      split at taken <;> cases taken
      intro _ _
      refine .inr (.inl ⟨.inl i, .loadIdleCount op.force, ?_, rfl⟩)
      simp only [State.call, State.setWorker, Function.update_self]
      rfl
  | runEnd i =>
      simp only [step] at taken
      split at taken <;> cases taken
      rename_i h runs
      rintro filled ⟨k, dozing'⟩
      have notI : k ≠ i := by
        rintro rfl
        have sleepy := dozing'.1
        simp only [State.setWorker, Function.update_self] at sleepy
        cases sleepy
      have dozing : Dozing s k := by
        simpa only [Dozing, State.setWorker, Function.update_of_ne notI] using dozing'
      rcases covered filled ⟨k, dozing⟩ with out | ⟨t, u, calls, undecided⟩ | ⟨j, at_⟩
      · exact .inl out
      · refine .of_others (.inl ⟨t, u, ?_, calls, undecided⟩)
        rintro rfl
        rw [State.call, runs] at calls
        cases calls
      · refine .of_others (.inr ⟨j, ?_, at_⟩)
        rintro rfl
        rw [runs] at at_
        cases at_
  | producerPush p op h =>
      simp only [step] at taken
      split at taken <;> cases taken
      intro _ _
      refine .inr (.inl ⟨.inr p, .loadIdleCount op.force, ?_, rfl⟩)
      simp only [State.call, State.setProducer, Function.update_self]
  | producer p =>
      simp only [step] at taken
      split at taken <;> cases taken
      rename_i u inside
      exact covered.producer balanced fits inside compensated
  | stop =>
      cases taken
      cases running
  | stopUnpark i =>
      simp only [step] at taken
      split at taken <;> cases taken
      rename_i stopping
      rw [stopping] at running
      cases running

theorem covered_start {s : State n m H} (start : Start s) : Covered s := by
  obtain ⟨-, -, -, -, -, -, worker, -⟩ := start
  rintro - ⟨k, dozing⟩
  have sleepy := dozing.1
  rw [worker] at sleepy
  cases sleepy

theorem covered_of_reach [DecidableEq H] (fits : n + m < 2 ^ 64) {s : State n m H}
    (reached : (machine n m H).Reach Compensated s) :
    s.shared.workStopping = false → Covered s := by
  refine (Machine.Reach.invariant
    (fun s => s.shared.workStopping = false → Balanced s ∧ Covered s)
    (fun s start _ => ⟨balanced_start start, covered_start start⟩) ?_ reached · |>.2)
  intro s a s' before compensated taken running
  obtain ⟨balanced, covered⟩ := before (running_before running taken)
  exact ⟨balanced_step balanced running taken,
    covered_step fits covered balanced running compensated taken⟩

/-! ## Work is conserved -/

/-- A worker that a token is charged to is up, or claimed. -/
theorem searching_of_tokens {s : State n m H} (balanced : Balanced s) {j : Fin n}
    (notPush : ∀ h u, (s.worker j).pc ≠ .push h u)
    (charged : 0 < (s.worker j).tokens (s.shared.idleFlag j)) : Searching s j := by
  have consistent := balanced.consistent j
  cases pc : (s.worker j).pc with
  | run h =>
      have off := consistent.off (by rw [pc]; rfl)
      simp [Worker.tokens, pc, off] at charged
  | push h u => exact absurd pc (notPush h u)
  | park =>
      have off := consistent.off (by rw [pc]; rfl)
      refine .inr ⟨pc, ?_⟩
      by_contra raised
      rw [Bool.not_eq_false] at raised
      simp [Worker.tokens, pc, off, raised] at charged
  | exited =>
      have running := consistent.running
      rw [pc] at running
      cases running
  | _ => exact .inl (by rw [pc]; rfl)

/-- In every run whose silent retirements are compensated, injected work does
not wait beside a sleeping worker unless another one searches. -/
theorem work_is_conserved [DecidableEq H] (fits : n + m < 2 ^ 64) {s : State n m H}
    (reached : (machine n m H).Reach Compensated s) : WorkConserved s := by
  intro running quiet filled i asleep
  have balanced := balanced_of_reach reached running
  have sleepy : (s.worker i).sleepy = true := by
    rw [Worker.sleepy, asleep.1]
  have alert := covered_of_reach fits reached running filled ⟨i, sleepy, asleep.2⟩
  have other : ∀ j, (s.worker j).pc ≠ .park → j ≠ i := by
    rintro j notParked rfl
    exact notParked asleep.1
  rcases alert with out | ⟨t, u, calls, undecided⟩ | ⟨j, at_⟩
  · have total := Nat.pos_of_ne_zero out
    have producers : ∑ p, unparkTokens (s.producer p) = 0 := by
      refine Finset.sum_eq_zero fun p _ => ?_
      rw [quiet.1 p]
      rfl
    rw [balanced.speculation, producers, Nat.add_zero] at total
    obtain ⟨j, charged⟩ := Lib.exists_pos_of_sum_pos total
    refine ⟨j, ?_, searching_of_tokens balanced (quiet.2 j) charged⟩
    rintro rfl
    rw [asleep.2.1, Worker.tokens_of_sleepy sleepy (balanced.consistent j)] at charged
    exact Nat.lt_irrefl 0 charged
  · cases t with
    | inr p =>
        rw [State.call, quiet.1 p] at calls
        cases calls
    | inl j =>
        cases pc : (s.worker j).pc with
        | wakeNext h v =>
            exact ⟨j, other j (by simp [pc]), .inl (by rw [pc]; rfl)⟩
        | push h v => exact absurd pc (quiet.2 j h v)
        | _ =>
            rw [State.call, pc] at calls
            cases calls
  · exact ⟨j, other j (by simp [at_]), .inl (by rw [at_]; rfl)⟩

/-! ## Runs -/

instance [DecidableEq H] (s : State n m H) (i : Fin n) : Decidable (Asleep s i) :=
  inferInstanceAs (Decidable (_ ∧ _ ∧ _))

instance [DecidableEq H] (s : State n m H) (i : Fin n) : Decidable (Searching s i) :=
  inferInstanceAs (Decidable (_ ∨ _ ∧ _))

/-- Worker 1 is parked.  Worker 0 is claimed for the first handle while it scans
and absorbs the claim; the wake for the second handle was elided. -/
def absorbingRun : List (Act 2 1 Nat) :=
  List.flatten
    [.replicate 14 (.worker (.last 1)), .replicate 8 (.worker (.castSucc (.last 0))),
      .producerPush (.last 0) .deferHandle 1 :: .replicate 5 (.producer (.last 0)),
      .producerPush (.last 0) .deferHandle 2 :: .replicate 2 (.producer (.last 0)),
      .replicate 4 (.worker (.castSucc (.last 0)))]

theorem absorbingRun_ends :
    ((machine 2 1 Nat).exec (idleStart 2 1 Nat) absorbingRun).any (fun s =>
      s.shared.workStopping = false ∧ s.producer 0 = none ∧ (s.worker 0).pc = .run 1 ∧
        s.shared.injector = [2] ∧ Asleep s 1) = true := by
  decide +kernel

theorem work_waits_beside_sleeper :
    ¬ ∀ s : State 2 1 Nat, (machine 2 1 Nat).Reachable s → WorkConserved s := by
  intro always
  obtain ⟨s, reached, ends⟩ := Machine.Reachable.exists_of_exec idleStart_start absorbingRun_ends
  obtain ⟨running, quiet, runs, filled, asleep⟩ := of_decide_eq_true ends
  have noPush : NoPushUnderWay s := by
    constructor
    · intro p
      rwa [Subsingleton.elim p 0]
    · exact Fin.forall_fin_two.mpr ⟨by simp [runs], by simp [asleep.1]⟩
  rcases Fin.exists_fin_two.mp (always s reached running noPush (by simp [filled]) 1 asleep) with
    ⟨-, searches⟩ | ⟨other, -⟩
  · simp [Searching, runs, WorkerPc.searching] at searches
  · exact other rfl

/-- No token is retired silently. -/
def paying (s : State n m H) : Act n m H → Bool
  | .worker i =>
      match (s.worker i).pc with
      | .absorb _ | .rescan | .wakeNext _ _ | .push _ _ => false
      | _ => true
  | .producer p => s.producer p ≠ some .giveBack
  | _ => true

theorem compensated_of_paying [DecidableEq H] (s : State n m H) (a : Act n m H)
    (checked : paying s a = true) : Compensated s a := by
  intro retires
  cases a with
  | worker i =>
      rcases retires with ⟨-, ⟨⟨h, at_⟩, -⟩ | inside⟩ | ⟨-, at_⟩
      · simp [paying, at_] at checked
      · cases pc : (s.worker i).pc <;> simp_all [paying]
      · simp [paying, at_] at checked
  | producer p => simp [paying, retires.2] at checked
  | _ => exact retires.elim

/-- Both workers are parked; the first one is claimed for the first handle, and
the wake for the second handle is left to it. -/
def elidingRun : List (Act 2 1 Nat) :=
  List.flatten
    [.replicate 14 (.worker (.last 1)), .replicate 14 (.worker (.castSucc (.last 0))),
      .producerPush (.last 0) .deferHandle 1 :: .replicate 5 (.producer (.last 0)),
      .producerPush (.last 0) .deferHandle 2 :: .replicate 2 (.producer (.last 0))]

theorem elidingRun_ends :
    ((machine 2 1 Nat).execIf paying (idleStart 2 1 Nat) elidingRun).any (fun s =>
      s.shared.workStopping = false ∧ s.producer 0 = none ∧ (s.worker 0).pc = .park ∧
        s.shared.injector = [1, 2] ∧ Asleep s 1) = true := by
  decide +kernel

theorem work_is_conserved_by_claim :
    ∃ s : State 2 1 Nat, s.shared.injector = [1, 2] ∧ Asleep s 1 ∧ ∃ j, j ≠ 1 ∧ Searching s j := by
  obtain ⟨s, reached, ends⟩ :=
    Machine.Reach.exists_of_execIf compensated_of_paying idleStart_start elidingRun_ends
  obtain ⟨running, quiet, parked, filled, asleep⟩ := of_decide_eq_true ends
  have noPush : NoPushUnderWay s := by
    constructor
    · intro p
      rwa [Subsingleton.elim p 0]
    · exact Fin.forall_fin_two.mpr ⟨by simp [parked], by simp [asleep.1]⟩
  exact ⟨s, filled, asleep,
    work_is_conserved (by decide) reached running noPush (by simp [filled]) 1 asleep⟩

end MtAsyncio.WorkSchedule
