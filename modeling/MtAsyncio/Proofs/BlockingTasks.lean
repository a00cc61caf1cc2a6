/-
Module: MtAsyncio.Proofs.BlockingTasks
Purpose: Which tasks of the blocking pool are taken by a worker.  The workers
  never outnumber the maximum.  A full count is a worker that receives again, or
  a call that starts one, as long as no worker gives up between a call's read of
  the count and what the call does about it.
Trusted boundary: none
Main exports: Move, move_of_step, Bounded, bounded_step, Loaded, loaded_step,
  ExpiresApart, attended_of_full, Backed, backed_step, Served, served_step,
  NeverStrands, pool_never_strands
-/
import MtAsyncio.Lib.Counting
import MtAsyncio.Model.BlockingPool

namespace MtAsyncio.BlockingPool

open Lib (Machine Exactly)

variable {T R W : Type} [DecidableEq R] [DecidableEq W] {tmax : Nat} {s s' : State T R W}
  {r : R} {w : W}

/-! ## Workers and calls -/

/-- The worker will call `recv` again. -/
def WorkerPc.receives : WorkerPc T → Bool
  | .waits | .recv | .received _ | .run _ => true
  | _ => false

/-- The worker has a place in the count of threads. -/
def WorkerPc.live : WorkerPc T → Bool
  | .absent | .gone => false
  | _ => true

/-- The call has sent its task and may still start a worker. -/
def RunPc.maySpawn : RunPc T → Bool
  | .decide_ _ | .claim | .start => true
  | _ => false

omit [DecidableEq W] in
@[simp] theorem State.setCall_call (s : State T R W) (r r' : R) (pc : RunPc T) :
    (s.setCall r pc).call r' = if r' = r then pc else s.call r' := by
  simp [setCall, Function.update_apply]

omit [DecidableEq W] in
@[simp] theorem State.setCall_worker (s : State T R W) (r : R) (pc : RunPc T) (w : W) :
    (s.setCall r pc).worker w = s.worker w := rfl

omit [DecidableEq W] in
@[simp] theorem State.setCall_queue (s : State T R W) (r : R) (pc : RunPc T) :
    (s.setCall r pc).queue = s.queue := rfl

omit [DecidableEq W] in
@[simp] theorem State.setCall_threads (s : State T R W) (r : R) (pc : RunPc T) :
    (s.setCall r pc).threads = s.threads := rfl

omit [DecidableEq R] in
@[simp] theorem State.setWorker_worker (s : State T R W) (w w' : W) (pc : WorkerPc T) :
    (s.setWorker w pc).worker w' = if w' = w then pc else s.worker w' := by
  simp [setWorker, Function.update_apply]

omit [DecidableEq R] in
@[simp] theorem State.setWorker_call (s : State T R W) (w : W) (pc : WorkerPc T) (r : R) :
    (s.setWorker w pc).call r = s.call r := rfl

omit [DecidableEq R] in
@[simp] theorem State.setWorker_queue (s : State T R W) (w : W) (pc : WorkerPc T) :
    (s.setWorker w pc).queue = s.queue := rfl

omit [DecidableEq R] in
@[simp] theorem State.setWorker_threads (s : State T R W) (w : W) (pc : WorkerPc T) :
    (s.setWorker w pc).threads = s.threads := rfl

/-! ## Steps -/

/-- What one step of the pool does. -/
inductive Move (tmax : Nat) (s : State T R W) : Act T R W → State T R W → Prop where
  | begins {r : R} {task : T} (stage : s.call r = .idle) :
      Move tmax s (.run r task) (s.setCall r (.load task))
  | loads {r : R} {w : W} {task : T} (stage : s.call r = .load task) :
      Move tmax s (.call r w) (s.setCall r (.send task s.threads))
  | sends {r : R} {w : W} {task : T} {threads : Nat} (stage : s.call r = .send task threads) :
      Move tmax s (.call r w) ({ s with queue := s.queue ++ [task] }.setCall r (.decide_ threads))
  | decides {r : R} {w : W} {threads : Nat} (stage : s.call r = .decide_ threads) :
      Move tmax s (.call r w) ({ s with load := s.load + 1 }.setCall r
        (if 0 ≤ s.load ∧ threads < tmax then .claim else .idle))
  | claims {r : R} {w : W} (stage : s.call r = .claim) :
      Move tmax s (.call r w) ({ s with threads := s.threads + 1 }.setCall r
        (if tmax ≤ s.threads then .unclaim else .start))
  | unclaims {r : R} {w : W} (stage : s.call r = .unclaim) :
      Move tmax s (.call r w) ({ s with threads := s.threads - 1 }.setCall r .idle)
  | starts {r : R} {w : W} (stage : s.call r = .start) (absent : s.worker w = .absent) :
      Move tmax s (.call r w) ((s.setWorker w .waits).setCall r .idle)
  | waits {w : W} (stage : s.worker w = .waits) :
      Move tmax s (.worker w) ({ s with load := s.load - 1 }.setWorker w .recv)
  | expires {w : W} (stage : s.worker w = .recv) (empty : s.queue = []) :
      Move tmax s (.worker w) (s.setWorker w .timedOut)
  | receives {w : W} {task : T} {rest : List T} (stage : s.worker w = .recv)
      (channel : s.queue = task :: rest) :
      Move tmax s (.worker w) ({ s with queue := rest }.setWorker w (.received task))
  | counts {w : W} {task : T} (stage : s.worker w = .received task) :
      Move tmax s (.worker w) ({ s with load := s.load + 1 }.setWorker w (.run task))
  | finishes {w : W} {task : T} (stage : s.worker w = .run task) :
      Move tmax s (.worker w) (s.setWorker w .waits)
  | stops {w : W} (stage : s.worker w = .timedOut) :
      Move tmax s (.worker w) ({ s with load := s.load + 1 }.setWorker w .leaving)
  | leaves {w : W} (stage : s.worker w = .leaving) :
      Move tmax s (.worker w) ({ s with threads := s.threads - 1 }.setWorker w .gone)

theorem move_of_runStep (taken : runStep tmax s r w = some s') : Move tmax s (.call r w) s' := by
  unfold runStep at taken
  split at taken
  · cases taken
  · rename_i stage
    exact Option.some.inj taken ▸ .loads stage
  · rename_i stage
    exact Option.some.inj taken ▸ .sends stage
  · rename_i stage
    exact Option.some.inj taken ▸ .decides stage
  · rename_i stage
    exact Option.some.inj taken ▸ .claims stage
  · rename_i stage
    exact Option.some.inj taken ▸ .unclaims stage
  · rename_i stage
    split at taken
    · rename_i absent
      exact Option.some.inj taken ▸ .starts stage absent
    · cases taken

theorem move_of_workerStep (taken : workerStep s w = some s') : Move tmax s (.worker w) s' := by
  unfold workerStep at taken
  split at taken
  · cases taken
  · cases taken
  · rename_i stage
    exact Option.some.inj taken ▸ .waits stage
  · rename_i stage
    split at taken
    · rename_i empty
      exact Option.some.inj taken ▸ .expires stage empty
    · rename_i channel
      exact Option.some.inj taken ▸ .receives stage channel
  · rename_i stage
    exact Option.some.inj taken ▸ .counts stage
  · rename_i stage
    exact Option.some.inj taken ▸ .finishes stage
  · rename_i stage
    exact Option.some.inj taken ▸ .stops stage
  · rename_i stage
    exact Option.some.inj taken ▸ .leaves stage

theorem move_of_step {a : Act T R W} (taken : step tmax s a = some s') : Move tmax s a s' := by
  cases a with
  | run r task =>
      simp only [step] at taken
      split at taken
      · rename_i stage
        exact Option.some.inj taken ▸ .begins stage
      · cases taken
  | call r w => exact move_of_runStep taken
  | worker w => exact move_of_workerStep taken

/-! ## The maximum -/

/-- Who has a place in the count of threads for good: a worker, or a call that
is about to start one. -/
def State.Places (s : State T R W) : W ⊕ R → Prop
  | .inl w => (s.worker w).live = true
  | .inr r => s.call r = .start

/-- The calls that have raised the count in vain. -/
def State.Unclaims (s : State T R W) (r : R) : Prop :=
  s.call r = .unclaim

/-- The count of threads is the places and the calls that will take their claim
back, and the places keep to the maximum. -/
def Bounded (tmax : Nat) (s : State T R W) : Prop :=
  ∃ n m, Exactly s.Places n ∧ Exactly s.Unclaims m ∧ s.threads = n + m ∧ n ≤ tmax

omit [DecidableEq R] [DecidableEq W] in
theorem Bounded.same (bounded : Bounded tmax s) (places : ∀ x, s'.Places x ↔ s.Places x)
    (unclaims : ∀ r, s'.Unclaims r ↔ s.Unclaims r) (threads : s'.threads = s.threads) :
    Bounded tmax s' := by
  obtain ⟨n, m, held, vain, total, small⟩ := bounded
  exact ⟨n, m, held.congr places, vain.congr unclaims, threads.trans total, small⟩

omit [DecidableEq W] in
/-- A call goes on without a word to the count. -/
theorem Bounded.setCall {pc : RunPc T} (bounded : Bounded tmax s)
    (started : pc = .start ↔ s.call r = .start) (vain : pc = .unclaim ↔ s.call r = .unclaim) :
    Bounded tmax (s.setCall r pc) := by
  refine bounded.same ?_ ?_ rfl
  · rintro (w | r')
    · exact Iff.rfl
    · by_cases same : r' = r
      · subst same
        simpa [State.Places] using started
      · simp [State.Places, same]
  · intro r'
    by_cases same : r' = r
    · subst same
      simpa [State.Unclaims] using vain
    · simp [State.Unclaims, same]

omit [DecidableEq R] in
/-- A worker goes on without a word to the count. -/
theorem Bounded.setWorker {pc : WorkerPc T} (bounded : Bounded tmax s)
    (live : pc.live = (s.worker w).live) : Bounded tmax (s.setWorker w pc) := by
  refine bounded.same ?_ (fun r => Iff.rfl) rfl
  rintro (w' | r)
  · by_cases same : w' = w
    · subst same
      simp [State.Places, live]
    · simp [State.Places, same]
  · exact Iff.rfl

theorem bounded_claim (bounded : Bounded tmax s) (stage : s.call r = .claim) :
    Bounded tmax ({ s with threads := s.threads + 1 }.setCall r
      (if tmax ≤ s.threads then .unclaim else .start)) := by
  obtain ⟨n, m, held, vain, total, small⟩ := bounded
  by_cases full : tmax ≤ s.threads
  · rw [if_pos full]
    refine ⟨n, m + 1, held.congr ?_, vain.gain (a := r) ?_ ?_, ?_, small⟩
    · rintro (w | r')
      · exact Iff.rfl
      · by_cases same : r' = r
        · subst same
          simp [State.Places, stage]
        · simp [State.Places, same]
    · simp [State.Unclaims, stage]
    · intro r'
      by_cases same : r' = r <;> simp [State.Unclaims, same]
    · show s.threads + 1 = n + (m + 1)
      omega
  · rw [if_neg full]
    refine ⟨n + 1, m, held.gain (a := .inr r) ?_ ?_, vain.congr ?_, ?_, by omega⟩
    · simp [State.Places, stage]
    · rintro (w | r')
      · simp [State.Places]
      · by_cases same : r' = r <;> simp [State.Places, same]
    · intro r'
      by_cases same : r' = r
      · subst same
        simp [State.Unclaims, stage]
      · simp [State.Unclaims, same]
    · show s.threads + 1 = n + 1 + m
      omega

omit [DecidableEq W] in
theorem bounded_unclaim (bounded : Bounded tmax s) (stage : s.call r = .unclaim) :
    Bounded tmax ({ s with threads := s.threads - 1 }.setCall r .idle) := by
  obtain ⟨n, m, held, vain, total, small⟩ := bounded
  have pos : 0 < m := vain.pos (a := r) stage
  refine ⟨n, m - 1, held.congr ?_, vain.lose (a := r) stage ?_, ?_, small⟩
  · rintro (w | r')
    · exact Iff.rfl
    · by_cases same : r' = r
      · subst same
        simp [State.Places, stage]
      · simp [State.Places, same]
  · intro r'
    by_cases same : r' = r <;> simp [State.Unclaims, same]
  · show s.threads - 1 = n + (m - 1)
    omega

theorem bounded_start (bounded : Bounded tmax s) (stage : s.call r = .start)
    (absent : s.worker w = .absent) : Bounded tmax ((s.setWorker w .waits).setCall r .idle) := by
  obtain ⟨n, m, held, vain, total, small⟩ := bounded
  have has : s.Places (.inr r) := stage
  refine ⟨n, m, held.move (b := .inl w) has ?_ ?_, vain.congr ?_, total, small⟩
  · simp [State.Places, absent, WorkerPc.live]
  · rintro (w' | r')
    · by_cases same : w' = w <;> simp [State.Places, same, WorkerPc.live]
    · by_cases same : r' = r <;> simp [State.Places, same]
  · intro r'
    by_cases same : r' = r
    · subst same
      simp [State.Unclaims, stage]
    · simp [State.Unclaims, same]

theorem bounded_leaving (bounded : Bounded tmax s) (stage : s.worker w = .leaving) :
    Bounded tmax ({ s with threads := s.threads - 1 }.setWorker w .gone) := by
  obtain ⟨n, m, held, vain, total, small⟩ := bounded
  have has : s.Places (.inl w) := by simp [State.Places, stage, WorkerPc.live]
  have pos : 0 < n := held.pos has
  refine ⟨n - 1, m, held.lose has ?_, vain, ?_, by omega⟩
  · rintro (w' | r)
    · by_cases same : w' = w <;> simp [State.Places, same, WorkerPc.live]
    · simp [State.Places]
  · show s.threads - 1 = n - 1 + m
    omega

theorem bounded_step {a : Act T R W} (bounded : Bounded tmax s)
    (taken : step tmax s a = some s') : Bounded tmax s' := by
  cases move_of_step taken with
  | begins stage => exact bounded.setCall (by simp [stage]) (by simp [stage])
  | loads stage => exact bounded.setCall (by simp [stage]) (by simp [stage])
  | sends stage =>
      exact Bounded.setCall (s := { s with queue := _ }) bounded (by simp [stage]) (by simp [stage])
  | decides stage =>
      refine Bounded.setCall (s := { s with load := s.load + 1 }) bounded ?_ ?_
      · simp only [stage]
        split <;> simp
      · simp only [stage]
        split <;> simp
  | claims stage => exact bounded_claim bounded stage
  | unclaims stage => exact bounded_unclaim bounded stage
  | starts stage absent => exact bounded_start bounded stage absent
  | waits stage =>
      exact Bounded.setWorker (s := { s with load := s.load - 1 }) bounded
        (by simp [stage, WorkerPc.live])
  | expires stage empty => exact bounded.setWorker (by simp [stage, WorkerPc.live])
  | receives stage channel =>
      exact Bounded.setWorker (s := { s with queue := _ }) bounded (by simp [stage, WorkerPc.live])
  | counts stage =>
      exact Bounded.setWorker (s := { s with load := s.load + 1 }) bounded
        (by simp [stage, WorkerPc.live])
  | finishes stage => exact bounded.setWorker (by simp [stage, WorkerPc.live])
  | stops stage =>
      exact Bounded.setWorker (s := { s with load := s.load + 1 }) bounded
        (by simp [stage, WorkerPc.live])
  | leaves stage => exact bounded_leaving bounded stage

/-! ## The load -/

/-- Who was promised a thread or is one that was started. -/
def State.Started (s : State T R W) : W ⊕ R → Prop
  | .inl w => s.worker w ≠ .absent
  | .inr r => s.call r = .claim ∨ s.call r = .start

/-- The workers that have lowered the load and not raised it again. -/
def State.Waiting (s : State T R W) (w : W) : Prop :=
  match s.worker w with
  | .recv | .received _ | .timedOut => True
  | _ => False

/-- Every started thread was paid for by a call that raised the load, and only
those that wait have lowered it. -/
def Loaded (s : State T R W) : Prop :=
  ∃ n k, Exactly s.Started n ∧ Exactly s.Waiting k ∧ (n : Int) ≤ s.load + k

omit [DecidableEq R] [DecidableEq W] in
theorem Loaded.nonneg (loaded : Loaded s) : 0 ≤ s.load := by
  obtain ⟨n, k, started, waiting, paid⟩ := loaded
  obtain ⟨those, members, rfl⟩ := waiting
  have few : those.card ≤ n := by
    refine started.card_le ⟨Sum.inl, Sum.inl_injective⟩ ?_
    intro w member absent
    have waits := (members w).mp member
    simp only [State.Waiting, absent] at waits
  omega

omit [DecidableEq R] [DecidableEq W] in
theorem Loaded.same (loaded : Loaded s) (started : ∀ x, s'.Started x ↔ s.Started x)
    (waiting : ∀ w, s'.Waiting w ↔ s.Waiting w) (load : s.load ≤ s'.load) : Loaded s' := by
  obtain ⟨n, k, paidFor, lowered, paid⟩ := loaded
  exact ⟨n, k, paidFor.congr started, lowered.congr waiting, by omega⟩

omit [DecidableEq W] in
/-- A call goes on, without a promise of a thread. -/
theorem Loaded.setCall {pc : RunPc T} (loaded : Loaded s)
    (started : pc = .claim ∨ pc = .start ↔ s.call r = .claim ∨ s.call r = .start) :
    Loaded (s.setCall r pc) := by
  refine loaded.same ?_ (fun w => Iff.rfl) le_rfl
  rintro (w | r')
  · exact Iff.rfl
  · by_cases same : r' = r
    · subst same
      simpa [State.Started] using started
    · simp [State.Started, same]

/-- The call that sent a task raises the load, and may promise a thread. -/
theorem loaded_decide {threads : Nat} (loaded : Loaded s) (stage : s.call r = .decide_ threads) :
    Loaded ({ s with load := s.load + 1 }.setCall r
      (if 0 ≤ s.load ∧ threads < tmax then .claim else .idle)) := by
  by_cases spawns : 0 ≤ s.load ∧ threads < tmax
  · rw [if_pos spawns]
    obtain ⟨n, k, started, waiting, paid⟩ := loaded
    refine ⟨n + 1, k, started.gain (a := .inr r) ?_ ?_, waiting, ?_⟩
    · simp [State.Started, stage]
    · rintro (w | r')
      · simp [State.Started]
      · by_cases same : r' = r <;> simp [State.Started, same]
    · show ((n + 1 : Nat) : Int) ≤ s.load + 1 + k
      omega
  · rw [if_neg spawns]
    have raised : Loaded { s with load := s.load + 1 } :=
      loaded.same (fun x => Iff.rfl) (fun w => Iff.rfl) (by show s.load ≤ s.load + 1; omega)
    exact raised.setCall (by simp [stage])

/-- A call gives up the thread it was promised. -/
theorem loaded_refused (loaded : Loaded s) (stage : s.call r = .claim) :
    Loaded (s.setCall r .unclaim) := by
  obtain ⟨n, k, started, waiting, paid⟩ := loaded
  have has : s.Started (.inr r) := .inl stage
  refine ⟨n - 1, k, started.lose has ?_, waiting, ?_⟩
  · rintro (w | r')
    · simp [State.Started]
    · by_cases same : r' = r <;> simp [State.Started, same]
  · show ((n - 1 : Nat) : Int) ≤ s.load + k
    omega

theorem loaded_start (loaded : Loaded s) (stage : s.call r = .start)
    (absent : s.worker w = .absent) : Loaded ((s.setWorker w .waits).setCall r .idle) := by
  obtain ⟨n, k, started, waiting, paid⟩ := loaded
  have has : s.Started (.inr r) := .inr stage
  refine ⟨n, k, started.move (b := .inl w) has ?_ ?_, waiting.congr ?_, paid⟩
  · simp [State.Started, absent]
  · rintro (w' | r')
    · by_cases same : w' = w <;> simp [State.Started, same]
    · by_cases same : r' = r <;> simp [State.Started, same]
  · intro w'
    by_cases same : w' = w
    · subst same
      simp [State.Waiting, absent]
    · simp [State.Waiting, same]

omit [DecidableEq R] in
/-- A worker goes on, neither lowering the load nor raising it. -/
theorem Loaded.setWorker {pc : WorkerPc T} (loaded : Loaded s) (here : s.worker w ≠ .absent)
    (still : pc ≠ .absent) (waiting : (s.setWorker w pc).Waiting w ↔ s.Waiting w) :
    Loaded (s.setWorker w pc) := by
  refine loaded.same ?_ ?_ le_rfl
  · rintro (w' | r)
    · by_cases same : w' = w
      · subst same
        simp [State.Started, here, still]
      · simp [State.Started, same]
    · exact Iff.rfl
  · intro w'
    by_cases same : w' = w
    · exact same ▸ waiting
    · simp [State.Waiting, same]

omit [DecidableEq R] in
theorem loaded_waits (loaded : Loaded s) (stage : s.worker w = .waits) :
    Loaded ({ s with load := s.load - 1 }.setWorker w .recv) := by
  obtain ⟨n, k, started, waiting, paid⟩ := loaded
  refine ⟨n, k + 1, started.congr ?_, waiting.gain (a := w) ?_ ?_, ?_⟩
  · rintro (w' | r)
    · by_cases same : w' = w
      · subst same
        simp [State.Started, stage]
      · simp [State.Started, same]
    · exact Iff.rfl
  · simp [State.Waiting, stage]
  · intro w'
    by_cases same : w' = w <;> simp [State.Waiting, same]
  · show (n : Int) ≤ s.load - 1 + ((k + 1 : Nat) : Int)
    omega

omit [DecidableEq R] in
/-- A worker that is back from `recv` raises the load again. -/
theorem loaded_back {pc : WorkerPc T} (loaded : Loaded s) (here : s.worker w ≠ .absent)
    (still : pc ≠ .absent) (was : s.Waiting w) (isNot : ¬(s.setWorker w pc).Waiting w) :
    Loaded ({ s with load := s.load + 1 }.setWorker w pc) := by
  obtain ⟨n, k, started, waiting, paid⟩ := loaded
  have pos := waiting.pos was
  refine ⟨n, k - 1, started.congr ?_, waiting.lose was ?_, ?_⟩
  · rintro (w' | r)
    · by_cases same : w' = w
      · subst same
        simp [State.Started, here, still]
      · simp [State.Started, same]
    · exact Iff.rfl
  · intro w'
    by_cases same : w' = w
    · subst same
      exact iff_of_false isNot fun both => both.1 rfl
    · simp [State.Waiting, same]
  · show (n : Int) ≤ s.load + 1 + ((k - 1 : Nat) : Int)
    omega

theorem loaded_step {a : Act T R W} (loaded : Loaded s) (taken : step tmax s a = some s') :
    Loaded s' := by
  cases move_of_step taken with
  | begins stage => exact loaded.setCall (by simp [stage])
  | loads stage => exact loaded.setCall (by simp [stage])
  | sends stage => exact Loaded.setCall (s := { s with queue := _ }) loaded (by simp [stage])
  | decides stage => exact loaded_decide loaded stage
  | @claims r w stage =>
      have raised : Loaded { s with threads := s.threads + 1 } := loaded
      by_cases full : tmax ≤ s.threads
      · rw [if_pos full]
        exact loaded_refused raised stage
      · rw [if_neg full]
        exact raised.setCall (by simp [stage])
  | unclaims stage =>
      exact Loaded.setCall (s := { s with threads := s.threads - 1 }) loaded (by simp [stage])
  | starts stage absent => exact loaded_start loaded stage absent
  | waits stage => exact loaded_waits loaded stage
  | expires stage empty =>
      exact loaded.setWorker (by simp [stage]) (by simp) (by simp [State.Waiting, stage])
  | receives stage channel =>
      exact Loaded.setWorker (s := { s with queue := _ }) loaded (by simp [stage]) (by simp)
        (by simp [State.Waiting, stage])
  | counts stage =>
      exact loaded_back loaded (by simp [stage]) (by simp) (by simp [State.Waiting, stage])
        (by simp [State.Waiting])
  | finishes stage =>
      exact loaded.setWorker (by simp [stage]) (by simp) (by simp [State.Waiting, stage])
  | stops stage =>
      exact loaded_back loaded (by simp [stage]) (by simp) (by simp [State.Waiting, stage])
        (by simp [State.Waiting])
  | leaves stage =>
      exact Loaded.setWorker (s := { s with threads := s.threads - 1 }) loaded (by simp [stage])
        (by simp) (by simp [State.Waiting, stage])

/-! ## A full pool -/

/-- A worker that will call `recv` again, or a call that is about to start one. -/
def Attended (s : State T R W) : Prop :=
  (∃ w, (s.worker w).receives = true) ∨ ∃ r, s.call r = .start

/-- The next step of the call reads the count of threads. -/
def RunPc.reads : RunPc T → Bool
  | .load _ | .claim => true
  | _ => false

/-- The call has read the count at the maximum and has not acted on it yet: it
is to decide, or to take its own claim back. -/
def RunPc.readFull (tmax : Nat) : RunPc T → Bool
  | .send _ threads | .decide_ threads => tmax ≤ threads
  | .unclaim => true
  | _ => false

/-- The worker's `recv` has timed out and its place is still counted. -/
def WorkerPc.expired : WorkerPc T → Bool
  | .timedOut | .leaving => true
  | _ => false

/-- No worker's `recv` times out while a call has read the count at the maximum
and has not acted on it, and no call reads the count at the maximum while it
still holds a worker whose `recv` has timed out. -/
def ExpiresApart (tmax : Nat) (s : State T R W) : Act T R W → Prop
  | .run _ _ => True
  | .call r _ =>
      (s.call r).reads = true → tmax ≤ s.threads → ∀ w, (s.worker w).expired = false
  | .worker w =>
      s.worker w = .recv → s.queue = [] → ∀ r, (s.call r).readFull tmax = false

/-- Who has read the count at the maximum has not read it in vain. -/
def Backed (tmax : Nat) (s : State T R W) : Prop :=
  ∀ r, (s.call r).readFull tmax = true → Attended s

theorem WorkerPc.receives_of_live {pc : WorkerPc T} (live : pc.live = true)
    (stays : pc.expired = false) : pc.receives = true := by
  cases pc with
  | absent | gone => cases live
  | timedOut | leaving => cases stays
  | waits | recv | received _ | run _ => rfl

omit [DecidableEq R] [DecidableEq W] in
/-- The maximum is made up of places: when no claim is on its way back, a full
count has a worker or a call that starts one, and nobody of them is leaving. -/
theorem attended_of_full (positive : 0 < tmax) (bounded : Bounded tmax s)
    (backed : Backed tmax s) (full : tmax ≤ s.threads)
    (stay : ∀ w, (s.worker w).expired = false) : Attended s := by
  obtain ⟨n, m, held, vain, total, -⟩ := bounded
  obtain none | some_ := Nat.eq_zero_or_pos m
  · have places : 0 < n := by omega
    obtain ⟨w | r, place⟩ := held.exists_of_pos places
    · exact .inl ⟨w, WorkerPc.receives_of_live place (stay w)⟩
    · exact .inr ⟨r, place⟩
  · obtain ⟨r, unclaims⟩ := vain.exists_of_pos some_
    refine backed r ?_
    rw [show s.call r = .unclaim from unclaims]
    rfl

omit [DecidableEq W] in
/-- A call that does not start a worker moves. -/
theorem Attended.setCall {pc : RunPc T} (attended : Attended s) (other : s.call r ≠ .start) :
    Attended (s.setCall r pc) := by
  obtain worker | ⟨r', starts⟩ := attended
  · exact .inl worker
  · refine .inr ⟨r', ?_⟩
    have differs : r' ≠ r := by
      rintro rfl
      exact other starts
    simpa [differs] using starts

omit [DecidableEq R] in
/-- A worker moves that does not stop receiving, or had stopped before. -/
theorem receives_setWorker {pc : WorkerPc T}
    (keeps : (s.worker w).receives = true → pc.receives = true)
    (worker : ∃ w', (s.worker w').receives = true) :
    ∃ w', ((s.setWorker w pc).worker w').receives = true := by
  obtain ⟨w', receives⟩ := worker
  refine ⟨w', ?_⟩
  by_cases same : w' = w
  · subst same
    simpa using keeps receives
  · simpa [same] using receives

omit [DecidableEq R] in
theorem Attended.setWorker {pc : WorkerPc T} (attended : Attended s)
    (keeps : (s.worker w).receives = true → pc.receives = true) :
    Attended (s.setWorker w pc) := by
  obtain worker | call := attended
  · exact .inl (receives_setWorker keeps worker)
  · exact .inr call

omit [DecidableEq R] [DecidableEq W] in
theorem attended_of_receives (receives : (s.worker w).receives = true) : Attended s :=
  .inl ⟨w, receives⟩

omit [DecidableEq W] in
/-- A call that is not about to start a worker moves, and has read no full count
unless somebody attends to the channel. -/
theorem Backed.setCall {pc : RunPc T} (backed : Backed tmax s) (other : s.call r ≠ .start)
    (reads : pc.readFull tmax = true → Attended s) : Backed tmax (s.setCall r pc) := by
  intro r' full
  refine Attended.setCall ?_ other
  by_cases same : r' = r
  · subst same
    exact reads (by simpa using full)
  · exact backed r' (by simpa [same] using full)

omit [DecidableEq R] in
theorem Backed.setWorker {pc : WorkerPc T} (backed : Backed tmax s)
    (keeps : (s.worker w).receives = true → pc.receives = true) :
    Backed tmax (s.setWorker w pc) :=
  fun r full => (backed r full).setWorker keeps

omit [DecidableEq R] [DecidableEq W] in
theorem backed_of_attended (attended : Attended s) : Backed tmax s :=
  fun _ _ => attended

theorem backed_step {a : Act T R W} (positive : 0 < tmax) (apart : ExpiresApart tmax s a)
    (bounded : Bounded tmax s) (backed : Backed tmax s) (taken : step tmax s a = some s') :
    Backed tmax s' := by
  cases move_of_step taken with
  | begins stage => exact backed.setCall (by simp [stage]) (by simp [RunPc.readFull])
  | @loads r w task stage =>
      refine backed.setCall (by simp [stage]) ?_
      intro full
      have atMax : tmax ≤ s.threads := by simpa [RunPc.readFull] using full
      have stay := apart (by simp [stage, RunPc.reads]) atMax
      exact attended_of_full positive bounded backed atMax stay
  | @sends r w task threads stage =>
      refine Backed.setCall (s := { s with queue := _ }) backed ?_ ?_
      · show s.call r ≠ .start
        simp [stage]
      · intro full
        exact backed r (by rw [stage]; exact full)
  | @decides r w threads stage =>
      refine Backed.setCall (s := { s with load := s.load + 1 }) backed ?_ ?_
      · show s.call r ≠ .start
        simp [stage]
      · split <;> simp [RunPc.readFull]
  | @claims r w stage =>
      by_cases full : tmax ≤ s.threads
      · rw [if_pos full]
        have stay := apart (by simp [stage, RunPc.reads]) full
        have attended := attended_of_full positive bounded backed full stay
        refine Backed.setCall (s := { s with threads := s.threads + 1 }) backed ?_
          fun _ => attended
        show s.call r ≠ .start
        simp [stage]
      · rw [if_neg full]
        exact backed_of_attended (.inr ⟨r, by simp⟩)
  | @unclaims r w stage =>
      refine Backed.setCall (s := { s with threads := s.threads - 1 }) backed ?_ ?_
      · show s.call r ≠ .start
        simp [stage]
      · simp [RunPc.readFull]
  | @starts r w stage absent =>
      exact backed_of_attended (attended_of_receives (w := w) (by simp [WorkerPc.receives]))
  | @waits w stage =>
      exact backed_of_attended (attended_of_receives (w := w) (by simp [WorkerPc.receives]))
  | expires stage empty =>
      -- nobody has read the count at the maximum when a worker gives up
      intro r full
      exact absurd full (by simp [apart stage empty r])
  | @receives w task rest stage channel =>
      exact backed_of_attended (attended_of_receives (w := w) (by simp [WorkerPc.receives]))
  | @counts w task stage =>
      exact backed_of_attended (attended_of_receives (w := w) (by simp [WorkerPc.receives]))
  | @finishes w task stage =>
      exact backed_of_attended (attended_of_receives (w := w) (by simp [WorkerPc.receives]))
  | @stops w stage =>
      refine Backed.setWorker (s := { s with load := s.load + 1 }) backed ?_
      show (s.worker w).receives = true → _
      simp [stage, WorkerPc.receives]
  | @leaves w stage =>
      refine Backed.setWorker (s := { s with threads := s.threads - 1 }) backed ?_
      show (s.worker w).receives = true → _
      simp [stage, WorkerPc.receives]

/-! ## Tasks are served -/

/-- A worker will receive what the channel holds, or a call may start one. -/
def Served (s : State T R W) : Prop :=
  s.queue = [] ∨ (∃ w, (s.worker w).receives = true) ∨ ∃ r, (s.call r).maySpawn = true

omit [DecidableEq R] [DecidableEq W] in
theorem Attended.served (attended : Attended s) : Served s := by
  obtain worker | ⟨r, starts⟩ := attended
  · exact .inr (.inl worker)
  · exact .inr (.inr ⟨r, by rw [starts]; rfl⟩)

omit [DecidableEq W] in
/-- A call that moves outside of the steps that may start a worker. -/
theorem Served.setCall {pc : RunPc T} (served : Served s) (before : (s.call r).maySpawn = false) :
    Served (s.setCall r pc) := by
  obtain empty | worker | ⟨r', spawns⟩ := served
  · exact .inl empty
  · exact .inr (.inl worker)
  · refine .inr (.inr ⟨r', ?_⟩)
    have other : r' ≠ r := by
      rintro rfl
      exact absurd (before.symm.trans spawns) (by decide)
    simpa [other] using spawns

omit [DecidableEq R] [DecidableEq W] in
theorem served_of_maySpawn (spawns : (s.call r).maySpawn = true) : Served s :=
  .inr (.inr ⟨r, spawns⟩)

omit [DecidableEq R] [DecidableEq W] in
theorem served_of_receives (receives : (s.worker w).receives = true) : Served s :=
  .inr (.inl ⟨w, receives⟩)

omit [DecidableEq R] in
theorem Served.setWorker {pc : WorkerPc T} (served : Served s)
    (keeps : (s.worker w).receives = true → pc.receives = true) : Served (s.setWorker w pc) := by
  obtain empty | worker | call := served
  · exact .inl empty
  · exact .inr (.inl (receives_setWorker keeps worker))
  · exact .inr (.inr call)

theorem served_step {a : Act T R W} (backed : Backed tmax s) (backed' : Backed tmax s')
    (loaded : 0 ≤ s.load) (served : Served s) (taken : step tmax s a = some s') : Served s' := by
  cases move_of_step taken with
  | begins stage => exact served.setCall (by rw [stage]; rfl)
  | loads stage => exact served.setCall (by rw [stage]; rfl)
  | @sends r w task threads stage => exact served_of_maySpawn (r := r) (by simp [RunPc.maySpawn])
  | @decides r w threads stage =>
      by_cases spawns : threads < tmax
      · rw [if_pos ⟨loaded, spawns⟩]
        exact served_of_maySpawn (r := r) (by simp [RunPc.maySpawn])
      · -- the count was full when the call read it, and has been attended to since
        have full : (s.call r).readFull tmax = true := by
          simpa [stage, RunPc.readFull] using Nat.le_of_not_lt spawns
        rw [if_neg fun both => spawns both.2]
        exact ((backed r full).setCall (by simp [stage])).served
  | @claims r w stage =>
      by_cases full : tmax ≤ s.threads
      · have attended := backed' r (by simp [if_pos full, RunPc.readFull])
        exact attended.served
      · rw [if_neg full]
        exact served_of_maySpawn (r := r) (by simp [RunPc.maySpawn])
  | @unclaims r w stage =>
      refine Served.setCall (s := { s with threads := s.threads - 1 }) served ?_
      show (s.call r).maySpawn = false
      rw [stage]
      rfl
  | @starts r w stage absent => exact served_of_receives (w := w) (by simp [WorkerPc.receives])
  | @waits w stage => exact served_of_receives (w := w) (by simp [WorkerPc.receives])
  | expires stage empty => exact .inl empty
  | @receives w task rest stage channel =>
      exact served_of_receives (w := w) (by simp [WorkerPc.receives])
  | @counts w task stage => exact served_of_receives (w := w) (by simp [WorkerPc.receives])
  | @finishes w task stage => exact served_of_receives (w := w) (by simp [WorkerPc.receives])
  | @stops w stage =>
      refine Served.setWorker (s := { s with load := s.load + 1 }) served ?_
      show (s.worker w).receives = true → _
      simp [stage, WorkerPc.receives]
  | @leaves w stage =>
      refine Served.setWorker (s := { s with threads := s.threads - 1 }) served ?_
      show (s.worker w).receives = true → _
      simp [stage, WorkerPc.receives]

/-! ## Runs -/

theorem bounded_of_reachable (reached : (machine tmax T R W).Reachable s) : Bounded tmax s := by
  refine reached.invariant (Bounded tmax) ?_ ?_
  · rintro s ⟨-, none, -, idle, absent⟩
    refine ⟨0, 0, .none ?_, .none ?_, none, Nat.zero_le _⟩
    · rintro (w | r)
      · simp [State.Places, absent, WorkerPc.live]
      · simp [State.Places, idle]
    · simp [State.Unclaims, idle]
  · intro s a s' bounded _ taken
    exact bounded_step bounded taken

theorem loaded_of_reachable (reached : (machine tmax T R W).Reachable s) : Loaded s := by
  refine reached.invariant Loaded ?_ ?_
  · rintro s ⟨-, -, zero, idle, absent⟩
    refine ⟨0, 0, .none ?_, .none ?_, by simp [zero]⟩
    · rintro (w | r)
      · simp [State.Started, absent]
      · simp [State.Started, idle]
    · simp [State.Waiting, absent]
  · intro s a s' loaded _ taken
    exact loaded_step loaded taken

theorem backed_of_reach (positive : 0 < tmax)
    (reached : (machine tmax T R W).Reach (ExpiresApart tmax) s) : Backed tmax s := by
  induction reached with
  | start isStart =>
      intro r full
      simp [isStart.2.2.2.1 r, RunPc.readFull] at full
  | step before apart taken backed =>
      exact backed_step positive apart (bounded_of_reachable before.reachable) backed taken

theorem served_of_reach (positive : 0 < tmax)
    (reached : (machine tmax T R W).Reach (ExpiresApart tmax) s) : Served s := by
  induction reached with
  | start isStart => exact .inl isStart.1
  | step before apart taken served =>
      have backed := backed_of_reach positive before
      have backed' := backed_of_reach positive (.step before apart taken)
      exact served_step backed backed' (loaded_of_reachable before.reachable).nonneg served taken

/-- While no call of `run` is in progress, a worker that will call `recv` again
exists if the channel holds a task. -/
def NeverStrands (s : State T R W) : Prop :=
  (∀ r, s.call r = .idle) → s.queue ≠ [] → ∃ w, (s.worker w).receives = true

/-- No set of live workers is larger than the maximum.  While workers give up
apart from the calls that find the count at the maximum, no task is stranded. -/
theorem pool_never_strands (positive : 0 < tmax)
    (reached : (machine tmax T R W).Reach (ExpiresApart tmax) s) :
    NeverStrands s ∧
      ∀ those : Finset W, (∀ w ∈ those, (s.worker w).live = true) → those.card ≤ tmax := by
  constructor
  · intro idle holds
    obtain empty | worker | ⟨r, spawns⟩ := served_of_reach positive reached
    · exact absurd empty holds
    · exact worker
    · simp [idle r, RunPc.maySpawn] at spawns
  · intro those live
    obtain ⟨n, m, held, -, -, small⟩ := bounded_of_reachable reached.reachable
    exact (held.card_le ⟨Sum.inl, Sum.inl_injective⟩ live).trans small

/-! Two calls of one thread.  The second one reads the count while the worker of
the first still waits, and sends its task when that worker has given up. -/

def freshPool : State Nat Unit Unit where
  queue := []
  threads := 0
  load := 0
  call _ := .idle
  worker _ := .absent

theorem freshPool_start : (machine 1 Nat Unit Unit).start freshPool := by
  refine ⟨rfl, rfl, rfl, ?_, ?_⟩ <;> intro _ <;> rfl

/-- A first task is sent and run, and its worker waits for another. -/
def firstRun : List (Act Nat Unit Unit) :=
  .run () 1 :: (List.replicate 5 (.call () ()) ++ List.replicate 5 (.worker ()))

/-- `ExpiresApart`, decided for one thread that calls `run` and one worker. -/
def apartOk (s : State Nat Unit Unit) : Act Nat Unit Unit → Bool
  | .run _ _ => true
  | .call _ _ => !(s.call ()).reads || s.threads < 1 || !(s.worker ()).expired
  | .worker _ => s.worker () ≠ .recv || s.queue ≠ [] || !(s.call ()).readFull 1

theorem apartOk_sound (s : State Nat Unit Unit) (a : Act Nat Unit Unit)
    (ok : apartOk s a = true) : ExpiresApart 1 s a := by
  cases a with
  | run r task => trivial
  | call r w =>
      intro reads full w'
      have stays : (!(s.worker ()).expired) = true := by
        simpa [apartOk, show (s.call ()).reads = true from reads, Nat.not_lt.mpr full] using ok
      simpa using stays
  | worker w =>
      intro stage empty r
      simpa [apartOk, show s.worker () = .recv from stage, empty] using ok

theorem secondRun_ends :
    ((machine 1 Nat Unit Unit).execIf apartOk freshPool
      (firstRun ++ [.run () 2, .call () (), .call () (), .call () ()])).any
      (fun s => s.call () = .idle ∧ s.queue = [2]) = true := by
  decide +kernel

theorem pool_never_strands_second :
    ∃ s : State Nat Unit Unit, (machine 1 Nat Unit Unit).Reach (ExpiresApart 1) s ∧
      s.queue = [2] ∧ ∃ w, (s.worker w).receives = true := by
  obtain ⟨s, reached, holds⟩ :=
    Machine.Reach.exists_of_execIf apartOk_sound freshPool_start secondRun_ends
  simp only [decide_eq_true_eq] at holds
  obtain ⟨idle, queue⟩ := holds
  exact ⟨s, reached, queue,
    (pool_never_strands Nat.one_pos reached).1 (fun _ => idle) (by simp [queue])⟩

theorem strandedRun_ends :
    ((machine 1 Nat Unit Unit).exec freshPool
      (firstRun ++ [.run () 2, .call () (), .worker (), .worker (), .worker (), .call () (),
        .call () ()])).any
      (fun s => s.call () = .idle ∧ s.queue = [2] ∧ s.worker () = .gone ∧
        s.threads = 0) = true := by
  decide +kernel

/-- The worker gives up between the second call's read of the count and its
send, and nobody is left to receive the task. -/
theorem not_neverStrands :
    ¬∀ s : State Nat Unit Unit, (machine 1 Nat Unit Unit).Reachable s → NeverStrands s := by
  intro never
  obtain ⟨s, reached, holds⟩ :=
    Machine.Reachable.exists_of_exec freshPool_start strandedRun_ends
  simp only [decide_eq_true_eq] at holds
  obtain ⟨idle, queue, gone, -⟩ := holds
  obtain ⟨w, receives⟩ := never s reached (fun _ => idle) (by simp [queue])
  simp [gone, WorkerPc.receives] at receives

end MtAsyncio.BlockingPool
