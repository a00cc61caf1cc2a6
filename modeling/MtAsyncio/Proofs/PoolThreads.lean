/-
Module: MtAsyncio.Proofs.PoolThreads
Purpose: Which calls of `run` start a worker.  The load is never negative, so its
  test tells nothing: a call starts a worker whenever it finds the pool below its
  maximum, whether or not a worker waits for the task.
Trusted boundary: none
Main exports: Call, History, record, recorded, StartsNoneNeedlessly, Consistent,
  run_starts_iff
-/
import MtAsyncio.Proofs.BlockingTasks

namespace MtAsyncio.BlockingPool

open Lib (Machine Exactly)

variable {T R W : Type} [DecidableEq R] [DecidableEq W] {tmax : Nat} {s s' : State T R W}
  {r : R} {w : W}

/-! ## What is remembered of a call -/

/-- What the latest call of a thread has met with: whether more workers waited in
`recv` than the channel held tasks, from its begin to its send; whether it read a
count of threads below the maximum; whether `spawn_thread` did; and whether it
started a worker. -/
structure Call where
  surplus : Bool
  room : Bool
  free : Bool
  spawned : Bool
deriving DecidableEq

/-- The number of workers in `recv`, and the calls. -/
structure History (R : Type) where
  idle : Nat
  call : R → Call

def History.empty (R : Type) : History R where
  idle := 0
  call _ := ⟨false, false, false, false⟩

/-- The call has not sent its task. -/
def RunPc.unsent : RunPc T → Bool
  | .load _ | .send .. => true
  | _ => false

def History.idleAfter (h : History R) (s : State T R W) : Act T R W → Nat
  | .worker w =>
      match s.worker w with
      | .waits => h.idle + 1
      | .recv => h.idle - 1
      | _ => h.idle
  | _ => h.idle

/-- What a call has met with when it has gone on from `pc`. -/
def Call.after (tmax threads : Nat) (c : Call) : RunPc T → Call
  | .load _ => { c with room := threads < tmax }
  | .claim => { c with free := threads < tmax }
  | .start => { c with spawned := true }
  | _ => c

def History.callAfter (tmax : Nat) (h : History R) (s : State T R W) (r : R) :
    Act T R W → Call
  | .run r' _ =>
      if r = r' then ⟨decide (s.queue.length < h.idle), false, false, false⟩ else h.call r
  | .call r' _ => if r = r' then (h.call r).after tmax s.threads (s.call r) else h.call r
  | .worker _ => h.call r

/-- The surplus must last. -/
def Call.still (c : Call) (surplus unsent : Bool) : Call :=
  { c with surplus := c.surplus && (surplus || !unsent) }

def record (tmax : Nat) (h : History R) (s : State T R W) (a : Act T R W) (next : State T R W) :
    History R where
  idle := h.idleAfter s a
  call r := (h.callAfter tmax s r a).still (next.queue.length < h.idleAfter s a)
    (next.call r).unsent

/-- The pool with its history. -/
def recorded (tmax : Nat) (T R W : Type) [DecidableEq R] [DecidableEq W] :
    Machine (State T R W × History R) (Act T R W) :=
  (machine tmax T R W).recording (.empty R) (record tmax)

/-- A call that had a worker waiting for its task started none. -/
def StartsNoneNeedlessly (c : Call) : Prop :=
  c.surplus = true → c.spawned = false

/-! ## The workers in `recv` -/

theorem idle_after {a : Act T R W} {h : History R}
    (count : Exactly (fun w => s.worker w = .recv) h.idle) (taken : step tmax s a = some s') :
    Exactly (fun w => s'.worker w = .recv) (h.idleAfter s a) := by
  -- a worker that neither comes to `recv` nor leaves it
  have passes : ∀ {w : W} {pc : WorkerPc T} {s' : State T R W}, s.worker w ≠ .recv → pc ≠ .recv →
      s'.worker = (s.setWorker w pc).worker → Exactly (fun w => s'.worker w = .recv) h.idle := by
    intro w pc s' before after worker
    refine count.congr ?_
    intro w'
    rw [worker, State.setWorker_worker]
    split
    · rename_i same
      subst same
      exact iff_of_false after before
    · exact Iff.rfl
  have leaves : ∀ {w : W} {pc : WorkerPc T} {s' : State T R W}, s.worker w = .recv → pc ≠ .recv →
      s'.worker = (s.setWorker w pc).worker →
        Exactly (fun w => s'.worker w = .recv) (h.idle - 1) := by
    intro w pc s' before after worker
    refine count.lose (a := w) before ?_
    intro w'
    rw [worker, State.setWorker_worker]
    split
    · rename_i same
      exact iff_of_false after fun both => both.1 same
    · rename_i other
      exact ⟨fun there => ⟨other, there⟩, And.right⟩
  cases move_of_step taken with
  | begins | loads | sends | decides | claims | unclaims => exact count
  | starts stage absent =>
      exact passes (by simp [absent]) (by simp) rfl
  | waits stage =>
      rename_i w
      simp only [History.idleAfter, stage]
      refine count.gain (a := w) (by simp [stage]) ?_
      intro w'
      rw [State.setWorker_worker]
      split
      · rename_i same
        exact iff_of_true rfl (.inl same)
      · rename_i other
        exact ⟨.inr, fun either => either.resolve_left other⟩
  | expires stage empty =>
      simp only [History.idleAfter, stage]
      exact leaves stage (by simp) rfl
  | receives stage channel =>
      simp only [History.idleAfter, stage]
      exact leaves stage (by simp) rfl
  | counts stage | finishes stage | stops stage | leaves stage =>
      simp only [History.idleAfter, stage]
      exact passes (by simp [stage]) (by simp) rfl

/-! ## The calls -/

/-- What is remembered of a call, by where it stands. -/
def Consistent (tmax : Nat) (c : Call) : RunPc T → Prop
  | .idle => c.spawned = (c.room && c.free)
  | .load _ | .unclaim => c.free = false ∧ c.spawned = false
  | .send _ threads | .decide_ threads =>
      c.room = decide (threads < tmax) ∧ c.free = false ∧ c.spawned = false
  | .claim => c.room = true ∧ c.free = false ∧ c.spawned = false
  | .start => c.room = true ∧ c.free = true ∧ c.spawned = false

theorem Consistent.still {c : Call} {pc : RunPc T} {surplus unsent : Bool}
    (consistent : Consistent tmax c pc) : Consistent tmax (c.still surplus unsent) pc := by
  cases pc <;> exact consistent

/-- The step of a call: the load, which is not negative, has no say in it. -/
theorem consistent_runStep {c : Call} (load : 0 ≤ s.load)
    (consistent : Consistent tmax c (s.call r)) (taken : runStep tmax s r w = some s') :
    Consistent tmax (c.after tmax s.threads (s.call r)) (s'.call r) := by
  cases move_of_runStep taken with
  | loads stage =>
      rw [stage] at consistent ⊢
      simp [Consistent, Call.after, consistent.1, consistent.2]
  | sends stage =>
      rw [stage] at consistent ⊢
      simp only [Call.after, State.setCall_call, if_true]
      exact consistent
  | decides stage =>
      rw [stage] at consistent ⊢
      obtain ⟨room, free, spawned⟩ := consistent
      simp only [Call.after, State.setCall_call, if_true]
      split
      · rename_i both
        exact ⟨room.trans (decide_eq_true both.2), free, spawned⟩
      · rename_i refused
        have full : ¬_ < tmax := fun below => refused ⟨load, below⟩
        show c.spawned = (c.room && c.free)
        rw [spawned, free, Bool.and_false]
  | claims stage =>
      rw [stage] at consistent ⊢
      obtain ⟨room, -, spawned⟩ := consistent
      simp only [Call.after, State.setCall_call, if_true]
      split
      · rename_i full
        exact ⟨decide_eq_false (Nat.not_lt.mpr full), spawned⟩
      · rename_i below
        exact ⟨room, decide_eq_true (Nat.not_le.mp below), spawned⟩
  | unclaims stage =>
      rw [stage] at consistent ⊢
      obtain ⟨free, spawned⟩ := consistent
      simp [Consistent, Call.after, free, spawned]
  | starts stage absent =>
      rw [stage] at consistent ⊢
      obtain ⟨room, free, -⟩ := consistent
      simp [Consistent, Call.after, room, free]

/-- A step of one call, or of a worker, leaves the other calls where they are. -/
theorem runStep_other {r' : R} (other : r' ≠ r) (taken : runStep tmax s r w = some s') :
    s'.call r' = s.call r' := by
  cases move_of_runStep taken <;> simp [other]

theorem workerStep_call (taken : workerStep s w = some s') : s'.call = s.call := by
  have move : Move 0 s (.worker w) s' := move_of_workerStep taken
  cases move <;> rfl

theorem consistent_after {a : Act T R W} {h : History R} (load : 0 ≤ s.load)
    (consistent : Consistent tmax (h.call r) (s.call r)) (taken : step tmax s a = some s') :
    Consistent tmax (h.callAfter tmax s r a) (s'.call r) := by
  cases a with
  | run r' task =>
      simp only [step] at taken
      split at taken
      · obtain rfl := Option.some.inj taken
        by_cases same : r = r'
        · simp [History.callAfter, same, Consistent]
        · simpa [History.callAfter, same] using consistent
      · cases taken
  | call r' w =>
      by_cases same : r = r'
      · subst same
        simp only [History.callAfter, if_true]
        exact consistent_runStep load consistent taken
      · simp only [History.callAfter, if_neg same]
        rw [runStep_other same taken]
        exact consistent
  | worker w =>
      rw [workerStep_call taken]
      exact consistent

theorem consistent_of_reachable {s : State T R W × History R}
    (reached : (recorded tmax T R W).Reachable s) :
    Exactly (fun w => s.1.worker w = .recv) s.2.idle ∧
      ∀ r, Consistent tmax (s.2.call r) (s.1.call r) := by
  refine Machine.Reach.recorded
    (fun s h => Exactly (fun w => s.worker w = .recv) h.idle ∧
      ∀ r, Consistent tmax (h.call r) (s.call r)) ?_ ?_ reached
  · rintro s ⟨-, -, -, idle, absent⟩
    refine ⟨.none ?_, ?_⟩
    · intro w
      simp [absent w]
    · intro r
      simp [idle r, Consistent, History.empty]
  · rintro s h a s' before ⟨count, consistent⟩ _ taken
    refine ⟨idle_after count taken, ?_⟩
    intro r
    exact (consistent_after (loaded_of_reachable before).nonneg (consistent r) taken).still

/-- A call that is over has started a worker exactly when it found the count of
threads below the maximum, at its read and in `spawn_thread`; so a call that had a
worker waiting for its task started none exactly when the pool was at its maximum. -/
theorem run_starts_iff {s : State T R W × History R}
    (reached : (recorded tmax T R W).Reachable s) :
    Exactly (fun w => s.1.worker w = .recv) s.2.idle ∧
      ∀ r, s.1.call r = .idle →
        (StartsNoneNeedlessly (s.2.call r) ↔
          ((s.2.call r).surplus = true → (s.2.call r).room = false ∨
            (s.2.call r).free = false)) := by
  obtain ⟨count, consistent⟩ := consistent_of_reachable reached
  refine ⟨count, ?_⟩
  intro r idle
  have spawned : (s.2.call r).spawned = ((s.2.call r).room && (s.2.call r).free) := by
    have here := consistent r
    rw [idle] at here
    exact here
  unfold StartsNoneNeedlessly
  rw [spawned, Bool.and_eq_false_iff]

/-! ## Runs -/

/-- One worker is the maximum, and it waits when a second task is sent. -/
theorem waitedFor_ends :
    ((recorded 1 Nat Unit Unit).exec (freshPool, .empty Unit)
      (firstRun ++ .run () 2 :: List.replicate 3 (.call () ()))).any
      (fun s => s.1.call () = .idle ∧
        s.2.call () = ⟨true, false, false, false⟩) = true := by
  decide +kernel

theorem run_starts_none :
    ∃ s : State Nat Unit Unit × History Unit, (s.2.call ()).surplus = true ∧
      StartsNoneNeedlessly (s.2.call ()) := by
  obtain ⟨s, reached, ends⟩ :=
    Machine.Reachable.exists_of_exec (M := recorded 1 Nat Unit Unit) ⟨freshPool_start, rfl⟩
      waitedFor_ends
  obtain ⟨idle, call⟩ := of_decide_eq_true ends
  refine ⟨s, by rw [call], ((run_starts_iff reached).2 () idle).mpr ?_⟩
  rw [call]
  exact fun _ => .inl rfl

def freshPair : State Nat Unit Bool where
  queue := []
  threads := 0
  load := 0
  call _ := .idle
  worker _ := .absent

theorem freshPair_start : (machine 2 Nat Unit Bool).start freshPair := by
  refine ⟨rfl, rfl, rfl, ?_, ?_⟩ <;> intro _ <;> rfl

/-- The only worker has run a first task and waits for another one. -/
theorem needless_ends :
    ((recorded 2 Nat Unit Bool).exec (freshPair, .empty Unit)
      (.run () 1 :: (List.replicate 5 (.call () false) ++ List.replicate 5 (.worker false)) ++
        .run () 2 :: List.replicate 5 (.call () true))).any
      (fun s => s.1.call () = .idle ∧ s.2.call () = ⟨true, true, true, true⟩) = true := by
  decide +kernel

theorem run_starts_needlessly :
    ¬∀ s : State Nat Unit Bool × History Unit, (recorded 2 Nat Unit Bool).Reachable s →
      ∀ r, s.1.call r = .idle → StartsNoneNeedlessly (s.2.call r) := by
  intro never
  obtain ⟨s, reached, ends⟩ :=
    Machine.Reachable.exists_of_exec (M := recorded 2 Nat Unit Bool) ⟨freshPair_start, rfl⟩
      needless_ends
  obtain ⟨idle, call⟩ := of_decide_eq_true ends
  have spares := never s reached () idle
  rw [call] at spares
  exact absurd (spares rfl) (by decide)

end MtAsyncio.BlockingPool
