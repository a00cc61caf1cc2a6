/-
Module: MtAsyncio.Proofs.ExecutorTasks
Purpose: The function of a call of `run_in_executor` is in one place at a time, from the
  call that hands it to the pool to the thread that sets its event; no two threads have it,
  and none has it twice.
Trusted boundary: none
Main exports: unsent, held, Place, State.at_, Placed, placed_pool, placed_step, placed
-/
import MtAsyncio.Lib.Places
import MtAsyncio.Model.Executor
import MtAsyncio.Proofs.BlockingTasks

namespace MtAsyncio.Executor

open Lib (Machine Moved)
open BlockingPool (RunPc WorkerPc Move move_of_step)

variable {C W O : Type} {tmax : Nat} {stops : Obj O → Bool}
  {s s' : State C W O} {a : Act C W O} {c d : C} {w : W} {k : Call O}

@[simp] theorem State.setCall_call_self [DecidableEq C] (s : State C W O) (c : C) (k : Call O) :
    (s.setCall c k).call c = k :=
  Function.update_self ..

theorem State.setCall_call_other [DecidableEq C] (s : State C W O) (k : Call O) (other : d ≠ c) :
    (s.setCall c k).call d = s.call d :=
  Function.update_of_ne other ..

@[simp] theorem State.setCall_pool [DecidableEq C] (s : State C W O) (c : C) (k : Call O) :
    (s.setCall c k).pool = s.pool := rfl

@[simp] theorem State.setCall_body [DecidableEq C] (s : State C W O) (c : C) (k : Call O) :
    (s.setCall c k).body = s.body := rfl

@[simp] theorem State.setCall_closed [DecidableEq C] (s : State C W O) (c : C) (k : Call O) :
    (s.setCall c k).closed = s.closed := rfl

@[simp] theorem State.setBody_call [DecidableEq W] (s : State C W O) (w : W) (b : Body O) :
    (s.setBody w b).call = s.call := rfl

@[simp] theorem State.setBody_pool [DecidableEq W] (s : State C W O) (w : W) (b : Body O) :
    (s.setBody w b).pool = s.pool := rfl

@[simp] theorem State.setBody_closed [DecidableEq W] (s : State C W O) (w : W) (b : Body O) :
    (s.setBody w b).closed = s.closed := rfl

/-! ## Where a function is -/

/-- The task that a call of `BlockingRunnerPool::run` has not sent yet. -/
def unsent : RunPc C → Option C
  | .load c | .send c _ => some c
  | _ => none

/-- The task that a worker of the pool has taken. -/
def held : WorkerPc C → Option C
  | .received c | .run c => some c
  | _ => none

inductive Place (W : Type) where
  | outside
  | unsent
  | channel
  | held (w : W)
  /-- its event is set -/
  | ended

def State.at_ (s : State C W O) (c : C) : Place W → Prop
  | .outside => (s.call c).handed = false
  | .unsent => unsent (s.pool.call c) = some c
  | .channel => c ∈ s.pool.queue
  | .held w => held (s.pool.worker w) = some c
  | .ended => (s.call c).event = true

structure Placed (s : State C W O) : Prop where
  settled : Lib.Settled s.at_
  once : s.pool.queue.Nodup
  own : ∀ r t, unsent (s.pool.call r) = some t → t = r

theorem held_of_running {pc : WorkerPc C} (runs : running pc = some c) : held pc = some c := by
  cases pc <;> first | exact runs | cases runs

/-- Two threads that have the same function are one. -/
theorem Placed.unique {v : W} (placed : Placed s) (here : held (s.pool.worker w) = some c)
    (there : held (s.pool.worker v) = some c) : v = w := by
  have same : Place.held v = Place.held w := (placed.settled c).unique there here
  injection same

/-- A thread that runs `c` is in the one place of `c`. -/
theorem Placed.apart {p : Place W} (placed : Placed s) (runs : running (s.pool.worker w) = some c)
    (other : p ≠ .held w) : ¬s.at_ c p := by
  have here : s.at_ c (.held w) := held_of_running runs
  exact placed.settled.apart here other

/-- The pool is as it was, and so are the two flags of every call. -/
theorem Placed.same (placed : Placed s) (pool : s'.pool = s.pool)
    (handed : ∀ d, (s'.call d).handed = (s.call d).handed)
    (event : ∀ d, (s'.call d).event = (s.call d).event) : Placed s' := by
  refine ⟨placed.settled.same ?_, pool ▸ placed.once, pool ▸ placed.own⟩
  intro d p
  cases p <;> simp only [State.at_, pool, handed, event]

theorem Placed.setCall [DecidableEq C] (placed : Placed s) (handed : k.handed = (s.call c).handed)
    (event : k.event = (s.call c).event) : Placed (s.setCall c k) := by
  refine placed.same rfl ?_ ?_
  all_goals
    intro d
    by_cases self : d = c
    · rw [self, State.setCall_call_self]
      assumption
    · rw [State.setCall_call_other s k self]

/-! ## Steps of the pool -/

/-- A call of `run` goes on, and keeps or has lost what it had to send. -/
theorem Placed.runs [DecidableEq C] {r : C} {pc : RunPc C} {pool : BlockingPool.State C C W}
    (placed : Placed s)
    (keeps : unsent pc = unsent (s.pool.call r)) (queue : pool.queue = s.pool.queue)
    (call : pool.call = Function.update s.pool.call r pc)
    (worker : ∀ v, held (pool.worker v) = held (s.pool.worker v)) :
    Placed { s with pool := pool } := by
  have calls : ∀ d, unsent (pool.call d) = unsent (s.pool.call d) := by
    intro d
    rw [call]
    by_cases self : d = r
    · rw [self, Function.update_self, keeps]
    · rw [Function.update_of_ne self]
  refine ⟨placed.settled.same ?_, queue ▸ placed.once, ?_⟩
  · intro d p
    cases p <;> simp only [State.at_, calls, queue, worker]
  · intro d t has
    exact placed.own d t (calls d ▸ has)

/-- A worker goes on with the task it has, or with none. -/
theorem Placed.works [DecidableEq W] {pc : WorkerPc C} {pool : BlockingPool.State C C W}
    (placed : Placed s)
    (keeps : held pc = held (s.pool.worker w)) (queue : pool.queue = s.pool.queue)
    (call : pool.call = s.pool.call)
    (worker : pool.worker = Function.update s.pool.worker w pc) :
    Placed { s with pool := pool } := by
  have workers : ∀ v, held (pool.worker v) = held (s.pool.worker v) := by
    intro v
    rw [worker]
    by_cases self : v = w
    · rw [self, Function.update_self, keeps]
    · rw [Function.update_of_ne self]
  refine ⟨placed.settled.same ?_, queue ▸ placed.once, call ▸ placed.own⟩
  intro d p
  cases p <;> simp only [State.at_, workers, queue, call]

/-- A call of `run` sends its task. -/
theorem Placed.sends [DecidableEq C] {r t : C} {threads : Nat} (placed : Placed s)
    (stage : s.pool.call r = .send t threads) :
    Placed { s with
      pool := { s.pool with queue := s.pool.queue ++ [t] }.setCall r (.decide_ threads) } := by
  have has : unsent (s.pool.call r) = some t := by
    rw [stage]
    rfl
  obtain rfl := placed.own r t has
  have here : s.at_ t .unsent := has
  have absent : ¬s.at_ t .channel := placed.settled.apart here (fun no => nomatch no)
  refine ⟨placed.settled.moved (c := t) (p := .unsent) (q := .channel) has ?_, ?_, ?_⟩
  · refine ⟨?_, ?_, ?_, List.mem_append_right _ (List.mem_singleton_self t)⟩
    · intro d other p
      cases p with
      | unsent => simp [State.at_, other]
      | channel => simp [State.at_, other]
      | outside | held v | ended => exact Iff.rfl
    · intro p notUnsent notChannel
      cases p with
      | unsent => exact absurd rfl notUnsent
      | channel => exact absurd rfl notChannel
      | outside | held v | ended => exact Iff.rfl
    · simp [State.at_, unsent]
  · exact List.nodup_append.mpr ⟨placed.once, List.nodup_singleton t, by
      intro x inside y isT equal
      rw [List.mem_singleton.mp isT] at equal
      exact absent (equal ▸ inside)⟩
  · intro d u has'
    by_cases self : d = t
    · rw [self] at has'
      simp [unsent] at has'
    · simp only [BlockingPool.State.setCall_call, self, if_false] at has'
      exact placed.own d u has'

/-- A worker takes the first task of the channel. -/
theorem Placed.receives [DecidableEq W] {t : C} {rest : List C} (placed : Placed s)
    (stage : s.pool.worker w = .recv) (channel : s.pool.queue = t :: rest) :
    Placed { s with pool := { s.pool with queue := rest }.setWorker w (.received t) } := by
  have once := channel ▸ placed.once
  have first : t ∈ s.pool.queue := channel ▸ List.mem_cons_self
  refine ⟨placed.settled.moved (c := t) (p := .channel) (q := .held w) first ?_,
    (List.nodup_cons.mp once).2, placed.own⟩
  refine ⟨?_, ?_, (List.nodup_cons.mp once).1, by simp [State.at_, held]⟩
  · intro d other p
    cases p with
    | channel => simp [State.at_, channel, other]
    | held v =>
        by_cases self : v = w
        · simp [State.at_, self, stage, held, other.symm]
        · simp [State.at_, self]
    | outside | unsent | ended => exact Iff.rfl
  · intro p notChannel notHeld
    cases p with
    | channel => exact absurd rfl notChannel
    | held v =>
        have other : v ≠ w := fun same => notHeld (congrArg _ same)
        simp [State.at_, other]
    | outside | unsent | ended => exact Iff.rfl

/-- The pool takes a step of its own. -/
theorem placed_pool [DecidableEq C] [DecidableEq W] {b : BlockingPool.Act C C W} (placed : Placed s)
    (taken : poolStep tmax s b = some s') : Placed s' := by
  cases b with
  | run r t => cases taken
  | call r v =>
      obtain ⟨pool, moved, rfl⟩ := Option.map_eq_some_iff.mp taken
      cases move_of_step moved with
      | loads stage => exact placed.runs (by rw [stage]; rfl) rfl rfl (fun _ => rfl)
      | sends stage => exact placed.sends stage
      | decides stage =>
          refine placed.runs ?_ rfl rfl (fun _ => rfl)
          rw [stage]
          split <;> rfl
      | claims stage =>
          refine placed.runs ?_ rfl rfl (fun _ => rfl)
          rw [stage]
          split <;> rfl
      | unclaims stage => exact placed.runs (by rw [stage]; rfl) rfl rfl (fun _ => rfl)
      | starts stage absent =>
          refine placed.runs (by rw [stage]; rfl) rfl rfl ?_
          intro u
          simp only [BlockingPool.State.setCall_worker, BlockingPool.State.setWorker_worker]
          split
          · rename_i self
            rw [self, absent]
            rfl
          · rfl
  | worker w =>
      simp only [poolStep] at taken
      split at taken
      · cases taken
      · rename_i idle
        obtain ⟨pool, moved, rfl⟩ := Option.map_eq_some_iff.mp taken
        cases move_of_step moved with
        | waits stage | expires stage | counts stage | stops stage | leaves stage =>
            exact placed.works (by rw [stage]; rfl) rfl rfl rfl
        | receives stage channel => exact placed.receives stage channel
        | finishes stage =>
            rw [stage] at idle
            cases idle

/-! ## The other steps -/

/-- A call hands its function to the pool. -/
theorem Placed.submits [DecidableEq C] [DecidableEq W] {pool : BlockingPool.State C C W}
    (placed : Placed s) (outside : (s.call c).handed = false) (handed : k.handed = true)
    (event : k.event = (s.call c).event)
    (taken : BlockingPool.step tmax s.pool (.run c c) = some pool) :
    Placed ({ s with pool := pool }.setCall c k) := by
  cases move_of_step taken with
  | begins stage =>
      refine ⟨placed.settled.moved (c := c) (p := .outside) (q := .unsent) outside ?_,
        placed.once, ?_⟩
      · refine ⟨?_, ?_, by simp [State.at_, handed], by simp [State.at_, unsent]⟩
        · intro d other p
          cases p <;> simp [State.at_, other, State.setCall_call_other]
        · intro p notOutside notUnsent
          cases p with
          | outside => exact absurd rfl notOutside
          | unsent => exact absurd rfl notUnsent
          | ended => simp [State.at_, event]
          | channel | held v => exact Iff.rfl
      · intro d t has
        by_cases self : d = c
        · simp only [State.setCall_pool, BlockingPool.State.setCall_call, self, if_true] at has
          rw [self]
          exact (Option.some.inj has).symm
        · simp only [State.setCall_pool, BlockingPool.State.setCall_call, self, if_false] at has
          exact placed.own d t has

/-- A thread sets the event of the function that it has run. -/
theorem Placed.finishes [DecidableEq C] [DecidableEq W] {pool : BlockingPool.State C C W}
    {b : Body O} (placed : Placed s)
    (runs : running (s.pool.worker w) = some c) (handed : k.handed = (s.call c).handed)
    (event : k.event = true) (taken : BlockingPool.step tmax s.pool (.worker w) = some pool) :
    Placed ({ s.setCall c k with pool := pool }.setBody w b) := by
  cases move_of_step taken with
  | finishes stage =>
      refine ⟨placed.settled.moved (c := c) (p := .held w) (q := .ended) (held_of_running runs) ?_,
        placed.once, placed.own⟩
      refine ⟨?_, ?_, by simp [State.at_, held], by simp [State.at_, event]⟩
      · intro d other p
        cases p with
        | held v =>
            by_cases self : v = w
            · rw [stage] at runs
              cases runs
              simp [State.at_, self, stage, held, other.symm]
            · simp [State.at_, self]
        | outside | ended => simp [State.at_, State.setCall_call_other s k other]
        | unsent | channel => exact Iff.rfl
      · intro p notHeld notOver
        cases p with
        | held v =>
            have other : v ≠ w := fun same => notHeld (congrArg _ same)
            simp [State.at_, other]
        | ended => exact absurd rfl notOver
        | outside => simp [State.at_, handed]
        | unsent | channel => exact Iff.rfl
  | waits stage | expires stage | counts stage | stops stage | leaves stage =>
      rw [stage] at runs
      cases runs
  | receives stage =>
      rw [stage] at runs
      cases runs

end MtAsyncio.Executor
