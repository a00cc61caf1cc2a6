/-
Module: MtAsyncio.Proofs.DeferredWakes
Purpose: A protocol callback finishes before anything it scheduled runs.  The
  completions of futures and `call_soon` wait for the exit of the outermost
  region; `create_task` and `call_at` put their coroutine on a run queue at
  once, so the promise holds exactly where these are not called in a region.
Trusted boundary: none
Main exports: Deferred, Collected, Held, wakes_wait_for_exit,
  spawn_escapes_region, spawn_runs_inside_region
-/
import MtAsyncio.Model.Scheduling

namespace MtAsyncio.Scheduling

open Lib (Machine)
open Tasks (Ref)
open Wakes (Region)

variable {T F W G : Type}
variable {s s' : State T F W G} {t : T}

/-- Thread `t` is inside of its outermost region number `n`. -/
def Open (s : State T F W G) (t : T) (n : Nat) : Prop :=
  (s.region t).wakesNow = false ∧ s.entered t = n

/-- Nothing on a run queue was made runnable in a region that is still open. -/
def Deferred (s : State T F W G) : Prop :=
  ∀ q ∈ s.queue, ∀ t n, q.origin = some (t, n) → ¬Open s t n

/-- The operation is not one that spawns a coroutine from inside of a region. -/
def Collected (s : State T F W G) : Act T F W G → Prop
  | .op t (.createTask _) => (s.region t).wakesNow = true
  | .op t (.callAt _ due) => due = true → (s.region t).wakesNow = true
  | _ => True

/-- The outermost region number `n` of `t` has exited. -/
def Closed (s : State T F W G) (t : T) (n : Nat) : Prop :=
  n < s.entered t ∨ n = s.entered t ∧ (s.region t).wakesNow = true

theorem Closed.not_open {n : Nat} (closed : Closed s t n) : ¬Open s t n := by
  rintro ⟨inside, now⟩
  rcases closed with before | ⟨-, outside⟩
  · omega
  · rw [inside] at outside
    cases outside

/-- A thread standing here has to put work of region `n` on a run queue. -/
inductive Pc.Flushes (n : Nat) : Pc F W G → Prop where
  | flush (wake : Wake F W G) (rest : List (Wake F W G)) : Pc.Flushes n (.flush (wake :: rest) n)
  | notify (r : Ref W F) (rest : List (Wake F W G)) : Pc.Flushes n (.notify r (.flush rest n))

/-- Work comes from outside of any region or from one that has exited. -/
structure Held (s : State T F W G) : Prop where
  queued : ∀ q ∈ s.queue, ∀ t n, q.origin = some (t, n) → Closed s t n
  timed : ∀ p ∈ s.timers, ∀ t n, p.2 = some (t, n) → Closed s t n
  flushing : ∀ t n, (s.pc t).Flushes n → Closed s t n

theorem Held.deferred (held : Held s) : Deferred s :=
  fun q member t n from_ => (held.queued q member t n from_).not_open

/-- The queue and the timers stay, and so do the regions. -/
theorem Held.keep [DecidableEq T] (held : Held s) (queue : s'.queue = s.queue)
    (timers : s'.timers = s.timers) (closed : ∀ u n, Closed s u n → Closed s' u n)
    (others : ∀ u, u ≠ t → s'.pc u = s.pc u)
    (flushing : ∀ n, (s'.pc t).Flushes n → Closed s' t n) : Held s' where
  queued := by
    rw [queue]
    intro q member u n from_
    exact closed u n (held.queued q member u n from_)
  timed := by
    rw [timers]
    intro p member u n from_
    exact closed u n (held.timed p member u n from_)
  flushing := by
    intro u n flushes
    by_cases self : u = t
    · exact self ▸ flushing n (self ▸ flushes)
    · rw [others u self] at flushes
      exact closed u n (held.flushing u n flushes)

/-- Work from outside of any region, or from one that has exited, is queued. -/
theorem Held.push (held : Held s) {item : Item W G} {origin : Option (T × Nat)}
    (closed : ∀ u n, origin = some (u, n) → Closed s u n) : Held (s.push item origin) where
  queued := by
    intro q member u n from_
    rcases List.mem_append.mp member with old | new
    · exact held.queued q old u n from_
    · rw [List.mem_singleton.mp new] at from_
      exact closed u n from_
  timed := held.timed
  flushing := held.flushing

/-- A thread goes on to where it has nothing to flush. -/
theorem Held.goto [DecidableEq T] (held : Held s) {pc : Pc F W G}
    (flushing : ∀ n, pc.Flushes n → Closed s t n) :
    Held (s.goto t pc) := by
  have here : (s.goto t pc).pc t = pc := Function.update_self ..
  refine held.keep (t := t) rfl rfl (fun _ _ closed => closed)
    (fun u other => Function.update_of_ne other ..) ?_
  rw [here]
  exact flushing

/-- The regions count the same, and are as open as before. -/
theorem Closed.same {u : T} {n : Nat} (closed : Closed s u n) (entered : s'.entered = s.entered)
    (now : ∀ u, (s'.region u).wakesNow = (s.region u).wakesNow) : Closed s' u n := by
  rw [Closed, entered, now u]
  exact closed

theorem Held.append [DecidableEq T] (held : Held s) (wake : Wake F W G) :
    Held (s.append t wake) := by
  have now : ∀ u, ((s.append t wake).region u).wakesNow = (s.region u).wakesNow := by
    intro u
    by_cases self : u = t
    · subst self
      simp only [State.append, Function.update_self, Region.wakesNow_append]
    · simp only [State.append, Function.update_of_ne self]
  have closed : ∀ u n, Closed s u n → Closed (s.append t wake) u n :=
    fun _ _ before => before.same rfl now
  exact held.keep (t := t) rfl rfl closed (fun _ _ => rfl)
    (fun n flushes => closed t n (held.flushing t n flushes))

theorem Held.callSoon [DecidableEq T] (held : Held s) (h : G) : Held (s.callSoon t h) := by
  unfold State.callSoon
  split
  · exact held.push (by rintro u n ⟨⟩)
  · exact held.append _

theorem Held.ask [DecidableEq W] (held : Held s) (w : Option W) : Held (s.ask w) := by
  cases w with
  | none => exact held
  | some w => exact ⟨held.queued, held.timed, held.flushing⟩

theorem After.closes (after : After F W G) {n : Nat}
    (flushing : ∀ rest n, after = .flush rest n → Closed s t n)
    (flushes : (after.pc : Pc F W G).Flushes n) : Closed s t n := by
  cases after with
  | callbacks rest => cases flushes
  | flush rest region =>
      cases flushes with
      | flush wake rest => exact flushing _ n rfl

theorem Held.set [DecidableEq T] [DecidableEq F] [DecidableEq W] (held : Held s) {r : Ref W F}
    {after : After F W G}
    (flushing : ∀ rest n, after = .flush rest n → Closed s t n) : Held (set s t r after) := by
  unfold Scheduling.set
  split
  · apply held.goto
    intro n flushes
    exact after.closes flushing flushes
  · have raised : Held { s with flag := Function.update s.flag r true } :=
      ⟨held.queued, held.timed, held.flushing⟩
    apply raised.goto
    intro n flushes
    cases flushes with
    | notify _ rest => exact flushing rest n rfl

theorem Held.thread [DecidableEq T] [DecidableEq F] [DecidableEq W] (held : Held s)
    (taken : threadStep s t = some s') : Held s' := by
  have ends : ∀ {r : State T F W G} {pc : Pc F W G}, Held r → (∀ n, ¬pc.Flushes n) →
      Held (r.goto t pc) :=
    fun before none => before.goto fun n flushes => absurd flushes (none n)
  cases at_ : s.pc t with
  | idle =>
      simp only [threadStep, at_] at taken
      cases taken
  | cancel w outer =>
      simp only [threadStep, at_] at taken
      cases taken
      split
      · exact ends (held.ask outer) (by rintro n ⟨⟩)
      · split
        · exact ends (held.ask (some w)) (by rintro n ⟨⟩)
        · exact ends held (by rintro n ⟨⟩)
        · exact ends held (by rintro n ⟨⟩)
  | complete r asker =>
      simp only [threadStep, at_] at taken
      cases taken
      split
      · exact ends (held.ask asker) (by rintro n ⟨⟩)
      · have completed : Held { s with
            done := Function.update s.done r true
            callbacks := Function.update s.callbacks r [] } :=
          ⟨held.queued, held.timed, held.flushing⟩
        exact ends completed (by rintro n ⟨⟩)
  | wake r callbacks =>
      simp only [threadStep, at_] at taken
      cases taken
      split
      · exact held.set (by rintro _ _ ⟨⟩)
      · exact ends (held.append _) (by rintro n ⟨⟩)
  | notify r after =>
      have closed : ∀ rest n, after = .flush rest n → Closed s t n := by
        rintro rest n rfl
        exact held.flushing t n (at_ ▸ .notify r rest)
      simp only [threadStep, at_] at taken
      split at taken <;> cases taken
      · apply held.goto
        intro n flushes
        exact after.closes closed flushes
      · rename_i w rest filled
        have woken : Held { s with
            watchers := Function.update s.watchers r rest
            futWaiter := Function.update s.futWaiter w none } :=
          ⟨held.queued, held.timed, held.flushing⟩
        apply woken.push
        intro u n from_
        cases after with
        | callbacks rest => cases from_
        | flush rest region =>
            cases from_
            exact closed rest n rfl
  | runCallbacks rest =>
      cases rest with
      | nil =>
          simp only [threadStep, at_] at taken
          cases taken
          exact ends held (by rintro n ⟨⟩)
      | cons h rest =>
          simp only [threadStep, at_] at taken
          cases taken
          exact ends (held.callSoon h) (by rintro n ⟨⟩)
  | flush rest region =>
      cases rest with
      | nil =>
          simp only [threadStep, at_] at taken
          cases taken
          exact ends held (by rintro n ⟨⟩)
      | cons wake rest =>
          have closed : Closed s t region := held.flushing t region (at_ ▸ .flush wake rest)
          cases wake with
          | set r =>
              simp only [threadStep, at_] at taken
              cases taken
              apply held.set
              rintro _ n ⟨⟩
              exact closed
          | soon h =>
              simp only [threadStep, at_] at taken
              cases taken
              have queued : Held (s.push (.callback h) (some (t, region))) := by
                apply held.push
                rintro u n ⟨⟩
                exact closed
              apply queued.goto
              intro n flushes
              cases flushes with
              | flush wake rest => exact closed

/-- Outside of a region work has no origin. -/
theorem origin_outside (outside : (s.region t).wakesNow = true) : s.origin t = none := by
  rw [State.origin, if_pos outside]

theorem Held.operate [DecidableEq T] [DecidableEq F] [DecidableEq W] (held : Held s) {o : Op F W G}
    (collected : Collected s (.op t o))
    (idle : s.pc t = .idle) (taken : operate s t o = some s') : Held s' := by
  cases o with
  | complete r =>
      cases taken
      exact held.goto (by rintro n ⟨⟩)
  | cancelTask w =>
      cases taken
      exact held.goto (by rintro n ⟨⟩)
  | addDoneCallback r h =>
      cases taken
      split
      · exact held.callSoon h
      · exact ⟨held.queued, held.timed, held.flushing⟩
  | callSoon h =>
      cases taken
      exact held.callSoon h
  | createTask w =>
      cases taken
      apply held.push
      rw [origin_outside collected]
      rintro u n ⟨⟩
  | callAt h due =>
      cases taken
      apply held.push
      cases due with
      | false => rintro u n ⟨⟩
      | true =>
          rw [if_pos rfl, origin_outside (collected rfl)]
          rintro u n ⟨⟩
  | enter =>
      cases taken
      refine held.keep (t := t) rfl rfl ?_ (fun _ _ => rfl) ?_
      · intro u n closed
        by_cases self : u = t
        · subst self
          simp only [Closed, Function.update_self]
          rcases closed with before | ⟨rfl, outside⟩
          · refine .inl ?_
            split <;> omega
          · rw [if_pos outside]
            exact .inl (Nat.lt_succ_self _)
        · simp only [Closed, Function.update_of_ne self]
          exact closed
      · intro n flushes
        change (s.pc t).Flushes n at flushes
        rw [idle] at flushes
        cases flushes
  | exit =>
      obtain ⟨⟨region, flush⟩, left, rfl⟩ := Option.map_eq_some_iff.mp taken
      have inside : (s.region t).wakesNow = false := Region.inside_of_exit left
      refine held.keep (t := t) rfl rfl ?_ (fun u other => Function.update_of_ne other ..) ?_
      · intro u n closed
        by_cases self : u = t
        · subst self
          refine closed.imp_right ?_
          rintro ⟨-, outside⟩
          rw [inside] at outside
          cases outside
        · simp only [Closed, State.goto, Function.update_of_ne self]
          exact closed
      · intro n flushes
        simp only [State.goto, Function.update_self] at flushes
        cases flush with
        | nil => cases flushes
        | cons wake rest =>
            cases flushes
            refine .inr ⟨rfl, ?_⟩
            simp only [State.goto, Function.update_self]
            exact Region.outside_of_flush left

theorem held_step [DecidableEq T] [DecidableEq F] [DecidableEq W] [DecidableEq G] {a : Act T F W G}
    (held : Held s) (collected : Collected s a) (taken : step s a = some s') : Held s' := by
  cases a with
  | op t o =>
      simp only [step] at taken
      split at taken
      · rename_i idle
        exact held.operate collected idle taken
      · cases taken
  | thread t => exact held.thread taken
  | park w r =>
      simp only [step] at taken
      split at taken <;> cases taken
      exact ⟨held.queued, held.timed, held.flushing⟩
  | run q =>
      simp only [step] at taken
      split at taken <;> cases taken
      rename_i member
      refine ⟨fun p inside => held.queued p (List.mem_of_mem_erase inside), ?_, held.flushing⟩
      intro p inside
      cases kind : q.item with
      | timer h =>
          simp only [kind] at inside
          rcases List.mem_cons.mp inside with rfl | old
          · exact held.queued q member
          · exact held.timed p old
      | task w | callback h =>
          simp only [kind] at inside
          exact held.timed p inside
  | fire timer =>
      simp only [step] at taken
      split at taken <;> cases taken
      rename_i member
      have erased : Held { s with timers := s.timers.erase timer } :=
        ⟨held.queued, fun p inside => held.timed p (List.mem_of_mem_erase inside), held.flushing⟩
      exact erased.push (held.timed timer member)

theorem fresh_held : Held (fresh : State T F W G) := by
  refine ⟨by rintro q ⟨⟩, by rintro p ⟨⟩, ?_⟩
  rintro t n ⟨⟩

/-- In every run that spawns no coroutine from inside of a region, nothing is
on a run queue before the region it was scheduled in has exited. -/
theorem wakes_wait_for_exit [DecidableEq T] [DecidableEq F] [DecidableEq W] [DecidableEq G]
    (reached : (machine T F W G).Reach Collected s) : Deferred s := by
  have held := Machine.Reach.invariant Held (fun s start => start ▸ fresh_held)
    (fun _ _ _ before collected taken => held_step before collected taken) reached
  exact held.deferred

/-- Every spawn from inside of a region breaks the promise at once. -/
theorem spawn_escapes_region [DecidableEq T] [DecidableEq F] [DecidableEq W] [DecidableEq G]
    {a : Act T F W G} (taken : step s a = some s') (spawns : ¬Collected s a) : ¬Deferred s' := by
  have escapes : ∀ {u : T} {item : Item W G}, ¬(s.region u).wakesNow = true →
      ¬Deferred (s.push item (s.origin u)) := by
    intro u item inside deferred
    have now : (s.region u).wakesNow = false := by simpa using inside
    have origin : s.origin u = some (u, s.entered u) := by
      rw [State.origin, if_neg inside]
    exact deferred ⟨item, s.origin u⟩ (List.mem_append_right _ List.mem_cons_self) u (s.entered u)
      origin ⟨now, rfl⟩
  cases a with
  | op u o =>
      simp only [step] at taken
      split at taken
      · cases o with
        | createTask w =>
            cases taken
            exact escapes spawns
        | callAt h due =>
            cases taken
            obtain ⟨isDue, inside⟩ := Classical.not_imp.mp spawns
            rw [if_pos isDue]
            exact escapes inside
        | _ => exact absurd trivial spawns
      · cases taken
  | _ => exact absurd trivial spawns

/-! ## Runs -/

/-- A callback of a protocol makes a task. -/
def spawningRun : List (Act Unit Unit Unit Unit) :=
  [.op () .enter, .op () (.createTask ())]

theorem spawningRun_ends :
    ((machine Unit Unit Unit Unit).exec fresh spawningRun).any (fun s =>
      s.queue = [⟨.task (), some ((), 1)⟩] ∧ (s.region ()).wakesNow = false ∧
        s.entered () = 1) = true := by
  decide +kernel

theorem spawn_runs_inside_region :
    ¬ ∀ s : State Unit Unit Unit Unit, (machine Unit Unit Unit Unit).Reachable s → Deferred s := by
  intro always
  obtain ⟨s, reached, ends⟩ := Machine.Reachable.exists_of_exec rfl spawningRun_ends
  obtain ⟨queued, inside, first⟩ := of_decide_eq_true ends
  exact always s reached ⟨.task (), some ((), 1)⟩ (by rw [queued]; exact List.mem_cons_self)
    () 1 rfl ⟨inside, first⟩

/-- No coroutine is spawned. -/
def spawnless : State T F W G → Act T F W G → Bool
  | _, .op _ (.createTask _) | _, .op _ (.callAt _ _) => false
  | _, _ => true

theorem collected_of_spawnless (s : State T F W G) (a : Act T F W G)
    (checked : spawnless s a = true) : Collected s a := by
  cases a with
  | op t o =>
      cases o with
      | createTask w | callAt h due => cases checked
      | _ => trivial
  | _ => trivial

/-- A task parks on a future.  In nested regions the task is cancelled, and with
it the future, and a callback is scheduled; the outermost exit flushes both. -/
def flushingRun : List (Act Unit Unit Unit Unit) :=
  List.flatten
    [[.park () (.fut ()), .op () .enter, .op () .enter, .op () (.cancelTask ())],
      .replicate 4 (.thread ()),
      [.op () (.callSoon ()), .op () .exit, .thread (), .op () .exit],
      .replicate 4 (.thread ())]

theorem flushingRun_ends :
    ((machine Unit Unit Unit Unit).execIf spawnless fresh flushingRun).any (fun s =>
      s.queue = [⟨.task (), some ((), 1)⟩, ⟨.callback (), some ((), 1)⟩] ∧
        (s.region ()).wakesNow = true) = true := by
  decide +kernel

theorem wakes_wait_for_exit_of_nested :
    ∃ s : State Unit Unit Unit Unit,
      s.queue = [⟨.task (), some ((), 1)⟩, ⟨.callback (), some ((), 1)⟩] ∧ Deferred s := by
  obtain ⟨s, reached, ends⟩ :=
    Machine.Reach.exists_of_execIf collected_of_spawnless rfl flushingRun_ends
  obtain ⟨queued, -⟩ := of_decide_eq_true ends
  exact ⟨s, queued, wakes_wait_for_exit reached⟩

end MtAsyncio.Scheduling
