/-
Module: MtAsyncio.Proofs.ExecutorAnswers
Purpose: A function that is handed to `run_in_executor` is called once at most, its future
  is told once at most, and what the future says is what that one call returned or raised.
Trusted boundary: none
Main exports: Full, Written, Bodies, bodies_step, Sound, sound_step, Answers,
  answers_of_reachable, executor_answer
-/
import MtAsyncio.Proofs.ExecutorTasks

namespace MtAsyncio.Executor

open Lib (Machine)
open BlockingPool (move_of_step)

variable {C W O : Type} [DecidableEq C] [DecidableEq W] {tmax : Nat} {stops : Obj O → Bool}
  {s s' : State C W O} {a : Act C W O} {c d : C} {w : W} {k k' : Call O} {closed : Bool}

/-! ## What a thread of the pool writes -/

/-- The holder has what the one call of the function came to. -/
def Full (k : Call O) : Prop :=
  ∃ raised v, k.holder = (.bool raised, v) ∧ k.runs = 1 ∧ k.answer = some (outcome raised v)

/-- What `BlockingTask::run` has done when it stands at `b`. -/
def Written (k : Call O) : Body O → Prop
  | .call => k.holder = (.none, .none) ∧ k.runs = 0 ∧ k.answer = none
  | .storeFlag raised v =>
      k.holder = (.none, .none) ∧ k.runs = 1 ∧ k.answer = some (outcome raised v)
  | .storeValue v =>
      ∃ raised, k.holder = (.bool raised, .none) ∧ k.runs = 1 ∧ k.answer = some (outcome raised v)
  | .set_ => Full k

theorem Written.runs_le {b : Body O} (written : Written k b) : k.runs ≤ 1 := by
  cases b with
  | call => exact written.2.1 ▸ Nat.zero_le 1
  | storeFlag raised v => exact Nat.le_of_eq written.2.1
  | storeValue v =>
      obtain ⟨-, -, once, -⟩ := written
      exact Nat.le_of_eq once
  | set_ =>
      obtain ⟨-, -, -, once, -⟩ := written
      exact Nat.le_of_eq once

structure Bodies (s : State C W O) : Prop where
  written : ∀ w c, running (s.pool.worker w) = some c → Written (s.call c) (s.body w)
  resting : ∀ w, running (s.pool.worker w) = none → s.body w = .call
  untouched : ∀ c, (s.call c).handed = true → (s.call c).event = false →
    (∀ w, running (s.pool.worker w) ≠ some c) → Written (s.call c) .call
  full : ∀ c, (s.call c).event = true → Full (s.call c)

/-- A call in which nothing is new that concerns its function. -/
structure Alike (k k' : Call O) : Prop where
  holder : k'.holder = k.holder
  runs : k'.runs = k.runs
  answer : k'.answer = k.answer
  event : k'.event = k.event
  handed : k'.handed = k.handed

theorem Alike.full (alike : Alike k k') : Full k' ↔ Full k := by
  unfold Full
  rw [alike.holder, alike.runs, alike.answer]

theorem Alike.written (alike : Alike k k') (b : Body O) : Written k' b ↔ Written k b := by
  cases b with
  | set_ => exact alike.full
  | call | storeFlag raised v | storeValue v =>
      simp only [Written, alike.holder, alike.runs, alike.answer]

omit [DecidableEq C] [DecidableEq W] in
/-- Calls change in what does not concern their functions. -/
theorem Bodies.alike (bodies : Bodies s) (pool : s'.pool = s.pool) (body : s'.body = s.body)
    (alike : ∀ c, Alike (s.call c) (s'.call c)) : Bodies s' := by
  refine ⟨?_, ?_, ?_, ?_⟩
  · intro w c runs
    rw [body, (alike c).written]
    exact bodies.written w c (pool ▸ runs)
  · intro w none
    rw [body]
    exact bodies.resting w (pool ▸ none)
  · intro c handed event apart
    rw [(alike c).written]
    exact bodies.untouched c ((alike c).handed ▸ handed) ((alike c).event ▸ event) (pool ▸ apart)
  · intro c event
    exact (alike c).full.mpr (bodies.full c ((alike c).event ▸ event))

omit [DecidableEq W] in
theorem alike_setCall (alike : Alike (s.call c) k) (d : C) :
    Alike (s.call d) ((s.setCall c k).call d) := by
  by_cases self : d = c
  · rw [self, State.setCall_call_self]
    exact alike
  · rw [State.setCall_call_other s k self]
    exact ⟨rfl, rfl, rfl, rfl, rfl⟩

omit [DecidableEq W] in
theorem Bodies.setCall (bodies : Bodies s) (alike : Alike (s.call c) k) :
    Bodies (s.setCall c k) :=
  bodies.alike rfl rfl (alike_setCall alike)

omit [DecidableEq W] in
/-- The call of a function that no thread has begun changes. -/
theorem Bodies.set_ (bodies : Bodies s) (unbegun : ∀ v, running (s.pool.worker v) ≠ some c)
    (untouched : k.handed = true → Written k .call) (event : k.event = false) :
    Bodies (s.setCall c k) := by
  refine ⟨?_, bodies.resting, ?_, ?_⟩
  · intro v d runs
    have other : d ≠ c := by
      rintro rfl
      exact unbegun v runs
    rw [State.setCall_call_other s k other]
    exact bodies.written v d runs
  · intro d handed event' apart
    by_cases self : d = c
    · rw [self, State.setCall_call_self] at handed ⊢
      exact untouched handed
    · rw [State.setCall_call_other s k self] at handed event' ⊢
      exact bodies.untouched d handed event' apart
  · intro d event'
    have other : d ≠ c := by
      rintro rfl
      rw [State.setCall_call_self, event] at event'
      cases event'
    rw [State.setCall_call_other s k other] at event' ⊢
    exact bodies.full d event'

/-- The thread that runs `c` gets on with it. -/
theorem Bodies.advance {b : Body O} (bodies : Bodies s) (placed : Placed s)
    (runs : running (s.pool.worker w) = some c) (next : Written k b)
    (event : k.event = (s.call c).event) : Bodies ((s.setCall c k).setBody w b) := by
  refine ⟨?_, ?_, ?_, ?_⟩
  · intro v d runs'
    by_cases self : d = c
    · obtain rfl : v = w := placed.unique (held_of_running runs) (self ▸ held_of_running runs')
      rw [self]
      simpa [State.setBody] using next
    · have other : v ≠ w := by
        rintro rfl
        exact self (Option.some.inj (runs'.symm.trans runs))
      simpa [State.setBody, other, State.setCall_call_other s k self] using bodies.written v d runs'
  · intro v none
    have other : v ≠ w := by
      rintro rfl
      exact absurd (none.symm.trans runs) (fun no => nomatch no)
    simpa [State.setBody, other] using bodies.resting v none
  · intro d handed event' apart
    have other : d ≠ c := by
      rintro rfl
      exact apart w runs
    rw [State.setBody_call, State.setCall_call_other s k other] at handed event' ⊢
    exact bodies.untouched d handed event' apart
  · intro d event'
    have other : d ≠ c := by
      rintro rfl
      rw [State.setBody_call, State.setCall_call_self, event] at event'
      exact placed.apart (p := .ended) runs (fun no => nomatch no) event'
    rw [State.setBody_call, State.setCall_call_other s k other] at event' ⊢
    exact bodies.full d event'

/-- The thread that runs `c` is through with it. -/
theorem Bodies.finishes {pool : BlockingPool.State C C W} (bodies : Bodies s) (placed : Placed s)
    (runs : running (s.pool.worker w) = some c) (full : Full k) (event : k.event = true)
    (taken : BlockingPool.step tmax s.pool (.worker w) = some pool) :
    Bodies ({ s.setCall c k with pool := pool }.setBody w .call) := by
  cases move_of_step taken with
  | finishes stage =>
      refine ⟨?_, ?_, ?_, ?_⟩
      · intro v d runs'
        have other : v ≠ w := by
          rintro rfl
          simp [running] at runs'
        simp only [State.setBody_pool, BlockingPool.State.setWorker_worker, other, if_false]
          at runs'
        have apart : d ≠ c := by
          rintro rfl
          exact other (placed.unique (held_of_running runs) (held_of_running runs'))
        simpa [State.setBody, other, State.setCall_call_other s k apart] using
          bodies.written v d runs'
      · intro v none
        by_cases self : v = w
        · simp [State.setBody, self]
        · simp only [State.setBody_pool, BlockingPool.State.setWorker_worker, self, if_false]
            at none
          simpa [State.setBody, self] using bodies.resting v none
      · intro d handed event' apart
        have other : d ≠ c := by
          rintro rfl
          simp [event] at event'
        simp only [State.setBody_call, State.setCall_call_other s k other] at handed event' ⊢
        refine bodies.untouched d handed event' ?_
        intro v runs'
        by_cases self : v = w
        · exact other (Option.some.inj ((self ▸ runs').symm.trans runs))
        · refine apart v ?_
          simpa [self] using runs'
      · intro d event'
        by_cases self : d = c
        · simpa [self] using full
        · simp only [State.setBody_call, State.setCall_call_other s k self] at event' ⊢
          exact bodies.full d event'
  | waits stage | expires stage | counts stage | stops stage | leaves stage =>
      rw [stage] at runs
      cases runs
  | receives stage =>
      rw [stage] at runs
      cases runs

/-- A step of the pool begins no function that has been begun. -/
theorem Bodies.pool {b : BlockingPool.Act C C W} (bodies : Bodies s) (placed : Placed s)
    (taken : poolStep tmax s b = some s') : Bodies s' := by
  -- no thread begins or ends a function
  have same : ∀ {pool : BlockingPool.State C C W},
      (∀ v, running (pool.worker v) = running (s.pool.worker v)) →
        Bodies { s with pool := pool } := by
    intro pool runs
    refine ⟨?_, ?_, ?_, bodies.full⟩
    · intro v c runs'
      exact bodies.written v c (runs v ▸ runs')
    · intro v none
      exact bodies.resting v (runs v ▸ none)
    · intro c handed event apart
      exact bodies.untouched c handed event fun v runs' => apart v ((runs v).trans runs')
  have works : ∀ {v : W} {pc : BlockingPool.WorkerPc C},
      running pc = running (s.pool.worker v) → ∀ u,
        running (Function.update s.pool.worker v pc u) = running (s.pool.worker u) := by
    intro v pc keeps u
    by_cases self : u = v
    · rw [self, Function.update_self, keeps]
    · rw [Function.update_of_ne self]
  cases b with
  | run r t => cases taken
  | call r v =>
      obtain ⟨pool, moved, rfl⟩ := Option.map_eq_some_iff.mp taken
      cases move_of_step moved with
      | loads stage | sends stage | decides stage | claims stage | unclaims stage =>
          exact same fun _ => rfl
      | starts stage absent => exact same (works (by rw [absent]; rfl))
  | worker v =>
      simp only [poolStep] at taken
      split at taken
      · cases taken
      · rename_i idle
        obtain ⟨pool, moved, rfl⟩ := Option.map_eq_some_iff.mp taken
        cases move_of_step moved with
        | waits stage | expires stage | stops stage | leaves stage =>
            exact same (works (by rw [stage]; rfl))
        | receives stage channel => exact same (works (by rw [stage]; rfl))
        | finishes stage =>
            rw [stage] at idle
            cases idle
        | counts stage =>
            rename_i t
            -- `t` is with this thread, so no other thread has begun it
            have here : s.at_ t (.held v) := by simp [State.at_, stage, held]
            have handed : ¬s.at_ t .outside := placed.settled.apart here (by rintro ⟨⟩)
            have event : ¬s.at_ t .ended := placed.settled.apart here (by rintro ⟨⟩)
            have unbegun : ∀ u, running (s.pool.worker u) ≠ some t := by
              intro u runs
              have self := placed.unique here (held_of_running runs)
              rw [self, idle] at runs
              cases runs
            have fresh := bodies.untouched t (Bool.eq_true_of_not_eq_false handed)
              (Bool.eq_false_of_not_eq_true event) unbegun
            refine ⟨?_, ?_, ?_, bodies.full⟩
            · intro u c runs
              by_cases self : u = v
              · simp only [BlockingPool.State.setWorker_worker, self, if_true, running,
                  Option.some.injEq] at runs
                rw [← runs, self, bodies.resting v idle]
                exact fresh
              · simp only [BlockingPool.State.setWorker_worker, self, if_false] at runs
                exact bodies.written u c runs
            · intro u none
              by_cases self : u = v
              · rw [self]
                exact bodies.resting v idle
              · simp only [BlockingPool.State.setWorker_worker, self, if_false] at none
                exact bodies.resting u none
            · intro c handed' event' apart
              refine bodies.untouched c handed' event' ?_
              intro u runs
              by_cases self : u = v
              · rw [self, idle] at runs
                cases runs
              · refine apart u ?_
                simpa [self] using runs

/-! ## What becomes of the answer -/

/-- Before the future is there. -/
def CallerPc.early : CallerPc → Bool
  | .outside | .submits | .spawns => true
  | _ => false

/-- `_drain` has not completed `cfut`. -/
def DrainPc.before : DrainPc O → Bool
  | .callbacks | .finished => false
  | _ => true

structure Sound (stops : Obj O → Bool) (closed : Bool) (k : Call O) : Prop where
  outside : k.caller = .outside → k = .new O
  early : k.caller.early = true → k.drain = .absent ∧ k.cfut = none
  late : k.caller.early = false → k.drain = .absent → k.handed = false ∧ k.cfut ≠ none
  unhanded : k.handed = false → k.drain = .absent ∧ k.runs = 0
  given : k.caller = .submits ∨ k.caller = .spawns → k.handed = true
  waits : k.drain = .queued ∨ k.drain = .waits → k.cfut = none
  fetched : ∀ err val, k.drain = .fetched err val →
    k.cfut = none ∧ ∃ raised, err = .bool raised ∧ k.answer = some (outcome raised val)
  done : k.drain.before = false → k.cfut ≠ none
  answered : ∀ x, k.cfut = some x → k.answer = some x
  proper : k.answer ≠ some .cancelledError
  listens : k.callback = true → k.drain ≠ .absent
  unheard : k.caller ≠ .returned → k.callback = false ∧ k.fired = 0
  direct : k.caller = .returned → k.callback = false →
    k.cfut ≠ none ∧ k.fired ≤ 1 ∧ (closed = false → k.fired = 1)
  onDone : k.caller = .onDone → k.cfut ≠ none
  watched : k.callback = true → k.fired ≤ 1 ∧ (k.drain ≠ .finished → k.fired = 0) ∧
    (k.drain = .finished → closed = false → k.fired = 1)
  handles : ∀ x, x ∈ k.handles → k.cfut = some x
  few : k.handles.length ≤ k.fired
  told : ∀ x, k.afut = .settled x → k.cfut = some x ∧ ∀ e, x = .exception e → stops e = false
  left : k.fired = 1 → k.handles = [] → k.afut = .pending →
    ∃ e, k.cfut = some (.exception e) ∧ stops e = true

theorem Sound.new : Sound stops closed (Call.new O) where
  outside _ := rfl
  early _ := ⟨rfl, rfl⟩
  late no := nomatch no
  unhanded _ := ⟨rfl, rfl⟩
  given no := by rcases no with no | no <;> cases no
  waits no := nomatch no
  fetched _ _ no := nomatch no
  done no := nomatch no
  answered _ no := nomatch no
  proper no := nomatch no
  listens no := nomatch no
  unheard _ := ⟨rfl, rfl⟩
  direct no := nomatch no
  onDone no := nomatch no
  watched no := nomatch no
  handles _ no := nomatch no
  few := Nat.le_refl _
  told _ no := nomatch no
  left no := nomatch no

/-- Closing the loop leaves less to be told. -/
theorem Sound.close (sound : Sound stops closed k) : Sound stops true k :=
  { sound with
    direct := by
      intro returned unwatched
      obtain ⟨finished, once, -⟩ := sound.direct returned unwatched
      exact ⟨finished, once, fun no => nomatch no⟩
    watched := by
      intro callback
      obtain ⟨once, before, -⟩ := sound.watched callback
      exact ⟨once, before, fun _ no => nomatch no⟩ }

/-- No handle while `cfut` runs, and nobody has been told. -/
theorem Sound.untold (sound : Sound stops closed k) (runs : k.cfut = none) :
    k.handles = [] ∧ (∀ x, k.afut ≠ .settled x) := by
  refine ⟨List.eq_nil_iff_forall_not_mem.mpr ?_, ?_⟩
  · intro x inside
    exact absurd (runs.symm.trans (sound.handles x inside)) (fun no => nomatch no)
  · intro x told
    exact absurd (runs.symm.trans (sound.told x told).1) (fun no => nomatch no)

/-- The thread of the pool writes to a call whose function has not ended before. -/
theorem Sound.called {raised : Bool} {v : Obj O} {n : Nat} (sound : Sound stops closed k)
    (handed : k.handed = true) (unanswered : k.answer = none) :
    Sound stops closed { k with runs := n, answer := some (outcome raised v) } := by
  have runs : k.cfut = none := by
    cases settled : k.cfut with
    | none => rfl
    | some x =>
        have answered := sound.answered x settled
        exact absurd (unanswered.symm.trans answered) (fun no => nomatch no)
  exact
    { sound with
      outside := by
        intro outside
        have fresh := congrArg Call.handed (sound.outside outside)
        exact absurd (handed.symm.trans fresh) (fun no => nomatch no)
      unhanded := fun no => absurd (handed.symm.trans no) (fun no => nomatch no)
      fetched := by
        intro err val stage
        obtain ⟨-, raised', -, answered⟩ := sound.fetched err val stage
        exact absurd (unanswered.symm.trans answered) (fun no => nomatch no)
      answered := fun x settled => absurd (runs.symm.trans settled) (fun no => nomatch no)
      proper := by
        unfold outcome
        split <;> exact fun no => nomatch no }

/-- `res.store` and `event.set` concern nothing but the holder and the event. -/
theorem Sound.stored {holder : Obj O × Obj O} {event : Bool} (sound : Sound stops closed k)
    (handed : k.handed = true) :
    Sound stops closed { k with holder := holder, event := event } :=
  { sound with
    outside := by
      intro outside
      have fresh := congrArg Call.handed (sound.outside outside)
      exact absurd (handed.symm.trans fresh) (fun no => nomatch no) }

/-- `_spawn_blocking` has been called. -/
theorem Sound.submits (sound : Sound stops closed k) (outside : k.caller = .outside) :
    Sound stops closed { k with caller := .submits, handed := true } := by
  have fresh := sound.outside outside
  subst fresh
  exact
    { (Sound.new : Sound stops closed (Call.new O)) with
      outside := fun no => nomatch no
      late := fun no => nomatch no
      unhanded := fun no => nomatch no
      given := fun _ => rfl
      unheard := fun _ => ⟨rfl, rfl⟩
      direct := fun no => nomatch no
      onDone := fun no => nomatch no }

/-- `_spawn_blocking` raises. -/
theorem Sound.refused {e : Obj O} (sound : Sound stops closed k) (outside : k.caller = .outside) :
    Sound stops closed { k with
      caller := .attaches
      cfut := some (.exception e)
      answer := some (.exception e) } := by
  have fresh := sound.outside outside
  subst fresh
  exact
    { (Sound.new : Sound stops closed (Call.new O)) with
      outside := fun no => nomatch no
      early := fun no => nomatch no
      late := fun _ _ => ⟨rfl, fun no => nomatch no⟩
      given := fun no => by rcases no with no | no <;> cases no
      waits := fun no => by rcases no with no | no <;> cases no
      fetched := fun _ _ no => nomatch no
      done := fun _ no => nomatch no
      answered := fun _ same => same
      proper := fun no => nomatch no
      unheard := fun _ => ⟨rfl, rfl⟩
      direct := fun no => nomatch no
      onDone := fun no => nomatch no
      handles := fun _ no => nomatch no
      told := fun _ no => nomatch no
      left := fun no => nomatch no }

/-- `_spawn_blocking` returns. -/
theorem Sound.submitted (sound : Sound stops closed k) (stage : k.caller = .submits) :
    Sound stops closed { k with caller := .spawns } := by
  have early := sound.early (by rw [stage]; rfl)
  have unheard := sound.unheard (by rw [stage]; exact fun no => nomatch no)
  exact
    { sound with
      outside := fun no => nomatch no
      early := fun _ => early
      late := fun no => nomatch no
      given := fun _ => sound.given (.inl stage)
      unheard := fun _ => unheard
      direct := fun no => nomatch no
      onDone := fun no => nomatch no }

/-- `_drain` is spawned. -/
theorem Sound.spawned (sound : Sound stops closed k) (stage : k.caller = .spawns) :
    Sound stops closed { k with caller := .attaches, drain := .queued } := by
  have handed := sound.given (.inr stage)
  have early := sound.early (by rw [stage]; rfl)
  have unheard := sound.unheard (by rw [stage]; exact fun no => nomatch no)
  exact
    { sound with
      outside := fun no => nomatch no
      early := fun no => nomatch no
      late := fun _ no => nomatch no
      unhanded := fun no => absurd (handed.symm.trans no) (fun no => nomatch no)
      given := fun _ => handed
      waits := fun _ => early.2
      fetched := fun _ _ no => nomatch no
      done := fun no => nomatch no
      listens := fun _ no => nomatch no
      unheard := fun _ => unheard
      direct := fun no => nomatch no
      onDone := fun no => nomatch no
      watched := fun callback => absurd (unheard.1.symm.trans callback) (fun no => nomatch no) }

theorem onDone_closed (k : Call O) : k.onDone true = k := by
  unfold Call.onDone
  split <;> rfl

theorem onDone_open {x : Settled O} (settled : k.cfut = some x) :
    k.onDone false = { k with handles := k.handles ++ [x], fired := k.fired + 1 } := by
  unfold Call.onDone
  rw [settled]
  rfl

/-- `_on_done` queues the one handle of a call that has none. -/
theorem Sound.fires (sound : Sound stops closed k) {x : Settled O} (settled : k.cfut = some x)
    (unfired : k.fired = 0) :
    (∀ y, y ∈ (k.onDone closed).handles → k.cfut = some y) ∧
      (k.onDone closed).handles.length ≤ (k.onDone closed).fired ∧
      (k.onDone closed).fired ≤ 1 ∧ (closed = false → (k.onDone closed).fired = 1) ∧
      ((k.onDone closed).fired = 1 → (k.onDone closed).handles ≠ []) := by
  have few := sound.few
  have empty : k.handles = [] := List.length_eq_zero_iff.mp (by omega)
  cases closed with
  | true =>
      rw [onDone_closed]
      exact ⟨sound.handles, few, by omega, fun no => absurd no.symm Bool.false_ne_true, by omega⟩
  | false =>
      rw [onDone_open settled, settled]
      simp [empty, unfired]

/-- `_on_done` changes the queue of the loop. -/
theorem onDone_keeps (k : Call O) (closed : Bool) :
    k.onDone closed =
      { k with
        handles := (k.onDone closed).handles
        fired := (k.onDone closed).fired } := by
  unfold Call.onDone
  split
  · split <;> rfl
  · rfl

/-- `add_done_callback` finds `cfut` running. -/
theorem Sound.attached (sound : Sound stops closed k) (stage : k.caller = .attaches)
    (runs : k.cfut = none) :
    Sound stops closed { k with caller := .returned, callback := true } := by
  have unheard := sound.unheard (by rw [stage]; exact fun no => nomatch no)
  have late := sound.late (by rw [stage]; rfl)
  exact
    { sound with
      outside := fun no => nomatch no
      early := fun no => nomatch no
      late := fun _ => late
      given := fun no => by rcases no with no | no <;> cases no
      listens := fun _ absent => (late absent).2 runs
      unheard := fun no => absurd rfl no
      direct := fun _ no => nomatch no
      onDone := fun no => nomatch no
      watched := by
        refine fun _ => ⟨by simp [unheard.2], fun _ => unheard.2, ?_⟩
        intro finished
        refine absurd runs (sound.done ?_)
        rw [show k.drain = .finished from finished]
        rfl }

/-- `add_done_callback` finds `cfut` done. -/
theorem Sound.direct_ (sound : Sound stops closed k) (stage : k.caller = .attaches)
    (settled : k.cfut ≠ none) : Sound stops closed { k with caller := .onDone } := by
  have unheard := sound.unheard (by rw [stage]; exact fun no => nomatch no)
  exact
    { sound with
      outside := fun no => nomatch no
      early := fun no => nomatch no
      late := fun _ => sound.late (by rw [stage]; rfl)
      given := fun no => by rcases no with no | no <;> cases no
      unheard := fun _ => unheard
      direct := fun no => nomatch no
      onDone := fun _ => settled }

/-- The caller runs `_on_done` itself. -/
theorem Sound.told_ (sound : Sound stops closed k) (stage : k.caller = .onDone) :
    Sound stops closed { k.onDone closed with caller := .returned } := by
  have unheard := sound.unheard (by rw [stage]; exact fun no => nomatch no)
  obtain ⟨x, settled⟩ := Option.ne_none_iff_exists'.mp (sound.onDone stage)
  obtain ⟨handles, few, once, fired, left⟩ := sound.fires settled unheard.2
  rw [onDone_keeps]
  exact
    { sound with
      outside := fun no => nomatch no
      early := fun no => nomatch no
      late := fun _ => sound.late (by rw [stage]; rfl)
      given := fun no => by rcases no with no | no <;> cases no
      unheard := fun no => absurd rfl no
      direct := fun _ _ => ⟨sound.onDone stage, once, fired⟩
      onDone := fun no => nomatch no
      watched := fun callback => absurd (unheard.1.symm.trans callback) (fun no => nomatch no)
      handles := handles
      few := few
      left := fun one empty => absurd empty (left one) }

/-- `_drain` begins. -/
theorem Sound.begins (sound : Sound stops closed k) (stage : k.drain = .queued) :
    Sound stops closed { k with drain := .waits } := by
  have handed : k.handed ≠ false := by
    intro no
    rw [(sound.unhanded no).1] at stage
    cases stage
  exact
    { sound with
      outside := by
        intro outside
        have fresh := congrArg Call.drain (sound.outside outside)
        rw [stage] at fresh
        cases fresh
      early := by
        intro early
        rw [(sound.early early).1] at stage
        cases stage
      late := fun _ no => nomatch no
      unhanded := fun no => absurd no handed
      listens := fun _ no => nomatch no
      waits := fun _ => sound.waits (.inl stage)
      fetched := fun _ _ no => nomatch no
      done := fun no => nomatch no
      watched := by
        intro callback
        obtain ⟨once, before, -⟩ := sound.watched callback
        refine ⟨once, fun _ => before (by rw [stage]; exact fun no => nomatch no), ?_⟩
        exact fun no => nomatch no }

/-- `_drain` is resumed and fetches what the holder has. -/
theorem Sound.fetches (sound : Sound stops closed k) (stage : k.drain = .waits) (full : Full k) :
    Sound stops closed { k with drain := .fetched k.holder.1 k.holder.2 } := by
  have handed : k.handed ≠ false := by
    intro no
    rw [(sound.unhanded no).1] at stage
    cases stage
  obtain ⟨raised, v, holder, -, answered⟩ := full
  exact
    { sound with
      outside := by
        intro outside
        have fresh := congrArg Call.drain (sound.outside outside)
        rw [stage] at fresh
        cases fresh
      early := by
        intro early
        rw [(sound.early early).1] at stage
        cases stage
      late := fun _ no => nomatch no
      unhanded := fun no => absurd no handed
      listens := fun _ no => nomatch no
      waits := fun no => by rcases no with no | no <;> cases no
      fetched := by
        intro err val same
        injection same with isErr isVal
        refine ⟨sound.waits (.inr stage), raised, ?_, ?_⟩
        · rw [← isErr, holder]
        · rw [← isVal, holder]
          exact answered
      done := fun no => nomatch no
      watched := by
        intro callback
        obtain ⟨once, before, -⟩ := sound.watched callback
        refine ⟨once, fun _ => before (by rw [stage]; exact fun no => nomatch no), ?_⟩
        exact fun no => nomatch no }

/-- `_drain` completes `cfut`. -/
theorem Sound.settles {err val : Obj O} (sound : Sound stops closed k)
    (stage : k.drain = .fetched err val) : Sound stops closed (k.settle err val) := by
  obtain ⟨runs, raised, rfl, answered⟩ := sound.fetched err val stage
  obtain ⟨empty, untold⟩ := sound.untold runs
  have handed : k.handed ≠ false := by
    intro no
    rw [(sound.unhanded no).1] at stage
    cases stage
  have same : k.settle (.bool raised) val =
      { k with drain := .callbacks, cfut := some (outcome raised val) } := by
    unfold Call.settle
    rw [runs]
    cases raised <;> rfl
  rw [same]
  exact
    { sound with
      outside := by
        intro outside
        have fresh := congrArg Call.drain (sound.outside outside)
        rw [stage] at fresh
        cases fresh
      early := by
        intro early
        rw [(sound.early early).1] at stage
        cases stage
      late := fun _ no => nomatch no
      unhanded := fun no => absurd no handed
      listens := fun _ no => nomatch no
      waits := fun no => by rcases no with no | no <;> cases no
      fetched := fun _ _ no => nomatch no
      done := fun _ no => nomatch no
      answered := by
        intro x same
        cases same
        exact answered
      direct := by
        intro returned unwatched
        exact absurd runs (sound.direct returned unwatched).1
      onDone := fun _ no => nomatch no
      watched := by
        intro callback
        obtain ⟨once, before, -⟩ := sound.watched callback
        refine ⟨once, fun _ => before (by rw [stage]; exact fun no => nomatch no), ?_⟩
        exact fun no => nomatch no
      handles := by
        intro x inside
        rw [empty] at inside
        cases inside
      told := fun x told => absurd told (untold x)
      left := by
        intro fired
        by_cases returned : k.caller = .returned
        · cases callback : k.callback with
          | false => exact absurd runs (sound.direct returned callback).1
          | true =>
              have zero := (sound.watched callback).2.1 (by rw [stage]; exact fun no => nomatch no)
              exact absurd (zero.symm.trans fired) Nat.zero_ne_one
        · exact absurd ((sound.unheard returned).2.symm.trans fired) Nat.zero_ne_one }

/-- `_drain` has run the callbacks of `cfut`. -/
theorem Sound.informs (sound : Sound stops closed k) (stage : k.drain = .callbacks) :
    Sound stops closed (if k.callback then { k.onDone closed with drain := .finished }
      else { k with drain := .finished }) := by
  have handed : k.handed ≠ false := by
    intro no
    rw [(sound.unhanded no).1] at stage
    cases stage
  have settled := sound.done (by rw [stage]; rfl)
  -- what does not depend on the callback
  have outside : k.caller ≠ .outside := by
    intro outside
    have fresh := congrArg Call.drain (sound.outside outside)
    rw [stage] at fresh
    cases fresh
  have early : k.caller.early ≠ true := by
    intro early
    rw [(sound.early early).1] at stage
    cases stage
  split
  · rename_i callback
    obtain ⟨x, isX⟩ := Option.ne_none_iff_exists'.mp settled
    have unfired := (sound.watched callback).2.1 (by rw [stage]; exact fun no => nomatch no)
    obtain ⟨handles, few, once, fired, left⟩ := sound.fires isX unfired
    rw [onDone_keeps]
    exact
      { sound with
        outside := fun no => absurd no outside
        early := fun no => absurd no early
        late := fun _ no => nomatch no
        unhanded := fun no => absurd no handed
        listens := fun _ no => nomatch no
        waits := fun no => by rcases no with no | no <;> cases no
        fetched := fun _ _ no => nomatch no
        done := fun _ => settled
        unheard := fun no => absurd ((sound.unheard no).1.symm.trans callback) Bool.false_ne_true
        direct := fun _ no => absurd (no.symm.trans callback) Bool.false_ne_true
        watched := fun _ => ⟨once, fun no => absurd rfl no, fun _ => fired⟩
        handles := handles
        few := few
        left := fun one empty => absurd empty (left one) }
  · rename_i callback
    exact
      { sound with
        outside := fun no => absurd no outside
        early := fun no => absurd no early
        late := fun _ no => nomatch no
        unhanded := fun no => absurd no handed
        listens := fun _ no => nomatch no
        waits := fun no => by rcases no with no | no <;> cases no
        fetched := fun _ _ no => nomatch no
        done := fun _ => settled
        watched := fun has => absurd has callback }

/-- How a future has come to be settled. -/
theorem settled_of_told {f : Afut O} {x y : Settled O} (told : f.told stops x = .settled y) :
    f = .settled y ∨ x = y ∧ ∀ e, x = .exception e → stops e = false := by
  cases f with
  | pending =>
      refine .inr ?_
      cases x with
      | exception e =>
          simp only [Afut.told] at told
          split at told
          · cases told
          · rename_i goes
            injection told with same
            refine ⟨same, ?_⟩
            intro e' isE
            injection isE with isE
            exact isE ▸ Bool.eq_false_of_not_eq_true goes
      | result v | cancelledError =>
          injection told with same
          exact ⟨same, fun _ no => nomatch no⟩
  | settled z => exact .inl told
  | cancelled => cases told

/-- A future that is still pending has been told of a `StopIteration`. -/
theorem stopped_of_told {f : Afut O} {x : Settled O} (told : f.told stops x = .pending) :
    ∃ e, x = .exception e ∧ stops e = true := by
  cases f with
  | pending =>
      cases x with
      | exception e =>
          simp only [Afut.told] at told
          split at told
          · rename_i stopped
            exact ⟨e, rfl, stopped⟩
          · cases told
      | result v | cancelledError => cases told
  | settled z => cases told
  | cancelled => cases told

/-- The loop runs the handle. -/
theorem Sound.handled {x : Settled O} {rest : List (Settled O)} (sound : Sound stops closed k)
    (queue : k.handles = x :: rest) :
    Sound stops closed { k with handles := rest, afut := k.afut.told stops x } := by
  have isX := sound.handles x (queue ▸ List.mem_cons_self)
  have few := sound.few
  rw [queue, List.length_cons] at few
  exact
    { sound with
      outside := by
        intro outside
        have fresh := congrArg Call.handles (sound.outside outside)
        rw [queue] at fresh
        cases fresh
      handles := fun y inside => sound.handles y (queue ▸ List.mem_cons_of_mem x inside)
      few := Nat.le_of_succ_le few
      told := by
        intro y told
        rcases settled_of_told told with before | ⟨rfl, goes⟩
        · exact sound.told y before
        · exact ⟨isX, goes⟩
      left := by
        intro fired empty pending
        obtain ⟨e, rfl, stopped⟩ := stopped_of_told pending
        exact ⟨e, isX, stopped⟩ }

/-- The future is cancelled. -/
theorem Sound.cancelled (sound : Sound stops closed k) (stage : k.caller = .returned) :
    Sound stops closed { k with afut := .cancelled } :=
  { sound with
    outside := fun outside => absurd (stage.symm.trans outside) (fun no => nomatch no)
    told := fun _ no => nomatch no
    left := fun _ _ no => nomatch no }

/-! ## Every run -/

structure Answers (stops : Obj O → Bool) (s : State C W O) : Prop where
  placed : Placed s
  bodies : Bodies s
  sound : ∀ c, Sound stops s.closed (s.call c)

omit [DecidableEq W] in
theorem sound_setCall (sound : ∀ d, Sound stops s.closed (s.call d))
    (here : Sound stops s.closed k) (d : C) : Sound stops s.closed ((s.setCall c k).call d) := by
  by_cases self : d = c
  · rw [self, State.setCall_call_self]
    exact here
  · rw [State.setCall_call_other s k self]
    exact sound d

omit [DecidableEq W] in
/-- A call changes in what does not concern its function. -/
theorem Answers.setCall (answers : Answers stops s) (alike : Alike (s.call c) k)
    (sound : Sound stops s.closed k) : Answers stops (s.setCall c k) where
  placed := answers.placed.setCall alike.handed alike.event
  bodies := answers.bodies.setCall alike
  sound := sound_setCall answers.sound sound

/-- The thread that runs `c` gets on with it. -/
theorem Answers.advance {b : Body O} (answers : Answers stops s)
    (runs : running (s.pool.worker w) = some c) (next : Written k b)
    (handed : k.handed = (s.call c).handed) (event : k.event = (s.call c).event)
    (sound : Sound stops s.closed k) : Answers stops ((s.setCall c k).setBody w b) where
  placed := (answers.placed.setCall handed event).same rfl (fun _ => rfl) (fun _ => rfl)
  bodies := answers.bodies.advance answers.placed runs next event
  sound := sound_setCall answers.sound sound

omit [DecidableEq C] [DecidableEq W] in
/-- A function that a thread runs was handed to the pool. -/
theorem Answers.handed (answers : Answers stops s) (runs : running (s.pool.worker w) = some c) :
    (s.call c).handed = true :=
  Bool.eq_true_of_not_eq_false
    (answers.placed.apart (p := .outside) runs (fun no => nomatch no))

omit [DecidableEq C] [DecidableEq W] in
/-- No thread has begun a function that was not handed to the pool. -/
theorem Answers.unbegun (answers : Answers stops s) (outside : (s.call c).handed = false) (v : W) :
    running (s.pool.worker v) ≠ some c :=
  fun runs => absurd ((answers.handed runs).symm.trans outside) (fun no => nomatch no)

theorem Answers.runs (answers : Answers stops s) (here : running (s.pool.worker w) = some c)
    (taken : runsStep tmax s w c = some s') : Answers stops s' := by
  have handed := answers.handed here
  have written := answers.bodies.written w c here
  unfold runsStep at taken
  split at taken
  · cases taken
  · rename_i raised v stage
    obtain rfl := Option.some.inj taken
    rw [stage] at written
    obtain ⟨holder, once, answered⟩ := written
    refine answers.advance here ⟨raised, ?_, once, answered⟩ rfl rfl
      ((answers.sound c).stored handed)
    rw [holder]
  · rename_i v stage
    obtain rfl := Option.some.inj taken
    rw [stage] at written
    obtain ⟨raised, holder, once, answered⟩ := written
    refine answers.advance here ⟨raised, v, ?_, once, answered⟩ rfl rfl
      ((answers.sound c).stored handed)
    rw [holder]
  · rename_i stage
    obtain ⟨pool, moved, rfl⟩ := Option.map_eq_some_iff.mp taken
    rw [stage] at written
    exact
      { placed := answers.placed.finishes here rfl rfl moved
        bodies := answers.bodies.finishes answers.placed here written rfl moved
        sound := sound_setCall answers.sound ((answers.sound c).stored handed) }

omit [DecidableEq W] in
theorem Answers.drains (answers : Answers stops s)
    (taken : (s.call c).drainStep s.closed = some k) : Answers stops (s.setCall c k) := by
  have sound := answers.sound c
  unfold Call.drainStep at taken
  split at taken
  · cases taken
  · cases taken
  · rename_i stage
    obtain rfl := Option.some.inj taken
    exact answers.setCall ⟨rfl, rfl, rfl, rfl, rfl⟩ (sound.begins stage)
  · rename_i stage
    split at taken
    · rename_i event
      obtain rfl := Option.some.inj taken
      exact answers.setCall ⟨rfl, rfl, rfl, rfl, rfl⟩
        (sound.fetches stage (answers.bodies.full c event))
    · cases taken
  · rename_i err val stage
    obtain rfl := Option.some.inj taken
    refine answers.setCall ?_ (sound.settles stage)
    unfold Call.settle
    split <;> exact ⟨rfl, rfl, rfl, rfl, rfl⟩
  · rename_i stage
    obtain rfl := Option.some.inj taken
    refine answers.setCall ?_ (sound.informs stage)
    rw [onDone_keeps]
    split <;> exact ⟨rfl, rfl, rfl, rfl, rfl⟩

theorem answers_step (answers : Answers stops s) (taken : step tmax stops s a = some s') :
    Answers stops s' := by
  cases a with
  | submit c =>
      simp only [step] at taken
      split at taken
      · rename_i stage
        obtain ⟨pool, moved, rfl⟩ := Option.map_eq_some_iff.mp taken
        have fresh := (answers.sound c).outside stage.1
        have outside : (s.call c).handed = false := by rw [fresh]; rfl
        have same : pool.worker = s.pool.worker := by
          cases move_of_step moved with
          | begins _ => rfl
        have bodies : Bodies { s with pool := pool } :=
          ⟨fun v d runs => answers.bodies.written v d (same ▸ runs),
            fun v none => answers.bodies.resting v (same ▸ none),
            fun d handed event apart => answers.bodies.untouched d handed event (same ▸ apart),
            answers.bodies.full⟩
        refine
          { placed := answers.placed.submits outside rfl rfl moved
            bodies := bodies.set_ ?_ ?_ ?_
            sound := sound_setCall (s := { s with pool := pool }) answers.sound
              ((answers.sound c).submits stage.1) }
        · exact same ▸ answers.unbegun outside
        · intro _
          rw [fresh]
          exact ⟨rfl, rfl, rfl⟩
        · rw [fresh]
          rfl
      · cases taken
  | refuse c e =>
      simp only [step] at taken
      split at taken
      · rename_i stage
        obtain rfl := Option.some.inj taken
        have fresh := (answers.sound c).outside stage.1
        have outside : (s.call c).handed = false := by rw [fresh]; rfl
        refine
          { placed := answers.placed.setCall rfl rfl
            bodies := answers.bodies.set_ (answers.unbegun outside) ?_ ?_
            sound := sound_setCall answers.sound ((answers.sound c).refused stage.1) }
        · exact fun handed => absurd (handed.symm.trans outside) (fun no => nomatch no)
        · rw [fresh]
          rfl
      · cases taken
  | pool b =>
      have kept : s'.call = s.call ∧ s'.closed = s.closed := by
        simp only [step] at taken
        unfold poolStep at taken
        split at taken
        · cases taken
        · obtain ⟨pool, -, rfl⟩ := Option.map_eq_some_iff.mp taken
          exact ⟨rfl, rfl⟩
        · split at taken
          · cases taken
          · obtain ⟨pool, -, rfl⟩ := Option.map_eq_some_iff.mp taken
            exact ⟨rfl, rfl⟩
      refine ⟨placed_pool answers.placed taken, answers.bodies.pool answers.placed taken, ?_⟩
      rw [kept.1, kept.2]
      exact answers.sound
  | spawn c =>
      simp only [step] at taken
      split at taken
      · rename_i stage
        obtain rfl := Option.some.inj taken
        exact answers.setCall ⟨rfl, rfl, rfl, rfl, rfl⟩ ((answers.sound c).submitted stage.1)
      · split at taken
        · rename_i stage
          obtain rfl := Option.some.inj taken
          exact answers.setCall ⟨rfl, rfl, rfl, rfl, rfl⟩ ((answers.sound c).spawned stage)
        · cases taken
  | attach c =>
      simp only [step] at taken
      split at taken
      · rename_i stage
        obtain rfl := Option.some.inj taken
        split
        · rename_i runs
          exact answers.setCall ⟨rfl, rfl, rfl, rfl, rfl⟩ ((answers.sound c).attached stage runs)
        · rename_i x settled
          refine answers.setCall ⟨rfl, rfl, rfl, rfl, rfl⟩ ((answers.sound c).direct_ stage ?_)
          rw [settled]
          exact fun no => nomatch no
      · cases taken
  | onDone c =>
      simp only [step] at taken
      split at taken
      · rename_i stage
        obtain rfl := Option.some.inj taken
        refine answers.setCall ?_ ((answers.sound c).told_ stage)
        rw [onDone_keeps]
        exact ⟨rfl, rfl, rfl, rfl, rfl⟩
      · cases taken
  | calls w c raised v =>
      simp only [step] at taken
      split at taken
      · rename_i stage
        split at taken
        · rename_i here
          obtain rfl := Option.some.inj taken
          have written := answers.bodies.written w c here
          rw [stage] at written
          obtain ⟨holder, unrun, unanswered⟩ := written
          refine answers.advance here ⟨holder, ?_, rfl⟩ rfl rfl
            ((answers.sound c).called (answers.handed here) unanswered)
          exact congrArg (· + 1) unrun
        · cases taken
      · cases taken
  | runs w c =>
      simp only [step] at taken
      split at taken
      · rename_i here
        exact answers.runs here taken
      · cases taken
  | drain c =>
      obtain ⟨k, moved, rfl⟩ := Option.map_eq_some_iff.mp taken
      exact answers.drains moved
  | handle c =>
      simp only [step] at taken
      split at taken
      · cases taken
      · rename_i x rest queue
        obtain rfl := Option.some.inj taken
        exact answers.setCall ⟨rfl, rfl, rfl, rfl, rfl⟩ ((answers.sound c).handled queue)
  | cancel c =>
      simp only [step] at taken
      split at taken
      · rename_i stage
        obtain rfl := Option.some.inj taken
        exact answers.setCall ⟨rfl, rfl, rfl, rfl, rfl⟩ ((answers.sound c).cancelled stage.1)
      · cases taken
  | close =>
      obtain rfl := Option.some.inj taken
      exact
        { placed := answers.placed.same rfl (fun _ => rfl) (fun _ => rfl)
          bodies := answers.bodies.alike rfl rfl (fun _ => ⟨rfl, rfl, rfl, rfl, rfl⟩)
          sound := fun c => (answers.sound c).close }

theorem answers_of_reachable (reached : (machine tmax stops C W).Reachable s) :
    Answers stops s := by
  refine reached.invariant (Answers stops) ?_ ?_
  · intro s start
    obtain ⟨⟨queue, -, -, idle, absent⟩, body, new, -⟩ := start
    refine ⟨⟨?_, queue ▸ List.nodup_nil, ?_⟩, ⟨?_, ?_, ?_, ?_⟩, fun d => new d ▸ .new⟩
    · intro d
      refine ⟨.outside, by simp [State.at_, new, Call.new], ?_⟩
      intro p at_
      cases p with
      | outside => rfl
      | unsent => simp [State.at_, idle, unsent] at at_
      | channel => simp [State.at_, queue] at at_
      | held w => simp [State.at_, absent, held] at at_
      | ended => simp [State.at_, new, Call.new] at at_
    · intro r t has
      simp [idle, unsent] at has
    · intro w d runs
      simp [absent, running] at runs
    · exact fun w _ => body w
    · intro d handed
      simp [new, Call.new] at handed
    · intro d event
      simp [new, Call.new] at event
  · intro s a s' answers _ taken
    exact answers_step answers taken

/-- A function is called once at most and the future is told once at most; what the future
is completed with is what that call returned or raised, or what `_spawn_blocking` raised. -/
theorem executor_answer (reached : (machine tmax stops C W).Reachable s) (c : C) :
    (s.call c).runs ≤ 1 ∧ (s.call c).fired ≤ 1 ∧ (s.call c).answer ≠ some .cancelledError ∧
      (∀ x, (s.call c).cfut = some x → (s.call c).answer = some x) ∧
      ∀ x, (s.call c).afut = .settled x → (s.call c).answer = some x := by
  have answers := answers_of_reachable reached
  have sound := answers.sound c
  refine ⟨?_, ?_, sound.proper, sound.answered, ?_⟩
  · cases handed : (s.call c).handed with
    | false => exact Nat.le_of_eq (sound.unhanded handed).2 |>.trans (Nat.zero_le 1)
    | true =>
        cases event : (s.call c).event with
        | true =>
            obtain ⟨-, -, -, once, -⟩ := answers.bodies.full c event
            exact Nat.le_of_eq once
        | false =>
            by_cases begun : ∃ w, running (s.pool.worker w) = some c
            · obtain ⟨w, runs⟩ := begun
              exact (answers.bodies.written w c runs).runs_le
            · have untouched := answers.bodies.untouched c handed event
                fun w runs => begun ⟨w, runs⟩
              exact untouched.runs_le
  · cases callback : (s.call c).callback with
    | true => exact (sound.watched callback).1
    | false =>
        by_cases returned : (s.call c).caller = .returned
        · exact (sound.direct returned callback).2.1
        · rw [(sound.unheard returned).2]
          exact Nat.zero_le 1
  · intro x told
    exact sound.answered x (sound.told x told).1

/-- One thread in the pool and one exception that is a `StopIteration`. -/
def isStop (e : Obj Nat) : Bool :=
  e == .other 0

def freshLoop : State Nat Nat Nat where
  pool :=
    { queue := []
      threads := 0
      load := 0
      call := fun _ => .idle
      worker := fun _ => .absent }
  body _ := .call
  call _ := .new Nat
  closed := false

theorem freshLoop_start : (machine 1 isStop Nat Nat).start freshLoop :=
  ⟨⟨rfl, rfl, rfl, fun _ => rfl, fun _ => rfl⟩, fun _ => rfl, fun _ => rfl, rfl⟩

/-- The function of call 0 is with a thread of the pool, and its caller has returned. -/
def beganRun : List (Act Nat Nat Nat) :=
  [.submit 0] ++ List.replicate 5 (.pool (.call 0 0)) ++
    [.spawn 0, .spawn 0, .drain 0, .attach 0] ++ List.replicate 3 (.pool (.worker 0))

/-- It raises; `cfut` is completed and the handle is run. -/
def raisedRun (e : Obj Nat) : List (Act Nat Nat Nat) :=
  beganRun ++ [.calls 0 0 true e, .runs 0 0, .runs 0 0, .runs 0 0, .drain 0, .drain 0, .drain 0,
    .handle 0]

theorem raisedRun_ends :
    ((machine 1 isStop Nat Nat).exec freshLoop (raisedRun (.other 7))).any (fun s =>
      decide ((s.call 0).afut = .settled (.exception (.other 7)))) = true := by
  decide +kernel

theorem executor_answer_raised :
    ∃ s : State Nat Nat Nat, (machine 1 isStop Nat Nat).Reachable s ∧
      (s.call 0).afut = .settled (.exception (.other 7)) ∧
      (s.call 0).answer = some (.exception (.other 7)) := by
  obtain ⟨s, reached, ends⟩ := Machine.Reachable.exists_of_exec freshLoop_start raisedRun_ends
  have told := of_decide_eq_true ends
  exact ⟨s, reached, told, (executor_answer reached 0).2.2.2.2 _ told⟩

end MtAsyncio.Executor
