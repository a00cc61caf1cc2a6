/-
Module: MtAsyncio.Proofs.LockOwner
Purpose: The lock has at most one owner, and is locked exactly while it has
  one.  Ownership travels through a future; a `cancel` that hits this future
  between the `done()` test and the `set_result()` of `release` breaks the
  hand-off.
Trusted boundary: none
Main exports: Owner, Queue, Owned, HandOffUndisturbed, lock_has_one_owner,
  release_raises
-/
import Mathlib.Data.List.Nodup
import MtAsyncio.Model.Lock
import MtAsyncio.Proofs.IssuedFutures

namespace MtAsyncio.Lock

open Lib (Machine)
open Tasks

variable {T F C : Type} [DecidableEq T]

/-! ## Ownership -/

/-- The future a task waits for the lock with. -/
def LockPc.futOf : LockPc F → Option F
  | .waiting f _ | .caught f => some f
  | _ => none

/-- The task was told that it has the lock and has not given it up. -/
def LockPc.holds : LockPc F → Bool
  | .holding | .entering | .popping | .setting _ => true
  | _ => false

/-- The task is inside of the locked section of `release`. -/
def LockPc.critical : LockPc F → Bool
  | .popping | .setting _ => true
  | _ => false

/-- A counter behind which the event was seen set. -/
def resumed : AwaitPc → Bool
  | .disarm | .ready | .read => true
  | _ => false

def Owns (state : Ref T F → FutState) (pc : LockPc F) : Prop :=
  pc.holds = true ∨ ∃ f, pc.futOf = some f ∧ state (.fut f) = .finished

/-- The `acquire` of `t` returned, or its future was granted, and it has not
released. -/
def Owner (s : State T F C) (t : T) : Prop :=
  Owns s.kernel.state (s.task t)

/-- `release` is in progress. -/
def Releasing (s : State T F C) (t : T) : Prop :=
  s.task t = .entering ∨ (s.task t).critical = true

/-! ## The invariant -/

/-- The queue, the futures in it and the section under `_mu`. -/
structure Queue (s : State T F C) : Prop where
  fence : ∀ r, s.kernel.event r = true → s.kernel.state r ≠ .pending
  resumed : ∀ t f pc, s.task t = .waiting f pc → resumed pc = true →
    s.kernel.event (.fut f) = true
  fresh : ∀ f, s.issued f = true → s.kernel.created f = true
  notFailed : ∀ f, s.issued f = true → s.kernel.state (.fut f) ≠ .failed
  made : ∀ t f, (s.task t).futOf = some f → s.issued f = true
  apart : ∀ t u f, (s.task t).futOf = some f → (s.task u).futOf = some f → t = u
  queued : ∀ f, f ∈ s.waiters → ∃ t, (s.task t).futOf = some f
  nodup : s.waiters.Nodup
  ungranted : ∀ f, f ∈ s.waiters → s.kernel.state (.fut f) ≠ .finished
  live : ∀ t f, (s.task t).futOf = some f → s.kernel.state (.fut f) = .pending →
    f ∈ s.waiters ∨ ∃ u, s.task u = .setting f
  handing : ∀ u f, s.task u = .setting f →
    s.kernel.state (.fut f) = .pending ∧ f ∉ s.waiters ∧ ∃ t, (s.task t).futOf = some f
  critical : ∀ t, (s.task t).critical = true ↔ s.mu = some t

structure Owned (s : State T F C) : Prop where
  unique : ∀ t u, Owner s t → Owner s u → t = u
  locked : s.locked = true ↔ ∃ t, Owner s t
  empty : s.locked = false → s.waiters = []
  quiet : ∀ t, s.task t ≠ .raised

/-- The states of the lock's own futures stay, but for cancels that hit no
hand-off. -/
def Undisturbed (s : State T F C) (k' : Kernel T F C) : Prop :=
  ∀ f, s.issued f = true → k'.state (.fut f) = s.kernel.state (.fut f) ∨
    (s.kernel.state (.fut f) = .pending ∧ k'.state (.fut f) = .cancelled ∧
      ∀ u, s.task u ≠ .setting f)

omit [DecidableEq T] in
theorem Undisturbed.of_same {s : State T F C} {k' : Kernel T F C}
    (same : k'.state = s.kernel.state) : Undisturbed s k' :=
  fun _ _ => .inl (congrFun same _)

omit [DecidableEq T] in
theorem Undisturbed.pending {s : State T F C} {k' : Kernel T F C} (kept : Undisturbed s k')
    {f : F} (made : s.issued f = true) (pending : k'.state (.fut f) = .pending) :
    s.kernel.state (.fut f) = .pending := by
  rcases kept f made with same | ⟨before, -, -⟩
  · rwa [same] at pending
  · exact before

omit [DecidableEq T] in
theorem Undisturbed.finished {s : State T F C} {k' : Kernel T F C} (kept : Undisturbed s k')
    {f : F} (made : s.issued f = true) :
    k'.state (.fut f) = .finished ↔ s.kernel.state (.fut f) = .finished := by
  rcases kept f made with same | ⟨before, after, -⟩
  · rw [same]
  · simp [before, after]

omit [DecidableEq T] in
/-- A step that gives no task another future and moves nothing in the queue. -/
theorem Queue.stay {s s' : State T F C} (queue : Queue s)
    (fence : ∀ r, s'.kernel.event r = true → s'.kernel.state r ≠ .pending)
    (created : ∀ f, s.issued f = true → s'.kernel.created f = true)
    (kept : Undisturbed s s'.kernel) (issued : s'.issued = s.issued)
    (waiters : s'.waiters = s.waiters)
    (futures : ∀ t, (s'.task t).futOf = (s.task t).futOf)
    (setting : ∀ t f, s'.task t = .setting f ↔ s.task t = .setting f)
    (critical : ∀ t, (s'.task t).critical = true ↔ s'.mu = some t)
    (resumes : ∀ t f pc, s'.task t = .waiting f pc → Lock.resumed pc = true →
      s'.kernel.event (.fut f) = true) : Queue s' where
  fence := fence
  resumed := resumes
  fresh := by
    rw [issued]
    exact created
  notFailed := by
    intro f made failed
    rw [issued] at made
    rcases kept f made with same | ⟨-, after, -⟩
    · exact queue.notFailed f made (same ▸ failed)
    · rw [after] at failed
      cases failed
  made := by
    intro t f future
    rw [futures] at future
    rw [issued]
    exact queue.made t f future
  apart := by
    intro t u f
    rw [futures, futures]
    exact queue.apart t u f
  queued := by
    intro f member
    rw [waiters] at member
    obtain ⟨t, future⟩ := queue.queued f member
    exact ⟨t, (futures t).trans future⟩
  nodup := waiters ▸ queue.nodup
  ungranted := by
    intro f member granted
    rw [waiters] at member
    obtain ⟨t, future⟩ := queue.queued f member
    exact queue.ungranted f member ((kept.finished (queue.made t f future)).mp granted)
  live := by
    intro t f future pending
    rw [futures] at future
    rw [waiters]
    rcases queue.live t f future (kept.pending (queue.made t f future) pending) with
      member | ⟨u, handing⟩
    · exact .inl member
    · exact .inr ⟨u, (setting u f).mpr handing⟩
  handing := by
    intro u f handing
    obtain ⟨pending, out, t, future⟩ := queue.handing u f ((setting u f).mp handing)
    refine ⟨?_, by rwa [waiters], t, (futures t).trans future⟩
    rcases kept f (queue.made t f future) with same | ⟨-, -, free⟩
    · rw [same, pending]
    · exact absurd ((setting u f).mp handing) (free u)
  critical := critical

omit [DecidableEq T] in
theorem Queue.critical_only {s : State T F C} (queue : Queue s) (free : s.mu = none) (t : T) :
    (s.task t).critical = false := by
  by_contra inside
  have held := (queue.critical t).mp (Bool.not_eq_false _ ▸ inside)
  rw [free] at held
  cases held

/-- A task moves on in the lock's code, keeps its future and hands nothing over;
it may take or leave the locked section on the way. -/
theorem Queue.moved {s : State T F C} (queue : Queue s) {t : T} {pc : LockPc F} {locked : Bool}
    {mu : Option T} (futures : pc.futOf = (s.task t).futOf) (before : ∀ f, s.task t ≠ .setting f)
    (after : ∀ f, pc ≠ .setting f) (critical : pc.critical = true ↔ mu = some t)
    (others : ∀ u, u ≠ t → ((s.task u).critical = true ↔ mu = some u))
    (resumes : ∀ f apc, pc = .waiting f apc → Lock.resumed apc = true →
      s.kernel.event (.fut f) = true) :
    Queue ({ s with locked := locked, mu := mu }.setTask t pc) := by
  refine queue.stay queue.fence queue.fresh (.of_same rfl) rfl rfl ?_ ?_ ?_ ?_
  · intro u
    by_cases self : u = t
    · subst self
      simpa only [State.setTask, Function.update_self] using futures
    · simp only [State.setTask, Function.update_of_ne self]
  · intro u f
    by_cases self : u = t
    · subst self
      simp only [State.setTask, Function.update_self]
      exact ⟨fun handing => absurd handing (after f), fun handing => absurd handing (before f)⟩
    · simp only [State.setTask, Function.update_of_ne self]
  · intro u
    by_cases self : u = t
    · subst self
      simpa only [State.setTask, Function.update_self] using critical
    · simp only [State.setTask, Function.update_of_ne self]
      exact others u self
  · intro u f apc at_ past
    by_cases self : u = t
    · subst self
      simp only [State.setTask, Function.update_self] at at_
      exact resumes f apc at_ past
    · simp only [State.setTask, Function.update_of_ne self] at at_
      exact queue.resumed u f apc at_ past

/-- A task outside of the locked section moves within or out of the lock's
code and keeps its future. -/
theorem Queue.setTask {s : State T F C} (queue : Queue s) {t : T} {pc : LockPc F}
    (futures : pc.futOf = (s.task t).futOf) (before : (s.task t).critical = false)
    (after : pc.critical = false)
    (resumes : ∀ f apc, pc = .waiting f apc → Lock.resumed apc = true →
      s.kernel.event (.fut f) = true) : Queue (s.setTask t pc) := by
  have out : s.mu ≠ some t := by
    intro held
    rw [(queue.critical t).mpr held] at before
    cases before
  refine queue.moved futures ?_ ?_ (by simp [after, out]) (fun u _ => queue.critical u) resumes
  · intro f handing
    rw [handing] at before
    cases before
  · rintro f rfl
    cases after

/-- A task lets go of its future, which is granted, cancelled or taken out of
the queue. -/
theorem Queue.drop [DecidableEq F] {s : State T F C} (queue : Queue s) {t : T} {f : F}
    {pc : LockPc F} (future : (s.task t).futOf = some f)
    (settled : f ∉ s.waiters → s.kernel.state (.fut f) ≠ .pending)
    (next : pc.futOf = none) (after : pc.critical = false) :
    Queue ({ s with waiters := s.waiters.erase f }.setTask t pc) := by
  have elsewhere : ∀ u g, ((Function.update s.task t pc) u).futOf = some g →
      u ≠ t ∧ (s.task u).futOf = some g := by
    intro u g future'
    by_cases self : u = t
    · subst self
      rw [Function.update_self, next] at future'
      cases future'
    · rw [Function.update_of_ne self] at future'
      exact ⟨self, future'⟩
  have keeps : ∀ u g, g ≠ f → (s.task u).futOf = some g →
      ((Function.update s.task t pc) u).futOf = some g := by
    intro u g other future'
    have self : u ≠ t := by
      rintro rfl
      rw [future] at future'
      cases future'
      exact other rfl
    rwa [Function.update_of_ne self]
  have handed : ∀ u g, (Function.update s.task t pc) u = .setting g → s.task u = .setting g := by
    intro u g handing
    by_cases self : u = t
    · subst self
      rw [Function.update_self] at handing
      rw [handing] at after
      cases after
    · rwa [Function.update_of_ne self] at handing
  refine ⟨queue.fence, ?_, queue.fresh, queue.notFailed, ?_, ?_, ?_, queue.nodup.erase f, ?_, ?_,
    ?_, ?_⟩
  · intro u g apc at_ past
    have self : u ≠ t := by
      rintro rfl
      simp only [State.setTask, Function.update_self] at at_
      rw [at_] at next
      cases next
    simp only [State.setTask, Function.update_of_ne self] at at_
    exact queue.resumed u g apc at_ past
  · intro u g future'
    exact queue.made u g (elsewhere u g future').2
  · intro u v g first second
    exact queue.apart u v g (elsewhere u g first).2 (elsewhere v g second).2
  · intro g member
    have other : g ≠ f := fun same => queue.nodup.not_mem_erase (same ▸ member)
    obtain ⟨u, future'⟩ := queue.queued g (List.mem_of_mem_erase member)
    exact ⟨u, keeps u g other future'⟩
  · intro g member
    exact queue.ungranted g (List.mem_of_mem_erase member)
  · intro u g future' pending
    obtain ⟨self, before⟩ := elsewhere u g future'
    rcases queue.live u g before pending with member | ⟨v, handing⟩
    · refine .inl ((List.mem_erase_of_ne ?_).mpr member)
      rintro rfl
      exact self (queue.apart u t g before future)
    · refine .inr ⟨v, ?_⟩
      have other : v ≠ t := by
        rintro rfl
        rw [handing] at future
        cases future
      simp only [State.setTask, Function.update_of_ne other, handing]
  · intro u g handing
    obtain ⟨pending, out, v, future'⟩ := queue.handing u g (handed u g handing)
    refine ⟨pending, fun member => out (List.mem_of_mem_erase member), v, keeps v g ?_ future'⟩
    rintro rfl
    exact settled out pending
  · intro u
    by_cases self : u = t
    · subst self
      have before : (s.task u).critical = false := by
        cases at_ : s.task u <;> first | rfl | (rw [at_] at future; cases future)
      have out : s.mu ≠ some u := fun held => by
        rw [(queue.critical u).mpr held] at before
        cases before
      simp [State.setTask, after, out]
    · simp only [State.setTask, Function.update_of_ne self]
      exact queue.critical u

/-- `release` takes `_mu`. -/
theorem Queue.enter {s : State T F C} (queue : Queue s) {t : T} (free : s.mu = none)
    (at_ : s.task t = .entering) : Queue ({ s with mu := some t }.setTask t .popping) := by
  refine queue.moved (by rw [at_]; rfl) ?_ (by rintro f ⟨⟩) (by simp [LockPc.critical]) ?_
    (by rintro f apc ⟨⟩)
  · intro f
    rw [at_]
    rintro ⟨⟩
  · intro u self
    simp [queue.critical_only free u, Ne.symm self]

/-- `release` finds nobody waiting and unlocks. -/
theorem Queue.unlock {s : State T F C} (queue : Queue s) {t : T} (at_ : s.task t = .popping) :
    Queue ({ s with locked := false, mu := none }.setTask t .outside) := by
  have held : s.mu = some t := (queue.critical t).mp (by rw [at_]; rfl)
  refine queue.moved (by rw [at_]; rfl) ?_ (by rintro f ⟨⟩) (by simp [LockPc.critical]) ?_
    (by rintro f apc ⟨⟩)
  · intro f
    rw [at_]
    rintro ⟨⟩
  · intro u self
    simp [queue.critical u, held, Ne.symm self]

/-- `release` pops the first waiter and looks whether it is done. -/
theorem Queue.pop {s : State T F C} (queue : Queue s) {t : T} {f : F} {rest : List F}
    (at_ : s.task t = .popping) (first : s.waiters = f :: rest) :
    Queue ({ s with waiters := rest }.setTask t
      (if s.kernel.state (.fut f) = FutState.pending then .setting f else .popping)) := by
  have held : s.mu = some t := (queue.critical t).mp (by rw [at_]; rfl)
  have nodup := queue.nodup
  rw [first, List.nodup_cons] at nodup
  -- the releasing task waits with no future, before and after
  have futures : ∀ u, ((Function.update s.task t
      (if s.kernel.state (.fut f) = FutState.pending then LockPc.setting f else .popping)) u).futOf
        =
        (s.task u).futOf := by
    intro u
    by_cases self : u = t
    · subst self
      rw [Function.update_self, at_]
      split <;> rfl
    · rw [Function.update_of_ne self]
  -- nobody else is in the locked section
  have others : ∀ u g, u ≠ t → s.task u ≠ .setting g := by
    intro u g other handing
    have holds : s.mu = some u := (queue.critical u).mp (by rw [handing]; rfl)
    rw [held] at holds
    cases holds
    exact other rfl
  refine ⟨queue.fence, ?_, queue.fresh, queue.notFailed, ?_, ?_, ?_, nodup.2, ?_, ?_, ?_, ?_⟩
  · intro u g apc at' past
    by_cases self : u = t
    · subst self
      simp only [State.setTask, Function.update_self] at at'
      split at at' <;> cases at'
    · simp only [State.setTask, Function.update_of_ne self] at at'
      exact queue.resumed u g apc at' past
  · intro u g future
    exact queue.made u g ((futures u).symm.trans future)
  · intro u v g one two
    exact queue.apart u v g ((futures u).symm.trans one) ((futures v).symm.trans two)
  · intro g member
    obtain ⟨u, future⟩ := queue.queued g (first ▸ List.mem_cons_of_mem _ member)
    exact ⟨u, (futures u).trans future⟩
  · intro g member
    exact queue.ungranted g (first ▸ List.mem_cons_of_mem _ member)
  · intro u g future pending
    rcases queue.live u g ((futures u).symm.trans future) pending with member | ⟨v, handing⟩
    · rw [first] at member
      rcases List.mem_cons.mp member with rfl | member
      · refine .inr ⟨t, ?_⟩
        simp only [State.setTask, Function.update_self]
        exact if_pos pending
      · exact .inl member
    · by_cases self : v = t
      · rw [self, at_] at handing
        cases handing
      · exact absurd handing (others v g self)
  · intro u g handing
    by_cases self : u = t
    · subst self
      simp only [State.setTask, Function.update_self] at handing
      split at handing
      · rename_i pending
        cases handing
        obtain ⟨v, future⟩ := queue.queued f (first ▸ List.mem_cons_self)
        exact ⟨pending, nodup.1, v, (futures v).trans future⟩
      · cases handing
    · simp only [State.setTask, Function.update_of_ne self] at handing
      exact absurd handing (others u g self)
  · intro u
    by_cases self : u = t
    · subst self
      simp only [State.setTask, Function.update_self, held, iff_true]
      split <;> rfl
    · simp only [State.setTask, Function.update_of_ne self]
      exact queue.critical u

/-- `set_result` grants the lock. -/
theorem Queue.grant [DecidableEq F] {s : State T F C} (queue : Queue s) {t : T} {f : F}
    (at_ : s.task t = .setting f) :
    Queue ({ s with kernel := s.kernel.setState (.fut f) .finished, mu := none }.setTask t
      .outside) := by
  have held : s.mu = some t := (queue.critical t).mp (by rw [at_]; rfl)
  obtain ⟨pending, out, waiter, future⟩ := queue.handing t f at_
  have futures : ∀ u, ((Function.update s.task t LockPc.outside) u).futOf = (s.task u).futOf := by
    intro u
    by_cases self : u = t
    · subst self
      rw [Function.update_self, at_]
      rfl
    · rw [Function.update_of_ne self]
  have others : ∀ u g, (Function.update s.task t LockPc.outside) u ≠ .setting g := by
    intro u g handing
    by_cases self : u = t
    · subst self
      rw [Function.update_self] at handing
      cases handing
    · rw [Function.update_of_ne self] at handing
      have holds : s.mu = some u := (queue.critical u).mp (by rw [handing]; rfl)
      rw [held] at holds
      cases holds
      exact self rfl
  have unchanged : ∀ g, g ≠ f → (Function.update s.kernel.state (.fut f) .finished) (.fut g) =
      s.kernel.state (.fut g) :=
    fun g other => Function.update_of_ne (fun same => other (Ref.fut.inj same)) _ _
  refine ⟨?_, ?_, queue.fresh, ?_, ?_, ?_, ?_, queue.nodup, ?_, ?_, ?_, ?_⟩
  · intro r set
    by_cases self : r = .fut f
    · simp [State.setTask, Kernel.setState, self]
    · simp only [State.setTask, Kernel.setState, Function.update_of_ne self]
      exact queue.fence r set
  · intro u g apc at' past
    by_cases self : u = t
    · subst self
      simp [State.setTask] at at'
    · simp only [State.setTask, Function.update_of_ne self] at at'
      exact queue.resumed u g apc at' past
  · intro g made
    by_cases self : g = f
    · simp [State.setTask, Kernel.setState, self]
    · simp only [State.setTask, Kernel.setState, unchanged g self]
      exact queue.notFailed g made
  · intro u g future'
    exact queue.made u g ((futures u).symm.trans future')
  · intro u v g one two
    exact queue.apart u v g ((futures u).symm.trans one) ((futures v).symm.trans two)
  · intro g member
    obtain ⟨u, future'⟩ := queue.queued g member
    exact ⟨u, (futures u).trans future'⟩
  · intro g member
    have other : g ≠ f := fun same => out (same ▸ member)
    simp only [State.setTask, Kernel.setState, unchanged g other]
    exact queue.ungranted g member
  · intro u g future' pending'
    by_cases self : g = f
    · simp [State.setTask, Kernel.setState, self] at pending'
    · simp only [State.setTask, Kernel.setState, unchanged g self] at pending'
      rcases queue.live u g ((futures u).symm.trans future') pending' with member | ⟨v, handing⟩
      · exact .inl member
      · have holds : s.mu = some v := (queue.critical v).mp (by rw [handing]; rfl)
        rw [held] at holds
        cases holds
        rw [at_] at handing
        cases handing
        exact absurd rfl self
  · intro u g handing
    exact absurd handing (others u g)
  · intro u
    by_cases self : u = t
    · subst self
      simp [State.setTask, LockPc.critical]
    · have inside := queue.critical u
      simp [State.setTask, Function.update_of_ne self, inside, held, Ne.symm self]

/-- `acquire` queues a new future. -/
theorem Queue.enqueue [DecidableEq F] {s : State T F C} (queue : Queue s) {t : T} {f : F}
    (at_ : s.task t = .outside) (fresh : s.kernel.created f = false) :
    Queue ({ s with
      kernel := s.kernel.create f
      waiters := s.waiters ++ [f]
      issued := Function.update s.issued f true }.setTask t (.waiting f .test)) := by
  have unissued : s.issued f = false := by
    by_contra made
    rw [queue.fresh f (Bool.not_eq_false _ ▸ made)] at fresh
    cases fresh
  -- an old future of a task is not the new one
  have older : ∀ u g, (s.task u).futOf = some g → g ≠ f := by
    rintro u g future rfl
    rw [queue.made u g future] at unissued
    cases unissued
  have futures : ∀ u g, ((Function.update s.task t (LockPc.waiting f .test)) u).futOf = some g →
      u = t ∧ g = f ∨ u ≠ t ∧ (s.task u).futOf = some g ∧ g ≠ f := by
    intro u g future
    by_cases self : u = t
    · subst self
      rw [Function.update_self] at future
      cases future
      exact .inl ⟨rfl, rfl⟩
    · rw [Function.update_of_ne self] at future
      exact .inr ⟨self, future, older u g future⟩
  have keeps : ∀ u g, (s.task u).futOf = some g →
      ((Function.update s.task t (LockPc.waiting f .test)) u).futOf = some g := by
    intro u g future
    have self : u ≠ t := by
      rintro rfl
      rw [at_] at future
      cases future
    rwa [Function.update_of_ne self]
  have states : ∀ g, g ≠ f → (s.kernel.create f).state (.fut g) = s.kernel.state (.fut g) :=
    fun g other => Function.update_of_ne (fun same => other (Ref.fut.inj same)) _ _
  have queuedOld : ∀ g, g ∈ s.waiters → g ≠ f := by
    intro g member
    obtain ⟨u, future⟩ := queue.queued g member
    exact older u g future
  have handed : ∀ u g, (Function.update s.task t (LockPc.waiting f .test)) u = .setting g ↔
      s.task u = .setting g := by
    intro u g
    by_cases self : u = t
    · subst self
      simp [at_]
    · rw [Function.update_of_ne self]
  refine ⟨?_, ?_, ?_, ?_, ?_, ?_, ?_, ?_, ?_, ?_, ?_, ?_⟩
  · intro r set
    by_cases self : r = .fut f
    · simp [State.setTask, Kernel.create, self] at set
    · simp only [State.setTask, Kernel.create, Function.update_of_ne self] at set ⊢
      exact queue.fence r set
  · intro u g apc at' past
    by_cases self : u = t
    · subst self
      simp only [State.setTask, Function.update_self, LockPc.waiting.injEq] at at'
      rw [← at'.2] at past
      cases past
    · simp only [State.setTask, Function.update_of_ne self] at at'
      have other : g ≠ f := older u g (by rw [at']; rfl)
      simp only [State.setTask, Kernel.create,
        Function.update_of_ne (fun same => other (Ref.fut.inj same) : Ref.fut g ≠ .fut f)]
      exact queue.resumed u g apc at' past
  · intro g made
    by_cases self : g = f
    · simp [State.setTask, Kernel.create, self]
    · simp only [State.setTask, Kernel.create, Function.update_of_ne self] at made ⊢
      exact queue.fresh g made
  · intro g made
    by_cases self : g = f
    · simp [State.setTask, Kernel.create, self]
    · simp only [State.setTask, Function.update_of_ne self] at made
      simp only [State.setTask, states g self]
      exact queue.notFailed g made
  · intro u g future
    rcases futures u g future with ⟨-, rfl⟩ | ⟨-, future, other⟩
    · exact Function.update_self ..
    · simp only [State.setTask, Function.update_of_ne other]
      exact queue.made u g future
  · intro u v g one two
    rcases futures u g one with ⟨rfl, rfl⟩ | ⟨-, one, other⟩
    · rcases futures v g two with ⟨rfl, -⟩ | ⟨-, -, other⟩
      · rfl
      · exact absurd rfl other
    · rcases futures v g two with ⟨-, rfl⟩ | ⟨-, two, -⟩
      · exact absurd rfl other
      · exact queue.apart u v g one two
  · intro g member
    rcases List.mem_append.mp member with member | member
    · obtain ⟨u, future⟩ := queue.queued g member
      exact ⟨u, keeps u g future⟩
    · rw [List.mem_singleton] at member
      subst member
      exact ⟨t, by simp only [State.setTask, Function.update_self]; rfl⟩
  · refine List.nodup_append.mpr ⟨queue.nodup, List.nodup_singleton f, ?_⟩
    intro g member g' member'
    rw [List.mem_singleton] at member'
    exact member' ▸ queuedOld g member
  · intro g member
    rcases List.mem_append.mp member with member | member
    · simp only [State.setTask, states g (queuedOld g member)]
      exact queue.ungranted g member
    · rw [List.mem_singleton] at member
      simp [State.setTask, Kernel.create, member]
  · intro u g future pending
    rcases futures u g future with ⟨-, rfl⟩ | ⟨-, future, other⟩
    · exact .inl (List.mem_append_right _ (List.mem_singleton_self g))
    · simp only [State.setTask, states g other] at pending
      rcases queue.live u g future pending with member | ⟨v, handing⟩
      · exact .inl (List.mem_append_left _ member)
      · exact .inr ⟨v, (handed v g).mpr handing⟩
  · intro u g handing
    obtain ⟨pending, out, v, future⟩ := queue.handing u g ((handed u g).mp handing)
    have other := older v g future
    refine ⟨(states g other).trans pending, fun member => ?_, v, keeps v g future⟩
    rcases List.mem_append.mp member with member | member
    · exact out member
    · exact other (List.mem_singleton.mp member)
  · intro u
    by_cases self : u = t
    · subst self
      have out : s.mu ≠ some u := fun held => by
        have inside := (queue.critical u).mpr held
        rw [at_] at inside
        cases inside
      simp [State.setTask, LockPc.critical, out]
    · simp only [State.setTask, Function.update_of_ne self]
      exact queue.critical u

/-! ## Who owns the lock -/

omit [DecidableEq T] in
theorem Owned.stay {s s' : State T F C} (owned : Owned s)
    (owner : ∀ u, Owner s' u ↔ Owner s u) (locked : s'.locked = s.locked)
    (empty : s'.locked = false → s'.waiters = []) (quiet : ∀ u, s'.task u ≠ .raised) :
    Owned s' where
  unique := by
    intro t u
    rw [owner, owner]
    exact owned.unique t u
  locked := by
    rw [locked, owned.locked]
    exact exists_congr fun t => (owner t).symm
  empty := empty
  quiet := quiet

/-- A task moves between counters with the same claim to the lock. -/
theorem Owned.setTask {s : State T F C} (owned : Owned s) {t : T} {pc : LockPc F}
    {waiters : List F} (mu : Option T)
    (same : Owns s.kernel.state pc ↔ Owns s.kernel.state (s.task t))
    (empty : s.waiters = [] → waiters = []) (quiet : pc ≠ .raised) :
    Owned ({ s with waiters := waiters, mu := mu }.setTask t pc) := by
  refine owned.stay (fun u => ?_) rfl (fun unlocked => empty (owned.empty unlocked)) fun u => ?_
  · by_cases self : u = t
    · subst self
      simpa only [Owner, State.setTask, Function.update_self] using same
    · simp only [Owner, State.setTask, Function.update_of_ne self]
  · by_cases self : u = t
    · subst self
      simpa only [State.setTask, Function.update_self] using quiet
    · simp only [State.setTask, Function.update_of_ne self]
      exact owned.quiet u

/-- The lock is given to `t`, which had no claim, while nobody has it. -/
theorem Owned.take {s : State T F C} (owned : Owned s) {t : T}
    (unlocked : s.locked = false) : Owned ({ s with locked := true }.setTask t .holding) := by
  have free : ∀ u, ¬ Owner s u := fun u owner => by
    rw [owned.locked.mpr ⟨u, owner⟩] at unlocked
    cases unlocked
  have only : ∀ u, Owner ({ s with locked := true }.setTask t .holding) u → u = t := by
    intro u owner
    by_contra self
    simp only [Owner, State.setTask, Function.update_of_ne self] at owner
    exact free u owner
  refine ⟨fun u v one two => (only u one).trans (only v two).symm, ?_, by rintro ⟨⟩, fun u => ?_⟩
  · refine iff_of_true rfl ⟨t, .inl ?_⟩
    simp only [State.setTask, Function.update_self]
    rfl
  · by_cases self : u = t
    · subst self
      simp [State.setTask]
    · simp only [State.setTask, Function.update_of_ne self]
      exact owned.quiet u

/-- The owner gives the lock up with nobody waiting. -/
theorem Owned.unlock {s : State T F C} (owned : Owned s) {t : T}
    (owner : Owner s t) (nobody : s.waiters = []) :
    Owned ({ s with locked := false, mu := none }.setTask t .outside) := by
  have free : ∀ u, ¬ Owner ({ s with locked := false, mu := none }.setTask t .outside) u := by
    intro u owner'
    by_cases self : u = t
    · subst self
      simp [Owner, Owns, State.setTask, LockPc.holds, LockPc.futOf] at owner'
    · simp only [Owner, State.setTask, Function.update_of_ne self] at owner'
      exact self (owned.unique u t owner' owner)
  refine ⟨fun u _ one => absurd one (free u), ?_, fun _ => nobody, fun u => ?_⟩
  · exact iff_of_false (by rintro ⟨⟩) (not_exists.mpr free)
  · by_cases self : u = t
    · subst self
      simp [State.setTask]
    · simp only [State.setTask, Function.update_of_ne self]
      exact owned.quiet u

/-- The owner hands the lock to the task that waits with `f`. -/
theorem Owned.grant [DecidableEq F] {s : State T F C} (owned : Owned s) (queue : Queue s) {t : T}
    {f : F} (at_ : s.task t = .setting f) :
    Owned ({ s with kernel := s.kernel.setState (.fut f) .finished, mu := none }.setTask t
      .outside) := by
  obtain ⟨-, -, waiter, future⟩ := queue.handing t f at_
  have owner : Owner s t := .inl (by rw [at_]; rfl)
  have other : waiter ≠ t := by
    rintro rfl
    rw [at_] at future
    cases future
  have only : ∀ u, Owner ({ s with
      kernel := s.kernel.setState (.fut f) .finished, mu := none }.setTask t .outside) u →
        u = waiter := by
    intro u owner'
    by_cases self : u = t
    · subst self
      simp [Owner, Owns, State.setTask, LockPc.holds, LockPc.futOf] at owner'
    · simp only [Owner, State.setTask, Function.update_of_ne self] at owner'
      rcases owner' with holds | ⟨g, future', granted⟩
      · exact absurd (owned.unique u t (.inl holds) owner) self
      · by_cases same : g = f
        · subst same
          exact queue.apart u waiter g future' future
        · have before : s.kernel.state (.fut g) = .finished := by
            simpa only [Kernel.setState,
              Function.update_of_ne (fun eq => same (Ref.fut.inj eq) : Ref.fut g ≠ .fut f)]
              using granted
          exact absurd (owned.unique u t (.inr ⟨g, future', before⟩) owner) self
  have locked : s.locked = true := owned.locked.mpr ⟨t, owner⟩
  refine ⟨fun u v one two => (only u one).trans (only v two).symm, ?_, ?_, fun u => ?_⟩
  · refine iff_of_true locked ⟨waiter, .inr ⟨f, ?_, ?_⟩⟩
    · simp only [State.setTask, Function.update_of_ne other]
      exact future
    · simp [State.setTask, Kernel.setState]
  · intro unlocked
    simp only [State.setTask, locked] at unlocked
    cases unlocked
  · by_cases self : u = t
    · subst self
      simp [State.setTask]
    · simp only [State.setTask, Function.update_of_ne self]
      exact owned.quiet u

/-- `acquire` queues a task behind the owner. -/
theorem Owned.enqueue [DecidableEq F] {s : State T F C} (owned : Owned s) (queue : Queue s) {t : T}
    {f : F} (at_ : s.task t = .outside) (fresh : s.kernel.created f = false)
    (busy : ¬ (s.locked = false ∧ s.waiters = [])) :
    Owned ({ s with
      kernel := s.kernel.create f
      waiters := s.waiters ++ [f]
      issued := Function.update s.issued f true }.setTask t (.waiting f .test)) := by
  have locked : s.locked = true := by
    by_contra unlocked
    rw [Bool.not_eq_true] at unlocked
    exact busy ⟨unlocked, owned.empty unlocked⟩
  refine owned.stay (fun u => ?_) rfl ?_ fun u => ?_
  · by_cases self : u = t
    · subst self
      simp [Owner, Owns, State.setTask, at_, LockPc.holds, LockPc.futOf, Kernel.create]
    · simp only [Owner, Owns, State.setTask, Function.update_of_ne self]
      refine or_congr Iff.rfl (exists_congr fun g => and_congr_right fun future => ?_)
      have other : Ref.fut (T := T) g ≠ .fut f := by
        rintro ⟨rfl⟩
        rw [queue.fresh f (queue.made u f future)] at fresh
        cases fresh
      simp only [Kernel.create, Function.update_of_ne other]
  · intro unlocked
    simp only [State.setTask, locked] at unlocked
    cases unlocked
  · by_cases self : u = t
    · subst self
      simp [State.setTask]
    · simp only [State.setTask, Function.update_of_ne self]
      exact owned.quiet u

/-! ## Steps -/

/-- A `cancel` never hits the future that a `release` has found not done and is
about to set. -/
def HandOffUndisturbed (s : State T F C) (a : Act T F C) : Prop :=
  ∀ c t f rest u, a = .kernel (.call c) →
    s.kernel.calls c = (t, .futCancel (.fut f)) :: rest → s.task u ≠ .setting f

structure Sound (s : State T F C) : Prop where
  queue : Queue s
  owned : Owned s

omit [DecidableEq T] in
/-- A step of the kernel that cancels no future which is being handed over. -/
theorem Sound.setKernel {s : State T F C} (sound : Sound s) {k' : Kernel T F C}
    (fenced : Fenced k') (eased : Eased s.issued s.kernel k')
    (unhanded : ∀ f, s.issued f = true → s.kernel.state (.fut f) = .pending →
      k'.state (.fut f) = .cancelled → ∀ u, s.task u ≠ .setting f) : Sound (s.setKernel k') := by
  have kept : Undisturbed s k' := by
    intro f made
    obtain same | ⟨pending, cancelled⟩ := eased.state f made
    · exact .inl same
    · exact .inr ⟨pending, cancelled, unhanded f made pending cancelled⟩
  constructor
  · refine sound.queue.stay fenced ?_ kept rfl rfl (fun _ => rfl) (fun _ _ => Iff.rfl)
      sound.queue.critical ?_
    · exact fun f made => eased.created f made (sound.queue.fresh f made)
    · intro t f pc at_ past
      exact eased.event f (sound.queue.made t f (congrArg LockPc.futOf at_))
        (sound.queue.resumed t f pc at_ past)
  · refine sound.owned.stay (fun u => ?_) rfl sound.owned.empty sound.owned.quiet
    refine or_congr Iff.rfl (exists_congr fun f => and_congr_right fun future => ?_)
    exact kept.finished (sound.queue.made u f future)

omit [DecidableEq T] in
/-- A step that leaves the states of the futures alone hits no hand-off. -/
theorem Sound.ease {s : State T F C} (sound : Sound s) {k' : Kernel T F C}
    (fenced : Fenced k') (eased : Eased s.issued s.kernel k')
    (same : ∀ f, s.issued f = true → k'.state (.fut f) = s.kernel.state (.fut f)) :
    Sound (s.setKernel k') := by
  refine sound.setKernel fenced eased ?_
  intro f made pending cancelled
  rw [same f made, pending] at cancelled
  cases cancelled

theorem Sound.kernel [DecidableEq F] [DecidableEq C] {s s' : State T F C} (sound : Sound s)
    {a : KernelAct T F C}
    (undisturbed : HandOffUndisturbed s (.kernel a)) (taken : step s (.kernel a) = some s') :
    Sound s' := by
  have steps : (∀ f st, a = .complete f st → s.issued f = false) →
      (s.kernel.step a).map s.setKernel = some s' → Sound s' := by
    intro foreign mapped
    obtain ⟨k', moved, rfl⟩ := Option.map_eq_some_iff.mp mapped
    refine sound.setKernel (kernel_fenced sound.queue.fence moved) (kernel_eased moved foreign) ?_
    intro f made pending cancelled u
    cases a with
    | call c =>
        obtain same | ⟨t, g, rest, stack, -, changed⟩ := (Kernel.cancelStep_effect moved).state
        · rw [same, pending] at cancelled
          cases cancelled
        · by_cases self : f = g
          · exact self ▸ undisturbed c t g rest u rfl stack
          · rw [changed, Function.update_of_ne fun same => self (Ref.fut.inj same), pending]
              at cancelled
            cases cancelled
    | complete g st =>
        simp only [Kernel.step] at moved
        split at moved <;> cases moved
        have other : Ref.fut (T := T) f ≠ .fut g := by
          intro same
          rw [Ref.fut.inj same, foreign g st rfl] at made
          cases made
        simp only [Kernel.setState, Function.update_of_ne other, pending] at cancelled
        cases cancelled
    | wake r | cancel c t =>
        simp only [Kernel.step] at moved
        split at moved <;> cases moved
        cases pending.symm.trans cancelled
  cases a with
  | complete f st =>
      simp only [step] at taken
      split at taken
      · cases taken
      · rename_i foreign
        refine steps ?_ taken
        rintro g st' ⟨⟩
        simpa using foreign
  | wake r | cancel c t | call c => exact steps (by rintro _ _ ⟨⟩) taken

theorem Sound.await {s : State T F C} (sound : Sound s) {t : T} {r : Ref T F} {pc : AwaitPc}
    {k' : Kernel T F C} {next : AwaitPc ⊕ Outcome}
    (taken : s.kernel.awaitStep t r pc = some (k', next)) : Sound (s.setKernel k') := by
  obtain ⟨state, event, -⟩ := awaitStep_frame taken
  have fenced : Fenced k' := by
    rw [Fenced, event, state]
    exact sound.queue.fence
  exact sound.ease fenced (awaitStep_eased taken) (fun _ _ => congrFun state _)

theorem Sound.elsewhere [DecidableEq F] {s s' : State T F C} (sound : Sound s) {t : T}
    {e : Elsewhere T F} (taken : Lock.elsewhere s t e = some s') : Sound s' := by
  have fenced : Fenced s.kernel := sound.queue.fence
  cases e with
  | create f =>
      simp only [Lock.elsewhere] at taken
      split at taken <;> cases taken
      rename_i fresh
      refine sound.ease (fenced.create f) (create_eased sound.queue.fresh fresh) ?_
      intro g made
      have other : Ref.fut (T := T) g ≠ .fut f := by
        intro same
        exact fresh (Ref.fut.inj same ▸ sound.queue.fresh g made)
      exact Function.update_of_ne other ..
  | await r pc =>
      cases r with
      | fut f =>
          simp only [Lock.elsewhere] at taken
          split at taken
          · cases taken
          · obtain ⟨⟨k', next⟩, moved, rfl⟩ := Option.map_eq_some_iff.mp taken
            exact sound.await moved
      | task u =>
          obtain ⟨⟨k', next⟩, moved, rfl⟩ := Option.map_eq_some_iff.mp taken
          exact sound.await moved
  | uncancel pc =>
      cases taken
      refine sound.ease ?_ (uncancel_eased s.kernel t pc) ?_
      · cases pc <;> exact fenced
      · intro g _
        cases pc <;> rfl
  | settle ending =>
      cases taken
      refine sound.ease (fenced.settle t ending) (settle_eased s.kernel t ending) ?_
      intro g _
      unfold Kernel.settle
      split
      · simp [Kernel.setState]
      · rfl

theorem Sound.setTask {s : State T F C} (sound : Sound s) {t : T} {pc : LockPc F}
    (futures : pc.futOf = (s.task t).futOf) (holds : pc.holds = (s.task t).holds)
    (before : (s.task t).critical = false) (after : pc.critical = false)
    (resumes : ∀ f apc, pc = .waiting f apc → Lock.resumed apc = true →
      s.kernel.event (.fut f) = true) (quiet : pc ≠ .raised) : Sound (s.setTask t pc) where
  queue := sound.queue.setTask futures before after resumes
  owned := by
    refine sound.owned.setTask s.mu ?_ id quiet
    simp only [Owns, futures, holds]

/-- The steps of the await in `acquire`. -/
theorem Sound.waiting [DecidableEq F] {s : State T F C} (sound : Sound s) {t : T} {f : F}
    {pc : AwaitPc} {k' : Kernel T F C} {next : AwaitPc ⊕ Outcome} (at_ : s.task t = .waiting f pc)
    (taken : s.kernel.awaitStep t (.fut f) pc = some (k', next)) :
    Sound ((s.setKernel k').setTask t (afterAwait f next)) := by
  obtain ⟨state, event, created, -⟩ := awaitStep_frame taken
  have moved := sound.await taken
  have at' : (s.setKernel k').task t = .waiting f pc := at_
  -- a step to another counter of the await, or to the except clause
  have goes : ∀ pc' : LockPc F, pc'.futOf = some f → pc'.holds = false → pc'.critical = false →
      pc' ≠ .raised → (∀ g apc, pc' = .waiting g apc → Lock.resumed apc = true →
        k'.event (.fut g) = true) → Sound ((s.setKernel k').setTask t pc') := by
    intro pc' future free outside quiet resumes
    refine moved.setTask ?_ ?_ ?_ outside resumes quiet
    · rw [at', future]
      rfl
    · rw [at', free]
      rfl
    · rw [at']
      rfl
  cases pc with
  | test =>
      cases taken
      refine goes _ rfl rfl rfl (by rintro ⟨⟩) fun g apc same past => ?_
      by_cases set : s.kernel.event (.fut f) = true
      · simp only [set, if_true, afterAwait, LockPc.waiting.injEq] at same
        exact same.1 ▸ set
      · simp only [set, afterAwait, LockPc.waiting.injEq] at same
        rw [← same.2] at past
        cases past
  | arm =>
      simp only [Kernel.awaitStep] at taken
      split at taken <;> cases taken
      · exact goes _ rfl rfl rfl (by rintro ⟨⟩) (by rintro _ _ ⟨⟩)
      · refine goes _ rfl rfl rfl (by rintro ⟨⟩) fun g apc same past => ?_
        cases same
        cases past
  | armed =>
      cases taken
      refine goes _ rfl rfl rfl (by rintro ⟨⟩) fun g apc same past => ?_
      cases same
      cases past
  | suspended =>
      simp only [Kernel.awaitStep] at taken
      split at taken <;> cases taken
      rename_i set
      refine goes _ rfl rfl rfl (by rintro ⟨⟩) fun g apc same past => ?_
      cases same
      exact set
  | disarm =>
      cases taken
      refine goes _ rfl rfl rfl (by rintro ⟨⟩) fun g apc same past => ?_
      cases same
      exact sound.queue.resumed t f .disarm at_ rfl
  | ready =>
      simp only [Kernel.awaitStep] at taken
      split at taken <;> cases taken
      · exact goes _ rfl rfl rfl (by rintro ⟨⟩) (by rintro _ _ ⟨⟩)
      · refine goes _ rfl rfl rfl (by rintro ⟨⟩) fun g apc same past => ?_
        cases same
        exact sound.queue.resumed t f .ready at_ rfl
  | read =>
      have set := sound.queue.resumed t f .read at_ rfl
      have future : (s.task t).futOf = some f := by
        rw [at_]
        rfl
      have ended := sound.queue.fence (.fut f) set
      have unfailed := sound.queue.notFailed f (sound.queue.made t f future)
      simp only [Kernel.awaitStep, set, if_true, Kernel.read] at taken
      cases status : s.kernel.state (.fut f) with
      | pending => exact absurd status ended
      | failed => exact absurd status unfailed
      | cancelled =>
          simp only [status] at taken
          cases taken
          exact goes _ rfl rfl rfl (by rintro ⟨⟩) (by rintro _ _ ⟨⟩)
      | finished =>
          simp only [status] at taken
          cases taken
          have out : f ∉ s.waiters := fun member => sound.queue.ungranted f member status
          have same : s.waiters.erase f = s.waiters := List.erase_of_not_mem out
          constructor
          · have dropped : Queue ({ s with waiters := s.waiters.erase f }.setTask t .holding) :=
              sound.queue.drop future (fun _ => ended) rfl rfl
            rwa [same] at dropped
          · refine sound.owned.setTask s.mu ?_ id (by rintro ⟨⟩)
            exact iff_of_true (.inl rfl) (.inr ⟨f, future, status⟩)

/-- The locked section of the except clause. -/
theorem Sound.caught [DecidableEq F] {s s' : State T F C} (sound : Sound s) {t : T} {f : F}
    (at_ : s.task t = .caught f) (taken : lockStep s t = some s') : Sound s' := by
  have future : (s.task t).futOf = some f := by
    rw [at_]
    rfl
  simp only [lockStep, at_] at taken
  split at taken
  · cases taken
  · rename_i unheld
    have free : s.mu = none := by simpa using unheld
    split at taken
    · rename_i member
      cases taken
      refine ⟨sound.queue.drop future (fun out => absurd member out) rfl rfl,
        sound.owned.setTask s.mu (iff_of_false ?_ ?_) ?_ (by simp)⟩
      · rintro (holds | ⟨g, none, -⟩)
        · cases holds
        · cases none
      · rintro (holds | ⟨g, future', granted⟩)
        · rw [at_] at holds
          cases holds
        · rw [future] at future'
          cases future'
          exact sound.queue.ungranted f member granted
      · intro empty
        rw [empty] at member
        cases member
    · rename_i out
      have same : s.waiters.erase f = s.waiters := List.erase_of_not_mem out
      -- nobody is about to set `f`: that would be under `_mu`
      have ended : s.kernel.state (.fut f) ≠ .pending := by
        intro pending
        rcases sound.queue.live t f future pending with member | ⟨u, handing⟩
        · exact out member
        · have inside := sound.queue.critical_only free u
          rw [handing] at inside
          cases inside
      have unfailed := sound.queue.notFailed f (sound.queue.made t f future)
      have dropped : ∀ pc : LockPc F, pc.futOf = none → pc.critical = false →
          Queue (s.setTask t pc) := by
        intro pc none outside
        have dropped : Queue ({ s with waiters := s.waiters.erase f }.setTask t pc) :=
          sound.queue.drop future (fun _ => ended) none outside
        rwa [same] at dropped
      cases status : s.kernel.state (.fut f) with
      | pending => exact absurd status ended
      | failed => exact absurd status unfailed
      | finished =>
          simp only [status] at taken
          cases taken
          exact ⟨dropped _ rfl rfl, sound.owned.setTask s.mu
            (iff_of_true (.inl rfl) (.inr ⟨f, future, status⟩)) id (by simp)⟩
      | cancelled =>
          simp only [status] at taken
          cases taken
          refine ⟨dropped _ rfl rfl, sound.owned.setTask s.mu (iff_of_false ?_ ?_) id (by simp)⟩
          · rintro (holds | ⟨g, none, -⟩)
            · cases holds
            · cases none
          · rintro (holds | ⟨g, future', granted⟩)
            · rw [at_] at holds
              cases holds
            · rw [future] at future'
              cases future'
              rw [status] at granted
              cases granted

/-- The steps of `release`. -/
theorem Sound.task [DecidableEq F] {s s' : State T F C} (sound : Sound s) {t : T}
    (taken : lockStep s t = some s') : Sound s' := by
  cases at_ : s.task t with
  | outside | holding | raised =>
      simp only [lockStep, at_] at taken
      cases taken
  | waiting f pc =>
      simp only [lockStep, at_] at taken
      obtain ⟨⟨k', next⟩, moved, rfl⟩ := Option.map_eq_some_iff.mp taken
      exact sound.waiting at_ moved
  | caught f => exact sound.caught at_ taken
  | entering =>
      simp only [lockStep, at_] at taken
      split at taken <;> cases taken
      rename_i unheld
      refine ⟨sound.queue.enter (by simpa using unheld) at_,
        sound.owned.setTask (some t) (iff_of_true (.inl rfl) (.inl ?_)) id (by simp)⟩
      rw [at_]
      rfl
  | popping =>
      have owner : Owner s t := .inl (by rw [at_]; rfl)
      simp only [lockStep, at_] at taken
      split at taken <;> cases taken
      · rename_i nobody
        exact ⟨sound.queue.unlock at_, sound.owned.unlock owner nobody⟩
      · rename_i f rest first
        refine ⟨sound.queue.pop at_ first,
          sound.owned.setTask s.mu (iff_of_true (.inl ?_) owner) (fun empty => ?_) ?_⟩
        · split <;> rfl
        · rw [empty] at first
          cases first
        · split <;> simp
  | setting f =>
      obtain ⟨pending, -, -⟩ := sound.queue.handing t f at_
      simp only [lockStep, at_, pending, if_true] at taken
      cases taken
      exact ⟨sound.queue.grant at_, sound.owned.grant sound.queue at_⟩

theorem sound_step [DecidableEq F] [DecidableEq C] {s s' : State T F C} {a : Act T F C}
    (sound : Sound s)
    (undisturbed : HandOffUndisturbed s a) (taken : step s a = some s') : Sound s' := by
  cases a with
  | kernel a => exact sound.kernel undisturbed taken
  | elsewhere t e =>
      simp only [step] at taken
      split at taken
      · exact sound.elsewhere taken
      · exact sound.elsewhere taken
      · cases taken
  | acquire t f =>
      simp only [step] at taken
      split at taken
      · rename_i at_
        simp only [acquire] at taken
        split at taken
        · cases taken
        · split at taken
          · rename_i unlocked
            cases taken
            have idle : (s.task t).futOf = none ∧ (s.task t).critical = false := by
              rw [at_]
              exact ⟨rfl, rfl⟩
            have queue : Queue (s.setTask t .holding) :=
              sound.queue.setTask idle.1.symm idle.2 rfl (by simp)
            exact ⟨queue.stay queue.fence queue.fresh (.of_same rfl) rfl rfl (fun _ => rfl)
              (fun _ _ => Iff.rfl) queue.critical queue.resumed, sound.owned.take unlocked.1⟩
          · rename_i busy
            split at taken <;> cases taken
            rename_i fresh
            rw [Bool.not_eq_true] at fresh
            exact ⟨sound.queue.enqueue at_ fresh, sound.owned.enqueue sound.queue at_ fresh busy⟩
      · cases taken
  | release t =>
      simp only [step] at taken
      split at taken <;> cases taken
      rename_i at_
      exact sound.setTask (by rw [at_]; rfl) (by rw [at_]; rfl) (by rw [at_]; rfl) rfl (by simp)
        (by simp)
  | task t => exact sound.task taken

omit [DecidableEq T] in
theorem sound_start {s : State T F C} (start : Start s) : Sound s := by
  obtain ⟨⟨-, event, -, -, -, -, -⟩, unlocked, empty, free, issued, task⟩ := start
  have futures : ∀ t f, (s.task t).futOf ≠ some f := by
    intro t f future
    rw [task] at future
    cases future
  have nobody : ∀ t, ¬ Owner s t := by
    rintro t (holds | ⟨f, future, -⟩)
    · rw [task] at holds
      cases holds
    · exact futures t f future
  refine ⟨⟨?_, ?_, ?_, ?_, ?_, ?_, ?_, ?_, ?_, ?_, ?_, ?_⟩, ⟨?_, ?_, fun _ => empty, ?_⟩⟩
  · intro r set
    rw [event] at set
    cases set
  · intro t f pc at_
    rw [task] at at_
    cases at_
  · intro f made
    rw [issued] at made
    cases made
  · intro f made
    rw [issued] at made
    cases made
  · exact fun t f future => absurd future (futures t f)
  · exact fun t _ f future => absurd future (futures t f)
  · intro f member
    rw [empty] at member
    cases member
  · rw [empty]
    exact List.nodup_nil
  · intro f member
    rw [empty] at member
    cases member
  · exact fun t f future => absurd future (futures t f)
  · intro u f handing
    rw [task] at handing
    cases handing
  · intro t
    rw [task, free]
    exact iff_of_false (by rintro ⟨⟩) (by simp)
  · exact fun t _ owner => absurd owner (nobody t)
  · rw [unlocked]
    exact iff_of_false (by simp) (not_exists.mpr nobody)
  · intro t raised
    rw [task] at raised
    cases raised

theorem sound_of_reach [DecidableEq F] [DecidableEq C] {s : State T F C}
    (reached : (machine T F C).Reach HandOffUndisturbed s) : Sound s :=
  Machine.Reach.invariant Sound (fun _ => sound_start)
    (fun _ _ _ sound undisturbed taken => sound_step sound undisturbed taken) reached

/-! ## The claim to the lock -/

/-- Mutual exclusion, and no ownership is lost. -/
structure Exclusive (s : State T F C) : Prop where
  one : ∀ t u, Owner s t → Owner s u → t = u
  released : ∀ t, s.task t ≠ .raised
  locked : (∀ t, ¬ Releasing s t) → (s.locked = true ↔ ∃ t, Owner s t)
  noneQueued : (∀ t, ¬ Releasing s t) → (¬ ∃ t, Owner s t) →
    ∀ f, f ∈ s.waiters → s.kernel.state (.fut f) ≠ .pending

theorem lock_has_one_owner [DecidableEq F] [DecidableEq C] {s : State T F C}
    (reached : (machine T F C).Reach HandOffUndisturbed s) : Exclusive s := by
  have owned := (sound_of_reach reached).owned
  refine ⟨owned.unique, owned.quiet, fun _ => owned.locked, fun _ nobody f member => ?_⟩
  have unlocked : s.locked = false := by
    by_contra locked
    exact nobody (owned.locked.mp (Bool.not_eq_false _ ▸ locked))
  rw [owned.empty unlocked] at member
  cases member

/-! ## Runs -/

def freshState (T F C : Type) : State T F C where
  kernel := (Tasks.freshState T F C).kernel
  locked := false
  waiters := []
  mu := none
  issued := fun _ => false
  task := fun _ => .outside

omit [DecidableEq T] in
theorem freshState_start : Start (freshState T F C) :=
  ⟨Tasks.freshState_start.1, rfl, rfl, rfl, fun _ => rfl, fun _ => rfl⟩

/-- Task `true` waits behind task `false`, and a `cancel` of it has read its future. -/
def contended : List (Act Bool Nat Nat) :=
  [.acquire false 0, .acquire true 0, .task true, .task true, .task true, .kernel (.cancel 0 true),
    .kernel (.call 0), .kernel (.call 0), .kernel (.call 0)]

/-- The cancel lands between the test and the `set_result` of `release`. -/
def raisingRun : List (Act Bool Nat Nat) :=
  contended ++ [.release false, .task false, .task false, .kernel (.call 0), .task false]

theorem raisingRun_raises :
    ((machine Bool Nat Nat).exec (freshState _ _ _) raisingRun).any
      (fun s => s.task false = .raised) = true := by
  decide +kernel

theorem release_raises :
    ¬ ∀ s : State Bool Nat Nat,
      (machine Bool Nat Nat).Reachable s → Exclusive s := by
  intro always
  obtain ⟨s, reached, raised⟩ :=
    Machine.Reachable.exists_of_exec freshState_start raisingRun_raises
  exact (always s reached).released false (of_decide_eq_true raised)

/-- `HandOffUndisturbed` for two tasks. -/
def undisturbed [DecidableEq F] (s : State Bool F C) : Act Bool F C → Bool
  | .kernel (.call c) =>
      match s.kernel.calls c with
      | (_, .futCancel (.fut f)) :: _ => ∀ u, s.task u ≠ .setting f
      | _ => true
  | _ => true

theorem handOff_of_undisturbed [DecidableEq F] (s : State Bool F C) (a : Act Bool F C)
    (checked : undisturbed s a = true) : HandOffUndisturbed s a := by
  rintro c t f rest u rfl stack
  simp only [undisturbed, stack, decide_eq_true_eq] at checked
  exact checked u

/-- The cancel lands after the grant: task `true` gets the lock. -/
def grantedRun : List (Act Bool Nat Nat) :=
  contended ++ [.release false, .task false, .task false, .task false, .kernel (.call 0), .kernel
    (.call 0),
    .kernel (.wake (.fut 0)), .task true, .task true, .task true]

theorem grantedRun_grants :
    ((machine Bool Nat Nat).execIf undisturbed (freshState _ _ _) grantedRun).any
      (fun s => s.task true = .holding) = true := by
  decide +kernel

theorem lock_has_one_owner_after_grant :
    ∃ s : State Bool Nat Nat, s.task true = .holding ∧ Exclusive s := by
  obtain ⟨s, reached, holding⟩ :=
    Machine.Reach.exists_of_execIf handOff_of_undisturbed freshState_start grantedRun_grants
  exact ⟨s, of_decide_eq_true holding, lock_has_one_owner reached⟩

end MtAsyncio.Lock
