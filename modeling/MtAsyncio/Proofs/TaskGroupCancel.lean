/-
Module: MtAsyncio.Proofs.TaskGroupCancel
Purpose: The cancel request that a failing child makes on the parent is taken
  back when the parent leaves the group.  `_on_task_done` asks for it under the
  lock and calls `parent_task.cancel()` after it; a parent that is faster than
  this call leaves the request behind, and so does one that raises a base error.
Trusted boundary: none
Main exports: Requests, Orderly, Untouched, group_takes_request_back,
  group_leaves_request_behind
-/
import MtAsyncio.Proofs.TaskGroupMembers

namespace MtAsyncio.TaskGroup

open Lib (Machine)
open Tasks

variable {K F E C : Type} [DecidableEq K] [DecidableEq F] [DecidableEq E] [DecidableEq C]

/-! ## The request on the parent -/

/-- The callback has asked for the parent's cancel and has not finished it. -/
def CallbackPc.pending : CallbackPc K F → Bool
  | .abort _ | .cancelParent | .inCancel => true
  | _ => false

/-- The callback's `parent_task.cancel()` is still to count itself. -/
def Uncounted (s : State K F E) (k : K) : Prop :=
  (s.callback k).pending = true ∧
    (s.callback k = .inCancel → ¬ Counted (s.kernel.calls (.callback k)))

/-- The parent's `uncancel` has subtracted, or was not needed. -/
def ParentPc.spent : ParentPc K F → Bool
  | .uncancel _ _ .compare | .uncancel _ _ .clear | .uncancelled _ _ | .propagate _ _
  | .append _ | .report | .cancelling | .leave | .left => true
  | _ => false

/-- The parent's `uncancel` has returned, or was not needed. -/
def ParentPc.cleared : ParentPc K F → Bool
  | .uncancelled _ _ | .propagate _ _ | .append _ | .report | .cancelling | .leave
  | .left => true
  | _ => false

/-- The parent asks for its own cancel again. -/
def ParentPc.recancels : ParentPc K F → Bool
  | .reUncancel _ | .reCancel | .inReCancel => true
  | _ => false

/-- The parent is outside of the body's await, of `uncancel` and of asking
again. -/
def ParentPc.plain : ParentPc K F → Bool
  | .bodyAwait _ _ | .uncancel _ _ _ | .reUncancel _ | .reCancel | .inReCancel => false
  | _ => true

structure Requests (s : State K F E) : Prop where
  alive : s.kernel.state (.task none) = .pending
  unawaited : Unawaited s.kernel
  body : ∀ r pc, s.parent = .bodyAwait r pc → r ≠ .task none
  frames : ∀ c, Spares (s.kernel.calls c) ∨ ∃ k, c = .callback k ∧ s.callback k = .inCancel
  shape : ∀ k, s.callback k = .inCancel → s.kernel.calls (.callback k) = [(none, .done)] ∨
    s.kernel.calls (.callback k) = [(none, .count)] ∨ Counted (s.kernel.calls (.callback k))
  requested : ∀ k, (s.callback k).pending = true → s.parentCancelRequested = true
  one : ∀ j k, (s.callback j).pending = true → (s.callback k).pending = true → j = k
  counted : s.parent.spent = false → s.parentCancelRequested = true → (∀ k, ¬ Uncounted s k) →
    s.kernel.numCancelsRequested none = 1
  uncounted : s.parent.spent = false →
    s.parentCancelRequested = false ∨ (∃ k, Uncounted s k) →
    s.kernel.numCancelsRequested none = 0
  spent : s.parent.spent = true →
    s.kernel.numCancelsRequested none = 0 ∧ ∀ k, ¬ Uncounted s k
  must : s.kernel.mustCancel none = true → s.parentCancelRequested = true
  cleared : s.parent.cleared = true →
    s.kernel.mustCancel none = false ∧ ∀ k, (s.callback k).pending = false
  asked : ∀ exc prop pc, s.parent = .uncancel exc prop pc → s.parentCancelRequested = true ∧
    (pc = .decrement → ∀ k, ¬ Uncounted s k)
  single : s.parent.recancels = false

omit [DecidableEq K] [DecidableEq F] in
theorem not_counted {pc : CancelPc (Option K) F} (early : pc = .done ∨ pc = .count) :
    ¬ Counted [((none : Option K), pc)] := by
  rintro (empty | ⟨upper, pc', stack, notDone, notCount, -⟩)
  · cases empty
  · have last := congrArg List.getLast? stack
    simp only [List.getLast?_append, List.getLast?_singleton, Option.some_or, Option.some.injEq,
      Prod.mk.injEq, true_and] at last
    subst last
    rcases early with rfl | rfl
    · exact notDone rfl
    · exact notCount rfl

omit [DecidableEq K] [DecidableEq F] [DecidableEq E] in
/-- A step that does nothing to the parent's count and to the pending calls. -/
theorem Requests.keep {s s' : State K F E} (requests : Requests s)
    (alive : s'.kernel.state (.task none) = .pending) (unawaited : Unawaited s'.kernel)
    (body : ∀ r pc, s'.parent = .bodyAwait r pc → r ≠ .task none)
    (frames : ∀ c, Spares (s'.kernel.calls c) ∨ ∃ k, c = .callback k ∧ s'.callback k = .inCancel)
    (calls : ∀ k, s.callback k = .inCancel →
      s'.kernel.calls (.callback k) = s.kernel.calls (.callback k))
    (count : s'.kernel.numCancelsRequested none = s.kernel.numCancelsRequested none)
    (must : s'.kernel.mustCancel none = true → s.kernel.mustCancel none = true)
    (asks : s'.parentCancelRequested = s.parentCancelRequested)
    (pending : ∀ k, (s'.callback k).pending = (s.callback k).pending)
    (inCancel : ∀ k, s'.callback k = .inCancel ↔ s.callback k = .inCancel)
    (spent : s'.parent.spent = s.parent.spent)
    (cleared : s'.parent.cleared = true → s.parent.cleared = true)
    (asked : ∀ exc prop pc, s'.parent = .uncancel exc prop pc →
      s.parentCancelRequested = true ∧ (pc = .decrement → ∀ k, ¬ Uncounted s k))
    (single : s'.parent.recancels = false) : Requests s' := by
  have uncounted : ∀ k, Uncounted s' k ↔ Uncounted s k := by
    intro k
    unfold Uncounted
    rw [pending k, inCancel k]
    refine and_congr_right fun _ => forall_congr' fun at_ => ?_
    rw [calls k at_]
  have nobody : (∀ k, ¬ Uncounted s' k) ↔ ∀ k, ¬ Uncounted s k :=
    forall_congr' fun k => not_congr (uncounted k)
  refine ⟨alive, unawaited, body, frames, ?_, ?_, ?_, ?_, ?_, ?_, ?_, ?_, ?_, single⟩
  · intro k at_
    rw [calls k ((inCancel k).mp at_)]
    exact requests.shape k ((inCancel k).mp at_)
  · intro k waits
    rw [pending] at waits
    rw [asks]
    exact requests.requested k waits
  · intro j k
    rw [pending, pending]
    exact requests.one j k
  · intro early asking none
    rw [spent] at early
    rw [asks] at asking
    rw [count]
    exact requests.counted early asking (nobody.mp none)
  · intro early open_
    rw [spent] at early
    rw [asks, exists_congr uncounted] at open_
    rw [count]
    exact requests.uncounted early open_
  · intro late
    rw [spent] at late
    rw [count, nobody]
    exact requests.spent late
  · intro raised
    rw [asks]
    exact requests.must (must raised)
  · intro late
    obtain ⟨down, quiet⟩ := requests.cleared (cleared late)
    refine ⟨?_, fun k => by rw [pending, quiet k]⟩
    by_contra raised
    rw [must (Bool.not_eq_false _ ▸ raised)] at down
    cases down
  · intro exc prop pc at_
    rw [asks, nobody]
    exact asked exc prop pc at_

omit [DecidableEq K] [DecidableEq F] [DecidableEq E] in
/-- A step of the kernel that leaves the parent and the pending calls alone. -/
theorem Requests.setKernel {s : State K F E} (requests : Requests s)
    {kernel : Kernel (Option K) F (Caller K E)}
    (alive : kernel.state (.task none) = .pending) (unawaited : Unawaited kernel)
    (frames : ∀ c, Spares (kernel.calls c) ∨ ∃ k, c = .callback k ∧ s.callback k = .inCancel)
    (calls : ∀ k, s.callback k = .inCancel →
      kernel.calls (.callback k) = s.kernel.calls (.callback k))
    (count : kernel.numCancelsRequested none = s.kernel.numCancelsRequested none)
    (must : kernel.mustCancel none = true → s.kernel.mustCancel none = true) :
    Requests (s.setKernel kernel) :=
  requests.keep alive unawaited requests.body frames calls count must rfl (fun _ => rfl)
    (fun _ => Iff.rfl) rfl id requests.asked requests.single

/-- A `cancel` of a child is called. -/
theorem Requests.callsChild {s : State K F E} (requests : Requests s) {c : Caller K E} {k : K}
    {kernel : Kernel (Option K) F (Caller K E)}
    (other : ∀ j, c = .callback j → s.callback j ≠ .inCancel)
    (taken : s.kernel.step (.cancel c (some k)) = some kernel) :
    Requests (s.setKernel kernel) := by
  simp only [Kernel.step] at taken
  split at taken <;> cases taken
  refine requests.setKernel requests.alive ⟨requests.unawaited.waiter, fun c' t member => ?_⟩
    (fun c' => ?_) (fun j at_ => ?_) rfl id
  · by_cases self : c' = c
    · subst self
      simp [Kernel.setCalls] at member
    · simp only [Kernel.setCalls, Function.update_of_ne self] at member
      exact requests.unawaited.frames c' t member
  · by_cases self : c' = c
    · subst self
      left
      simp only [Kernel.setCalls, Function.update_self]
      exact Spares.cons (by simp) (by rintro _ ⟨⟩)
    · simp only [Kernel.setCalls, Function.update_of_ne self]
      exact requests.frames c'
  · have distinct : Caller.callback j ≠ c := fun same => other j same.symm at_
    simp only [Kernel.setCalls, Function.update_of_ne distinct]

/-- A `cancel` call on a child goes on. -/
theorem Requests.cancelsChild {s : State K F E} (requests : Requests s) {c : Caller K E}
    {kernel : Kernel (Option K) F (Caller K E)}
    (other : ∀ j, c = .callback j → s.callback j ≠ .inCancel)
    (taken : s.kernel.cancelStep c = some kernel) : Requests (s.setKernel kernel) := by
  have effect := Kernel.cancelStep_effect taken
  have spares : Spares (s.kernel.calls c) := by
    rcases requests.frames c with spares | ⟨j, same, at_⟩
    · exact spares
    · exact absurd at_ (other j same)
  obtain ⟨passes, after⟩ := cancelStep_spares_all requests.unawaited spares taken
  refine requests.setKernel ((effect.task none).trans requests.alive)
    (requests.unawaited.cancelStep taken) (fun c' => ?_) (fun j at_ => ?_) passes.count
    (by rw [passes.must]; exact id)
  · by_cases self : c' = c
    · exact .inl (self ▸ after)
    · rw [effect.others c' self]
      exact requests.frames c'
  · exact effect.others _ fun same => other j same.symm at_

/-- Steps of `_abort`, by a callback that has not come to the parent yet or by
the parent. -/
theorem Requests.abort {s s' : State K F E} (requests : Requests s) {c : Caller K E}
    {pc : AbortPc K} {next : Option (AbortPc K)}
    (other : ∀ j, c = .callback j → s.callback j ≠ .inCancel)
    (taken : abortStep s c pc = some (s', next)) : Requests s' := by
  have flagged : ∀ (s1 : State K F E) (aborting : Bool), Requests s1 →
      Requests { s1 with aborting := aborting } := fun s1 aborting r =>
    r.keep r.alive r.unawaited r.body r.frames (fun _ _ => rfl) rfl id rfl (fun _ => rfl)
      (fun _ => Iff.rfl) rfl id r.asked r.single
  rcases abortStep_cases taken with rfl | rfl | ⟨kernel, rfl, ⟨k, called⟩ | called⟩
  · exact requests
  · exact flagged s true requests
  · exact requests.callsChild other called
  · exact requests.cancelsChild other called

omit [DecidableEq F] [DecidableEq E] in
/-- A callback moves on without touching what it owes the parent. -/
theorem Requests.setCallback {s : State K F E} (requests : Requests s) {k : K}
    {pc : CallbackPc K F} (pending : pc.pending = (s.callback k).pending)
    (before : s.callback k ≠ .inCancel) (after : pc ≠ .inCancel) :
    Requests (s.setCallback k pc) := by
  have inCancel : ∀ j, (s.setCallback k pc).callback j = .inCancel ↔ s.callback j = .inCancel := by
    intro j
    by_cases self : j = k
    · subst self
      simp only [State.setCallback, Function.update_self]
      exact iff_of_false after before
    · simp only [State.setCallback, Function.update_of_ne self]
  refine requests.keep requests.alive requests.unawaited requests.body (fun c => ?_)
    (fun _ _ => rfl) rfl id rfl (fun j => ?_) inCancel rfl id requests.asked requests.single
  · rcases requests.frames c with spares | ⟨j, same, at_⟩
    · exact .inl spares
    · exact .inr ⟨j, same, (inCancel j).mpr at_⟩
  · by_cases self : j = k
    · subst self
      simpa only [State.setCallback, Function.update_self] using pending
    · simp only [State.setCallback, Function.update_of_ne self]

omit [DecidableEq F] [DecidableEq E] in
/-- A failed child asks for the parent's cancel. -/
theorem Requests.asks {s : State K F E} (requests : Requests s) {k : K}
    {tasks : List K} {errors : List (Source K)} {baseError : Option (Source K)}
    (waiting : s.callback k = .idle) (first : s.parentCancelRequested = false)
    (early : s.parent.past = false) :
    Requests ({ s with
      tasks := tasks
      errors := errors
      baseError := baseError
      parentCancelRequested := true }.setCallback k (.abort .flag)) := by
  have quiet : ∀ j, (s.callback j).pending = false := by
    intro j
    by_contra pending
    rw [requests.requested j (Bool.not_eq_false _ ▸ pending)] at first
    cases first
  have unspent : s.parent.spent = false ∧ s.parent.cleared = false := by
    cases at_ : s.parent <;> rw [at_] at early <;> first | exact ⟨rfl, rfl⟩ | cases early
  have only : ∀ j, ((Function.update s.callback k (.abort .flag)) j).pending = true → j = k := by
    intro j pending
    by_contra other
    rw [Function.update_of_ne other, quiet j] at pending
    cases pending
  have mine : Uncounted ({ s with
      tasks := tasks
      errors := errors
      baseError := baseError
      parentCancelRequested := true }.setCallback k (.abort .flag)) k := by
    simp only [Uncounted, State.setCallback, Function.update_self]
    exact ⟨rfl, by simp⟩
  refine ⟨requests.alive, requests.unawaited, requests.body, fun c => ?_, fun j at_ => ?_,
    fun _ _ => rfl, fun i j one two => (only i one).trans (only j two).symm,
    fun _ _ none => absurd mine (none k), fun _ _ => requests.uncounted unspent.1 (.inl first),
    fun late => ?_, fun _ => rfl, fun late => ?_, fun exc prop pc at_ => ?_, requests.single⟩
  · rcases requests.frames c with spares | ⟨j, same, at_⟩
    · exact .inl spares
    · have pending := quiet j
      rw [at_] at pending
      cases pending
  · by_cases self : j = k
    · subst self
      simp [State.setCallback] at at_
    · simp only [State.setCallback, Function.update_of_ne self] at at_
      exact requests.shape j at_
  · simp only [State.setCallback, unspent.1] at late
    cases late
  · simp only [State.setCallback, unspent.2] at late
    cases late
  · have at' : s.parent = .uncancel exc prop pc := at_
    rw [at'] at early
    cases early

/-- The callback calls `parent_task.cancel()`. -/
theorem Requests.callsParent {s : State K F E} (requests : Requests s) {k : K}
    {kernel : Kernel (Option K) F (Caller K E)} (at_ : s.callback k = .cancelParent)
    (taken : s.kernel.step (.cancel (.callback k) none) = some kernel) :
    Requests ((s.setKernel kernel).setCallback k .inCancel) := by
  simp only [Kernel.step] at taken
  split at taken <;> cases taken
  have mine : (s.callback k).pending = true := by
    rw [at_]
    rfl
  have pending : ∀ j, ((Function.update s.callback k .inCancel) j).pending =
      (s.callback j).pending := by
    intro j
    by_cases self : j = k
    · subst self
      rw [Function.update_self, mine]
      rfl
    · rw [Function.update_of_ne self]
  have stack : ∀ j, j ≠ k → (Function.update s.kernel.calls (Caller.callback k)
      [((none : Option K), (CancelPc.done : CancelPc (Option K) F))]) (.callback j) =
        s.kernel.calls (.callback j) :=
    fun j other => Function.update_of_ne (fun same => other (Caller.callback.inj same)) _ _
  have uncounted : ∀ j, Uncounted ((s.setKernel (s.kernel.setCalls (.callback k)
      [(none, .done)])).setCallback k .inCancel) j ↔ Uncounted s j := by
    intro j
    by_cases self : j = k
    · subst self
      simp only [Uncounted, State.setKernel, State.setCallback, Kernel.setCalls,
        Function.update_self, at_]
      exact iff_of_true ⟨rfl, fun _ => not_counted (.inl rfl)⟩ ⟨rfl, by simp⟩
    · simp only [Uncounted, State.setKernel, State.setCallback, Kernel.setCalls,
        Function.update_of_ne self, stack j self]
  have nobody : (∀ j, ¬ Uncounted ((s.setKernel (s.kernel.setCalls (.callback k)
      [(none, .done)])).setCallback k .inCancel) j) ↔ ∀ j, ¬ Uncounted s j :=
    forall_congr' fun j => not_congr (uncounted j)
  refine ⟨requests.alive, ⟨requests.unawaited.waiter, fun c t member => ?_⟩, requests.body,
    fun c => ?_, fun j inside => ?_, fun j waits => ?_, fun i j one two => ?_,
    fun early asking none => requests.counted early asking (nobody.mp none),
    fun early open_ => ?_, fun late => ?_, requests.must, fun late => ?_, fun exc prop pc at' => ?_,
    requests.single⟩
  · by_cases self : c = .callback k
    · subst self
      simp [State.setKernel, State.setCallback, Kernel.setCalls] at member
    · simp only [State.setKernel, State.setCallback, Kernel.setCalls, Function.update_of_ne self]
        at member
      exact requests.unawaited.frames c t member
  · by_cases self : c = .callback k
    · exact .inr ⟨k, self, Function.update_self ..⟩
    · rcases requests.frames c with spares | ⟨j, same, inside⟩
      · left
        simpa only [State.setKernel, State.setCallback, Kernel.setCalls,
          Function.update_of_ne self] using spares
      · have other : j ≠ k := fun eq => self (same.trans (congrArg _ eq))
        refine .inr ⟨j, same, ?_⟩
        simp only [State.setKernel, State.setCallback, Function.update_of_ne other, inside]
  · by_cases self : j = k
    · subst self
      exact .inl (Function.update_self ..)
    · simp only [State.setKernel, State.setCallback, Kernel.setCalls, Function.update_of_ne self,
        stack j self] at inside ⊢
      exact requests.shape j inside
  · exact requests.requested j ((pending j).symm.trans waits)
  · exact requests.one i j ((pending i).symm.trans one) ((pending j).symm.trans two)
  · exact requests.uncounted early (open_.imp id (Exists.imp fun j => (uncounted j).mp))
  · exact ⟨(requests.spent late).1, nobody.mpr (requests.spent late).2⟩
  · have quiet := (requests.cleared late).2 k
    rw [mine] at quiet
    cases quiet
  · obtain ⟨asking, none⟩ := requests.asked exc prop pc at'
    exact ⟨asking, fun dec => nobody.mpr (none dec)⟩

/-- What a step of the call on the parent does to its stack and to the count. -/
theorem cancelStep_parent {s : State K F E} (requests : Requests s) {k : K}
    {kernel : Kernel (Option K) F (Caller K E)} (at_ : s.callback k = .inCancel)
    (taken : s.kernel.cancelStep (.callback k) = some kernel) :
    (¬ Counted (s.kernel.calls (.callback k)) ∧
        kernel.calls (.callback k) = [(none, .count)] ∧
        kernel.numCancelsRequested none = s.kernel.numCancelsRequested none) ∨
      (¬ Counted (s.kernel.calls (.callback k)) ∧ Counted (kernel.calls (.callback k)) ∧
        kernel.numCancelsRequested none = s.kernel.numCancelsRequested none + 1) ∨
      (Counted (s.kernel.calls (.callback k)) ∧ Counted (kernel.calls (.callback k)) ∧
        kernel.numCancelsRequested none = s.kernel.numCancelsRequested none) := by
  rcases requests.shape k at_ with stack | stack | counted
  · left
    rw [stack]
    simp only [Kernel.cancelStep, stack, requests.alive, if_true] at taken
    cases taken
    exact ⟨not_counted (.inl rfl), Function.update_self .., rfl⟩
  · right
    left
    rw [stack]
    simp only [Kernel.cancelStep, stack] at taken
    cases taken
    refine ⟨not_counted (.inr rfl), .inr ⟨[], .read, ?_, by simp, by simp, by rintro _ ⟨⟩⟩, ?_⟩
    · simp only [Kernel.setCalls, Function.update_self, List.nil_append]
    · simp only [Kernel.setCalls, Kernel.addCancels, Function.update_self]
  · right
    right
    obtain ⟨count, after⟩ := cancelStep_counted requests.unawaited counted taken
    exact ⟨counted, after, count⟩

/-- The call on the parent goes on. -/
theorem Requests.cancelsParent {s : State K F E} (requests : Requests s) {k : K}
    {kernel : Kernel (Option K) F (Caller K E)} (at_ : s.callback k = .inCancel)
    (taken : s.kernel.cancelStep (.callback k) = some kernel) :
    Requests (s.setKernel kernel) := by
  have effect := Kernel.cancelStep_effect taken
  have mine : (s.callback k).pending = true := by
    rw [at_]
    rfl
  have asking := requests.requested k mine
  have others : ∀ j, j ≠ k → ¬ Uncounted s j ∧ ¬ Uncounted (s.setKernel kernel) j := by
    intro j other
    have quiet : ¬ (s.callback j).pending = true := fun waits => other (requests.one j k waits mine)
    exact ⟨fun waits => quiet waits.1, fun waits => quiet waits.1⟩
  have step := cancelStep_parent requests at_ taken
  have shape : kernel.calls (.callback k) = [(none, .done)] ∨
      kernel.calls (.callback k) = [(none, .count)] ∨ Counted (kernel.calls (.callback k)) := by
    rcases step with ⟨-, stack, -⟩ | ⟨-, counted, -⟩ | ⟨-, counted, -⟩
    · exact .inr (.inl stack)
    · exact .inr (.inr counted)
    · exact .inr (.inr counted)
  -- the count goes up exactly when the call has counted itself
  have unspent : Uncounted s k → s.parent.spent = false := by
    intro waits
    by_contra late
    exact (requests.spent (Bool.not_eq_false _ ▸ late)).2 k waits
  have before : Uncounted s k ↔ ¬ Counted (s.kernel.calls (.callback k)) :=
    ⟨fun waits => waits.2 at_, fun waits => ⟨mine, fun _ => waits⟩⟩
  have after : Uncounted (s.setKernel kernel) k ↔ ¬ Counted (kernel.calls (.callback k)) :=
    ⟨fun waits => waits.2 at_, fun waits => ⟨mine, fun _ => waits⟩⟩
  have nobody : ∀ s1, (s1 = s ∨ s1 = s.setKernel kernel) → ¬ Uncounted s1 k →
      ∀ j, ¬ Uncounted s1 j := by
    rintro s1 (rfl | rfl) none j
    · by_cases self : j = k
      · exact self ▸ none
      · exact (others j self).1
    · by_cases self : j = k
      · exact self ▸ none
      · exact (others j self).2
  have now : (Uncounted (s.setKernel kernel) k ∧ Uncounted s k ∧
        kernel.numCancelsRequested none = s.kernel.numCancelsRequested none) ∨
      (¬ Uncounted (s.setKernel kernel) k ∧ Uncounted s k ∧
        kernel.numCancelsRequested none = s.kernel.numCancelsRequested none + 1) ∨
      (¬ Uncounted (s.setKernel kernel) k ∧ ¬ Uncounted s k ∧
        kernel.numCancelsRequested none = s.kernel.numCancelsRequested none) := by
    rcases step with ⟨open_, stack, count⟩ | ⟨open_, counted, count⟩ | ⟨old, counted, count⟩
    · refine .inl ⟨after.mpr ?_, before.mpr open_, count⟩
      rw [stack]
      exact not_counted (.inr rfl)
    · exact .inr (.inl ⟨fun waits => after.mp waits counted, before.mpr open_, count⟩)
    · exact .inr (.inr ⟨fun waits => after.mp waits counted, fun waits => before.mp waits old,
        count⟩)
  refine ⟨(effect.task none).trans requests.alive, requests.unawaited.cancelStep taken,
    requests.body, fun c => ?_, fun j inside => ?_, requests.requested, requests.one,
    fun early _ none => ?_, fun early open_ => ?_, fun late => ?_, fun _ => asking, fun late => ?_,
    fun exc prop pc at' => ⟨asking, fun dec j => ?_⟩, requests.single⟩
  · by_cases self : c = .callback k
    · exact .inr ⟨k, self, at_⟩
    · simp only [State.setKernel, effect.others c self]
      exact requests.frames c
  · by_cases self : j = k
    · exact self ▸ shape
    · simp only [State.setKernel,
        effect.others _ (fun same => self (Caller.callback.inj same) : Caller.callback j ≠ _)]
      exact requests.shape j inside
  · rcases now with ⟨waits, -, -⟩ | ⟨-, waits, count⟩ | ⟨-, done, count⟩
    · exact absurd waits (none k)
    · have zero := requests.uncounted early (.inr ⟨k, waits⟩)
      simp only [State.setKernel, count, zero]
      rfl
    · exact count.trans (requests.counted early asking (nobody s (.inl rfl) done))
  · rcases now with ⟨-, waits, count⟩ | ⟨done, -, -⟩ | ⟨done, -, -⟩
    · exact count.trans (requests.uncounted early (.inr ⟨k, waits⟩))
    all_goals
      rcases open_ with unasked | ⟨j, waits⟩
      · have same : s.parentCancelRequested = false := unasked
        rw [asking] at same
        cases same
      · exact absurd waits (nobody _ (.inr rfl) done j)
  · obtain ⟨zero, none⟩ := requests.spent late
    rcases now with ⟨-, waits, -⟩ | ⟨-, waits, -⟩ | ⟨done, -, count⟩
    · exact absurd waits (none k)
    · exact absurd waits (none k)
    · exact ⟨count.trans zero, nobody _ (.inr rfl) done⟩
  · have quiet := (requests.cleared late).2 k
    rw [mine] at quiet
    cases quiet
  · have none := (requests.asked exc prop pc at').2 dec
    rcases now with ⟨-, waits, -⟩ | ⟨-, waits, -⟩ | ⟨done, -, -⟩
    · exact absurd waits (none k)
    · exact absurd waits (none k)
    · exact nobody _ (.inr rfl) done j

omit [DecidableEq F] [DecidableEq E] in
/-- The call on the parent has returned. -/
theorem Requests.parentCancelled {s : State K F E} (requests : Requests s) {k : K}
    (at_ : s.callback k = .inCancel) (ended : s.kernel.calls (.callback k) = []) :
    Requests (s.setCallback k .wake) := by
  have mine : (s.callback k).pending = true := by
    rw [at_]
    rfl
  have asking := requests.requested k mine
  have counted : ¬ Uncounted s k := fun waits => waits.2 at_ (.inl ended)
  have pending : ∀ j, ((Function.update s.callback k .wake) j).pending = true →
      j ≠ k ∧ (s.callback j).pending = true := by
    intro j waits
    by_cases self : j = k
    · subst self
      rw [Function.update_self] at waits
      cases waits
    · rw [Function.update_of_ne self] at waits
      exact ⟨self, waits⟩
  -- nobody else was pending, so nobody is now
  have quiet : ∀ j, ((Function.update s.callback k .wake) j).pending = false := by
    intro j
    by_contra waits
    obtain ⟨other, waits⟩ := pending j (Bool.not_eq_false _ ▸ waits)
    exact other (requests.one j k waits mine)
  have none : ∀ j, ¬ Uncounted (s.setCallback k .wake) j := by
    intro j waits
    have down : ((s.setCallback k .wake).callback j).pending = false := quiet j
    rw [waits.1] at down
    cases down
  have noneBefore : ∀ j, ¬ Uncounted s j := by
    intro j waits
    by_cases self : j = k
    · exact counted (self ▸ waits)
    · exact self (requests.one j k waits.1 mine)
  refine ⟨requests.alive, requests.unawaited, requests.body, fun c => ?_, fun j inside => ?_,
    fun _ _ => asking, fun i _ one => ?_, fun early _ _ => requests.counted early asking noneBefore,
    fun early open_ => ?_, fun late => ⟨(requests.spent late).1, none⟩, fun _ => asking,
    fun late => ⟨(requests.cleared late).1, quiet⟩,
    fun exc prop pc at' => ⟨asking, fun _ => none⟩, requests.single⟩
  · rcases requests.frames c with spares | ⟨j, same, inside⟩
    · exact .inl spares
    · have self : j = k := requests.one j k (by rw [inside]; rfl) mine
      subst self
      left
      rw [same]
      intro frame member
      simp only [State.setCallback, ended] at member
      cases member
  · have waits := quiet j
    simp only [State.setCallback] at inside
    rw [inside] at waits
    cases waits
  · have down : ((s.setCallback k .wake).callback i).pending = false := quiet i
    rw [one] at down
    cases down
  · rcases open_ with unasked | ⟨j, waits⟩
    · have same : s.parentCancelRequested = false := unasked
      rw [asking] at same
      cases same
    · exact absurd waits (none j)

omit [DecidableEq E] in
/-- `set_result` on a plain future. -/
theorem Requests.completes {s : State K F E} (requests : Requests s) (f : F) (st : FutState) :
    Requests (s.setKernel (s.kernel.setState (.fut f) st)) := by
  have other : Ref.task (F := F) (none : Option K) ≠ .fut f := by simp
  refine requests.setKernel ?_ ⟨requests.unawaited.waiter, requests.unawaited.frames⟩
    requests.frames (fun _ _ => rfl) rfl id
  simp only [Kernel.setState, Function.update_of_ne other]
  exact requests.alive

omit [DecidableEq F] [DecidableEq E] in
theorem Requests.bookkeep {s : State K F E} (requests : Requests s) (members : Members s) {k : K}
    (waiting : s.callback k = .idle) (done : s.child k = .done) : Requests (bookkeep s k) := by
  have early : s.parent.past = false := by
    by_contra past
    exact members.booked (Bool.not_eq_false _ ▸ past) k (by rw [done]; simp) waiting
  have booked : ∀ (tasks : List K) (errors : List (Source K)) (baseError : Option (Source K)),
      Requests ({ s with tasks := tasks, errors := errors, baseError := baseError }.setCallback k
        .wake) := by
    intro tasks errors baseError
    have moved : Requests (s.setCallback k .wake) :=
      requests.setCallback (by rw [waiting]; rfl) (by rw [waiting]; simp) (by simp)
    exact moved.keep moved.alive moved.unawaited moved.body moved.frames (fun _ _ => rfl) rfl id
      rfl (fun _ => rfl) (fun _ => Iff.rfl) rfl id moved.asked moved.single
  unfold TaskGroup.bookkeep
  split
  · cases cancels : doCancel s with
    | true =>
        have first : s.parentCancelRequested = false := by
          by_contra asked
          simp [doCancel, Bool.not_eq_false _ ▸ asked] at cancels
        simp only [first, Bool.or_true, if_true]
        exact requests.asks waiting first early
    | false =>
        simp only [Bool.or_false]
        exact booked _ _ _
  · exact booked _ _ _

theorem Requests.callback {s s' : State K F E} (requests : Requests s) (members : Members s)
    {k : K} (taken : callbackStep s k = some s') : Requests s' := by
  unfold callbackStep at taken
  split at taken
  · rename_i at_
    split at taken <;> cases taken
    rename_i ready
    exact requests.bookkeep members at_ ready.2
  · rename_i pc at_
    obtain ⟨⟨s1, next⟩, moved, rfl⟩ := Option.map_eq_some_iff.mp taken
    obtain ⟨kernel, aborting, rfl⟩ := abortStep_frame moved
    have aborted := requests.abort (fun j same => by
      cases same
      rw [at_]
      simp) moved
    refine aborted.setCallback ?_ ?_ ?_
    · simp only [at_]
      cases next <;> rfl
    · simp only [at_]
      simp
    · cases next <;> rintro ⟨⟩
  · rename_i at_
    obtain ⟨kernel, moved, rfl⟩ := Option.map_eq_some_iff.mp taken
    exact requests.callsParent at_ moved
  · rename_i at_
    split at taken
    · rename_i ended
      cases taken
      exact requests.parentCancelled at_ ended
    · obtain ⟨kernel, moved, rfl⟩ := Option.map_eq_some_iff.mp taken
      exact requests.cancelsParent at_ moved
  · rename_i at_
    cases taken
    refine requests.setCallback ?_ (by rw [at_]; simp) ?_
    · rw [at_]
      (repeat' split) <;> rfl
    · (repeat' split) <;> simp
  · rename_i f at_
    cases taken
    refine requests.setCallback ?_ (by rw [at_]; simp) ?_
    · rw [at_]
      split <;> rfl
    · split <;> simp
  · rename_i f at_
    cases taken
    split
    · refine (requests.completes f .finished).setCallback ?_ ?_ (by simp)
      · simp only [State.setKernel, at_]
        rfl
      · simp only [State.setKernel, at_]
        simp
    · exact requests.setCallback (by rw [at_]; rfl) (by rw [at_]; simp) (by simp)
  · cases taken

/-! ## The parent -/

/-- The parent's `uncancel` finds the request counted, and the call that made
it returned when it clears `_must_cancel`; a base error is not raised over a
request. -/
structure Orderly (s : State K F E) (a : Act K F E) : Prop where
  counts : ∀ f exc prop, a = .parent f → s.parent = .uncancel exc prop .test →
    ∀ k, ¬ Uncounted s k
  clears : ∀ f exc prop, a = .parent f → s.parent = .uncancel exc prop .clear →
    ∀ k, (s.callback k).pending = false
  raises : ∀ f exc prop, a = .parent f → s.parent = .raiseBase exc prop → s.baseError ≠ none →
    s.parentCancelRequested = false

omit [DecidableEq K] [DecidableEq F] [DecidableEq E] in
/-- The parent goes on; the kernel changes by an await of its own at most. -/
theorem Requests.setParent {s : State K F E} (requests : Requests s) {s' : State K F E}
    (state : s'.kernel.state (.task none) = .pending)
    (waiter : ∀ t, s'.kernel.futWaiter t ≠ some (.task none))
    (calls : s'.kernel.calls = s.kernel.calls)
    (count : s'.kernel.numCancelsRequested none = s.kernel.numCancelsRequested none)
    (must : s'.kernel.mustCancel none = true → s.kernel.mustCancel none = true)
    (asks : s'.parentCancelRequested = s.parentCancelRequested)
    (callback : s'.callback = s.callback)
    (spent : s'.parent.spent = s.parent.spent)
    (cleared : s'.parent.cleared = true → s.parent.cleared = true)
    (body : ∀ r pc, s'.parent = .bodyAwait r pc → r ≠ .task none)
    (asked : ∀ exc prop pc, s'.parent ≠ .uncancel exc prop pc)
    (single : s'.parent.recancels = false) : Requests s' := by
  refine requests.keep state ⟨waiter, by rw [calls]; exact requests.unawaited.frames⟩ body ?_
    (fun _ _ => by rw [calls]) count must asks (fun _ => by rw [callback])
    (fun _ => by rw [callback]) spent cleared (fun exc prop pc at_ => absurd at_
      (asked exc prop pc))
    single
  rw [calls, callback]
  exact requests.frames

omit [DecidableEq K] [DecidableEq F] in
theorem ParentPc.plain_cases {pc : ParentPc K F} (plain : pc.plain = true) :
    (∀ r apc, pc ≠ .bodyAwait r apc) ∧ (∀ exc prop upc, pc ≠ .uncancel exc prop upc) ∧
      pc.recancels = false := by
  refine ⟨?_, ?_, ?_⟩
  · rintro r apc rfl
    cases plain
  · rintro exc prop upc rfl
    cases plain
  · cases pc <;> first | rfl | cases plain

omit [DecidableEq F] [DecidableEq C] in
/-- What an await of the parent does to the kernel. -/
theorem awaitStep_parent {kernel kernel' : Kernel (Option K) F C} {t : Option K}
    {r : Ref (Option K) F} {pc : AwaitPc} {next : AwaitPc ⊕ Outcome} (sane : r ≠ .task none)
    (unawaited : ∀ t, kernel.futWaiter t ≠ some (.task none))
    (taken : kernel.awaitStep t r pc = some (kernel', next)) :
    kernel'.state = kernel.state ∧ (∀ t, kernel'.futWaiter t ≠ some (.task none)) ∧
      kernel'.calls = kernel.calls ∧
      kernel'.numCancelsRequested = kernel.numCancelsRequested ∧
      (kernel'.mustCancel none = true → kernel.mustCancel none = true) := by
  have lowered : (kernel.setMust t false).mustCancel none = true →
      kernel.mustCancel none = true := by
    intro raised
    by_cases self : none = t
    · simp [Kernel.setMust, self] at raised
    · simpa only [Kernel.setMust, Function.update_of_ne self] using raised
  have armed : ∀ (waiter : Option (Ref (Option K) F)), waiter ≠ some (.task none) →
      ∀ u, (kernel.setWaiter t waiter).futWaiter u ≠ some (.task none) := by
    intro waiter other u
    by_cases self : u = t
    · subst self
      simpa only [Kernel.setWaiter, Function.update_self] using other
    · simp only [Kernel.setWaiter, Function.update_of_ne self]
      exact unawaited u
  cases pc with
  | arm =>
      simp only [Kernel.awaitStep] at taken
      split at taken <;> cases taken
      · exact ⟨rfl, unawaited, rfl, rfl, lowered⟩
      · exact ⟨rfl, armed _ fun same => sane (Option.some.inj same), rfl, rfl, id⟩
  | ready =>
      simp only [Kernel.awaitStep] at taken
      split at taken <;> cases taken
      · exact ⟨rfl, unawaited, rfl, rfl, lowered⟩
      · exact ⟨rfl, unawaited, rfl, rfl, id⟩
  | suspended =>
      simp only [Kernel.awaitStep] at taken
      split at taken <;> cases taken
      exact ⟨rfl, unawaited, rfl, rfl, id⟩
  | disarm =>
      cases taken
      exact ⟨rfl, armed none (by simp), rfl, rfl, id⟩
  | test | armed | read =>
      cases taken
      exact ⟨rfl, unawaited, rfl, rfl, id⟩

omit [DecidableEq K] [DecidableEq F] [DecidableEq E] in
/-- The parent leaves the loop with nothing to take back. -/
theorem Requests.skip {s : State K F E} (requests : Requests s)
    (unasked : s.parentCancelRequested = false) (early : s.parent.spent = false)
    {pc : ParentPc K F} (form : pc = .leave ∨ ∃ exc prop, pc = .propagate exc prop) :
    Requests (s.setParent pc) := by
  have quiet : ∀ k, (s.callback k).pending = false := by
    intro k
    by_contra pending
    rw [requests.requested k (Bool.not_eq_false _ ▸ pending)] at unasked
    cases unasked
  have down : s.kernel.mustCancel none = false := by
    by_contra raised
    rw [requests.must (Bool.not_eq_false _ ▸ raised)] at unasked
    cases unasked
  have none : ∀ k, ¬ Uncounted (s.setParent pc) k := by
    intro k waits
    have same : (s.callback k).pending = true := waits.1
    rw [quiet k] at same
    cases same
  have zero := requests.uncounted early (.inl unasked)
  have late : pc.spent = true ∧ pc.recancels = false := by
    rcases form with rfl | ⟨exc, prop, rfl⟩ <;> exact ⟨rfl, rfl⟩
  refine ⟨requests.alive, requests.unawaited, ?_, requests.frames, requests.shape,
    requests.requested, requests.one, ?_, ?_, fun _ => ⟨zero, none⟩, requests.must,
    fun _ => ⟨down, quiet⟩, ?_, late.2⟩
  · rintro r apc at_
    rcases form with rfl | ⟨exc, prop, rfl⟩ <;> cases at_
  · intro unspent
    simp only [State.setParent, late.1] at unspent
    cases unspent
  · intro unspent
    simp only [State.setParent, late.1] at unspent
    cases unspent
  · rintro exc' prop' upc at_
    rcases form with rfl | ⟨exc, prop, rfl⟩ <;> cases at_

omit [DecidableEq F] [DecidableEq E] in
/-- `uncancel` subtracts the one request. -/
theorem Requests.decrements {s : State K F E} (requests : Requests s) {exc : Option Exc}
    {prop : Bool} (at_ : s.parent = .uncancel exc prop .decrement) :
    Requests ((s.setKernel (s.kernel.addCancels none (-1))).setParent
      (.uncancel exc prop .compare)) := by
  obtain ⟨asking, nobody⟩ := requests.asked exc prop .decrement at_
  have one := requests.counted (by rw [at_]; rfl) asking (nobody rfl)
  refine ⟨requests.alive, ⟨requests.unawaited.waiter, requests.unawaited.frames⟩, by rintro _ _ ⟨⟩,
    requests.frames, requests.shape, requests.requested, requests.one, by rintro ⟨⟩, by rintro ⟨⟩,
    fun _ => ⟨?_, nobody rfl⟩, requests.must, by rintro ⟨⟩, fun exc' prop' pc same => ?_, rfl⟩
  · simp only [State.setKernel, State.setParent, Kernel.addCancels, Function.update_self, one]
    rfl
  · cases same
    exact ⟨asking, by simp⟩

omit [DecidableEq F] [DecidableEq E] in
/-- `uncancel` clears `_must_cancel` when no call is pending. -/
theorem Requests.clears {s : State K F E} (requests : Requests s) {exc : Option Exc}
    {prop : Bool} (at_ : s.parent = .uncancel exc prop .clear)
    (quiet : ∀ k, (s.callback k).pending = false) :
    Requests ((s.setKernel (s.kernel.setMust none false)).setParent (.uncancelled exc prop)) := by
  obtain ⟨asking, -⟩ := requests.asked exc prop .clear at_
  refine ⟨requests.alive, ⟨requests.unawaited.waiter, requests.unawaited.frames⟩, by rintro _ _ ⟨⟩,
    requests.frames, requests.shape, requests.requested, requests.one, by rintro ⟨⟩, by rintro ⟨⟩,
    fun _ => requests.spent (by rw [at_]; rfl), fun _ => asking,
    fun _ => ⟨?_, quiet⟩, by rintro _ _ _ ⟨⟩, rfl⟩
  simp only [State.setKernel, State.setParent, Kernel.setMust, Function.update_self]

theorem Requests.parent {s s' : State K F E} (requests : Requests s) {f : F}
    (orderly : Orderly s (.parent f)) (taken : parentStep s f = some s') : Requests s' := by
  have single := requests.single
  -- most steps move the parent between counters of one kind
  have moves : ∀ s1 : State K F E, s1.kernel = s.kernel →
      s1.parentCancelRequested = s.parentCancelRequested → s1.callback = s.callback →
      s1.parent.spent = s.parent.spent → (s1.parent.cleared = true → s.parent.cleared = true) →
      s1.parent.plain = true → Requests s1 := by
    intro s1 kernel asks callback spent cleared plain
    obtain ⟨body, asked, single⟩ := ParentPc.plain_cases plain
    exact requests.setParent (by rw [kernel]; exact requests.alive)
      (by rw [kernel]; exact requests.unawaited.waiter) (by rw [kernel]) (by rw [kernel])
      (by rw [kernel]; exact id) asks callback spent cleared
      (fun r apc at_ => absurd at_ (body r apc)) asked single
  have awaits : ∀ (r : Ref (Option K) F) (apc : AwaitPc) (kernel) (next) (pc : ParentPc K F),
      r ≠ .task none → s.kernel.awaitStep none r apc = some (kernel, next) →
      pc.spent = s.parent.spent → (pc.cleared = true → s.parent.cleared = true) →
      (∀ r' apc', pc = .bodyAwait r' apc' → r' ≠ .task none) →
      (∀ exc prop upc, pc ≠ .uncancel exc prop upc) → pc.recancels = false →
      Requests ((s.setKernel kernel).setParent pc) := by
    intro r apc kernel next pc sane moved spent cleared body asked single
    obtain ⟨state, waiter, calls, count, must⟩ :=
      awaitStep_parent sane requests.unawaited.waiter moved
    exact requests.setParent ((congrFun state _).trans requests.alive) waiter calls
      (congrFun count _) must rfl rfl spent cleared body asked single
  unfold parentStep at taken
  split at taken
  · cases taken
  · cases taken
  · rename_i r pc at_
    obtain ⟨⟨kernel, next⟩, moved, rfl⟩ := Option.map_eq_some_iff.mp taken
    have sane := requests.body r pc at_
    refine awaits r pc kernel next _ sane moved ?_ ?_ ?_ ?_ ?_
    · rw [at_]
      cases next <;> rfl
    · cases next <;> rintro ⟨⟩
    · intro r' apc' same
      rcases next with pc' | outcome <;> cases same
      exact sane
    · cases next <;> rintro _ _ _ ⟨⟩
    · cases next <;> rfl
  · rename_i k pc at_
    obtain ⟨⟨s1, next⟩, moved, rfl⟩ := Option.map_eq_some_iff.mp taken
    have kept : s1.kernel = s.kernel ∧ s1.parentCancelRequested = s.parentCancelRequested ∧
        s1.callback = s.callback := by
      rcases createStep_cases moved with ⟨rfl, -, -⟩ | ⟨-, -, -, rfl⟩ | ⟨-, -, rfl⟩ | ⟨-, -, rfl⟩
        <;>
        exact ⟨rfl, rfl, rfl⟩
    refine moves _ kept.1 kept.2.1 kept.2.2 ?_ ?_ ?_
    · rw [at_]
      cases next <;> rfl
    · cases next <;> rintro ⟨⟩
    · cases next <;> rfl
  · rename_i exc at_
    cases taken
    exact moves _ rfl rfl rfl (by rw [at_]; rfl) (by rintro ⟨⟩) rfl
  · rename_i exc at_
    cases taken
    exact moves _ rfl rfl rfl (by rw [at_]; rfl) (by rintro ⟨⟩) rfl
  · rename_i exc at_
    cases taken
    split
    · exact moves _ rfl rfl rfl (by rw [at_]; rfl) (by rintro ⟨⟩) rfl
    · exact moves _ rfl rfl rfl (by rw [at_]; rfl) (by rintro ⟨⟩) rfl
  · rename_i exc prop again pc at_
    obtain ⟨⟨s1, next⟩, moved, rfl⟩ := Option.map_eq_some_iff.mp taken
    have aborted := requests.abort (c := .parent) (by simp) moved
    obtain ⟨kernel, aborting, rfl⟩ := abortStep_frame moved
    refine aborted.setParent aborted.alive aborted.unawaited.waiter rfl rfl id rfl rfl ?_ ?_ ?_ ?_
      ?_
    · simp only [State.setParent, at_]
      cases next <;> cases again <;> rfl
    · cases next <;> cases again <;> rintro ⟨⟩
    · cases next <;> cases again <;> rintro _ _ ⟨⟩
    · cases next <;> cases again <;> rintro _ _ _ ⟨⟩
    · cases next <;> cases again <;> rfl
  · rename_i exc prop at_
    split at taken
    · cases taken
      exact moves _ rfl rfl rfl (by rw [at_]; rfl) (by rintro ⟨⟩) rfl
    · split at taken
      · cases taken
        exact moves _ rfl rfl rfl (by rw [at_]; rfl) (by rintro ⟨⟩) rfl
      · split at taken <;> cases taken
        have other : Ref.task (F := F) (none : Option K) ≠ .fut f := by simp
        refine requests.setParent ?_ requests.unawaited.waiter rfl rfl id rfl rfl
          (by rw [at_]; rfl) (by rintro ⟨⟩) (by rintro _ _ ⟨⟩) (by rintro _ _ _ ⟨⟩) rfl
        simp only [State.setParent, Kernel.create, Function.update_of_ne other]
        exact requests.alive
  · rename_i exc prop g pc at_
    obtain ⟨⟨kernel, next⟩, moved, rfl⟩ := Option.map_eq_some_iff.mp taken
    refine awaits (.fut g) pc kernel next _ (by simp) moved ?_ ?_ ?_ ?_ ?_
    · rw [at_]
      rcases next with pc' | outcome
      · rfl
      · cases outcome <;> rfl
    · rcases next with pc' | outcome
      · rintro ⟨⟩
      · cases outcome <;> rintro ⟨⟩
    · rcases next with pc' | outcome
      · rintro _ _ ⟨⟩
      · cases outcome <;> rintro _ _ ⟨⟩
    · rcases next with pc' | outcome
      · rintro _ _ _ ⟨⟩
      · cases outcome <;> rintro _ _ _ ⟨⟩
    · rcases next with pc' | outcome
      · rfl
      · cases outcome <;> rfl
  · rename_i exc prop at_
    cases taken
    split
    · exact moves _ rfl rfl rfl (by rw [at_]; rfl) (by rintro ⟨⟩) rfl
    · exact moves _ rfl rfl rfl (by rw [at_]; rfl) (by rintro ⟨⟩) rfl
  · rename_i exc prop at_
    cases taken
    exact moves _ rfl rfl rfl (by rw [at_]; rfl) (by rintro ⟨⟩) rfl
  · rename_i exc prop at_
    cases taken
    split
    · exact moves _ rfl rfl rfl (by rw [at_]; rfl) (by rintro ⟨⟩) rfl
    · rename_i raised
      exact requests.skip (orderly.raises f exc prop rfl at_ raised) (by rw [at_]; rfl) (.inl rfl)
  · rename_i exc prop at_
    cases taken
    split
    · rename_i asking
      refine requests.keep requests.alive requests.unawaited (by rintro _ _ ⟨⟩) requests.frames
        (fun _ _ => rfl) rfl id rfl (fun _ => rfl) (fun _ => Iff.rfl) (by rw [at_]; rfl)
          (by rintro ⟨⟩)
        (fun exc' prop' pc same => ?_) rfl
      cases same
      exact ⟨asking, by simp⟩
    · rename_i unasked
      exact requests.skip (Bool.not_eq_true _ ▸ unasked) (by rw [at_]; rfl) (.inr ⟨exc, prop, rfl⟩)
  · rename_i exc prop pc at_
    cases taken
    obtain ⟨asking, -⟩ := requests.asked exc prop pc at_
    cases pc with
    | test =>
        have counted := orderly.counts f exc prop rfl at_
        have one := requests.counted (by rw [at_]; rfl) asking counted
        have positive : 0 < s.kernel.numCancelsRequested none := by omega
        simp only [Kernel.uncancelStep, positive, if_true]
        refine requests.keep requests.alive requests.unawaited (by rintro _ _ ⟨⟩) requests.frames
          (fun _ _ => rfl) rfl id rfl (fun _ => rfl) (fun _ => Iff.rfl) (by rw [at_]; rfl)
            (by rintro ⟨⟩)
          (fun exc' prop' pc same => ?_) rfl
        cases same
        exact ⟨asking, fun _ => counted⟩
    | decrement => exact requests.decrements at_
    | compare =>
        have zero := (requests.spent (by rw [at_]; rfl)).1
        simp only [Kernel.uncancelStep, zero, if_true]
        refine requests.keep requests.alive requests.unawaited (by rintro _ _ ⟨⟩) requests.frames
          (fun _ _ => rfl) rfl id rfl (fun _ => rfl) (fun _ => Iff.rfl) (by rw [at_]; rfl)
            (by rintro ⟨⟩)
          (fun exc' prop' pc same => ?_) rfl
        cases same
        exact ⟨asking, by simp⟩
    | clear => exact requests.clears at_ (orderly.clears f exc prop rfl at_)
  · rename_i exc prop at_
    cases taken
    exact moves _ rfl rfl rfl (by rw [at_]; rfl) (fun _ => by rw [at_]; rfl) rfl
  · rename_i exc prop at_
    cases taken
    split
    · exact moves _ rfl rfl rfl (by rw [at_]; rfl) (fun _ => by rw [at_]; rfl) rfl
    · exact moves _ rfl rfl rfl (by rw [at_]; rfl) (fun _ => by rw [at_]; rfl) rfl
  · rename_i exc at_
    cases taken
    exact moves _ rfl rfl rfl (by rw [at_]; rfl) (fun _ => by rw [at_]; rfl) rfl
  · rename_i at_
    cases taken
    split
    · exact moves _ rfl rfl rfl (by rw [at_]; rfl) (fun _ => by rw [at_]; rfl) rfl
    · exact moves _ rfl rfl rfl (by rw [at_]; rfl) (fun _ => by rw [at_]; rfl) rfl
  · rename_i at_
    cases taken
    have zero := (requests.spent (by rw [at_]; rfl)).1
    simp only [zero, if_true]
    exact moves _ rfl rfl rfl (by rw [at_]; rfl) (fun _ => by rw [at_]; rfl) rfl
  · rename_i pc at_
    rw [at_] at single
    cases single
  · rename_i at_
    rw [at_] at single
    cases single
  · rename_i at_
    rw [at_] at single
    cases single
  · rename_i at_
    cases taken
    exact moves _ rfl rfl rfl (by rw [at_]; rfl) (fun _ => by rw [at_]; rfl) rfl

theorem requests_step {s s' : State K F E} {a : Act K F E} (requests : Requests s)
    (members : Members s) (orderly : Orderly s a) (taken : step s a = some s') : Requests s' := by
  have moves : ∀ s1 : State K F E, s1.kernel = s.kernel →
      s1.parentCancelRequested = s.parentCancelRequested → s1.callback = s.callback →
      s1.parent = s.parent → Requests s1 := by
    intro s1 kernel asks callback parent
    refine requests.keep (by rw [kernel]; exact requests.alive)
      (by rw [kernel]; exact requests.unawaited) (by rw [parent]; exact requests.body) ?_
      (fun _ _ => by rw [kernel]) (by rw [kernel]) (by rw [kernel]; exact id) asks
      (fun _ => by rw [callback]) (fun _ => by rw [callback]) (by rw [parent])
      (by rw [parent]; exact id) (by rw [parent]; exact requests.asked)
      (by rw [parent]; exact requests.single)
    rw [kernel, callback]
    exact requests.frames
  cases a with
  | complete f st =>
      simp only [step] at taken
      split at taken
      · cases taken
      · obtain ⟨kernel, moved, rfl⟩ := Option.map_eq_some_iff.mp taken
        simp only [Kernel.step] at moved
        split at moved <;> cases moved
        exact requests.completes f st
  | wake r =>
      obtain ⟨kernel, moved, rfl⟩ := Option.map_eq_some_iff.mp taken
      simp only [Kernel.step] at moved
      split at moved <;> cases moved
      exact requests.setKernel requests.alive
        ⟨requests.unawaited.waiter, requests.unawaited.frames⟩ requests.frames (fun _ _ => rfl) rfl
        id
  | cancel e k =>
      obtain ⟨kernel, moved, rfl⟩ := Option.map_eq_some_iff.mp taken
      exact requests.callsChild (c := .other e) (by simp) moved
  | call e =>
      obtain ⟨kernel, moved, rfl⟩ := Option.map_eq_some_iff.mp taken
      exact requests.cancelsChild (c := .other e) (by simp) moved
  | childAwait k r pc =>
      simp only [step] at taken
      split at taken
      · rename_i allowed
        obtain ⟨⟨kernel, next⟩, moved, rfl⟩ := Option.map_eq_some_iff.mp taken
        obtain ⟨state, waiter, calls, count, must⟩ :=
          awaitStep_parent allowed.2 requests.unawaited.waiter moved
        refine requests.setKernel ((congrFun state _).trans requests.alive)
          ⟨waiter, by rw [calls]; exact requests.unawaited.frames⟩ ?_ (fun _ _ => by rw [calls])
          (congrFun count _) must
        rw [calls]
        exact requests.frames
      · cases taken
  | childUncancel k pc =>
      simp only [step] at taken
      split at taken <;> cases taken
      have other : (none : Option K) ≠ some k := by simp
      have kept : (s.kernel.uncancelStep (some k) pc).1.state = s.kernel.state ∧
          (s.kernel.uncancelStep (some k) pc).1.futWaiter = s.kernel.futWaiter ∧
          (s.kernel.uncancelStep (some k) pc).1.calls = s.kernel.calls := by
        cases pc <;> exact ⟨rfl, rfl, rfl⟩
      refine requests.setKernel ((congrFun kept.1 _).trans requests.alive)
        ⟨by rw [kept.2.1]; exact requests.unawaited.waiter,
          by rw [kept.2.2]; exact requests.unawaited.frames⟩ ?_ (fun _ _ => by rw [kept.2.2])
        ?_ ?_
      · rw [kept.2.2]
        exact requests.frames
      · cases pc <;> simp [Kernel.uncancelStep, Kernel.addCancels, Kernel.setMust]
      · cases pc <;> simp [Kernel.uncancelStep, Kernel.addCancels, Kernel.setMust]
  | childCreate k j =>
      simp only [step] at taken
      split at taken <;> cases taken
      exact moves _ rfl rfl rfl rfl
  | childEnd k ending base =>
      simp only [step] at taken
      split at taken <;> cases taken
      have settled : Requests (s.setKernel (s.kernel.settle (some k) ending)) := by
        unfold Kernel.settle
        split
        · refine requests.setKernel ?_ ⟨requests.unawaited.waiter, requests.unawaited.frames⟩
            requests.frames (fun _ _ => rfl) rfl id
          have other : Ref.task (F := F) (none : Option K) ≠ .task (some k) := by simp
          simp only [Kernel.setState, Function.update_of_ne other]
          exact requests.alive
        · exact requests.setKernel requests.alive requests.unawaited requests.frames
            (fun _ _ => rfl) rfl id
      exact settled.keep settled.alive settled.unawaited settled.body settled.frames
        (fun _ _ => rfl) rfl id rfl (fun _ => rfl) (fun _ => Iff.rfl) rfl id settled.asked
        settled.single
  | child k =>
      simp only [step] at taken
      split at taken
      · obtain ⟨⟨s1, next⟩, moved, rfl⟩ := Option.map_eq_some_iff.mp taken
        have kept : s1.kernel = s.kernel ∧ s1.parentCancelRequested = s.parentCancelRequested ∧
            s1.callback = s.callback ∧ s1.parent = s.parent := by
          rcases createStep_cases moved with
            ⟨rfl, -, -⟩ | ⟨-, -, -, rfl⟩ | ⟨-, -, rfl⟩ | ⟨-, -, rfl⟩ <;> exact ⟨rfl, rfl, rfl, rfl⟩
        exact moves _ kept.1 kept.2.1 kept.2.2.1 kept.2.2.2
      · cases taken
  | callback k => exact requests.callback members taken
  | bodyAwait r =>
      simp only [step] at taken
      split at taken <;> cases taken
      rename_i allowed
      refine requests.setParent requests.alive requests.unawaited.waiter rfl rfl id rfl rfl
        (by rw [allowed.1]; rfl) (by rintro ⟨⟩) (fun r' pc same => ?_) (by rintro _ _ _ ⟨⟩) rfl
      cases same
      exact allowed.2
  | bodyCreate j =>
      simp only [step] at taken
      split at taken <;> cases taken
      rename_i at_
      exact requests.setParent requests.alive requests.unawaited.waiter rfl rfl id rfl rfl
        (by rw [at_]; rfl) (by rintro ⟨⟩) (by rintro _ _ ⟨⟩) (by rintro _ _ _ ⟨⟩) rfl
  | bodyEnd exc =>
      simp only [step] at taken
      split at taken <;> cases taken
      rename_i at_
      exact requests.setParent requests.alive requests.unawaited.waiter rfl rfl id rfl rfl
        (by rw [at_]; rfl) (by rintro ⟨⟩) (by rintro _ _ ⟨⟩) (by rintro _ _ _ ⟨⟩) rfl
  | parent f => exact requests.parent orderly taken

omit [DecidableEq K] [DecidableEq F] [DecidableEq E] in
theorem requests_start {s : State K F E} (start : Start s) : Requests s := by
  obtain ⟨⟨state, -, -, waiter, must, count, calls⟩, -, -, -, unasked, -, -, -, -, -, -, -,
    callback, parent⟩ := start
  have quiet : ∀ k, (s.callback k).pending = false := by
    intro k
    rw [callback]
    rfl
  have nobody : ∀ k, ¬ Uncounted s k := by
    intro k waits
    have same := quiet k
    rw [waits.1] at same
    cases same
  refine ⟨state _, ⟨fun t => ?_, fun c t => ?_⟩, fun r pc at_ => ?_, fun c => .inl ?_,
    fun k at_ => ?_, fun k waits => ?_, fun j k waits => ?_, fun _ asking => ?_, fun _ _ => count _,
    fun late => ?_, fun raised => ?_, fun late => ?_, fun exc prop pc at_ => ?_, ?_⟩
  · rw [waiter]
    simp
  · rw [calls]
    simp
  · rw [parent] at at_
    cases at_
  · rw [calls]
    rintro _ ⟨⟩
  · rw [callback] at at_
    cases at_
  · rw [quiet] at waits
    cases waits
  · rw [quiet] at waits
    cases waits
  · rw [unasked] at asking
    cases asking
  · rw [parent] at late
    cases late
  · rw [must] at raised
    cases raised
  · rw [parent] at late
    cases late
  · rw [parent] at at_
    cases at_
  · rw [parent]
    rfl

/-- The group has left no trace on the parent and will not: nothing is
counted, nothing is pending, and no callback is on its way to the parent. -/
structure Untouched (s : State K F E) : Prop where
  count : s.kernel.numCancelsRequested none = 0
  must : s.kernel.mustCancel none = false
  quiet : ∀ k, (s.callback k).pending = false

/-- In every orderly run the parent has left the group untouched. -/
theorem group_takes_request_back {s : State K F E}
    (reached : (machine K F E).Reach Orderly s) (left : s.parent = .left) : Untouched s := by
  obtain ⟨members, requests⟩ := Machine.Reach.invariant (fun s => Members s ∧ Requests s)
    (fun s (start : Start s) => ⟨members_start start, requests_start start⟩)
    (fun s a s' before orderly taken =>
      ⟨members_step before.1 taken, requests_step before.2 before.1 orderly taken⟩) reached
  have spent := requests.spent (by rw [left]; rfl)
  have cleared := requests.cleared (by rw [left]; rfl)
  exact ⟨spent.1, cleared.1, cleared.2⟩

/-! ## Runs -/

def freshState (K F E : Type) : State K F E where
  kernel := (Tasks.freshState (Option K) F (Caller K E)).kernel
  exiting := false
  aborting := false
  hasParent := true
  parentCancelRequested := false
  tasks := []
  errors := []
  baseError := none
  onCompletedFut := none
  issued := fun _ => false
  base := fun _ => false
  registered := fun _ => false
  child := fun _ => .absent
  callback := fun _ => .idle
  parent := .body
  born := fun _ => 0
  clock := 0

omit [DecidableEq K] [DecidableEq F] [DecidableEq E] in
theorem freshState_start : Start (freshState K F E) :=
  ⟨Tasks.freshState_start.1, rfl, rfl, rfl, rfl, rfl, rfl, rfl, rfl, fun _ => rfl, fun _ => rfl,
    fun _ => rfl, fun _ => rfl, rfl⟩

/-- The body makes one child and ends. -/
def oneChild : List (Act Unit Nat Nat) :=
  .bodyCreate () :: .replicate 5 (.parent 0) ++ [.bodyEnd none, .parent 0, .parent 0, .parent 0]

/-- The child fails; the parent sees the group empty and leaves before the
callback has called `parent_task.cancel()`. -/
def hastyRun : List (Act Unit Nat Nat) :=
  List.flatten
    [oneChild, [.childEnd () .raised false, .callback ()], .replicate 10 (.parent 0),
      .replicate 7 (.callback ())]

theorem hastyRun_ends :
    ((machine Unit Nat Nat).exec (freshState _ _ _) hastyRun).any
      (fun s => s.parent = .left ∧ s.kernel.numCancelsRequested none = 1 ∧
        s.kernel.mustCancel none = true) = true := by
  decide +kernel

theorem group_leaves_request_behind :
    ¬ ∀ s : State Unit Nat Nat,
      (machine Unit Nat Nat).Reachable s → s.parent = .left → Untouched s := by
  intro always
  obtain ⟨s, reached, ends⟩ := Machine.Reachable.exists_of_exec freshState_start hastyRun_ends
  obtain ⟨left, -, must⟩ := of_decide_eq_true ends
  rw [(always s reached left).must] at must
  cases must

/-- `Orderly` for one child, decided by the counters. -/
def patient (s : State Unit F E) : Act Unit F E → Bool
  | .parent _ =>
      match s.parent with
      | .uncancel _ _ .test | .uncancel _ _ .clear => !(s.callback ()).pending
      | .raiseBase _ _ => s.baseError.isNone
      | _ => true
  | _ => true

omit [DecidableEq F] [DecidableEq E] in
theorem orderly_of_patient (s : State Unit F E) (a : Act Unit F E)
    (checked : patient s a = true) : Orderly s a := by
  constructor
  · rintro f exc prop rfl at_ k waits
    have same := waits.1
    simp [patient, at_, same] at checked
  · rintro f exc prop rfl at_ k
    simpa [patient, at_] using checked
  · rintro f exc prop rfl at_ raised
    simp only [patient, at_, Option.isNone_iff_eq_none] at checked
    exact absurd checked raised

/-- The child fails while the parent waits for it. -/
def patientRun : List (Act Unit Nat Nat) :=
  List.flatten
    [oneChild, .replicate 4 (.parent 0), [.childEnd () .raised false], .replicate 12 (.callback ()),
      [.wake (.fut 0)], .replicate 18 (.parent 0)]

theorem patientRun_ends :
    ((machine Unit Nat Nat).execIf patient (freshState _ _ _) patientRun).any
      (fun s => s.parent = .left ∧ s.parentCancelRequested = true) = true := by
  decide +kernel

theorem group_takes_request_back_after_failure :
    ∃ s : State Unit Nat Nat,
      s.parentCancelRequested = true ∧ s.parent = .left ∧ Untouched s := by
  obtain ⟨s, reached, ends⟩ :=
    Machine.Reach.exists_of_execIf orderly_of_patient freshState_start patientRun_ends
  obtain ⟨left, asked⟩ := of_decide_eq_true ends
  exact ⟨s, asked, left, group_takes_request_back reached left⟩

end MtAsyncio.TaskGroup
