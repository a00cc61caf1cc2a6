/-
Module: MtAsyncio.Proofs.TaskGroupErrors
Purpose: A group reports every error once and never sleeps past its last child.
  The parent leaves its loop when every callback has recorded its outcome, the
  exception group it raises has the errors of the children and of the body for
  its members, and a parent that waits with `_tasks` empty has a callback on its
  way to wake it, however often the wait is cancelled.
Trusted boundary: none
Main exports: Stage, Complete, Reported, Awake, Reports, group_reports_every_error
-/
import MtAsyncio.Proofs.TaskGroupCreate

namespace MtAsyncio.TaskGroup

open Lib (Machine)
open Tasks

variable {K F E : Type} [DecidableEq K] [DecidableEq F] [DecidableEq E]

/-! ## How far the parent has come -/

/-- What the parent has done about the exception of its body: it is still
inside, it carries the exception through `_aexit`, it has appended it, or it is
leaving. -/
inductive Stage where
  | inside
  | carries (exc : Option Exc)
  | appended
  | out

def ParentPc.stage : ParentPc K F → Stage
  | .body | .bodyAwait _ _ | .creating _ _ => .inside
  | .exiting exc | .baseError exc | .abortTest exc | .abort exc _ _ _ | .loop exc _
  | .waiting exc _ _ _ | .caught exc _ | .clear exc _ | .raiseBase exc _ | .requested exc _
  | .uncancel exc _ _ | .uncancelled exc _ | .propagate exc _ | .append exc => .carries exc
  | .report | .cancelling | .reUncancel _ | .reCancel | .inReCancel => .appended
  | .leave | .left => .out

/-- The exception is one the group reports. -/
def Reportable (exc : Option Exc) : Prop :=
  exc = some .error ∨ exc = some .base

/-- `members` are the errors of the children and the one of the body, each once. -/
structure Complete (s : Watched K F E) (members : List (Source K)) : Prop where
  nodup : members.Nodup
  child : ∀ k, .child k ∈ members ↔ s.group.kernel.state (.task (some k)) = .failed
  body : .body ∈ members ↔ Reportable s.ended

structure Reported (s : Watched K F E) : Prop where
  settled : ∀ k, s.group.kernel.state (.task (some k)) ≠ .pending → s.group.child k = .done
  nodup : s.group.errors.Nodup
  recorded : ∀ k, .child k ∈ s.group.errors ↔
    s.group.callback k ≠ .idle ∧ s.group.kernel.state (.task (some k)) = .failed
  inside : s.group.parent.stage = .inside → .body ∉ s.group.errors
  carries : ∀ exc, s.group.parent.stage = .carries exc →
    s.ended = exc ∧ .body ∉ s.group.errors
  appended : s.group.parent.stage = .appended → (.body ∈ s.group.errors ↔ Reportable s.ended)
  raised : ∀ members, s.raised = some members →
    s.group.parent.stage = .out ∧ Complete s members

/-! ## Steps that record nothing -/

/-- A step that leaves the outcomes, the records and what the parent carries. -/
structure Quiet (s s' : State K F E) : Prop where
  state : ∀ k, s'.kernel.state (.task (some k)) = s.kernel.state (.task (some k))
  done : ∀ k, s.child k = .done → s'.child k = .done
  idle : ∀ k, s'.callback k = .idle ↔ s.callback k = .idle
  errors : s'.errors = s.errors
  stage : s'.parent.stage = s.parent.stage ∨ s'.parent.stage = .out

omit [DecidableEq K] [DecidableEq F] [DecidableEq E] in
theorem Reported.quiet {s : Watched K F E} {group : State K F E} (reported : Reported s)
    (quiet : Quiet s.group group) : Reported { s with group := group } where
  settled := by
    intro k completed
    rw [quiet.state] at completed
    exact quiet.done k (reported.settled k completed)
  nodup := by
    rw [quiet.errors]
    exact reported.nodup
  recorded := by
    intro k
    rw [quiet.errors, quiet.state]
    exact (reported.recorded k).trans (and_congr_left' (not_congr (quiet.idle k)).symm)
  inside := by
    intro inside
    rw [quiet.errors]
    rcases quiet.stage with same | out
    · exact reported.inside (same.symm.trans inside)
    · rw [out] at inside
      cases inside
  carries := by
    intro exc carries
    rw [quiet.errors]
    rcases quiet.stage with same | out
    · exact reported.carries exc (same.symm.trans carries)
    · rw [out] at carries
      cases carries
  appended := by
    intro appended
    rw [quiet.errors]
    rcases quiet.stage with same | out
    · exact reported.appended (same.symm.trans appended)
    · rw [out] at appended
      cases appended
  raised := by
    intro members raised
    obtain ⟨out, complete⟩ := reported.raised members raised
    refine ⟨?_, complete.nodup, ?_, complete.body⟩
    · rcases quiet.stage with same | left
      · exact same.trans out
      · exact left
    · intro k
      rw [quiet.state]
      exact complete.child k

omit [DecidableEq K] [DecidableEq F] [DecidableEq E] in
theorem Quiet.setKernel {s : State K F E} {kernel : Kernel (Option K) F (Caller K E)}
    (state : ∀ k, kernel.state (.task (some k)) = s.kernel.state (.task (some k))) :
    Quiet s (s.setKernel kernel) :=
  ⟨state, fun _ => id, fun _ => Iff.rfl, rfl, .inl rfl⟩

omit [DecidableEq F] [DecidableEq E] in
/-- A callback past its first section goes on. -/
theorem Quiet.setCallback {s s1 : State K F E} {k : K} {pc : CallbackPc K F} (quiet : Quiet s s1)
    (begun : s1.callback k ≠ .idle) (next : pc ≠ .idle) : Quiet s (s1.setCallback k pc) := by
  refine ⟨quiet.state, quiet.done, fun j => ?_, quiet.errors, quiet.stage⟩
  rw [← quiet.idle j]
  by_cases self : j = k
  · subst self
    simp only [State.setCallback, Function.update_self]
    exact iff_of_false next begun
  · simp only [State.setCallback, Function.update_of_ne self]

omit [DecidableEq K] [DecidableEq F] [DecidableEq E] in
/-- The parent goes on. -/
theorem Quiet.setParent {s s1 : State K F E} {pc : ParentPc K F} (quiet : Quiet s s1)
    (stage : pc.stage = s.parent.stage ∨ pc.stage = .out) : Quiet s (s1.setParent pc) :=
  ⟨quiet.state, quiet.done, quiet.idle, quiet.errors, stage⟩

omit [DecidableEq F] [DecidableEq E] in
/-- A child that has not ended goes on. -/
theorem Quiet.setChild {s s1 : State K F E} {k : K} {pc : ChildPc K} (quiet : Quiet s s1)
    (alive : s1.child k ≠ .done) : Quiet s (s1.setChild k pc) := by
  refine ⟨quiet.state, fun j done => ?_, quiet.idle, quiet.errors, quiet.stage⟩
  have other : j ≠ k := by
    rintro rfl
    exact alive (quiet.done j done)
  simp only [State.setChild, Function.update_of_ne other]
  exact quiet.done j done

omit [DecidableEq K] [DecidableEq F] [DecidableEq E] in
theorem Quiet.refl (s : State K F E) : Quiet s s :=
  ⟨fun _ => rfl, fun _ => id, fun _ => Iff.rfl, rfl, .inl rfl⟩

omit [DecidableEq F] [DecidableEq E] in
theorem createStep_quiet {s s' : State K F E} {k : K} {pc : CreatePc} {next : Option CreatePc}
    (taken : createStep s k pc = some (s', next)) : Quiet s s' := by
  rcases createStep_cases taken with ⟨rfl, -, -⟩ | ⟨-, absent, -, rfl⟩ | ⟨-, -, rfl⟩ | ⟨-, -, rfl⟩
  · exact Quiet.refl s'
  · have made : Quiet s (s.setChild k .body) :=
      (Quiet.refl s).setChild (by rw [absent]; simp)
    exact ⟨made.state, made.done, made.idle, made.errors, made.stage⟩
  · exact ⟨fun _ => rfl, fun _ => id, fun _ => Iff.rfl, rfl, .inl rfl⟩
  · exact ⟨fun _ => rfl, fun _ => id, fun _ => Iff.rfl, rfl, .inl rfl⟩

theorem abortStep_quiet {s s' : State K F E} {c : Caller K E} {pc : AbortPc K}
    {next : Option (AbortPc K)} (taken : abortStep s c pc = some (s', next)) : Quiet s s' := by
  rcases abortStep_cases taken with rfl | rfl | ⟨kernel, rfl, ⟨k, called⟩ | called⟩
  · exact Quiet.refl s'
  · exact ⟨fun _ => rfl, fun _ => id, fun _ => Iff.rfl, rfl, .inl rfl⟩
  · exact Quiet.setKernel (Kernel.step_tasks called)
  · exact Quiet.setKernel (Kernel.step_tasks (a := .call c) called)

omit [DecidableEq F] [DecidableEq E] in
theorem uncancelStep_quiet (s : State K F E) (t : Option K) (pc : UncancelPc) :
    Quiet s (s.setKernel (s.kernel.uncancelStep t pc).1) :=
  Quiet.setKernel fun _ => congrFun (Kernel.uncancelStep_state s.kernel t pc) _

/-- `_on_task_done` after its first section. -/
theorem callbackStep_quiet {s s' : State K F E} {k : K} (begun : s.callback k ≠ .idle)
    (taken : callbackStep s k = some s') : Quiet s s' := by
  unfold callbackStep at taken
  split at taken
  · rename_i at_
    exact absurd at_ begun
  · obtain ⟨⟨s1, next⟩, moved, rfl⟩ := Option.map_eq_some_iff.mp taken
    have quiet := abortStep_quiet moved
    apply quiet.setCallback
    · exact fun idle => begun ((quiet.idle k).mp idle)
    · cases next <;> rintro ⟨⟩
  · obtain ⟨kernel, called, rfl⟩ := Option.map_eq_some_iff.mp taken
    exact (Quiet.setKernel (Kernel.step_tasks called)).setCallback begun (by simp)
  · split at taken
    · cases taken
      exact (Quiet.refl s).setCallback begun (by simp)
    · obtain ⟨kernel, called, rfl⟩ := Option.map_eq_some_iff.mp taken
      exact Quiet.setKernel (Kernel.step_tasks (a := .call (.callback k)) called)
  · cases taken
    apply (Quiet.refl s).setCallback begun
    (repeat' split) <;> simp
  · cases taken
    apply (Quiet.refl s).setCallback begun
    split <;> simp
  · rename_i f at_
    cases taken
    split
    · have completed : Quiet s (s.setKernel (s.kernel.setState (.fut f) .finished)) :=
        Quiet.setKernel fun _ => rfl
      exact completed.setCallback begun (by simp)
    · exact (Quiet.refl s).setCallback begun (by simp)
  · cases taken

/-- Every step of the parent but the one that appends the body's exception. -/
theorem parentStep_quiet {s s' : State K F E} {f : F} (apart : ∀ exc, s.parent ≠ .append exc)
    (taken : parentStep s f = some s') : Quiet s s' := by
  have moves : ∀ {s1 : State K F E} {pc : ParentPc K F}, Quiet s s1 →
      pc.stage = s.parent.stage ∨ pc.stage = .out → Quiet s (s1.setParent pc) :=
    fun quiet stage => quiet.setParent stage
  unfold parentStep at taken
  split at taken
  · cases taken
  · cases taken
  · rename_i r pc at_
    obtain ⟨⟨kernel, next⟩, awaited, rfl⟩ := Option.map_eq_some_iff.mp taken
    apply moves (Quiet.setKernel fun k => congrFun (awaitStep_frame awaited).1 _)
    rw [at_]
    cases next <;> exact .inl rfl
  · rename_i k pc at_
    obtain ⟨⟨s1, next⟩, moved, rfl⟩ := Option.map_eq_some_iff.mp taken
    apply moves (createStep_quiet moved)
    rw [at_]
    cases next <;> exact .inl rfl
  · rename_i exc at_
    cases taken
    exact ⟨fun _ => rfl, fun _ => id, fun _ => Iff.rfl, rfl, .inl (by rw [at_]; rfl)⟩
  · rename_i exc at_
    cases taken
    exact ⟨fun _ => rfl, fun _ => id, fun _ => Iff.rfl, rfl, .inl (by rw [at_]; rfl)⟩
  · rename_i exc at_
    cases taken
    apply moves (Quiet.refl s)
    rw [at_]
    split <;> exact .inl rfl
  · rename_i exc prop again pc at_
    obtain ⟨⟨s1, next⟩, moved, rfl⟩ := Option.map_eq_some_iff.mp taken
    apply moves (abortStep_quiet moved)
    rw [at_]
    cases next <;> cases again <;> exact .inl rfl
  · rename_i exc prop at_
    (repeat' split at taken) <;> cases taken
    · exact moves (Quiet.refl s) (.inl (by rw [at_]; rfl))
    · exact moves (Quiet.refl s) (.inl (by rw [at_]; rfl))
    · exact ⟨fun _ => rfl, fun _ => id, fun _ => Iff.rfl, rfl, .inl (by rw [at_]; rfl)⟩
  · rename_i exc prop g pc at_
    obtain ⟨⟨kernel, next⟩, awaited, rfl⟩ := Option.map_eq_some_iff.mp taken
    apply moves (Quiet.setKernel fun k => congrFun (awaitStep_frame awaited).1 _)
    rw [at_]
    rcases next with pc' | outcome
    · exact .inl rfl
    · cases outcome <;> exact .inl rfl
  · rename_i exc prop at_
    cases taken
    apply moves (Quiet.refl s)
    rw [at_]
    split <;> exact .inl rfl
  · rename_i exc prop at_
    cases taken
    exact ⟨fun _ => rfl, fun _ => id, fun _ => Iff.rfl, rfl, .inl (by rw [at_]; rfl)⟩
  · rename_i exc prop at_
    cases taken
    apply moves (Quiet.refl s)
    rw [at_]
    split
    · exact .inl rfl
    · exact .inr rfl
  · rename_i exc prop at_
    cases taken
    apply moves (Quiet.refl s)
    rw [at_]
    split <;> exact .inl rfl
  · rename_i exc prop pc at_
    cases taken
    apply moves (uncancelStep_quiet s none pc)
    rw [at_]
    cases (s.kernel.uncancelStep none pc).2 <;> exact .inl rfl
  · rename_i exc prop at_
    cases taken
    exact moves (Quiet.refl s) (.inl (by rw [at_]; rfl))
  · rename_i exc prop at_
    cases taken
    apply moves (Quiet.refl s)
    rw [at_]
    split
    · exact .inr rfl
    · exact .inl rfl
  · rename_i exc at_
    exact absurd at_ (apart exc)
  · rename_i at_
    cases taken
    apply moves (Quiet.refl s)
    rw [at_]
    split
    · exact .inr rfl
    · exact .inl rfl
  · rename_i at_
    cases taken
    apply moves (Quiet.refl s)
    rw [at_]
    split
    · exact .inr rfl
    · exact .inl rfl
  · rename_i pc at_
    cases taken
    apply moves (uncancelStep_quiet s none pc)
    rw [at_]
    cases (s.kernel.uncancelStep none pc).2 <;> exact .inl rfl
  · rename_i at_
    obtain ⟨kernel, called, rfl⟩ := Option.map_eq_some_iff.mp taken
    exact moves (Quiet.setKernel (Kernel.step_tasks called)) (.inl (by rw [at_]; rfl))
  · rename_i at_
    split at taken
    · cases taken
      exact moves (Quiet.refl s) (.inr rfl)
    · obtain ⟨kernel, called, rfl⟩ := Option.map_eq_some_iff.mp taken
      exact Quiet.setKernel (Kernel.step_tasks (a := .call .parent) called)
  · rename_i at_
    cases taken
    exact ⟨fun _ => rfl, fun _ => id, fun _ => Iff.rfl, rfl, .inr rfl⟩

/-- Where an outcome, a record or what the parent carries changes. -/
def Act.records (s : State K F E) : Act K F E → Prop
  | .childEnd _ _ _ | .bodyEnd _ => True
  | .callback k => s.callback k = .idle
  | .parent _ => ∃ exc, s.parent = .append exc
  | _ => False

theorem step_quiet {s s' : State K F E} {a : Act K F E} (apart : ¬ a.records s)
    (taken : step s a = some s') : Quiet s s' := by
  cases a with
  | complete _ _ | wake _ | cancel _ _ | call _ | childAwait _ _ _ | childUncancel _ _ =>
      obtain ⟨kernel, rfl, same, -⟩ := step_outside rfl taken
      exact Quiet.setKernel same
  | childCreate k j =>
      simp only [step] at taken
      split at taken <;> cases taken
      rename_i body
      exact (Quiet.refl s).setChild (by rw [body]; simp)
  | childEnd k ending base => exact absurd trivial apart
  | child k =>
      simp only [step] at taken
      split at taken
      · rename_i j pc at_
        obtain ⟨⟨s1, next⟩, moved, rfl⟩ := Option.map_eq_some_iff.mp taken
        apply (createStep_quiet moved).setChild
        rcases createStep_cases moved with ⟨rfl, -, -⟩ | ⟨-, absent, -, rfl⟩ | ⟨-, -, rfl⟩ |
          ⟨-, -, rfl⟩
        · rw [at_]
          simp
        · have other : k ≠ j := by
            rintro rfl
            rw [at_] at absent
            cases absent
          simp only [State.setChild, Function.update_of_ne other, at_]
          simp
        · simp only [at_]
          simp
        · simp only [at_]
          simp
      · cases taken
  | callback k => exact callbackStep_quiet apart taken
  | bodyAwait r =>
      simp only [step] at taken
      split at taken <;> cases taken
      rename_i body
      exact (Quiet.refl s).setParent (.inl (by rw [body.1]; rfl))
  | bodyCreate j =>
      simp only [step] at taken
      split at taken <;> cases taken
      rename_i body
      exact (Quiet.refl s).setParent (.inl (by rw [body]; rfl))
  | bodyEnd exc => exact absurd trivial apart
  | parent f => exact parentStep_quiet (fun exc at_ => apart ⟨exc, at_⟩) taken

/-! ## Steps that record -/

omit [DecidableEq E] in
/-- A child ends.  Its callback has not begun. -/
theorem Reported.childEnds {s : Watched K F E} (reported : Reported s) (members : Members s.group)
    {k : K} {ending : Ending} {base : Bool} (body : s.group.child k = .body) :
    Reported { s with group :=
      { s.group.setKernel (s.group.kernel.settle (some k) ending) with
        base := Function.update s.group.base k base }.setChild k .done } := by
  have idle : s.group.callback k = .idle := members.waiting (by rw [body]; simp)
  have others : ∀ j, j ≠ k → (s.group.kernel.settle (some k) ending).state (.task (some j)) =
      s.group.kernel.state (.task (some j)) := by
    intro j other
    have apart : Ref.task (F := F) (some j) ≠ .task (some k) := by
      simpa only [ne_eq, Ref.task.injEq, Option.some.injEq] using other
    unfold Kernel.settle
    split
    · exact Function.update_of_ne apart ..
    · rfl
  refine ⟨fun j completed => ?_, reported.nodup, fun j => ?_, reported.inside, reported.carries,
    reported.appended, fun members' raised => ?_⟩
  · by_cases self : j = k
    · subst self
      exact Function.update_self ..
    · simp only [State.setChild, State.setKernel] at completed
      rw [others j self] at completed
      simp only [State.setChild, Function.update_of_ne self]
      exact reported.settled j completed
  · by_cases self : j = k
    · subst self
      have unrecorded : .child j ∉ s.group.errors := fun member =>
        ((reported.recorded j).mp member).1 idle
      exact iff_of_false unrecorded fun recorded => recorded.1 idle
    · simp only [State.setChild, State.setKernel]
      rw [others j self]
      exact reported.recorded j
  · -- no child is alive when the parent has raised
    have out := (reported.raised members' raised).1
    have past : s.group.parent.past = true := by
      cases at_ : s.group.parent <;> rw [at_] at out <;> first | rfl | cases out
    exact absurd idle (members.booked past k (by rw [body]; simp))

omit [DecidableEq F] [DecidableEq E] in
/-- The first locked section of a callback. -/
theorem Reported.books {s : Watched K F E} (reported : Reported s) (members : Members s.group)
    {k : K} (idle : s.group.callback k = .idle) (done : s.group.child k = .done) :
    Reported { s with group := bookkeep s.group k } := by
  have unrecorded : .child k ∉ s.group.errors := fun member =>
    ((reported.recorded k).mp member).1 idle
  have alive : s.group.parent.stage ≠ .out := by
    intro out
    have past : s.group.parent.past = true := by
      cases at_ : s.group.parent <;> rw [at_] at out <;> first | rfl | cases out
    exact members.booked past k (by rw [done]; simp) idle
  have raised : ∀ members' (group : State K F E), s.raised = some members' →
      group.parent.stage = .out ∧ Complete { s with group := group } members' :=
    fun members' group raised => absurd (reported.raised members' raised).1 alive
  unfold bookkeep
  split
  · rename_i failed
    have body : .body ∈ s.group.errors ++ [Source.child k] ↔ .body ∈ s.group.errors := by simp
    refine ⟨reported.settled, ?_, fun j => ?_, ?_, ?_, ?_, fun members' => raised members' _⟩
    · refine List.nodup_append.mpr ⟨reported.nodup, List.pairwise_singleton .., ?_⟩
      rintro source member _ added rfl
      cases List.mem_singleton.mp added
      exact unrecorded member
    · by_cases self : j = k
      · subst self
        refine iff_of_true (List.mem_append_right _ (List.mem_singleton.mpr rfl)) ⟨?_, failed⟩
        simp only [State.setCallback, Function.update_self]
        split <;> simp
      · have other : Source.child j ≠ .child k := fun same => self (Source.child.inj same)
        simp only [State.setCallback, Function.update_of_ne self, List.mem_append,
          List.mem_singleton, other, or_false]
        exact reported.recorded j
    · exact fun inside => fun member => reported.inside inside (body.mp member)
    · intro exc carries
      obtain ⟨same, unwritten⟩ := reported.carries exc carries
      exact ⟨same, fun member => unwritten (body.mp member)⟩
    · exact fun appended => body.trans (reported.appended appended)
  · rename_i unfailed
    refine ⟨reported.settled, reported.nodup, fun j => ?_, reported.inside, reported.carries,
      reported.appended, fun members' => raised members' _⟩
    by_cases self : j = k
    · subst self
      exact iff_of_false unrecorded fun recorded => unfailed recorded.2
    · simp only [State.setCallback, Function.update_of_ne self]
      exact reported.recorded j

omit [DecidableEq K] [DecidableEq F] [DecidableEq E] in
/-- The parent appends the exception of its body. -/
theorem Reported.appends {s : Watched K F E} (reported : Reported s) {exc : Option Exc}
    (at_ : s.group.parent = .append exc) :
    Reported { s with group := { s.group with
      errors := if exc = some Exc.error ∨ exc = some Exc.base then s.group.errors ++ [Source.body]
        else s.group.errors }.setParent .report } := by
  have carries : s.group.parent.stage = .carries exc := by
    rw [at_]
    rfl
  obtain ⟨same, unwritten⟩ := reported.carries exc carries
  have unraised : ∀ members' (group : State K F E), s.raised = some members' →
      group.parent.stage = .out ∧ Complete { s with group := group } members' := by
    intro members' group raised
    have out := (reported.raised members' raised).1
    rw [carries] at out
    cases out
  by_cases reportable : exc = some Exc.error ∨ exc = some Exc.base
  · rw [if_pos reportable]
    refine ⟨reported.settled, ?_, fun k => ?_, by rintro ⟨⟩, by rintro _ ⟨⟩, fun _ => ?_,
      fun members' => unraised members' _⟩
    · refine List.nodup_append.mpr ⟨reported.nodup, List.pairwise_singleton .., ?_⟩
      rintro source member _ added rfl
      cases List.mem_singleton.mp added
      exact unwritten member
    · simp only [State.setParent, List.mem_append, List.mem_singleton, reduceCtorEq, or_false]
      exact reported.recorded k
    · refine iff_of_true (List.mem_append_right _ (List.mem_singleton.mpr rfl)) ?_
      rw [same]
      exact reportable
  · rw [if_neg reportable]
    refine ⟨reported.settled, reported.nodup, reported.recorded, by rintro ⟨⟩, by rintro _ ⟨⟩,
      fun _ => ?_, fun members' => unraised members' _⟩
    exact iff_of_false unwritten (by rw [same]; exact reportable)

omit [DecidableEq K] [DecidableEq F] [DecidableEq E] in
/-- The body of the group ends. -/
theorem Reported.bodyEnds {s : Watched K F E} (reported : Reported s) {exc : Option Exc}
    (body : s.group.parent = .body) :
    Reported { s with group := s.group.setParent (.exiting exc), ended := exc } := by
  have inside : s.group.parent.stage = .inside := by
    rw [body]
    rfl
  refine ⟨reported.settled, reported.nodup, reported.recorded, by rintro ⟨⟩, ?_, by rintro ⟨⟩, ?_⟩
  · intro other carries
    cases carries
    exact ⟨rfl, reported.inside inside⟩
  · intro members raised
    have out := (reported.raised members raised).1
    rw [inside] at out
    cases out

/-! ## The exception group -/

omit [DecidableEq K] [DecidableEq F] [DecidableEq E] in
/-- What the parent finds in `_errors` at its raise is complete. -/
theorem Reported.complete {s : Watched K F E} (reported : Reported s) (members : Members s.group)
    (appended : s.group.parent.stage = .appended) : Complete s s.group.errors where
  nodup := reported.nodup
  child := by
    intro k
    rw [reported.recorded k]
    refine and_iff_right_of_imp fun failed => ?_
    have past : s.group.parent.past = true := by
      cases at_ : s.group.parent <;> rw [at_] at appended <;> first | rfl | cases appended
    have done := reported.settled k (by rw [failed]; simp)
    exact members.booked past k (by rw [done]; simp)
  body := reported.appended appended

theorem raises_eq {s s' : State K F E} {a : Act K F E} {errors : List (Source K)}
    (raised : raises s a = some errors) (taken : step s a = some s') :
    errors = s.errors ∧ s.parent.stage = .appended ∧ s'.parent.stage = .out ∧
      s'.kernel = s.kernel := by
  cases a with
  | parent f =>
      cases at_ : s.parent with
      | cancelling =>
          simp only [raises, at_] at raised
          simp only [step, parentStep, at_] at taken
          split at raised <;> cases raised
          rename_i zero
          rw [if_pos zero] at taken
          cases taken
          exact ⟨rfl, rfl, rfl, rfl⟩
      | inReCancel =>
          simp only [raises, at_] at raised
          simp only [step, parentStep, at_] at taken
          split at raised <;> cases raised
          rename_i returned
          simp only [returned] at taken
          cases taken
          exact ⟨rfl, rfl, rfl, rfl⟩
      | _ =>
          simp only [raises, at_] at raised
          cases raised
  | _ => cases raised

theorem group_reported {s : Watched K F E} {a : Act K F E} {group : State K F E}
    (reported : Reported s) (members : Members s.group) (taken : step s.group a = some group) :
    Reported { s with group := group, ended := noteEnd s.ended a } := by
  by_cases records : a.records s.group
  · cases a with
    | childEnd k ending base =>
        simp only [step] at taken
        split at taken <;> cases taken
        rename_i body
        exact reported.childEnds members body
    | bodyEnd exc =>
        simp only [step] at taken
        split at taken <;> cases taken
        rename_i body
        exact reported.bodyEnds body
    | callback k =>
        have idle : s.group.callback k = .idle := records
        simp only [step, callbackStep, idle] at taken
        split at taken <;> cases taken
        rename_i ready
        exact reported.books members idle ready.2
    | parent f =>
        obtain ⟨exc, at_⟩ := records
        simp only [step, parentStep, at_] at taken
        cases taken
        exact reported.appends at_
    | _ => cases records
  · have quiet := reported.quiet (step_quiet records taken)
    cases a with
    | bodyEnd exc => exact absurd trivial records
    | _ => exact quiet

theorem reported_step {s s' : Watched K F E} {a : WatchedAct K F E} (reported : Reported s)
    (members : Members s.group) (taken : watchedStep s a = some s') : Reported s' := by
  cases a with
  | cancelParent e =>
      obtain ⟨kernel, called, rfl⟩ := Option.map_eq_some_iff.mp taken
      exact reported.quiet (Quiet.setKernel (Kernel.step_tasks called))
  | group a =>
      obtain ⟨group, moved, rfl⟩ := Option.map_eq_some_iff.mp taken
      have next := group_reported reported members moved
      cases raised : raises s.group a with
      | none => exact next
      | some errors =>
          simp only [Option.some_or]
          obtain ⟨rfl, appended, out, kernel⟩ := raises_eq raised moved
          have complete := reported.complete members appended
          have same : a.records s.group → False := by
            intro records
            cases a with
            | parent f =>
                obtain ⟨exc, at_⟩ := records
                rw [at_] at appended
                cases appended
            | _ => cases raised
          refine ⟨next.settled, next.nodup, next.recorded, next.inside, next.carries,
            next.appended, ?_⟩
          intro errors' given
          cases given
          refine ⟨out, complete.nodup, ?_, ?_⟩
          · intro k
            simp only [kernel]
            exact complete.child k
          · cases a with
            | bodyEnd exc => exact absurd trivial same
            | _ => exact complete.body

/-! ## Nobody sleeps past the last child -/

/-- The future the parent waits for. -/
def ParentPc.waitsFor : ParentPc K F → Option F
  | .waiting _ _ f _ => some f
  | _ => none

/-- The callback is in progress and, as far as it has chosen, on its way to `f`. -/
def CallbackPc.wakes (f : F) : CallbackPc K F → Prop
  | .abort _ | .cancelParent | .inCancel | .wake => True
  | .test g | .set g => g = f
  | .idle | .done => False

structure Awake (s : State K F E) : Prop where
  current : ∀ f, s.parent.waitsFor = some f → s.onCompletedFut = some f
  awake : ∀ f, s.parent.waitsFor = some f → s.kernel.state (.fut f) = .pending →
    s.tasks = [] → ∃ k, (s.callback k).wakes f

omit [DecidableEq K] [DecidableEq F] [DecidableEq E] in
/-- A parent that does not wait needs nobody. -/
theorem Awake.apart {s : State K F E} (apart : s.parent.waitsFor = none) : Awake s := by
  constructor
  · intro f waits
    rw [apart] at waits
    cases waits
  · intro f waits
    rw [apart] at waits
    cases waits

omit [DecidableEq K] [DecidableEq F] [DecidableEq E] in
/-- A step that makes no future pending again, empties no group and holds no
callback up. -/
theorem Awake.keep {s s' : State K F E} (awake : Awake s)
    (parent : s'.parent.waitsFor = s.parent.waitsFor)
    (current : s'.onCompletedFut = s.onCompletedFut)
    (pending : ∀ f, s'.kernel.state (.fut f) = .pending → s.kernel.state (.fut f) = .pending)
    (tasks : s'.tasks = [] → s.tasks = [])
    (wakes : ∀ k f, s.parent.waitsFor = some f → s'.kernel.state (.fut f) = .pending →
      s'.tasks = [] → (s.callback k).wakes f → (s'.callback k).wakes f) : Awake s' where
  current := by
    intro f waits
    rw [parent] at waits
    rw [current]
    exact awake.current f waits
  awake := by
    intro f waits still empty
    rw [parent] at waits
    obtain ⟨k, waking⟩ := awake.awake f waits (pending f still) (tasks empty)
    exact ⟨k, wakes k f waits still empty waking⟩

omit [DecidableEq K] [DecidableEq F] [DecidableEq E] in
theorem Awake.setKernel {s : State K F E} (awake : Awake s)
    {kernel : Kernel (Option K) F (Caller K E)}
    (pending : ∀ f, kernel.state (.fut f) = .pending → s.kernel.state (.fut f) = .pending) :
    Awake (s.setKernel kernel) :=
  awake.keep rfl rfl pending id fun _ _ _ _ _ => id

omit [DecidableEq F] [DecidableEq E] in
/-- A callback goes on, still on its way. -/
theorem Awake.setCallback {s : State K F E} (awake : Awake s) {k : K} {pc : CallbackPc K F}
    (next : ∀ f, s.parent.waitsFor = some f → s.kernel.state (.fut f) = .pending →
      s.tasks = [] → (s.callback k).wakes f → pc.wakes f) : Awake (s.setCallback k pc) := by
  refine awake.keep rfl rfl (fun _ => id) id fun j f waits pending empty waking => ?_
  by_cases self : j = k
  · subst self
    simp only [State.setCallback, Function.update_self]
    exact next f waits pending empty waking
  · simpa only [State.setCallback, Function.update_of_ne self] using waking

theorem Awake.stepsKernel {s : State K F E} (awake : Awake s)
    {kernel : Kernel (Option K) F (Caller K E)} {a : KernelAct (Option K) F (Caller K E)}
    (taken : s.kernel.step a = some kernel) : Awake (s.setKernel kernel) :=
  awake.setKernel (Kernel.step_futures taken)

theorem Awake.abort {s s' : State K F E} (awake : Awake s) {c : Caller K E} {pc : AbortPc K}
    {next : Option (AbortPc K)} (taken : abortStep s c pc = some (s', next)) : Awake s' := by
  rcases abortStep_cases taken with rfl | rfl | ⟨kernel, rfl, ⟨k, called⟩ | called⟩
  · exact awake
  · exact awake.keep rfl rfl (fun _ => id) id fun _ _ _ _ _ => id
  · exact awake.stepsKernel called
  · exact awake.stepsKernel (a := .call c) called

omit [DecidableEq F] [DecidableEq E] in
theorem Awake.create {s s' : State K F E} (awake : Awake s) {k : K} {pc : CreatePc}
    {next : Option CreatePc} (taken : createStep s k pc = some (s', next)) : Awake s' := by
  rcases createStep_cases taken with ⟨rfl, -, -⟩ | ⟨-, -, -, rfl⟩ | ⟨-, -, rfl⟩ | ⟨-, -, rfl⟩
  · exact awake
  · exact awake.keep rfl rfl (fun _ => id) id fun _ _ _ _ _ => id
  · refine awake.keep rfl rfl (fun _ => id) (fun empty => ?_) fun _ _ _ _ _ => id
    have member : k ∈ s.tasks.insert k := List.mem_insert_self
    have none : s.tasks.insert k = [] := empty
    rw [none] at member
    cases member
  · exact awake.keep rfl rfl (fun _ => id) id fun _ _ _ _ _ => id

omit [DecidableEq F] [DecidableEq E] in
/-- The first section of a callback leaves it on its way to the parent. -/
theorem Awake.books {s : State K F E} (awake : Awake s) (k : K) : Awake (bookkeep s k) := by
  have booked : ∀ (s1 : State K F E) (pc : CallbackPc K F), s1.parent = s.parent →
      s1.onCompletedFut = s.onCompletedFut → (∀ f, pc.wakes f) → Awake (s1.setCallback k pc) := by
    intro s1 pc parent current wakes
    constructor
    · intro f waits
      simp only [State.setCallback, parent] at waits
      exact current.trans (awake.current f waits)
    · intro f _ _ _
      refine ⟨k, ?_⟩
      simp only [State.setCallback, Function.update_self]
      exact wakes f
  unfold bookkeep
  split
  · refine booked _ _ rfl rfl fun f => ?_
    split <;> exact trivial
  · exact booked _ _ rfl rfl fun _ => trivial

theorem Awake.callback {s s' : State K F E} (awake : Awake s) {k : K}
    (taken : callbackStep s k = some s') : Awake s' := by
  unfold callbackStep at taken
  split at taken
  · split at taken <;> cases taken
    exact awake.books k
  · obtain ⟨⟨s1, next⟩, moved, rfl⟩ := Option.map_eq_some_iff.mp taken
    apply (awake.abort moved).setCallback
    intro _ _ _ _ _
    cases next <;> exact trivial
  · obtain ⟨kernel, called, rfl⟩ := Option.map_eq_some_iff.mp taken
    exact (awake.stepsKernel called).setCallback fun _ _ _ _ _ => trivial
  · split at taken
    · cases taken
      exact awake.setCallback fun _ _ _ _ _ => trivial
    · obtain ⟨kernel, called, rfl⟩ := Option.map_eq_some_iff.mp taken
      exact awake.stepsKernel (a := .call (.callback k)) called
  · -- with `_tasks` empty the callback has read the future the parent waits for
    cases taken
    apply awake.setCallback
    intro f waits _ empty _
    rw [awake.current f waits]
    simp only [empty, if_true, CallbackPc.wakes]
  · rename_i g at_
    cases taken
    apply awake.setCallback
    intro f _ pending _ waking
    rw [at_] at waking
    cases waking
    rw [if_pos pending]
    exact rfl
  · rename_i g at_
    cases taken
    split
    · rename_i pending
      refine awake.keep rfl rfl (fun f still => ?_) id fun j f _ still _ waking => ?_
      · by_cases self : f = g
        · exact self ▸ pending
        · have other : Ref.fut (T := Option K) f ≠ .fut g := fun same => self (Ref.fut.inj same)
          simpa only [State.setCallback, State.setKernel, Kernel.setState,
            Function.update_of_ne other] using still
      · by_cases self : j = k
        · -- the future this callback is on its way to is complete now
          subst self
          rw [at_] at waking
          cases waking
          simp [State.setCallback, State.setKernel, Kernel.setState] at still
        · simpa only [State.setCallback, State.setKernel, Function.update_of_ne self] using waking
    · rename_i completed
      apply awake.setCallback
      intro f _ pending _ waking
      rw [at_] at waking
      cases waking
      exact absurd pending completed
  · cases taken

/-- The parent falls asleep in its loop only. -/
theorem parentStep_apart {s s' : State K F E} {f : F}
    (busy : ∀ exc prop, s.parent ≠ .loop exc prop) (apart : s.parent.waitsFor = none)
    (taken : parentStep s f = some s') : s'.parent.waitsFor = none := by
  unfold parentStep at taken
  split at taken
  · cases taken
  · cases taken
  · obtain ⟨⟨kernel, next⟩, -, rfl⟩ := Option.map_eq_some_iff.mp taken
    cases next <;> rfl
  · obtain ⟨⟨s1, next⟩, -, rfl⟩ := Option.map_eq_some_iff.mp taken
    cases next <;> rfl
  · cases taken
    rfl
  · cases taken
    rfl
  · cases taken
    simp only [State.setParent]
    split <;> rfl
  · rename_i exc prop again pc at_
    obtain ⟨⟨s1, next⟩, -, rfl⟩ := Option.map_eq_some_iff.mp taken
    cases next <;> cases again <;> rfl
  · rename_i exc prop at_
    exact absurd at_ (busy exc prop)
  · rename_i exc prop g pc at_
    rw [at_] at apart
    cases apart
  · cases taken
    simp only [State.setParent]
    split <;> rfl
  · cases taken
    rfl
  · cases taken
    simp only [State.setParent]
    split <;> rfl
  · cases taken
    simp only [State.setParent]
    split <;> rfl
  · cases taken
    simp only [State.setParent]
    cases (s.kernel.uncancelStep none _).2 <;> rfl
  · cases taken
    rfl
  · cases taken
    simp only [State.setParent]
    split <;> rfl
  · cases taken
    rfl
  · cases taken
    simp only [State.setParent]
    split <;> rfl
  · cases taken
    simp only [State.setParent]
    split <;> rfl
  · cases taken
    simp only [State.setParent]
    cases (s.kernel.uncancelStep none _).2 <;> rfl
  · obtain ⟨kernel, -, rfl⟩ := Option.map_eq_some_iff.mp taken
    rfl
  · split at taken
    · cases taken
      rfl
    · obtain ⟨kernel, -, rfl⟩ := Option.map_eq_some_iff.mp taken
      exact apart
  · cases taken
    rfl

theorem Awake.parentMoves {s s' : State K F E} (awake : Awake s) {f : F}
    (taken : parentStep s f = some s') : Awake s' := by
  cases at_ : s.parent with
  | loop exc prop =>
      simp only [parentStep, at_] at taken
      split at taken
      · cases taken
        exact Awake.apart rfl
      · -- the parent goes to sleep with a child in `_tasks`
        rename_i crowded
        have asleep : ∀ (s1 : State K F E) (g : F), s1.tasks = s.tasks →
            s1.onCompletedFut = some g → Awake (s1.setParent (.waiting exc prop g .test)) := by
          intro s1 g tasks current
          constructor
          · intro h waits
            cases waits
            exact current
          · intro h _ _ empty
            exact absurd (tasks.symm.trans empty) crowded
        split at taken
        · rename_i g current
          cases taken
          exact asleep s g rfl current
        · split at taken <;> cases taken
          exact asleep _ f rfl rfl
  | waiting exc prop g pc =>
      simp only [parentStep, at_] at taken
      obtain ⟨⟨kernel, next⟩, awaited, rfl⟩ := Option.map_eq_some_iff.mp taken
      rcases next with pc' | outcome
      · have waits : s.parent.waitsFor = some g := by
          rw [at_]
          rfl
        refine awake.keep waits.symm rfl (fun h still => ?_) id fun _ _ _ _ _ => id
        rwa [State.setParent, State.setKernel, (awaitStep_frame awaited).1] at still
      · apply Awake.apart
        cases outcome <;> rfl
  | _ =>
      apply Awake.apart
      apply parentStep_apart _ _ taken
      · intro exc prop
        rw [at_]
        simp
      · rw [at_]
        rfl

theorem awake_step {s s' : State K F E} {a : Act K F E} (awake : Awake s)
    (taken : step s a = some s') : Awake s' := by
  cases a with
  | complete _ _ | wake _ | cancel _ _ | call _ | childAwait _ _ _ | childUncancel _ _ =>
      obtain ⟨kernel, rfl, -, pending⟩ := step_outside rfl taken
      exact awake.setKernel pending
  | childCreate k j =>
      simp only [step] at taken
      split at taken <;> cases taken
      exact awake.keep rfl rfl (fun _ => id) id fun _ _ _ _ _ => id
  | childEnd k ending base =>
      simp only [step] at taken
      split at taken <;> cases taken
      refine awake.keep rfl rfl (fun f still => ?_) id fun _ _ _ _ _ => id
      have apart : Ref.fut f ≠ Ref.task (some k) := by simp
      simp only [State.setChild, State.setKernel, Kernel.settle] at still
      split at still
      · simpa only [Kernel.setState, Function.update_of_ne apart] using still
      · exact still
  | child k =>
      simp only [step] at taken
      split at taken
      · obtain ⟨⟨s1, next⟩, moved, rfl⟩ := Option.map_eq_some_iff.mp taken
        exact (awake.create moved).keep rfl rfl (fun _ => id) id fun _ _ _ _ _ => id
      · cases taken
  | callback k => exact awake.callback taken
  | bodyAwait r =>
      simp only [step] at taken
      split at taken <;> cases taken
      exact Awake.apart rfl
  | bodyCreate j =>
      simp only [step] at taken
      split at taken <;> cases taken
      exact Awake.apart rfl
  | bodyEnd exc =>
      simp only [step] at taken
      split at taken <;> cases taken
      exact Awake.apart rfl
  | parent f => exact awake.parentMoves taken

/-! ## The claim and its runs -/

/-- The callback has begun and has not returned. -/
def CallbackPc.inProgress : CallbackPc K F → Bool
  | .idle | .done => false
  | _ => true

omit [DecidableEq K] [DecidableEq F] in
theorem CallbackPc.wakes.inProgress {f : F} {pc : CallbackPc K F} (wakes : pc.wakes f) :
    pc.inProgress = true := by
  cases pc <;> first | rfl | cases wakes

/-- What the group owes to whoever entered it. -/
structure Reports (s : Watched K F E) : Prop where
  /-- past its loop the parent has every outcome recorded -/
  recorded : s.group.parent.past = true → ∀ k, s.group.child k ≠ .absent →
    s.group.callback k ≠ .idle ∧
      (.child k ∈ s.group.errors ↔ s.group.kernel.state (.task (some k)) = .failed)
  members : ∀ members, s.raised = some members → Complete s members
  awake : ∀ exc prop f pc, s.group.parent = .waiting exc prop f pc →
    s.group.kernel.state (.fut f) = .pending → s.group.tasks = [] →
    ∃ k, (s.group.callback k).inProgress = true

omit [DecidableEq K] [DecidableEq F] [DecidableEq E] in
theorem reported_start {s : Watched K F E} (start : WatchedStart s) : Reported s := by
  obtain ⟨⟨⟨state, -⟩, -, -, -, -, -, errors, -, -, -, -, -, callback, parent⟩, unraised⟩ := start
  have inside : s.group.parent.stage = .inside := by
    rw [parent]
    rfl
  refine ⟨fun k completed => absurd (state _) completed, ?_, fun k => ?_, fun _ => ?_,
    fun exc carries => ?_, fun appended => ?_, fun members raised => ?_⟩
  · rw [errors]
    exact .nil
  · rw [errors]
    exact iff_of_false List.not_mem_nil fun recorded => recorded.1 (callback k)
  · rw [errors]
    exact List.not_mem_nil
  · rw [inside] at carries
    cases carries
  · rw [inside] at appended
    cases appended
  · rw [unraised] at raised
    cases raised

/-- In every run, however the children end and are interleaved with the parent
and however often it is cancelled. -/
theorem group_reports_every_error {s : Watched K F E}
    (reached : (watchedMachine K F E).Reachable s) : Reports s := by
  obtain ⟨members, reported, awake⟩ := Machine.Reach.invariant
    (fun s => Members s.group ∧ Reported s ∧ Awake s.group)
    (fun s (start : WatchedStart s) => by
      refine ⟨members_start start.1, reported_start start, Awake.apart ?_⟩
      obtain ⟨-, -, -, -, -, -, -, -, -, -, -, -, -, parent⟩ := start.1
      rw [parent]
      rfl)
    (fun s a s' before _ taken => by
      obtain ⟨members, reported, awake⟩ := before
      refine ⟨?_, reported_step reported members taken, ?_⟩
      · cases a with
        | group a =>
            obtain ⟨group, moved, rfl⟩ := Option.map_eq_some_iff.mp taken
            exact members_step members moved
        | cancelParent e =>
            obtain ⟨kernel, -, rfl⟩ := Option.map_eq_some_iff.mp taken
            exact members.keep rfl rfl (fun _ => Iff.rfl) rfl rfl (fun _ => id) members.booked
      · cases a with
        | group a =>
            obtain ⟨group, moved, rfl⟩ := Option.map_eq_some_iff.mp taken
            exact awake_step awake moved
        | cancelParent e =>
            obtain ⟨kernel, called, rfl⟩ := Option.map_eq_some_iff.mp taken
            exact awake.stepsKernel called)
    reached
  refine ⟨fun past k present => ?_, fun errors raised => (reported.raised errors raised).2,
    fun exc prop f pc at_ pending empty => ?_⟩
  · have begun := members.booked past k present
    exact ⟨begun, (reported.recorded k).trans (and_iff_right begun)⟩
  · have waits : s.group.parent.waitsFor = some f := by
      rw [at_]
      rfl
    obtain ⟨k, wakes⟩ := awake.awake f waits pending empty
    exact ⟨k, wakes.inProgress⟩

def freshWatched (K F E : Type) : Watched K F E where
  group := freshState K F E
  ended := none
  raised := none

omit [DecidableEq K] [DecidableEq F] [DecidableEq E] in
theorem freshWatched_start : WatchedStart (freshWatched K F E) :=
  ⟨freshState_start, rfl⟩

/-- The parent waits for its child, is cancelled there, aborts the group and
waits again; then the child fails. -/
def interruptedRun : List (WatchedAct Unit Nat Nat) :=
  List.flatten
    [.group (.bodyCreate ()) :: .replicate 5 (.group (.parent 0)),
      .group (.bodyEnd none) :: .replicate 7 (.group (.parent 0)),
      .cancelParent 0 :: .replicate 4 (.group (.call 0)),
      .group (.wake (.fut 0)) :: .replicate 16 (.group (.parent 1)),
      .group (.childEnd () .raised false) :: .replicate 4 (.group (.callback ())),
      .group (.wake (.fut 1)) :: .replicate 21 (.group (.parent 1))]

theorem interruptedRun_ends :
    ((watchedMachine Unit Nat Nat).exec (freshWatched _ _ _) interruptedRun).any
      (fun s => s.raised = some [.child ()]) = true := by
  decide +kernel

theorem group_reports_every_error_interrupted :
    ∃ s : Watched Unit Nat Nat, s.raised = some [.child ()] ∧ Reports s := by
  obtain ⟨s, reached, ends⟩ :=
    Machine.Reachable.exists_of_exec freshWatched_start interruptedRun_ends
  exact ⟨s, of_decide_eq_true ends, group_reports_every_error reached⟩

end MtAsyncio.TaskGroup
