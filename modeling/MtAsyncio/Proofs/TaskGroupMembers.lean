/-
Module: MtAsyncio.Proofs.TaskGroupMembers
Purpose: Who belongs to a group.  A child whose callback has not begun is in
  `_tasks` or on its way there, so a parent that finds `_tasks` empty has seen
  every callback begin; and a call of `cancel` on the parent counts itself once.
Trusted boundary: none
Main exports: Unawaited, Counted, Members, Members.all_booked, members_step,
  abortStep_cases, step_outside
-/
import MtAsyncio.Model.TaskGroup
import MtAsyncio.Proofs.TaskCancel

namespace MtAsyncio.TaskGroup

open Lib (Machine)
open Tasks

variable {K F E C : Type} [DecidableEq K] [DecidableEq F] [DecidableEq E] [DecidableEq C]

/-! ## Cancel calls and the parent -/

/-- Nobody waits on the parent task, so no call is passed on to it. -/
structure Unawaited (k : Kernel (Option K) F C) : Prop where
  waiter : ∀ t, k.futWaiter t ≠ some (.task none)
  frames : ∀ c t, (t, CancelPc.futCancel (.task none)) ∉ k.calls c

/-- A stack with no call on the parent in it. -/
def Spares (stack : List (Option K × CancelPc (Option K) F)) : Prop :=
  ∀ frame, frame ∈ stack → frame.1 ≠ none

/-- The calls around a call on the parent, which has counted itself. -/
def Counted (stack : List (Option K × CancelPc (Option K) F)) : Prop :=
  stack = [] ∨ ∃ upper pc, stack = upper ++ [(none, pc)] ∧ pc ≠ .done ∧ pc ≠ .count ∧ Spares upper

omit [DecidableEq K] [DecidableEq F] in
theorem Spares.tail {frame : Option K × CancelPc (Option K) F}
    {rest : List (Option K × CancelPc (Option K) F)} (spares : Spares (frame :: rest)) :
    Spares rest :=
  fun other member => spares other (List.mem_cons_of_mem _ member)

omit [DecidableEq K] [DecidableEq F] in
theorem Spares.cons {t : Option K} {pc : CancelPc (Option K) F}
    {rest : List (Option K × CancelPc (Option K) F)} (child : t ≠ none) (spares : Spares rest) :
    Spares ((t, pc) :: rest) := by
  intro frame member
  rcases List.mem_cons.mp member with rfl | member
  · exact child
  · exact spares frame member

omit [DecidableEq K] [DecidableEq F] in
theorem Spares.returned {result : Bool} {rest : List (Option K × CancelPc (Option K) F)}
    (spares : Spares rest) : Spares (returnTo result rest) := by
  cases rest with
  | nil => rintro _ ⟨⟩
  | cons frame rest =>
      obtain ⟨t, pc⟩ := frame
      cases result with
      | true => rintro _ ⟨⟩
      | false => exact spares.tail.cons (spares _ List.mem_cons_self)

/-- What a step of a `cancel` call does to the parent: the count, the request
and the frames of the call. -/
structure Passes (k : Kernel (Option K) F C) (c : C) (k' : Kernel (Option K) F C) : Prop where
  count : k'.numCancelsRequested none = k.numCancelsRequested none
  must : k'.mustCancel none = k.mustCancel none

/-- A step of a call whose innermost frame is not on the parent: it does
nothing to the parent and gives a stack of the same form. -/
theorem cancelStep_spares {k k' : Kernel (Option K) F C} {c : C} {t : Option K}
    {pc : CancelPc (Option K) F} {rest : List (Option K × CancelPc (Option K) F)}
    (unawaited : Unawaited k) (stack : k.calls c = (t, pc) :: rest) (child : t ≠ none)
    (taken : k.cancelStep c = some k') :
    Passes k c k' ∧ ∃ upper, Spares upper ∧
      (k'.calls c = upper ++ rest ∨ ∃ result, k'.calls c = returnTo result rest) := by
  have parent : (none : Option K) ≠ t := child.symm
  have set : ∀ (g : Kernel (Option K) F C) (new), (g.setCalls c new).calls c = new :=
    fun g new => Function.update_self ..
  simp only [Kernel.cancelStep, stack] at taken
  cases pc with
  | done =>
      cases taken
      refine ⟨by split <;> exact ⟨rfl, rfl⟩, ?_⟩
      split
      · exact ⟨[(t, .count)], Spares.cons child (by rintro _ ⟨⟩), .inl (set _ _)⟩
      · exact ⟨[], by rintro _ ⟨⟩, .inr ⟨false, set _ _⟩⟩
  | count =>
      cases taken
      refine ⟨⟨Function.update_of_ne parent _ _, rfl⟩, [(t, .read)], Spares.cons child
        (by rintro _ ⟨⟩),
        .inl (set _ _)⟩
  | read =>
      dsimp only at taken
      split at taken <;> cases taken
      · exact ⟨⟨rfl, Function.update_of_ne parent _ _⟩, [], by rintro _ ⟨⟩, .inr ⟨true, set _ _⟩⟩
      · rename_i r waiter
        exact ⟨⟨rfl, rfl⟩, [(t, .futCancel r)], Spares.cons child (by rintro _ ⟨⟩), .inl (set _ _)⟩
  | futCancel r =>
      cases r with
      | fut f =>
          dsimp only at taken
          split at taken <;> cases taken
          · exact ⟨⟨rfl, rfl⟩, [], by rintro _ ⟨⟩, .inr ⟨true, set _ _⟩⟩
          · exact ⟨⟨rfl, rfl⟩, [(t, .set)], Spares.cons child (by rintro _ ⟨⟩), .inl (set _ _)⟩
      | task u =>
          cases taken
          have other : u ≠ none := by
            rintro rfl
            exact unawaited.frames c t (stack ▸ List.mem_cons_self)
          exact ⟨⟨rfl, rfl⟩, [(u, .done), (t, .futCancel (.task u))],
            Spares.cons other (Spares.cons child (by rintro _ ⟨⟩)), .inl (set _ _)⟩
  | set =>
      cases taken
      exact ⟨⟨rfl, Function.update_of_ne parent _ _⟩, [], by rintro _ ⟨⟩, .inr ⟨true, set _ _⟩⟩

/-- Nobody comes to wait on the parent by a step of a call. -/
theorem Unawaited.cancelStep {k k' : Kernel (Option K) F C} {c : C} (unawaited : Unawaited k)
    (taken : k.cancelStep c = some k') : Unawaited k' := by
  have effect := Kernel.cancelStep_effect taken
  refine ⟨by rw [effect.futWaiter]; exact unawaited.waiter, fun c' t member => ?_⟩
  by_cases self : c' = c
  · subst self
    rcases effect.frames t _ member with old | read
    · exact unawaited.frames c' t old
    · exact unawaited.waiter t read
  · rw [effect.others c' self] at member
    exact unawaited.frames c' t member

theorem cancelStep_spares_all {k k' : Kernel (Option K) F C} {c : C} (unawaited : Unawaited k)
    (spares : Spares (k.calls c)) (taken : k.cancelStep c = some k') :
    Passes k c k' ∧ Spares (k'.calls c) := by
  cases stack : k.calls c with
  | nil =>
      simp only [Kernel.cancelStep, stack] at taken
      cases taken
  | cons frame rest =>
      obtain ⟨t, pc⟩ := frame
      rw [stack] at spares
      obtain ⟨passes, upper, above, next⟩ := cancelStep_spares unawaited stack
        (spares _ List.mem_cons_self) taken
      refine ⟨passes, ?_⟩
      rcases next with same | ⟨result, same⟩
      · rw [same]
        intro frame member
        rcases List.mem_append.mp member with member | member
        · exact above frame member
        · exact spares.tail frame member
      · rw [same]
        exact spares.tail.returned

/-- A step of a call on the parent that has counted itself. -/
theorem cancelStep_counted {k k' : Kernel (Option K) F C} {c : C} (unawaited : Unawaited k)
    (counted : Counted (k.calls c)) (taken : k.cancelStep c = some k') :
    k'.numCancelsRequested none = k.numCancelsRequested none ∧ Counted (k'.calls c) := by
  have set : ∀ (g : Kernel (Option K) F C) (new), (g.setCalls c new).calls c = new :=
    fun g new => Function.update_self ..
  rcases counted with empty | ⟨upper, pc, stack, notDone, notCount, spares⟩
  · simp only [Kernel.cancelStep, empty] at taken
    cases taken
  · cases upper with
    | nil =>
        simp only [Kernel.cancelStep, stack, List.nil_append] at taken
        have only : ∀ pc', pc' ≠ .done → pc' ≠ .count →
            Counted [((none : Option K), (pc' : CancelPc (Option K) F))] :=
          fun pc' one two => .inr ⟨[], pc', rfl, one, two, by rintro _ ⟨⟩⟩
        cases pc with
        | done => exact absurd rfl notDone
        | count => exact absurd rfl notCount
        | read =>
            dsimp only at taken
            split at taken <;> cases taken
            · exact ⟨rfl, .inl (set _ _)⟩
            · refine ⟨rfl, ?_⟩
              rw [set]
              exact only _ (by simp) (by simp)
        | futCancel r =>
            cases r with
            | fut f =>
                dsimp only at taken
                split at taken <;> cases taken
                · exact ⟨rfl, .inl (set _ _)⟩
                · refine ⟨rfl, ?_⟩
                  rw [set]
                  exact only _ (by simp) (by simp)
            | task u =>
                cases taken
                have other : u ≠ none := by
                  rintro rfl
                  exact unawaited.frames c none (stack ▸ List.mem_cons_self)
                refine ⟨rfl, .inr ⟨[(u, .done)], _, set _ _, by simp, by simp,
                  Spares.cons other (by rintro _ ⟨⟩)⟩⟩
        | set =>
            cases taken
            exact ⟨rfl, .inl (set _ _)⟩
    | cons frame upper =>
        obtain ⟨t, innerPc⟩ := frame
        rw [List.cons_append] at stack
        obtain ⟨passes, above, sparesAbove, next⟩ := cancelStep_spares unawaited stack
          (spares _ List.mem_cons_self) taken
        refine ⟨passes.count, ?_⟩
        rcases next with same | ⟨result, same⟩
        · refine .inr ⟨above ++ upper, pc, by rw [same, List.append_assoc], notDone, notCount, ?_⟩
          intro frame member
          rcases List.mem_append.mp member with member | member
          · exact sparesAbove frame member
          · exact spares.tail frame member
        · rw [same]
          cases result with
          | true =>
              left
              cases upper <;> rfl
          | false =>
              right
              cases upper with
              | nil => exact ⟨[], .set, rfl, by simp, by simp, by rintro _ ⟨⟩⟩
              | cons outer upper =>
                  exact ⟨(outer.1, .set) :: upper, pc, rfl, notDone, notCount,
                    spares.tail.tail.cons (spares.tail _ List.mem_cons_self)⟩

/-! ## Children -/

/-- The parent has seen `_tasks` empty. -/
def ParentPc.past : ParentPc K F → Bool
  | .raiseBase _ _ | .requested _ _ | .uncancel _ _ _ | .uncancelled _ _ | .propagate _ _
  | .append _ | .report | .cancelling | .reUncancel _ | .reCancel | .inReCancel | .leave
  | .left => true
  | _ => false

/-- Every child whose callback has not begun is in `_tasks` or on its way there;
the maker of a child on its way is older than the child. -/
structure Members (s : State K F E) : Prop where
  started : ∀ k, s.callback k ≠ .idle → s.child k = .done
  member : ∀ k, s.child k ≠ .absent → s.callback k = .idle →
    k ∈ s.tasks ∨ s.parent = .creating k .add ∨ ∃ j, s.child j = .creating k .add
  order : ∀ j k, s.child j = .creating k .add → s.born j < s.born k
  clock : ∀ k, s.child k ≠ .absent → s.born k < s.clock
  booked : s.parent.past = true → ∀ k, s.child k ≠ .absent → s.callback k ≠ .idle

omit [DecidableEq E] in
/-- With `_tasks` empty and the parent not making a child, every callback has
begun. -/
theorem Members.all_booked {s : State K F E} (members : Members s) (empty : s.tasks = [])
    (idle : ∀ k, s.parent ≠ .creating k .add) :
    ∀ k, s.child k ≠ .absent → s.callback k ≠ .idle := by
  -- the oldest child that is left would have an older maker
  have older : ∀ n k, s.born k < n → s.child k ≠ .absent → s.callback k ≠ .idle := by
    intro n
    induction n with
    | zero => exact fun k young => absurd young (Nat.not_lt_zero _)
    | succ n inductionHypothesis =>
        intro k young present waiting
        rcases members.member k present waiting with member | making | ⟨j, making⟩
        · rw [empty] at member
          cases member
        · exact idle k making
        · have before := members.order j k making
          have maker : s.child j ≠ .absent := by
            rw [making]
            simp
          refine inductionHypothesis j (by omega) maker ?_
          by_contra begun
          rw [members.started j begun] at making
          cases making
  exact fun k => older (s.born k + 1) k (Nat.lt_succ_self _)

omit [DecidableEq K] [DecidableEq F] [DecidableEq E] in
/-- A step that moves no child and no entry of `_tasks`. -/
theorem Members.keep {s s' : State K F E} (members : Members s) (child : s'.child = s.child)
    (tasks : s'.tasks = s.tasks)
    (idle : ∀ k, s'.callback k = .idle ↔ s.callback k = .idle)
    (born : s'.born = s.born) (clock : s'.clock = s.clock)
    (making : ∀ k, s.parent = .creating k .add → s'.parent = .creating k .add)
    (past : s'.parent.past = true → ∀ k, s.child k ≠ .absent → s.callback k ≠ .idle) :
    Members s' where
  started := by
    intro k begun
    rw [child]
    exact members.started k fun waiting => begun ((idle k).mpr waiting)
  member := by
    intro k present waiting
    rw [child] at present
    rw [tasks, child]
    rcases members.member k present ((idle k).mp waiting) with member | parent | maker
    · exact .inl member
    · exact .inr (.inl (making k parent))
    · exact .inr (.inr maker)
  order := by
    rw [child, born]
    exact members.order
  clock := by
    rw [child, born, clock]
    exact members.clock
  booked := by
    intro left k present waiting
    rw [child] at present
    exact past left k present ((idle k).mp waiting)

omit [DecidableEq F] [DecidableEq E] in
/-- The steps of `create_task` before its caller moves on. -/
theorem createStep_cases {s s' : State K F E} {k : K} {pc : CreatePc} {next : Option CreatePc}
    (taken : createStep s k pc = some (s', next)) :
    (s' = s ∧ next ≠ some .add ∧ (pc = .exiting ∨ pc = .aborting)) ∨
      (pc = .spawn ∧ s.child k = .absent ∧ next = some .add ∧
        s' = { s.setChild k .body with
          born := Function.update s.born k s.clock, clock := s.clock + 1 }) ∨
      (pc = .add ∧ next = some .callback ∧ s' = { s with tasks := s.tasks.insert k }) ∨
      (pc = .callback ∧ next = none ∧
        s' = { s with registered := Function.update s.registered k true }) := by
  cases pc with
  | exiting =>
      cases taken
      refine .inl ⟨rfl, ?_, .inl rfl⟩
      split <;> simp
  | aborting =>
      cases taken
      refine .inl ⟨rfl, ?_, .inr rfl⟩
      split <;> simp
  | spawn =>
      simp only [createStep] at taken
      split at taken <;> cases taken
      exact .inr (.inl ⟨rfl, ‹_›, rfl, rfl⟩)
  | add =>
      cases taken
      exact .inr (.inr (.inl ⟨rfl, rfl, rfl⟩))
  | callback =>
      cases taken
      exact .inr (.inr (.inr ⟨rfl, rfl, rfl⟩))

omit [DecidableEq K] in
theorem ChildPc.afterCreate_add {k j : K} {next : Option CreatePc} :
    (ChildPc.afterCreate k next = .creating j .add) ↔ k = j ∧ next = some .add := by
  cases next <;> simp [ChildPc.afterCreate]

omit [DecidableEq E] in
/-- The parent takes a step of `create_task`. -/
theorem Members.parentCreates {s s' : State K F E} (members : Members s) {k : K} {pc : CreatePc}
    {next : Option CreatePc} (at_ : s.parent = .creating k pc)
    (taken : createStep s k pc = some (s', next)) :
    Members (s'.setParent (.afterCreate k next)) := by
  have present : (ParentPc.afterCreate (F := F) k next).past = false := by
    cases next <;> rfl
  have notPast : ∀ {P : Prop}, (ParentPc.afterCreate (F := F) k next).past = true → P := by
    intro P past
    rw [present] at past
    cases past
  rcases createStep_cases taken with ⟨rfl, -, early⟩ | ⟨rfl, absent, rfl, rfl⟩ | ⟨rfl, rfl, rfl⟩ |
    ⟨rfl, rfl, rfl⟩
  · refine members.keep rfl rfl (fun _ => Iff.rfl) rfl rfl (fun j making => ?_) notPast
    rw [at_] at making
    rcases early with rfl | rfl <;> cases making
  · have fresh : s.callback k = .idle := by
      by_contra begun
      rw [members.started k begun] at absent
      cases absent
    have unmade : ∀ j i, s.child j = .creating i .add → j ≠ k := by
      rintro j i making rfl
      rw [absent] at making
      cases making
    refine ⟨fun j begun => ?_, fun j there waiting => ?_, fun j i making => ?_, fun j there => ?_,
      notPast⟩
    · have other : j ≠ k := fun same => begun (same ▸ fresh)
      simp only [State.setParent, State.setChild, Function.update_of_ne other]
      exact members.started j begun
    · by_cases self : j = k
      · exact .inr (.inl (self ▸ rfl))
      · simp only [State.setParent, State.setChild, Function.update_of_ne self] at there
        rcases members.member j there waiting with member | making | ⟨i, making⟩
        · exact .inl member
        · rw [at_] at making
          cases making
        · refine .inr (.inr ⟨i, ?_⟩)
          simp only [State.setParent, State.setChild,
            Function.update_of_ne (unmade i j making), making]
    · by_cases self : j = k
      · subst self
        simp [State.setParent, State.setChild] at making
      · simp only [State.setParent, State.setChild, Function.update_of_ne self] at making ⊢
        by_cases made : i = k
        · subst made
          rw [Function.update_self]
          exact members.clock j (by rw [making]; simp)
        · rw [Function.update_of_ne made]
          exact members.order j i making
    · by_cases self : j = k
      · subst self
        simp [State.setParent]
      · simp only [State.setParent, State.setChild, Function.update_of_ne self] at there ⊢
        exact Nat.lt_succ_of_lt (members.clock j there)
  · refine ⟨members.started, fun j there waiting => ?_, members.order, members.clock, notPast⟩
    rcases members.member j there waiting with member | making | maker
    · exact .inl (List.mem_insert_of_mem member)
    · rw [at_] at making
      cases making
      exact .inl List.mem_insert_self
    · exact .inr (.inr maker)
  · refine ⟨members.started, fun j there waiting => ?_, members.order, members.clock, notPast⟩
    rcases members.member j there waiting with member | making | maker
    · exact .inl member
    · rw [at_] at making
      cases making
    · exact .inr (.inr maker)

omit [DecidableEq F] [DecidableEq E] in
/-- A child whose callback has not begun moves on and adds nobody. -/
theorem Members.setChild {s : State K F E} (members : Members s) {k : K} {pc : ChildPc K}
    (present : s.child k ≠ .absent) (waiting : s.callback k = .idle)
    (before : ∀ j, s.child k ≠ .creating j .add) (after : ∀ j, pc ≠ .creating j .add) :
    Members (s.setChild k pc) where
  started := by
    intro j begun
    have other : j ≠ k := fun same => begun (same ▸ waiting)
    simp only [State.setChild, Function.update_of_ne other]
    exact members.started j begun
  member := by
    intro j there idle
    have was : s.child j ≠ .absent := by
      by_cases self : j = k
      · exact self ▸ present
      · simpa only [State.setChild, Function.update_of_ne self] using there
    rcases members.member j was idle with member | making | ⟨i, making⟩
    · exact .inl member
    · exact .inr (.inl making)
    · have other : i ≠ k := fun same => before j (same ▸ making)
      refine .inr (.inr ⟨i, ?_⟩)
      simp only [State.setChild, Function.update_of_ne other, making]
  order := by
    intro j i making
    by_cases self : j = k
    · subst self
      simp only [State.setChild, Function.update_self] at making
      exact absurd making (after i)
    · simp only [State.setChild, Function.update_of_ne self] at making
      exact members.order j i making
  clock := by
    intro j there
    by_cases self : j = k
    · exact self ▸ members.clock k present
    · simp only [State.setChild, Function.update_of_ne self] at there
      exact members.clock j there
  booked := by
    intro past j there
    by_cases self : j = k
    · exact fun _ => members.booked past k present waiting
    · simp only [State.setChild, Function.update_of_ne self] at there
      exact members.booked past j there

omit [DecidableEq E] in
/-- A child takes a step of `create_task`. -/
theorem Members.childCreates {s s' : State K F E} (members : Members s) {k j : K} {pc : CreatePc}
    {next : Option CreatePc} (at_ : s.child k = .creating j pc)
    (taken : createStep s j pc = some (s', next)) :
    Members (s'.setChild k (.afterCreate j next)) := by
  have present : s.child k ≠ .absent := by
    rw [at_]
    simp
  have waiting : s.callback k = .idle := by
    by_contra begun
    rw [members.started k begun] at at_
    cases at_
  rcases createStep_cases taken with ⟨rfl, notAdd, early⟩ | ⟨rfl, absent, rfl, rfl⟩ |
    ⟨rfl, rfl, rfl⟩ | ⟨rfl, rfl, rfl⟩
  · refine members.setChild present waiting (fun i making => ?_)
      fun i making => notAdd (ChildPc.afterCreate_add.mp making).2
    rw [at_] at making
    rcases early with rfl | rfl <;> cases making
  · -- the new child is in its body, the maker about to add it
    have distinct : k ≠ j := by
      rintro rfl
      exact present absent
    have fresh : s.callback j = .idle := by
      by_contra begun
      rw [members.started j begun] at absent
      cases absent
    have children : ∀ i, i ≠ k → i ≠ j → (Function.update (Function.update s.child j .body) k
        (ChildPc.afterCreate j (some .add))) i = s.child i := by
      intro i one two
      rw [Function.update_of_ne one, Function.update_of_ne two]
    refine ⟨fun i begun => ?_, fun i there idle => ?_, fun i h making => ?_, fun i there => ?_,
      fun past => ?_⟩
    · have one : i ≠ k := fun same => begun (same ▸ waiting)
      have two : i ≠ j := fun same => begun (same ▸ fresh)
      exact (children i one two).trans (members.started i begun)
    · by_cases new : i = j
      · subst new
        exact .inr (.inr ⟨k, Function.update_self ..⟩)
      · have was : s.child i ≠ .absent := by
          by_cases self : i = k
          · exact self ▸ present
          · simpa only [State.setChild, children i self new] using there
        rcases members.member i was idle with member | making | ⟨h, making⟩
        · exact .inl member
        · exact .inr (.inl making)
        · have one : h ≠ k := by
            rintro rfl
            rw [at_] at making
            cases making
          have two : h ≠ j := by
            rintro rfl
            rw [absent] at making
            cases making
          exact .inr (.inr ⟨h, (children h one two).trans making⟩)
    · by_cases self : i = k
      · subst self
        simp only [State.setChild, Function.update_self] at making
        cases making
        simp only [State.setChild, Function.update_self, Function.update_of_ne distinct]
        exact members.clock i present
      · by_cases new : i = j
        · subst new
          simp [State.setChild, Function.update_of_ne self] at making
        · simp only [State.setChild, children i self new] at making
          simp only [State.setChild, Function.update_of_ne new]
          by_cases made : h = j
          · subst made
            rw [Function.update_self]
            exact members.clock i (by rw [making]; simp)
          · rw [Function.update_of_ne made]
            exact members.order i h making
    · by_cases new : i = j
      · subst new
        simp [State.setChild]
      · have was : s.child i ≠ .absent := by
          by_cases self : i = k
          · exact self ▸ present
          · simpa only [State.setChild, children i self new] using there
        simp only [State.setChild, Function.update_of_ne new]
        exact Nat.lt_succ_of_lt (members.clock i was)
    · exact absurd waiting (members.booked past k present)
  · -- the new child is in `_tasks` before the maker moves on
    have added : Members ({ s with tasks := s.tasks.insert j }.setChild k
        (.creating j .callback)) := by
      refine ⟨fun i begun => ?_, fun i there idle => ?_, fun i h making => ?_, fun i there => ?_,
        fun past => absurd waiting (members.booked past k present)⟩
      · have other : i ≠ k := fun same => begun (same ▸ waiting)
        simp only [State.setChild, Function.update_of_ne other]
        exact members.started i begun
      · have was : s.child i ≠ .absent := by
          by_cases self : i = k
          · exact self ▸ present
          · simpa only [State.setChild, Function.update_of_ne self] using there
        rcases members.member i was idle with member | making | ⟨h, making⟩
        · exact .inl (List.mem_insert_of_mem member)
        · exact .inr (.inl making)
        · by_cases self : h = k
          · rw [self, at_] at making
            cases making
            exact .inl List.mem_insert_self
          · refine .inr (.inr ⟨h, ?_⟩)
            simp only [State.setChild, Function.update_of_ne self, making]
      · by_cases self : i = k
        · subst self
          simp [State.setChild] at making
        · simp only [State.setChild, Function.update_of_ne self] at making
          exact members.order i h making
      · by_cases self : i = k
        · exact self ▸ members.clock k present
        · simp only [State.setChild, Function.update_of_ne self] at there
          exact members.clock i there
    exact added
  · have moved : Members (s.setChild k .body) := members.setChild present waiting
      (fun i making => by rw [at_] at making; cases making) (by simp)
    exact ⟨moved.started, moved.member, moved.order, moved.clock, moved.booked⟩

omit [DecidableEq F] [DecidableEq E] in
/-- The first locked section of a callback. -/
theorem Members.bookkeep {s : State K F E} (members : Members s) {k : K}
    (done : s.child k = .done) : Members (bookkeep s k) := by
  have booked : ∀ (s' : State K F E) (pc : CallbackPc K F), pc ≠ .idle → s'.child = s.child →
      s'.tasks = s.tasks.erase k → s'.callback = s.callback → s'.born = s.born →
      s'.clock = s.clock → s'.parent = s.parent → Members (s'.setCallback k pc) := by
    intro s' pc begun child tasks callback born clock parent
    have idle : ∀ i, (s'.setCallback k pc).callback i = .idle → i ≠ k ∧ s.callback i = .idle := by
      intro i waiting
      by_cases self : i = k
      · subst self
        simp only [State.setCallback, Function.update_self] at waiting
        exact absurd waiting begun
      · simp only [State.setCallback, Function.update_of_ne self, callback] at waiting
        exact ⟨self, waiting⟩
    refine ⟨fun i started => ?_, fun i there waiting => ?_, ?_, ?_, fun past i there waiting => ?_⟩
    · simp only [State.setCallback, child]
      by_cases self : i = k
      · exact self ▸ done
      · simp only [State.setCallback, Function.update_of_ne self, callback] at started
        exact members.started i started
    · obtain ⟨other, waiting⟩ := idle i waiting
      simp only [State.setCallback, child] at there
      simp only [State.setCallback, child, tasks, parent]
      rcases members.member i there waiting with member | making | maker
      · exact .inl ((List.mem_erase_of_ne other).mpr member)
      · exact .inr (.inl making)
      · exact .inr (.inr maker)
    · simp only [State.setCallback, child, born]
      exact members.order
    · simp only [State.setCallback, child, born, clock]
      exact members.clock
    · simp only [State.setCallback, parent] at past
      simp only [State.setCallback, child] at there
      exact members.booked past i there (idle i waiting).2
  unfold TaskGroup.bookkeep
  split
  · refine booked _ _ ?_ rfl rfl rfl rfl rfl rfl
    split <;> simp
  · exact booked _ _ (by simp) rfl rfl rfl rfl rfl rfl

/-- `_abort` touches the flag, or calls `cancel` on a child. -/
theorem abortStep_cases {s s' : State K F E} {c : Caller K E} {pc : AbortPc K}
    {next : Option (AbortPc K)} (taken : abortStep s c pc = some (s', next)) :
    s' = s ∨ s' = { s with aborting := true } ∨
      ∃ kernel, s' = s.setKernel kernel ∧
        ((∃ k, s.kernel.step (.cancel c (some k)) = some kernel) ∨
          s.kernel.cancelStep c = some kernel) := by
  cases pc with
  | flag =>
      cases taken
      exact .inr (.inl rfl)
  | snapshot =>
      cases taken
      exact .inl rfl
  | loop todo =>
      cases todo with
      | nil =>
          cases taken
          exact .inl rfl
      | cons k todo =>
          simp only [abortStep] at taken
          split at taken
          · obtain ⟨kernel, called, same⟩ := Option.map_eq_some_iff.mp taken
            cases same
            exact .inr (.inr ⟨kernel, rfl, .inl ⟨k, called⟩⟩)
          · cases taken
            exact .inl rfl
  | inCancel todo =>
      simp only [abortStep] at taken
      split at taken
      · cases taken
        exact .inl rfl
      · obtain ⟨kernel, called, same⟩ := Option.map_eq_some_iff.mp taken
        cases same
        exact .inr (.inr ⟨kernel, rfl, .inr called⟩)

theorem abortStep_frame {s s' : State K F E} {c : Caller K E} {pc : AbortPc K}
    {next : Option (AbortPc K)} (taken : abortStep s c pc = some (s', next)) :
    ∃ kernel aborting, s' = { s with kernel := kernel, aborting := aborting } := by
  rcases abortStep_cases taken with rfl | rfl | ⟨kernel, rfl, -⟩ <;> exact ⟨_, _, rfl⟩

/-! ## Steps outside of the group -/

/-- A step of the kernel ends no task and makes no future pending again. -/
theorem Kernel.step_tasks {kernel kernel' : Kernel (Option K) F (Caller K E)}
    {a : KernelAct (Option K) F (Caller K E)} (taken : kernel.step a = some kernel') (k : K) :
    kernel'.state (.task (some k)) = kernel.state (.task (some k)) := by
  cases a with
  | complete f st =>
      simp only [Kernel.step] at taken
      split at taken <;> cases taken
      rfl
  | wake r =>
      simp only [Kernel.step] at taken
      split at taken <;> cases taken
      rfl
  | cancel c t =>
      simp only [Kernel.step] at taken
      split at taken <;> cases taken
      rfl
  | call c =>
      rcases (Kernel.cancelStep_effect taken).state with same | ⟨t, f, rest, -, -, changed⟩
      · exact congrFun same _
      · rw [changed, Function.update_of_ne (by rintro ⟨⟩)]

theorem Kernel.step_futures {kernel kernel' : Kernel (Option K) F (Caller K E)}
    {a : KernelAct (Option K) F (Caller K E)} (taken : kernel.step a = some kernel') (f : F)
    (pending : kernel'.state (.fut f) = .pending) : kernel.state (.fut f) = .pending := by
  cases a with
  | complete g st =>
      simp only [Kernel.step] at taken
      split at taken <;> cases taken
      rename_i completes
      by_cases self : f = g
      · exact self ▸ completes.1
      · have other : Ref.fut (T := Option K) f ≠ .fut g := fun same => self (Ref.fut.inj same)
        simpa only [Kernel.setState, Function.update_of_ne other] using pending
  | wake r =>
      simp only [Kernel.step] at taken
      split at taken <;> cases taken
      exact pending
  | cancel c t =>
      simp only [Kernel.step] at taken
      split at taken <;> cases taken
      exact pending
  | call c =>
      rcases (Kernel.cancelStep_effect taken).state with same | ⟨t, g, rest, -, was, changed⟩
      · rwa [same] at pending
      · by_cases self : f = g
        · exact self ▸ was
        · have other : Ref.fut (T := Option K) f ≠ .fut g := fun same => self (Ref.fut.inj same)
          rwa [changed, Function.update_of_ne other] at pending

omit [DecidableEq F] [DecidableEq E] in
theorem Kernel.uncancelStep_state (kernel : Kernel (Option K) F (Caller K E)) (t : Option K)
    (pc : UncancelPc) : (kernel.uncancelStep t pc).1.state = kernel.state := by
  cases pc <;> rfl

/-- The surroundings move, or a child inside of its body. -/
def Act.outside : Act K F E → Bool
  | .complete _ _ | .wake _ | .cancel _ _ | .call _ | .childAwait _ _ _ | .childUncancel _ _ => true
  | _ => false

theorem step_outside {s s' : State K F E} {a : Act K F E} (outside : a.outside = true)
    (taken : step s a = some s') :
    ∃ kernel, s' = s.setKernel kernel ∧
      (∀ k, kernel.state (.task (some k)) = s.kernel.state (.task (some k))) ∧
      ∀ f, kernel.state (.fut f) = .pending → s.kernel.state (.fut f) = .pending := by
  have surroundings : ∀ act : KernelAct (Option K) F (Caller K E),
      (s.kernel.step act).map s.setKernel = some s' → ∃ kernel, s' = s.setKernel kernel ∧
        (∀ k, kernel.state (.task (some k)) = s.kernel.state (.task (some k))) ∧
        ∀ f, kernel.state (.fut f) = .pending → s.kernel.state (.fut f) = .pending := by
    intro act moved
    obtain ⟨kernel, called, rfl⟩ := Option.map_eq_some_iff.mp moved
    exact ⟨kernel, rfl, Kernel.step_tasks called, Kernel.step_futures called⟩
  cases a with
  | complete f st =>
      simp only [step] at taken
      split at taken
      · cases taken
      · exact surroundings _ taken
  | wake r => exact surroundings _ taken
  | cancel e k => exact surroundings _ taken
  | call e => exact surroundings (.call (.other e)) taken
  | childAwait k r pc =>
      simp only [step] at taken
      split at taken
      · obtain ⟨⟨kernel, next⟩, awaited, rfl⟩ := Option.map_eq_some_iff.mp taken
        have same : kernel.state = s.kernel.state := (awaitStep_frame awaited).1
        exact ⟨kernel, rfl, fun _ => congrFun same _, fun f => by rw [same]; exact id⟩
      · cases taken
  | childUncancel k pc =>
      simp only [step] at taken
      split at taken <;> cases taken
      have same := Kernel.uncancelStep_state s.kernel (some k) pc
      exact ⟨_, rfl, fun _ => congrFun same _, fun f => by rw [same]; exact id⟩
  | _ => cases outside

theorem Members.callback {s s' : State K F E} (members : Members s) {k : K}
    (taken : callbackStep s k = some s') : Members s' := by
  -- past the first section the callback stays begun
  have moves : ∀ (kernel : Kernel (Option K) F (Caller K E)) (aborting : Bool)
      (pc : CallbackPc K F), s.callback k ≠ .idle → pc ≠ .idle →
      Members ({ s with kernel := kernel, aborting := aborting }.setCallback k pc) := by
    intro kernel aborting pc before after
    refine members.keep rfl rfl (fun i => ?_) rfl rfl (fun _ => id) members.booked
    by_cases self : i = k
    · subst self
      simp only [State.setCallback, Function.update_self]
      exact iff_of_false after before
    · simp only [State.setCallback, Function.update_of_ne self]
  unfold callbackStep at taken
  split at taken
  · split at taken <;> cases taken
    rename_i ready
    exact members.bookkeep ready.2
  · rename_i pc at_
    obtain ⟨⟨s1, next⟩, moved, rfl⟩ := Option.map_eq_some_iff.mp taken
    obtain ⟨kernel, aborting, rfl⟩ := abortStep_frame moved
    refine moves kernel aborting _ (by rw [at_]; simp) ?_
    cases next <;> rintro ⟨⟩
  · rename_i at_
    obtain ⟨kernel, -, rfl⟩ := Option.map_eq_some_iff.mp taken
    exact moves kernel s.aborting _ (by rw [at_]; simp) (by simp)
  · rename_i at_
    split at taken
    · cases taken
      exact moves s.kernel s.aborting _ (by rw [at_]; simp) (by simp)
    · obtain ⟨kernel, -, rfl⟩ := Option.map_eq_some_iff.mp taken
      exact members.keep rfl rfl (fun _ => Iff.rfl) rfl rfl (fun _ => id) members.booked
  · rename_i at_
    cases taken
    refine moves s.kernel s.aborting _ (by rw [at_]; simp) ?_
    (repeat' split) <;> simp
  · rename_i f at_
    cases taken
    refine moves s.kernel s.aborting _ (by rw [at_]; simp) ?_
    split <;> simp
  · rename_i f at_
    cases taken
    split
    · exact moves _ s.aborting _ (by rw [at_]; simp) (by simp)
    · exact moves s.kernel s.aborting _ (by rw [at_]; simp) (by simp)
  · cases taken

theorem Members.parentMoves {s s' : State K F E} (members : Members s) {f : F}
    (taken : parentStep s f = some s') : Members s' := by
  -- the parent goes on with the children left alone
  have moves : ∀ s1 : State K F E, s1.child = s.child → s1.tasks = s.tasks →
      s1.callback = s.callback → s1.born = s.born → s1.clock = s.clock →
      (∀ k, s.parent ≠ .creating k .add) →
      (s1.parent.past = true → s.parent.past = true ∨ s.tasks = []) → Members s1 := by
    intro s1 child tasks callback born clock making past
    refine members.keep child tasks (fun k => by rw [callback]) born clock
      (fun k at_ => absurd at_ (making k)) fun after => ?_
    rcases past after with before | empty
    · exact members.booked before
    · exact members.all_booked empty making
  unfold parentStep at taken
  split at taken
  · cases taken
  · cases taken
  · rename_i r pc at_
    obtain ⟨⟨kernel, next⟩, -, rfl⟩ := Option.map_eq_some_iff.mp taken
    refine moves _ rfl rfl rfl rfl rfl (by rw [at_]; simp) ?_
    cases next <;> rintro ⟨⟩
  · rename_i k pc at_
    obtain ⟨⟨s1, next⟩, moved, rfl⟩ := Option.map_eq_some_iff.mp taken
    exact members.parentCreates at_ moved
  · rename_i exc at_
    cases taken
    exact moves _ rfl rfl rfl rfl rfl (by rw [at_]; simp) (by rintro ⟨⟩)
  · rename_i exc at_
    cases taken
    exact moves _ rfl rfl rfl rfl rfl (by rw [at_]; simp) (by rintro ⟨⟩)
  · rename_i exc at_
    cases taken
    refine moves _ rfl rfl rfl rfl rfl (by rw [at_]; simp) ?_
    simp only [State.setParent]
    split <;> rintro ⟨⟩
  · rename_i exc prop again pc at_
    obtain ⟨⟨s1, next⟩, moved, rfl⟩ := Option.map_eq_some_iff.mp taken
    obtain ⟨kernel, aborting, rfl⟩ := abortStep_frame moved
    refine moves _ rfl rfl rfl rfl rfl (by rw [at_]; simp) ?_
    cases next <;> cases again <;> rintro ⟨⟩
  · rename_i exc prop at_
    split at taken
    · rename_i empty
      cases taken
      exact moves _ rfl rfl rfl rfl rfl (by rw [at_]; simp) fun _ => .inr empty
    · (repeat' split at taken) <;> cases taken <;>
        exact moves _ rfl rfl rfl rfl rfl (by rw [at_]; simp) (by rintro ⟨⟩)
  · rename_i exc prop g pc at_
    obtain ⟨⟨kernel, next⟩, -, rfl⟩ := Option.map_eq_some_iff.mp taken
    refine moves _ rfl rfl rfl rfl rfl (by rw [at_]; simp) ?_
    rcases next with pc' | outcome
    · rintro ⟨⟩
    · cases outcome <;> rintro ⟨⟩
  · rename_i exc prop at_
    cases taken
    refine moves _ rfl rfl rfl rfl rfl (by rw [at_]; simp) ?_
    simp only [State.setParent]
    split <;> rintro ⟨⟩
  · rename_i exc prop at_
    cases taken
    exact moves _ rfl rfl rfl rfl rfl (by rw [at_]; simp) (by rintro ⟨⟩)
  all_goals first
    | (rename_i at_
       cases taken
       exact moves _ rfl rfl rfl rfl rfl (by rw [at_]; simp) fun _ => .inl (by rw [at_]; rfl))
    | (rename_i at_
       obtain ⟨kernel, -, rfl⟩ := Option.map_eq_some_iff.mp taken
       exact moves _ rfl rfl rfl rfl rfl (by rw [at_]; simp) fun _ => .inl (by rw [at_]; rfl))
    | (rename_i at_
       split at taken
       · cases taken
         exact moves _ rfl rfl rfl rfl rfl (by rw [at_]; simp) fun _ => .inl (by rw [at_]; rfl)
       · obtain ⟨kernel, -, rfl⟩ := Option.map_eq_some_iff.mp taken
         exact moves _ rfl rfl rfl rfl rfl (by rw [at_]; simp) fun _ => .inl (by rw [at_]; rfl))

omit [DecidableEq E] in
theorem Members.waiting {s : State K F E} (members : Members s) {k : K}
    (alive : s.child k ≠ .done) : s.callback k = .idle := by
  by_contra begun
  exact alive (members.started k begun)

theorem members_step {s s' : State K F E} {a : Act K F E} (members : Members s)
    (taken : step s a = some s') : Members s' := by
  cases a with
  | complete _ _ | wake _ | cancel _ _ | call _ | childAwait _ _ _ | childUncancel _ _ =>
      obtain ⟨kernel, rfl, -⟩ := step_outside rfl taken
      exact members.keep rfl rfl (fun _ => Iff.rfl) rfl rfl (fun _ => id) members.booked
  | childCreate k j =>
      simp only [step] at taken
      split at taken <;> cases taken
      rename_i at_
      exact members.setChild (by rw [at_]; simp) (members.waiting (by rw [at_]; simp))
        (by rw [at_]; simp) (by simp)
  | childEnd k ending base =>
      simp only [step] at taken
      split at taken <;> cases taken
      rename_i at_
      have moved : Members (s.setChild k .done) := members.setChild (by rw [at_]; simp)
        (members.waiting (by rw [at_]; simp)) (by rw [at_]; simp) (by simp)
      exact ⟨moved.started, moved.member, moved.order, moved.clock, moved.booked⟩
  | child k =>
      simp only [step] at taken
      split at taken
      · rename_i j pc at_
        obtain ⟨⟨s1, next⟩, moved, rfl⟩ := Option.map_eq_some_iff.mp taken
        exact members.childCreates at_ moved
      · cases taken
  | callback k => exact members.callback taken
  | bodyAwait r =>
      simp only [step] at taken
      split at taken <;> cases taken
      rename_i at_
      exact members.keep rfl rfl (fun _ => Iff.rfl) rfl rfl
        (fun k making => by rw [at_.1] at making; cases making) (by rintro ⟨⟩)
  | bodyCreate j =>
      simp only [step] at taken
      split at taken <;> cases taken
      rename_i at_
      exact members.keep rfl rfl (fun _ => Iff.rfl) rfl rfl
        (fun k making => by rw [at_] at making; cases making) (by rintro ⟨⟩)
  | bodyEnd exc =>
      simp only [step] at taken
      split at taken <;> cases taken
      rename_i at_
      exact members.keep rfl rfl (fun _ => Iff.rfl) rfl rfl
        (fun k making => by rw [at_] at making; cases making) (by rintro ⟨⟩)
  | parent f => exact members.parentMoves taken

omit [DecidableEq K] [DecidableEq F] [DecidableEq E] in
theorem members_start {s : State K F E} (start : Start s) : Members s := by
  obtain ⟨-, -, -, -, -, -, -, -, -, -, -, child, callback, parent⟩ := start
  refine ⟨fun k begun => absurd (callback k) begun, fun k there => absurd (child k) there, ?_,
    fun k there => absurd (child k) there, ?_⟩
  · intro j k making
    rw [child] at making
    cases making
  · intro past
    rw [parent] at past
    cases past

end MtAsyncio.TaskGroup
