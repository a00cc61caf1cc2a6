/-
Module: MtAsyncio.Proofs.ParkedClaims
Purpose: Whether a parked task holds a connection claim: it does not, as long as no
  `_mt_claim` on its behalf comes to record the claim after the task has looked for
  claims to hand back.
Trusted boundary: none
Main exports: Listed, InTime, Recorded, recorded_step, Clean, parked_claims_none,
  clean_of_no_callback, not_clean_of_late
-/
import MtAsyncio.Model.TaskClaims

namespace MtAsyncio.TaskClaims

open Lib (Machine)

variable {T A F : Type} [DecidableEq T] [DecidableEq A] [DecidableEq F]
variable {s s' b : State T A F} {act : Act T A F} {t u : T} {a x : A} {c : Caller T F}
variable {l i : Nat} {how : How} {pc : TaskPc A} {call : CallPc T A}

/-! ## What a step can do -/

/-- The steps of a task that change nothing but where it stands. -/
inductive Flow (s : State T A F) (t : T) : TaskPc A → Prop where
  | awaits (free : s.free t = true) : Flow s t .arming
  | raises (at_ : s.task t = .arming) : Flow s t .running
  | yields (free : s.free t = true) : Flow s t (.testing .yield)
  | finishes (free : s.free t = true) : Flow s t .ending
  | parks {how : How} (at_ : s.task t = .testing how) (none_ : s.mtClaims t = none) :
      Flow s t how.after
  | tests {how : How} (at_ : s.task t = .testing how) : Flow s t (.taking how)
  | takes {how : How} (at_ : s.task t = .taking how) : Flow s t (.clearing how (s.mtClaims t))
  | handed {how : How} {l i : Nat} (at_ : s.task t = .handing how l i)
      (last : (s.lists l)[i]? = none) : Flow s t how.after
  | wakes (at_ : s.task t = .suspended) : Flow s t .waking
  | resumes (at_ : s.task t = .suspended) : Flow s t .running

/-- The steps of a call that change nothing but where it stands. -/
inductive Goes (s : State T A F) (act : Act T A F) : Caller T F → CallPc T A → Prop where
  | begins {t : T} {a : A} (free : s.free t = true) : Goes s act (.own t) (.pendingWakes t a)
  | dispatched {f : F} {t : T} {a : A} (isCallback : act = .callback f t a) :
      Goes s act (.callback f) (.pendingWakes t a)
  | leaves {c : Caller T F} : Goes s act c .idle
  | outside {c : Caller T F} {t : T} {a : A} (at_ : s.call c = .pendingWakes t a) :
      Goes s act c (.testDone t a)
  | undone {c : Caller T F} {t : T} {a : A} (at_ : s.call c = .testDone t a) :
      Goes s act c (.testWaiter t a)
  | unparked {c : Caller T F} {t : T} {a : A} (at_ : s.call c = .testWaiter t a) :
      Goes s act c (.read t a)
  | finds {c : Caller T F} {t : T} {a : A} {l : Nat} (at_ : s.call c = .read t a)
      (list : s.mtClaims t = some l) : Goes s act c (.member t a l)
  | misses {c : Caller T F} {t : T} {a : A} (at_ : s.call c = .read t a)
      (none_ : s.mtClaims t = none) : Goes s act c (.write t a)
  | absent {c : Caller T F} {t : T} {a : A} {l : Nat} (at_ : s.call c = .member t a l) :
      Goes s act c (.append t a l)

inductive Move (s : State T A F) (act : Act T A F) : State T A F → Prop where
  | flow {t : T} {pc : TaskPc A} (flow : Flow s t pc) : Move s act (s.setTask t pc)
  | calls {c : Caller T F} {pc : CallPc T A} (goes : Goes s act c pc) : Move s act (s.setCall c pc)
  | appends {c : Caller T F} {t : T} {a : A} {l : Nat} (at_ : s.call c = .append t a l) :
      Move s act ({ s with lists := Function.update s.lists l (s.lists l ++ [a]) }.setCall c
        (.add t a))
  | writes {c : Caller T F} {t : T} {a : A} (at_ : s.call c = .write t a)
      (isCall : act = .call c) :
      Move s act ({ s with
        mtClaims := Function.update s.mtClaims t (some s.made)
        lists := Function.update s.lists s.made [a]
        made := s.made + 1 }.setCall c (.add t a))
  | adds {c : Caller T F} {t : T} {a : A} (at_ : s.call c = .add t a) (isCall : act = .call c) :
      Move s act ({ s with
        claims := Function.update s.claims a
          (if t ∈ s.claims a then s.claims a else t :: s.claims a) }.setCall c .idle)
  | arms {t : T} (at_ : s.task t = .arming) :
      Move s act ({ s with futWaiter := Function.update s.futWaiter t true }.setTask t
        (.testing .await))
  | ends {t : T} (at_ : s.task t = .ending) :
      Move s act ({ s with done := Function.update s.done t true }.setTask t (.taking .finish))
  | clears {t : T} {how : How} {list : Option Nat} {pc : TaskPc A}
      (at_ : s.task t = .clearing how list)
      (next : list = none ∧ pc = how.after ∨ ∃ l, list = some l ∧ pc = .handing how l 0) :
      Move s act ({ s with mtClaims := Function.update s.mtClaims t none }.setTask t pc)
  | hands {t : T} {how : How} {l i : Nat} {a : A} {deferred : A → Bool} {pc : TaskPc A}
      (at_ : s.task t = .handing how l i) (entry : (s.lists l)[i]? = some a)
      (next : pc = .requeueing how l i a ∨ pc = .handing how l (i + 1)) :
      Move s act ({ s with
        claims := Function.update s.claims a ((s.claims a).filter (· ≠ t))
        readDeferred := deferred }.setTask t pc)
  | requeues {t : T} {how : How} {l i : Nat} {a : A} {queued : A → Nat}
      (at_ : s.task t = .requeueing how l i a) :
      Move s act ({ s with queued := queued }.setTask t (.handing how l (i + 1)))
  | woken {t : T} (at_ : s.task t = .waking) :
      Move s act ({ s with futWaiter := Function.update s.futWaiter t false }.setTask t .running)
  | defers {deferred : A → Bool} : Move s act { s with readDeferred := deferred }
  | closes {closing : A → Bool} : Move s act { s with closing := closing }

theorem move_of_callStep (taken : callStep s c = some s') : Move s (.call c) s' := by
  unfold callStep at taken
  split at taken
  · cases taken
  · cases taken
  · rename_i at_
    obtain rfl := Option.some.inj taken
    split
    · exact .calls .leaves
    · exact .calls (.undone at_)
  · rename_i at_
    obtain rfl := Option.some.inj taken
    split
    · exact .calls .leaves
    · exact .calls (.unparked at_)
  · rename_i at_
    obtain rfl := Option.some.inj taken
    split
    · rename_i none_
      exact .calls (.misses at_ none_)
    · rename_i list
      exact .calls (.finds at_ list)
  · rename_i at_
    obtain rfl := Option.some.inj taken
    split
    · exact .calls .leaves
    · exact .calls (.absent at_)
  · rename_i at_
    obtain rfl := Option.some.inj taken
    exact .appends at_
  · rename_i at_
    obtain rfl := Option.some.inj taken
    exact .writes at_ rfl
  · rename_i at_
    obtain rfl := Option.some.inj taken
    exact .adds at_ rfl

theorem move_of_taskStep (taken : taskStep s t = some s') : Move s act s' := by
  unfold taskStep at taken
  split at taken
  · cases taken
  · cases taken
  · cases taken
  · cases taken
  · rename_i at_
    obtain rfl := Option.some.inj taken
    split
    · rename_i none_
      exact .flow (.parks at_ none_)
    · exact .flow (.tests at_)
  · rename_i at_
    obtain rfl := Option.some.inj taken
    exact .ends at_
  · rename_i at_
    obtain rfl := Option.some.inj taken
    exact .flow (.takes at_)
  · rename_i at_
    obtain rfl := Option.some.inj taken
    refine .clears at_ ?_
    split
    · exact .inl ⟨rfl, rfl⟩
    · exact .inr ⟨_, rfl, rfl⟩
  · rename_i at_
    split at taken <;> obtain rfl := Option.some.inj taken
    · rename_i last
      exact .flow (.handed at_ last)
    · rename_i entry
      unfold mtReleaseClaim
      simp only []
      split
      · exact .hands at_ entry (.inl rfl)
      · exact .hands at_ entry (.inr rfl)
  · rename_i at_
    obtain rfl := Option.some.inj taken
    exact .requeues at_
  · rename_i at_
    obtain rfl := Option.some.inj taken
    exact .woken at_

theorem move_of_step (taken : step s act = some s') : Move s act s' := by
  cases act with
  | write t a =>
      simp only [step] at taken
      split at taken
      · rename_i free
        obtain rfl := Option.some.inj taken
        exact .calls (.begins free)
      · cases taken
  | callback f t a =>
      simp only [step] at taken
      split at taken
      · obtain rfl := Option.some.inj taken
        exact .calls (.dispatched rfl)
      · cases taken
  | wakes c inside =>
      simp only [step] at taken
      split at taken
      · rename_i at_
        obtain rfl := Option.some.inj taken
        split
        · exact .calls .leaves
        · exact .calls (.outside at_)
      · cases taken
  | call c => exact move_of_callStep taken
  | await t =>
      simp only [step] at taken
      split at taken
      · rename_i free
        obtain rfl := Option.some.inj taken
        exact .flow (.awaits free)
      · cases taken
  | arm t =>
      simp only [step] at taken
      split at taken
      · rename_i at_
        obtain rfl := Option.some.inj taken
        exact .arms at_
      · cases taken
  | raise_ t =>
      simp only [step] at taken
      split at taken
      · rename_i at_
        obtain rfl := Option.some.inj taken
        exact .flow (.raises at_)
      · cases taken
  | yield t =>
      simp only [step] at taken
      split at taken
      · rename_i free
        obtain rfl := Option.some.inj taken
        exact .flow (.yields free)
      · cases taken
  | finish t =>
      simp only [step] at taken
      split at taken
      · rename_i free
        obtain rfl := Option.some.inj taken
        exact .flow (.finishes free)
      · cases taken
  | task t => exact move_of_taskStep taken
  | resume t =>
      simp only [step] at taken
      split at taken
      · rename_i at_
        obtain rfl := Option.some.inj taken
        split
        · exact .flow (.wakes at_)
        · exact .flow (.resumes at_)
      · cases taken
  | standAside a =>
      simp only [step] at taken
      split at taken
      · cases taken
      · obtain rfl := Option.some.inj taken
        exact .defers
  | close a =>
      obtain rfl := Option.some.inj taken
      exact .closes

omit [DecidableEq F] in
theorem eq_of_free (free : s.free t = true) : s.task t = .running ∧ s.call (.own t) = .idle := by
  simpa only [State.free, Bool.and_eq_true, decide_eq_true_eq] using free

/-! ## The two records -/

/-- The task has looked for claims to hand back, and has not been resumed. -/
def TaskPc.parked : TaskPc A → Bool
  | .clearing _ _ | .handing _ _ _ | .requeueing _ _ _ _ | .suspended | .ended => true
  | _ => false

/-- The list that a task hands back, and the first entry that is left. -/
def TaskPc.left : TaskPc A → Option (Nat × Nat)
  | .handing _ l i => some (l, i)
  | .requeueing _ l i _ => some (l, i + 1)
  | _ => none

/-- The transport is in the task's `_mt_claims`, or among those that it is handing back. -/
def Listed (s : State T A F) (t : T) (a : A) : Prop :=
  (∃ l, s.mtClaims t = some l ∧ a ∈ s.lists l) ∨
    ∃ l i, (s.task t).left = some (l, i) ∧ a ∈ (s.lists l).drop i

/-- No `_mt_claim` puts a list into `_mt_claims` of a task that is past its look at it,
nor in the place of a list with another transport, and none adds a task to the claims of
a transport that the task has handed back. -/
def InTime (s : State T A F) (act : Act T A F) : Prop :=
  ∀ c t a, act = .call c →
    (s.call c = .write t a → (s.task t).parked = false ∧
      ∀ l, s.mtClaims t = some l → ∀ x ∈ s.lists l, x = a) ∧
    (s.call c = .add t a → Listed s t a)

structure Recorded (s : State T A F) : Prop where
  /-- who is in `_claims` has the transport on its list -/
  listed : ∀ t a, t ∈ s.claims a → Listed s t a
  taken : ∀ t how list, s.task t = .clearing how list → s.mtClaims t = list
  parked : ∀ t, (s.task t).parked = true → (∀ how list, s.task t ≠ .clearing how list) →
    s.mtClaims t = none
  /-- a list is numbered below those to come -/
  made : ∀ t l, s.mtClaims t = some l → l < s.made
  leaving : ∀ t l i, (s.task t).left = some (l, i) → l < s.made

omit [DecidableEq A] [DecidableEq F] in
theorem setTask_self (s : State T A F) (t : T) (pc : TaskPc A) : (s.setTask t pc).task t = pc :=
  Function.update_self ..

omit [DecidableEq A] [DecidableEq F] in
theorem setTask_other (s : State T A F) (other : u ≠ t) (pc : TaskPc A) :
    (s.setTask t pc).task u = s.task u :=
  Function.update_of_ne other ..

omit [DecidableEq A] [DecidableEq F] in
/-- A task goes on, and keeps what is on its list. -/
theorem Recorded.goto (recorded : Recorded s) (tasks : b.task = s.task)
    (mtClaims : b.mtClaims = s.mtClaims) (lists : b.lists = s.lists) (made : b.made = s.made)
    (claims : b.claims = s.claims)
    (left : ∀ a, Listed s t a → (∃ l, s.mtClaims t = some l ∧ a ∈ s.lists l) ∨
      ∃ l i, pc.left = some (l, i) ∧ a ∈ (s.lists l).drop i)
    (leaving : ∀ l i, pc.left = some (l, i) → l < s.made)
    (taken : ∀ how list, pc = .clearing how list → s.mtClaims t = list)
    (parked : pc.parked = true → (∀ how list, pc ≠ .clearing how list) → s.mtClaims t = none) :
    Recorded (b.setTask t pc) := by
  refine ⟨?_, ?_, ?_, ?_, ?_⟩
  · intro u a member
    have was := recorded.listed u a (by rwa [← claims])
    unfold Listed
    rw [show (b.setTask t pc).mtClaims = s.mtClaims from mtClaims,
      show (b.setTask t pc).lists = s.lists from lists]
    by_cases self : u = t
    · subst self
      rw [setTask_self]
      exact left a was
    · rw [setTask_other b self, tasks]
      exact was
  · intro u how list at_
    show b.mtClaims u = list
    rw [mtClaims]
    by_cases self : u = t
    · subst self
      rw [setTask_self] at at_
      exact taken how list at_
    · rw [setTask_other b self, tasks] at at_
      exact recorded.taken u how list at_
  · intro u isParked notClearing
    show b.mtClaims u = none
    rw [mtClaims]
    by_cases self : u = t
    · subst self
      rw [setTask_self] at isParked notClearing
      exact parked isParked notClearing
    · rw [setTask_other b self, tasks] at isParked notClearing
      exact recorded.parked u isParked notClearing
  · intro u l is
    show l < b.made
    rw [made]
    exact recorded.made u l (mtClaims ▸ is)
  · intro u l i isLeft
    show l < b.made
    rw [made]
    by_cases self : u = t
    · subst self
      rw [setTask_self] at isLeft
      exact leaving l i isLeft
    · rw [setTask_other b self, tasks] at isLeft
      exact recorded.leaving u l i isLeft

omit [DecidableEq A] [DecidableEq F] in
/-- A task that hands nothing back before and after. -/
theorem Recorded.quiet (recorded : Recorded s) (tasks : b.task = s.task)
    (mtClaims : b.mtClaims = s.mtClaims) (lists : b.lists = s.lists) (made : b.made = s.made)
    (claims : b.claims = s.claims) (was : (s.task t).left = none) (is : pc.left = none)
    (taken : ∀ how list, pc = .clearing how list → s.mtClaims t = list)
    (parked : pc.parked = true → (∀ how list, pc ≠ .clearing how list) → s.mtClaims t = none) :
    Recorded (b.setTask t pc) := by
  refine recorded.goto tasks mtClaims lists made claims ?_ ?_ taken parked
  · intro a listed
    obtain there | ⟨l, i, left, -⟩ := listed
    · exact .inl there
    · rw [was] at left
      cases left
  · intro l i left
    rw [is] at left
    cases left

omit [DecidableEq A] in
theorem How.after_left : (how.after : TaskPc A).left = none := by
  cases how <;> rfl

omit [DecidableEq A] in
theorem How.after_ne_clearing {other : How} {list : Option Nat} :
    (how.after : TaskPc A) ≠ .clearing other list := by
  cases how <;> simp [How.after]

omit [DecidableEq F] in
theorem recorded_flow (recorded : Recorded s) (flow : Flow s t pc) :
    Recorded (s.setTask t pc) := by
  cases flow with
  | awaits free | yields free | finishes free =>
      exact recorded.quiet rfl rfl rfl rfl rfl (by rw [(eq_of_free free).1]; rfl) rfl (by simp)
        (by simp [TaskPc.parked])
  | raises at_ | tests at_ | wakes at_ | resumes at_ =>
      exact recorded.quiet rfl rfl rfl rfl rfl (by rw [at_]; rfl) rfl (by simp)
        (by simp [TaskPc.parked])
  | parks at_ none_ =>
      refine recorded.quiet rfl rfl rfl rfl rfl (by rw [at_]; rfl) How.after_left ?_
        fun _ _ => none_
      intro other list same
      exact absurd same How.after_ne_clearing
  | takes at_ =>
      refine recorded.quiet rfl rfl rfl rfl rfl (by rw [at_]; rfl) rfl ?_ ?_
      · intro other list same
        exact (TaskPc.clearing.inj same).2
      · intro _ notClearing
        exact absurd rfl (notClearing _ _)
  | @handed how l i at_ last =>
      have none_ : s.mtClaims t = none :=
        recorded.parked t (by rw [at_]; rfl) (by rw [at_]; simp)
      refine recorded.goto rfl rfl rfl rfl rfl ?_ ?_ ?_ fun _ _ => none_
      · intro a listed
        obtain there | ⟨l', i', left, member⟩ := listed
        · exact .inl there
        · -- the loop has come to the end of the list
          rw [at_] at left
          obtain ⟨rfl, rfl⟩ := Prod.mk.inj (Option.some.inj left)
          rw [List.drop_eq_nil_of_le (List.getElem?_eq_none_iff.mp last)] at member
          cases member
      · intro l' i' left
        rw [How.after_left] at left
        cases left
      · intro other list same
        exact absurd same How.after_ne_clearing

omit [DecidableEq A] [DecidableEq F] in
/-- `self._mt_claims = None`: what was on the list is going to be handed back. -/
theorem recorded_clears {list : Option Nat} (recorded : Recorded s)
    (at_ : s.task t = .clearing how list)
    (next : list = none ∧ pc = how.after ∨ ∃ l, list = some l ∧ pc = .handing how l 0) :
    Recorded ({ s with mtClaims := Function.update s.mtClaims t none }.setTask t pc) := by
  have had : s.mtClaims t = list := recorded.taken t how list at_
  have notLeft : (s.task t).left = none := by rw [at_]; rfl
  have others : ∀ u, u ≠ t → Function.update s.mtClaims t none u = s.mtClaims u :=
    fun u other => Function.update_of_ne other ..
  refine ⟨?_, ?_, ?_, ?_, ?_⟩
  · intro u a member
    obtain ⟨l, is, inList⟩ | ⟨l, i, left, inRest⟩ := recorded.listed u a member
    · by_cases self : u = t
      · subst self
        obtain ⟨isNone, -⟩ | ⟨l', isSome, rfl⟩ := next
        · rw [had, isNone] at is
          cases is
        · rw [had, isSome] at is
          obtain rfl := Option.some.inj is
          refine .inr ⟨l', 0, ?_, inList⟩
          rw [setTask_self]
          rfl
      · exact .inl ⟨l, (others u self).trans is, inList⟩
    · have other : u ≠ t := by
        rintro rfl
        rw [notLeft] at left
        cases left
      refine .inr ⟨l, i, ?_, inRest⟩
      rw [setTask_other _ other]
      exact left
  · intro u other list' atU
    by_cases self : u = t
    · subst self
      rw [setTask_self] at atU
      obtain ⟨-, rfl⟩ | ⟨l', -, rfl⟩ := next
      · exact absurd atU How.after_ne_clearing
      · cases atU
    · rw [setTask_other _ self] at atU
      exact (others u self).trans (recorded.taken u other list' atU)
  · intro u isParked notClearing
    by_cases self : u = t
    · subst self
      exact Function.update_self ..
    · rw [setTask_other _ self] at isParked notClearing
      exact (others u self).trans (recorded.parked u isParked notClearing)
  · intro u l is
    by_cases self : u = t
    · subst self
      change Function.update s.mtClaims u none u = some l at is
      rw [Function.update_self] at is
      cases is
    · exact recorded.made u l ((others u self).symm.trans is)
  · intro u l i left
    by_cases self : u = t
    · subst self
      rw [setTask_self] at left
      obtain ⟨-, rfl⟩ | ⟨l', isSome, rfl⟩ := next
      · rw [How.after_left] at left
        cases left
      · obtain ⟨rfl, -⟩ := Prod.mk.inj (Option.some.inj left)
        exact recorded.made u l' (had.trans isSome)
    · rw [setTask_other _ self] at left
      exact recorded.leaving u l i left

omit [DecidableEq F] in
/-- One transport is handed back. -/
theorem recorded_hands {deferred : A → Bool} (recorded : Recorded s)
    (at_ : s.task t = .handing how l i) (entry : (s.lists l)[i]? = some a)
    (next : pc = .requeueing how l i a ∨ pc = .handing how l (i + 1)) :
    Recorded ({ s with
      claims := Function.update s.claims a ((s.claims a).filter (· ≠ t))
      readDeferred := deferred }.setTask t pc) := by
  have none_ : s.mtClaims t = none :=
    recorded.parked t (by rw [at_]; rfl) (by rw [at_]; simp)
  have had : (s.task t).left = some (l, i) := by rw [at_]; rfl
  have has : pc.left = some (l, i + 1) := by
    obtain rfl | rfl := next <;> rfl
  have members : ∀ u x, u ∈ Function.update s.claims a ((s.claims a).filter (· ≠ t)) x →
      u ∈ s.claims x ∧ (u = t → x ≠ a) := by
    intro u x member
    by_cases isA : x = a
    · subst isA
      rw [Function.update_self, List.mem_filter] at member
      exact ⟨member.1, fun self => absurd self (of_decide_eq_true member.2)⟩
    · rw [Function.update_of_ne isA] at member
      exact ⟨member, fun _ => isA⟩
  refine ⟨?_, ?_, ?_, recorded.made, ?_⟩
  · intro u x member
    obtain ⟨was, notA⟩ := members u x member
    obtain there | ⟨l', i', left, inRest⟩ := recorded.listed u x was
    · exact .inl there
    · by_cases self : u = t
      · subst self
        rw [had] at left
        obtain ⟨rfl, rfl⟩ := Prod.mk.inj (Option.some.inj left)
        refine .inr ⟨l, i + 1, by rw [setTask_self, has], ?_⟩
        have rest : (s.lists l).drop i = a :: (s.lists l).drop (i + 1) := by
          obtain ⟨below, isA⟩ := List.getElem?_eq_some_iff.mp entry
          rw [List.drop_eq_getElem_cons below, isA]
        rw [rest] at inRest
        exact (List.mem_cons.mp inRest).resolve_left (notA rfl)
      · refine .inr ⟨l', i', ?_, inRest⟩
        rw [setTask_other _ self]
        exact left
  · intro u other list atU
    by_cases self : u = t
    · subst self
      rw [setTask_self] at atU
      obtain rfl | rfl := next <;> cases atU
    · rw [setTask_other _ self] at atU
      exact recorded.taken u other list atU
  · intro u isParked notClearing
    by_cases self : u = t
    · subst self
      exact none_
    · rw [setTask_other _ self] at isParked notClearing
      exact recorded.parked u isParked notClearing
  · intro u l' i' left
    by_cases self : u = t
    · subst self
      rw [setTask_self, has] at left
      obtain ⟨rfl, -⟩ := Prod.mk.inj (Option.some.inj left)
      exact recorded.leaving u l i had
    · rw [setTask_other _ self] at left
      exact recorded.leaving u l' i' left

omit [DecidableEq A] in
/-- A list only grows. -/
theorem recorded_appends {call : CallPc T A} (recorded : Recorded s) :
    Recorded ({ s with lists := Function.update s.lists l (s.lists l ++ [a]) }.setCall c call) := by
  have grows : ∀ m i x, x ∈ (s.lists m).drop i →
      x ∈ (Function.update s.lists l (s.lists l ++ [a]) m).drop i := by
    intro m i x member
    by_cases isL : m = l
    · subst isL
      rw [Function.update_self, List.drop_append]
      exact List.mem_append_left _ member
    · rwa [Function.update_of_ne isL]
  refine ⟨?_, recorded.taken, recorded.parked, recorded.made, recorded.leaving⟩
  intro u x member
  obtain ⟨m, is, inList⟩ | ⟨m, i, left, inRest⟩ := recorded.listed u x member
  · exact .inl ⟨m, is, grows m 0 x inList⟩
  · exact .inr ⟨m, i, left, grows m i x inRest⟩

omit [DecidableEq A] in
/-- A new list comes in time, and in the place of none with another transport. -/
theorem recorded_writes {call : CallPc T A} (recorded : Recorded s)
    (running : (s.task t).parked = false)
    (same : ∀ l, s.mtClaims t = some l → ∀ x ∈ s.lists l, x = a) :
    Recorded ({ s with
      mtClaims := Function.update s.mtClaims t (some s.made)
      lists := Function.update s.lists s.made [a]
      made := s.made + 1 }.setCall c call) := by
  have older : ∀ l, l < s.made → Function.update s.lists s.made [a] l = s.lists l := by
    intro l old
    exact Function.update_of_ne (Nat.ne_of_lt old) ..
  have notLeft : (s.task t).left = none := by
    cases at_ : s.task t with
    | handing | requeueing =>
        rw [at_] at running
        cases running
    | _ => rfl
  refine ⟨?_, ?_, ?_, ?_, ?_⟩
  · intro u x member
    obtain ⟨l, is, inList⟩ | ⟨l, i, left, inRest⟩ := recorded.listed u x member
    · by_cases self : u = t
      · subst self
        obtain rfl := same l is x inList
        refine .inl ⟨s.made, Function.update_self .., ?_⟩
        show x ∈ Function.update s.lists s.made [x] s.made
        rw [Function.update_self]
        exact List.mem_singleton.mpr rfl
      · refine .inl ⟨l, (Function.update_of_ne self ..).trans is, ?_⟩
        show x ∈ Function.update s.lists s.made [a] l
        rwa [older l (recorded.made u l is)]
    · refine .inr ⟨l, i, left, ?_⟩
      show x ∈ (Function.update s.lists s.made [a] l).drop i
      rwa [older l (recorded.leaving u l i left)]
  · intro u how list at_
    have other : u ≠ t := by
      rintro rfl
      rw [show s.task u = _ from at_] at running
      cases running
    exact (Function.update_of_ne other ..).trans (recorded.taken u how list at_)
  · intro u isParked notClearing
    have other : u ≠ t := by
      rintro rfl
      rw [show (s.task u).parked = true from isParked] at running
      cases running
    exact (Function.update_of_ne other ..).trans (recorded.parked u isParked notClearing)
  · intro u l is
    show l < s.made + 1
    by_cases self : u = t
    · subst self
      change Function.update s.mtClaims u (some s.made) u = some l at is
      rw [Function.update_self] at is
      obtain rfl := Option.some.inj is
      exact Nat.lt_succ_self _
    · exact Nat.lt_succ_of_lt
        (recorded.made u l ((Function.update_of_ne self ..).symm.trans is))
  · intro u l i left
    exact Nat.lt_succ_of_lt (recorded.leaving u l i left)

theorem recorded_adds {call : CallPc T A} (recorded : Recorded s) (listed : Listed s t a) :
    Recorded ({ s with
      claims := Function.update s.claims a
        (if t ∈ s.claims a then s.claims a else t :: s.claims a) }.setCall c call) := by
  refine ⟨?_, recorded.taken, recorded.parked, recorded.made, recorded.leaving⟩
  intro u x member
  change u ∈ Function.update s.claims a _ x at member
  by_cases isA : x = a
  · subst isA
    rw [Function.update_self] at member
    split at member
    · exact recorded.listed u x member
    · obtain rfl | was := List.mem_cons.mp member
      · exact listed
      · exact recorded.listed u x was
  · rw [Function.update_of_ne isA] at member
    exact recorded.listed u x member

theorem recorded_step (recorded : Recorded s) (inTime : InTime s act) (move : Move s act s') :
    Recorded s' := by
  cases move with
  | flow flow => exact recorded_flow recorded flow
  | calls | defers | closes =>
      exact ⟨recorded.listed, recorded.taken, recorded.parked, recorded.made, recorded.leaving⟩
  | appends at_ => exact recorded_appends recorded
  | @writes c t a at_ isCall =>
      obtain ⟨running, same⟩ := (inTime c t a isCall).1 at_
      exact recorded_writes recorded running same
  | @adds c t a at_ isCall => exact recorded_adds recorded ((inTime c t a isCall).2 at_)
  | arms at_ | ends at_ | woken at_ =>
      exact recorded.quiet rfl rfl rfl rfl rfl (by rw [at_]; rfl) rfl (by simp)
        (by simp [TaskPc.parked])
  | clears at_ next => exact recorded_clears recorded at_ next
  | hands at_ entry next => exact recorded_hands recorded at_ entry next
  | @requeues t how l i a queued at_ =>
      have had : (s.task t).left = some (l, i + 1) := by rw [at_]; rfl
      refine recorded.goto rfl rfl rfl rfl rfl ?_ ?_ (by simp) ?_
      · intro x listed
        obtain there | ⟨l', i', left, inRest⟩ := listed
        · exact .inl there
        · exact .inr ⟨l', i', had.symm.trans left, inRest⟩
      · intro l' i' left
        exact recorded.leaving t l' i' (had.trans left)
      · intro _ _
        exact recorded.parked t (by rw [at_]; rfl) (by rw [at_]; simp)

/-! ## Runs -/

omit [DecidableEq T] [DecidableEq A] [DecidableEq F] in
theorem recorded_fresh : Recorded (fresh T A F) := by
  refine ⟨?_, ?_, ?_, ?_, ?_⟩
  · intro t a member
    cases member
  · intro t how list at_
    cases at_
  · intro t isParked
    cases isParked
  · intro t l is
    cases is
  · intro t l i left
    cases left

theorem recorded_of_reach (reached : (machine T A F).Reach InTime s) : Recorded s := by
  refine Machine.Reach.invariant Recorded ?_ ?_ reached
  · rintro s rfl
    exact recorded_fresh
  · intro s act s' recorded inTime taken
    exact recorded_step recorded inTime (move_of_step taken)

/-- When no `_mt_claim` is in progress, a task that is suspended or has ended is in no
transport's `_claims`, and its `_mt_claims` is `None`. -/
def Clean (s : State T A F) : Prop :=
  ∀ t, s.task t = .suspended ∨ s.task t = .ended → (∀ c, s.call c = .idle) →
    s.mtClaims t = none ∧ ∀ a, t ∉ s.claims a

omit [DecidableEq T] [DecidableEq A] [DecidableEq F] in
theorem Recorded.clean (recorded : Recorded s) : Clean s := by
  intro t stopped _
  have isParked : (s.task t).parked = true ∧ (s.task t).left = none ∧
      ∀ how list, s.task t ≠ .clearing how list := by
    obtain at_ | at_ := stopped <;> rw [at_] <;> exact ⟨rfl, rfl, by simp⟩
  obtain ⟨parked, notLeft, notClearing⟩ := isParked
  have none_ := recorded.parked t parked notClearing
  refine ⟨none_, ?_⟩
  intro a member
  obtain ⟨l, is, -⟩ | ⟨l, i, left, -⟩ := recorded.listed t a member
  · rw [none_] at is
    cases is
  · rw [notLeft] at left
    cases left

theorem parked_claims_none (reached : (machine T A F).Reach InTime s) : Clean s :=
  (recorded_of_reach reached).clean

/-! ## Without callbacks -/

/-- What a call that a task makes itself has found. -/
def Fits (s : State T A F) (t : T) : CallPc T A → Prop
  | .idle => True
  | .pendingWakes u _ | .testDone u _ | .testWaiter u _ | .read u _ => u = t
  | .member u _ l | .append u _ l => u = t ∧ s.mtClaims t = some l
  | .write u _ => u = t ∧ s.mtClaims t = none
  | .add u a => u = t ∧ ∃ l, s.mtClaims t = some l ∧ a ∈ s.lists l

/-- Every task claims for itself, while it runs. -/
structure Own (s : State T A F) : Prop where
  idle : ∀ f, s.call (.callback f) = .idle
  running : ∀ t, s.call (.own t) ≠ .idle → s.task t = .running
  fits : ∀ t, Fits s t (s.call (.own t))

omit [DecidableEq T] [DecidableEq A] [DecidableEq F] in
theorem fits_same (fits : Fits s t call) (mtClaims : b.mtClaims t = s.mtClaims t)
    (lists : ∀ l, s.mtClaims t = some l → ∀ x ∈ s.lists l, x ∈ b.lists l) : Fits b t call := by
  cases call with
  | add u a =>
      obtain ⟨isT, l, is, member⟩ := fits
      exact ⟨isT, l, mtClaims.trans is, lists l is a member⟩
  | member | append | write => exact ⟨fits.1, mtClaims.trans fits.2⟩
  | idle => trivial
  | _ => exact fits

omit [DecidableEq A] [DecidableEq F] in
/-- A task that is in no call goes on. -/
theorem Own.beside (own : Own s) (idle : s.call (.own t) = .idle) (calls : b.call = s.call)
    (tasks : b.task = s.task) (lists : b.lists = s.lists)
    (mtClaims : ∀ u, u ≠ t → b.mtClaims u = s.mtClaims u) : Own (b.setTask t pc) := by
  refine ⟨?_, ?_, ?_⟩
  · intro f
    exact (congrFun calls _).trans (own.idle f)
  · intro u busy
    have wasBusy : s.call (.own u) ≠ .idle := by
      rw [← calls]
      exact busy
    have other : u ≠ t := by
      rintro rfl
      exact wasBusy idle
    rw [setTask_other b other, tasks]
    exact own.running u wasBusy
  · intro u
    show Fits _ u (b.call (.own u))
    rw [calls]
    by_cases self : u = t
    · rw [self, idle]
      trivial
    · refine fits_same (own.fits u) (mtClaims u self) ?_
      intro l _ x member
      show x ∈ b.lists l
      rwa [lists]

omit [DecidableEq F] in
theorem Own.idle_of_ne (own : Own s) (at_ : s.task t ≠ .running) : s.call (.own t) = .idle := by
  by_contra busy
  exact at_ (own.running t busy)

omit [DecidableEq A] in
/-- A call of a task goes on. -/
theorem Own.calls (own : Own s) (tasks : b.task = s.task) (calls : b.call = s.call)
    (running : call ≠ .idle → s.task t = .running) (fits : Fits b t call)
    (others : ∀ u, u ≠ t → b.mtClaims u = s.mtClaims u)
    (lists : ∀ u l, s.mtClaims u = some l → ∀ x ∈ s.lists l, x ∈ b.lists l) :
    Own (b.setCall (.own t) call) := by
  have other : ∀ c : Caller T F, c ≠ .own t →
      (b.setCall (.own t) call).call c = s.call c := by
    intro c notT
    exact (Function.update_of_ne notT ..).trans (congrFun calls c)
  have self : (b.setCall (.own t) call).call (.own t) = call := Function.update_self ..
  refine ⟨?_, ?_, ?_⟩
  · intro f
    exact (other _ (by simp)).trans (own.idle f)
  · intro u busy
    show b.task u = .running
    rw [tasks]
    by_cases isT : u = t
    · subst isT
      rw [self] at busy
      exact running busy
    · rw [other _ (by simpa using isT)] at busy
      exact own.running u busy
  · intro u
    by_cases isT : u = t
    · subst isT
      rw [self]
      exact fits_same fits rfl fun _ _ _ member => member
    · rw [other _ (by simpa using isT)]
      exact fits_same (own.fits u) (others u isT) (lists u)

omit [DecidableEq T] [DecidableEq A] [DecidableEq F] in
theorem Own.of_busy (own : Own s) (at_ : s.call c = call) (busy : call ≠ .idle) :
    ∃ t, c = .own t ∧ s.task t = .running ∧ Fits s t call := by
  cases c with
  | own t => exact ⟨t, rfl, own.running t (at_ ▸ busy), at_ ▸ own.fits t⟩
  | callback f => exact absurd (at_.symm.trans (own.idle f)) busy

/-- No callback runs with the context of a task. -/
def NoCallback (_ : State T A F) (act : Act T A F) : Prop :=
  ∀ f t a, act ≠ .callback f t a

theorem own_goes (own : Own s) (calm : NoCallback s act) (goes : Goes s act c call) :
    Own (s.setCall c call) := by
  cases goes with
  | begins free =>
      exact own.calls rfl rfl (fun _ => (eq_of_free free).1) rfl (fun _ _ => rfl)
        fun _ _ _ _ member => member
  | dispatched isCallback => exact absurd isCallback (calm _ _ _)
  | leaves =>
      cases c with
      | own t =>
          exact own.calls rfl rfl (fun busy => absurd rfl busy) trivial (fun _ _ => rfl)
            fun _ _ _ _ member => member
      | callback f =>
          have same : s.setCall (.callback f) .idle = s := by
            rw [State.setCall, ← own.idle f, Function.update_eq_self]
          rwa [same]
  | outside at_ | undone at_ | unparked at_ =>
      obtain ⟨t, rfl, running, isT⟩ := own.of_busy at_ (by simp)
      exact own.calls rfl rfl (fun _ => running) isT (fun _ _ => rfl) fun _ _ _ _ member => member
  | finds at_ list =>
      obtain ⟨t, rfl, running, rfl⟩ := own.of_busy at_ (by simp)
      exact own.calls rfl rfl (fun _ => running) ⟨rfl, list⟩ (fun _ _ => rfl)
        fun _ _ _ _ member => member
  | misses at_ none_ =>
      obtain ⟨t, rfl, running, rfl⟩ := own.of_busy at_ (by simp)
      exact own.calls rfl rfl (fun _ => running) ⟨rfl, none_⟩ (fun _ _ => rfl)
        fun _ _ _ _ member => member
  | absent at_ =>
      obtain ⟨t, rfl, running, fits⟩ := own.of_busy at_ (by simp)
      exact own.calls rfl rfl (fun _ => running) fits (fun _ _ => rfl) fun _ _ _ _ member => member

omit [DecidableEq F] in
theorem Flow.idle (flow : Flow s t pc) (own : Own s) : s.call (.own t) = .idle := by
  cases flow with
  | awaits free | yields free | finishes free => exact (eq_of_free free).2
  | raises at_ | parks at_ | tests at_ | takes at_ | handed at_ | wakes at_ | resumes at_ =>
      exact own.idle_of_ne (by rw [at_]; simp)

theorem own_step (recorded : Recorded s) (own : Own s) (calm : NoCallback s act)
    (move : Move s act s') : Own s' := by
  cases move with
  | flow flow => exact own.beside (flow.idle own) rfl rfl rfl fun _ _ => rfl
  | calls goes => exact own_goes own calm goes
  | @appends c t a l at_ =>
      obtain ⟨t, rfl, running, rfl, is⟩ := own.of_busy at_ (by simp)
      refine own.calls rfl rfl (fun _ => running) ⟨rfl, l, is, ?_⟩ (fun _ _ => rfl) ?_
      · show a ∈ Function.update s.lists l (s.lists l ++ [a]) l
        rw [Function.update_self]
        exact List.mem_append_right _ (List.mem_singleton.mpr rfl)
      · intro u m _ x member
        show x ∈ Function.update s.lists l (s.lists l ++ [a]) m
        by_cases isL : m = l
        · subst isL
          rw [Function.update_self]
          exact List.mem_append_left _ member
        · rwa [Function.update_of_ne isL]
  | @writes c t a at_ =>
      obtain ⟨t, rfl, running, rfl, none_⟩ := own.of_busy at_ (by simp)
      refine own.calls rfl rfl (fun _ => running) ⟨rfl, s.made, Function.update_self .., ?_⟩ ?_ ?_
      · show a ∈ Function.update s.lists s.made [a] s.made
        rw [Function.update_self]
        exact List.mem_singleton.mpr rfl
      · intro u other
        exact Function.update_of_ne other ..
      · intro u m is x member
        show x ∈ Function.update s.lists s.made [a] m
        rwa [Function.update_of_ne (Nat.ne_of_lt (recorded.made u m is))]
  | adds at_ =>
      obtain ⟨t, rfl, running, rfl, -⟩ := own.of_busy at_ (by simp)
      exact own.calls rfl rfl (fun busy => absurd rfl busy) trivial (fun _ _ => rfl)
        fun _ _ _ _ member => member
  | arms at_ | ends at_ | woken at_ | hands at_ | requeues at_ =>
      exact own.beside (own.idle_of_ne (by rw [at_]; simp)) rfl rfl rfl fun _ _ => rfl
  | clears at_ =>
      exact own.beside (own.idle_of_ne (by rw [at_]; simp)) rfl rfl rfl fun _ other =>
        Function.update_of_ne other ..
  | defers | closes =>
      exact ⟨own.idle, own.running, fun t => fits_same (own.fits t) rfl fun _ _ _ member => member⟩

omit [DecidableEq T] [DecidableEq A] [DecidableEq F] in
theorem inTime_of_own (own : Own s) : InTime s act := by
  intro c t a _
  refine ⟨?_, ?_⟩
  · intro at_
    obtain ⟨u, rfl, running, rfl, none_⟩ := own.of_busy at_ (by simp)
    refine ⟨by rw [running]; rfl, ?_⟩
    intro l is
    rw [none_] at is
    cases is
  · intro at_
    obtain ⟨u, rfl, -, rfl, l, is, member⟩ := own.of_busy at_ (by simp)
    exact .inl ⟨l, is, member⟩

/-- Without such callbacks every call comes in time. -/
theorem clean_of_no_callback (reached : (machine T A F).Reach NoCallback s) : Clean s := by
  have both : Recorded s ∧ Own s := by
    refine Machine.Reach.invariant (fun s => Recorded s ∧ Own s) ?_ ?_ reached
    · rintro s rfl
      exact ⟨recorded_fresh, fun _ => rfl, fun _ busy => absurd rfl busy, fun _ => trivial⟩
    · intro s act s' both calm taken
      obtain ⟨recorded, own⟩ := both
      have move := move_of_step taken
      exact ⟨recorded_step recorded (inTime_of_own own) move, own_step recorded own calm move⟩
  exact both.1.clean

/-! ## A claim that comes too late -/

theorem not_clean_of_add (reached : (machine T A F).Reachable s)
    (stopped : s.task t = .suspended ∨ s.task t = .ended) (at_ : s.call c = .add t a)
    (others : ∀ d, d ≠ c → s.call d = .idle) :
    ∃ s', (machine T A F).Reachable s' ∧ ¬Clean s' := by
  have adds : (machine T A F).step s (.call c) = some ({ s with
      claims := Function.update s.claims a
        (if t ∈ s.claims a then s.claims a else t :: s.claims a) }.setCall c .idle) := by
    simp [machine, step, callStep, at_]
  refine ⟨_, reached.next adds, ?_⟩
  intro clean
  refine (clean t stopped ?_).2 a ?_
  · intro d
    show Function.update s.call c .idle d = .idle
    by_cases same : d = c
    · rw [same, Function.update_self]
    · rw [Function.update_of_ne same]
      exact others d same
  · show t ∈ Function.update s.claims a _ a
    rw [Function.update_self]
    split
    · assumption
    · exact List.mem_cons_self

/-- A call that comes to one of its last two steps while the task is stopped leaves the
claim behind. -/
theorem not_clean_of_late (reached : (machine T A F).Reachable s)
    (stopped : s.task t = .suspended ∨ s.task t = .ended)
    (at_ : s.call c = .write t a ∨ s.call c = .add t a)
    (others : ∀ d, d ≠ c → s.call d = .idle) :
    ∃ s', (machine T A F).Reachable s' ∧ ¬Clean s' := by
  obtain at_ | at_ := at_
  · have writes : (machine T A F).step s (.call c) = some ({ s with
        mtClaims := Function.update s.mtClaims t (some s.made)
        lists := Function.update s.lists s.made [a]
        made := s.made + 1 }.setCall c (.add t a)) := by
      simp [machine, step, callStep, at_]
    refine not_clean_of_add (reached.next writes) stopped (Function.update_self ..) ?_
    intro d other
    exact (Function.update_of_ne other ..).trans (others d other)
  · exact not_clean_of_add reached stopped at_ others

/-- `InTime`, decided. -/
def inTime (s : State T A F) : Act T A F → Bool
  | .call c =>
      match s.call c with
      | .write t a =>
          !(s.task t).parked && (s.mtClaims t).all fun l => (s.lists l).all fun x => x = a
      | .add t a => (s.mtClaims t).any fun l => a ∈ s.lists l
      | _ => true
  | _ => true

omit [DecidableEq T] [DecidableEq F] in
theorem inTime_sound (s : State T A F) (act : Act T A F) (checked : inTime s act = true) :
    InTime s act := by
  rintro c t a rfl
  refine ⟨?_, ?_⟩
  · intro at_
    simp only [inTime, at_, Bool.and_eq_true, Bool.not_eq_true', Option.all_eq_true] at checked
    refine ⟨checked.1, ?_⟩
    intro l is x member
    exact of_decide_eq_true (List.all_eq_true.mp (checked.2 l is) x member)
  · intro at_
    simp only [inTime, at_] at checked
    obtain ⟨l, is, member⟩ := (Option.any_eq_true _ _).mp checked
    exact .inl ⟨l, is, of_decide_eq_true member⟩

/-- A callback with the context of a task writes to a transport. -/
def callbackRun : List (Act Unit Unit Unit) :=
  [.callback () () (), .wakes (.callback ()) false] ++
    List.replicate 5 (.call (.callback ()))

/-- The task is at `sleep(0)`, or comes there. -/
def yieldRun (n : Nat) : List (Act Unit Unit Unit) :=
  .yield () :: List.replicate n (.task ())

/-- The task, and nobody inside of `_mt_claim`. -/
def parkedQuiet (s : State Unit Unit Unit) : Bool :=
  s.task () = .suspended && s.call (.own ()) = .idle && s.call (.callback ()) = .idle

theorem parkedQuiet_sound {s : State Unit Unit Unit} (checked : parkedQuiet s = true) :
    s.task () = .suspended ∧ ∀ c, s.call c = .idle := by
  simp only [parkedQuiet, Bool.and_eq_true, decide_eq_true_eq] at checked
  refine ⟨checked.1.1, ?_⟩
  intro c
  cases c with
  | own t => exact checked.1.2
  | callback f => exact checked.2

/-- The callback has claimed before the task comes to `sleep(0)`. -/
theorem handedRun_ends :
    ((machine Unit Unit Unit).execIf inTime (fresh Unit Unit Unit)
      (callbackRun ++ yieldRun 5)).any
      (fun s => parkedQuiet s && s.made = 1) = true := by
  decide +kernel

theorem parked_claims_none_handed :
    ∃ s : State Unit Unit Unit, s.made = 1 ∧ s.task () = .suspended ∧ s.claims () = [] := by
  obtain ⟨s, reached, ends⟩ := Machine.Reach.exists_of_execIf inTime_sound rfl handedRun_ends
  simp only [Bool.and_eq_true, decide_eq_true_eq] at ends
  obtain ⟨suspended, idle⟩ := parkedQuiet_sound ends.1
  have clean := (parked_claims_none reached () (.inl suspended) idle).2 ()
  exact ⟨s, ends.2, suspended, List.eq_nil_iff_forall_not_mem.mpr fun t => clean⟩

/-- The callback runs while the task is at `sleep(0)`. -/
theorem leakedRun_ends :
    ((machine Unit Unit Unit).exec (fresh Unit Unit Unit) (yieldRun 1 ++ callbackRun)).any
      (fun s => parkedQuiet s && s.claims () = [()]) = true := by
  decide +kernel

theorem parked_task_claims :
    ¬∀ s : State Unit Unit Unit, (machine Unit Unit Unit).Reachable s → Clean s := by
  intro always
  obtain ⟨s, reached, ends⟩ := Machine.Reachable.exists_of_exec rfl leakedRun_ends
  simp only [Bool.and_eq_true, decide_eq_true_eq] at ends
  obtain ⟨suspended, idle⟩ := parkedQuiet_sound ends.1
  refine (always s reached () (.inl suspended) idle).2 () ?_
  rw [ends.2]
  exact List.mem_cons_self

end MtAsyncio.TaskClaims
