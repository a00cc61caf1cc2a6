/-
Module: MtAsyncio.Proofs.WaitingTenants
Purpose: What holds of the tasks inside of a primitive and of the futures on its
  deques in the middle of a hand-off too, and who may complete such a future in
  the meantime: only a `Future.cancel` that a `Task.cancel` makes on it.
Trusted boundary: none
Main exports: Tenants, Tenants.around, Tenants.await, Tenants.park,
  Tenants.leave, Tenants.finish, Cancels, around_done
-/
import MtAsyncio.Proofs.WaitingLists

namespace MtAsyncio.Waiting

open Lock (Elsewhere)
open Tasks

variable {S K T F C : Type} [DecidableEq T] [DecidableEq F]
variable {w w' : Waits S K T F C} {t u : T} {k : K} {sd : S} {f g : F}

/-! ## Tasks and their futures -/

/-- Every task inside of the primitive has a future of its own, and what is on a
deque was made by the primitive. -/
structure Tenants (w : Waits S K T F C) : Prop where
  facts : Issued w.kernel w.issued
  used : ∀ t f, (w.place t).future = some f → w.issued f = true
  apart : ∀ t u f, (w.place t).future = some f → (w.place u).future = some f → t = u
  listed : ∀ sd f, f ∈ w.waiters sd → w.issued f = true

namespace Tenants

omit [DecidableEq T] [DecidableEq F] in
theorem of_fresh (fresh : w.Fresh) : Tenants w := by
  obtain ⟨-, issued, waiters, place⟩ := fresh
  refine ⟨⟨?_, ?_, ?_⟩, ?_, ?_, ?_⟩
  all_goals simp [issued, waiters, place, Place.future]

omit [DecidableEq T] [DecidableEq F] in
theorem setKernel (tenants : Tenants w) {kernel : Kernel T F C}
    (eased : Eased w.issued w.kernel kernel) : Tenants (w.setKernel kernel) where
  facts := tenants.facts.eased eased
  used := tenants.used
  apart := tenants.apart
  listed := tenants.listed

theorem around [DecidableEq C] (tenants : Tenants w) {a : Around T F C}
    (taken : w.around a = some w') :
    Tenants w' := by
  obtain ⟨kernel, rfl, eased⟩ := around_eased tenants.facts taken
  exact tenants.setKernel eased

omit [DecidableEq F] in
/-- A task goes on with the same future, or with none. -/
theorem setPlace (tenants : Tenants w) {p : Place K F}
    (future : ∀ f, p.future = some f → (w.place t).future = some f) :
    Tenants (w.setPlace t p) where
  facts := tenants.facts
  used u g has := tenants.used u g (setPlace_future future u g has)
  apart u v g has has' :=
    tenants.apart u v g (setPlace_future future u g has) (setPlace_future future v g has')
  listed := tenants.listed

omit [DecidableEq T] [DecidableEq F] in
/-- Futures are taken off a deque. -/
theorem setWaiters [DecidableEq S] (tenants : Tenants w) {fs : List F}
    (fewer : ∀ f ∈ fs, f ∈ w.waiters sd) :
    Tenants (w.setWaiters sd fs) where
  facts := tenants.facts
  used := tenants.used
  apart := tenants.apart
  listed := by
    intro sd' f member
    simp only [Waits.setWaiters, Function.update_apply] at member
    split at member
    · exact tenants.listed sd f (fewer f member)
    · exact tenants.listed sd' f member

omit [DecidableEq F] in
theorem await (tenants : Tenants w) {pc : AwaitPc} (at_ : w.place t = .waiting k f pc)
    (taken : w.await t k f pc = some w') : Tenants w' := by
  obtain ⟨⟨kernel, next⟩, moved, rfl⟩ := Option.map_eq_some_iff.mp taken
  refine (tenants.setKernel (awaitStep_eased moved)).setPlace ?_
  intro g has
  show (w.place t).future = some g
  rw [at_, afterAwait_future has]
  rfl

theorem leave [DecidableEq S] (tenants : Tenants w) : Tenants (w.leave t sd f) := by
  refine (tenants.setWaiters ?_).setPlace ?_
  · intro g member
    exact List.mem_of_mem_erase member
  · rintro g ⟨⟩

/-- `set_result` -/
theorem finish (tenants : Tenants w) (f : F) :
    Tenants (w.setKernel (w.kernel.setState (.fut f) .finished)) where
  facts := tenants.facts.finish f
  used := tenants.used
  apart := tenants.apart
  listed := tenants.listed

/-- A call makes a future and puts it on a deque. -/
theorem park [DecidableEq S] (tenants : Tenants w) (taken : w.park t k sd f = some w') :
    Tenants w' := by
  have parked := park_spec tenants.facts taken
  have kept : ∀ g, w.issued g = true → w'.issued g = true := by
    intro g made
    rw [parked.issued, Function.update_of_ne (parked.ne_of_issued made)]
    exact made
  have future : ∀ u g, (w'.place u).future = some g →
      u = t ∧ g = f ∨ u ≠ t ∧ (w.place u).future = some g := by
    intro u g has
    rw [parked.place, Function.update_apply] at has
    split at has
    · rename_i isT
      cases has
      exact .inl ⟨isT, rfl⟩
    · rename_i other
      exact .inr ⟨other, has⟩
  have fresh : ∀ u, (w.place u).future ≠ some f := by
    intro u has
    exact parked.ne_of_issued (tenants.used u f has) rfl
  refine ⟨?_, ?_, ?_, ?_⟩
  · simp only [Waits.park] at taken
    split at taken
    · cases taken
    · cases taken
      exact tenants.facts.create f
  · intro u g has
    obtain ⟨-, rfl⟩ | ⟨-, has⟩ := future u g has
    · rw [parked.issued, Function.update_self]
    · exact kept g (tenants.used u g has)
  · intro u v g has has'
    obtain ⟨isT, isF⟩ | ⟨-, has⟩ := future u g has <;>
      obtain ⟨isT', isF'⟩ | ⟨-, has'⟩ := future v g has'
    · rw [isT, isT']
    · exact absurd (isF ▸ has') (fresh v)
    · exact absurd (isF' ▸ has) (fresh u)
    · exact tenants.apart u v g has has'
  · intro sd' g member
    rw [parked.waiters, Function.update_apply] at member
    split at member
    · obtain member | isF := List.mem_append.mp member
      · exact kept g (tenants.listed sd g member)
      · rw [parked.issued, List.mem_singleton.mp isF, Function.update_self]
    · exact kept g (tenants.listed sd' g member)

end Tenants

/-! ## Who completes a future -/

theorem done_finish (w : Waits S K T F C) (f g : F) :
    (w.setKernel (w.kernel.setState (.fut f) .finished)).done g = (decide (g = f) || w.done g) := by
  by_cases isF : g = f
  · simp [Waits.done, Waits.setKernel, Kernel.setState, isF]
  · simp [Waits.done, Waits.setKernel, Kernel.setState, isF]

/-- The step is the locked section of a `Future.cancel` on `f`. -/
def Cancels (w : Waits S K T F C) (a : Around T F C) (f : F) : Prop :=
  ∃ c t rest, a = .kernel (.call c) ∧ w.kernel.calls c = (t, .futCancel (.fut f)) :: rest

/-- Other code of a task completes no future of the primitive. -/
theorem elsewhere_state (facts : Issued w.kernel w.issued) (made : w.issued f = true)
    {e : Elsewhere T F} (taken : w.elsewhere t e = some w') :
    w'.kernel.state (.fut f) = w.kernel.state (.fut f) := by
  cases e with
  | create g =>
      simp only [Waits.elsewhere] at taken
      split at taken
      · cases taken
      · rename_i fresh
        cases taken
        refine Function.update_of_ne ?_ _ _
        intro same
        exact fresh (Ref.fut.inj same ▸ facts.created f made)
  | await r pc =>
      cases r with
      | fut g =>
          simp only [Waits.elsewhere] at taken
          split at taken
          · cases taken
          · obtain ⟨next, moved, rfl⟩ := Option.map_eq_some_iff.mp taken
            exact congrFun (awaitStep_frame moved).1 _
      | task v =>
          obtain ⟨next, moved, rfl⟩ := Option.map_eq_some_iff.mp taken
          exact congrFun (awaitStep_frame moved).1 _
  | uncancel pc =>
      cases taken
      cases pc <;> rfl
  | settle ending =>
      cases taken
      simp only [Waits.setKernel, Kernel.settle]
      split
      · have other : Ref.fut f ≠ Ref.task t := by rintro ⟨⟩
        simp only [Kernel.setState, Function.update_of_ne other]
      · rfl

/-- The surroundings complete a future of the primitive only by cancelling it. -/
theorem around_done [DecidableEq C] (tenants : Tenants w) {a : Around T F C}
    (taken : w.around a = some w')
    (made : w.issued f = true) (live : w.done f = false) (spared : ¬Cancels w a f) :
    w'.done f = false := by
  rw [done_eq_false] at live ⊢
  obtain ⟨kernel, rfl, eased⟩ := around_eased tenants.facts taken
  obtain same | ⟨-, cancelled⟩ := eased.state f made
  · exact same.trans live
  · exfalso
    have changed : (w.setKernel kernel).kernel.state (.fut f) ≠ w.kernel.state (.fut f) := by
      rw [live]
      show kernel.state (.fut f) ≠ _
      rw [cancelled]
      rintro ⟨⟩
    cases a with
    | elsewhere v e =>
        simp only [Waits.around] at taken
        split at taken
        · exact changed (elsewhere_state tenants.facts made taken)
        · cases taken
    | kernel a =>
        cases a with
        | call c =>
            obtain ⟨kernel', moved, same⟩ := Option.map_eq_some_iff.mp taken
            obtain rfl : kernel' = kernel := congrArg Waits.kernel same
            obtain same | ⟨t, g, rest, stack, -, state⟩ := (Kernel.cancelStep_effect moved).state
            · exact changed (congrFun same _)
            · by_cases self : f = g
              · exact spared ⟨c, t, rest, rfl, self ▸ stack⟩
              · refine changed ?_
                show kernel'.state _ = _
                rw [state, Function.update_of_ne fun same => self (Ref.fut.inj same)]
        | complete g st =>
            simp only [Waits.around] at taken
            split at taken
            · cases taken
            · rename_i foreign
              obtain ⟨kernel', moved, same⟩ := Option.map_eq_some_iff.mp taken
              obtain rfl : kernel' = kernel := congrArg Waits.kernel same
              simp only [Kernel.step] at moved
              split at moved <;> cases moved
              refine changed (Function.update_of_ne ?_ _ _)
              intro same
              rw [Ref.fut.inj same] at made
              exact foreign made
        | wake r =>
            obtain ⟨kernel', moved, same⟩ := Option.map_eq_some_iff.mp taken
            obtain rfl : kernel' = kernel := congrArg Waits.kernel same
            simp only [Kernel.step] at moved
            split at moved <;> cases moved
            exact changed rfl
        | cancel c t =>
            obtain ⟨kernel', moved, same⟩ := Option.map_eq_some_iff.mp taken
            obtain rfl : kernel' = kernel := congrArg Waits.kernel same
            simp only [Kernel.step] at moved
            split at moved <;> cases moved
            exact changed rfl

end MtAsyncio.Waiting
