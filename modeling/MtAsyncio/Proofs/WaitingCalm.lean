/-
Module: MtAsyncio.Proofs.WaitingCalm
Purpose: A primitive whose callers nobody cancels: no call of `Task.cancel` is on
  its way, no future of the primitive is cancelled, and no except clause runs.
Trusted boundary: none
Main exports: Calm, Calm.around, Calm.await, Calm.park, Calm.wakeNext, Calm.of_fresh
-/
import MtAsyncio.Proofs.WaitingLists

namespace MtAsyncio.Waiting

open Lock (Elsewhere)
open Tasks

variable {S K T F C : Type} [DecidableEq T]
variable {w w' : Waits S K T F C} {t u : T} {k : K} {f g : F} {side : K → S} {sd : S}

/-- Nobody cancels a caller of the primitive, and nobody has. -/
structure Calm (w : Waits S K T F C) : Prop where
  calls : ∀ c, w.kernel.calls c = []
  must : ∀ t, w.kernel.mustCancel t = false
  alive : ∀ f, w.issued f = true → w.kernel.state (.fut f) ≠ .cancelled
  uncaught : ∀ t k f, w.place t ≠ .caught k f

theorem awaitStep_must {kernel kernel' : Kernel T F C} {r : Ref T F} {pc : AwaitPc}
    {next : AwaitPc ⊕ Outcome} (must : ∀ u, kernel.mustCancel u = false)
    (taken : kernel.awaitStep t r pc = some (kernel', next)) (u : T) :
    kernel'.mustCancel u = false := by
  cases pc with
  | arm | ready =>
      simp only [Kernel.awaitStep, must] at taken
      cases taken
      exact must u
  | suspended =>
      simp only [Kernel.awaitStep] at taken
      split at taken <;> cases taken
      exact must u
  | _ =>
      cases taken
      exact must u

namespace Calm

omit [DecidableEq T] in
theorem setKernel (calm : Calm w) {kernel : Kernel T F C}
    (calls : kernel.calls = w.kernel.calls) (must : ∀ u, kernel.mustCancel u = false)
    (alive : ∀ g, w.issued g = true → kernel.state (.fut g) ≠ .cancelled) :
    Calm (w.setKernel kernel) where
  calls c := (congrFun calls c).trans (calm.calls c)
  must := must
  alive := alive
  uncaught := calm.uncaught

theorem setPlace (calm : Calm w) {p : Place K F} (uncaught : ∀ k f, p ≠ .caught k f) :
    Calm (w.setPlace t p) where
  calls := calm.calls
  must := calm.must
  alive := calm.alive
  uncaught := by
    intro u k f
    by_cases isT : u = t
    · rw [isT, setPlace_self]
      exact uncaught k f
    · rw [setPlace_other w p isT]
      exact calm.uncaught u k f

omit [DecidableEq T] in
theorem setWaiters [DecidableEq S] (calm : Calm w) (fs : List F) : Calm (w.setWaiters sd fs) :=
  ⟨calm.calls, calm.must, calm.alive, calm.uncaught⟩

theorem elsewhere [DecidableEq F] (calm : Calm w) {e : Elsewhere T F}
    (taken : w.elsewhere t e = some w') :
    Calm w' := by
  cases e with
  | create f =>
      simp only [Waits.elsewhere] at taken
      split at taken
      · cases taken
      · obtain rfl := Option.some.inj taken
        refine calm.setKernel rfl calm.must ?_
        intro g made
        simp only [Kernel.create, Function.update_apply]
        split
        · decide
        · exact calm.alive g made
  | await r pc =>
      have moves : ∀ {next : Kernel T F C × (AwaitPc ⊕ Outcome)},
          w.kernel.awaitStep t r pc = some next → Calm (w.setKernel next.1) := by
        intro next moved
        obtain ⟨state, -, -, calls⟩ := awaitStep_frame moved
        refine calm.setKernel calls (awaitStep_must calm.must moved) ?_
        rw [state]
        exact calm.alive
      cases r with
      | fut f =>
          simp only [Waits.elsewhere] at taken
          split at taken
          · cases taken
          · obtain ⟨next, moved, rfl⟩ := Option.map_eq_some_iff.mp taken
            exact moves moved
      | task v =>
          obtain ⟨next, moved, rfl⟩ := Option.map_eq_some_iff.mp taken
          exact moves moved
  | uncancel pc =>
      obtain rfl := Option.some.inj taken
      cases pc with
      | clear =>
          refine calm.setKernel rfl ?_ calm.alive
          intro u
          simp only [Kernel.uncancelStep, Kernel.setMust, Function.update_apply]
          split
          · rfl
          · exact calm.must u
      | _ => exact calm.setKernel rfl calm.must calm.alive
  | settle ending =>
      obtain rfl := Option.some.inj taken
      unfold Kernel.settle
      split
      · refine calm.setKernel rfl calm.must ?_
        intro g made
        simp only [Kernel.setState, Function.update_apply]
        rw [if_neg (by rintro ⟨⟩)]
        exact calm.alive g made
      · exact calm.setKernel rfl calm.must calm.alive

/-- The surroundings, without `Task.cancel`. -/
theorem around [DecidableEq F] [DecidableEq C] (calm : Calm w) {a : Around T F C}
    (spares : a.cancels = false) (taken : w.around a = some w') : Calm w' := by
  cases a with
  | kernel a =>
      cases a with
      | complete f st =>
          simp only [Waits.around] at taken
          split at taken
          · cases taken
          · rename_i foreign
            obtain ⟨kernel, moved, rfl⟩ := Option.map_eq_some_iff.mp taken
            simp only [Kernel.step] at moved
            split at moved
            · obtain rfl := Option.some.inj moved
              refine calm.setKernel rfl calm.must ?_
              intro g made
              have other : g ≠ f := by
                rintro rfl
                exact foreign made
              simp only [Kernel.setState, Function.update_apply]
              rw [if_neg fun same => other (Ref.fut.inj same)]
              exact calm.alive g made
            · cases moved
      | wake r =>
          obtain ⟨kernel, moved, rfl⟩ := Option.map_eq_some_iff.mp taken
          simp only [Kernel.step] at moved
          split at moved
          · cases moved
          · obtain rfl := Option.some.inj moved
            exact calm.setKernel rfl calm.must calm.alive
      | cancel c t => cases spares
      | call c =>
          obtain ⟨kernel, moved, rfl⟩ := Option.map_eq_some_iff.mp taken
          simp [Kernel.step, Kernel.cancelStep, calm.calls c] at moved
  | elsewhere t e =>
      simp only [Waits.around] at taken
      split at taken
      · exact calm.elsewhere taken
      · cases taken

/-- An await whose future and task nobody cancels goes on until the future has
a result. -/
theorem afterAwait_call (calm : Calm w) (registered : Registered side w) {pc : AwaitPc}
    {kernel : Kernel T F C} {next : AwaitPc ⊕ Outcome} (at_ : w.place t = .waiting k f pc)
    (moved : w.kernel.awaitStep t (.fut f) pc = some (kernel, next)) :
    (Waits.afterAwait k f next).call = some (k, f) ∧
      ∀ k' g, Waits.afterAwait k f next ≠ .caught k' g := by
  have made : w.issued f = true := registered.used t f (congrArg Place.future at_)
  have goes : ∀ pc' : AwaitPc, (Waits.afterAwait k f (.inl pc')).call = some (k, f) ∧
      ∀ k' g, Waits.afterAwait k f (.inl pc') ≠ .caught k' g := by
    intro pc'
    refine ⟨rfl, ?_⟩
    rintro _ _ ⟨⟩
  cases pc with
  | arm | ready =>
      simp only [Kernel.awaitStep, calm.must] at moved
      cases moved
      exact goes _
  | suspended =>
      simp only [Kernel.awaitStep] at moved
      split at moved <;> cases moved
      exact goes _
  | read =>
      have set := registered.resumed t k f .read at_ rfl
      have result : w.kernel.state (.fut f) = .finished := by
        cases status : w.kernel.state (.fut f) with
        | finished => rfl
        | pending => exact absurd status (registered.facts.fence f made set)
        | failed => exact absurd status (registered.facts.unfailed f made)
        | cancelled => exact absurd status (calm.alive f made)
      simp only [Kernel.awaitStep, set, if_true, Kernel.read, result] at moved
      cases moved
      refine ⟨rfl, ?_⟩
      rintro _ _ ⟨⟩
  | _ =>
      cases moved
      exact goes _

/-- A step of the await keeps the call. -/
theorem await (calm : Calm w) (registered : Registered side w) {pc : AwaitPc}
    (at_ : w.place t = .waiting k f pc) (taken : w.await t k f pc = some w') :
    Calm w' ∧ ∃ p : Place K F, p.call = some (k, f) ∧ w'.place = Function.update w.place t p := by
  obtain ⟨⟨kernel, next⟩, moved, rfl⟩ := Option.map_eq_some_iff.mp taken
  obtain ⟨state, -, -, calls⟩ := awaitStep_frame moved
  obtain ⟨call, uncaught⟩ := calm.afterAwait_call registered at_ moved
  have kept : Calm (w.setKernel kernel) := by
    refine calm.setKernel calls (awaitStep_must calm.must moved) ?_
    rw [state]
    exact calm.alive
  exact ⟨kept.setPlace uncaught, _, call, rfl⟩

theorem park [DecidableEq S] [DecidableEq F] (calm : Calm w) (taken : w.park t k sd f = some w') :
    Calm w' := by
  simp only [Waits.park] at taken
  split at taken
  · cases taken
  · obtain rfl := Option.some.inj taken
    have made : Calm { w with
        kernel := w.kernel.create f
        issued := Function.update w.issued f true
        waiters := Function.update w.waiters sd (w.waiters sd ++ [f]) } := by
      refine ⟨calm.calls, calm.must, ?_, calm.uncaught⟩
      intro g made
      simp only [Kernel.create, Function.update_apply] at made ⊢
      split
      · decide
      · rename_i other
        rw [if_neg (fun same => other (congrArg Ref.fut same))] at made
        exact calm.alive g made
    exact made.setPlace (by rintro _ _ ⟨⟩)

theorem wakeNext [DecidableEq S] [DecidableEq F] (calm : Calm w) (sd : S) :
    Calm (w.wakeNext sd).1 := by
  obtain ⟨result, -⟩ | ⟨dead, f, rest, -, -, -, result⟩ := wakeNext_spec w sd
  · rw [result]
    exact calm.setWaiters []
  · rw [result]
    refine (calm.setWaiters rest).setKernel rfl calm.must ?_
    intro g made
    simp only [Kernel.setState, Function.update_apply]
    split
    · decide
    · exact calm.alive g made

omit [DecidableEq T] in
theorem of_fresh (fresh : w.Fresh) : Calm w := by
  obtain ⟨⟨state, -, -, -, must, -, calls⟩, -, -, place⟩ := fresh
  refine ⟨calls, must, ?_, ?_⟩
  · intro f _
    rw [state]
    decide
  · intro t k f
    rw [place]
    rintro ⟨⟩

end Calm

end MtAsyncio.Waiting
