/-
Module: MtAsyncio.Proofs.IssuedFutures
Purpose: What the surroundings of a primitive can do to the futures it made:
  they complete none of them, set their events only once they are done, and
  cancel what is pending.  And an event is set only when its future is done.
Trusted boundary: none
Main exports: Issued, Eased, Issued.eased, kernel_eased, create_eased,
  settle_eased, Fenced, kernel_fenced
-/
import MtAsyncio.Proofs.TaskCancel

namespace MtAsyncio.Tasks

variable {T F C : Type} [DecidableEq T] [DecidableEq F]
variable {t : T} {f g : F}

/-! ## The futures of a primitive -/

/-- What holds of the futures that a primitive made. -/
structure Issued (kernel : Kernel T F C) (issued : F → Bool) : Prop where
  created : ∀ f, issued f = true → kernel.created f = true
  fence : ∀ f, issued f = true → kernel.event (.fut f) = true → kernel.state (.fut f) ≠ .pending
  unfailed : ∀ f, issued f = true → kernel.state (.fut f) ≠ .failed

/-- What the surroundings do to the futures of a primitive: they set events and
cancel what is pending. -/
structure Eased (issued : F → Bool) (before after : Kernel T F C) : Prop where
  created : ∀ f, issued f = true → before.created f = true → after.created f = true
  event : ∀ f, issued f = true → before.event (.fut f) = true → after.event (.fut f) = true
  set : ∀ f, issued f = true → after.event (.fut f) = true →
    before.event (.fut f) = true ∨ after.state (.fut f) ≠ .pending
  state : ∀ f, issued f = true → after.state (.fut f) = before.state (.fut f) ∨
    (before.state (.fut f) = .pending ∧ after.state (.fut f) = .cancelled)

omit [DecidableEq T] [DecidableEq F] in
theorem Eased.of_same {issued : F → Bool} {before after : Kernel T F C}
    (state : after.state = before.state) (event : after.event = before.event)
    (created : after.created = before.created) : Eased issued before after where
  created := by
    rw [created]
    exact fun _ _ => id
  event := by
    rw [event]
    exact fun _ _ => id
  set := by
    rw [event]
    exact fun _ _ => .inl
  state := by
    rw [state]
    exact fun _ _ => .inl rfl

section Eased

variable {issued : F → Bool} {before after : Kernel T F C}

omit [DecidableEq T] [DecidableEq F] in
theorem Eased.pending (eased : Eased issued before after) (made : issued f = true)
    (pending : after.state (.fut f) = .pending) : before.state (.fut f) = .pending := by
  obtain same | ⟨was, -⟩ := eased.state f made
  · rwa [same] at pending
  · exact was

omit [DecidableEq T] [DecidableEq F] in
theorem Eased.finished (eased : Eased issued before after) (made : issued f = true) :
    after.state (.fut f) = .finished ↔ before.state (.fut f) = .finished := by
  obtain same | ⟨was, now⟩ := eased.state f made
  · rw [same]
  · simp [was, now]

omit [DecidableEq T] [DecidableEq F] in
theorem Issued.eased (facts : Issued before issued) (eased : Eased issued before after) :
    Issued after issued where
  created f made := eased.created f made (facts.created f made)
  fence := by
    intro f made set
    obtain was | ended := eased.set f made set
    · intro pending
      exact facts.fence f made was (eased.pending made pending)
    · exact ended
  unfailed := by
    intro f made failed
    obtain same | ⟨-, now⟩ := eased.state f made
    · exact facts.unfailed f made (same ▸ failed)
    · rw [now] at failed
      cases failed

end Eased

/-- A new future. -/
theorem Issued.create {issued : F → Bool} {kernel : Kernel T F C} (facts : Issued kernel issued)
    (f : F) : Issued (kernel.create f) (Function.update issued f true) := by
  have old : ∀ g, g ≠ f → Function.update issued f true g = true → issued g = true := by
    intro g other made
    rwa [Function.update_of_ne other] at made
  have ref : ∀ g, g ≠ f → Ref.fut (T := T) g ≠ .fut f := by
    intro g other same
    exact other (Ref.fut.inj same)
  refine ⟨?_, ?_, ?_⟩
  · intro g made
    by_cases isF : g = f
    · simp [Kernel.create, isF]
    · simpa only [Kernel.create, Function.update_of_ne isF] using
        facts.created g (old g isF made)
  · intro g made set
    by_cases isF : g = f
    · simp [Kernel.create, isF] at set
    · simp only [Kernel.create, Function.update_of_ne (ref g isF)] at set ⊢
      exact facts.fence g (old g isF made) set
  · intro g made
    by_cases isF : g = f
    · simp [Kernel.create, isF]
    · simp only [Kernel.create, Function.update_of_ne (ref g isF)]
      exact facts.unfailed g (old g isF made)

/-- `set_result` -/
theorem Issued.finish {issued : F → Bool} {kernel : Kernel T F C} (facts : Issued kernel issued)
    (f : F) : Issued (kernel.setState (.fut f) .finished) issued := by
  refine ⟨facts.created, ?_, ?_⟩
  · intro g made set
    simp only [Kernel.setState, Function.update_apply]
    split
    · rintro ⟨⟩
    · exact facts.fence g made set
  · intro g made
    simp only [Kernel.setState, Function.update_apply]
    split
    · rintro ⟨⟩
    · exact facts.unfailed g made

omit [DecidableEq F] in
theorem awaitStep_eased {issued : F → Bool} {kernel kernel' : Kernel T F C} {r : Ref T F}
    {pc : AwaitPc} {next : AwaitPc ⊕ Outcome}
    (taken : kernel.awaitStep t r pc = some (kernel', next)) : Eased issued kernel kernel' := by
  obtain ⟨state, event, created, -⟩ := awaitStep_frame taken
  exact .of_same state event created

theorem kernel_eased [DecidableEq C] {issued : F → Bool} {kernel kernel' : Kernel T F C}
    {a : KernelAct T F C} (taken : kernel.step a = some kernel')
    (foreign : ∀ f st, a = .complete f st → issued f = false) : Eased issued kernel kernel' := by
  cases a with
  | complete f st =>
      simp only [Kernel.step] at taken
      split at taken
      · cases taken
        refine ⟨fun _ _ => id, fun _ _ => id, fun _ _ => .inl, ?_⟩
        intro g made
        have other : Ref.fut (T := T) g ≠ .fut f := by
          intro same
          rw [Ref.fut.inj same, foreign f st rfl] at made
          cases made
        exact .inl (Function.update_of_ne other _ _)
      · cases taken
  | wake r =>
      simp only [Kernel.step] at taken
      split at taken
      · cases taken
      · rename_i ended
        cases taken
        refine ⟨fun _ _ => id, ?_, ?_, fun _ _ => .inl rfl⟩
        · intro g _ set
          by_cases self : Ref.fut g = r
          · simp [self]
          · simpa only [Function.update_of_ne self] using set
        · intro g _ set
          by_cases self : Ref.fut g = r
          · exact .inr (self ▸ ended)
          · simp only [Function.update_of_ne self] at set
            exact .inl set
  | cancel c t =>
      simp only [Kernel.step] at taken
      split at taken
      · cases taken
        exact .of_same rfl rfl rfl
      · cases taken
  | call c =>
      have effect := Kernel.cancelStep_effect taken
      obtain same | ⟨t, g, rest, -, pending, changed⟩ := effect.state
      · exact .of_same same effect.event effect.created
      · refine ⟨?_, ?_, ?_, ?_⟩
        · rw [effect.created]
          exact fun _ _ => id
        · rw [effect.event]
          exact fun _ _ => id
        · rw [effect.event]
          exact fun _ _ => .inl
        · intro f _
          by_cases self : f = g
          · subst self
            exact .inr ⟨pending, by rw [changed, Function.update_self]⟩
          · left
            rw [changed, Function.update_of_ne fun same => self (Ref.fut.inj same)]

/-- A future that someone else makes. -/
theorem create_eased {issued : F → Bool} {kernel : Kernel T F C}
    (created : ∀ g, issued g = true → kernel.created g = true) (fresh : kernel.created f ≠ true) :
    Eased issued kernel (kernel.create f) := by
  have other : ∀ g, issued g = true → Ref.fut (T := T) g ≠ .fut f := by
    intro g made same
    exact fresh (Ref.fut.inj same ▸ created g made)
  refine ⟨?_, ?_, ?_, ?_⟩
  · intro g made before
    have apart : g ≠ f := fun same => other g made (congrArg Ref.fut same)
    simpa only [Kernel.create, Function.update_of_ne apart] using before
  · intro g made set
    simpa only [Kernel.create, Function.update_of_ne (other g made)] using set
  · intro g made set
    simp only [Kernel.create, Function.update_of_ne (other g made)] at set
    exact .inl set
  · intro g made
    exact .inl (Function.update_of_ne (other g made) _ _)

/-- The end of a task completes no future but its own. -/
theorem settle_eased {issued : F → Bool} (kernel : Kernel T F C) (t : T) (ending : Ending) :
    Eased issued kernel (kernel.settle t ending) := by
  unfold Kernel.settle
  split
  · refine ⟨fun _ _ => id, fun _ _ => id, fun _ _ => .inl, ?_⟩
    intro g _
    simp [Kernel.setState]
  · exact .of_same rfl rfl rfl

omit [DecidableEq F] in
theorem uncancel_eased {issued : F → Bool} (kernel : Kernel T F C) (t : T) (pc : UncancelPc) :
    Eased issued kernel (kernel.uncancelStep t pc).1 := by
  cases pc <;> exact .of_same rfl rfl rfl

/-! ## Events and results -/

/-- An event is set only when its future is done. -/
def Fenced (kernel : Kernel T F C) : Prop :=
  ∀ r, kernel.event r = true → kernel.state r ≠ .pending

section Fenced

variable {kernel kernel' : Kernel T F C}

omit [DecidableEq T] [DecidableEq F] in
theorem Fenced.of_completed (fenced : Fenced kernel) (event : kernel'.event = kernel.event)
    (completed : ∀ r, kernel'.state r = .pending → kernel.state r = .pending) : Fenced kernel' := by
  intro r set pending
  rw [event] at set
  exact fenced r set (completed r pending)

theorem Fenced.create (fenced : Fenced kernel) (f : F) : Fenced (kernel.create f) := by
  intro r set
  by_cases self : r = .fut f
  · simp [Kernel.create, self] at set
  · simp only [Kernel.create, Function.update_of_ne self] at set ⊢
    exact fenced r set

theorem Fenced.settle (fenced : Fenced kernel) (t : T) (ending : Ending) :
    Fenced (kernel.settle t ending) := by
  refine fenced.of_completed ?_ (kernel.settle_completed t ending)
  unfold Kernel.settle
  split <;> rfl

theorem kernel_fenced [DecidableEq C] {a : KernelAct T F C} (fenced : Fenced kernel)
    (taken : kernel.step a = some kernel') : Fenced kernel' := by
  cases a with
  | complete f st =>
      simp only [Kernel.step] at taken
      split at taken <;> cases taken
      rename_i allowed
      refine fenced.of_completed rfl ?_
      intro r pending
      by_cases self : r = .fut f
      · exact self ▸ allowed.1
      · simpa only [Kernel.setState, Function.update_of_ne self] using pending
  | wake r =>
      simp only [Kernel.step] at taken
      split at taken <;> cases taken
      rename_i ended
      intro r' set
      by_cases self : r' = r
      · exact self ▸ ended
      · simp only [Function.update_of_ne self] at set
        exact fenced r' set
  | cancel c t =>
      simp only [Kernel.step] at taken
      split at taken <;> cases taken
      exact fenced
  | call c =>
      have effect := Kernel.cancelStep_effect taken
      refine fenced.of_completed effect.event ?_
      intro r pending
      obtain same | ⟨t, g, rest, -, before, changed⟩ := effect.state
      · rwa [same] at pending
      · by_cases self : r = .fut g
        · exact self ▸ before
        · rwa [changed, Function.update_of_ne self] at pending

end Fenced

end MtAsyncio.Tasks
