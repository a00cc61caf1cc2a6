/-
Module: MtAsyncio.Proofs.ReaderClaims
Purpose: When a reader callback can start between a task's write and its next
  suspension.  A claim keeps out the reads that test it later; one that is taken
  while a read stands between its test and its callback does not.
Trusted boundary: none
Main exports: Claimed, Spared, Aside, aside_step, no_callback_in_claim,
  callback_in_claim
-/
import MtAsyncio.Model.Transports

namespace MtAsyncio.Transports

open Lib (Machine)

variable {T R : Type} [DecidableEq T] {s s' : State T R}

/-- The task has taken its claim in a write and has not handed it back. -/
def Claimed (s : State T R) (t : T) : Prop :=
  (s.mtClaims t = true ∧ s.task t ≠ .claiming) ∨ ∃ finished, s.task t = .releasing finished

/-- Past the claim test, with the callback still ahead. -/
def ReadPc.passed : ReadPc → Bool
  | .locking | .reading => true
  | _ => false

/-- No claim is taken while a read stands between its test and its callback, and
no read is deferred for too long. -/
def Spared (s : State T R) : Act T R → Prop
  | .task t => s.task t = .claiming → ∀ r, (s.reader r).passed = false
  | .test _ now => s.claims ≠ [] → now - s.readDeferSince.getD now < maxReadDefer
  | _ => True

/-! ## The invariant -/

/-- On the way to a suspension or to the end, or there. -/
def TaskPc.handing : TaskPc → Bool
  | .releasing _ | .requeueing _ | .suspended | .finished => true
  | _ => false

structure Aside (s : State T R) : Prop where
  recorded : ∀ t, Claimed s t → t ∈ s.claims
  handing : ∀ t, (s.task t).handing = true → s.mtClaims t = false
  aside : ∀ r, (s.reader r).passed = true → s.claims = []

omit [DecidableEq T] in
/-- A reader goes on. -/
theorem Aside.setReader [DecidableEq R] (aside : Aside s) {r : R} {pc : ReadPc}
    (earlier : pc.passed = true → s.claims = []) : Aside (s.setReader r pc) where
  recorded := aside.recorded
  handing := aside.handing
  aside := by
    intro other passed
    by_cases same : other = r
    · subst same
      exact earlier (by simpa [State.setReader] using passed)
    · exact aside.aside other (by simpa [State.setReader, same] using passed)

/-- A task goes on and sets its own `_mt_claims`. -/
theorem Aside.moveTask (aside : Aside s) {t : T} {pc : TaskPc} {mt : Bool}
    (kept : (mt = true ∧ pc ≠ .claiming) ∨ (∃ finished, pc = .releasing finished) → t ∈ s.claims)
    (handed : pc.handing = true → mt = false) :
    Aside ({ s with mtClaims := Function.update s.mtClaims t mt }.setTask t pc) where
  recorded := by
    intro other claimed
    by_cases same : other = t
    · subst same
      exact kept (by simpa [Claimed, State.setTask] using claimed)
    · exact aside.recorded other (by simpa [Claimed, State.setTask, same] using claimed)
  handing := by
    intro other handing
    by_cases same : other = t
    · subst same
      simpa [State.setTask] using handed (by simpa [State.setTask] using handing)
    · simpa [State.setTask, same] using
        aside.handing other (by simpa [State.setTask, same] using handing)
  aside := aside.aside

theorem Aside.setTask (aside : Aside s) {t : T} {pc : TaskPc}
    (kept : (s.mtClaims t = true ∧ pc ≠ .claiming) ∨ (∃ finished, pc = .releasing finished) →
      t ∈ s.claims)
    (handed : pc.handing = true → s.mtClaims t = false) : Aside (s.setTask t pc) := by
  have moved := aside.moveTask kept handed
  rwa [Function.update_eq_self] at moved

theorem aside_mtClaim (aside : Aside s) {t : T} (pc : s.task t = .running) :
    Aside (mtClaim s t) := by
  unfold mtClaim
  split
  · rename_i claims
    exact aside.setTask (fun _ => aside.recorded t (.inl ⟨claims, by simp [pc]⟩)) (by rintro ⟨⟩)
  · exact aside.moveTask (by simp) (by rintro ⟨⟩)

theorem aside_mtReleaseClaims (aside : Aside s) {t : T} (pc : s.task t = .running)
    {finished : Bool} : Aside (mtReleaseClaims s t finished) := by
  unfold mtReleaseClaims
  split
  · rename_i claims
    exact aside.moveTask (fun _ => aside.recorded t (.inl ⟨claims, by simp [pc]⟩)) fun _ => rfl
  · rename_i noClaim
    refine aside.setTask ?_ fun _ => by simpa using noClaim
    rintro (⟨claims, _⟩ | ⟨_, releasing⟩)
    · exact absurd claims noClaim
    · cases finished <;> cases releasing

/-- Handing a claim back only takes claims away. -/
theorem aside_mtReleaseClaim (aside : Aside s) {t : T} {finished : Bool}
    (pc : s.task t = .releasing finished) : Aside (mtReleaseClaim s t finished) := by
  have handed : s.mtClaims t = false := aside.handing t (by rw [pc]; rfl)
  have moved : ∀ {deferred : Bool} {next : TaskPc}, (∀ finished, next ≠ .releasing finished) →
      Aside ({ s with
        claims := s.claims.filter (· ≠ t), readDeferred := deferred }.setTask t next) := by
    intro deferred next left
    refine ⟨?_, ?_, ?_⟩
    · intro other claimed
      by_cases same : other = t
      · subst same
        simp [Claimed, State.setTask, handed, left] at claimed
      · refine List.mem_filter.mpr ⟨aside.recorded other ?_, by simpa using same⟩
        simpa [Claimed, State.setTask, same] using claimed
    · intro other handing
      by_cases same : other = t
      · exact same ▸ handed
      · exact aside.handing other (by simpa [State.setTask, same] using handing)
    · intro r passed
      have none_ := aside.aside r passed
      simp [State.setTask, none_]
  unfold mtReleaseClaim
  simp only
  split
  · exact moved (by simp)
  · refine moved ?_
    intro other releasing
    cases finished <;> cases releasing

/-- A new claim is harmless while no read is past its test. -/
theorem aside_claim (aside : Aside s) {t : T} (behind : ∀ r, (s.reader r).passed = false) :
    Aside ({ s with claims := if t ∈ s.claims then s.claims else t :: s.claims }.setTask t
      .locking) where
  recorded := by
    intro other claimed
    by_cases same : other = t
    · subst same
      simp only [State.setTask]
      split
      · assumption
      · exact List.mem_cons_self
    · have before := aside.recorded other (by simpa [Claimed, State.setTask, same] using claimed)
      simp only [State.setTask]
      split
      · exact before
      · exact List.mem_cons_of_mem _ before
  handing := by
    intro other handing
    by_cases same : other = t
    · subst same
      simp [State.setTask, TaskPc.handing] at handing
    · exact aside.handing other (by simpa [State.setTask, same] using handing)
  aside := by
    intro r passed
    exact absurd ((behind r).symm.trans passed) (by simp)

theorem aside_taskStep (aside : Aside s) {t : T} (allowed : Spared s (.task t))
    (taken : taskStep s t = some s') : Aside s' := by
  unfold taskStep at taken
  cases pc : s.task t with
  | running | suspended | finished => simp [pc] at taken
  | claiming =>
      simp only [pc] at taken
      cases taken
      exact aside_claim aside (allowed pc)
  | locking =>
      simp only [pc] at taken
      split at taken
      · cases taken
      · cases taken
        refine Aside.setTask (s := { s with lock := some (.inl t) }) { aside with } ?_
          (by rintro ⟨⟩)
        rintro (⟨claims, _⟩ | ⟨_, releasing⟩)
        · exact aside.recorded t (.inl ⟨claims, by simp [pc]⟩)
        · cases releasing
  | writing =>
      simp only [pc] at taken
      cases taken
      refine Aside.setTask (s := { s with lock := none }) { aside with } ?_ (by rintro ⟨⟩)
      rintro (⟨claims, _⟩ | ⟨_, releasing⟩)
      · exact aside.recorded t (.inl ⟨claims, by simp [pc]⟩)
      · cases releasing
  | releasing finished =>
      simp only [pc] at taken
      cases taken
      exact aside_mtReleaseClaim aside pc
  | requeueing finished =>
      have handed : s.mtClaims t = false := aside.handing t (by rw [pc]; rfl)
      simp only [pc] at taken
      cases taken
      refine Aside.setTask
        (s := { s with queued := if s.closing then s.queued else s.queued + 1 })
        { aside with } ?_ fun _ => handed
      rintro (⟨claims, _⟩ | ⟨_, releasing⟩)
      · rw [show s.mtClaims t = true from claims] at handed
        cases handed
      · cases finished <;> cases releasing

omit [DecidableEq T] in
theorem aside_readReady [DecidableEq R] (aside : Aside s) {r : R} {now : Nat}
    (allowed : Spared s (.test r now)) :
    Aside (readReady s r now) := by
  unfold readReady
  simp only
  split
  · exact Aside.setReader (s := { s with
      now := now, readDeferSince := some (s.readDeferSince.getD now), readDeferred := true })
      { aside with } (by rintro ⟨⟩)
  · rename_i unclaimed
    refine Aside.setReader (s := { s with
      now := now, readDeferSince := none, readDeferred := false }) { aside with } fun _ => ?_
    by_contra claims
    exact unclaimed ⟨claims, allowed claims⟩

theorem aside_step [DecidableEq R] {a : Act T R} (aside : Aside s) (allowed : Spared s a)
    (taken : step s a = some s') : Aside s' := by
  cases a with
  | write t =>
      simp only [step] at taken
      split at taken
      · rename_i pc
        cases taken
        exact aside_mtClaim aside pc
      · cases taken
  | suspend t | finish t =>
      simp only [step] at taken
      split at taken
      · rename_i pc
        cases taken
        exact aside_mtReleaseClaims aside pc
      · cases taken
  | resume t =>
      simp only [step] at taken
      split at taken
      · rename_i pc
        cases taken
        have handed : s.mtClaims t = false := aside.handing t (by rw [pc]; rfl)
        refine aside.setTask ?_ (by rintro ⟨⟩)
        rintro (⟨claims, _⟩ | ⟨_, releasing⟩)
        · rw [claims] at handed
          cases handed
        · cases releasing
      · cases taken
  | task t => exact aside_taskStep aside allowed taken
  | dispatch r =>
      simp only [step] at taken
      split at taken
      · cases taken
        exact aside.setReader (by rintro ⟨⟩)
      · cases taken
  | runQueued r =>
      simp only [step] at taken
      split at taken
      · split at taken
        · cases taken
        · cases taken
          exact Aside.setReader (s := { s with queued := s.queued - 1 }) { aside with }
            (by rintro ⟨⟩)
      · cases taken
  | test r now =>
      simp only [step] at taken
      split at taken
      · split at taken
        · cases taken
        · cases taken
          exact aside_readReady aside allowed
      · cases taken
  | lock r =>
      simp only [step] at taken
      split at taken
      · rename_i pc
        split at taken
        · cases taken
        · cases taken
          exact Aside.setReader (s := { s with lock := some (.inr r) }) { aside with }
            fun _ => aside.aside r (by rw [pc]; rfl)
      · cases taken
  | receive r got =>
      simp only [step] at taken
      split at taken
      · cases got with
        | nothing =>
            cases taken
            exact Aside.setReader (s := { s with lock := none }) { aside with } (by rintro ⟨⟩)
        | data | eof =>
            cases taken
            exact aside.setReader (by rintro ⟨⟩)
      · cases taken
  | return_ r =>
      simp only [step] at taken
      split at taken
      · cases taken
        exact Aside.setReader (s := { s with lock := none }) { aside with } (by rintro ⟨⟩)
      · cases taken
  | close =>
      cases taken
      exact { aside with }

omit [DecidableEq T] in
theorem aside_fresh : Aside (fresh : State T R) where
  recorded := by
    rintro t (⟨claims, _⟩ | ⟨_, releasing⟩)
    · cases claims
    · cases releasing
  handing := by rintro _ ⟨⟩
  aside := by rintro _ ⟨⟩

/-! ## Runs -/

/-- In every run in which no claim is taken behind a read's test, the socket is
read, and a callback of the protocol starts, only when no task is between a
write's claim and its release. -/
theorem no_callback_in_claim [DecidableEq R] (reached : (machine T R).Reach Spared s) {r : R}
    {got : Received} (starts : step s (.receive r got) = some s') :
    ∀ t, ¬Claimed s t ∧ t ∉ s.claims := by
  have aside : Aside s := by
    refine reached.invariant Aside ?_ fun _ _ _ before allowed taken =>
      aside_step before allowed taken
    rintro _ rfl
    exact aside_fresh
  have passed : (s.reader r).passed = true := by
    simp only [step] at starts
    split at starts
    · rename_i pc
      rw [pc]
      rfl
    · cases starts
  have unclaimed : s.claims = [] := aside.aside r passed
  intro t
  refine ⟨fun claimed => ?_, by simp [unclaimed]⟩
  have recorded := aside.recorded t claimed
  rw [unclaimed] at recorded
  cases recorded

/-- The condition, for one reader. -/
def spared (s : State Nat Unit) : Act Nat Unit → Bool
  | .task t => s.task t ≠ .claiming || !(s.reader ()).passed
  | .test _ now => s.claims = [] || now - s.readDeferSince.getD now < maxReadDefer
  | _ => true

theorem spared_sound (s : State Nat Unit) (a : Act Nat Unit)
    (checked : spared s a = true) : Spared s a := by
  cases a with
  | task t =>
      intro claiming r
      have behind : (s.reader ()).passed = false := by simpa [spared, claiming] using checked
      exact behind
  | test r now =>
      intro claims
      simpa [spared, claims] using checked
  | _ => trivial

/-- A task writes, a read stands aside for it and is queued again when the task
suspends; then its callback is about to start. -/
def deferredRead : List (Act Nat Unit) :=
  [.write 0, .task 0, .task 0, .task 0, .dispatch (), .test () 7, .suspend 0, .task 0, .task 0,
    .runQueued (), .test () 9, .lock ()]

theorem deferredRead_ends :
    ((machine Nat Unit).execIf spared fresh deferredRead).any (fun s =>
      (step s (.receive () .data)).any fun s' => s'.reader () = .calling) = true := by
  decide +kernel

theorem no_callback_in_claim_after_deferral :
    ∃ s s' : State Nat Unit, step s (.receive () .data) = some s' ∧
      s'.reader () = .calling ∧ ¬Claimed s 0 := by
  obtain ⟨s, reached, ends⟩ :=
    Machine.Reach.exists_of_execIf spared_sound rfl deferredRead_ends
  obtain ⟨s', starts, called⟩ := (Option.any_eq_true _ _).mp ends
  exact ⟨s, s', starts, of_decide_eq_true called,
    (no_callback_in_claim reached starts 0).1⟩

/-- A read passes its test; the task claims, writes and goes on; the read takes
the connection lock. -/
def claimBehindTest : List (Act Nat Unit) :=
  [.dispatch (), .test () 0, .write 0, .task 0, .task 0, .task 0, .lock ()]

theorem claimBehindTest_ends :
    ((machine Nat Unit).exec fresh claimBehindTest).any (fun s =>
      (s.mtClaims 0 = true ∧ s.task 0 = .running) ∧ 0 ∈ s.claims ∧
        (step s (.receive () .data)).any fun s' => s'.reader () = .calling) = true := by
  decide +kernel

theorem callback_in_claim :
    ∃ s s', (machine Nat Unit).Reachable s ∧ step s (.receive () .data) = some s' ∧
      s'.reader () = .calling ∧ Claimed s 0 ∧ 0 ∈ s.claims := by
  obtain ⟨s, reached, ends⟩ := Machine.Reachable.exists_of_exec rfl claimBehindTest_ends
  obtain ⟨⟨claims, running⟩, recorded, called⟩ := of_decide_eq_true ends
  obtain ⟨s', starts, called⟩ := (Option.any_eq_true _ _).mp called
  exact ⟨s, s', reached, starts, of_decide_eq_true called,
    .inl ⟨claims, by simp [running]⟩, recorded⟩

end MtAsyncio.Transports
