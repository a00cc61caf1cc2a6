/-
Module: MtAsyncio.Proofs.ClearStrands
Purpose: Whether a coroutine that waits for several events is resumed when all of them
  have fired: it is, unless a `clear` has found one of its wakers still in a list.
Trusted boundary: none
Main exports: Placed, Pending, Progress, Resumes, resumed_iff, Unfound, never_stranded
-/
import MtAsyncio.Proofs.OneResume

namespace MtAsyncio.Countdown

open Lib (Machine Exactly Once)

variable {T E : Type} [DecidableEq T] [DecidableEq E]
variable {w : Waiter E} {s s' b : State T E} {a : Act T E} {t u : T} {e f : E} {i j : Nat}
variable {pc : Pc E} {after : After E}

/-! ## Where a waker is -/

/-- A waker at this stage is with the thread, or in the list, that the stage tells. -/
structure Placed (s : State T E) : Prop where
  adding : ∀ i, s.stage i = .adding → ∃ t e, (s.pc t).site = some (i, e)
  queued : ∀ i, s.stage i = .queued → ∃ e, i ∈ s.watchers e
  carried : ∀ i t, s.stage i = .carried t → (s.pc t).own t = some (i, .carried t)

omit [DecidableEq E] in
/-- A step that leaves the stages and the lists alone. -/
theorem Placed.goto (placed : Placed s) (pcs : b.pc = s.pc) (stages : b.stage = s.stage)
    (lists : b.watchers = s.watchers)
    (site : ∀ i e, (s.pc t).site = some (i, e) → pc.site = some (i, e))
    (own : ∀ i, (s.pc t).own t = some (i, .carried t) → pc.own t = some (i, .carried t)) :
    Placed (b.goto t pc) := by
  refine ⟨?_, ?_, ?_⟩
  · intro i adding
    obtain ⟨u, e, isSite⟩ := placed.adding i (by rwa [← stages])
    refine ⟨u, e, ?_⟩
    by_cases self : u = t
    · subst self
      rw [goto_self]
      exact site i e isSite
    · rwa [goto_other b self, pcs]
  · intro i queued
    obtain ⟨e, member⟩ := placed.queued i (by rwa [← stages])
    refine ⟨e, ?_⟩
    show i ∈ b.watchers e
    rwa [lists]
  · intro i u carried
    have had := placed.carried i u (by rwa [← stages])
    by_cases self : u = t
    · subst self
      rw [goto_self]
      exact own i had
    · rwa [goto_other b self, pcs]

omit [DecidableEq E] in
/-- A thread passes a waker on from one stage to another. -/
theorem Placed.restage {σ : Stage T} (placed : Placed s) (pcs : b.pc = s.pc)
    (stages : b.stage = Function.update s.stage i σ)
    (site : ∀ j e, j ≠ i → (s.pc t).site ≠ some (j, e))
    (own : ∀ j σ', j ≠ i → (s.pc t).own t ≠ some (j, σ'))
    (lists : ∀ j e, j ≠ i → j ∈ s.watchers e → j ∈ b.watchers e)
    (adding : σ = .adding → ∃ e, pc.site = some (i, e))
    (queued : σ = .queued → ∃ e, i ∈ b.watchers e)
    (carried : ∀ u, σ = .carried u → u = t ∧ pc.own t = some (i, .carried t)) :
    Placed (b.goto t pc) := by
  have others : ∀ j σ', (b.goto t pc).stage j = σ' → j ≠ i → s.stage j = σ' := by
    intro j σ' is other
    rwa [show (b.goto t pc).stage = _ from stages, Function.update_of_ne other] at is
  have mine : ∀ σ', (b.goto t pc).stage i = σ' → σ = σ' := by
    intro σ' is
    rwa [show (b.goto t pc).stage = _ from stages, Function.update_self] at is
  refine ⟨?_, ?_, ?_⟩
  · intro j is
    by_cases isI : j = i
    · subst isI
      obtain ⟨e, isSite⟩ := adding (mine _ is)
      exact ⟨t, e, by rw [goto_self, isSite]⟩
    · obtain ⟨u, e, isSite⟩ := placed.adding j (others j _ is isI)
      have other : u ≠ t := by
        rintro rfl
        exact site j e isI isSite
      exact ⟨u, e, by rw [goto_other b other, pcs, isSite]⟩
  · intro j is
    by_cases isI : j = i
    · subst isI
      exact queued (mine _ is)
    · obtain ⟨e, member⟩ := placed.queued j (others j _ is isI)
      exact ⟨e, lists j e isI member⟩
  · intro j u is
    by_cases isI : j = i
    · subst isI
      obtain ⟨rfl, owns⟩ := carried u (mine _ is)
      rw [goto_self, owns]
    · have had := placed.carried j u (others j _ is isI)
      have other : u ≠ t := by
        rintro rfl
        exact own j _ isI had
      rw [goto_other b other, pcs, had]

theorem aborted_kept (move : Move w s a s') (unaborted : s'.aborted = none) :
    s.aborted = none := by
  cases move with
  | aborts => cases unaborted
  | _ => exact unaborted

theorem placed_step (sentinel : w.sentinel = true) (placed : Placed s)
    (unaborted : s.aborted = none) (move : Move w s a s') : Placed s' := by
  cases move with
  | none_ | replaced => exact ⟨placed.adding, placed.queued, placed.carried⟩
  | @flow t pc flow =>
      refine placed.goto rfl rfl rfl ?_ ?_
      · intro i e site
        cases flow with
        | unset at_ =>
            rw [at_] at site
            exact site
        | panics at_ | condemned at_ | resumes at_ | timed at_ | registered at_ | dropped at_
        | goes at_ | lost at_ | passes at_ | finds at_ | misses at_ | zeroes at_ | late at_ =>
            rw [at_] at site
            cases site
      · intro i own
        cases flow with
        | goes at_ =>
            rw [at_] at own
            exact own
        | dropped at_ aborted => exact absurd unaborted aborted
        | lost at_ plain =>
            rw [sentinel] at plain
            cases plain
        | unset at_ =>
            rw [at_] at own
            cases own
        | panics at_ | condemned at_ | resumes at_ | timed at_ | registered at_ | passes at_
        | finds at_ | misses at_ | zeroes at_ | late at_ =>
            rw [at_] at own
            cases own
  | @begins t i e at_ event free =>
      refine placed.restage rfl rfl ?_ ?_ (fun j f other member => member)
        (fun _ => ⟨e, rfl⟩) (by simp) (by simp)
      · intro j f other
        rw [at_]
        simp [Pc.site]
      · intro j σ other
        rw [at_]
        simp [Pc.own]
  | @found t i e at_ isSet =>
      refine placed.restage rfl rfl ?_ ?_ (fun j f other member => member) (by simp) (by simp) ?_
      · intro j f other
        rw [at_]
        simp [Pc.site, Ne.symm other]
      · intro j σ other
        rw [at_]
        simp [Pc.own, Ne.symm other]
      · intro u is
        exact ⟨(Stage.carried.inj is).symm, rfl⟩
  | @queues t i e at_ =>
      refine placed.restage rfl rfl ?_ ?_ ?_ (by simp) ?_ (by simp)
      · intro j f other
        rw [at_]
        simp [Pc.site, Ne.symm other]
      · intro j σ other
        rw [at_]
        simp [Pc.own, Ne.symm other]
      · intro j f other member
        show j ∈ Function.update s.watchers e (s.watchers e ++ [i]) f
        by_cases isE : f = e
        · subst isE
          rw [Function.update_self]
          exact List.mem_append_left _ member
        · rwa [Function.update_of_ne isE]
      · intro _
        refine ⟨e, ?_⟩
        show i ∈ Function.update s.watchers e (s.watchers e ++ [i]) e
        rw [Function.update_self]
        exact List.mem_append_right _ (List.mem_singleton.mpr rfl)
  | @pops t e i rest at_ first =>
      refine placed.restage rfl rfl ?_ ?_ ?_ (by simp) (by simp) ?_
      · intro j f other
        rw [at_]
        simp [Pc.site]
      · intro j σ other
        rw [at_]
        simp [Pc.own]
      · intro j f other member
        show j ∈ Function.update s.watchers e rest f
        by_cases isE : f = e
        · subst isE
          rw [Function.update_self]
          rw [first] at member
          exact (List.mem_cons.mp member).resolve_left other
        · rwa [Function.update_of_ne isE]
      · intro u is
        exact ⟨(Stage.carried.inj is).symm, rfl⟩
  | @counts t i after pc at_ isThread sentinel next =>
      refine placed.restage rfl rfl ?_ ?_ (fun j f other member => member) (by simp) (by simp)
        (by simp)
      · intro j f other
        rw [at_]
        simp [Pc.site]
      · intro j σ other
        rw [at_]
        simp [Pc.own, Ne.symm other]
  | wins at_ plain | claims at_ plain =>
      rw [sentinel] at plain
      cases plain
  | register at_ | publish at_ | unlocks at_ | arms at_ | restores at_ | sends at_ | notifies at_
  | drained at_ | unnotifies at_ | held at_ | raises at_ | zero at_ | throws at_ | set at_
  | clear at_ | expires at_ | aborts at_ =>
      refine placed.goto rfl rfl rfl ?_ ?_
      · intro i e site
        rw [at_] at site
        cases site
      · intro i own
        rw [at_] at own
        cases own

/-! ## The wakes that are still to come -/

def After.notifies : After E → Option E
  | .drain e => some e
  | .idle | .unlock _ _ => none

/-- The event that a thread inside of `set` notifies the wakers of. -/
def Pc.notifies : Pc E → Option E
  | .notify e | .drain e => some e
  | .resume _ after | .settle _ after | .restore after | .send after => after.notifies
  | _ => none

omit [DecidableEq E] in
theorem After.notifies_pc : after.pc.notifies = after.notifies := by
  cases after <;> rfl

/-- The wakers of an event that has been set are going to be woken. -/
structure Pending (w : Waiter E) (s : State T E) : Prop where
  begun : ∀ i, s.fired i = true → s.stage i ≠ .fresh
  pending : ∀ i, s.fired i = true → s.stage i = .adding ∨ s.stage i = .queued →
    ∃ e t, w.events[i]? = some e ∧ (s.pc t).notifies = some e

omit [DecidableEq E] in
theorem Pending.goto (pending : Pending w s) (pcs : b.pc = s.pc)
    (begun : ∀ i, b.fired i = true → b.stage i ≠ .fresh)
    (old : ∀ i, b.fired i = true → b.stage i = .adding ∨ b.stage i = .queued →
      s.fired i = true ∧ (s.stage i = .adding ∨ s.stage i = .queued))
    (keeps : ∀ e, (s.pc t).notifies = some e → pc.notifies = some e) :
    Pending w (b.goto t pc) := by
  refine ⟨begun, ?_⟩
  intro i fired waits
  obtain ⟨firedOld, waitsOld⟩ := old i fired waits
  obtain ⟨e, u, event, notifies⟩ := pending.pending i firedOld waitsOld
  refine ⟨e, u, event, ?_⟩
  by_cases self : u = t
  · subst self
    rw [goto_self]
    exact keeps e notifies
  · rwa [goto_other b self, pcs]

omit [DecidableEq E] in
/-- One waker gets to another stage. -/
theorem Pending.restage {σ : Stage T} (pending : Pending w s) (pcs : b.pc = s.pc)
    (fired : ∀ j, j ≠ i → b.fired j = s.fired j)
    (stages : b.stage = Function.update s.stage i σ) (begun : σ ≠ .fresh)
    (old : b.fired i = true → σ = .adding ∨ σ = .queued → s.fired i = true ∧ s.stage i = .adding)
    (keeps : ∀ e, (s.pc t).notifies = some e → pc.notifies = some e) :
    Pending w (b.goto t pc) := by
  refine pending.goto pcs ?_ ?_ keeps
  · intro j isFired
    rw [stages]
    by_cases isI : j = i
    · subst isI
      rwa [Function.update_self]
    · rw [Function.update_of_ne isI]
      exact pending.begun j ((fired j isI).symm.trans isFired)
  · intro j isFired waits
    rw [stages] at waits
    by_cases isI : j = i
    · subst isI
      rw [Function.update_self] at waits
      obtain ⟨firedOld, adding⟩ := old isFired waits
      exact ⟨firedOld, .inl adding⟩
    · rw [Function.update_of_ne isI] at waits
      exact ⟨(fired j isI).symm.trans isFired, waits⟩

omit [DecidableEq T] [DecidableEq E] in
theorem Flow.notifies (flow : Flow w s t pc) (has : (s.pc t).notifies = some e) :
    pc.notifies = some e := by
  cases flow with
  | dropped at_ | lost at_ =>
      rw [at_] at has
      rwa [After.notifies_pc]
  | goes at_ =>
      rw [at_] at has
      exact has
  | panics at_ | condemned at_ | resumes at_ | timed at_ | registered at_ | unset at_ | passes at_
  | finds at_ | misses at_ | zeroes at_ | late at_ =>
      rw [at_] at has
      cases has

/-- The list of an event is empty when `notify` leaves it. -/
theorem Pending.drained (pending : Pending w s) (layout : Layout w s) (placed : Placed s)
    (at_ : s.pc t = .drain e) (empty : s.watchers e = []) :
    Pending w (s.release t e .idle) := by
  refine ⟨pending.begun, ?_⟩
  intro i fired waits
  obtain ⟨f, u, event, notifies⟩ := pending.pending i fired waits
  refine ⟨f, u, event, ?_⟩
  have other : u ≠ t := by
    rintro rfl
    rw [at_] at notifies
    obtain rfl := Option.some.inj notifies
    obtain adding | queued := waits
    · -- the registration would have the lock
      obtain ⟨v, g, site⟩ := placed.adding i adding
      obtain rfl : e = g :=
        Option.some.inj (event.symm.trans (layout.listed.site v i g site))
      have mine : s.lock e = some u := layout.locked u e (by rw [at_]; rfl)
      have locks : (s.pc v).locks = some e := by
        cases inside : s.pc v with
        | check i f | push i f =>
            rw [inside] at site
            obtain ⟨-, rfl⟩ := Prod.mk.inj (Option.some.inj site)
            rfl
        | _ =>
            rw [inside] at site
            cases site
      obtain rfl : u = v :=
        Option.some.inj (mine.symm.trans (layout.locked v e locks))
      rw [at_] at site
      cases site
    · obtain ⟨g, member⟩ := placed.queued i queued
      obtain rfl : e = g :=
        Option.some.inj (event.symm.trans (layout.listed.queued g i member).2)
      rw [empty] at member
      cases member
  show ((s.release t e .idle).pc u).notifies = some f
  rw [show (s.release t e Pc.idle).pc u = s.pc u from goto_other _ other _, notifies]

theorem Pending.set (pending : Pending w s) (at_ : s.pc t = .idle) :
    Pending w ((s.flip w e).goto t (.notify e)) := by
  have split : ∀ i, (s.flip w e).fired i = true →
      s.fired i = true ∨ w.events[i]? = some e ∧ s.stage i ≠ .fresh := by
    intro i fired
    simpa [State.flip] using fired
  refine ⟨?_, ?_⟩
  · intro i fired
    obtain old | ⟨-, begun⟩ := split i fired
    · exact pending.begun i old
    · exact begun
  · intro i fired waits
    obtain old | ⟨event, -⟩ := split i fired
    · obtain ⟨f, u, event, notifies⟩ := pending.pending i old waits
      have other : u ≠ t := by
        rintro rfl
        rw [at_] at notifies
        cases notifies
      refine ⟨f, u, event, ?_⟩
      rw [goto_other _ other]
      exact notifies
    · refine ⟨e, t, event, ?_⟩
      rw [goto_self]
      rfl

theorem pending_step (layout : Layout w s) (placed : Placed s) (pending : Pending w s)
    (move : Move w s a s') : Pending w s' := by
  cases move with
  | none_ | replaced => exact ⟨pending.begun, pending.pending⟩
  | flow flow =>
      exact pending.goto rfl pending.begun (fun i fired waits => ⟨fired, waits⟩)
        fun e has => flow.notifies has
  | @begins t i e at_ event free =>
      have fresh := layout.registering.fresh t i (by rw [at_]; rfl) i (Nat.le_refl i)
      refine pending.restage rfl (fun _ _ => rfl) rfl (by simp) ?_ ?_
      · intro fired
        exact absurd fresh (pending.begun i fired)
      · intro f has
        rw [at_] at has
        cases has
  | @found t i e at_ isSet =>
      refine pending.restage rfl (fun j other => Function.update_of_ne other ..) rfl (by simp)
        (by simp) ?_
      intro f has
      rw [at_] at has
      cases has
  | @queues t i e at_ =>
      have adding := layout.adding (t := t) (i := i) (by rw [at_]; rfl)
      refine pending.restage rfl (fun _ _ => rfl) rfl (by simp) (fun fired _ => ⟨fired, adding⟩) ?_
      intro f has
      rw [at_] at has
      cases has
  | @pops t e i rest at_ first =>
      refine pending.restage rfl (fun _ _ => rfl) rfl (by simp) (by simp) ?_
      intro f has
      rw [at_] at has
      exact has
  | @counts t i after pc at_ isThread sentinel next =>
      refine pending.restage rfl (fun _ _ => rfl) rfl (by simp) (by simp) ?_
      intro f has
      rw [at_] at has
      obtain rfl | rfl | rfl := next_cases next
      · exact has
      · exact has
      · rwa [After.notifies_pc]
  | drained at_ empty => exact pending.drained layout placed at_ empty
  | set at_ unset => exact pending.set at_
  | wins at_ | notifies at_ =>
      refine pending.goto rfl pending.begun (fun i fired waits => ⟨fired, waits⟩) ?_
      intro f has
      rw [at_] at has
      exact has
  | restores at_ | sends at_ =>
      refine pending.goto rfl pending.begun (fun i fired waits => ⟨fired, waits⟩) ?_
      intro f has
      rw [at_] at has
      rwa [After.notifies_pc]
  | register at_ | publish at_ | unlocks at_ | arms at_ | unnotifies at_ | held at_ | raises at_
  | claims at_ | zero at_ | throws at_ | clear at_ | expires at_ | aborts at_ =>
      refine pending.goto rfl pending.begun (fun i fired waits => ⟨fired, waits⟩) ?_
      intro f has
      rw [at_] at has
      cases has

/-! ## The registration goes through all events -/

/-- The wakers of the events that the registration has begun with are not new. -/
def Progress (w : Waiter E) (s : State T E) : Prop :=
  s.registered ≠ none →
    (∃ t p, (s.pc t).place = some p ∧ ∀ i, i < p → s.stage i ≠ .fresh) ∨
      ∀ i, i < w.events.length → s.stage i ≠ .fresh

omit [DecidableEq E] in
theorem Progress.goto (progress : Progress w s) (pcs : b.pc = s.pc)
    (registered : b.registered = s.registered)
    (begun : ∀ i, s.stage i ≠ .fresh → b.stage i ≠ .fresh)
    (keeps : ∀ p, (s.pc t).place = some p → pc.place = some p) : Progress w (b.goto t pc) := by
  intro isRegistered
  rw [show (b.goto t pc).registered = s.registered from registered] at isRegistered
  obtain ⟨u, p, place, upTo⟩ | all := progress isRegistered
  · refine .inl ⟨u, p, ?_, fun i below => begun i (upTo i below)⟩
    by_cases self : u = t
    · subst self
      rw [goto_self]
      exact keeps p place
    · rwa [goto_other b self, pcs]
  · exact .inr fun i below => begun i (all i below)

omit [DecidableEq T] [DecidableEq E] in
theorem begun_setStage {σ : Stage T} (still : σ ≠ .fresh) (j : Nat)
    (begun : s.stage j ≠ .fresh) : (s.setStage i σ).stage j ≠ .fresh := by
  show Function.update s.stage i σ j ≠ .fresh
  by_cases isI : j = i
  · subst isI
    rwa [Function.update_self]
  · rwa [Function.update_of_ne isI]

omit [DecidableEq E] in
/-- The registration comes to the end of the events. -/
theorem Progress.finish (progress : Progress w s) (registering : Registering s)
    (at_ : s.pc t = .add i) (over_ : w.events[i]? = none) : Progress w (s.goto t pc) := by
  intro isRegistered
  obtain ⟨u, p, place, upTo⟩ | all := progress isRegistered
  · have mine : (s.pc t).place = some i := by rw [at_]; rfl
    obtain rfl := registering.unique mine place
    obtain rfl : i = p := Option.some.inj (mine.symm.trans place)
    have length := List.getElem?_eq_none_iff.mp over_
    exact .inr fun j below => upTo j (Nat.lt_of_lt_of_le below length)
  · exact .inr all

theorem progress_step (layout : Layout w s) (progress : Progress w s) (move : Move w s a s') :
    Progress w s' := by
  have same : ∀ i, s.stage i ≠ .fresh → s.stage i ≠ .fresh := fun _ begun => begun
  cases move with
  | none_ | replaced => exact progress
  | @flow t pc flow =>
      cases flow with
      | timed at_ over_ | registered at_ over_ =>
          exact progress.finish layout.registering at_ over_
      | condemned at_ | resumes at_ => cases layout.plural.not_lone at_
      | dropped at_ | lost at_ =>
          refine progress.goto rfl rfl same ?_
          intro p place
          rw [at_] at place
          rwa [After.place_pc]
      | unset at_ | goes at_ =>
          refine progress.goto rfl rfl same ?_
          intro p place
          rw [at_] at place
          exact place
      | panics at_ | passes at_ | finds at_ | misses at_ | zeroes at_ | late at_ =>
          refine progress.goto rfl rfl same ?_
          intro p place
          rw [at_] at place
          cases place
  | @register t at_ first =>
      intro _
      refine .inl ⟨t, 0, ?_, fun i below => absurd below (Nat.not_lt_zero i)⟩
      rw [goto_self]
      rfl
  | @publish t b pc at_ next =>
      refine progress.goto rfl rfl same ?_
      intro p place
      rw [at_] at place
      obtain ⟨rfl, -⟩ | rfl := next <;> exact place
  | @begins t i e at_ event free =>
      intro isRegistered
      obtain ⟨u, p, place, upTo⟩ | all := progress isRegistered
      · have mine : (s.pc t).place = some i := by rw [at_]; rfl
        obtain rfl := layout.registering.unique mine place
        obtain rfl : i = p := Option.some.inj (mine.symm.trans place)
        refine .inl ⟨u, i + 1, ?_, ?_⟩
        · rw [goto_self]
          rfl
        · intro j below
          show Function.update s.stage i .adding j ≠ .fresh
          by_cases isI : j = i
          · subst isI
            rw [Function.update_self]
            simp
          · rw [Function.update_of_ne isI]
            exact upTo j (by omega)
      · exact .inr fun j below => begun_setStage (by simp) j (all j below)
  | found at_ | queues at_ =>
      refine progress.goto rfl rfl (begun_setStage (by simp)) ?_
      intro p place
      rw [at_] at place
      exact place
  | pops at_ =>
      refine progress.goto rfl rfl (begun_setStage (by simp)) ?_
      intro p place
      rw [at_] at place
      cases place
  | counts at_ isThread sentinel next =>
      refine progress.goto rfl rfl (begun_setStage (by simp)) ?_
      intro p place
      rw [at_] at place
      obtain rfl | rfl | rfl := next_cases next
      · exact place
      · exact place
      · rwa [After.place_pc]
  | unlocks at_ | wins at_ =>
      refine progress.goto rfl rfl same ?_
      intro p place
      rw [at_] at place
      exact place
  | restores at_ | sends at_ =>
      refine progress.goto rfl rfl same ?_
      intro p place
      rw [at_] at place
      rwa [After.place_pc]
  | arms at_ | notifies at_ | drained at_ | unnotifies at_ | held at_ | raises at_ | claims at_
  | zero at_ | throws at_ | set at_ | clear at_ | expires at_ | aborts at_ =>
      refine progress.goto rfl rfl same ?_
      intro p place
      rw [at_] at place
      cases place

/-! ## Runs -/

theorem progress_of_reachable (sentinel : w.sentinel = true)
    (reached : (machine T w).Reachable s) : Progress w s := by
  induction reached with
  | start isStart =>
      obtain rfl := isStart
      exact fun isRegistered => absurd rfl isRegistered
  | step before _ taken progress =>
      exact progress_step (sound_of_reachable sentinel before).layout progress (move_of_step taken)

theorem pending_of_reachable (sentinel : w.sentinel = true)
    (reached : (machine T w).Reachable s) (unaborted : s.aborted = none) :
    Placed s ∧ Pending w s := by
  induction reached with
  | start isStart =>
      obtain rfl := isStart
      refine ⟨⟨?_, ?_, ?_⟩, ⟨?_, ?_⟩⟩
      · intro i adding
        cases adding
      · intro i queued
        cases queued
      · intro i t carried
        cases carried
      · intro i fired
        cases fired
      · intro i fired
        cases fired
  | step before _ taken inductionHypothesis =>
      have move := move_of_step taken
      have unabortedOld := aborted_kept move unaborted
      obtain ⟨placed, pending⟩ := inductionHypothesis unabortedOld
      have layout := (sound_of_reachable sentinel before).layout
      exact ⟨placed_step sentinel placed unabortedOld move, pending_step layout placed pending move⟩

omit [DecidableEq T] [DecidableEq E] in
theorem not_condemned_of_unaborted (aborter : Aborter s) (unaborted : s.aborted = none) :
    s.condemned = false := by
  simp [State.condemned, unaborted, aborter.never unaborted]

/-- Without an abort there is none to overlap with. -/
theorem reach_of_unaborted (sentinel : w.sentinel = true)
    (reached : (machine T w).Reachable s) (unaborted : s.aborted = none) :
    (machine T w).Reach (Apart w) s := by
  induction reached with
  | start isStart => exact .start isStart
  | step before _ taken inductionHypothesis =>
      have unabortedOld := aborted_kept (move_of_step taken) unaborted
      refine .step (inductionHypothesis unabortedOld) ?_ taken
      intro t i after _ _ _ _
      exact not_condemned_of_unaborted (sound_of_reachable sentinel before).aborter unabortedOld

/-- No thread is inside of a call. -/
def Returned (s : State T E) : Prop :=
  ∀ t, s.pc t = .idle ∨ s.pc t = .dead

/-- Every event has been set during the registration on it or later. -/
def AllFired (w : Waiter E) (s : State T E) : Prop :=
  ∀ i, i < w.events.length → s.fired i = true

omit [DecidableEq T] [DecidableEq E] in
theorem Returned.not {P : Pc E → Prop} (returned : Returned s) (idle : ¬P .idle)
    (dead : ¬P .dead) (t : T) : ¬P (s.pc t) := by
  obtain at_ | at_ := returned t <;> rw [at_]
  · exact idle
  · exact dead

/-- Then every waker has counted. -/
theorem all_spent (sentinel : w.sentinel = true) (reached : (machine T w).Reachable s)
    (unaborted : s.aborted = none) (registered : s.registered ≠ none) (returned : Returned s)
    (fired : AllFired w s) (below : i < w.events.length) : s.stage i = .spent := by
  obtain ⟨placed, pending⟩ := pending_of_reachable sentinel reached unaborted
  have noWake : ¬(s.stage i = .adding ∨ s.stage i = .queued) := by
    intro waits
    obtain ⟨e, t, -, notifies⟩ := pending.pending i (fired i below) waits
    exact returned.not (P := fun pc => pc.notifies = some e) (by simp [Pc.notifies])
      (by simp [Pc.notifies]) t notifies
  cases stage : s.stage i with
  | fresh =>
      obtain ⟨t, p, place, -⟩ | all := progress_of_reachable sentinel reached registered
      · exact absurd place (returned.not (P := fun pc => pc.place = some p) (by simp [Pc.place])
          (by simp [Pc.place]) t)
      · exact absurd stage (all i below)
  | adding => exact absurd (.inl stage) noWake
  | queued => exact absurd (.inr stage) noWake
  | carried t =>
      have own := placed.carried i t stage
      exact absurd own (returned.not (P := fun pc => pc.own t = some (i, .carried t))
        (by simp [Pc.own]) (by simp [Pc.own]) t)
  | spent => rfl

/-- The coroutine has been resumed exactly when no waker was held. -/
theorem resumed_iff (several : 2 ≤ w.events.length) (reached : (machine T w).Reachable s)
    (unaborted : s.aborted = none) (registered : s.registered ≠ none) (returned : Returned s)
    (fired : AllFired w s) : 0 < s.sends ↔ s.held = 0 := by
  have sentinel : w.sentinel = true := decide_eq_true several
  have sound := sound_of_reachable sentinel reached
  have spared := not_condemned_of_unaborted sound.aborter unaborted
  have counter : s.counter = s.held := by
    obtain ⟨n, exactly, sum⟩ := (sound.ledger spared).counted
    have none_ : n = 0 := by
      by_contra some_
      obtain ⟨those, members, size⟩ := exactly
      obtain ⟨i, member⟩ := Finset.card_pos.mp (size ▸ Nat.pos_of_ne_zero some_)
      obtain ⟨below, unspent⟩ := (members i).mp member
      exact unspent (all_spent sentinel reached unaborted registered returned fired below)
    omega
  have once := once_of_reach (reach_of_unaborted sentinel reached unaborted)
  have noThrow := sound.aborter.never unaborted
  constructor
  · intro sent
    by_contra held
    have waits : tally w s .waiting ≠ 0 := by
      show (s.waiting w).toNat ≠ 0
      rw [waiting_above sentinel spared (by omega)]
      simp
    have queued : tally w s .queued = 0 := once.apart waits (by simp)
    change s.sends + s.throws = 0 at queued
    omega
  · intro held
    obtain ⟨home, one, -⟩ := once
    cases home with
    | waiting =>
        have none_ : (s.waiting w).toNat = 0 := by
          rw [waiting_zero sentinel (by omega)]
          rfl
        change (s.waiting w).toNat = 1 at one
        omega
    | thread t =>
        have none_ : (s.pc t).winning = false := by
          obtain at_ | at_ := returned t <;> rw [at_] <;> rfl
        change (s.pc t).winning.toNat = 1 at one
        rw [none_] at one
        cases one
    | queued =>
        change s.sends + s.throws = 1 at one
        omega

/-- No `clear` gets to the loop of `unnotify` while a waker is in the list. -/
def Unfound (s : State T E) (a : Act T E) : Prop :=
  ∀ t e, a = .thread t → s.pc t = .unnotify e → s.watchers e = []

structure Unheld (s : State T E) : Prop where
  none_ : s.held = 0
  empty : ∀ t e rest, s.pc t = .hold e rest → rest = []

omit [DecidableEq E] in
theorem Unheld.goto (unheld : Unheld s) (pcs : b.pc = s.pc) (same : b.held = s.held)
    (empty : ∀ e rest, pc = .hold e rest → rest = []) : Unheld (b.goto t pc) := by
  refine ⟨same.trans unheld.none_, ?_⟩
  intro u e rest at_
  by_cases self : u = t
  · subst self
    rw [goto_self] at at_
    exact empty e rest at_
  · rw [goto_other b self, pcs] at at_
    exact unheld.empty u e rest at_

theorem unheld_step (unheld : Unheld s) (unfound : Unfound s a) (move : Move w s a s') :
    Unheld s' := by
  have quiet := fun {b : State T E} {t : T} {pc : Pc E} (pcs : b.pc = s.pc)
      (same : b.held = s.held) (notHold : ∀ e rest, pc ≠ .hold e rest) =>
    unheld.goto (t := t) pcs same fun e rest at_ => absurd at_ (notHold e rest)
  cases move with
  | none_ | replaced => exact ⟨unheld.none_, unheld.empty⟩
  | flow flow =>
      cases flow with
      | passes at_ => cases unheld.empty _ _ _ at_
      | dropped | lost => exact quiet rfl rfl fun _ _ => After.pc_ne_hold
      | _ => exact quiet rfl rfl (by simp)
  | @unnotifies t e at_ free isThread =>
      refine unheld.goto rfl rfl ?_
      intro f rest isHold
      obtain ⟨rfl, rfl⟩ := Pc.hold.inj isHold
      exact unfound t e isThread at_
  | raises at_ => cases unheld.empty _ _ _ at_
  | publish at_ next =>
      refine quiet rfl rfl ?_
      obtain ⟨rfl, -⟩ | rfl := next <;> simp
  | counts at_ isThread sentinel next =>
      refine quiet rfl rfl ?_
      obtain rfl | rfl | rfl := next_cases next
      · simp
      · simp
      · exact fun _ _ => After.pc_ne_hold
  | restores | sends => exact quiet rfl rfl fun _ _ => After.pc_ne_hold
  | _ => exact quiet rfl rfl (by simp)

theorem unheld_of_reach (reached : (machine T w).Reach Unfound s) : Unheld s := by
  refine Machine.Reach.invariant Unheld ?_ ?_ reached
  · rintro s rfl
    refine ⟨rfl, ?_⟩
    intro t e rest at_
    cases at_
  · intro s a s' unheld unfound taken
    exact unheld_step unheld unfound (move_of_step taken)

/-- Once all events have fired and all calls have returned, the coroutine has been
resumed. -/
def Resumes (w : Waiter E) (s : State T E) : Prop :=
  s.aborted = none → s.registered ≠ none → Returned s → AllFired w s → 0 < s.sends

theorem never_stranded (several : 2 ≤ w.events.length)
    (reached : (machine T w).Reach Unfound s) : Resumes w s :=
  fun unaborted registered returned fired =>
    (resumed_iff several reached.reachable unaborted registered returned fired).mpr
      (unheld_of_reach reached).none_

/-! ## A set and a clear -/

/-- A waiter on two events, without a checkpoint. -/
def pair : Waiter Bool :=
  { both with checkpointed := false }

/-- `Unfound`, decided. -/
def unfound (s : State T E) : Act T E → Bool
  | .thread t =>
      match s.pc t with
      | .unnotify e => (s.watchers e).isEmpty
      | _ => true
  | _ => true

omit [DecidableEq T] [DecidableEq E] in
theorem unfound_sound (s : State T E) (a : Act T E) (checked : unfound s a = true) :
    Unfound s a := by
  rintro t e rfl at_
  simpa [unfound, at_] using checked

/-- A coroutine waits for both events. -/
def waitRun : List (Act (Fin 3) Bool) :=
  .register 0 :: List.replicate 10 (.thread 0)

/-- Both events have fired and all calls have returned, decided. -/
def settledPair (s : State (Fin 3) Bool) : Bool :=
  s.aborted = none && s.registered = some 0 && (∀ t, s.pc t = .idle) && s.fired 0 && s.fired 1

theorem settledPair_sound {s : State (Fin 3) Bool} (checked : settledPair s = true) :
    s.aborted = none ∧ s.registered ≠ none ∧ Returned s ∧ AllFired pair s := by
  simp only [settledPair, Bool.and_eq_true, decide_eq_true_eq] at checked
  obtain ⟨⟨⟨⟨unaborted, registered⟩, idle⟩, first⟩, second⟩ := checked
  refine ⟨unaborted, by simp [registered], fun t => .inl (idle t), ?_⟩
  intro i below
  change i < 2 at below
  obtain rfl | rfl : i = 0 ∨ i = 1 := by omega
  · exact first
  · exact second

/-- One event is set and cleared, then the other is set. -/
theorem clearedRun_ends :
    ((machine (Fin 3) pair).execIf unfound (.start (Fin 3) pair)
      (waitRun ++ .set 1 false :: List.replicate 5 (.thread 1) ++
        .clear 2 false :: List.replicate 2 (.thread 2) ++
        .set 1 true :: List.replicate 6 (.thread 1))).any
      (fun s => settledPair s && !s.flag false) = true := by
  decide +kernel

theorem never_stranded_cleared :
    2 ≤ pair.events.length ∧ ∃ s : State (Fin 3) Bool, s.flag false = false ∧ 0 < s.sends := by
  obtain ⟨s, reached, ends⟩ := Machine.Reach.exists_of_execIf unfound_sound rfl clearedRun_ends
  simp only [Bool.and_eq_true, Bool.not_eq_true'] at ends
  obtain ⟨unaborted, registered, returned, fired⟩ := settledPair_sound ends.1
  have several : 2 ≤ pair.events.length := by decide
  exact ⟨several, s, ends.2, never_stranded several reached unaborted registered returned fired⟩

/-- The `clear` of an event gets to its lock before the `set` that it follows. -/
theorem strandedRun_ends :
    ((machine (Fin 3) pair).exec (.start (Fin 3) pair)
      (waitRun ++ [.set 1 false] ++ .clear 2 false :: List.replicate 3 (.thread 2) ++
        List.replicate 5 (.thread 1) ++ .set 1 true :: List.replicate 5 (.thread 1))).any
      (fun s => settledPair s && s.sends = 0) = true := by
  decide +kernel

theorem clear_strands :
    ¬∀ s : State (Fin 3) Bool, (machine (Fin 3) pair).Reachable s → Resumes pair s := by
  intro always
  obtain ⟨s, reached, ends⟩ := Machine.Reachable.exists_of_exec rfl strandedRun_ends
  simp only [Bool.and_eq_true, decide_eq_true_eq] at ends
  obtain ⟨unaborted, registered, returned, fired⟩ := settledPair_sound ends.1
  have resumed := always s reached unaborted registered returned fired
  omega

end MtAsyncio.Countdown
