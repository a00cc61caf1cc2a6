/-
Module: MtAsyncio.Proofs.CountdownMoves
Purpose: What the steps of a suspension do, and where its wakers are: a waker is with
  the registration, in the list of its event, or with the one thread that wakes it.
Trusted boundary: none
Main exports: Move, move_of_step, Layout, layout_step
-/
import MtAsyncio.Model.Countdown

namespace MtAsyncio.Countdown

open Lib (Machine)

variable {T E : Type} [DecidableEq T] [DecidableEq E]
variable {w : Waiter E} {s s' : State T E} {a : Act T E} {t u : T} {e : E} {i : Nat}
variable {pc : Pc E} {after : After E}

/-! ## What a step can do -/

/-- The steps of a thread that change nothing but where it stands. -/
inductive Flow (w : Waiter E) (s : State T E) (t : T) : Pc E → Prop where
  | panics (at_ : s.pc t = .idle) (second : s.registered ≠ none) : Flow w s t .dead
  | condemned (at_ : s.pc t = .bare) : Flow w s t .error
  | resumes (at_ : s.pc t = .bare) : Flow w s t (.resume 0 .idle)
  | timed {i : Nat} (at_ : s.pc t = .add i) (over_ : w.events[i]? = none)
      (timed : w.timed = true) : Flow w s t .timer
  | registered {i : Nat} (at_ : s.pc t = .add i) (over_ : w.events[i]? = none) : Flow w s t .idle
  | unset {i : Nat} {e : E} (at_ : s.pc t = .check i e) : Flow w s t (.push i e)
  | dropped {i : Nat} {after : After E} (at_ : s.pc t = .resume i after)
      (aborted : s.aborted ≠ none) : Flow w s t after.pc
  | goes {i : Nat} {after : After E} (at_ : s.pc t = .resume i after) :
      Flow w s t (.settle i after)
  | lost {i : Nat} {after : After E} (at_ : s.pc t = .settle i after)
      (plain : w.sentinel = false) : Flow w s t after.pc
  | passes {e : E} {i : Nat} {rest : List Nat} (at_ : s.pc t = .hold e (i :: rest))
      (plain : w.sentinel = false) : Flow w s t (.hold e rest)
  | finds (at_ : s.pc t = .abort) : Flow w s t .error
  | misses (at_ : s.pc t = .abort) : Flow w s t .idle
  | zeroes (at_ : s.pc t = .error) (sentinel : w.sentinel = true) (counter : s.counter ≠ 0) :
      Flow w s t .zero
  | late (at_ : s.pc t = .error) : Flow w s t .idle

inductive Move (w : Waiter E) (s : State T E) (a : Act T E) : State T E → Prop where
  | none_ : Move w s a s
  | flow {t : T} {pc : Pc E} (flow : Flow w s t pc) : Move w s a (s.goto t pc)
  | register {t : T} (at_ : s.pc t = .idle) (first : s.registered = none) :
      Move w s a ({ s with registered := some t }.goto t .publish)
  | publish {t : T} {b : Bool} {pc : Pc E} (at_ : s.pc t = .publish)
      (next : pc = .bare ∧ w.events = [] ∨ pc = .add 0) :
      Move w s a ({ s with published := b }.goto t pc)
  | begins {t : T} {i : Nat} {e : E} (at_ : s.pc t = .add i) (event : w.events[i]? = some e)
      (free : s.lock e = none) :
      Move w s a ({ s.setStage i .adding with
        lock := Function.update s.lock e (some t) }.goto t (.check i e))
  | found {t : T} {i : Nat} {e : E} (at_ : s.pc t = .check i e) (isSet : s.flag e = true) :
      Move w s a (({ s with fired := Function.update s.fired i true }.setStage i
        (.carried t)).goto t (.resume i (.unlock i e)))
  | queues {t : T} {i : Nat} {e : E} (at_ : s.pc t = .push i e) :
      Move w s a (({ s with
        watchers := Function.update s.watchers e (s.watchers e ++ [i]) }.setStage i
          .queued).goto t (.unlock i e))
  | unlocks {t : T} {i : Nat} {e : E} (at_ : s.pc t = .unlock i e) :
      Move w s a (s.release t e (.add (i + 1)))
  | arms {t : T} (at_ : s.pc t = .timer) : Move w s a ({ s with due := true }.goto t .idle)
  | counts {t : T} {i : Nat} {after : After E} {pc : Pc E} (at_ : s.pc t = .settle i after)
      (isThread : a = .thread t) (sentinel : w.sentinel = true)
      (next : pc = if s.counter = 0 then .restore after
        else if s.counter = 1 then .send after else after.pc) :
      Move w s a (({ s with counter := s.counter - 1 }.setStage i .spent).goto t pc)
  | wins {t : T} {i : Nat} {after : After E} (at_ : s.pc t = .settle i after)
      (plain : w.sentinel = false) (free : s.consumed = false) :
      Move w s a ({ s with consumed := true }.goto t (.send after))
  | restores {t : T} {after : After E} (at_ : s.pc t = .restore after) :
      Move w s a ({ s with counter := s.counter + 1 }.goto t after.pc)
  | sends {t : T} {after : After E} (at_ : s.pc t = .send after) :
      Move w s a ({ s with sends := s.sends + 1 }.goto t after.pc)
  | notifies {t : T} {e : E} (at_ : s.pc t = .notify e) (free : s.lock e = none) :
      Move w s a ({ s with lock := Function.update s.lock e (some t) }.goto t (.drain e))
  | drained {t : T} {e : E} (at_ : s.pc t = .drain e) (empty : s.watchers e = []) :
      Move w s a (s.release t e .idle)
  | pops {t : T} {e : E} {i : Nat} {rest : List Nat} (at_ : s.pc t = .drain e)
      (first : s.watchers e = i :: rest) :
      Move w s a (({ s with watchers := Function.update s.watchers e rest }.setStage i
        (.carried t)).goto t (.resume i (.drain e)))
  | unnotifies {t : T} {e : E} (at_ : s.pc t = .unnotify e) (free : s.lock e = none)
      (isThread : a = .thread t) :
      Move w s a ({ s with lock := Function.update s.lock e (some t) }.goto t
        (.hold e (s.watchers e)))
  | held {t : T} {e : E} (at_ : s.pc t = .hold e []) : Move w s a (s.release t e .idle)
  | raises {t : T} {e : E} {i : Nat} {rest : List Nat} (at_ : s.pc t = .hold e (i :: rest))
      (sentinel : w.sentinel = true) :
      Move w s a ({ s with counter := s.counter + 1, held := s.held + 1 }.goto t (.hold e rest))
  | claims {t : T} (at_ : s.pc t = .error) (plain : w.sentinel = false)
      (free : s.consumed = false) : Move w s a ({ s with consumed := true }.goto t .throw)
  | zero {t : T} (at_ : s.pc t = .zero) : Move w s a ({ s with counter := 0 }.goto t .throw)
  | throws {t : T} (at_ : s.pc t = .throw) :
      Move w s a ({ s with throws := s.throws + 1 }.goto t .idle)
  | set {t : T} {e : E} (at_ : s.pc t = .idle) (unset : s.flag e = false) :
      Move w s a ((s.flip w e).goto t (.notify e))
  | clear {t : T} {e : E} (at_ : s.pc t = .idle) (isSet : s.flag e = true) :
      Move w s a ({ s with flag := Function.update s.flag e false }.goto t (.unnotify e))
  | expires {t : T} (at_ : s.pc t = .idle) (due : s.due = true) :
      Move w s a ({ s with due := false }.goto t (.resume 0 .idle))
  | aborts {t : T} (at_ : s.pc t = .idle) (first : s.aborted = none) :
      Move w s a ({ s with aborted := some t }.goto t .abort)
  | replaced : Move w s a { s with published := false }

theorem eq_none_of_acquire {s₁ : State T E} (taken : s₁.acquire t e pc = some s') :
    s₁.lock e = none ∧
      s' = { s₁ with lock := Function.update s₁.lock e (some t) }.goto t pc := by
  unfold State.acquire at taken
  split at taken
  · cases taken
  · rename_i free
    exact ⟨Option.not_isSome_iff_eq_none.mp free, (Option.some.inj taken).symm⟩

omit [DecidableEq T] in
theorem move_of_call {next : State T E} (taken : call s t next = some s') :
    s.pc t = .idle ∧ s' = next := by
  unfold call at taken
  split at taken
  · rename_i at_
    exact ⟨at_, (Option.some.inj taken).symm⟩
  · cases taken

theorem move_of_settle (at_ : s.pc t = .settle i after) (isThread : a = .thread t) :
    Move w s a (settle w s t i after) := by
  unfold settle
  split
  · rename_i sentinel
    exact .counts at_ isThread sentinel rfl
  · rename_i sentinel
    have plain : w.sentinel = false := Bool.eq_false_iff.mpr sentinel
    split
    · exact .flow (.lost at_ plain)
    · rename_i free
      exact .wins at_ plain (Bool.eq_false_iff.mpr free)

theorem move_of_error (at_ : s.pc t = .error) : Move w s a (error w s t) := by
  unfold error
  split
  · rename_i sentinel
    split
    · exact .flow (.late at_)
    · rename_i counter
      exact .flow (.zeroes at_ sentinel counter)
  · rename_i sentinel
    split
    · exact .flow (.late at_)
    · rename_i free
      exact .claims at_ (Bool.eq_false_iff.mpr sentinel) (Bool.eq_false_iff.mpr free)

theorem move_of_addNext (at_ : s.pc t = .add i) (taken : addNext w s t i = some s') :
    Move w s a s' := by
  unfold addNext at taken
  split at taken
  · rename_i over_
    obtain rfl := Option.some.inj taken
    split
    · rename_i timed
      exact .flow (.timed at_ over_ timed)
    · exact .flow (.registered at_ over_)
  · rename_i event
    obtain ⟨free, rfl⟩ := eq_none_of_acquire taken
    exact .begins at_ event free

theorem move_of_threadStep (taken : threadStep w s t = some s') : Move w s (.thread t) s' := by
  unfold threadStep at taken
  split at taken
  · cases taken
  · cases taken
  · rename_i at_
    obtain rfl := Option.some.inj taken
    refine .publish at_ ?_
    split
    · rename_i empty
      exact .inl ⟨rfl, List.isEmpty_iff.mp empty⟩
    · exact .inr rfl
  · rename_i at_
    obtain rfl := Option.some.inj taken
    split
    · exact .flow (.condemned at_)
    · exact .flow (.resumes at_)
  · rename_i at_
    exact move_of_addNext at_ taken
  · rename_i at_
    split at taken <;> obtain rfl := Option.some.inj taken
    · rename_i isSet
      exact .found at_ isSet
    · exact .flow (.unset at_)
  · rename_i at_
    obtain rfl := Option.some.inj taken
    exact .queues at_
  · rename_i at_
    obtain rfl := Option.some.inj taken
    exact .unlocks at_
  · rename_i at_
    obtain rfl := Option.some.inj taken
    exact .arms at_
  · rename_i at_
    obtain rfl := Option.some.inj taken
    split
    · rename_i aborted
      exact .flow (.dropped at_ (Option.isSome_iff_ne_none.mp aborted))
    · exact .flow (.goes at_)
  · rename_i at_
    obtain rfl := Option.some.inj taken
    exact move_of_settle at_ rfl
  · rename_i at_
    obtain rfl := Option.some.inj taken
    exact .restores at_
  · rename_i at_
    obtain rfl := Option.some.inj taken
    exact .sends at_
  · rename_i at_
    obtain ⟨free, rfl⟩ := eq_none_of_acquire taken
    exact .notifies at_ free
  · rename_i at_
    split at taken <;> obtain rfl := Option.some.inj taken
    · rename_i empty
      exact .drained at_ empty
    · rename_i first
      exact .pops at_ first
  · rename_i at_
    obtain ⟨free, rfl⟩ := eq_none_of_acquire taken
    exact .unnotifies at_ free rfl
  · rename_i at_
    obtain rfl := Option.some.inj taken
    exact .held at_
  · rename_i at_
    split at taken <;> obtain rfl := Option.some.inj taken
    · rename_i sentinel
      exact .raises at_ sentinel
    · rename_i sentinel
      exact .flow (.passes at_ (Bool.eq_false_iff.mpr sentinel))
  · rename_i at_
    obtain rfl := Option.some.inj taken
    split
    · exact .flow (.finds at_)
    · exact .flow (.misses at_)
  · rename_i at_
    obtain rfl := Option.some.inj taken
    exact move_of_error at_
  · rename_i at_
    obtain rfl := Option.some.inj taken
    exact .zero at_
  · rename_i at_
    obtain rfl := Option.some.inj taken
    exact .throws at_

theorem move_of_step (taken : step w s a = some s') : Move w s a s' := by
  cases a with
  | register t =>
      obtain ⟨at_, rfl⟩ := move_of_call taken
      split
      · rename_i second
        exact .flow (.panics at_ (Option.isSome_iff_ne_none.mp second))
      · rename_i first
        exact .register at_ (Option.not_isSome_iff_eq_none.mp first)
  | set t e =>
      obtain ⟨at_, rfl⟩ := move_of_call taken
      split
      · exact .none_
      · rename_i unset
        exact .set at_ (Bool.eq_false_iff.mpr unset)
  | clear t e =>
      obtain ⟨at_, rfl⟩ := move_of_call taken
      split
      · rename_i isSet
        exact .clear at_ isSet
      · exact .none_
  | expire t =>
      simp only [step] at taken
      split at taken
      · rename_i due
        obtain ⟨at_, rfl⟩ := move_of_call taken
        exact .expires at_ due
      · cases taken
  | abort t =>
      simp only [step] at taken
      split at taken
      · obtain ⟨at_, rfl⟩ := move_of_call taken
        split
        · exact .none_
        · rename_i first
          exact .aborts at_ (Option.not_isSome_iff_eq_none.mp first)
      · cases taken
  | replace =>
      obtain rfl := Option.some.inj taken
      exact .replaced
  | thread t => exact move_of_threadStep taken

omit [DecidableEq T] [DecidableEq E] in
/-- Where a thread can be after its `fetch_sub`. -/
theorem next_cases
    (next : pc = if s.counter = 0 then .restore after
      else if s.counter = 1 then .send after else after.pc) :
    pc = .restore after ∨ pc = .send after ∨ pc = after.pc := by
  subst next
  split
  · exact .inl rfl
  · split
    · exact .inr (.inl rfl)
    · exact .inr (.inr rfl)

/-! ## The locks -/

def After.locks : After E → Option E
  | .idle => none
  | .unlock _ e | .drain e => some e

/-- The event whose lock a thread has. -/
def Pc.locks : Pc E → Option E
  | .check _ e | .push _ e | .unlock _ e | .drain e | .hold e _ => some e
  | .resume _ after | .settle _ after | .restore after | .send after => after.locks
  | _ => none

omit [DecidableEq E] in
@[simp] theorem After.locks_pc : after.pc.locks = after.locks := by
  cases after <;> rfl

omit [DecidableEq T] [DecidableEq E] in
theorem Flow.locks (flow : Flow w s t pc) (has : pc.locks = some e) :
    (s.pc t).locks = some e := by
  cases flow with
  | dropped at_ | lost at_ =>
      rw [at_]
      rwa [After.locks_pc] at has
  | unset at_ | goes at_ | passes at_ =>
      rw [at_]
      exact has
  | _ => cases has

omit [DecidableEq E] in
theorem goto_self (s : State T E) (t : T) (pc : Pc E) : (s.goto t pc).pc t = pc :=
  Function.update_self ..

omit [DecidableEq E] in
theorem goto_other (s : State T E) (other : u ≠ t) (pc : Pc E) :
    (s.goto t pc).pc u = s.pc u :=
  Function.update_of_ne other ..

def Locked (s : State T E) : Prop :=
  ∀ t e, (s.pc t).locks = some e → s.lock e = some t

variable {b : State T E}

omit [DecidableEq E] in
theorem Locked.goto (locked : Locked s) (pcs : b.pc = s.pc) (same : b.lock = s.lock)
    (less : ∀ e, pc.locks = some e → (s.pc t).locks = some e) : Locked (b.goto t pc) := by
  intro u e has
  show b.lock e = some u
  rw [same]
  by_cases self : u = t
  · subst self
    rw [goto_self] at has
    exact locked u e (less e has)
  · rw [goto_other b self, pcs] at has
    exact locked u e has

theorem Locked.take (locked : Locked s) (pcs : b.pc = s.pc) (free : s.lock e = none)
    (takes : b.lock = Function.update s.lock e (some t)) (has : pc.locks = some e) :
    Locked (b.goto t pc) := by
  intro u f hasF
  show b.lock f = some u
  rw [takes]
  by_cases self : u = t
  · subst self
    rw [goto_self, has] at hasF
    obtain rfl := Option.some.inj hasF
    exact Function.update_self ..
  · rw [goto_other b self, pcs] at hasF
    have other : f ≠ e := by
      rintro rfl
      rw [locked u f hasF] at free
      cases free
    rw [Function.update_of_ne other]
    exact locked u f hasF

theorem Locked.give (locked : Locked s) (pcs : b.pc = s.pc) (had : (s.pc t).locks = some e)
    (gives : b.lock = Function.update s.lock e none) (has : pc.locks = none) :
    Locked (b.goto t pc) := by
  intro u f hasF
  show b.lock f = some u
  rw [gives]
  by_cases self : u = t
  · subst self
    rw [goto_self, has] at hasF
    cases hasF
  · rw [goto_other b self, pcs] at hasF
    have other : f ≠ e := by
      rintro rfl
      have same := (locked u f hasF).symm.trans (locked t f had)
      exact self (Option.some.inj same)
    rw [Function.update_of_ne other]
    exact locked u f hasF

theorem locked_step (locked : Locked s) (move : Move w s a s') : Locked s' := by
  cases move with
  | none_ | replaced => exact locked
  | flow flow => exact locked.goto rfl rfl fun e has => flow.locks has
  | begins at_ event free | notifies at_ free | unnotifies at_ free =>
      exact locked.take rfl free rfl rfl
  | unlocks at_ | drained at_ | held at_ => exact locked.give rfl (by rw [at_]; rfl) rfl rfl
  | publish at_ next =>
      refine locked.goto rfl rfl ?_
      intro e has
      obtain ⟨rfl, -⟩ | rfl := next <;> cases has
  | counts at_ isThread sentinel next =>
      refine locked.goto rfl rfl ?_
      intro e has
      rw [at_]
      obtain rfl | rfl | rfl := next_cases next
      · exact has
      · exact has
      · rwa [After.locks_pc] at has
  | wins at_ | pops at_ | found at_ | queues at_ | raises at_ =>
      refine locked.goto rfl rfl ?_
      intro e has
      rw [at_]
      exact has
  | restores at_ | sends at_ =>
      refine locked.goto rfl rfl ?_
      intro e has
      rw [at_]
      rwa [After.locks_pc] at has
  | register | arms | claims | zero | throws | set | clear | expires | aborts =>
      refine locked.goto rfl rfl ?_
      intro e has
      cases has

/-! ## The registration -/

def After.place : After E → Option Nat
  | .unlock i _ => some (i + 1)
  | .idle | .drain _ => none

/-- How many of the events the thread that registers the waiter has begun with. -/
def Pc.place : Pc E → Option Nat
  | .publish | .bare => some 0
  | .add i => some i
  | .check i _ | .push i _ | .unlock i _ => some (i + 1)
  | .resume _ after | .settle _ after | .restore after | .send after => after.place
  | _ => none

omit [DecidableEq E] in
@[simp] theorem After.place_pc : after.pc.place = after.place := by
  cases after <;> rfl

structure Registering (s : State T E) : Prop where
  one : ∀ t p, (s.pc t).place = some p → s.registered = some t
  fresh : ∀ t p, (s.pc t).place = some p → ∀ i, p ≤ i → s.stage i = .fresh
  before : s.registered = none → ∀ i, s.stage i = .fresh

omit [DecidableEq T] [DecidableEq E] in
theorem Flow.place {p : Nat} (flow : Flow w s t pc) (has : pc.place = some p) :
    (s.pc t).place = some p := by
  cases flow with
  | dropped at_ | lost at_ =>
      rw [at_]
      rwa [After.place_pc] at has
  | unset at_ | goes at_ | passes at_ =>
      rw [at_]
      exact has
  | _ => cases has

omit [DecidableEq E] in
theorem Registering.goto (registering : Registering s) (pcs : b.pc = s.pc)
    (same : b.registered = s.registered)
    (fresh : ∀ i, s.stage i = .fresh → b.stage i = .fresh)
    (less : ∀ p, pc.place = some p → (s.pc t).place = some p) : Registering (b.goto t pc) := by
  have had : ∀ u p, ((b.goto t pc).pc u).place = some p → (s.pc u).place = some p := by
    intro u p has
    by_cases self : u = t
    · subst self
      rw [goto_self] at has
      exact less p has
    · rwa [goto_other b self, pcs] at has
  refine ⟨?_, ?_, ?_⟩
  · intro u p has
    exact same.trans (registering.one u p (had u p has))
  · intro u p has i from_
    exact fresh i (registering.fresh u p (had u p has) i from_)
  · intro unregistered i
    exact fresh i (registering.before (same.symm.trans unregistered) i)

omit [DecidableEq T] [DecidableEq E] in
/-- Only one thread registers the waiter. -/
theorem Registering.unique (registering : Registering s) {p q : Nat}
    (has : (s.pc t).place = some p) (hasU : (s.pc u).place = some q) : u = t :=
  Option.some.inj ((registering.one u q hasU).symm.trans (registering.one t p has))

omit [DecidableEq E] in
theorem Registering.register (registering : Registering s) (first : s.registered = none) :
    Registering ({ s with registered := some t }.goto t .publish) := by
  have only : ∀ u p, (({ s with registered := some t }.goto t Pc.publish).pc u).place = some p →
      u = t := by
    intro u p has
    by_contra other
    rw [goto_other _ other] at has
    have registered := registering.one u p has
    rw [first] at registered
    cases registered
  refine ⟨?_, ?_, ?_⟩
  · intro u p has
    rw [only u p has]
    rfl
  · intro u p has i from_
    exact registering.before first i
  · intro unregistered
    cases unregistered

omit [DecidableEq E] in
theorem Registering.begins (registering : Registering s) (at_ : s.pc t = .add i)
    {lock : E → Option T} :
    Registering ({ s.setStage i .adding with lock := lock }.goto t (.check i e)) := by
  have had : (s.pc t).place = some i := by rw [at_]; rfl
  refine ⟨?_, ?_, ?_⟩
  · intro u p has
    by_cases self : u = t
    · subst self
      exact registering.one u i had
    · rw [goto_other _ self] at has
      exact registering.one u p has
  · intro u p has j from_
    by_cases self : u = t
    · subst self
      rw [goto_self] at has
      obtain rfl := Option.some.inj has
      have other : j ≠ i := by omega
      show Function.update s.stage i .adding j = .fresh
      rw [Function.update_of_ne other]
      exact registering.fresh u i had j (by omega)
    · rw [goto_other _ self] at has
      exact absurd (registering.unique had has) self
  · intro unregistered
    have registered := registering.one t i had
    rw [show s.registered = none from unregistered] at registered
    cases registered

omit [DecidableEq T] [DecidableEq E] in
/-- A waker that is not new does not become new. -/
theorem fresh_setStage {stage : Stage T} (old : s.stage i ≠ .fresh) {j : Nat}
    (isFresh : s.stage j = .fresh) : (s.setStage i stage).stage j = .fresh := by
  have other : j ≠ i := by
    rintro rfl
    exact old isFresh
  show Function.update s.stage i stage j = .fresh
  rwa [Function.update_of_ne other]

/-! ## The wakers that a thread has -/

/-- A waker that only this thread deals with, and its stage. -/
def Pc.own (t : T) : Pc E → Option (Nat × Stage T)
  | .check i _ | .push i _ => some (i, .adding)
  | .resume i _ | .settle i _ => some (i, .carried t)
  | _ => none

omit [DecidableEq T] [DecidableEq E] in
theorem After.own_pc : after.pc.own t = none := by
  cases after <;> rfl

omit [DecidableEq T] [DecidableEq E] in
theorem Pc.own_cases {σ : Stage T} (own : pc.own t = some (i, σ)) :
    σ = .adding ∧ pc.place = some (i + 1) ∨ σ = .carried t := by
  cases pc with
  | check | push =>
      obtain ⟨rfl, rfl⟩ := Prod.mk.inj (Option.some.inj own)
      exact .inl ⟨rfl, rfl⟩
  | resume | settle =>
      obtain ⟨rfl, rfl⟩ := Prod.mk.inj (Option.some.inj own)
      exact .inr rfl
  | _ => cases own

def Owned (s : State T E) : Prop :=
  ∀ t i σ, (s.pc t).own t = some (i, σ) → s.stage i = σ

omit [DecidableEq E] in
theorem Owned.goto (owned : Owned s) (pcs : b.pc = s.pc) (same : b.stage = s.stage)
    (less : ∀ x, pc.own t = some x → (s.pc t).own t = some x) : Owned (b.goto t pc) := by
  intro u i σ own
  show b.stage i = σ
  rw [same]
  by_cases self : u = t
  · subst self
    rw [goto_self] at own
    exact owned u i σ (less _ own)
  · rw [goto_other b self, pcs] at own
    exact owned u i σ own

omit [DecidableEq E] in
/-- A thread changes the stage of a waker that no other thread has. -/
theorem Owned.restage (owned : Owned s) {σ : Stage T} (pcs : b.pc = s.pc)
    (stages : b.stage = Function.update s.stage i σ)
    (others : ∀ u σ', u ≠ t → (s.pc u).own u ≠ some (i, σ'))
    (mine : ∀ x, pc.own t = some x → x = (i, σ)) : Owned (b.goto t pc) := by
  intro u j σ' own
  show b.stage j = σ'
  rw [stages]
  by_cases self : u = t
  · subst self
    rw [goto_self] at own
    obtain ⟨rfl, rfl⟩ := Prod.mk.inj (mine _ own)
    exact Function.update_self ..
  · rw [goto_other b self, pcs] at own
    have other : j ≠ i := by
      rintro rfl
      exact others u σ' self own
    rw [Function.update_of_ne other]
    exact owned u j σ' own

omit [DecidableEq T] [DecidableEq E] in
/-- A waker that is new or in a list is with no thread, a waker that a thread has is
with no other. -/
theorem Owned.others (owned : Owned s) (registering : Registering s)
    (stage : s.stage i = .fresh ∨ s.stage i = .queued ∨ s.stage i = .carried t ∨
      s.stage i = .adding ∧ (s.pc t).place ≠ none)
    (u : T) (σ : Stage T) (other : u ≠ t) : (s.pc u).own u ≠ some (i, σ) := by
  intro own
  have is := owned u i σ own
  obtain ⟨rfl, place⟩ | rfl := Pc.own_cases own
  · rw [is] at stage
    obtain fresh | queued | carried | ⟨-, adding⟩ := stage
    · cases fresh
    · cases queued
    · cases carried
    · obtain ⟨p, has⟩ := Option.ne_none_iff_exists'.mp adding
      exact other (registering.unique has place)
  · rw [is] at stage
    obtain fresh | queued | carried | ⟨adding, -⟩ := stage
    · cases fresh
    · cases queued
    · exact other (Stage.carried.inj carried)
    · cases adding

omit [DecidableEq T] [DecidableEq E] in
theorem Flow.own {x : Nat × Stage T} (flow : Flow w s t pc) (lone : s.pc t ≠ .bare)
    (has : pc.own t = some x) : (s.pc t).own t = some x := by
  cases flow with
  | dropped at_ | lost at_ =>
      rw [After.own_pc] at has
      cases has
  | unset at_ | goes at_ =>
      rw [at_]
      exact has
  | resumes at_ => exact absurd at_ lone
  | _ => cases has

/-! ## A waiter on several events -/

/-- Where only a suspension without a sentinel gets a thread. -/
def Pc.lone : Pc E → Bool
  | .bare | .timer | .resume _ .idle | .settle _ .idle => true
  | _ => false

omit [DecidableEq E] in
theorem After.lone_pc : after.pc.lone = false := by
  cases after <;> rfl

structure Plural (s : State T E) : Prop where
  untimed : s.due = false
  none_ : ∀ t, (s.pc t).lone = false

omit [DecidableEq T] [DecidableEq E] in
theorem Plural.not_lone (plural : Plural s) (at_ : s.pc t = pc) : pc.lone = false :=
  at_ ▸ plural.none_ t

omit [DecidableEq E] in
theorem Plural.goto (plural : Plural s) (pcs : b.pc = s.pc) (same : b.due = s.due)
    (less : pc.lone = false) : Plural (b.goto t pc) := by
  refine ⟨same.trans plural.untimed, ?_⟩
  intro u
  by_cases self : u = t
  · subst self
    rwa [goto_self]
  · rw [goto_other b self, pcs]
    exact plural.none_ u

omit [DecidableEq E] in
theorem length_of_sentinel (sentinel : w.sentinel = true) : 2 ≤ w.events.length :=
  of_decide_eq_true sentinel

theorem plural_step (sentinel : w.sentinel = true) (plural : Plural s)
    (move : Move w s a s') : Plural s' := by
  have several := length_of_sentinel sentinel
  cases move with
  | none_ | replaced => exact ⟨plural.untimed, plural.none_⟩
  | flow flow =>
      refine plural.goto rfl rfl ?_
      cases flow with
      | condemned at_ | resumes at_ =>
          cases plural.not_lone at_
      | timed at_ over_ timed =>
          have single := w.single timed
          omega
      | dropped | lost => exact After.lone_pc
      | @goes i after at_ =>
          have lone := plural.not_lone at_
          cases after with
          | idle => cases lone
          | unlock | drain => rfl
      | _ => rfl
  | publish at_ next =>
      refine plural.goto rfl rfl ?_
      obtain ⟨rfl, empty⟩ | rfl := next
      · rw [empty] at several
        cases several
      · rfl
  | arms at_ =>
      cases plural.not_lone at_
  | expires at_ due =>
      rw [plural.untimed] at due
      cases due
  | counts at_ isThread sentinel next =>
      refine plural.goto rfl rfl ?_
      obtain rfl | rfl | rfl := next_cases next
      · rfl
      · rfl
      · exact After.lone_pc
  | restores | sends => exact plural.goto rfl rfl After.lone_pc
  | _ => exact plural.goto rfl rfl rfl

/-! ## The lists -/

/-- The event that the registration is inside of `add_waker` of. -/
def Pc.site : Pc E → Option (Nat × E)
  | .check i e | .push i e => some (i, e)
  | _ => none

structure Listed (w : Waiter E) (s : State T E) : Prop where
  site : ∀ t i e, (s.pc t).site = some (i, e) → w.events[i]? = some e
  known : ∀ i, s.stage i ≠ .fresh → ∃ e, w.events[i]? = some e
  queued : ∀ e i, i ∈ s.watchers e → s.stage i = .queued ∧ w.events[i]? = some e
  nodup : ∀ e, (s.watchers e).Nodup
  left : ∀ t e rest, s.pc t = .hold e rest → ∀ i ∈ rest, i ∈ s.watchers e

omit [DecidableEq T] [DecidableEq E] in
/-- A waker is in one list. -/
theorem Listed.unique {e f : E} (listed : Listed w s) (inE : i ∈ s.watchers e)
    (inF : i ∈ s.watchers f) : f = e :=
  Option.some.inj ((listed.queued f i inF).2.symm.trans (listed.queued e i inE).2)

omit [DecidableEq E] in
/-- A step that leaves the lists alone. -/
theorem Listed.goto (listed : Listed w s) (pcs : b.pc = s.pc) (same : b.watchers = s.watchers)
    (site : ∀ i e, pc.site = some (i, e) → w.events[i]? = some e)
    (known : ∀ i, b.stage i ≠ .fresh → s.stage i = .fresh → ∃ e, w.events[i]? = some e)
    (queued : ∀ i, s.stage i = .queued → b.stage i = .queued)
    (left : ∀ e rest, pc = .hold e rest → ∀ i ∈ rest, i ∈ s.watchers e) :
    Listed w (b.goto t pc) := by
  refine ⟨?_, ?_, ?_, ?_, ?_⟩
  · intro u i e isSite
    by_cases self : u = t
    · subst self
      rw [goto_self] at isSite
      exact site i e isSite
    · rw [goto_other b self, pcs] at isSite
      exact listed.site u i e isSite
  · intro i old
    by_cases new : s.stage i = .fresh
    · exact known i old new
    · exact listed.known i new
  · intro e i member
    rw [show (b.goto t pc).watchers = s.watchers from same] at member
    exact ⟨queued i (listed.queued e i member).1, (listed.queued e i member).2⟩
  · intro e
    rw [show (b.goto t pc).watchers = s.watchers from same]
    exact listed.nodup e
  · intro u e rest at_ i member
    rw [show (b.goto t pc).watchers = s.watchers from same]
    by_cases self : u = t
    · subst self
      rw [goto_self] at at_
      exact left e rest at_ i member
    · rw [goto_other b self, pcs] at at_
      exact listed.left u e rest at_ i member

omit [DecidableEq E] in
theorem Listed.quiet (listed : Listed w s) (pcs : b.pc = s.pc) (same : b.watchers = s.watchers)
    (stages : b.stage = s.stage) (site : pc.site = none) (left : ∀ e rest, pc ≠ .hold e rest) :
    Listed w (b.goto t pc) := by
  refine listed.goto pcs same ?_ ?_ ?_ ?_
  · intro i e isSite
    rw [site] at isSite
    cases isSite
  · intro i old new
    rw [stages] at old
    exact absurd new old
  · intro i queued
    rwa [stages]
  · intro e rest at_
    exact absurd at_ (left e rest)

omit [DecidableEq E] in
/-- A waker that is in no list gets to another stage. -/
theorem Listed.restage {σ : Stage T} (listed : Listed w s) (pcs : b.pc = s.pc)
    (same : b.watchers = s.watchers) (stages : b.stage = Function.update s.stage i σ)
    (unlisted : s.stage i ≠ .queued) (site : ∀ j e, pc.site = some (j, e) → w.events[j]? = some e)
    (known : s.stage i = .fresh → ∃ e, w.events[i]? = some e) (left : ∀ e rest, pc ≠ .hold e rest) :
    Listed w (b.goto t pc) := by
  refine listed.goto pcs same site ?_ ?_ ?_
  · intro j old new
    by_cases isI : j = i
    · subst isI
      exact known new
    · rw [stages, Function.update_of_ne isI] at old
      exact absurd new old
  · intro j queued
    have isI : j ≠ i := by
      rintro rfl
      exact unlisted queued
    rwa [stages, Function.update_of_ne isI]
  · intro e rest at_
    exact absurd at_ (left e rest)

omit [DecidableEq E] in
/-- The loop of `unnotify` goes on. -/
theorem Listed.holds {rest : List Nat} (listed : Listed w s) (pcs : b.pc = s.pc)
    (same : b.watchers = s.watchers) (stages : b.stage = s.stage)
    (at_ : s.pc t = .hold e (i :: rest)) : Listed w (b.goto t (.hold e rest)) := by
  refine listed.goto pcs same ?_ ?_ ?_ ?_
  · intro j f isSite
    cases isSite
  · intro j old new
    rw [stages] at old
    exact absurd new old
  · intro j queued
    rwa [stages]
  · intro f left isHold j member
    obtain ⟨rfl, rfl⟩ := Pc.hold.inj isHold
    exact listed.left t e (i :: rest) at_ j (List.mem_cons_of_mem i member)

/-- `push_back` -/
theorem Listed.queues (listed : Listed w s) (at_ : s.pc t = .push i e)
    (adding : s.stage i = .adding) :
    Listed w (({ s with
      watchers := Function.update s.watchers e (s.watchers e ++ [i]) }.setStage i .queued).goto t
        (.unlock i e)) := by
  have event : w.events[i]? = some e := listed.site t i e (by rw [at_]; rfl)
  have other : ∀ f j, j ∈ s.watchers f → j ≠ i := by
    rintro f j member rfl
    rw [(listed.queued f j member).1] at adding
    cases adding
  have members : ∀ f j, j ∈ Function.update s.watchers e (s.watchers e ++ [i]) f ↔
      j ∈ s.watchers f ∨ j = i ∧ f = e := by
    intro f j
    by_cases isE : f = e
    · subst isE
      simp
    · simp [isE]
  refine ⟨?_, ?_, ?_, ?_, ?_⟩
  · intro u j f isSite
    by_cases self : u = t
    · subst self
      rw [goto_self] at isSite
      cases isSite
    · rw [goto_other _ self] at isSite
      exact listed.site u j f isSite
  · intro j old
    by_cases isI : j = i
    · exact ⟨e, isI ▸ event⟩
    · refine listed.known j ?_
      intro fresh
      exact old ((Function.update_of_ne isI ..).trans fresh)
  · intro f j member
    obtain there | ⟨rfl, rfl⟩ := (members f j).mp member
    · refine ⟨?_, (listed.queued f j there).2⟩
      exact (Function.update_of_ne (other f j there) ..).trans (listed.queued f j there).1
    · exact ⟨Function.update_self .., event⟩
  · intro f
    show (Function.update s.watchers e (s.watchers e ++ [i]) f).Nodup
    by_cases isE : f = e
    · subst isE
      rw [Function.update_self]
      refine List.nodup_append.mpr ⟨listed.nodup f, by simp, ?_⟩
      intro j member k last
      exact List.mem_singleton.mp last ▸ other f j member
    · rw [Function.update_of_ne isE]
      exact listed.nodup f
  · intro u f rest atU j member
    refine (members f j).mpr (.inl ?_)
    by_cases self : u = t
    · subst self
      rw [goto_self] at atU
      cases atU
    · rw [goto_other _ self] at atU
      exact listed.left u f rest atU j member

/-- `pop_front` -/
theorem Listed.pops {rest : List Nat} (listed : Listed w s) (locked : Locked s)
    (at_ : s.pc t = .drain e) (first : s.watchers e = i :: rest) :
    Listed w (({ s with watchers := Function.update s.watchers e rest }.setStage i
      (.carried t)).goto t (.resume i (.drain e))) := by
  have nodup := listed.nodup e
  rw [first] at nodup
  have here : i ∈ s.watchers e := by rw [first]; exact List.mem_cons_self
  have members : ∀ f j, j ∈ Function.update s.watchers e rest f →
      j ∈ s.watchers f ∧ j ≠ i := by
    intro f j member
    by_cases isE : f = e
    · subst isE
      rw [Function.update_self] at member
      refine ⟨first ▸ List.mem_cons_of_mem i member, ?_⟩
      rintro rfl
      exact (List.nodup_cons.mp nodup).1 member
    · rw [Function.update_of_ne isE] at member
      refine ⟨member, ?_⟩
      rintro rfl
      exact isE (listed.unique here member)
  refine ⟨?_, ?_, ?_, ?_, ?_⟩
  · intro u j f isSite
    by_cases self : u = t
    · subst self
      rw [goto_self] at isSite
      cases isSite
    · rw [goto_other _ self] at isSite
      exact listed.site u j f isSite
  · intro j old
    by_cases isI : j = i
    · exact ⟨e, isI ▸ (listed.queued e i here).2⟩
    · refine listed.known j ?_
      intro fresh
      exact old ((Function.update_of_ne isI ..).trans fresh)
  · intro f j member
    obtain ⟨there, other⟩ := members f j member
    exact ⟨(Function.update_of_ne other ..).trans (listed.queued f j there).1,
      (listed.queued f j there).2⟩
  · intro f
    show (Function.update s.watchers e rest f).Nodup
    by_cases isE : f = e
    · subst isE
      rw [Function.update_self]
      exact (List.nodup_cons.mp nodup).2
    · rw [Function.update_of_ne isE]
      exact listed.nodup f
  · intro u f left atU j member
    by_cases self : u = t
    · subst self
      rw [goto_self] at atU
      cases atU
    · replace atU : s.pc u = .hold f left := (goto_other _ self _).symm.trans atU
      -- the thread that holds the wakers of a list has its lock
      have isLocked : s.lock f = some u := locked u f (by rw [atU]; rfl)
      have mine : s.lock e = some t := locked t e (by rw [at_]; rfl)
      have isE : f ≠ e := by
        rintro rfl
        exact self (Option.some.inj (isLocked.symm.trans mine))
      show j ∈ Function.update s.watchers e rest f
      rw [Function.update_of_ne isE]
      exact listed.left u f left atU j member

/-! ## All of it -/

structure Layout (w : Waiter E) (s : State T E) : Prop where
  locked : Locked s
  registering : Registering s
  owned : Owned s
  plural : Plural s
  listed : Listed w s

omit [DecidableEq T] [DecidableEq E] in
theorem layout_start : Layout w (.start T w) where
  locked := by
    intro t e has
    cases has
  registering := by
    refine ⟨?_, ?_, fun _ _ => rfl⟩ <;> intro t p has <;> cases has
  owned := by
    intro t i σ own
    cases own
  plural := ⟨rfl, fun _ => rfl⟩
  listed := by
    refine ⟨?_, fun i old => absurd rfl old, ?_, fun e => List.nodup_nil, ?_⟩
    · intro t i e site
      cases site
    · intro e i member
      cases member
    · intro t e rest at_
      cases at_

omit [DecidableEq T] [DecidableEq E] in
theorem Layout.adding (layout : Layout w s) (own : (s.pc t).own t = some (i, .adding)) :
    s.stage i = .adding :=
  layout.owned t i .adding own

theorem registering_step (layout : Layout w s) (move : Move w s a s') : Registering s' := by
  have registering := layout.registering
  cases move with
  | none_ | replaced => exact ⟨registering.one, registering.fresh, registering.before⟩
  | flow flow => exact registering.goto rfl rfl (fun _ is => is) fun p has => flow.place has
  | register at_ first => exact registering.register first
  | begins at_ event free => exact registering.begins at_
  | publish at_ next =>
      refine registering.goto rfl rfl (fun _ is => is) ?_
      intro p has
      rw [at_]
      obtain ⟨rfl, -⟩ | rfl := next <;> exact has
  | @found t i e at_ isSet =>
      have adding := layout.adding (t := t) (i := i) (by rw [at_]; rfl)
      refine registering.goto rfl rfl (fun j => fresh_setStage (by rw [adding]; simp)) ?_
      intro p has
      rw [at_]
      exact has
  | @queues t i e at_ =>
      have adding := layout.adding (t := t) (i := i) (by rw [at_]; rfl)
      refine registering.goto rfl rfl (fun j => fresh_setStage (by rw [adding]; simp)) ?_
      intro p has
      rw [at_]
      exact has
  | @pops t e i rest at_ first =>
      have queued := (layout.listed.queued e i (by rw [first]; exact List.mem_cons_self)).1
      refine registering.goto rfl rfl (fun j => fresh_setStage (by rw [queued]; simp)) ?_
      intro p has
      cases has
  | @counts t i after pc at_ isThread sentinel next =>
      have carried := layout.owned t i (.carried t) (by rw [at_]; rfl)
      refine registering.goto rfl rfl (fun j => fresh_setStage (by rw [carried]; simp)) ?_
      intro p has
      rw [at_]
      obtain rfl | rfl | rfl := next_cases next
      · exact has
      · exact has
      · rwa [After.place_pc] at has
  | unlocks at_ | wins at_ =>
      refine registering.goto rfl rfl (fun _ is => is) ?_
      intro p has
      rw [at_]
      exact has
  | restores at_ | sends at_ =>
      refine registering.goto rfl rfl (fun _ is => is) ?_
      intro p has
      rw [at_]
      rwa [After.place_pc] at has
  | _ =>
      refine registering.goto rfl rfl (fun _ is => is) ?_
      intro p has
      cases has

theorem owned_step (layout : Layout w s) (move : Move w s a s') : Owned s' := by
  have owned := layout.owned
  have registering := layout.registering
  cases move with
  | none_ | replaced => exact owned
  | @flow t pc flow =>
      refine owned.goto rfl rfl fun x has => flow.own ?_ has
      intro at_
      cases layout.plural.not_lone at_
  | @begins t i e at_ event free =>
      have fresh := registering.fresh t i (by rw [at_]; rfl) i (Nat.le_refl i)
      exact owned.restage rfl rfl (owned.others registering (.inl fresh))
        fun x own => (Option.some.inj own).symm
  | @found t i e at_ isSet | @queues t i e at_ =>
      have adding := layout.adding (t := t) (i := i) (by rw [at_]; rfl)
      refine owned.restage rfl rfl
        (owned.others (t := t) registering (.inr (.inr (.inr ⟨adding, ?_⟩)))) ?_
      · rw [at_]
        simp [Pc.place]
      · intro x own
        cases own <;> rfl
  | @pops t e i rest at_ first =>
      have queued := (layout.listed.queued e i (by rw [first]; exact List.mem_cons_self)).1
      exact owned.restage rfl rfl (owned.others registering (.inr (.inl queued)))
        fun x own => (Option.some.inj own).symm
  | @counts t i after pc at_ isThread sentinel next =>
      have carried := layout.owned t i (.carried t) (by rw [at_]; rfl)
      refine owned.restage rfl rfl (owned.others registering (.inr (.inr (.inl carried)))) ?_
      intro x own
      obtain rfl | rfl | rfl := next_cases next
      · cases own
      · cases own
      · rw [After.own_pc] at own
        cases own
  | publish at_ next =>
      refine owned.goto rfl rfl ?_
      intro x own
      obtain ⟨rfl, -⟩ | rfl := next <;> cases own
  | restores | sends =>
      refine owned.goto rfl rfl ?_
      intro x own
      rw [After.own_pc] at own
      cases own
  | expires at_ due =>
      rw [layout.plural.untimed] at due
      cases due
  | _ =>
      refine owned.goto rfl rfl ?_
      intro x own
      cases own

omit [DecidableEq E] in
theorem After.site_pc : after.pc.site = none := by
  cases after <;> rfl

omit [DecidableEq E] in
theorem After.pc_ne_hold {rest : List Nat} : after.pc ≠ .hold e rest := by
  cases after <;> simp [After.pc]

theorem listed_step (layout : Layout w s) (move : Move w s a s') : Listed w s' := by
  have listed := layout.listed
  cases move with
  | none_ | replaced =>
      exact ⟨listed.site, listed.known, listed.queued, listed.nodup, listed.left⟩
  | @flow t pc flow =>
      cases flow with
      | passes at_ plain => exact listed.holds rfl rfl rfl at_
      | @unset i e at_ =>
          refine listed.goto rfl rfl ?_ (fun j old new => absurd new old) (fun j is => is) ?_
          · intro j f site
            exact listed.site t j f (by rw [at_]; exact site)
          · intro f rest isHold
            cases isHold
      | dropped | lost =>
          exact listed.quiet rfl rfl rfl After.site_pc fun _ _ => After.pc_ne_hold
      | _ => exact listed.quiet rfl rfl rfl rfl (by simp)
  | @begins t i e at_ event free =>
      have fresh := layout.registering.fresh t i (by rw [at_]; rfl) i (Nat.le_refl i)
      refine listed.restage (i := i) rfl rfl rfl (by rw [fresh]; simp) ?_ (fun _ => ⟨e, event⟩)
        (by simp)
      intro j f site
      obtain ⟨rfl, rfl⟩ := Prod.mk.inj (Option.some.inj site)
      exact event
  | @found t i e at_ isSet =>
      have adding := layout.adding (t := t) (i := i) (by rw [at_]; rfl)
      refine listed.restage (i := i) rfl rfl rfl (by rw [adding]; simp) ?_ ?_ (by simp)
      · intro j f site
        cases site
      · intro new
        rw [adding] at new
        cases new
  | @queues t i e at_ => exact listed.queues at_ (layout.adding (by rw [at_]; rfl))
  | @counts t i after pc at_ isThread sentinel next =>
      have carried := layout.owned t i (.carried t) (by rw [at_]; rfl)
      have site : pc.site = none := by
        obtain rfl | rfl | rfl := next_cases next
        · rfl
        · rfl
        · exact After.site_pc
      refine listed.restage (i := i) rfl rfl rfl (by rw [carried]; simp) ?_ ?_ ?_
      · intro j f isSite
        rw [site] at isSite
        cases isSite
      · intro new
        rw [carried] at new
        cases new
      · intro f rest
        obtain rfl | rfl | rfl := next_cases next
        · simp
        · simp
        · exact After.pc_ne_hold
  | pops at_ first => exact listed.pops layout.locked at_ first
  | raises at_ sentinel => exact listed.holds rfl rfl rfl at_
  | @unnotifies t e at_ free =>
      refine listed.goto rfl rfl ?_ (fun i old new => absurd new old) (fun i is => is) ?_
      · intro i f site
        cases site
      · intro f rest isHold
        obtain ⟨rfl, rfl⟩ := Pc.hold.inj isHold
        exact fun i member => member
  | publish at_ next =>
      refine listed.quiet rfl rfl rfl ?_ ?_
      · obtain ⟨rfl, -⟩ | rfl := next <;> rfl
      · obtain ⟨rfl, -⟩ | rfl := next <;> simp
  | restores | sends =>
      exact listed.quiet rfl rfl rfl After.site_pc fun _ _ => After.pc_ne_hold
  | _ => exact listed.quiet rfl rfl rfl rfl (by simp)

theorem layout_step (sentinel : w.sentinel = true) (layout : Layout w s)
    (taken : step w s a = some s') : Layout w s' := by
  have move := move_of_step taken
  exact ⟨locked_step layout.locked move, registering_step layout move, owned_step layout move,
    plural_step sentinel layout.plural move, listed_step layout move⟩

end MtAsyncio.Countdown
