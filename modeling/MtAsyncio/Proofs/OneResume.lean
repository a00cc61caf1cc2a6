/-
Module: MtAsyncio.Proofs.OneResume
Purpose: How many handles a suspension queues: at most one, as long as the countdown
  does not get from one to zero by a wake after an abort has found it above zero.
Trusted boundary: none
Main exports: Aborter, Ledger, Place, tally, Apart, one_resume, resumes_twice
-/
import MtAsyncio.Lib.Counting
import MtAsyncio.Lib.Places
import MtAsyncio.Proofs.CountdownMoves

namespace MtAsyncio.Countdown

open Lib (Machine Exactly Once)

variable {T E : Type}
variable {w : Waiter E} {s s' b : State T E} {a : Act T E} {t u : T} {e : E} {i : Nat}
variable {pc : Pc E} {after : After E}

/-! ## The one thread that aborts -/

def Pc.aborting : Pc E → Bool
  | .abort | .error | .zero | .throw => true
  | _ => false

theorem After.aborting_pc : after.pc.aborting = false := by
  cases after <;> rfl

structure Aborter (s : State T E) : Prop where
  one : ∀ t, (s.pc t).aborting = true → s.aborted = some t
  first : ∀ t, (s.pc t).aborting = true → s.throws = 0
  never : s.aborted = none → s.throws = 0

theorem Aborter.goto [DecidableEq T] (aborter : Aborter s) (pcs : b.pc = s.pc)
    (same : b.aborted = s.aborted)
    (throws : b.throws = s.throws) (less : pc.aborting = true → (s.pc t).aborting = true) :
    Aborter (b.goto t pc) := by
  have was : ∀ u, ((b.goto t pc).pc u).aborting = true → (s.pc u).aborting = true := by
    intro u aborting
    by_cases self : u = t
    · subst self
      rw [goto_self] at aborting
      exact less aborting
    · rwa [goto_other b self, pcs] at aborting
  refine ⟨?_, ?_, ?_⟩
  · intro u aborting
    exact same.trans (aborter.one u (was u aborting))
  · intro u aborting
    exact throws.trans (aborter.first u (was u aborting))
  · intro unaborted
    exact throws.trans (aborter.never (same.symm.trans unaborted))

theorem Flow.aborting (flow : Flow w s t pc) (plural : Plural s) (has : pc.aborting = true) :
    (s.pc t).aborting = true := by
  cases flow with
  | finds at_ | zeroes at_ =>
      rw [at_]
      rfl
  | condemned at_ => cases plural.not_lone at_
  | dropped | lost =>
      rw [After.aborting_pc] at has
      cases has
  | _ => cases has

theorem aborter_step [DecidableEq T] [DecidableEq E] (plural : Plural s) (aborter : Aborter s)
    (move : Move w s a s') (sentinel : w.sentinel = true) : Aborter s' := by
  cases move with
  | none_ | replaced => exact ⟨aborter.one, aborter.first, aborter.never⟩
  | flow flow => exact aborter.goto rfl rfl rfl (flow.aborting plural)
  | @aborts t at_ first =>
      have only : ∀ u, (({ s with aborted := some t }.goto t Pc.abort).pc u).aborting = true →
          u = t := by
        intro u aborting
        by_contra other
        rw [goto_other _ other] at aborting
        rw [aborter.one u aborting] at first
        cases first
      refine ⟨?_, fun _ _ => aborter.never first, ?_⟩
      · intro u aborting
        rw [only u aborting]
        rfl
      · intro unaborted
        cases unaborted
  | @throws t at_ =>
      have mine : s.aborted = some t := aborter.one t (by rw [at_]; rfl)
      have none_ : ∀ u, (({ s with throws := s.throws + 1 }.goto t Pc.idle).pc u).aborting ≠
          true := by
        intro u aborting
        by_cases self : u = t
        · subst self
          rw [goto_self] at aborting
          cases aborting
        · rw [goto_other _ self] at aborting
          exact self (Option.some.inj ((aborter.one u aborting).symm.trans mine))
      refine ⟨fun u aborting => absurd aborting (none_ u),
        fun u aborting => absurd aborting (none_ u), ?_⟩
      intro unaborted
      rw [show s.aborted = none from unaborted] at mine
      cases mine
  | zero at_ =>
      refine aborter.goto rfl rfl rfl fun _ => ?_
      rw [at_]
      rfl
  | publish at_ next =>
      refine aborter.goto rfl rfl rfl ?_
      obtain ⟨rfl, -⟩ | rfl := next <;> intro has <;> cases has
  | counts at_ isThread sentinel next =>
      refine aborter.goto rfl rfl rfl ?_
      intro has
      obtain rfl | rfl | rfl := next_cases next
      · cases has
      · cases has
      · rw [After.aborting_pc] at has
        cases has
  | restores | sends =>
      refine aborter.goto rfl rfl rfl ?_
      intro has
      rw [After.aborting_pc] at has
      cases has
  | claims at_ plain free =>
      rw [sentinel] at plain
      cases plain
  | _ =>
      refine aborter.goto rfl rfl rfl ?_
      intro has
      cases has

/-! ## The abort that has found the countdown above zero -/

def Pc.condemning : Pc E → Bool
  | .zero | .throw => true
  | _ => false

/-- An abort has found the countdown above zero. -/
def State.condemned (s : State T E) : Bool :=
  0 < s.throws || s.aborted.any fun t => (s.pc t).condemning

theorem Pc.aborting_of_condemning (condemning : pc.condemning = true) : pc.aborting = true := by
  cases pc with
  | zero | throw => rfl
  | _ => cases condemning

theorem condemned_of_thread (aborter : Aborter s) (condemning : (s.pc t).condemning = true) :
    s.condemned = true := by
  have mine := aborter.one t (Pc.aborting_of_condemning condemning)
  simp [State.condemned, mine, condemning]

theorem condemned_goto [DecidableEq T] {p : Pc E} (pcs : b.pc = s.pc) (same : b.aborted = s.aborted)
    (throws : b.throws = s.throws) (as_ : p.condemning = (s.pc t).condemning) :
    (b.goto t p).condemned = s.condemned := by
  have each : (fun u => ((b.goto t p).pc u).condemning) = fun u => (s.pc u).condemning := by
    funext u
    by_cases self : u = t
    · subst self
      rw [goto_self, as_]
    · rw [goto_other b self, pcs]
  show (decide (0 < b.throws) || b.aborted.any fun u => ((b.goto t p).pc u).condemning) =
    s.condemned
  rw [each, same, throws]
  rfl

/-! ## The one handle -/

/-- A thread that is about to queue a handle. -/
def Pc.winning : Pc E → Bool
  | .send _ | .zero | .throw => true
  | _ => false

theorem After.winning_pc : after.pc.winning = false := by
  cases after <;> rfl

theorem After.condemning_pc : after.pc.condemning = false := by
  cases after <;> rfl

/-- Nobody has won the suspension. -/
def State.waiting (w : Waiter E) (s : State T E) : Bool :=
  if w.sentinel then s.counter ≠ 0 && !s.condemned else !s.consumed

inductive Place (T : Type) where
  | waiting
  | thread (t : T)
  | queued

/-- Where the handle of the suspension is: it is not made, a thread has made it, or it
is queued. -/
def tally (w : Waiter E) (s : State T E) : Place T → Nat
  | .waiting => (s.waiting w).toNat
  | .thread t => (s.pc t).winning.toNat
  | .queued => s.sends + s.throws

/-- A step that has nothing to do with it. -/
theorem once_goto [DecidableEq T] (once : Once (tally w s)) (pcs : b.pc = s.pc)
    (waits : (b.goto t pc).waiting w = s.waiting w) (wins : pc.winning = (s.pc t).winning)
    (counts : b.sends + b.throws = s.sends + s.throws) : Once (tally w (b.goto t pc)) := by
  refine once.same ?_
  intro p
  cases p with
  | waiting => exact congrArg Bool.toNat waits
  | thread u =>
      by_cases self : u = t
      · subst self
        show ((b.goto u pc).pc u).winning.toNat = (s.pc u).winning.toNat
        rw [goto_self, wins]
      · show ((b.goto t pc).pc u).winning.toNat = (s.pc u).winning.toNat
        rw [goto_other b self, pcs]
  | queued => exact counts

theorem tally_other [DecidableEq T] (pcs : b.pc = s.pc) (other : u ≠ t) :
    tally w (b.goto t pc) (.thread u) = tally w s (.thread u) := by
  show ((b.goto t pc).pc u).winning.toNat = (s.pc u).winning.toNat
  rw [goto_other b other, pcs]

/-- A thread makes the handle. -/
theorem once_win [DecidableEq T] (once : Once (tally w s)) (pcs : b.pc = s.pc)
    (waits : s.waiting w = true)
    (taken : (b.goto t pc).waiting w = false) (before : (s.pc t).winning = false)
    (wins : pc.winning = true) (counts : b.sends + b.throws = s.sends + s.throws) :
    Once (tally w (b.goto t pc)) := by
  refine once.transfer (p := .waiting) (q := .thread t) (by simp) ?_ ?_
  · show ((b.goto t pc).waiting w).toNat + ((b.goto t pc).pc t).winning.toNat =
      (s.waiting w).toNat + (s.pc t).winning.toNat
    rw [goto_self, waits, taken, before, wins]
    rfl
  · intro p notWaiting notT
    cases p with
    | waiting => exact absurd rfl notWaiting
    | thread u =>
        refine tally_other pcs ?_
        rintro rfl
        exact notT rfl
    | queued => exact counts

/-- A thread queues the handle. -/
theorem once_queue [DecidableEq T] (once : Once (tally w s)) (pcs : b.pc = s.pc)
    (waits : (b.goto t pc).waiting w = s.waiting w) (had : (s.pc t).winning = true)
    (gives : pc.winning = false) (counts : b.sends + b.throws = s.sends + s.throws + 1) :
    Once (tally w (b.goto t pc)) := by
  refine once.transfer (p := .thread t) (q := .queued) (by simp) ?_ ?_
  · show ((b.goto t pc).pc t).winning.toNat + (b.sends + b.throws) =
      (s.pc t).winning.toNat + (s.sends + s.throws)
    rw [goto_self, had, gives, counts]
    show 0 + (s.sends + s.throws + 1) = 1 + (s.sends + s.throws)
    omega
  · intro p notT notQueued
    cases p with
    | waiting => exact congrArg Bool.toNat waits
    | thread u =>
        refine tally_other pcs ?_
        rintro rfl
        exact notT rfl
    | queued => exact absurd rfl notQueued

/-! ## Without a sentinel -/

theorem waiting_plain (plain : w.sentinel = false) : s.waiting w = !s.consumed := by
  simp [State.waiting, plain]

theorem Flow.winning_plain (flow : Flow w s t pc) (plain : w.sentinel = false) :
    pc.winning = (s.pc t).winning := by
  cases flow with
  | dropped at_ | lost at_ =>
      rw [at_]
      exact After.winning_pc
  | zeroes at_ sentinel =>
      rw [plain] at sentinel
      cases sentinel
  | panics at_ | condemned at_ | resumes at_ | timed at_ | registered at_ | unset at_ | goes at_
  | passes at_ | finds at_ | misses at_ | late at_ =>
      rw [at_]
      rfl

theorem once_plain [DecidableEq T] [DecidableEq E] (plain : w.sentinel = false)
    (once : Once (tally w s)) (move : Move w s a s') : Once (tally w s') := by
  have waits : ∀ {b : State T E} {t : T} {pc : Pc E}, b.consumed = s.consumed →
      (b.goto t pc).waiting w = s.waiting w := by
    intro b t pc same
    rw [waiting_plain plain, waiting_plain plain]
    exact congrArg _ same
  cases move with
  | none_ => exact once
  | replaced =>
      refine once.same ?_
      intro p
      cases p with
      | waiting =>
          show (State.waiting w _).toNat = (s.waiting w).toNat
          rw [waiting_plain plain, waiting_plain plain]
      | _ => rfl
  | flow flow => exact once_goto once rfl (waits rfl) (flow.winning_plain plain) rfl
  | wins at_ _ free | claims at_ _ free =>
      refine once_win once rfl ?_ ?_ (by rw [at_]; rfl) rfl rfl
      · rw [waiting_plain plain, free]
        rfl
      · rw [waiting_plain plain]
        rfl
  | sends at_ =>
      refine once_queue once rfl (waits rfl) (by rw [at_]; rfl) After.winning_pc ?_
      show s.sends + 1 + s.throws = s.sends + s.throws + 1
      omega
  | throws at_ => exact once_queue once rfl (waits rfl) (by rw [at_]; rfl) rfl rfl
  | counts at_ isThread sentinel | raises at_ sentinel =>
      rw [plain] at sentinel
      cases sentinel
  | restores at_ =>
      refine once_goto once rfl (waits rfl) ?_ rfl
      rw [at_]
      exact After.winning_pc
  | publish at_ next =>
      refine once_goto once rfl (waits rfl) ?_ rfl
      rw [at_]
      obtain ⟨rfl, -⟩ | rfl := next <;> rfl
  | register at_ | begins at_ | found at_ | queues at_ | unlocks at_ | arms at_ | notifies at_
  | drained at_ | pops at_ | unnotifies at_ | held at_ | zero at_ | set at_ | clear at_
  | expires at_ | aborts at_ =>
      refine once_goto once rfl (waits rfl) ?_ rfl
      rw [at_]
      rfl

/-! ## The countdown -/

/-- A waker of the waiter that has not counted. -/
def Unspent (w : Waiter E) (s : State T E) (i : Nat) : Prop :=
  i < w.events.length ∧ s.stage i ≠ .spent

/-- The countdown is the number of wakers that have not counted and of the holds. -/
structure Ledger (w : Waiter E) (s : State T E) : Prop where
  counted : ∃ n : Nat, Exactly (Unspent w s) n ∧ s.counter = n + s.held
  never : ∀ t after, s.pc t ≠ .restore after

theorem ledger_start : Ledger w (.start T w) where
  counted := by
    refine ⟨w.events.length, ⟨Finset.range w.events.length, ?_, Finset.card_range _⟩, ?_⟩
    · intro i
      rw [Finset.mem_range]
      exact ⟨fun below => ⟨below, by simp [State.start]⟩, fun unspent => unspent.1⟩
    · simp [State.start]
  never := by
    intro t after at_
    cases at_

theorem Ledger.never_goto [DecidableEq T] (ledger : Ledger w s) (pcs : b.pc = s.pc)
    (not : ∀ after, pc ≠ .restore after) (u : T) (after : After E) :
    (b.goto t pc).pc u ≠ .restore after := by
  intro at_
  by_cases self : u = t
  · subst self
    rw [goto_self] at at_
    exact not after at_
  · rw [goto_other b self, pcs] at at_
    exact ledger.never u after at_

theorem Ledger.goto [DecidableEq T] (ledger : Ledger w s) (pcs : b.pc = s.pc)
    (stages : ∀ i, b.stage i = .spent ↔ s.stage i = .spent) (counter : b.counter = s.counter)
    (held : b.held = s.held) (not : ∀ after, pc ≠ .restore after) : Ledger w (b.goto t pc) := by
  refine ⟨?_, ledger.never_goto pcs not⟩
  obtain ⟨n, exactly, sum⟩ := ledger.counted
  refine ⟨n, exactly.congr fun i => and_congr_right fun _ => not_congr (stages i), ?_⟩
  show b.counter = n + b.held
  rw [counter, held, sum]

/-- A waker that has not counted gets to another stage. -/
theorem spent_setStage {σ : Stage T} (unspent : s.stage i ≠ .spent) (still : σ ≠ .spent)
    (j : Nat) : (s.setStage i σ).stage j = .spent ↔ s.stage j = .spent := by
  show Function.update s.stage i σ j = .spent ↔ s.stage j = .spent
  by_cases isI : j = i
  · subst isI
    rw [Function.update_self]
    exact iff_of_false still unspent
  · rw [Function.update_of_ne isI]

theorem Listed.unspent (listed : Listed w s) (old : s.stage i ≠ .fresh)
    (unspent : s.stage i ≠ .spent) : Unspent w s i := by
  obtain ⟨e, event⟩ := listed.known i old
  exact ⟨(List.getElem?_eq_some_iff.mp event).1, unspent⟩

theorem Layout.unspent_settle (layout : Layout w s) (at_ : s.pc t = .settle i after) :
    Unspent w s i := by
  have carried := layout.owned t i (.carried t) (by rw [at_]; rfl)
  exact layout.listed.unspent (by rw [carried]; simp) (by rw [carried]; simp)

theorem Layout.unspent_hold {rest : List Nat} (layout : Layout w s)
    (at_ : s.pc t = .hold e (i :: rest)) : Unspent w s i := by
  have queued := (layout.listed.queued e i
    (layout.listed.left t e (i :: rest) at_ i List.mem_cons_self)).1
  exact layout.listed.unspent (by rw [queued]; simp) (by rw [queued]; simp)

/-- As long as there is a waker that has not counted, the countdown is above zero. -/
theorem Ledger.pos (ledger : Ledger w s) (unspent : Unspent w s i) : 0 < s.counter := by
  obtain ⟨n, exactly, sum⟩ := ledger.counted
  have pos := exactly.pos unspent
  omega

theorem Ledger.counts [DecidableEq T] (ledger : Ledger w s) (layout : Layout w s)
    (at_ : s.pc t = .settle i after)
    (next : pc = if s.counter = 0 then .restore after
      else if s.counter = 1 then .send after else after.pc) :
    Ledger w (({ s with counter := s.counter - 1 }.setStage i .spent).goto t pc) := by
  have unspent := layout.unspent_settle at_
  have pos := ledger.pos unspent
  refine ⟨?_, ledger.never_goto rfl ?_⟩
  · obtain ⟨n, exactly, sum⟩ := ledger.counted
    have some_ := exactly.pos unspent
    refine ⟨n - 1, exactly.lose unspent ?_, ?_⟩
    · intro j
      show j < _ ∧ Function.update s.stage i .spent j ≠ .spent ↔ j ≠ i ∧ j < _ ∧ s.stage j ≠ .spent
      by_cases isI : j = i
      · simp [isI]
      · simp [isI]
    · show s.counter - 1 = (n - 1 : Nat) + s.held
      omega
  · intro last
    rw [if_neg (by omega)] at next
    subst next
    split
    · simp
    · cases after <;> simp [After.pc]

theorem After.pc_ne_restore {other : After E} : after.pc ≠ .restore other := by
  cases after <;> simp [After.pc]

theorem ledger_step [DecidableEq T] [DecidableEq E] (layout : Layout w s) (ledger : Ledger w s)
    (move : Move w s a s')
    (spared : s'.condemned = false) (aborter : Aborter s') : Ledger w s' := by
  cases move with
  | none_ | replaced => exact ⟨ledger.counted, ledger.never⟩
  | flow flow =>
      refine ledger.goto rfl (fun _ => Iff.rfl) rfl rfl ?_
      intro last
      cases flow with
      | dropped | lost => exact After.pc_ne_restore
      | _ => simp
  | @begins t i e at_ event free =>
      have fresh := layout.registering.fresh t i (by rw [at_]; rfl) i (Nat.le_refl i)
      exact ledger.goto rfl (spent_setStage (by rw [fresh]; simp) (by simp)) rfl rfl (by simp)
  | @found t i e at_ isSet | @queues t i e at_ =>
      have adding := layout.adding (t := t) (i := i) (by rw [at_]; rfl)
      exact ledger.goto rfl (spent_setStage (by rw [adding]; simp) (by simp)) rfl rfl (by simp)
  | @pops t e i rest at_ first =>
      have queued := (layout.listed.queued e i (by rw [first]; exact List.mem_cons_self)).1
      exact ledger.goto rfl (spent_setStage (by rw [queued]; simp) (by simp)) rfl rfl (by simp)
  | counts at_ isThread sentinel next => exact ledger.counts layout at_ next
  | raises at_ sentinel =>
      refine ⟨?_, ledger.never_goto rfl (by simp)⟩
      obtain ⟨n, exactly, sum⟩ := ledger.counted
      refine ⟨n, exactly, ?_⟩
      show s.counter + 1 = n + (s.held + 1 : Nat)
      omega
  | @zero t at_ =>
      have condemned := condemned_of_thread (t := t) aborter (by rw [goto_self]; rfl)
      rw [condemned] at spared
      cases spared
  | restores at_ => exact absurd at_ (ledger.never _ _)
  | sends => exact ledger.goto rfl (fun _ => Iff.rfl) rfl rfl fun _ => After.pc_ne_restore
  | publish at_ next =>
      refine ledger.goto rfl (fun _ => Iff.rfl) rfl rfl ?_
      obtain ⟨rfl, -⟩ | rfl := next <;> simp
  | _ => exact ledger.goto rfl (fun _ => Iff.rfl) rfl rfl (by simp)

/-! ## With a sentinel -/

/-- No `fetch_sub` finds one after an abort has found the countdown above zero. -/
def Apart (w : Waiter E) (s : State T E) (a : Act T E) : Prop :=
  ∀ t i after, a = .thread t → s.pc t = .settle i after → w.sentinel = true →
    s.counter = 1 → s.condemned = false

theorem waiting_sentinel (sentinel : w.sentinel = true) :
    s.waiting w = (decide (s.counter ≠ 0) && !s.condemned) := by
  simp [State.waiting, sentinel]

theorem waiting_condemned (sentinel : w.sentinel = true) (condemned : s.condemned = true) :
    s.waiting w = false := by
  simp [State.waiting, sentinel, condemned]

theorem waiting_above (sentinel : w.sentinel = true) (spared : s.condemned = false)
    (above : s.counter ≠ 0) : s.waiting w = true := by
  simp [State.waiting, sentinel, spared, above]

theorem waiting_zero (sentinel : w.sentinel = true) (zero : s.counter = 0) :
    s.waiting w = false := by
  simp [State.waiting, sentinel, zero]

/-- The countdown does not come to zero or leave it, unless an abort is under way. -/
theorem waiting_same (sentinel : w.sentinel = true) (same : s'.condemned = s.condemned)
    (above : s.condemned = false → s.counter ≠ 0 ∧ s'.counter ≠ 0) :
    s'.waiting w = s.waiting w := by
  cases spared : s.condemned with
  | true =>
      rw [waiting_condemned sentinel spared]
      exact waiting_condemned sentinel (same.trans spared)
  | false =>
      obtain ⟨before, now⟩ := above spared
      rw [waiting_above sentinel spared before]
      exact waiting_above sentinel (same.trans spared) now

theorem not_condemned (aborter : Aborter s) (aborting : (s.pc t).aborting = true)
    (before : (s.pc t).condemning = false) : s.condemned = false := by
  simp [State.condemned, aborter.one t aborting, aborter.first t aborting, before]

/-- A step that has nothing to do with the handle nor with the countdown. -/
theorem once_quiet [DecidableEq T] {p : Pc E} (once : Once (tally w s))
    (sentinel : w.sentinel = true)
    (pcs : b.pc = s.pc) (same : b.aborted = s.aborted) (throws : b.throws = s.throws)
    (sends : b.sends = s.sends) (counter : b.counter = s.counter)
    (as_ : p.condemning = (s.pc t).condemning) (wins : p.winning = (s.pc t).winning) :
    Once (tally w (b.goto t p)) := by
  refine once_goto once pcs ?_ wins (by rw [sends, throws])
  rw [waiting_sentinel sentinel, waiting_sentinel sentinel, condemned_goto pcs same throws as_]
  rw [show (b.goto t p).counter = s.counter from counter]

theorem once_counts [DecidableEq T] (sentinel : w.sentinel = true) (layout : Layout w s)
    (once : Once (tally w s)) (ledger : s.condemned = false → Ledger w s)
    (at_ : s.pc t = .settle i after) (apart : s.counter = 1 → s.condemned = false)
    (next : pc = if s.counter = 0 then .restore after
      else if s.counter = 1 then .send after else after.pc) :
    Once (tally w (({ s with counter := s.counter - 1 }.setStage i .spent).goto t pc)) := by
  have was : (s.pc t).winning = false := by rw [at_]; rfl
  have quiet : pc.condemning = (s.pc t).condemning := by
    rw [at_]
    obtain rfl | rfl | rfl := next_cases next
    · rfl
    · rfl
    · exact After.condemning_pc
  have condemned := condemned_goto (s := s)
    (b := { s with counter := s.counter - 1 }.setStage i .spent) rfl rfl rfl quiet
  by_cases isOne : s.counter = 1
  · -- the last wake makes the handle
    have spared := apart isOne
    have zero : s.counter - 1 = 0 := by omega
    rw [if_neg (by omega), if_pos isOne] at next
    subst next
    exact once_win once rfl (waiting_above sentinel spared (by omega)) (waiting_zero sentinel zero)
      was rfl rfl
  · refine once_goto once rfl (waiting_same sentinel condemned ?_) ?_ rfl
    · intro spared
      have pos := (ledger spared).pos (layout.unspent_settle at_)
      have above : s.counter - 1 ≠ 0 := by omega
      exact ⟨by omega, above⟩
    · rw [was, next, if_neg isOne]
      split
      · rfl
      · exact After.winning_pc

theorem once_sentinel [DecidableEq T] [DecidableEq E] (sentinel : w.sentinel = true)
    (layout : Layout w s) (aborter : Aborter s) (once : Once (tally w s))
    (ledger : s.condemned = false → Ledger w s) (apart : Apart w s a)
    (move : Move w s a s') : Once (tally w s') := by
  have quiet := fun {b : State T E} {t : T} {pc : Pc E} =>
    once_quiet (b := b) (t := t) (p := pc) once sentinel
  cases move with
  | none_ => exact once
  | replaced =>
      refine once.same ?_
      intro p
      cases p <;> rfl
  | @flow t pc flow =>
      cases flow with
      | zeroes at_ _ counter =>
          have spared := not_condemned aborter (t := t) (by rw [at_]; rfl) (by rw [at_]; rfl)
          have mine := aborter.one t (by rw [at_]; rfl)
          have condemned : (s.goto t .zero).condemned = true := by
            show (_ || s.aborted.any _) = true
            rw [mine, Option.any_some, goto_self, Bool.or_eq_true]
            exact .inr rfl
          exact once_win once rfl (waiting_above sentinel spared counter)
            (waiting_condemned sentinel condemned) (by rw [at_]; rfl) rfl rfl
      | dropped at_ | lost at_ =>
          refine quiet rfl rfl rfl rfl rfl ?_ ?_ <;> rw [at_]
          · exact After.condemning_pc
          · exact After.winning_pc
      | panics at_ | condemned at_ | resumes at_ | timed at_ | registered at_ | unset at_
      | goes at_ | passes at_ | finds at_ | misses at_ | late at_ =>
          refine quiet rfl rfl rfl rfl rfl ?_ ?_ <;> rw [at_] <;> rfl
  | counts at_ isThread _ next =>
      exact once_counts sentinel layout once ledger at_ (apart _ _ _ isThread at_ sentinel) next
  | wins at_ plain | claims at_ plain =>
      rw [sentinel] at plain
      cases plain
  | @restores t after at_ =>
      have same := condemned_goto (s := s) (b := { s with counter := s.counter + 1 })
        (t := t) (p := after.pc) rfl rfl rfl (by rw [at_]; exact After.condemning_pc)
      refine once_goto once rfl (waiting_same sentinel same ?_) ?_ rfl
      · intro spared
        exact absurd at_ ((ledger spared).never t after)
      · rw [at_]
        exact After.winning_pc
  | @raises t e i rest at_ =>
      have same := condemned_goto (s := s)
        (b := { s with counter := s.counter + 1, held := s.held + 1 })
        (t := t) (p := .hold e rest) rfl rfl rfl (by rw [at_]; rfl)
      refine once_goto once rfl (waiting_same sentinel same ?_) (by rw [at_]; rfl) rfl
      intro spared
      have pos := (ledger spared).pos (layout.unspent_hold at_)
      have above : s.counter + 1 ≠ 0 := by omega
      exact ⟨by omega, above⟩
  | @sends t after at_ =>
      refine once_queue once rfl ?_ (by rw [at_]; rfl) After.winning_pc ?_
      · have same := condemned_goto (s := s) (b := { s with sends := s.sends + 1 })
          (t := t) (p := after.pc) rfl rfl rfl (by rw [at_]; exact After.condemning_pc)
        rw [waiting_sentinel sentinel, waiting_sentinel sentinel, same]
        rfl
      · show s.sends + 1 + s.throws = s.sends + s.throws + 1
        omega
  | @zero t at_ =>
      have before := condemned_of_thread (t := t) aborter (by rw [at_]; rfl)
      have same := condemned_goto (s := s) (b := { s with counter := 0 })
        (t := t) (p := .throw) rfl rfl rfl (by rw [at_]; rfl)
      refine once_goto once rfl (waiting_same sentinel same ?_) (by rw [at_]; rfl) rfl
      intro spared
      rw [before] at spared
      cases spared
  | @throws t at_ =>
      have before := condemned_of_thread (t := t) aborter (by rw [at_]; rfl)
      refine once_queue once rfl ?_ (by rw [at_]; rfl) rfl rfl
      have condemned : ({ s with throws := s.throws + 1 }.goto t .idle).condemned = true := by
        show (decide (0 < s.throws + 1) || _) = true
        rw [decide_eq_true (Nat.succ_pos _), Bool.true_or]
      rw [waiting_condemned sentinel before]
      exact waiting_condemned sentinel condemned
  | @aborts t at_ first =>
      refine once_goto once rfl ?_ (by rw [at_]; rfl) rfl
      have before : s.condemned = false := by
        simp [State.condemned, first, aborter.never first]
      have spared : ({ s with aborted := some t }.goto t .abort).condemned = false := by
        show (decide (0 < s.throws) || Option.any _ (some t)) = false
        rw [aborter.never first, Option.any_some, goto_self]
        rfl
      rw [waiting_sentinel sentinel, waiting_sentinel sentinel, spared, before]
      rfl
  | publish at_ next =>
      refine quiet rfl rfl rfl rfl rfl ?_ ?_ <;> rw [at_]
      · obtain ⟨rfl, -⟩ | rfl := next <;> rfl
      · obtain ⟨rfl, -⟩ | rfl := next <;> rfl
  | register at_ | begins at_ | found at_ | queues at_ | unlocks at_ | arms at_ | notifies at_
  | drained at_ | pops at_ | unnotifies at_ | held at_ | set at_ | clear at_ | expires at_ =>
      refine quiet rfl rfl rfl rfl rfl ?_ ?_ <;> rw [at_] <;> rfl

/-! ## Runs -/

/-- It stays so. -/
theorem condemned_step [DecidableEq T] [DecidableEq E] (aborter : Aborter s) (move : Move w s a s')
    (condemned : s.condemned = true) : s'.condemned = true := by
  have same := fun {b : State T E} {t : T} {pc : Pc E} (pcs : b.pc = s.pc)
      (aborted : b.aborted = s.aborted) (throws : b.throws = s.throws)
      (as_ : pc.condemning = (s.pc t).condemning) =>
    (condemned_goto pcs aborted throws as_).trans condemned
  cases move with
  | none_ => exact condemned
  | replaced => exact condemned
  | @flow t pc flow =>
      cases flow with
      | zeroes at_ =>
          have spared := not_condemned aborter (t := t) (by rw [at_]; rfl) (by rw [at_]; rfl)
          rw [spared] at condemned
          cases condemned
      | dropped at_ | lost at_ =>
          refine same rfl rfl rfl ?_
          rw [at_]
          exact After.condemning_pc
      | panics at_ | condemned at_ | resumes at_ | timed at_ | registered at_ | unset at_
      | goes at_ | passes at_ | finds at_ | misses at_ | late at_ =>
          refine same rfl rfl rfl ?_
          rw [at_]
          rfl
  | counts at_ isThread sentinel next =>
      refine same rfl rfl rfl ?_
      rw [at_]
      obtain rfl | rfl | rfl := next_cases next
      · rfl
      · rfl
      · exact After.condemning_pc
  | claims at_ =>
      have spared := not_condemned aborter (by rw [at_]; rfl) (by rw [at_]; rfl)
      rw [spared] at condemned
      cases condemned
  | aborts at_ first =>
      have spared : s.condemned = false := by
        simp [State.condemned, first, aborter.never first]
      rw [spared] at condemned
      cases condemned
  | throws at_ =>
      show (decide (0 < s.throws + 1) || _) = true
      rw [decide_eq_true (Nat.succ_pos _), Bool.true_or]
  | restores at_ | sends at_ =>
      refine same rfl rfl rfl ?_
      rw [at_]
      exact After.condemning_pc
  | publish at_ next =>
      refine same rfl rfl rfl ?_
      rw [at_]
      obtain ⟨rfl, -⟩ | rfl := next <;> rfl
  | register at_ | begins at_ | found at_ | queues at_ | unlocks at_ | arms at_ | wins at_
  | notifies at_ | drained at_ | pops at_ | unnotifies at_ | held at_ | raises at_ | zero at_
  | set at_ | clear at_ | expires at_ =>
      refine same rfl rfl rfl ?_
      rw [at_]
      rfl

/-- What holds of a waiter on several events in every run. -/
structure Sound (w : Waiter E) (s : State T E) : Prop where
  layout : Layout w s
  aborter : Aborter s
  ledger : s.condemned = false → Ledger w s

theorem sound_of_reachable [DecidableEq T] [DecidableEq E] (sentinel : w.sentinel = true)
    (reached : (machine T w).Reachable s) : Sound w s := by
  refine Machine.Reach.invariant (fun s => Sound w s) ?_ ?_ reached
  · rintro s rfl
    refine ⟨layout_start, ⟨?_, ?_, fun _ => rfl⟩, fun _ => ledger_start⟩ <;>
      intro t aborting <;> cases aborting
  · intro s a s' sound _ taken
    change step w s a = some s' at taken
    have move := move_of_step taken
    have aborter := aborter_step sound.layout.plural sound.aborter move sentinel
    refine ⟨layout_step sentinel sound.layout taken, aborter, ?_⟩
    intro spared
    have before : s.condemned = false := by
      cases condemned : s.condemned with
      | false => rfl
      | true =>
          rw [condemned_step sound.aborter move condemned] at spared
          cases spared
    exact ledger_step sound.layout (sound.ledger before) move spared aborter

theorem once_start : Once (tally w (.start T w)) := by
  refine ⟨.waiting, ?_, ?_⟩
  · show (State.waiting w (State.start T w)).toNat = 1
    cases sentinel : w.sentinel with
    | true =>
        have several := length_of_sentinel sentinel
        have above : (State.start T w).counter ≠ 0 := by
          show (w.events.length : Int) ≠ 0
          omega
        rw [waiting_above sentinel rfl above]
        rfl
    | false =>
        rw [waiting_plain sentinel]
        rfl
  · intro p other
    cases p with
    | waiting => exact absurd rfl other
    | thread | queued => rfl

theorem once_of_reach [DecidableEq T] [DecidableEq E] (reached : (machine T w).Reach (Apart w) s) :
    Once (tally w s) := by
  induction reached with
  | start isStart =>
      obtain rfl := isStart
      exact once_start
  | step before apart taken once =>
      have move := move_of_step taken
      cases sentinel : w.sentinel with
      | false => exact once_plain sentinel once move
      | true =>
          have sound := sound_of_reachable sentinel before.reachable
          exact once_sentinel sentinel sound.layout sound.aborter once sound.ledger apart move

/-- At most one handle is ever queued for a suspension. -/
theorem one_resume [DecidableEq T] [DecidableEq E] (reached : (machine T w).Reach (Apart w) s) :
    s.sends + s.throws ≤ 1 :=
  (once_of_reach reached).le_one .queued

/-! ## A wake and an abort that overlap -/

theorem step_throw [DecidableEq T] [DecidableEq E] (at_ : s.pc t = .throw) :
    (machine T w).step s (.thread t) = some ({ s with throws := s.throws + 1 }.goto t .idle) := by
  simp [machine, step, threadStep, at_]

/-- The abort queues its handle. -/
theorem throws_of_condemned [DecidableEq T] [DecidableEq E] (reached : (machine T w).Reachable s)
    (condemned : s.condemned = true) :
    ∃ s', (machine T w).Reachable s' ∧ s'.sends = s.sends ∧ 0 < s'.throws := by
  rw [State.condemned, Bool.or_eq_true] at condemned
  obtain thrown | aborting := condemned
  · exact ⟨s, reached, rfl, of_decide_eq_true thrown⟩
  · obtain ⟨t, -, condemning⟩ := (Option.any_eq_true _ _).mp aborting
    cases at_ : s.pc t with
    | zero =>
        have stores : (machine T w).step s (.thread t) =
            some ({ s with counter := 0 }.goto t .throw) := by
          simp [machine, step, threadStep, at_]
        have throws := step_throw (w := w) (goto_self { s with counter := 0 } t .throw)
        exact ⟨_, (reached.next stores).next throws, rfl, Nat.succ_pos s.throws⟩
    | throw => exact ⟨_, reached.next (step_throw at_), rfl, Nat.succ_pos s.throws⟩
    | _ =>
        rw [at_] at condemning
        cases condemning

/-- When a `fetch_sub` finds one after an abort has found the countdown above zero, the
coroutine is sent to and thrown into. -/
theorem resumes_twice [DecidableEq T] [DecidableEq E] (reached : (machine T w).Reachable s)
    (sentinel : w.sentinel = true)
    (at_ : s.pc t = .settle i after) (last : s.counter = 1) (condemned : s.condemned = true) :
    ∃ s', (machine T w).Reachable s' ∧ 0 < s'.sends ∧ 0 < s'.throws := by
  have counts : (machine T w).step s (.thread t) =
      some (({ s with counter := s.counter - 1 }.setStage i .spent).goto t (.send after)) := by
    simp [machine, step, threadStep, at_, settle, sentinel, last]
  have sends : (machine T w).step (({ s with counter := s.counter - 1 }.setStage i .spent).goto t
      (.send after)) (.thread t) = some ({ ({ s with counter := s.counter - 1 }.setStage i
        .spent).goto t (.send after) with sends := s.sends + 1 }.goto t after.pc) := by
    simp [machine, step, threadStep, goto_self]
    rfl
  have still : ({ ({ s with counter := s.counter - 1 }.setStage i
      .spent).goto t (.send after) with sends := s.sends + 1 }.goto t after.pc).condemned =
        true := by
    refine (condemned_goto rfl rfl rfl ?_).trans ((condemned_goto (s := s) rfl rfl rfl ?_).trans
      condemned)
    · rw [goto_self]
      exact After.condemning_pc
    · rw [at_]
      rfl
  obtain ⟨s', reached', sent, thrown⟩ :=
    throws_of_condemned ((reached.next counts).next sends) still
  refine ⟨s', reached', ?_, thrown⟩
  rw [sent]
  exact Nat.succ_pos s.sends

/-- A waiter on two events, with a checkpoint. -/
def both : Waiter Bool where
  events := [false, true]
  timed := false
  checkpointed := true
  single := by
    intro timed
    cases timed

/-- A thread waits for both, one is set, and the other wake is past the test of
`aborted`. -/
def wakeRun : List (Act Nat Bool) :=
  .register 0 :: List.replicate 10 (.thread 0) ++
    .set 1 false :: List.replicate 5 (.thread 1) ++ .set 1 true :: List.replicate 3 (.thread 1)

/-- `Apart`, decided. -/
def apart (w : Waiter E) (s : State T E) : Act T E → Bool
  | .thread t =>
      match s.pc t with
      | .settle _ _ => !w.sentinel || s.counter ≠ 1 || !s.condemned
      | _ => true
  | _ => true

theorem apart_sound (s : State T E) (a : Act T E) (checked : apart w s a = true) :
    Apart w s a := by
  rintro t i after rfl at_ sentinel last
  simpa [apart, at_, sentinel, last] using checked

/-- The abort comes after the last wake. -/
theorem abortedRun_ends :
    ((machine Nat both).execIf (apart both) (.start Nat both)
      (wakeRun ++ List.replicate 2 (.thread 1) ++ .abort 2 :: List.replicate 2 (.thread 2))).any
      (fun s => s.sends = 1 ∧ s.aborted = some 2 ∧ s.pc 2 = .idle) = true := by
  decide +kernel

theorem one_resume_aborted :
    ∃ s : State Nat Bool, s.sends = 1 ∧ s.aborted = some 2 ∧ s.sends + s.throws ≤ 1 := by
  obtain ⟨s, reached, ends⟩ := Machine.Reach.exists_of_execIf apart_sound rfl abortedRun_ends
  obtain ⟨sent, aborted, -⟩ := of_decide_eq_true ends
  exact ⟨s, sent, aborted, one_resume reached⟩

/-- The abort loads the countdown before the last wake, and stores after it. -/
theorem twiceRun_ends :
    ((machine Nat both).exec (.start Nat both)
      (wakeRun ++ .abort 2 :: List.replicate 2 (.thread 2) ++ List.replicate 2 (.thread 1) ++
        List.replicate 2 (.thread 2))).any
      (fun s => s.sends = 1 ∧ s.throws = 1) = true := by
  decide +kernel

theorem two_resumes :
    ¬∀ s : State Nat Bool, (machine Nat both).Reachable s → s.sends + s.throws ≤ 1 := by
  intro always
  obtain ⟨s, reached, ends⟩ := Machine.Reachable.exists_of_exec rfl twiceRun_ends
  obtain ⟨sent, thrown⟩ := of_decide_eq_true ends
  have one := always s reached
  omega

end MtAsyncio.Countdown
