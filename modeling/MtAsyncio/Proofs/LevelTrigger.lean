/-
Module: MtAsyncio.Proofs.LevelTrigger
Purpose: `_FdHandle` emulates level-triggered readiness.  An active handle is
  in exactly one situation, so its callbacks never overlap, and a handle that
  is parked while its direction is ready has an edge ahead of it that the poll
  thread has not dealt with yet.
Trusted boundary: none
Main exports: Placed, Known, placed_step, known_step, emulates_level
-/
import MtAsyncio.Lib.Places
import MtAsyncio.Model.FdHandle
import MtAsyncio.Proofs.ReadinessHandshake

namespace MtAsyncio.FdHandle

open Lib (Machine Once)
open ScheduledIo (Direction PollEvent readinessFromEvent readyOrShut and_ne_zero_iff)

variable {T : Type} [DecidableEq T] {s s' : State T} {t : T} {d : Direction} {attempts : Nat}

/-! ## One situation at a time -/

/-- The handle of `d` is in one situation, or it is inactive and in none: it was
not added yet, or a test of `_active` has dropped it. -/
def Placed (s : State T) (d : Direction) : Prop :=
  (s.added d = true ∧ Once (s.count d)) ∨ (s.active d = false ∧ ∀ p, s.count d p = 0)

namespace Placed

omit [DecidableEq T] in
theorem once (placed : Placed s d) (active : s.active d = true) : Once (s.count d) := by
  rcases placed with ⟨-, once⟩ | ⟨inactive, -⟩
  · exact once
  · rw [active] at inactive
    cases inactive

omit [DecidableEq T] in
theorem apart (placed : Placed s d) {p q : Situation T} (here : s.count d p ≠ 0) (other : q ≠ p) :
    s.count d q = 0 := by
  rcases placed with ⟨-, once⟩ | ⟨-, none⟩
  · exact once.apart here other
  · exact none q

omit [DecidableEq T] in
theorem le_one (placed : Placed s d) (p : Situation T) : s.count d p ≤ 1 := by
  rcases placed with ⟨-, once⟩ | ⟨-, none⟩
  · exact once.le_one p
  · rw [none p]
    exact Nat.zero_le 1

omit [DecidableEq T] in
/-- No situation of the handle changes; it may be cancelled. -/
theorem same (placed : Placed s d) (added : s'.added d = s.added d)
    (active : s.active d = false → s'.active d = false)
    (same : ∀ p, s'.count d p = s.count d p) : Placed s' d := by
  rcases placed with ⟨present, once⟩ | ⟨inactive, none⟩
  · exact .inl ⟨added.trans present, once.same same⟩
  · exact .inr ⟨active inactive, fun p => (same p).trans (none p)⟩

/-- The handle goes from one situation to another. -/
theorem move (placed : Placed s d) (added : s'.added d = s.added d)
    (active : s'.active d = s.active d) (p q : Situation T) (other : p ≠ q)
    (total : s'.count d p + s'.count d q = s.count d p + s.count d q)
    (elsewhere : ∀ r, r ≠ p → r ≠ q → s'.count d r = s.count d r) : Placed s' d := by
  rcases placed with ⟨present, once⟩ | ⟨inactive, none⟩
  · exact .inl ⟨added.trans present, once.transfer other total elsewhere⟩
  · refine .inr ⟨active.trans inactive, ?_⟩
    have zero : s'.count d p + s'.count d q = 0 := by rw [total, none p, none q]
    intro r
    by_cases isP : r = p
    · rw [isP]
      omega
    · by_cases isQ : r = q
      · rw [isQ]
        omega
      · exact (elsewhere r isP isQ).trans (none r)

/-- A test of `_active` drops the handle. -/
theorem drop (placed : Placed s d) (inactive : s'.active d = false) (p : Situation T)
    (here : s.count d p ≠ 0) (gone : s'.count d p = 0)
    (elsewhere : ∀ r, r ≠ p → s'.count d r = s.count d r) : Placed s' d := by
  refine .inr ⟨inactive, ?_⟩
  intro r
  by_cases isP : r = p
  · exact isP ▸ gone
  · exact (elsewhere r isP).trans (placed.apart here isP)

end Placed

/-! ### Steps of a thread -/

@[simp] theorem goto_pc_self (s : State T) (t : T) (pc : Pc) : (s.goto t pc).pc t = pc :=
  Function.update_self ..

theorem goto_pc_other (s : State T) {t u : T} (pc : Pc) (other : u ≠ t) :
    (s.goto t pc).pc u = s.pc u :=
  Function.update_of_ne other ..

theorem count_goto_other (s : State T) {pc : Pc} {p : Situation T} (notArming : p ≠ .arming t)
    (notRunning : p ≠ .running t) : (s.goto t pc).count d p = s.count d p := by
  cases p with
  | arming u =>
      have other : u ≠ t := fun same => notArming (same ▸ rfl)
      simp only [State.count, goto_pc_other s pc other]
  | running u =>
      have other : u ≠ t := fun same => notRunning (same ▸ rfl)
      simp only [State.count, goto_pc_other s pc other]
  | parked => rfl
  | woken => rfl
  | queued => rfl

@[simp] theorem count_goto_arming (s : State T) (t : T) (pc : Pc) :
    (s.goto t pc).count d (.arming t) = (pc.arming d).toNat := by
  simp only [State.count, goto_pc_self]

@[simp] theorem count_goto_running (s : State T) (t : T) (pc : Pc) :
    (s.goto t pc).count d (.running t) = (pc.running d).toNat := by
  simp only [State.count, goto_pc_self]

theorem count_goto_of_running (s : State T) {pc : Pc} {p : Situation T}
    (running : pc.running d = (s.pc t).running d) (notArming : p ≠ .arming t) :
    (s.goto t pc).count d p = s.count d p := by
  by_cases isRunning : p = .running t
  · subst isRunning
    rw [count_goto_running, running]
    rfl
  · exact count_goto_other s notArming isRunning

theorem count_goto_of_arming (s : State T) {pc : Pc} {p : Situation T}
    (arming : pc.arming d = (s.pc t).arming d) (notRunning : p ≠ .running t) :
    (s.goto t pc).count d p = s.count d p := by
  by_cases isArming : p = .arming t
  · subst isArming
    rw [count_goto_arming, arming]
    rfl
  · exact count_goto_other s isArming notRunning

/-- A thread that goes on with what it does leaves the handles where they are. -/
theorem count_goto_same (s : State T) {pc : Pc} (arming : pc.arming d = (s.pc t).arming d)
    (running : pc.running d = (s.pc t).running d) (p : Situation T) :
    (s.goto t pc).count d p = s.count d p := by
  by_cases isArming : p = .arming t
  · subst isArming
    exact count_goto_of_arming s arming (by rintro ⟨⟩)
  · exact count_goto_of_running s running isArming

theorem Placed.goto (placed : Placed s d) {pc : Pc} (arming : pc.arming d = (s.pc t).arming d)
    (running : pc.running d = (s.pc t).running d) : Placed (s.goto t pc) d :=
  placed.same rfl id (count_goto_same s arming running)

omit [DecidableEq T] in
theorem count_arming {attempts : Nat} {at_ : ArmPc} (here : s.pc t = .arm d attempts at_)
    (e : Direction) : s.count e (.arming t) = (decide (d = e)).toNat := by
  simp only [State.count, here, Pc.arming]

/-- A thread leaves `_arm`, and puts the handle into `q` when it was the handle
of `e`. -/
theorem placed_leave {attempts : Nat} {at_ : ArmPc} {e : Direction} (placed : Placed s e)
    (here : s.pc t = .arm d attempts at_) (pc : Pc) (left : ∀ f, pc.arming f = false)
    (idle : ∀ f, false = pc.running f) (q : Situation T) (notArming : ∀ u, q ≠ .arming u)
    (added : s'.added e = s.added e) (active : s'.active e = s.active e)
    (moved : ∀ p, p ≠ q → s'.count e p = (s.goto t pc).count e p)
    (arrived : s'.count e q = s.count e q + (decide (d = e)).toNat) : Placed s' e := by
  refine placed.move added active (.arming t) q (notArming t).symm ?_ ?_
  · rw [moved _ (notArming t).symm, arrived, count_goto_arming, left, count_arming here]
    exact Nat.zero_add _ |>.trans (Nat.add_comm _ _)
  · intro r notThread notQ
    rw [moved r notQ]
    exact count_goto_of_running s (by rw [here, ← idle]; rfl) notThread

/-- A thread that stays inside of `_arm` leaves the handles where they are. -/
theorem placed_stay {at_ next : ArmPc} {more : Nat} {e : Direction} (placed : Placed s e)
    (here : s.pc t = .arm d attempts at_) : Placed (s.goto t (.arm d more next)) e := by
  refine placed.goto ?_ ?_
  · rw [here]
    rfl
  · rw [here]
    rfl

theorem placed_armStep {at_ : ArmPc} (placed : ∀ e, Placed s e)
    (here : s.pc t = .arm d attempts at_) (taken : armStep s t d attempts at_ = some s')
    (e : Direction) : Placed s' e := by
  cases at_ with
  | active =>
      simp only [armStep] at taken
      cases taken
      by_cases active : s.active d = true
      · rw [if_pos active]
        exact placed_stay (placed e) here
      · rw [if_neg active]
        by_cases own : d = e
        · subst own
          refine (placed d).drop (Bool.not_eq_true _ ▸ active) (.arming t) ?_ ?_ ?_
          · rw [count_arming here]
            simp
          · exact count_goto_arming s t .outside
          · intro r notThread
            exact count_goto_of_running s (by rw [here]; rfl) notThread
        · refine (placed e).goto ?_ ?_
          · rw [here]
            exact (decide_eq_false own).symm
          · rw [here]
            rfl
  | store =>
      simp only [armStep] at taken
      cases taken
      refine placed_leave (placed e) here .leave (fun _ => rfl) (fun _ => rfl) .parked ?_ rfl rfl
        ?_ ?_
      · rintro u ⟨⟩
      · intro p notParked
        cases p <;> first | rfl | exact absurd rfl notParked
      · by_cases own : d = e
        · subst own
          have empty : s.count d .parked = 0 := by
            refine (placed d).apart (p := .arming t) ?_ ?_
            · rw [count_arming here]
              simp
            · rintro ⟨⟩
          rw [empty]
          simp [State.count, State.goto]
        · simp [State.count, State.goto, own, Function.update_of_ne (Ne.symm own)]
  | dispatchSoon =>
      simp only [armStep] at taken
      cases taken
      refine placed_leave (placed e) here .outside (fun _ => rfl) (fun _ => rfl) .queued ?_ rfl rfl
        ?_ ?_
      · rintro u ⟨⟩
      · intro p notQueued
        cases p <;> first | rfl | exact absurd rfl notQueued
      · by_cases own : d = e
        · subst own
          simp [State.count, State.dispatchSoon, State.goto]
        · simp [State.count, State.dispatchSoon, State.goto, own,
            Function.update_of_ne (Ne.symm own)]
  | lock =>
      simp only [armStep] at taken
      split at taken
      · cases taken
      · cases taken
        exact placed_stay (placed e) here
  | probe =>
      simp only [armStep] at taken
      split at taken
      · cases taken
        exact placed_stay (placed e) here
      · split at taken
        all_goals
          cases taken
          exact placed_stay (placed e) here
  | fastCheck | recheck | unlock | currentTick | storeTick | loadTick | clear =>
      simp only [armStep] at taken
      cases taken
      exact placed_stay (placed e) here

theorem placed_threadStep (placed : ∀ e, Placed s e) (taken : threadStep s t = some s')
    (e : Direction) : Placed s' e := by
  unfold threadStep at taken
  cases here : s.pc t with
  | outside =>
      rw [here] at taken
      cases taken
  | arm d attempts at_ =>
      rw [here] at taken
      exact placed_armStep placed here taken e
  | leave =>
      simp only [here] at taken
      cases taken
      exact (placed e).goto (by rw [here]; rfl) (by rw [here]; rfl)
  | dispatch d =>
      simp only [here] at taken
      cases taken
      by_cases active : s.active d = true
      · rw [if_pos active]
        exact (placed e).goto (by rw [here]; rfl) (by rw [here]; rfl)
      · rw [if_neg active]
        by_cases own : d = e
        · subst own
          refine (placed d).drop (Bool.not_eq_true _ ▸ active) (.running t) ?_ ?_ ?_
          · simp [State.count, here, Pc.running]
          · exact count_goto_running s t .outside
          · intro r notThread
            exact count_goto_of_arming s (by rw [here]; rfl) notThread
        · refine (placed e).goto ?_ ?_
          · rw [here]
            rfl
          · rw [here]
            exact (decide_eq_false own).symm
  | run d =>
      simp only [here] at taken
      cases taken
      refine (placed e).move rfl rfl (.running t) (.arming t) (by rintro ⟨⟩) ?_ ?_
      · rw [count_goto_arming, count_goto_running]
        simp only [State.count, here, Pc.arming, Pc.running, Bool.toNat_false]
        exact Nat.add_comm _ _
      · intro r notRunning notArming
        exact count_goto_other s notArming notRunning

/-! ### Steps of the poll thread -/

theorem count_filter_directions (f : Direction → Bool) (d : Direction) :
    ([.read, .write].filter f).count d = (f d).toNat := by
  cases d <;> cases read : f .read <;> cases write : f .write <;>
    simp [List.filter, read, write]

omit [DecidableEq T] in
theorem count_of_pollerStep {slot : Direction → Bool} {poller : Poller} {r : Situation T}
    (notParked : r ≠ .parked) (notWoken : r ≠ .woken) :
    { s with slot := slot, poller := poller }.count d r = s.count d r := by
  cases r with
  | parked => exact absurd rfl notParked
  | woken => exact absurd rfl notWoken
  | arming u => rfl
  | queued => rfl
  | running u => rfl

theorem placed_pollerStep (placed : ∀ e, Placed s e) (taken : pollerStep s = some s')
    (e : Direction) : Placed s' e := by
  unfold pollerStep at taken
  cases here : s.poller with
  | idle =>
      rw [here] at taken
      cases taken
  | wake ready =>
      simp only [here] at taken
      split at taken
      · cases taken
      · cases taken
        refine (placed e).move rfl rfl .parked .woken (by rintro ⟨⟩) ?_ ?_
        · simp only [State.count, Poller.holds, State.wakeSet, count_filter_directions, here, bne]
          cases s.slot e <;> cases ready &&& e.mask == 0 <;> rfl
        · intro r notParked notWoken
          exact count_of_pollerStep notParked notWoken
  | call cbs =>
      cases cbs with
      | nil =>
          simp only [here] at taken
          cases taken
          refine (placed e).same rfl id ?_
          intro p
          cases p <;> simp [State.count, here, Poller.holds]
      | cons d cbs =>
          simp only [here] at taken
          cases taken
          by_cases active : s.active d = true
          · rw [if_pos active]
            refine (placed e).same rfl id ?_
            intro p
            cases p <;> simp [State.count, here, Poller.holds]
          · rw [if_neg active]
            have before : s.count e .woken = (d :: cbs).count e := by
              simp only [State.count, here, Poller.holds]
            by_cases own : d = e
            · subst own
              have one := (placed d).le_one .woken
              rw [before, List.count_cons_self] at one
              refine (placed d).drop (Bool.not_eq_true _ ▸ active) .woken ?_ ?_ ?_
              · rw [before, List.count_cons_self]
                omega
              · simp only [State.count, Poller.holds]
                omega
              · intro r notWoken
                cases r <;> first | rfl | exact absurd rfl notWoken
            · refine (placed e).same rfl id ?_
              intro p
              cases p <;> simp [State.count, here, Poller.holds, own]
  | dispatchSoon d cbs =>
      simp only [here] at taken
      cases taken
      refine (placed e).move rfl rfl .woken .queued (by rintro ⟨⟩) ?_ ?_
      · simp only [State.count, State.dispatchSoon, here, Poller.holds, List.count_cons, beq_iff_eq]
        by_cases own : d = e
        · subst own
          rw [Function.update_self, if_pos rfl]
          omega
        · rw [Function.update_of_ne (Ne.symm own), if_neg own]
          rfl
      · intro r notWoken notQueued
        cases r <;> first | rfl | exact absurd rfl notWoken | exact absurd rfl notQueued

theorem placed_step {a : Act T} (placed : ∀ e, Placed s e) (taken : step s a = some s')
    (e : Direction) : Placed s' e := by
  cases a with
  | arrival event | drain event =>
      simp only [step] at taken
      cases taken
      exact placed e
  | poll edge event =>
      simp only [step] at taken
      split at taken
      · rename_i enabled
        cases taken
        refine (placed e).same rfl id ?_
        intro p
        cases p <;> simp [State.count, enabled.1, Poller.holds]
      · cases taken
  | poller => exact placed_pollerStep placed taken e
  | add t d =>
      simp only [step] at taken
      split at taken
      · rename_i enabled
        obtain ⟨outside, new⟩ := enabled
        cases taken
        by_cases own : e = d
        · subst own
          -- a handle that was not added yet is in no situation
          have none : ∀ p, s.count e p = 0 := by
            rcases placed e with ⟨present, -⟩ | ⟨-, none⟩
            · rw [new] at present
              cases present
            · exact none
          refine .inl ⟨Function.update_self .., .arming t, ?_, ?_⟩
          · rw [count_goto_arming]
            simp [Pc.arming]
          · intro q other
            exact (count_goto_of_running s (by rw [outside]; rfl) other).trans (none q)
        · refine (placed e).same (Function.update_of_ne own ..) ?_ ?_
          · intro inactive
            exact (Function.update_of_ne own ..).trans inactive
          · exact count_goto_same s (by rw [outside]; exact decide_eq_false (Ne.symm own))
              (by rw [outside]; rfl)
      · cases taken
  | cancel d =>
      simp only [step] at taken
      cases taken
      refine (placed e).same rfl ?_ fun _ => rfl
      intro inactive
      by_cases own : e = d
      · rw [own]
        exact Function.update_self ..
      · exact (Function.update_of_ne own ..).trans inactive
  | take t d =>
      simp only [step] at taken
      split at taken
      · rename_i enabled
        obtain ⟨outside, some_⟩ := enabled
        cases taken
        refine (placed e).move rfl rfl .queued (.running t) (by rintro ⟨⟩) ?_ ?_
        · rw [count_goto_running]
          simp only [State.count, State.goto, outside, Pc.running, Bool.toNat_false]
          by_cases own : d = e
          · subst own
            simp only [Function.update_self, decide_true, Bool.toNat_true]
            omega
          · rw [Function.update_of_ne (Ne.symm own), decide_eq_false own]
            rfl
        · intro r notQueued notRunning
          refine (count_goto_of_arming _ (by rw [outside]; rfl) notRunning).trans ?_
          cases r <;> first | rfl | exact absurd rfl notQueued
      · cases taken
  | thread t => exact placed_threadStep placed taken e

/-! ## What the threads know -/

/-- An edge with the condition `i` waits for the poll thread. -/
def Carried (s : State T) (i : Nat) : Prop :=
  ∃ edge ∈ s.edges, edge.getLsbD i = true

/-- The poll thread has set its readiness and goes on to wake `d`. -/
def Waking (s : State T) (d : Direction) : Prop :=
  ∃ ready, s.poller = .wake ready ∧ ready &&& d.mask ≠ 0

/-- The cache shows nothing of `d` that a wake is not about to announce. -/
def Quiet (s : State T) (d : Direction) : Prop :=
  s.word.bits &&& d.mask = 0 ∨ Waking s d

/-- As long as the word has this tick, whatever is ready in `d` has come up
since the probe, so that its edge is still to come. -/
def Low (s : State T) (d : Direction) (tick : Nat) : Prop :=
  s.word.tick = tick → ∀ i, d.mask.getLsbD i = true → s.ready.getLsbD i = true → Carried s i

/-- The proof outline of `_arm`: what holds while a thread stands there. -/
def Outline (s : State T) : Pc → Prop
  | .arm d _ .store => Quiet s d
  | .arm _ _ (.storeTick tick) => tick ≤ s.word.tick
  | .arm d _ .loadTick => Low s d (s.tick d)
  | .arm d _ (.clear tick) => tick ≤ s.word.tick ∧ Low s d tick
  | _ => True

def Pc.locked : Pc → Bool
  | .arm _ _ .recheck | .arm _ _ .store | .arm _ _ .unlock | .leave => true
  | _ => false

structure Known (s : State T) : Prop where
  owner : ∀ u, (s.pc u).locked = true → s.mutex = some u
  /-- a condition that holds is in the cache, or its edge is still to come -/
  covered : ∀ i, s.ready.getLsbD i = true → s.word.bits.getLsbD i = true ∨ Carried s i
  recorded : ∀ e, s.tick e ≤ s.word.tick
  outline : ∀ u, Outline s (s.pc u)
  parked : ∀ e, s.slot e = true → Quiet s e

/-- A change below the threads that no thread notices. -/
structure Unnoticed (s s' : State T) : Prop where
  tick : s.word.tick ≤ s'.word.tick
  low : ∀ e tick, tick ≤ s.word.tick → Low s e tick → Low s' e tick
  quiet : ∀ e, Quiet s e → Quiet s' e

omit [DecidableEq T] in
theorem Outline.unnoticed (unnoticed : Unnoticed s s') (same : s'.tick = s.tick)
    (recorded : ∀ e, s.tick e ≤ s.word.tick) {pc : Pc} (outline : Outline s pc) :
    Outline s' pc := by
  cases pc with
  | outside | leave | dispatch e | run e => trivial
  | arm e n at_ =>
      cases at_ with
      | active | fastCheck | lock | recheck | unlock | currentTick | probe | dispatchSoon => trivial
      | store => exact unnoticed.quiet e outline
      | storeTick tick => exact Nat.le_trans outline unnoticed.tick
      | loadTick =>
          change Low s' e (s'.tick e)
          rw [same]
          exact unnoticed.low e _ (recorded e) outline
      | clear tick =>
          exact ⟨Nat.le_trans outline.1 unnoticed.tick, unnoticed.low e tick outline.1 outline.2⟩

namespace Known

omit [DecidableEq T] in
/-- The handles' own fields are of no concern below. -/
theorem handles (known : Known s) (queued : Direction → Nat) (added active : Direction → Bool) :
    Known { s with queued := queued, added := added, active := active } where
  owner := known.owner
  covered := known.covered
  recorded := known.recorded
  outline := known.outline
  parked := known.parked

omit [DecidableEq T] in
theorem unnoticed (known : Known s) {ready : BitVec 64} {edges : List (BitVec 64)} {word : Word}
    {poller : Poller}
    (unnoticed : Unnoticed s
      { s with ready := ready, edges := edges, word := word, poller := poller })
    (covered : ∀ i, ready.getLsbD i = true →
      word.bits.getLsbD i = true ∨ ∃ edge ∈ edges, edge.getLsbD i = true) :
    Known { s with ready := ready, edges := edges, word := word, poller := poller } where
  owner := known.owner
  covered := covered
  recorded e := Nat.le_trans (known.recorded e) unnoticed.tick
  outline u := (known.outline u).unnoticed unnoticed rfl known.recorded
  parked e filled := unnoticed.quiet e (known.parked e filled)

/-- A thread goes on, and the mutex stays with whom it is. -/
theorem goto (known : Known s) {pc : Pc} (locked : pc.locked = true → s.mutex = some t)
    (outline : Outline s pc) : Known (s.goto t pc) where
  owner := by
    intro u
    by_cases own : u = t
    · subst own
      rw [goto_pc_self]
      exact locked
    · rw [goto_pc_other s pc own]
      exact known.owner u
  covered := known.covered
  recorded := known.recorded
  outline := by
    intro u
    by_cases own : u = t
    · subst own
      rw [goto_pc_self]
      exact outline
    · rw [goto_pc_other s pc own]
      exact known.outline u
  parked := known.parked

theorem lock (known : Known s) (free : s.mutex = none) {pc : Pc} (outline : Outline s pc) :
    Known ({ s with mutex := some t }.goto t pc) := by
  have locked : Known { s with mutex := some t } := by
    refine ⟨?_, known.covered, known.recorded, known.outline, known.parked⟩
    intro u locked
    have held := known.owner u locked
    rw [free] at held
    cases held
  exact locked.goto (fun _ => rfl) outline

theorem unlock (known : Known s) (held : (s.pc t).locked = true) {pc : Pc}
    (unlocked : pc.locked = false) (outline : Outline s pc) :
    Known ({ s with mutex := none }.goto t pc) where
  owner := by
    intro u
    by_cases own : u = t
    · subst own
      rw [goto_pc_self, unlocked]
      rintro ⟨⟩
    · rw [goto_pc_other _ pc own]
      intro locked
      have owners := (known.owner u locked).symm.trans (known.owner t held)
      exact absurd (Option.some.inj owners) own
  covered := known.covered
  recorded := known.recorded
  outline := (known.goto (t := t) (fun locked => by rw [unlocked] at locked; cases locked)
    outline).outline
  parked := known.parked

end Known

/-! ### Bits -/

theorem bits_of_not_readyOrShut {bits : BitVec 64} (notReady : ¬readyOrShut bits d = true) :
    bits &&& d.mask = 0 := by
  by_contra meets
  obtain ⟨i, bit, masked⟩ := and_ne_zero_iff.mp meets
  refine notReady (ScheduledIo.readyOrShut_iff.mpr ⟨i, bit, ?_⟩)
  rw [BitVec.getLsbD_or, masked, Bool.true_or]

theorem and_eq_zero_of_and {bits kept mask : BitVec 64} (zero : bits &&& mask = 0) :
    bits &&& kept &&& mask = 0 := by
  by_contra meets
  obtain ⟨i, bit, masked⟩ := and_ne_zero_iff.mp meets
  rw [BitVec.getLsbD_and, Bool.and_eq_true] at bit
  exact and_ne_zero_iff.mpr ⟨i, bit.1, masked⟩ zero

theorem or_and_eq_zero {bits ready mask : BitVec 64} (zero : bits &&& mask = 0)
    (apart : ready &&& mask = 0) : (bits ||| ready) &&& mask = 0 := by
  by_contra meets
  obtain ⟨i, bit, masked⟩ := and_ne_zero_iff.mp meets
  rw [BitVec.getLsbD_or, Bool.or_eq_true] at bit
  rcases bit with bit | bit
  · exact and_ne_zero_iff.mpr ⟨i, bit, masked⟩ zero
  · exact and_ne_zero_iff.mpr ⟨i, bit, masked⟩ apart

omit [DecidableEq T] in
theorem low_of_not_level (notReady : ¬s.level d = true) (tick : Nat) : Low s d tick := by
  intro _ i masked ready
  refine absurd ?_ notReady
  simp only [State.level, bne_iff_ne]
  exact and_ne_zero_iff.mpr ⟨i, ready, masked⟩

theorem getLsbD_and_not {bits mask : BitVec 64} {i : Nat} (bit : bits.getLsbD i = true)
    (outside : mask.getLsbD i = false) : (bits &&& ~~~mask).getLsbD i = true := by
  have inWord := BitVec.lt_of_getLsbD bit
  simp only [BitVec.getLsbD_and, BitVec.getLsbD_not, bit, outside, decide_eq_true inWord]
  rfl

/-! ### The steps -/

theorem known_store (known : Known s) (here : s.pc t = .arm d attempts .store) :
    Known ({ s with slot := Function.update s.slot d true }.goto t .leave) := by
  have held : s.mutex = some t := known.owner t (by rw [here]; rfl)
  have quiet : Quiet s d := by
    have outline := known.outline t
    rw [here] at outline
    exact outline
  have stored : Known { s with slot := Function.update s.slot d true } := by
    refine ⟨known.owner, known.covered, known.recorded, known.outline, ?_⟩
    intro e filled
    by_cases own : e = d
    · exact own ▸ quiet
    · exact known.parked e ((Function.update_of_ne own ..).symm.trans filled)
  exact stored.goto (fun _ => held) trivial

/-- No other thread is between the probe and the clear of the same direction,
so that the new tick is nobody else's. -/
theorem known_storeTick {tick : Nat} (known : Known s) (placed : Placed s d)
    (here : s.pc t = .arm d attempts (.storeTick tick)) :
    Known ({ s with tick := Function.update s.tick d tick }.goto t (.arm d attempts .probe)) where
  owner := by
    have moved : Known (s.goto t (.arm d attempts .probe)) := known.goto (by rintro ⟨⟩) trivial
    exact moved.owner
  covered := known.covered
  recorded := by
    intro e
    by_cases own : e = d
    · have outline := known.outline t
      rw [here] at outline
      subst own
      simp only [State.goto, Function.update_self]
      exact outline
    · simp only [State.goto, Function.update_of_ne own]
      exact known.recorded e
  outline := by
    intro u
    by_cases own : u = t
    · subst own
      rw [goto_pc_self]
      trivial
    · rw [goto_pc_other _ _ own]
      have outline := known.outline u
      cases there : s.pc u with
      | outside | leave | dispatch e | run e => trivial
      | arm e n at_ =>
          rw [there] at outline
          cases at_ with
          | loadTick =>
              have apart : e ≠ d := by
                rintro rfl
                have alone : s.count e (.arming u) = 0 := by
                  refine placed.apart (p := .arming t) ?_ ?_
                  · rw [count_arming here]
                    simp
                  · rintro ⟨⟩
                    exact own rfl
                rw [count_arming there] at alone
                simp at alone
              change Low s e (Function.update s.tick d tick e)
              rw [Function.update_of_ne apart]
              exact outline
          | active | fastCheck | lock | recheck | store | unlock | currentTick | storeTick | probe
          | clear | dispatchSoon => exact outline
  parked := known.parked

/-- The clear takes only what the probe has found gone, or what has an edge
still to come. -/
theorem known_clear {tick : Nat} (known : Known s)
    (here : s.pc t = .arm d attempts (.clear tick)) :
    Known ({ s with word := s.word.clear d.mask tick }.goto t (.arm d attempts .active)) := by
  have outline := known.outline t
  rw [here] at outline
  obtain ⟨-, low⟩ := outline
  by_cases newer : s.word.tick ≠ tick
  · rw [Word.clear, if_pos newer]
    exact known.goto (by rintro ⟨⟩) trivial
  · rw [Word.clear, if_neg newer]
    have cleared : Known { s with word := { s.word with bits := s.word.bits &&& ~~~d.mask } } := by
      refine known.unnoticed ⟨Nat.le_refl _, fun _ _ _ low => low, ?_⟩ ?_
      · intro e quiet
        rcases quiet with zero | waking
        · exact .inl (and_eq_zero_of_and zero)
        · exact .inr waking
      · intro i ready
        cases masked : d.mask.getLsbD i with
        | true => exact .inr (low (not_not.mp newer) i masked ready)
        | false =>
            rcases known.covered i ready with bit | carried
            · exact .inl (getLsbD_and_not bit masked)
            · exact .inr carried
    exact cleared.goto (by rintro ⟨⟩) trivial

theorem known_armStep {at_ : ArmPc} (known : Known s) (placed : Placed s d)
    (here : s.pc t = .arm d attempts at_) (taken : armStep s t d attempts at_ = some s') :
    Known s' := by
  cases at_ with
  | active =>
      simp only [armStep] at taken
      cases taken
      split
      · exact known.goto (by rintro ⟨⟩) trivial
      · exact known.goto (by rintro ⟨⟩) trivial
  | fastCheck =>
      simp only [armStep] at taken
      cases taken
      split
      · exact known.goto (by rintro ⟨⟩) trivial
      · exact known.goto (by rintro ⟨⟩) trivial
  | lock =>
      simp only [armStep] at taken
      split at taken
      · cases taken
      · rename_i free
        cases taken
        exact known.lock (by simpa using free) trivial
  | recheck =>
      have held : s.mutex = some t := known.owner t (by rw [here]; rfl)
      simp only [armStep] at taken
      cases taken
      split
      · exact known.goto (fun _ => held) trivial
      · rename_i notReady
        exact known.goto (fun _ => held) (.inl (bits_of_not_readyOrShut notReady))
  | store =>
      simp only [armStep] at taken
      cases taken
      exact known_store known here
  | unlock =>
      simp only [armStep] at taken
      cases taken
      exact known.unlock (by rw [here]; rfl) rfl trivial
  | currentTick =>
      simp only [armStep] at taken
      cases taken
      exact known.goto (by rintro ⟨⟩) (Nat.le_refl _)
  | storeTick tick =>
      simp only [armStep] at taken
      cases taken
      exact known_storeTick known placed here
  | probe =>
      simp only [armStep] at taken
      split at taken
      · cases taken
        exact known.goto (by rintro ⟨⟩) trivial
      · rename_i notReady
        split at taken
        · cases taken
          exact known.goto (by rintro ⟨⟩) trivial
        · cases taken
          exact known.goto (by rintro ⟨⟩) (low_of_not_level notReady _)
  | loadTick =>
      have low := known.outline t
      rw [here] at low
      simp only [armStep] at taken
      cases taken
      exact known.goto (by rintro ⟨⟩) ⟨known.recorded d, low⟩
  | clear tick =>
      simp only [armStep] at taken
      cases taken
      exact known_clear known here
  | dispatchSoon =>
      simp only [armStep] at taken
      cases taken
      exact (known.handles _ s.added s.active).goto (by rintro ⟨⟩) trivial

theorem known_threadStep (known : Known s) (placed : ∀ e, Placed s e)
    (taken : threadStep s t = some s') : Known s' := by
  unfold threadStep at taken
  cases here : s.pc t with
  | outside =>
      rw [here] at taken
      cases taken
  | arm d attempts at_ =>
      rw [here] at taken
      exact known_armStep known (placed d) here taken
  | leave =>
      simp only [here] at taken
      cases taken
      exact known.unlock (by rw [here]; rfl) rfl trivial
  | dispatch d =>
      simp only [here] at taken
      cases taken
      split
      · exact known.goto (by rintro ⟨⟩) trivial
      · exact known.goto (by rintro ⟨⟩) trivial
  | run d =>
      simp only [here] at taken
      cases taken
      exact known.goto (by rintro ⟨⟩) trivial

omit [DecidableEq T] in
/-- Poll-thread steps outside of a wake. -/
theorem known_poller (known : Known s) {poller : Poller}
    (before : ∀ ready, s.poller ≠ .wake ready) : Known { s with poller := poller } := by
  refine known.unnoticed ⟨Nat.le_refl _, fun _ _ _ low => low, ?_⟩ known.covered
  intro e quiet
  rcases quiet with zero | ⟨ready, waking, -⟩
  · exact .inl zero
  · exact absurd waking (before ready)

omit [DecidableEq T] in
/-- A wake needs the mutex, so no thread is about to store; the slots that it
leaves are those of directions that the cache shows nothing of. -/
theorem known_wake (known : Known s) {ready : BitVec 64} {cbs : List Direction}
    (here : s.poller = .wake ready) (free : s.mutex = none) :
    Known { s with
      slot := fun d => s.slot d && ready &&& d.mask == 0
      poller := .call cbs } where
  owner := known.owner
  covered := known.covered
  recorded := known.recorded
  outline := by
    intro u
    have outline := known.outline u
    cases there : s.pc u with
    | outside | leave | dispatch e | run e => trivial
    | arm e n at_ =>
        rw [there] at outline
        cases at_ with
        | store =>
            have held := known.owner u (by rw [there]; rfl)
            rw [free] at held
            cases held
        | active | fastCheck | lock | recheck | unlock | currentTick | storeTick | probe | loadTick
        | clear | dispatchSoon => exact outline
  parked := by
    intro e filled
    simp only [Bool.and_eq_true, beq_iff_eq] at filled
    rcases known.parked e filled.1 with zero | ⟨set, waking, meets⟩
    · exact .inl zero
    · rw [here] at waking
      cases waking
      exact absurd filled.2 meets

omit [DecidableEq T] in
theorem known_pollerStep (known : Known s) (taken : pollerStep s = some s') : Known s' := by
  unfold pollerStep at taken
  cases here : s.poller with
  | idle =>
      rw [here] at taken
      cases taken
  | wake ready =>
      simp only [here] at taken
      split at taken
      · cases taken
      · rename_i free
        cases taken
        exact known_wake known here (by simpa using free)
  | call cbs =>
      have before : ∀ ready, s.poller ≠ .wake ready := by
        rw [here]
        rintro ready ⟨⟩
      cases cbs with
      | nil =>
          simp only [here] at taken
          cases taken
          exact known_poller known before
      | cons d cbs =>
          simp only [here] at taken
          cases taken
          exact known_poller known before
  | dispatchSoon d cbs =>
      have before : ∀ ready, s.poller ≠ .wake ready := by
        rw [here]
        rintro ready ⟨⟩
      simp only [here] at taken
      cases taken
      exact (known_poller known before).handles _ s.added s.active

omit [DecidableEq T] in
/-- A condition of the edge that still holds is reported. -/
theorem reported {edge : BitVec 64} {event : PollEvent} (may : s.mayReport edge event = true)
    {i : Nat} (carried : edge.getLsbD i = true) (ready : s.ready.getLsbD i = true) :
    (readinessFromEvent event).getLsbD i = true := by
  by_contra missed
  have kept : (edge &&& s.ready).getLsbD i = true := by
    rw [BitVec.getLsbD_and, carried, ready, Bool.true_and]
  have left_ := getLsbD_and_not kept (Bool.not_eq_true _ ▸ missed)
  rw [beq_iff_eq.mp may, BitVec.ofNat_eq_ofNat, BitVec.getLsbD_zero] at left_
  cases left_

omit [DecidableEq T] in
/-- What an edge brings into the cache has the tick move on, so that no clear
already under way undoes it. -/
theorem known_poll (known : Known s) {edge : BitVec 64} {event : PollEvent}
    (idle : s.poller = .idle) (may : s.mayReport edge event = true) :
    Known { s with
      edges := s.edges.erase edge
      word := s.word.setReadiness (readinessFromEvent event)
      poller := .wake (readinessFromEvent event) } := by
  refine known.unnoticed ⟨Nat.le_succ _, ?_, ?_⟩ ?_
  · intro e tick old _ now
    simp only [Word.setReadiness] at now
    omega
  · intro e quiet
    by_cases meets : readinessFromEvent event &&& e.mask = 0
    · rcases quiet with zero | ⟨ready, waking, -⟩
      · exact .inl (or_and_eq_zero zero meets)
      · rw [idle] at waking
        cases waking
    · exact .inr ⟨_, rfl, meets⟩
  · intro i ready
    rcases known.covered i ready with bit | ⟨carrier, member, bit⟩
    · left
      simp only [Word.setReadiness, BitVec.getLsbD_or, bit, Bool.true_or]
    · by_cases own : carrier = edge
      · subst own
        left
        simp only [Word.setReadiness, BitVec.getLsbD_or, Bool.or_eq_true]
        exact .inr (reported may bit ready)
      · exact .inr ⟨carrier, (List.mem_erase_of_ne own).mpr member, bit⟩

omit [DecidableEq T] in
theorem known_arrival (known : Known s) (ready : BitVec 64) :
    Known { s with ready := s.ready ||| ready, edges := ready :: s.edges } := by
  have carried : ∀ i, (s.ready ||| ready).getLsbD i = true → s.ready.getLsbD i = true ∨
      ∃ edge ∈ ready :: s.edges, edge.getLsbD i = true := by
    intro i bit
    rw [BitVec.getLsbD_or, Bool.or_eq_true] at bit
    rcases bit with old | new
    · exact .inl old
    · exact .inr ⟨ready, List.mem_cons_self, new⟩
  have still : ∀ i, Carried s i → ∃ edge ∈ ready :: s.edges, edge.getLsbD i = true := by
    rintro i ⟨edge, member, bit⟩
    exact ⟨edge, List.mem_cons_of_mem _ member, bit⟩
  refine known.unnoticed ⟨Nat.le_refl _, ?_, fun _ quiet => quiet⟩ ?_
  · intro e tick _ low now i masked bit
    rcases carried i bit with old | new
    · exact still i (low now i masked old)
    · exact new
  · intro i bit
    rcases carried i bit with old | new
    · rcases known.covered i old with cached | waits
      · exact .inl cached
      · exact .inr (still i waits)
    · exact .inr new

omit [DecidableEq T] in
theorem known_drain (known : Known s) (kept : BitVec 64) :
    Known { s with ready := s.ready &&& kept } := by
  have old : ∀ i, (s.ready &&& kept).getLsbD i = true → s.ready.getLsbD i = true := by
    intro i bit
    rw [BitVec.getLsbD_and, Bool.and_eq_true] at bit
    exact bit.1
  refine known.unnoticed ⟨Nat.le_refl _, ?_, fun _ quiet => quiet⟩ ?_
  · intro e tick _ low now i masked bit
    exact low now i masked (old i bit)
  · intro i bit
    exact known.covered i (old i bit)

theorem known_step {a : Act T} (known : Known s) (placed : ∀ e, Placed s e)
    (taken : step s a = some s') : Known s' := by
  cases a with
  | arrival event =>
      simp only [step] at taken
      cases taken
      exact known_arrival known _
  | drain event =>
      simp only [step] at taken
      cases taken
      exact known_drain known _
  | poll edge event =>
      simp only [step] at taken
      split at taken
      · rename_i enabled
        cases taken
        exact known_poll known enabled.1 enabled.2.2
      · cases taken
  | poller => exact known_pollerStep known taken
  | add t d =>
      simp only [step] at taken
      split at taken
      · cases taken
        exact (known.handles s.queued _ _).goto (by rintro ⟨⟩) trivial
      · cases taken
  | cancel d =>
      simp only [step] at taken
      cases taken
      exact known.handles s.queued s.added _
  | take t d =>
      simp only [step] at taken
      split at taken
      · cases taken
        exact (known.handles _ s.added s.active).goto (by rintro ⟨⟩) trivial
      · cases taken
  | thread t => exact known_threadStep known placed taken

/-! ## Level-triggered readiness -/

omit [DecidableEq T] in
theorem placed_registered (event : PollEvent) (d : Direction) :
    Placed (registered event : State T) d := by
  refine .inr ⟨rfl, ?_⟩
  intro p
  cases p <;> rfl

omit [DecidableEq T] in
theorem known_registered (event : PollEvent) : Known (registered event : State T) where
  owner := by rintro u ⟨⟩
  covered := by
    intro i ready
    refine .inr ⟨readinessFromEvent event, ?_, ready⟩
    have some_ : readinessFromEvent event ≠ 0 := by
      intro zero
      have bit : (readinessFromEvent event).getLsbD i = true := ready
      rw [zero, BitVec.ofNat_eq_ofNat, BitVec.getLsbD_zero] at bit
      cases bit
    simp only [registered, if_neg some_, List.mem_singleton]
  recorded := fun _ => Nat.le_refl _
  outline := fun _ => trivial
  parked := by rintro e ⟨⟩

theorem sound_of_reachable (reached : machine.Reachable s) : (∀ e, Placed s e) ∧ Known s := by
  refine Machine.Reach.invariant (fun s => (∀ e, Placed s e) ∧ Known s) ?_ ?_ reached
  · rintro s ⟨event, rfl⟩
    exact ⟨placed_registered event, known_registered event⟩
  · rintro s a s' ⟨placed, known⟩ - taken
    exact ⟨placed_step placed taken, known_step known placed taken⟩

/-- An edge that will wake the handle of `d`: it waits for the poll thread, and
whatever the kernel reports of it reaches the direction; or the poll thread has
taken it up and comes to `wake` next. -/
def Ahead (s : State T) (d : Direction) : Prop :=
  (∃ edge ∈ s.edges, ∀ event, s.mayReport edge event = true →
    readinessFromEvent event &&& d.mask ≠ 0) ∨
  Waking s d

omit [DecidableEq T] in
theorem Known.ahead (known : Known s) (filled : s.slot d = true) (ready : s.level d = true) :
    Ahead s d := by
  rcases known.parked d filled with zero | waking
  · obtain ⟨i, bit, masked⟩ := and_ne_zero_iff.mp (bne_iff_ne.mp ready)
    rcases known.covered i bit with cached | ⟨edge, member, carried⟩
    · exact absurd zero (and_ne_zero_iff.mpr ⟨i, cached, masked⟩)
    · refine .inl ⟨edge, member, ?_⟩
      intro event may
      exact and_ne_zero_iff.mpr ⟨i, reported may carried bit, masked⟩
  · exact .inr waking

theorem Placed.one_runner (placed : Placed s d) {u : T} (here : s.pc t = .run d)
    (there : s.pc u = .run d) : t = u := by
  by_contra other
  have alone : s.count d (.running u) = 0 := by
    refine placed.apart (p := .running t) ?_ ?_
    · simp [State.count, here, Pc.running]
    · rintro ⟨⟩
      exact other rfl
  simp [State.count, there, Pc.running] at alone

/-- `_FdHandle` over the edge-triggered cache: an active handle is in exactly
one situation; its callbacks do not overlap; and it is parked only while its
direction is not ready or an edge is ahead of it. -/
theorem emulates_level (reached : machine.Reachable s) (d : Direction) :
    (s.active d = true → Once (s.count d)) ∧
    (∀ t u, s.pc t = .run d → s.pc u = .run d → t = u) ∧
    (s.slot d = true → s.level d = false ∨ Ahead s d) := by
  obtain ⟨placed, known⟩ := sound_of_reachable reached
  refine ⟨(placed d).once, fun _ _ => (placed d).one_runner, ?_⟩
  intro filled
  cases ready : s.level d with
  | false => exact .inl rfl
  | true => exact .inr (known.ahead filled ready)

def readable : PollEvent := ⟨true, false, false, false, false⟩

/-- The callback drains the fd, the probe finds it empty, and data arrives
before the stale bit is cleared. -/
def arrivalAfterProbe : List (Act Nat) :=
  [.add 0 .read, .arrival readable, .poll 1 readable, .poller, .poller] ++
  List.replicate 6 (.thread 0) ++ [.take 0 .read, .thread 0, .drain readable] ++
  List.replicate 6 (.thread 0) ++ [.arrival readable] ++ List.replicate 8 (.thread 0)

theorem arrivalAfterProbe_ends :
    ((machine (T := Nat)).exec (registered ⟨false, false, false, false, false⟩)
      arrivalAfterProbe).any (fun s => s.active .read && s.slot .read && s.level .read) = true := by
  decide

/-- The handle is parked on a ready fd, and the edge of the second arrival is
ahead of it. -/
theorem emulates_level_when_parked :
    ∃ s : State Nat, machine.Reachable s ∧ s.level .read = true ∧ Once (s.count .read) ∧
      Ahead s .read := by
  obtain ⟨s, reached, here⟩ := Machine.Reachable.exists_of_exec
    (M := machine (T := Nat)) ⟨_, rfl⟩ arrivalAfterProbe_ends
  simp only [Bool.and_eq_true] at here
  obtain ⟨⟨active, filled⟩, ready⟩ := here
  obtain ⟨once, -, ahead⟩ := emulates_level reached .read
  refine ⟨s, reached, ready, once active, (ahead filled).resolve_left ?_⟩
  rw [ready]
  rintro ⟨⟩

end MtAsyncio.FdHandle
