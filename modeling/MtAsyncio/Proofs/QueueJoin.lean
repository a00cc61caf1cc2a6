/-
Module: MtAsyncio.Proofs.QueueJoin
Purpose: `join` returns only if `_unfinished` was zero since it was called, as
  long as `task_done` sets the event while nothing is unfinished and no `join`
  looks at it between the two statements of a `put`; both windows let a `join`
  return beside an unfinished item.
Trusted boundary: none
Main exports: JoinUndisturbed, Awaited, JoinsWait, join_waits_for_all_work,
  join_returns_early
-/
import MtAsyncio.Model.Queue
import MtAsyncio.Proofs.QueueMoves

namespace MtAsyncio.QueueSteps

open Lib (Discipline Machine Storage)
open Queue (deque)
open SyncEvent (SetPc wakeStep)
open Tasks
open Waiting

variable {A B T F C P : Type} [DecidableEq T] [DecidableEq P]
variable {D : Discipline A} {storage : Storage D B} {maxsize : Int}
variable {s s' : State A B T F C P} {u v : T ⊕ P} {t : T} {f : F} {seen seen' : T → Bool}

/-! ## The flag of the event -/

/-- A `put` stands between `_unfinished += 1` and `_finished.clear()`. -/
def Counted (s : State A B T F C P) : Prop :=
  ∃ u op, s.frame u = .inside op .clearing

/-- The flag is set only when nothing is unfinished, or a `put` is about to clear
it. -/
def Flagged (s : State A B T F C P) : Prop :=
  s.value = true → s.unfinished = 0 ∨ Counted s

/-- `task_done` calls `_finished.set()` while nothing is unfinished, and no `join`
looks at the flag while a `put` is about to clear it. -/
def JoinUndisturbed (s : State A B T F C P) (a : Act A T F C P) : Prop :=
  ∀ u f, a = .step u f →
    (s.frame u = .finishing → s.unfinished = 0) ∧
      (s.frame u = .joining → s.value = true → ¬Counted s)

theorem Counted.goto {frame : Frame A F} (counted : Counted s)
    (other : ∀ op, s.frame u ≠ .inside op .clearing) : Counted (s.goto u frame) := by
  obtain ⟨v, op, at_⟩ := counted
  refine ⟨v, op, ?_⟩
  rw [goto_other]
  · exact at_
  · rintro rfl
    exact other op at_

/-- A step of a thread that is not about to clear the flag. -/
theorem Flagged.goes (flagged : Flagged s) {s₁ : State A B T F C P} {frame : Frame A F}
    (other : ∀ op, s.frame u ≠ .inside op .clearing) (frames : s₁.frame = s.frame)
    (value : s₁.value = true → s.value = true) (fewer : s₁.unfinished ≤ s.unfinished) :
    Flagged (s₁.goto u frame) := by
  intro isSet
  obtain zero | ⟨v, op, at_⟩ := flagged (value isSet)
  · exact .inl (Nat.le_zero.mp (zero ▸ fewer))
  · refine .inr (Counted.goto ⟨v, op, ?_⟩ ?_)
    · rw [frames]
      exact at_
    · rw [frames]
      exact other

omit [DecidableEq T] [DecidableEq P] in
theorem Flagged.of_same (flagged : Flagged s) (frames : s'.frame = s.frame)
    (value : s'.value = s.value) (unfinished : s'.unfinished = s.unfinished) : Flagged s' := by
  unfold Flagged Counted at flagged ⊢
  rwa [frames, value, unfinished]

theorem flagged_step [DecidableEq F] [DecidableEq C] {a : Act A T F C P} (flagged : Flagged s)
    (undisturbed : JoinUndisturbed s a)
    (taken : step storage maxsize s a = some s') : Flagged s' := by
  have elsewhere : ∀ {s₁ : State A B T F C P} {v : T ⊕ P} {old frame : Frame A F},
      s.frame v = old → (∀ op, old ≠ .inside op .clearing) → s₁.frame = s.frame →
        s₁.value = s.value → s₁.unfinished = s.unfinished → Flagged (s₁.goto v frame) := by
    intro s₁ v old frame at_ other frames value unfinished
    exact flagged.goes (at_ ▸ other) frames (by rw [value]; exact id) unfinished.le
  cases move_of_step taken with
  | around moved => exact flagged.of_same rfl rfl rfl
  | calls idle may =>
      refine elsewhere rfl ?_ rfl rfl rfl
      rintro op' at_
      rw [at_] at idle
      cases idle
  | enters at_ free => exact elsewhere at_ (by rintro _ ⟨⟩) rfl rfl rfl
  | tests at_ leads => exact elsewhere at_ (by rintro _ ⟨⟩) rfl rfl rfl
  | parks at_ call parked => exact elsewhere at_ (by rintro _ ⟨⟩) rfl rfl rfl
  | stores at_ => exact elsewhere at_ (by rintro _ ⟨⟩) rfl rfl rfl
  | @counts u op f at_ => exact fun _ => .inr ⟨u, op, goto_self ..⟩
  | clears at_ => rintro ⟨⟩
  | removes at_ got => exact elsewhere at_ (by rintro _ ⟨⟩) rfl rfl rfl
  | misses at_ empty => exact elsewhere at_ (by rintro _ ⟨⟩) rfl rfl rfl
  | drained at_ nobody => exact elsewhere at_ (by rintro _ ⟨⟩) rfl rfl rfl
  | pops at_ first => exact elsewhere at_ (by rintro _ ⟨⟩) rfl rfl rfl
  | spoiled at_ ended => exact elsewhere at_ (by rintro _ ⟨⟩) rfl rfl rfl
  | completes at_ live => exact elsewhere at_ (by rintro _ ⟨⟩) rfl rfl rfl
  | @leaves u op f raises at_ =>
      have gone : Flagged ((if raises then s.fail u op else s).goto u .outside) := by
        cases raises <;> exact elsewhere at_ (by rintro _ ⟨⟩) rfl rfl rfl
      exact gone.of_same rfl rfl rfl
  | joinSet at_ isSet => exact elsewhere at_ (by rintro _ ⟨⟩) rfl rfl rfl
  | joinParks at_ unset parked => exact elsewhere at_ (by rintro _ ⟨⟩) rfl rfl rfl
  | @sets u f at_ =>
      have zero := (undisturbed u f rfl).1 at_
      unfold setLocked
      split <;> exact fun _ => .inl zero
  | wakes at_ moved => exact elsewhere at_ (by rintro _ ⟨⟩) rfl rfl rfl
  | awaits idle at_ moved stays => exact flagged.of_same rfl rfl rfl
  | @fails t k f pc w idle at_ moved gone =>
      unfold State.abandon
      cases k.op <;> exact flagged.of_same rfl rfl rfl
  | @abandons t k f idle at_ =>
      unfold State.abandon
      cases k.op <;> exact flagged.of_same rfl rfl rfl
  | resumes idle at_ =>
      refine elsewhere rfl ?_ rfl rfl rfl
      rintro op' at_
      rw [at_] at idle
      cases idle
  | counted idle free =>
      unfold taskDone
      split
      · exact flagged
      · refine flagged.goes ?_ rfl id (Nat.sub_le ..)
        intro op at_
        rw [at_] at idle
        cases idle
  | joins idle away =>
      refine elsewhere rfl ?_ rfl rfl rfl
      rintro op' at_
      rw [at_] at idle
      cases idle

/-! ## Calls of `join` -/

/-- The future has its result, or a call of `_finished.set()` has taken it off
the deque to give it one. -/
def Promised (s : State A B T F C P) (f : F) : Prop :=
  s.waits.kernel.state (.fut f) = .finished ∨ ∃ u, (s.frame u).has .joiner f

/-- Who returns from `join`, or is going to, has seen zero. -/
structure Awaited (s : State A B T F C P) (seen : T → Bool) : Prop where
  promised : ∀ t f, (s.waits.place t).enrolled = some (.join, f) → Promised s f → seen t = true
  woken : ∀ t f, s.waits.place t = .woken .join f → seen t = true
  joined : ∀ t, s.frame (.inl t) = .joined → seen t = true

omit [DecidableEq T] [DecidableEq P] in
theorem Awaited.of_all (all : ∀ t, seen t = true) : Awaited s seen :=
  ⟨fun t _ _ _ => all t, fun t _ _ => all t, fun t _ => all t⟩

omit [DecidableEq T] [DecidableEq P] in
theorem Awaited.mono (awaited : Awaited s seen) (grow : ∀ t, seen t = true → seen' t = true) :
    Awaited s seen' where
  promised t f has promised := grow t (awaited.promised t f has promised)
  woken t f at_ := grow t (awaited.woken t f at_)
  joined t at_ := grow t (awaited.joined t at_)

omit [DecidableEq T] [DecidableEq P] in
/-- A step that promises nothing to a `join` and lets none return. -/
theorem Awaited.keeps (awaited : Awaited s seen) (grow : ∀ t, seen t = true → seen' t = true)
    (enrolled : ∀ t f, (s'.waits.place t).enrolled = some (.join, f) →
      Promised s' f → (s.waits.place t).enrolled = some (.join, f) ∧ Promised s f)
    (woken : ∀ t f, s'.waits.place t = .woken .join f → s.waits.place t = .woken .join f)
    (joined : ∀ t, s'.frame (.inl t) = .joined → s.frame (.inl t) = .joined) :
    Awaited s' seen' := by
  refine Awaited.mono ⟨?_, ?_, ?_⟩ grow
  · intro t f has promised
    obtain ⟨had, was⟩ := enrolled t f has promised
    exact awaited.promised t f had was
  · intro t f at_
    exact awaited.woken t f (woken t f at_)
  · intro t at_
    exact awaited.joined t (joined t at_)

theorem promised_goto {frame : Frame A F} (none : ¬frame.has .joiner f)
    (promised : Promised (s.goto u frame) f) : Promised s f := by
  obtain finished | ⟨v, has⟩ := promised
  · exact .inl finished
  · refine .inr ⟨v, ?_⟩
    simp only [State.goto, Function.update_apply] at has
    split at has
    · exact absurd has none
    · exact has

theorem joined_goto {frame : Frame A F} (other : frame ≠ .joined)
    (at_ : (s.goto u frame).frame v = .joined) : s.frame v = .joined := by
  simp only [State.goto, Function.update_apply] at at_
  split at at_
  · exact absurd at_ other
  · exact at_

/-- A thread goes on inside of a section. -/
theorem Awaited.goes (awaited : Awaited s seen) {s₁ : State A B T F C P} {frame : Frame A F}
    (grow : ∀ t, seen t = true → seen' t = true) (place : s₁.waits.place = s.waits.place)
    (kept : ∀ t f, (s.waits.place t).enrolled = some (.join, f) →
      s₁.waits.kernel.state (.fut f) = .finished → s.waits.kernel.state (.fut f) = .finished)
    (frames : s₁.frame = s.frame) (none : ∀ f, ¬frame.has .joiner f) (other : frame ≠ .joined) :
    Awaited (s₁.goto u frame) seen' := by
  refine awaited.keeps grow ?_ ?_ ?_
  · intro t f has promised
    change (s₁.waits.place t).enrolled = _ at has
    rw [place] at has
    refine ⟨has, ?_⟩
    obtain finished | held := promised_goto (none f) promised
    · exact .inl (kept t f has finished)
    · rw [frames] at held
      exact .inr held
  · intro t f at_
    exact (congrFun place t).symm.trans at_
  · intro t at_
    have was := joined_goto other at_
    rwa [frames] at was

theorem awaitStep_returned {kernel kernel' : Kernel T F C} {r : Ref T F} {pc : AwaitPc}
    (moved : kernel.awaitStep t r pc = some (kernel', .inr .returned)) :
    kernel.state r = .finished := by
  cases pc with
  | read =>
      simp only [Kernel.awaitStep, Kernel.read, Option.some.injEq, Prod.mk.injEq,
        Sum.inr.injEq] at moved
      obtain ⟨-, returned⟩ := moved
      split at returned
      · split at returned <;> first | assumption | cases returned
      · cases returned
  | test | armed | disarm => cases moved
  | arm | ready | suspended =>
      simp only [Kernel.awaitStep] at moved
      split at moved <;> cases moved

omit [DecidableEq T] [DecidableEq P] in
theorem Awaited.of_same (awaited : Awaited s seen) (waits : s'.waits = s.waits)
    (frame : s'.frame = s.frame) : Awaited s' seen := by
  constructor
  · unfold Promised
    rw [waits, frame]
    exact awaited.promised
  · rw [waits]
    exact awaited.woken
  · rw [frame]
    exact awaited.joined

omit [DecidableEq P] in
theorem awaited_around [DecidableEq F] [DecidableEq C] {b : Around T F C}
    {w : Waits Side (Call A) T F C} (sides : Sides s)
    (awaited : Awaited s seen) (grow : ∀ t, seen t = true → seen' t = true)
    (moved : s.waits.around b = some w) : Awaited { s with waits := w } seen' := by
  obtain ⟨kernel, rfl, eased⟩ := around_eased sides.tenants.facts moved
  refine awaited.keeps grow ?_ (fun _ _ => id) (fun _ => id)
  intro t f has promised
  have made := sides.tenants.used t f (Place.future_of_enrolled has)
  exact ⟨has, promised.imp_left (eased.finished made).mp⟩

/-- A call makes a future that nobody has promised anything to. -/
theorem awaited_parks [DecidableEq F] {k : Call A} {mu : Option (T ⊕ P)}
    {w : Waits Side (Call A) T F C}
    (sides : Sides s) (awaited : Awaited s seen) (grow : ∀ t, seen t = true → seen' t = true)
    (moved : s.waits.park t k k.side f = some w) :
    Awaited ({ s with mu := mu, waits := w }.goto (.inl t) .outside) seen' := by
  have parked := park_spec sides.tenants.facts moved
  refine awaited.keeps grow ?_ ?_ ?_
  · intro v g has promised
    replace promised := promised_goto (by rintro ⟨⟩) promised
    change (w.place v).enrolled = some (.join, g) at has
    rw [parked.place, Function.update_apply] at has
    split at has
    · -- the new future is pending and on the deque only
      cases has
      obtain finished | ⟨u, held⟩ := promised
      · exact absurd (finished.symm.trans parked.pending) (by rintro ⟨⟩)
      · have made := sides.issued .joiner f (.inr ⟨u, held⟩)
        exact absurd rfl (parked.ne_of_issued made)
    · have made := sides.tenants.used v g (Place.future_of_enrolled has)
      refine ⟨has, promised.imp_left ?_⟩
      exact fun finished => (parked.state g (parked.ne_of_issued made)).symm.trans finished
  · intro v g at_
    change w.place v = .woken .join g at at_
    rw [parked.place, Function.update_apply] at at_
    split at at_
    · cases at_
    · exact at_
  · intro v at_
    exact joined_goto (by rintro ⟨⟩) at_

omit [DecidableEq P] in
theorem awaited_await {k : Call A} {pc : AwaitPc} {w : Waits Side (Call A) T F C}
    (awaited : Awaited s seen) (at_ : s.waits.place t = .waiting k f pc)
    (moved : s.waits.await t k f pc = some w) : Awaited { s with waits := w } seen := by
  obtain ⟨⟨kernel, next⟩, taken, rfl⟩ := Option.map_eq_some_iff.mp moved
  have state : kernel.state = s.waits.kernel.state := (awaitStep_frame taken).1
  have was : (s.waits.place t).enrolled = some (k, f) := congrArg Place.enrolled at_
  have place : ∀ v, ((s.waits.setKernel kernel).setPlace t (Waits.afterAwait k f next)).place v =
      if v = t then Waits.afterAwait k f next else s.waits.place v :=
    fun v => Function.update_apply ..
  let after := (s.waits.setKernel kernel).setPlace t (Waits.afterAwait k f next)
  have kept : ∀ g, Promised { s with waits := after } g → Promised s g :=
    fun g promised => promised.imp_left (congrFun state _).symm.trans
  refine ⟨?_, ?_, awaited.joined⟩
  · intro v g has promised
    change (((s.waits.setKernel kernel).setPlace t _).place v).enrolled = _ at has
    rw [place] at has
    split at has
    · rename_i isT
      obtain ⟨isJoin, rfl⟩ := afterAwait_enrolled has
      rw [← isJoin] at was
      exact isT ▸ awaited.promised t g was (kept g promised)
    · exact awaited.promised v g has (kept g promised)
  · intro v g woken
    change ((s.waits.setKernel kernel).setPlace t _).place v = _ at woken
    rw [place] at woken
    split at woken
    · rename_i isT
      -- the await returns only from a future with a result
      obtain ⟨rfl, rfl, rfl⟩ := afterAwait_woken woken
      exact isT ▸ awaited.promised t f was (.inl (awaitStep_returned taken))
    · exact awaited.woken v g woken

omit [DecidableEq T] [DecidableEq P] in
theorem awaited_abandon {k : Call A} (awaited : Awaited s seen) : Awaited (s.abandon t k) seen := by
  unfold State.abandon
  cases k.op <;> exact awaited.of_same rfl rfl

omit [DecidableEq P] in
/-- A task leaves the waits. -/
theorem Awaited.away (awaited : Awaited s seen) {w : Waits Side (Call A) T F C}
    (state : w.kernel.state = s.waits.kernel.state)
    (place : w.place = Function.update s.waits.place t .away) :
    Awaited { s with waits := w } seen := by
  refine awaited.keeps (fun _ => id) ?_ ?_ (fun _ => id)
  · intro v f has promised
    change (w.place v).enrolled = some (.join, f) at has
    rw [place, Function.update_apply] at has
    split at has
    · cases has
    · exact ⟨has, promised.imp_left (congrFun state _).symm.trans⟩
  · intro v f at_
    change w.place v = .woken .join f at at_
    rw [place, Function.update_apply] at at_
    split at at_
    · cases at_
    · exact at_

theorem awaited_wakes [DecidableEq F] {pc pc' : SetPc F} {w : Waits Side (Call A) T F C}
    (awaited : Awaited s seen)
    (grow : ∀ t, seen t = true → seen' t = true) (at_ : s.frame u = .setting pc)
    (moved : wakeStep s.waits pc = some (w, pc')) :
    Awaited ({ s with waits := w }.goto u (if pc'.busy then .setting pc' else .outside)) seen' := by
  obtain ⟨waits, fewer⟩ := wakeStep_owes moved
  have owes : ∀ f ∈ pc.owes, (s.frame u).has .joiner f := by
    intro f member
    rw [at_]
    exact ⟨rfl, member⟩
  have place : w.place = s.waits.place := by
    obtain rfl | ⟨g, -, -, rfl⟩ := waits <;> rfl
  have kept : ∀ f, w.kernel.state (.fut f) = .finished → Promised s f := by
    intro f finished
    obtain rfl | ⟨g, chosen, -, rfl⟩ := waits
    · exact .inl finished
    · by_cases self : f = g
      · exact .inr ⟨u, owes f (self ▸ SetPc.owes_of_chosen chosen)⟩
      · refine .inl ?_
        have other : Ref.fut f ≠ Ref.fut g (T := T) := fun same => self (Ref.fut.inj same)
        simpa [Waits.setKernel, Kernel.setState, other] using finished
  refine awaited.keeps grow ?_ ?_ ?_
  · intro t f has promised
    change (w.place t).enrolled = _ at has
    rw [place] at has
    refine ⟨has, ?_⟩
    obtain finished | ⟨v, held⟩ := promised
    · exact kept f finished
    · simp only [State.goto, Function.update_apply] at held
      split at held
      · split at held
        · exact .inr ⟨u, owes f (fewer f held.2)⟩
        · cases held
      · exact .inr ⟨v, held⟩
  · intro t f woken
    exact (congrFun place t).symm.trans woken
  · intro t joined
    refine joined_goto ?_ joined
    split <;> rintro ⟨⟩

/-- The calls leave their frames for another one, with the waits as they are. -/
theorem Awaited.moves (awaited : Awaited s seen) {s₁ : State A B T F C P} {frame : Frame A F}
    (grow : ∀ t, seen t = true → seen' t = true) (waits : s₁.waits = s.waits)
    (frames : s₁.frame = s.frame) (none : ∀ f, ¬frame.has .joiner f) (other : frame ≠ .joined) :
    Awaited (s₁.goto u frame) seen' := by
  refine awaited.goes grow (by rw [waits]) ?_ frames none other
  rw [waits]
  exact fun _ _ _ => id

omit [DecidableEq P] in
theorem zeroSince_of_seen {a : Act A T F C P} (other : a ≠ .join t) (was : seen t = true) :
    zeroSince seen s a s' t = true := by
  cases a with
  | join v =>
      have apart : v ≠ t := fun same => other (congrArg Act.join same)
      simp [zeroSince, apart, was]
  | _ => simp [zeroSince, was]

omit [DecidableEq P] in
theorem zeroSince_of_zero {a : Act A T F C P} (zero : s'.unfinished = 0) (t : T) :
    zeroSince seen s a s' t = true := by
  simp [zeroSince, zero]

theorem awaited_joins (awaited : Awaited s seen) (away : s.away t = true) :
    Awaited (s.goto (.inl t) .joining) (zeroSince seen s (.join t) (s.goto (.inl t) .joining)) := by
  have other : ∀ v f, (s.waits.place v).call = some (.join, f) → v ≠ t := by
    rintro v f call rfl
    exact call_of_away away _ _ call
  have grow : ∀ v, v ≠ t → seen v = true →
      zeroSince seen s (.join t) (s.goto (.inl t) .joining) v = true := by
    intro v apart
    exact zeroSince_of_seen fun same => apart (Act.join.inj same).symm
  refine ⟨?_, ?_, ?_⟩
  · intro v f has promised
    exact grow v (other v f (Place.call_of_enrolled has))
      (awaited.promised v f has (promised_goto (by rintro ⟨⟩) promised))
  · intro v f woken
    exact grow v (other v f (congrArg Place.call woken)) (awaited.woken v f woken)
  · intro v joined
    by_cases isT : v = t
    · rw [isT, goto_self] at joined
      cases joined
    · exact grow v isT (awaited.joined v (joined_goto (by rintro ⟨⟩) joined))

theorem awaited_step [DecidableEq F] [DecidableEq C] {a : Act A T F C P} (sides : Sides s)
    (flagged : Flagged s)
    (undisturbed : JoinUndisturbed s a) (taken : step storage maxsize s a = some s')
    (awaited : Awaited s seen) : Awaited s' (zeroSince seen s a s') := by
  by_cases zero : s'.unfinished = 0
  · exact .of_all (zeroSince_of_zero zero)
  have grow : (∀ t, a ≠ .join t) → ∀ t, seen t = true → zeroSince seen s a s' t = true :=
    fun other t => zeroSince_of_seen (other t)
  cases move_of_step taken with
  | around moved => exact awaited_around sides awaited (grow (by rintro _ ⟨⟩)) moved
  | calls idle may =>
      exact awaited.moves (grow (by rintro _ ⟨⟩)) rfl rfl (by rintro _ ⟨⟩) (by rintro ⟨⟩)
  | enters at_ free =>
      exact awaited.moves (grow (by rintro _ ⟨⟩)) rfl rfl (by rintro _ ⟨⟩) (by rintro ⟨⟩)
  | tests at_ leads =>
      have outer := tested_leads leads
      refine awaited.moves (grow (by rintro _ ⟨⟩)) rfl rfl ?_ (by rintro ⟨⟩)
      intro f has
      obtain rfl | rfl | ⟨x, rfl⟩ := outer <;> cases has
  | parks at_ call parked => exact awaited_parks sides awaited (grow (by rintro _ ⟨⟩)) parked
  | stores at_ =>
      exact awaited.moves (grow (by rintro _ ⟨⟩)) rfl rfl (by rintro _ ⟨⟩) (by rintro ⟨⟩)
  | counts at_ =>
      exact awaited.moves (grow (by rintro _ ⟨⟩)) rfl rfl (by rintro _ ⟨⟩) (by rintro ⟨⟩)
  | clears at_ =>
      exact awaited.moves (grow (by rintro _ ⟨⟩)) rfl rfl (by rintro _ ⟨⟩) (by rintro ⟨⟩)
  | removes at_ got =>
      exact awaited.moves (grow (by rintro _ ⟨⟩)) rfl rfl (by rintro _ ⟨⟩) (by rintro ⟨⟩)
  | misses at_ empty =>
      exact awaited.moves (grow (by rintro _ ⟨⟩)) rfl rfl (by rintro _ ⟨⟩) (by rintro ⟨⟩)
  | drained at_ nobody =>
      exact awaited.moves (grow (by rintro _ ⟨⟩)) rfl rfl (by rintro _ ⟨⟩) (by rintro ⟨⟩)
  | @pops u op f fut sd rest at_ first =>
      have serves : sd ≠ .joiner := by
        rintro rfl
        exact sides.serves u (by rw [at_]; rfl)
      refine awaited.goes (grow (by rintro _ ⟨⟩)) rfl (fun _ _ _ => id) rfl ?_ (by rintro ⟨⟩)
      intro g has
      split at has
      · cases has
      · exact serves has.1
  | spoiled at_ ended =>
      exact awaited.moves (grow (by rintro _ ⟨⟩)) rfl rfl (by rintro _ ⟨⟩) (by rintro ⟨⟩)
  | @completes u op f fut sd at_ live =>
      refine awaited.goes (grow (by rintro _ ⟨⟩)) rfl ?_ rfl (by rintro _ ⟨⟩) (by rintro ⟨⟩)
      -- the waiter is a getter or a putter
      intro t g has finished
      have other : g ≠ fut := by
        rintro rfl
        have here : On s sd g := .inr ⟨u, by rw [at_]; exact ⟨rfl, rfl⟩⟩
        refine sides.serves u ?_
        rw [at_]
        exact congrArg Option.some (sides.sided t .join g sd has here).symm
      have refs : Ref.fut g ≠ Ref.fut fut (T := T) := fun same => other (Ref.fut.inj same)
      simpa [Waits.setKernel, Kernel.setState, refs] using finished
  | @leaves u op f raises at_ =>
      have gone : Awaited ((if raises then s.fail u op else s).goto u .outside)
          (zeroSince seen s (.step u f)
            { (if raises then s.fail u op else s).goto u .outside with mu := none }) := by
        refine awaited.moves (grow (by rintro _ ⟨⟩)) ?_ ?_ (by rintro _ ⟨⟩) (by rintro ⟨⟩)
        · cases raises <;> rfl
        · cases raises <;> rfl
      exact gone.of_same rfl rfl
  | @joinSet t f at_ isSet =>
      have uncounted := (undisturbed (.inl t) f rfl).2 at_ isSet
      exact absurd ((flagged isSet).resolve_right uncounted) zero
  | joinParks at_ unset parked =>
      exact awaited_parks (k := .join) sides awaited (grow (by rintro _ ⟨⟩)) parked
  | @sets u f at_ =>
      refine absurd ?_ zero
      have nothing := (undisturbed u f rfl).1 at_
      unfold setLocked
      split <;> exact nothing
  | wakes at_ moved => exact awaited_wakes awaited (grow (by rintro _ ⟨⟩)) at_ moved
  | awaits idle at_ moved stays =>
      exact (awaited_await awaited at_ moved).mono (grow (by rintro _ ⟨⟩))
  | @fails t k f pc w idle at_ moved gone =>
      refine (awaited_abandon ?_).mono (grow (by rintro _ ⟨⟩))
      exact awaited_await awaited at_ moved
  | @abandons t k f idle at_ =>
      refine (awaited_abandon ?_).mono (grow (by rintro _ ⟨⟩))
      exact awaited.away rfl rfl
  | @resumes t k f idle at_ =>
      have left : Awaited { s with waits := s.waits.setPlace t .away } seen := awaited.away rfl rfl
      cases k with
      | get | put =>
          exact left.moves (grow (by rintro _ ⟨⟩)) rfl rfl (by rintro _ ⟨⟩) (by rintro ⟨⟩)
      | join =>
          have zeroed := awaited.woken t f at_
          refine Awaited.mono ⟨?_, left.woken, ?_⟩ (grow (by rintro _ ⟨⟩))
          · intro v g has promised
            refine left.promised v g has (promised_goto ?_ promised)
            rintro ⟨⟩
          · intro v joined
            by_cases isT : v = t
            · exact isT ▸ zeroed
            · refine left.joined v ?_
              rwa [goto_other] at joined
              exact fun same => isT (Sum.inl.inj same)
  | @counted p idle free =>
      unfold taskDone at zero grow ⊢
      split at zero
      · contradiction
      · rw [if_neg ‹_›] at grow ⊢
        refine awaited.moves (grow (by rintro _ ⟨⟩)) rfl rfl ?_ ?_
        · intro f has
          split at has <;> cases has
        · split <;> rintro ⟨⟩
  | joins idle away =>
      have some : 0 < s.unfinished := Nat.pos_of_ne_zero zero
      rw [if_pos some]
      exact awaited_joins awaited away

/-! ## Every `join` -/

/-- A `join` that returned has seen zero since it was called, and the event is set
only when nothing is unfinished or a `put` is about to clear it. -/
structure JoinsWait (s : State A B T F C P) (seen : T → Bool) : Prop where
  returned : ∀ t, s.frame (.inl t) = .joined → seen t = true
  flag : s.value = true → ¬Counted s → s.unfinished = 0

/-- The queue with, for each task, whether `_unfinished` was zero since its last
`join` was called. -/
def joinMachine (storage : Storage D B) (maxsize : Int) (T F C P : Type) [DecidableEq T]
    [DecidableEq F] [DecidableEq C] [DecidableEq P] :
    Machine (State A B T F C P × (T → Bool)) (Act A T F C P) :=
  (machine storage maxsize T F C P).recording (fun _ => false) zeroSince

theorem join_waits_for_all_work [DecidableEq F] [DecidableEq C] {h : T → Bool}
    (reached : (joinMachine storage maxsize T F C P).Reach
      (fun past a => JoinUndisturbed past.1 a) (s, h)) : JoinsWait s h := by
  have holds : Flagged s ∧ Awaited s h := by
    refine Machine.Reach.recorded (fun s h => Flagged s ∧ Awaited s h) ?_ ?_ reached
    · rintro s ⟨⟨-, -, -, place⟩, -, zero, -, -, frame, -⟩
      refine ⟨fun _ => .inl zero, ?_, ?_, ?_⟩
      · intro t f has
        rw [place] at has
        cases has
      · intro t f woken
        rw [place] at woken
        cases woken
      · intro t joined
        rw [frame] at joined
        cases joined
    · rintro s h a s' reached ⟨flagged, awaited⟩ undisturbed taken
      have sides := sides_of_reachable reached
      exact ⟨flagged_step flagged undisturbed taken,
        awaited_step sides flagged undisturbed taken awaited⟩
  obtain ⟨flagged, awaited⟩ := holds
  exact ⟨awaited.joined, fun isSet => (flagged isSet).resolve_right⟩

/-! ## Runs -/

theorem freshSteps_joinStart [DecidableEq F] [DecidableEq C] :
    (joinMachine storage maxsize T F C P).start (freshSteps storage T F C P, fun _ => false) :=
  ⟨freshSteps_start, rfl⟩

/-- `put_nowait(x)` of thread `p`, with nobody waiting. -/
def putRun (p : Bool) (x : Nat) : List (Act Nat Unit Nat Unit Bool) :=
  .call (.inr p) (.putNowait x) :: .replicate 7 (.step (.inr p) 0)

/-- The thread is about to clear the flag. -/
def Frame.clears : Frame A F → Bool
  | .inside _ .clearing => true
  | _ => false

/-- `JoinUndisturbed` for one task and two threads. -/
def joinUndisturbed (past : State A B Unit F C Bool × (Unit → Bool)) : Act A Unit F C Bool → Bool
  | .step u _ =>
      match past.1.frame u with
      | .finishing => past.1.unfinished = 0
      | .joining =>
          !past.1.value ||
            [.inl (), .inr false, .inr true].all fun v => !(past.1.frame v).clears
      | _ => true
  | _ => true

theorem joinUndisturbed_sound (past : State A B Unit F C Bool × (Unit → Bool))
    (a : Act A Unit F C Bool) (checked : joinUndisturbed past a = true) :
    JoinUndisturbed past.1 a := by
  rintro u f rfl
  constructor
  · intro at_
    simpa [joinUndisturbed, at_] using checked
  · rintro at_ isSet ⟨v, op, clearing⟩
    simp only [joinUndisturbed, at_, isSet, Bool.not_true, Bool.false_or, List.all_cons,
      List.all_nil, Bool.and_true, Bool.and_eq_true, Bool.not_eq_true'] at checked
    obtain ⟨task, first, second⟩ := checked
    obtain _ | _ | _ := v <;> simp_all [Frame.clears]

/-- A task waits in `join`, and `task_done` wakes it. -/
theorem joinedRun_ends :
    ((joinMachine (deque Nat) 0 Unit Nat Unit Bool).execIf joinUndisturbed
      (freshSteps (deque Nat) _ _ _ _, fun _ => false)
      (putRun false 5 ++ .join () :: .step (.inl ()) 0 :: .replicate 3 (.await ()) ++
        .taskDone true :: .replicate 4 (.step (.inr true) 0) ++
        .around (.kernel (.wake (.fut 0))) :: .replicate 4 (.await ()))).any
      (fun past => past.1.frame (.inl ()) = .joined) = true := by
  decide +kernel

theorem join_waits_for_all_work_woken :
    ∃ past : State Nat (List Nat) Unit Nat Unit Bool × (Unit → Bool),
      past.1.frame (.inl ()) = .joined ∧ JoinsWait past.1 past.2 := by
  obtain ⟨⟨s, h⟩, reached, ends⟩ := Machine.Reach.exists_of_execIf joinUndisturbed_sound
    freshSteps_joinStart joinedRun_ends
  exact ⟨(s, h), of_decide_eq_true ends, join_waits_for_all_work reached⟩

/-- Between the count down to zero and `_finished.set()`, another item is put, and
`join` is called. -/
theorem lateSetRun_ends :
    ((joinMachine (deque Nat) 0 Unit Nat Unit Bool).exec
      (freshSteps (deque Nat) _ _ _ _, fun _ => false)
      (putRun false 5 ++ .taskDone true :: putRun false 6 ++
        [.join (), .step (.inr true) 0, .step (.inl ()) 0])).any
      (fun past => past.1.frame (.inl ()) = .joined ∧ past.2 () = false) = true := by
  decide +kernel

theorem join_returns_early :
    ¬ ∀ past : State Nat (List Nat) Unit Nat Unit Bool × (Unit → Bool),
      (joinMachine (deque Nat) 0 Unit Nat Unit Bool).Reachable past →
        JoinsWait past.1 past.2 := by
  intro always
  obtain ⟨past, reached, ends⟩ :=
    Machine.Reachable.exists_of_exec freshSteps_joinStart lateSetRun_ends
  obtain ⟨joined, unseen⟩ := of_decide_eq_true ends
  have zero := (always past reached).returned () joined
  rw [unseen] at zero
  cases zero

end MtAsyncio.QueueSteps
