/-
Module: MtAsyncio.Proofs.ArmSteps
Purpose: What one step of `arm_r_cb` and `arm_w_cb` does, whoever takes it, and what a
  `ScheduledIO` keeps for the reader while somebody writes.
Trusted boundary: none
Main exports: InArm, ArmMove, arm_move, heard, heard_setReadiness, Writes, Aside,
  aside_of_step
-/
import MtAsyncio.Proofs.ReadinessHandshake
import MtAsyncio.Proofs.TickGuard

namespace MtAsyncio.ScheduledIo

variable {T V : Type} [DecidableEq T] {s s' : State T V} {t poller : T} {d : Direction} {v : V}
  {word ready : BitVec 64} {event : PollEvent}

/-! ## Arming -/

/-- The counters of `arm_r_cb` and `arm_w_cb`, called with `v`. -/
def InArm (d : Direction) (v : V) : Pc V → Prop
  | .fastCheck .callback d' v' | .lock .callback d' v' | .recheck .callback d' v'
  | .store .callback d' v' => d' = d ∧ v' = v
  | .unlock d' _ | .currentTick d' | .storeTick d' _ => d' = d
  | _ => False

inductive ArmMove (s : State T V) (t : T) (d : Direction) (v : V) : State T V → Prop where
  | found (at_ : s.pc t = .fastCheck .callback d v) (ready : readyOrShut s.readiness d = true) :
      ArmMove s t d v (s.goto t (.currentTick d))
  | missed (at_ : s.pc t = .fastCheck .callback d v) (unready : readyOrShut s.readiness d = false) :
      ArmMove s t d v (s.goto t (.lock .callback d v))
  | locks (at_ : s.pc t = .lock .callback d v) (free : s.mutex = none) :
      ArmMove s t d v ({ s with mutex := some t }.goto t (.recheck .callback d v))
  | refound (at_ : s.pc t = .recheck .callback d v) (ready : readyOrShut s.readiness d = true) :
      ArmMove s t d v (s.goto t (.unlock d true))
  | remissed (at_ : s.pc t = .recheck .callback d v)
      (unready : readyOrShut s.readiness d = false) :
      ArmMove s t d v (s.goto t (.store .callback d v))
  | stores (at_ : s.pc t = .store .callback d v) :
      ArmMove s t d v ({ s with
        waiters := s.waiters.put ⟨s.stores, v⟩ .callback d
        stores := s.stores + 1 }.goto t (.unlock d false))
  | unlocks (at_ : s.pc t = .unlock d true) :
      ArmMove s t d v ({ s with mutex := none }.goto t (.currentTick d))
  | parks (at_ : s.pc t = .unlock d false) :
      ArmMove s t d v ({ s with mutex := none }.goto t .outside)
  | loads (at_ : s.pc t = .currentTick d) :
      ArmMove s t d v (s.goto t (.storeTick d (tickOf s.readiness)))
  | leaves (tick : BitVec 8) (at_ : s.pc t = .storeTick d tick) :
      ArmMove s t d v ({ s with tick := Function.update s.tick d tick }.goto t .outside)

theorem arm_move (inside : InArm d v (s.pc t)) (taken : threadStep s t = some s') :
    ArmMove s t d v s' := by
  unfold threadStep at taken
  cases at_ : s.pc t with
  | fastCheck k d' v' =>
      rw [at_] at inside
      simp only [at_] at taken
      cases k with
      | event => exact inside.elim
      | callback =>
          obtain ⟨rfl, rfl⟩ := inside
          split at taken
          · rename_i ready
            exact Option.some.inj taken ▸ .found at_ ready
          · rename_i unready
            exact Option.some.inj taken ▸ .missed at_ (Bool.not_eq_true _ ▸ unready)
  | lock k d' v' =>
      rw [at_] at inside
      simp only [at_] at taken
      cases k with
      | event => exact inside.elim
      | callback =>
          obtain ⟨rfl, rfl⟩ := inside
          split at taken
          · cases taken
          · rename_i free
            refine Option.some.inj taken ▸ .locks at_ ?_
            simpa using free
  | recheck k d' v' =>
      rw [at_] at inside
      simp only [at_] at taken
      cases k with
      | event => exact inside.elim
      | callback =>
          obtain ⟨rfl, rfl⟩ := inside
          obtain rfl := Option.some.inj taken
          cases ready : readyOrShut s.readiness d' with
          | true => exact .refound at_ ready
          | false => exact .remissed at_ ready
  | store k d' v' =>
      rw [at_] at inside
      simp only [at_] at taken
      cases k with
      | event => exact inside.elim
      | callback =>
          obtain ⟨rfl, rfl⟩ := inside
          exact Option.some.inj taken ▸ .stores at_
  | unlock d' ready =>
      rw [at_] at inside
      simp only [at_] at taken
      obtain rfl : d' = d := inside
      obtain rfl := Option.some.inj taken
      cases ready with
      | true => exact .unlocks at_
      | false => exact .parks at_
  | currentTick d' =>
      rw [at_] at inside
      simp only [at_] at taken
      obtain rfl : d' = d := inside
      exact Option.some.inj taken ▸ .loads at_
  | storeTick d' tick =>
      rw [at_] at inside
      simp only [at_] at taken
      obtain rfl : d' = d := inside
      exact Option.some.inj taken ▸ .leaves tick at_
  | outside | allocate | clear | polled | shut =>
      rw [at_] at inside
      exact inside.elim

/-! ## The bits of the reader alone -/

/-- The word has a bit that no writer clears. -/
def heard (word : BitVec 64) : Bool :=
  word &&& (Ready.readable ||| Ready.readClosed) != 0

theorem heard_iff : heard word = true ↔ word.getLsbD 0 = true ∨ word.getLsbD 2 = true := by
  unfold heard
  rw [bne_iff_ne, and_ne_zero_iff]
  constructor
  · rintro ⟨i, bit, masked⟩
    have low : i = 0 ∨ i = 2 := by
      by_contra other
      have bits : (Ready.readable ||| Ready.readClosed).getLsbD i = decide (i = 0 ∨ i = 2) := by
        have inWord : ∀ j : Fin 64, (Ready.readable ||| Ready.readClosed).getLsbD j =
            decide (j.val = 0 ∨ j.val = 2) := by decide
        by_cases below : i < 64
        · exact inWord ⟨i, below⟩
        · rw [BitVec.getLsbD_of_ge _ _ (by omega)]
          exact (decide_eq_false other).symm
      rw [bits, decide_eq_false other] at masked
      cases masked
    rcases low with rfl | rfl
    · exact .inl bit
    · exact .inr bit
  · rintro (bit | bit)
    · exact ⟨0, bit, by decide⟩
    · exact ⟨2, bit, by decide⟩

theorem heard_congr {word' : BitVec 64} (first : word'.getLsbD 0 = word.getLsbD 0)
    (third : word'.getLsbD 2 = word.getLsbD 2) : heard word' = heard word := by
  rw [Bool.eq_iff_iff, heard_iff, heard_iff, first, third]

theorem heard_setReadiness :
    heard (setReadiness word ready) = true ↔ heard word = true ∨ heard ready = true := by
  rw [heard_iff, heard_iff, heard_iff, setReadiness_getLsbD _ _ (by omega),
    setReadiness_getLsbD _ _ (by omega), Bool.or_eq_true, Bool.or_eq_true]
  grind

theorem and_not_getLsbD {mask : BitVec 64} {i : Nat} (inWord : i < 64)
    (unmasked : mask.getLsbD i = false) : (word &&& ~~~mask).getLsbD i = word.getLsbD i := by
  rw [BitVec.getLsbD_and, BitVec.getLsbD_not, unmasked]
  simp [inWord]

/-- Clearing for the writer leaves the bits of the reader. -/
theorem heard_clear_write {tick : BitVec 8} :
    heard (clear word Direction.write.mask tick) = heard word := by
  unfold clear
  split
  · rfl
  · exact heard_congr (and_not_getLsbD (by omega) (by decide))
      (and_not_getLsbD (by omega) (by decide))

theorem heard_consume_write : heard (consume word Direction.write.mask).1 = heard word := by
  unfold consume
  split
  · rfl
  · exact heard_congr (and_not_getLsbD (by omega) (by decide))
      (and_not_getLsbD (by omega) (by decide))

theorem readyOrShut_of_heard (hears : heard word = true) : readyOrShut word .read = true := by
  rw [readyOrShut_iff]
  rcases heard_iff.mp hears with bit | bit
  · exact ⟨0, bit, by decide⟩
  · exact ⟨2, bit, by decide⟩

/-! ## Beside the reader -/

/-- The counters of `arm_w`, `arm_w_cb` and `clear_w`. -/
def Writes : Pc V → Prop
  | .outside => True
  | .fastCheck _ d _ | .allocate d _ | .lock _ d _ | .recheck _ d _ | .store _ d _ | .unlock d _
  | .currentTick d | .storeTick d _ | .clear d _ => d = .write
  | .polled _ | .shut => False

/-- What a step of a writer leaves as it is. -/
structure Aside (t : T) (s s' : State T V) : Prop where
  others : ∀ u, u ≠ t → s'.pc u = s.pc u
  heard : heard s'.readiness = heard s.readiness
  tickOf : tickOf s'.readiness = tickOf s.readiness
  tick : s'.tick .read = s.tick .read
  slot : s'.waiters.readerCb = s.waiters.readerCb

theorem Aside.goto (t : T) (pc : Pc V) {b : State T V} (pcs : b.pc = s.pc)
    (readiness : b.readiness = s.readiness) (tick : b.tick .read = s.tick .read)
    (slot : b.waiters.readerCb = s.waiters.readerCb) : Aside t s (b.goto t pc) where
  others := by
    intro u other
    rw [← pcs]
    exact Function.update_of_ne other ..
  heard := congrArg ScheduledIo.heard readiness
  tickOf := congrArg ScheduledIo.tickOf readiness
  tick := tick
  slot := slot

theorem goto_self (s : State T V) (t : T) (pc : Pc V) : (s.goto t pc).pc t = pc :=
  Function.update_self ..

theorem aside_of_threadStep (writes : Writes (s.pc t)) (taken : threadStep s t = some s') :
    Aside t s s' ∧ Writes (s'.pc t) := by
  have goes : ∀ (pc : Pc V) {b : State T V}, b.pc = s.pc → b.readiness = s.readiness →
      b.tick .read = s.tick .read → b.waiters.readerCb = s.waiters.readerCb → Writes pc →
        Aside t s (b.goto t pc) ∧ Writes ((b.goto t pc).pc t) := by
    intro pc b pcs readiness tick slot still
    refine ⟨.goto t pc pcs readiness tick slot, ?_⟩
    rw [goto_self]
    exact still
  unfold threadStep at taken
  cases at_ : s.pc t with
  | outside => simp [at_] at taken
  | polled | shut =>
      rw [at_] at writes
      exact writes.elim
  | fastCheck k d v =>
      rw [at_] at writes
      simp only [at_] at taken
      obtain rfl : d = .write := writes
      split at taken
      · obtain rfl := Option.some.inj taken
        exact goes _ rfl rfl rfl rfl rfl
      · cases k <;> obtain rfl := Option.some.inj taken <;> exact goes _ rfl rfl rfl rfl rfl
  | allocate d v | currentTick d =>
      rw [at_] at writes
      simp only [at_] at taken
      obtain rfl : d = .write := writes
      obtain rfl := Option.some.inj taken
      exact goes _ rfl rfl rfl rfl rfl
  | lock k d v =>
      rw [at_] at writes
      simp only [at_] at taken
      obtain rfl : d = .write := writes
      split at taken
      · cases taken
      · obtain rfl := Option.some.inj taken
        exact goes _ rfl rfl rfl rfl rfl
  | recheck k d v =>
      rw [at_] at writes
      simp only [at_] at taken
      obtain rfl : d = .write := writes
      obtain rfl := Option.some.inj taken
      refine goes _ rfl rfl rfl rfl ?_
      split <;> rfl
  | store k d v =>
      rw [at_] at writes
      simp only [at_] at taken
      obtain rfl : d = .write := writes
      obtain rfl := Option.some.inj taken
      cases k <;> exact goes _ rfl rfl rfl rfl rfl
  | unlock d ready =>
      rw [at_] at writes
      simp only [at_] at taken
      obtain rfl : d = .write := writes
      obtain rfl := Option.some.inj taken
      refine goes _ rfl rfl rfl rfl ?_
      split
      · rfl
      · trivial
  | storeTick d tick =>
      rw [at_] at writes
      simp only [at_] at taken
      obtain rfl : d = .write := writes
      obtain rfl := Option.some.inj taken
      have same : Function.update s.tick .write tick .read = s.tick .read :=
        Function.update_of_ne (fun no => Direction.noConfusion no) ..
      exact goes .outside rfl rfl same rfl trivial
  | clear d tick =>
      rw [at_] at writes
      simp only [at_] at taken
      obtain rfl : d = .write := writes
      obtain rfl := Option.some.inj taken
      refine ⟨⟨?_, heard_clear_write, tickOf_clear _ _ _, rfl, rfl⟩, ?_⟩
      · exact fun u other => Function.update_of_ne other ..
      · rw [goto_self]
        trivial

end MtAsyncio.ScheduledIo
