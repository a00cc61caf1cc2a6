/-
Module: MtAsyncio.Proofs.ReadinessHandshake
Purpose: The readiness handshake loses no wake-up.  A slot that is filled while
  its direction is ready, or shut down, is one that a wake already under way
  will take; nothing stored is handed out twice; and `set_readiness` keeps
  every bit but the tick.
Trusted boundary: none
Main exports: Pending, Sound, sound_step, handshake_loses_no_wake
-/
import Mathlib.Data.List.Nodup
import Mathlib.Data.List.Perm.Basic
import MtAsyncio.Model.ScheduledIo

namespace MtAsyncio.ScheduledIo

open Lib (Machine)

variable {T V : Type} [DecidableEq T] {poller : T} {s s' : State T V}

/-! ## Bits -/

theorem and_ne_zero_iff {w : Nat} {x m : BitVec w} :
    x &&& m ≠ 0 ↔ ∃ i, x.getLsbD i = true ∧ m.getLsbD i = true := by
  constructor
  · intro meets
    by_contra apart
    refine meets (BitVec.eq_of_getLsbD_eq fun i _ => ?_)
    have apartAt := not_exists.mp apart i
    simp only [BitVec.getLsbD_and, BitVec.ofNat_eq_ofNat, BitVec.getLsbD_zero,
      Bool.and_eq_false_iff]
    grind
  · rintro ⟨i, left, right⟩ zero
    have bit := congrArg (fun y => y.getLsbD i) zero
    simp [left, right] at bit

theorem tickMask_getLsbD (i : Nat) : Ready.tickMask.getLsbD i = decide (6 ≤ i ∧ i < 14) := by
  by_cases small : i < 64
  · have bits : ∀ i < 64, Ready.tickMask.getLsbD i = decide (6 ≤ i ∧ i < 14) := by decide
    exact bits i small
  · rw [BitVec.getLsbD_of_ge _ _ (by omega)]
    exact (decide_eq_false (by omega)).symm

/-- The bits that `arm` tests are below the tick. -/
theorem getLsbD_tested {d : Direction} {i : Nat}
    (bit : (d.mask ||| Ready.shutdown).getLsbD i = true) : i < 6 := by
  have small := BitVec.lt_of_getLsbD bit
  have bits : ∀ i < 64, (d.mask ||| Ready.shutdown).getLsbD i = true → i < 6 := by
    cases d <;> decide
  exact bits i small bit

theorem setReadiness_getLsbD (word ready : BitVec 64) {i : Nat} (other : ¬(6 ≤ i ∧ i < 14)) :
    (setReadiness word ready).getLsbD i = (word.getLsbD i || ready.getLsbD i) := by
  have noTick : ((tickOf word + 1).setWidth 64 <<< Ready.tickShift).getLsbD i = false := by
    simp only [BitVec.getLsbD_shiftLeft, BitVec.getLsbD_setWidth, Ready.tickShift]
    by_cases below : i < 6
    · simp [below]
    · rw [BitVec.getLsbD_of_ge (tickOf word + 1) (i - 6) (by omega)]
      simp
  have inWord : ∀ {x : BitVec 64}, x.getLsbD i = true → i < 64 := BitVec.lt_of_getLsbD
  simp only [setReadiness, BitVec.getLsbD_or, BitVec.getLsbD_and, BitVec.getLsbD_not, noTick,
    tickMask_getLsbD, decide_eq_false other, Bool.false_or]
  cases bit : word.getLsbD i with
  | false => simp
  | true => simp [inWord bit]

theorem readyOrShut_iff {word : BitVec 64} {d : Direction} :
    readyOrShut word d = true ↔
      ∃ i, word.getLsbD i = true ∧ (d.mask ||| Ready.shutdown).getLsbD i = true := by
  simp only [readyOrShut, bne_iff_ne]
  exact and_ne_zero_iff

/-- Clearing bits makes no direction ready. -/
theorem readyOrShut_of_and {word kept : BitVec 64} {d : Direction}
    (ready : readyOrShut (word &&& kept) d = true) : readyOrShut word d = true := by
  obtain ⟨i, bit, tested⟩ := readyOrShut_iff.mp ready
  rw [BitVec.getLsbD_and, Bool.and_eq_true] at bit
  exact readyOrShut_iff.mpr ⟨i, bit.1, tested⟩

theorem readyOrShut_of_clear {word : BitVec 64} {mask : BitVec 64} {tick : BitVec 8}
    {d : Direction} (ready : readyOrShut (clear word mask tick) d = true) :
    readyOrShut word d = true := by
  unfold clear at ready
  split at ready
  · exact ready
  · exact readyOrShut_of_and ready

theorem readyOrShut_of_consume {word mask : BitVec 64} {d : Direction}
    (ready : readyOrShut (consume word mask).1 d = true) : readyOrShut word d = true := by
  unfold consume at ready
  split at ready
  · exact ready
  · exact readyOrShut_of_and ready

theorem readinessFromEvent_not_shutdown (event : PollEvent) :
    (readinessFromEvent event) &&& Ready.shutdown = 0 := by
  obtain ⟨readable, writable, readClosed, writeClosed, error⟩ := event
  cases readable <;> cases writable <;> cases readClosed <;> cases writeClosed <;>
    cases error <;> decide

/-- A direction that `set_readiness` makes ready is one of the event's. -/
theorem readyOrShut_of_setReadiness {word : BitVec 64} {event : PollEvent} {d : Direction}
    (ready : readyOrShut (setReadiness word (readinessFromEvent event)) d = true) :
    readyOrShut word d = true ∨ readinessFromEvent event &&& d.mask ≠ 0 := by
  obtain ⟨i, bit, tested⟩ := readyOrShut_iff.mp ready
  have below := getLsbD_tested tested
  rw [setReadiness_getLsbD _ _ (by omega), Bool.or_eq_true] at bit
  rcases bit with bit | bit
  · exact .inl (readyOrShut_iff.mpr ⟨i, bit, tested⟩)
  · refine .inr (and_ne_zero_iff.mpr ⟨i, bit, ?_⟩)
    rw [BitVec.getLsbD_or, Bool.or_eq_true] at tested
    refine tested.resolve_right fun shut => ?_
    exact and_ne_zero_iff.mpr ⟨i, bit, shut⟩ (readinessFromEvent_not_shutdown event)

/-! ## Slots -/

namespace Waiters

theorem slot_put (slots : Waiters V) (x : Stored V) (k k' : Kind) (d d' : Direction) :
    (slots.put x k d).slot k' d' =
      if k' = k ∧ d' = d then some x else slots.slot k' d' := by
  cases k <;> cases d <;> cases k' <;> cases d' <;> rfl

/-- A store adds the stored value and drops what the slot held. -/
theorem members_put (slots : Waiters V) (x : Stored V) (k : Kind) (d : Direction) :
    (slots.put x k d).members.Subperm (x :: slots.members) := by
  have middle : ∀ before dropped after : List (Stored V),
      (before ++ x :: after).Subperm (x :: (before ++ dropped ++ after)) := by
    intro before dropped after
    refine List.perm_middle.subperm.trans (List.Sublist.subperm ?_)
    rw [List.append_assoc]
    exact (((List.sublist_append_right dropped after).append_left before)).cons_cons x
  cases k <;> cases d <;> simp only [put, members, Option.toList_some]
  · simpa using middle [] slots.reader.toList (slots.readerCb.toList ++
      (slots.writer.toList ++ slots.writerCb.toList))
  · simpa using middle (slots.reader.toList ++ slots.readerCb.toList) slots.writer.toList
      slots.writerCb.toList
  · simpa using middle slots.reader.toList slots.readerCb.toList
      (slots.writer.toList ++ slots.writerCb.toList)
  · simpa using middle (slots.reader.toList ++ (slots.readerCb.toList ++ slots.writer.toList))
      slots.writerCb.toList []

end Waiters

theorem slot_wake (slots : Waiters V) (ready : BitVec 64) (k : Kind) (d : Direction) :
    (wake slots ready).2.slot k d =
      if ready &&& d.mask != 0 then none else slots.slot k d := by
  cases k <;> cases d <;> rfl

/-- A wake hands out some of what was stored and leaves the rest. -/
theorem members_wake (slots : Waiters V) (ready : BitVec 64) :
    ((wake slots ready).1.members ++ (wake slots ready).2.members).Perm slots.members := by
  unfold wake Waiters.members
  cases ready &&& Ready.readAll != 0 <;> cases ready &&& Ready.writeAll != 0 <;>
    simp only [if_true, if_false, Bool.false_eq_true, Option.toList_none, List.nil_append,
      List.append_nil, List.Perm.refl]
  exact List.perm_append_comm

/-! ## The invariant -/

/-- The program counters between taking the mutex and dropping the guard. -/
def Pc.locked : Pc V → Bool
  | .recheck _ _ _ | .store _ _ _ | .unlock _ _ => true
  | _ => false

/-- The program counters between an update of the word and its wake. -/
def Pc.waking : Pc V → Bool
  | .polled _ | .shut => true
  | _ => false

def Pc.storing : Pc V → Bool
  | .store _ _ _ => true
  | _ => false

/-- The poll thread, or a shutdown, is between its update of the word and its
wake, and that wake takes the slots of `d`. -/
def Pending (poller : T) (s : State T V) (d : Direction) : Prop :=
  (∃ ready, s.pc poller = .polled ready ∧ ready &&& d.mask ≠ 0) ∨ ∃ t, s.pc t = .shut

/-- A slot is exposed from the check under the lock that lets a thread fill it
until a wake takes it. -/
def Exposed (s : State T V) (k : Kind) (d : Direction) : Prop :=
  (s.waiters.slot k d).isSome = true ∨ ∃ t v, s.pc t = .store k d v

/-- Everything handed out so far or still stored. -/
def State.known (s : State T V) : List (Stored V) :=
  s.woken.flatMap Waiters.members ++ s.waiters.members

structure Sound (poller : T) (s : State T V) : Prop where
  owner : ∀ t, (s.pc t).locked = true ↔ s.mutex = some t
  onePoller : ∀ t ready, s.pc t = .polled ready → t = poller
  covered : ∀ k d, Exposed s k d → readyOrShut s.readiness d = true → Pending poller s d
  stamps : (s.known.map Stored.stamp).Nodup
  numbered : ∀ x ∈ s.known, x.stamp < s.stores

omit [DecidableEq T] in
theorem Sound.outside_of_free (sound : Sound poller s) (free : s.mutex = none) (t : T) :
    (s.pc t).locked = false := by
  rw [← Bool.not_eq_true, sound.owner, free]
  simp

omit [DecidableEq T] in
/-- What is known after a store of `v`. -/
theorem known_store (s : State T V) {k : Kind} {d : Direction} {v : V} :
    (s.woken.flatMap Waiters.members ++ (s.waiters.put ⟨s.stores, v⟩ k d).members).Subperm
      (⟨s.stores, v⟩ :: s.known) := by
  refine ((List.subperm_append_left _).mpr (Waiters.members_put s.waiters _ k d)).trans ?_
  exact List.perm_middle.subperm

theorem known_wake (s : State T V) (t : T) (ready : BitVec 64) :
    (s.wakeWith t ready).known.Perm s.known := by
  have split := (members_wake s.waiters ready).append_left (s.woken.flatMap Waiters.members)
  refine List.Perm.trans ?_ split
  simp only [State.known, State.wakeWith, State.goto, List.flatMap_cons, List.append_assoc]
  exact List.perm_append_comm_assoc _ _ _

omit [DecidableEq T] in
/-- A fresh stamp keeps the stamps apart. -/
theorem Sound.stored (sound : Sound poller s) {v : V} {known : List (Stored V)}
    (grown : known.Subperm (⟨s.stores, v⟩ :: s.known)) :
    (known.map Stored.stamp).Nodup ∧ ∀ x ∈ known, x.stamp < s.stores + 1 := by
  constructor
  · obtain ⟨l, perm, sub⟩ := grown
    refine ((perm.map Stored.stamp).nodup_iff).mp ((sub.map Stored.stamp).nodup ?_)
    rw [List.map_cons, List.nodup_cons]
    refine ⟨fun member => ?_, sound.stamps⟩
    obtain ⟨x, isKnown, same⟩ := List.mem_map.mp member
    exact absurd (sound.numbered x isKnown) (by simp [same])
  · intro x member
    rcases List.mem_cons.mp (grown.subset member) with rfl | isKnown
    · exact Nat.lt_succ_self _
    · exact Nat.lt_succ_of_lt (sound.numbered x isKnown)

/-! ### What a move of one thread keeps -/

section Goto

variable {t : T} {pc : Pc V}

theorem goto_owner (owner : ∀ u, (s.pc u).locked = true ↔ s.mutex = some u)
    (same : pc.locked = (s.pc t).locked) (u : T) :
    ((s.goto t pc).pc u).locked = true ↔ s.mutex = some u := by
  rw [← owner u]
  by_cases isT : u = t
  · subst isT
    simp only [State.goto, Function.update_self, same]
  · simp only [State.goto, Function.update_of_ne isT]

theorem goto_onePoller (onePoller : ∀ u ready, s.pc u = .polled ready → u = poller)
    (mine : ∀ ready, pc = .polled ready → t = poller) (u : T) (ready : BitVec 64)
    (polled : (s.goto t pc).pc u = .polled ready) : u = poller := by
  by_cases isT : u = t
  · subst isT
    simp only [State.goto, Function.update_self] at polled
    exact mine ready polled
  · simp only [State.goto, Function.update_of_ne isT] at polled
    exact onePoller u ready polled

/-- A thread that was not waking takes no pending wake along. -/
theorem Pending.goto {d : Direction} (quiet : (s.pc t).waking = false)
    (pending : Pending poller s d) : Pending poller (s.goto t pc) d := by
  have kept : ∀ u, (s.pc u).waking = true → (s.goto t pc).pc u = s.pc u := by
    intro u waking
    have apart : u ≠ t := by
      rintro rfl
      rw [quiet] at waking
      cases waking
    simp [State.goto, apart]
  rcases pending with ⟨ready, polled, takes⟩ | ⟨u, shut⟩
  · exact .inl ⟨ready, (kept poller (by rw [polled]; rfl)).trans polled, takes⟩
  · exact .inr ⟨u, (kept u (by rw [shut]; rfl)).trans shut⟩

theorem Exposed.of_goto {k : Kind} {d : Direction} (notStoring : pc.storing = false)
    (exposed : Exposed (s.goto t pc) k d) : Exposed s k d := by
  rcases exposed with filled | ⟨u, v, storing⟩
  · exact .inl filled
  · by_cases isT : u = t
    · subst isT
      simp only [State.goto, Function.update_self] at storing
      subst storing
      cases notStoring
    · simp only [State.goto, Function.update_of_ne isT] at storing
      exact .inr ⟨u, v, storing⟩

/-- A thread that neither wakes nor fills a slot nor uses the mutex keeps the
invariant; it may clear bits of the word. -/
theorem Sound.goto (sound : Sound poller s) {readiness : BitVec 64}
    {tick : Direction → BitVec 8}
    (less : ∀ d, readyOrShut readiness d = true → readyOrShut s.readiness d = true)
    (same : pc.locked = (s.pc t).locked) (wasQuiet : (s.pc t).waking = false)
    (quiet : pc.waking = false) (notStoring : pc.storing = false) :
    Sound poller ({ s with readiness := readiness, tick := tick }.goto t pc) where
  owner := goto_owner (s := { s with readiness := readiness, tick := tick }) sound.owner same
  onePoller := by
    refine goto_onePoller (s := { s with readiness := readiness, tick := tick })
      sound.onePoller ?_
    rintro ready rfl
    cases quiet
  covered := by
    intro k d exposed ready
    have before := sound.covered k d (exposed.of_goto notStoring) (less d ready)
    exact Pending.goto (s := { s with readiness := readiness, tick := tick }) wasQuiet before
  stamps := sound.stamps
  numbered := sound.numbered

end Goto

/-! ### The steps with an argument of their own -/

section Steps

variable {t : T} {k : Kind} {d : Direction} {v : V}

theorem sound_lock (sound : Sound poller s) (at_ : s.pc t = .lock k d v) (free : s.mutex = none) :
    Sound poller ({ s with mutex := some t }.goto t (.recheck k d v)) where
  owner := by
    intro u
    by_cases isT : u = t
    · subst isT
      simp [State.goto, Pc.locked]
    · have outside := sound.outside_of_free free u
      simp [State.goto, isT, outside, Ne.symm isT]
  onePoller := goto_onePoller (s := { s with mutex := some t }) sound.onePoller (by simp)
  covered := by
    intro k' d' exposed ready
    have before := sound.covered k' d' (exposed.of_goto rfl) ready
    exact Pending.goto (s := { s with mutex := some t }) (by rw [at_]; rfl) before
  stamps := sound.stamps
  numbered := sound.numbered

theorem sound_unlock (sound : Sound poller s) {ready : Bool} {pc : Pc V}
    (at_ : s.pc t = .unlock d ready) (unlocked : pc.locked = false) (quiet : pc.waking = false) :
    Sound poller ({ s with mutex := none }.goto t pc) where
  owner := by
    intro u
    have mine : s.mutex = some t := (sound.owner t).mp (by rw [at_]; rfl)
    by_cases isT : u = t
    · subst isT
      simp [State.goto, unlocked]
    · have other : ¬(s.pc u).locked = true := by
        rw [sound.owner u, mine]
        simpa using Ne.symm isT
      simp [State.goto, isT, other]
  onePoller := by
    refine goto_onePoller (s := { s with mutex := none }) sound.onePoller ?_
    rintro ready rfl
    cases quiet
  covered := by
    intro k' d' exposed isReady
    have notStoring : pc.storing = false := by cases pc <;> first | rfl | cases unlocked
    have before := sound.covered k' d' (exposed.of_goto notStoring) isReady
    exact Pending.goto (s := { s with mutex := none }) (by rw [at_]; rfl) before
  stamps := sound.stamps
  numbered := sound.numbered

/-- The check under the lock: the slot becomes exposed while the direction is
not ready. -/
theorem sound_recheck (sound : Sound poller s) (at_ : s.pc t = .recheck k d v)
    (notReady : readyOrShut s.readiness d = false) : Sound poller (s.goto t (.store k d v)) where
  owner := goto_owner sound.owner (by rw [at_]; rfl)
  onePoller := goto_onePoller sound.onePoller (by simp)
  covered := by
    intro k' d' exposed ready
    have other : d' ≠ d := by
      rintro rfl
      rw [show readyOrShut s.readiness d' = true from ready] at notReady
      cases notReady
    have before : Exposed s k' d' := by
      rcases exposed with filled | ⟨u, v', storing⟩
      · exact .inl filled
      · by_cases isT : u = t
        · subst isT
          simp only [State.goto, Function.update_self, Pc.store.injEq] at storing
          exact absurd storing.2.1.symm other
        · simp only [State.goto, Function.update_of_ne isT] at storing
          exact .inr ⟨u, v', storing⟩
    exact (sound.covered k' d' before ready).goto (by rw [at_]; rfl)
  stamps := sound.stamps
  numbered := sound.numbered

/-- The store: the slot was exposed before. -/
theorem sound_store (sound : Sound poller s) (at_ : s.pc t = .store k d v) :
    Sound poller ({ s with
      waiters := s.waiters.put ⟨s.stores, v⟩ k d
      stores := s.stores + 1 }.goto t (.unlock d false)) where
  owner := goto_owner (s := { s with
    waiters := s.waiters.put ⟨s.stores, v⟩ k d
    stores := s.stores + 1 }) sound.owner (by rw [at_]; rfl)
  onePoller := goto_onePoller (s := { s with
    waiters := s.waiters.put ⟨s.stores, v⟩ k d
    stores := s.stores + 1 }) sound.onePoller (by simp)
  covered := by
    intro k' d' exposed ready
    have before : Exposed s k' d' := by
      rcases exposed.of_goto rfl with filled | storing
      · simp only [Waiters.slot_put] at filled
        split at filled
        · rename_i same
          exact .inr ⟨t, v, by rw [at_, same.1, same.2]⟩
        · exact .inl filled
      · exact .inr storing
    have pending := sound.covered k' d' before ready
    exact Pending.goto (s := { s with
      waiters := s.waiters.put ⟨s.stores, v⟩ k d
      stores := s.stores + 1 }) (by rw [at_]; rfl) pending
  stamps := (sound.stored (known_store s)).1
  numbered := (sound.stored (known_store s)).2

/-- A wake takes the slots it was pending for; what it leaves was covered by
another one. -/
theorem sound_wake (sound : Sound poller s) {ready : BitVec 64} (free : s.mutex = none)
    (at_ : s.pc t = .polled ready ∨
      s.pc t = .shut ∧ ready = Ready.readAll ||| Ready.writeAll) :
    Sound poller (s.wakeWith t ready) where
  owner := by
    refine goto_owner (s := { s with
      waiters := (wake s.waiters ready).2
      woken := (wake s.waiters ready).1 :: s.woken }) sound.owner ?_
    exact (sound.outside_of_free free t).symm
  onePoller := goto_onePoller (s := { s with
    waiters := (wake s.waiters ready).2
    woken := (wake s.waiters ready).1 :: s.woken }) sound.onePoller (by simp)
  covered := by
    intro k d exposed isReady
    have notStoring : ¬∃ u v, s.pc u = .store k d v := by
      rintro ⟨u, v, storing⟩
      have outside := sound.outside_of_free free u
      rw [storing] at outside
      cases outside
    have left : ready &&& d.mask = 0 ∧ (s.waiters.slot k d).isSome = true := by
      have filled := (exposed.of_goto rfl).resolve_right notStoring
      change ((wake s.waiters ready).2.slot k d).isSome = true at filled
      rw [slot_wake] at filled
      split at filled
      · cases filled
      · rename_i untaken
        exact ⟨by simpa using untaken, filled⟩
    have pending := sound.covered k d (.inl left.2) isReady
    -- the thread that wakes here is not the one the slot was pending for
    have other : ∀ u, s.pc u = .shut ∨ (∃ ready, s.pc u = .polled ready ∧ ready &&& d.mask ≠ 0) →
        u ≠ t := by
      rintro u waits rfl
      rcases at_ with polled | ⟨shut, rfl⟩
      · rcases waits with shut | ⟨ready', polled', takes⟩
        · rw [polled] at shut
          cases shut
        · rw [polled] at polled'
          cases polled'
          exact takes left.1
      · have takes : (Ready.readAll ||| Ready.writeAll) &&& d.mask ≠ 0 := by
          cases d <;> decide
        exact takes left.1
    rcases pending with ⟨ready', polled, takes⟩ | ⟨u, shut⟩
    · refine .inl ⟨ready', ?_, takes⟩
      have apart := other poller (.inr ⟨ready', polled, takes⟩)
      simpa [State.wakeWith, State.goto, apart] using polled
    · refine .inr ⟨u, ?_⟩
      have apart := other u (.inl shut)
      simpa [State.wakeWith, State.goto, apart] using shut
  stamps := by
    have same := known_wake s t ready
    exact ((same.map Stored.stamp).nodup_iff).mpr sound.stamps
  numbered := by
    intro x member
    exact sound.numbered x ((known_wake s t ready).mem_iff.mp member)

theorem sound_poll (sound : Sound poller s) {event : PollEvent} (at_ : s.pc poller = .outside) :
    Sound poller ({ s with
      readiness := setReadiness s.readiness (readinessFromEvent event) }.goto poller
        (.polled (readinessFromEvent event))) where
  owner := goto_owner (s := { s with
    readiness := setReadiness s.readiness (readinessFromEvent event) }) sound.owner
      (by rw [at_]; rfl)
  onePoller := goto_onePoller (s := { s with
    readiness := setReadiness s.readiness (readinessFromEvent event) }) sound.onePoller
      fun _ _ => rfl
  covered := by
    intro k d exposed ready
    rcases readyOrShut_of_setReadiness ready with before | takes
    · have pending := sound.covered k d (exposed.of_goto rfl) before
      exact Pending.goto (s := { s with
        readiness := setReadiness s.readiness (readinessFromEvent event) })
          (by rw [at_]; rfl) pending
    · exact .inl ⟨_, by simp [State.goto], takes⟩
  stamps := sound.stamps
  numbered := sound.numbered

theorem sound_shutdown (sound : Sound poller s) (at_ : s.pc t = .outside) :
    Sound poller
      ({ s with readiness := s.readiness ||| Ready.shutdown }.goto t .shut) where
  owner := goto_owner (s := { s with readiness := s.readiness ||| Ready.shutdown }) sound.owner
    (by rw [at_]; rfl)
  onePoller := goto_onePoller (s := { s with readiness := s.readiness ||| Ready.shutdown })
    sound.onePoller (by simp)
  covered := fun _ _ _ _ => .inr ⟨t, by simp [State.goto]⟩
  stamps := sound.stamps
  numbered := sound.numbered

end Steps

/-! ### Runs -/

theorem sound_threadStep (sound : Sound poller s) {t : T} (taken : threadStep s t = some s') :
    Sound poller s' := by
  unfold threadStep at taken
  cases at_ : s.pc t with
  | outside => simp [at_] at taken
  | fastCheck k d v =>
      simp only [at_] at taken
      split at taken
      · cases taken
        exact sound.goto (fun _ => id) (by rw [at_]; rfl) (by rw [at_]; rfl) rfl rfl
      · cases k <;> cases taken <;>
          exact sound.goto (fun _ => id) (by rw [at_]; rfl) (by rw [at_]; rfl) rfl rfl
  | allocate d v =>
      simp only [at_] at taken
      cases taken
      exact sound.goto (fun _ => id) (by rw [at_]; rfl) (by rw [at_]; rfl) rfl rfl
  | lock k d v =>
      simp only [at_] at taken
      split at taken
      · cases taken
      · rename_i free
        cases taken
        exact sound_lock sound at_ (by simpa using free)
  | recheck k d v =>
      simp only [at_] at taken
      cases taken
      split
      · exact sound.goto (fun _ => id) (by rw [at_]; rfl) (by rw [at_]; rfl) rfl rfl
      · rename_i notReady
        exact sound_recheck sound at_ (by simpa using notReady)
  | store k d v =>
      simp only [at_] at taken
      cases taken
      exact sound_store sound at_
  | unlock d ready =>
      simp only [at_] at taken
      cases taken
      exact sound_unlock sound at_ (by cases ready <;> rfl) (by cases ready <;> rfl)
  | currentTick d =>
      simp only [at_] at taken
      cases taken
      exact sound.goto (fun _ => id) (by rw [at_]; rfl) (by rw [at_]; rfl) rfl rfl
  | storeTick d tick =>
      simp only [at_] at taken
      cases taken
      exact sound.goto (fun _ => id) (by rw [at_]; rfl) (by rw [at_]; rfl) rfl rfl
  | clear d tick =>
      simp only [at_] at taken
      cases taken
      exact sound.goto (fun _ => readyOrShut_of_clear) (by rw [at_]; rfl) (by rw [at_]; rfl)
        rfl rfl
  | polled ready =>
      simp only [at_] at taken
      split at taken
      · cases taken
      · rename_i free
        cases taken
        exact sound_wake sound (by simpa using free) (.inl at_)
  | shut =>
      simp only [at_] at taken
      split at taken
      · cases taken
      · rename_i free
        cases taken
        exact sound_wake sound (by simpa using free) (.inr ⟨at_, rfl⟩)

theorem sound_step {a : Act T V} (sound : Sound poller s) (taken : step poller s a = some s') :
    Sound poller s' := by
  cases a with
  | thread t => exact sound_threadStep sound taken
  | arm t k d v =>
      simp only [step] at taken
      split at taken
      · rename_i at_
        cases taken
        exact sound.goto (fun _ => id) (by rw [at_]; rfl) (by rw [at_]; rfl) rfl rfl
      · cases taken
  | clear t d =>
      simp only [step] at taken
      split at taken
      · rename_i at_
        cases taken
        exact sound.goto (fun _ => id) (by rw [at_]; rfl) (by rw [at_]; rfl) rfl rfl
      · cases taken
  | consume t d =>
      simp only [step] at taken
      split at taken
      · cases taken
        exact
          { sound with
            covered := fun k d exposed ready =>
              sound.covered k d exposed (readyOrShut_of_consume ready) }
      · cases taken
  | shutdown t =>
      simp only [step] at taken
      split at taken
      · rename_i at_
        cases taken
        exact sound_shutdown sound at_
      · cases taken
  | poll event =>
      simp only [step] at taken
      split at taken
      · rename_i at_
        cases taken
        exact sound_poll sound at_
      · cases taken
  | outOfMemory t =>
      simp only [step] at taken
      split at taken
      · rename_i at_
        cases taken
        exact sound.goto (fun _ => id) (by rw [at_]; rfl) (by rw [at_]; rfl) rfl rfl
      · cases taken

omit [DecidableEq T] in
theorem sound_fresh : Sound poller (fresh : State T V) where
  owner := fun _ => ⟨by rintro ⟨⟩, by rintro ⟨⟩⟩
  onePoller := by rintro _ _ ⟨⟩
  covered := by
    rintro k d (filled | ⟨t, v, storing⟩) _
    · cases k <;> cases d <;> cases filled
    · cases storing
  stamps := .nil
  numbered := by rintro _ ⟨⟩

theorem sound_of_reachable (reached : (machine poller).Reachable s) : Sound poller s :=
  reached.invariant (Sound poller) (fun _ isFresh => isFresh ▸ sound_fresh)
    fun _ _ _ sound _ taken => sound_step sound taken

/-- `set_readiness` writes the tick and adds the event's bits. -/
theorem poll_getLsbD {event : PollEvent} (taken : step poller s (.poll event) = some s') {i : Nat}
    (notTick : ¬(6 ≤ i ∧ i < 14)) :
    s'.readiness.getLsbD i = (s.readiness.getLsbD i || (readinessFromEvent event).getLsbD i) := by
  simp only [step] at taken
  split at taken
  · cases taken
    exact setReadiness_getLsbD _ _ notTick
  · cases taken

/-- In every reachable state a filled slot whose direction is ready, or shut
down, is one that a wake under way will take; nothing that was stored is handed
out twice, and what is still stored has not been handed out; and the poll
thread's update of the word clears no bit but those of the tick. -/
theorem handshake_loses_no_wake (reached : (machine poller).Reachable s) :
    (∀ k d, (s.waiters.slot k d).isSome = true →
      s.readiness &&& (d.mask ||| Ready.shutdown) ≠ 0 → Pending poller s d) ∧
    ((s.woken.flatMap Waiters.members ++ s.waiters.members).map Stored.stamp).Nodup ∧
    ∀ event s', step poller s (.poll event) = some s' → ∀ i, ¬(6 ≤ i ∧ i < 14) →
      s.readiness.getLsbD i = true → s'.readiness.getLsbD i = true := by
  have sound := sound_of_reachable reached
  refine ⟨fun k d filled ready => ?_, sound.stamps, ?_⟩
  · exact sound.covered k d (.inl filled) (bne_iff_ne.mpr ready)
  · intro event s' taken i notTick bit
    rw [poll_getLsbD taken notTick, bit, Bool.true_or]

/-- A callback is stored for reading, then the fd becomes readable. -/
def armThenPoll : List (Act Nat Unit) :=
  [.arm 1 .callback .read (), .thread 1, .thread 1, .thread 1, .thread 1, .thread 1,
    .poll ⟨true, false, false, false, false⟩]

theorem armThenPoll_ends :
    ((machine 0).exec (fresh : State Nat Unit) armThenPoll).any (fun s =>
      (s.waiters.slot .callback .read).isSome ∧
        s.readiness &&& (Direction.read.mask ||| Ready.shutdown) ≠ 0) = true := by
  decide +kernel

theorem handshake_loses_no_wake_after_poll :
    ∃ s : State Nat Unit, (s.waiters.slot .callback .read).isSome = true ∧
      s.readiness &&& (Direction.read.mask ||| Ready.shutdown) ≠ 0 ∧
      Pending 0 s .read := by
  obtain ⟨s, reached, ends⟩ := Machine.Reachable.exists_of_exec rfl armThenPoll_ends
  obtain ⟨filled, ready⟩ := of_decide_eq_true ends
  exact ⟨s, filled, ready, (handshake_loses_no_wake reached).1 .callback .read filled ready⟩

end MtAsyncio.ScheduledIo
