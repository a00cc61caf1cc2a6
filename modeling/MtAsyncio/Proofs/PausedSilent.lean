/-
Module: MtAsyncio.Proofs.PausedSilent
Purpose: Whether data is delivered while reading is paused: not as long as every
  `pause_reading` returns while no read is on its way.
Trusted boundary: none
Main exports: Move, move_of_step, Sane, OnItsWay, Alone, Still, silent_while_paused,
  late_of_passed
-/
import MtAsyncio.Model.PausedReads

namespace MtAsyncio.PausedReads

open Lib (Machine)
open Transports (Received maxReadDefer)

variable {T K : Type} [DecidableEq T]
variable {s s' b : State T K} {a : Act T K} {t u : T} {k : Call} {c : Ctx} {h : Nat} {pc : Pc}

/-! ## What a step can do -/

def Ctx.inside : Ctx → Bool
  | .outside => false
  | .callback | .entry | .startup => true

/-- The steps of a thread that change nothing but where it stands. -/
inductive Flow (s : State T K) (t : T) : Pc → Prop where
  | calls {k : Call} {c : Ctx} (at_ : s.pc t = .at_ c) (isCall : k = .pause ∨ k = .close) :
      Flow s t (.lock k c)
  | made (at_ : s.pc t = .at_ .startup) : Flow s t (.body .startup .outside)
  | dispatched {h : Nat} (at_ : s.pc t = .at_ .outside) (old : h < s.made) : Flow s t (.dispatch h)
  | active {h : Nat} (at_ : s.pc t = .dispatch h) : Flow s t (.run h)
  | inactive {h : Nat} (at_ : s.pc t = .dispatch h) : Flow s t (.at_ .outside)
  | snapshot {h : Nat} {cb : Bool} (at_ : s.pc t = .run h) : Flow s t (.snapshot h cb)
  | dropped {h : Nat} {cb : Bool} (at_ : s.pc t = .snapshot h cb) : Flow s t (.at_ .outside)
  | runs {h : Nat} {cb : Bool} (at_ : s.pc t = .snapshot h cb) (alive : s.cancelled h = false) :
      Flow s t .testing
  | nested {k : Call} {c : Ctx} (at_ : s.pc t = .lock k c) (inside : c.inside = true) :
      Flow s t (k.entered c)
  | skips {k : Call} {c : Ctx} (at_ : s.pc t = .body k c)
      (tested : k = .pause → s.closing = true ∨ s.paused = true) : Flow s t (.leave k c)
  | starts {c : Ctx} (at_ : s.pc t = .body .startup c) (isOpen : s.closing = false)
      (reads : s.paused = false) : Flow s t (.add .startup c)
  | noReader {k : Call} {c : Ctx} (at_ : s.pc t = .remove k c) (none_ : s.reader = none) :
      Flow s t (.leave k c)
  | leaves {k : Call} {c : Ctx} (at_ : s.pc t = .leave k c) (inside : c.inside = true)
      (isCall : k ≠ .pause) : Flow s t (.at_ c)
  | ended (at_ : s.pc t = .reading) : Flow s t (.at_ .callback)

inductive Move (s : State T K) (a : Act T K) : State T K → Prop where
  | flow {t : T} {pc : Pc} (flow : Flow s t pc) : Move s a (s.goto t pc)
  | start {t : T} (at_ : s.pc t = .at_ .outside) :
      Move s a ({ s with started := true }.goto t (.lock .startup .outside))
  | resume {t : T} {c : Ctx} (at_ : s.pc t = .at_ c) :
      Move s a ({ s with quiet := false }.goto t (.lock .resume c))
  | enter {t : T} (at_ : s.pc t = .at_ .outside) (free : s.lock = none) :
      Move s a ({ s with lock := some t }.goto t (.at_ .entry))
  | exit {t : T} {c : Ctx} (at_ : s.pc t = .at_ c) (inside : c.inside = true) :
      Move s a (s.release t)
  | runQueued {t : T} (at_ : s.pc t = .at_ .outside) (queued : 0 < s.queued) :
      Move s a ({ s with queued := s.queued - 1 }.goto t .testing)
  | defers {t : T} {now : Nat} {since : Option Nat} (at_ : s.pc t = .testing) :
      Move s a ({ s with now := now, readDeferSince := since, readDeferred := true }.goto t
        (.at_ .outside))
  | passes {t : T} {now : Nat} (at_ : s.pc t = .testing) :
      Move s a ({ s with now := now, readDeferSince := none, readDeferred := false }.goto t
        .locking)
  | locks {t : T} (at_ : s.pc t = .locking) (free : s.lock = none) :
      Move s a ({ s with lock := some t }.goto t .reading)
  | delivers {t : T} (at_ : s.pc t = .reading) (isOpen : s.connLost = false) :
      Move s a ({ s with late := s.late || s.quiet }.goto t (.at_ .callback))
  | reads {t : T} (at_ : s.pc t = .reading) : Move s a (s.release t)
  | acquires {t : T} {k : Call} (at_ : s.pc t = .lock k .outside) (free : s.lock = none) :
      Move s a ({ s with lock := some t }.goto t (k.entered .outside))
  | pauses {t : T} {c : Ctx} (at_ : s.pc t = .body .pause c) :
      Move s a ({ s with paused := true }.goto t (.remove .pause c))
  | unpauses {t : T} {c : Ctx} (at_ : s.pc t = .body .resume c) (isOpen : s.closing = false) :
      Move s a ({ s with paused := false }.goto t (.add .resume c))
  | closes {t : T} {c : Ctx} (at_ : s.pc t = .body .close c) :
      Move s a ({ s with closing := true }.goto t (.remove .close c))
  | removes {t : T} {k : Call} {c : Ctx} {h : Nat} (at_ : s.pc t = .remove k c)
      (reader : s.reader = some h) : Move s a ({ s with reader := none }.goto t (.deactivate k c h))
  | adds {t : T} {k : Call} {c : Ctx} (at_ : s.pc t = .add k c) : Move s a (addReader s t k c)
  | deactivates {t : T} {k : Call} {c : Ctx} {h : Nat} (at_ : s.pc t = .deactivate k c h) :
      Move s a ({ s with active := Function.update s.active h false }.goto t (.cancel k c h))
  | cancels {t : T} {k : Call} {c : Ctx} {h : Nat} (at_ : s.pc t = .cancel k c h) :
      Move s a ({ s with cancelled := Function.update s.cancelled h true }.goto t (.forget k c h))
  | forgets {t : T} {k : Call} {c : Ctx} {h : Nat} (at_ : s.pc t = .forget k c h) :
      Move s a ({ s with cb := Function.update s.cb h false }.goto t (.leave k c))
  | returns {t : T} {k : Call} (at_ : s.pc t = .leave k .outside) (isThread : a = .thread t) :
      Move s a ({ s with quiet := s.quiet || k = Call.pause }.release t)
  | paused {t : T} {c : Ctx} (at_ : s.pc t = .leave .pause c) (isThread : a = .thread t)
      (inside : c.inside = true) : Move s a ({ s with quiet := true }.goto t (.at_ c))
  | requeues {t : T} (at_ : s.pc t = .requeue) :
      Move s a ({ s with queued := if s.closing then s.queued else s.queued + 1 }.goto t
        (.at_ .outside))
  | claims {l : List K} : Move s a { s with claims := l }
  | hands {t : T} {l : List K} (at_ : s.pc t = .at_ .outside) (deferred : s.readDeferred = true) :
      Move s a ({ s with claims := l, readDeferred := false }.goto t .requeue)
  | loses : Move s a { s with connLost := true }

theorem eq_none_of_acquire (taken : s.acquire t pc = some s') :
    s.lock = none ∧ s' = { s with lock := some t }.goto t pc := by
  unfold State.acquire at taken
  split at taken
  · cases taken
  · rename_i free
    exact ⟨Option.not_isSome_iff_eq_none.mp free, (Option.some.inj taken).symm⟩

theorem move_of_body (at_ : s.pc t = .body k c) : Move s a (body s t k c) := by
  cases k with
  | pause =>
      simp only [body]
      split
      · rename_i tested
        exact .flow (.skips at_ fun _ => Bool.or_eq_true_iff.mp tested)
      · exact .pauses at_
  | resume =>
      simp only [body]
      split
      · exact .flow (.skips at_ (by simp))
      · rename_i tested
        exact .unpauses at_ (by simp_all)
  | close =>
      simp only [body]
      split
      · exact .flow (.skips at_ (by simp))
      · exact .closes at_
  | startup =>
      simp only [body]
      split
      · exact .flow (.skips at_ (by simp))
      · rename_i tested
        exact .flow (.starts at_ (by simp_all) (by simp_all))

theorem move_of_removeReader (at_ : s.pc t = .remove k c) : Move s a (removeReader s t k c) := by
  unfold removeReader
  split
  · rename_i reader
    exact .flow (.noReader at_ reader)
  · rename_i reader
    exact .removes at_ reader

theorem move_of_leave (at_ : s.pc t = .leave k c) (isThread : a = .thread t) :
    Move s a (leave s t k c) := by
  have inner : c.inside = true →
      Move s a ({ s with quiet := s.quiet || k = Call.pause }.goto t (.at_ c)) := by
    intro inside
    by_cases isPause : k = .pause
    · subst isPause
      simpa using Move.paused at_ isThread inside
    · simpa [isPause] using Move.flow (Flow.leaves at_ inside isPause)
  cases c with
  | outside => exact .returns at_ isThread
  | callback | entry | startup => exact inner rfl

theorem move_of_threadStep (taken : threadStep s t = some s') : Move s (.thread t) s' := by
  unfold threadStep at taken
  split at taken
  · cases taken
  · cases taken
  · cases taken
  · rename_i at_
    obtain rfl := Option.some.inj taken
    split
    · exact .flow (.active at_)
    · exact .flow (.inactive at_)
  · rename_i at_
    obtain rfl := Option.some.inj taken
    exact .flow (.snapshot at_)
  · rename_i at_
    obtain rfl := Option.some.inj taken
    split
    · exact .flow (.dropped at_)
    · rename_i tested
      exact .flow (.runs at_ (by simp_all))
  · rename_i at_
    obtain ⟨free, rfl⟩ := eq_none_of_acquire taken
    exact .locks at_ free
  · rename_i at_
    obtain ⟨free, rfl⟩ := eq_none_of_acquire taken
    exact .acquires at_ free
  · rename_i c notOutside at_
    obtain rfl := Option.some.inj taken
    refine .flow (.nested at_ ?_)
    cases c with
    | outside => exact absurd rfl notOutside
    | callback | entry | startup => rfl
  · rename_i at_
    obtain rfl := Option.some.inj taken
    exact move_of_body at_
  · rename_i at_
    obtain rfl := Option.some.inj taken
    exact move_of_removeReader at_
  · rename_i at_
    obtain rfl := Option.some.inj taken
    exact .adds at_
  · rename_i at_
    obtain rfl := Option.some.inj taken
    exact .deactivates at_
  · rename_i at_
    obtain rfl := Option.some.inj taken
    exact .cancels at_
  · rename_i at_
    obtain rfl := Option.some.inj taken
    exact .forgets at_
  · rename_i at_
    obtain rfl := Option.some.inj taken
    exact move_of_leave at_ rfl
  · rename_i at_
    obtain rfl := Option.some.inj taken
    exact .requeues at_

theorem move_of_receive {got : Received} (at_ : s.pc t = .reading) :
    Move s a (receive s t got) := by
  unfold receive
  split
  · rename_i isOpen
    exact .delivers at_ isOpen
  · exact .flow (.ended at_)
  · exact .reads at_

theorem move_of_step [DecidableEq K] (taken : step s a = some s') : Move s a s' := by
  cases a with
  | start t =>
      simp only [step] at taken
      split at taken
      · rename_i at_
        obtain rfl := Option.some.inj taken
        exact .start at_.2
      · cases taken
  | call t k =>
      simp only [step] at taken
      split at taken
      · rename_i at_
        obtain rfl := Option.some.inj taken
        exact .resume at_
      · rename_i at_
        obtain rfl := Option.some.inj taken
        exact .flow (.calls at_ (.inl rfl))
      · rename_i at_
        obtain rfl := Option.some.inj taken
        exact .flow (.calls at_ (.inr rfl))
      · cases taken
  | enter t =>
      simp only [step] at taken
      split at taken
      · rename_i at_
        obtain ⟨free, rfl⟩ := eq_none_of_acquire taken
        exact .enter at_ free
      · cases taken
  | exit t =>
      simp only [step] at taken
      split at taken
      · rename_i at_
        obtain rfl := Option.some.inj taken
        exact .exit at_ rfl
      · rename_i at_
        obtain rfl := Option.some.inj taken
        exact .exit at_ rfl
      · rename_i at_
        obtain rfl := Option.some.inj taken
        exact .flow (.made at_)
      · cases taken
  | dispatch t h =>
      simp only [step] at taken
      split at taken
      · rename_i at_
        obtain rfl := Option.some.inj taken
        exact .flow (.dispatched at_.1 at_.2)
      · cases taken
  | runQueued t =>
      simp only [step] at taken
      split at taken
      · rename_i at_
        obtain rfl := Option.some.inj taken
        exact .runQueued at_.1 at_.2
      · cases taken
  | test t now =>
      simp only [step] at taken
      split at taken
      · rename_i at_
        obtain rfl := Option.some.inj taken
        unfold readReady
        simp only []
        split
        · exact .defers at_.1
        · exact .passes at_.1
      · cases taken
  | receive t got =>
      simp only [step] at taken
      split at taken
      · rename_i at_
        obtain rfl := Option.some.inj taken
        exact move_of_receive at_
      · cases taken
  | claim k =>
      obtain rfl := Option.some.inj taken
      exact .claims
  | release t k =>
      simp only [step] at taken
      split at taken
      · rename_i at_
        obtain rfl := Option.some.inj taken
        unfold mtReleaseClaim
        simp only []
        split
        · rename_i deferred
          exact .hands at_ deferred.2
        · exact .claims
      · cases taken
  | lose =>
      obtain rfl := Option.some.inj taken
      exact .loses
  | thread t => exact move_of_threadStep taken

/-! ## The lock -/

/-- Where a thread has the connection lock. -/
def Pc.inside : Pc → Bool
  | .at_ c | .lock _ c => c.inside
  | .reading | .body _ _ | .remove _ _ | .add _ _ | .deactivate _ _ _ | .cancel _ _ _
  | .forget _ _ _ | .leave _ _ => true
  | .dispatch _ | .run _ | .snapshot _ _ | .testing | .locking | .requeue => false

/-- Nobody is in the middle of changing the reader. -/
structure Settled (s : State T K) : Prop where
  removed : s.closing = true ∨ s.paused = true → s.reader = none
  handles : ∀ h, h < s.made → s.reader = some h ∨ s.cancelled h = true

/-- What the thread that has the lock leaves to others, and what it has still to do. -/
def Owner (s : State T K) : Pc → Prop
  | .add k _ => k ≠ .pause ∧ s.closing = false ∧ s.paused = false ∧ Settled s
  | .remove k _ =>
      (k = .pause → s.closing = true ∨ s.paused = true) ∧
        ∀ h, h < s.made → s.reader = some h ∨ s.cancelled h = true
  | .deactivate k _ h | .cancel k _ h =>
      (k = .pause → s.closing = true ∨ s.paused = true) ∧
        (s.closing = true ∨ s.paused = true → s.reader = none) ∧
        ∀ g, g < s.made → g ≠ h → s.reader = some g ∨ s.cancelled g = true
  | .forget k _ _ | .leave k _ =>
      (k = .pause → s.closing = true ∨ s.paused = true) ∧ Settled s
  | _ => Settled s

/-- The handle that a worker dispatches. -/
def Pc.handle : Pc → Option Nat
  | .dispatch h | .run h | .snapshot h _ => some h
  | _ => none

structure Sane (s : State T K) : Prop where
  locked : ∀ t, s.lock = some t ↔ (s.pc t).inside = true
  free : s.lock = none → Settled s
  owner : ∀ t, s.lock = some t → Owner s (s.pc t)
  made : ∀ t h, (s.pc t).handle = some h → h < s.made

/-- The fields that the lock guards. -/
structure Alike (s b : State T K) : Prop where
  paused : b.paused = s.paused
  closing : b.closing = s.closing
  reader : b.reader = s.reader
  made : b.made = s.made
  cancelled : b.cancelled = s.cancelled

omit [DecidableEq T] in
theorem Settled.alike (settled : Settled s) (alike : Alike s b) : Settled b := by
  refine ⟨?_, ?_⟩
  · rw [alike.closing, alike.paused, alike.reader]
    exact settled.removed
  · rw [alike.made, alike.reader, alike.cancelled]
    exact settled.handles

omit [DecidableEq T] in
theorem owner_alike (owner : Owner s pc) (alike : Alike s b) : Owner b pc := by
  have settled := fun (is : Settled s) => is.alike alike
  obtain ⟨paused, closing, reader, made, cancelled⟩ := alike
  cases pc with
  | add =>
      unfold Owner at owner ⊢
      rw [closing, paused]
      exact ⟨owner.1, owner.2.1, owner.2.2.1, settled owner.2.2.2⟩
  | remove | deactivate | cancel =>
      unfold Owner at owner ⊢
      rw [closing, paused, reader, made, cancelled]
      exact owner
  | forget | leave =>
      unfold Owner at owner ⊢
      rw [closing, paused]
      exact ⟨owner.1, settled owner.2⟩
  | _ => exact settled owner

theorem goto_self (s : State T K) (t : T) (pc : Pc) : (s.goto t pc).pc t = pc :=
  Function.update_self ..

theorem goto_other (s : State T K) (other : u ≠ t) (pc : Pc) : (s.goto t pc).pc u = s.pc u :=
  Function.update_of_ne other ..

omit [DecidableEq T] in
theorem Sane.not_inside (sane : Sane s) (free : s.lock = none) : (s.pc t).inside = false := by
  cases inside : (s.pc t).inside with
  | false => rfl
  | true =>
      rw [(sane.locked t).mpr inside] at free
      cases free

theorem Sane.made_goto (sane : Sane s) (pcs : b.pc = s.pc) (more : s.made ≤ b.made)
    (made : ∀ h, pc.handle = some h → h < s.made) (u : T) (h : Nat)
    (has : ((b.goto t pc).pc u).handle = some h) : h < b.made := by
  by_cases self : u = t
  · subst self
    rw [goto_self] at has
    exact Nat.lt_of_lt_of_le (made h has) more
  · rw [goto_other b self, pcs] at has
    exact Nat.lt_of_lt_of_le (sane.made u h has) more

/-- A thread without the lock goes on. -/
theorem Sane.aside (sane : Sane s) (pcs : b.pc = s.pc) (lock : b.lock = s.lock)
    (alike : Alike s b) (was : (s.pc t).inside = false) (is : pc.inside = false)
    (made : ∀ h, pc.handle = some h → h < s.made) : Sane (b.goto t pc) := by
  refine ⟨?_, ?_, ?_, sane.made_goto pcs (Nat.le_of_eq alike.made.symm) made⟩
  · intro u
    show b.lock = some u ↔ ((b.goto t pc).pc u).inside = true
    rw [lock, sane.locked u]
    by_cases self : u = t
    · subst self
      rw [goto_self, was, is]
    · rw [goto_other b self, pcs]
  · intro free
    have settled := (sane.free (lock.symm.trans free)).alike alike
    exact ⟨settled.removed, settled.handles⟩
  · intro u owns
    have owned : s.lock = some u := lock.symm.trans owns
    have other : u ≠ t := by
      rintro rfl
      rw [(sane.locked u).mp owned] at was
      cases was
    rw [goto_other b other, pcs]
    exact owner_alike (owner_alike (sane.owner u owned) alike) ⟨rfl, rfl, rfl, rfl, rfl⟩

/-- A thread takes the lock. -/
theorem Sane.acquire (sane : Sane s) (free : s.lock = none) (is : pc.inside = true)
    (owner : Settled s → Owner s pc) (none_ : pc.handle = none) :
    Sane ({ s with lock := some t }.goto t pc) := by
  refine ⟨?_, ?_, ?_, sane.made_goto rfl (Nat.le_refl _) ?_⟩
  · intro u
    by_cases self : u = t
    · subst self
      rw [goto_self]
      exact iff_of_true rfl is
    · rw [goto_other _ self]
      refine iff_of_false ?_ ?_
      · intro owns
        exact self (Option.some.inj owns).symm
      · show (s.pc u).inside ≠ true
        rw [sane.not_inside free]
        simp
  · intro notFree
    cases notFree
  · intro u owns
    obtain rfl := Option.some.inj owns
    rw [goto_self]
    exact owner_alike (owner (sane.free free)) ⟨rfl, rfl, rfl, rfl, rfl⟩
  · intro h has
    rw [none_] at has
    cases has

/-- The thread that has the lock gives it back. -/
theorem Sane.release (sane : Sane s) (pcs : b.pc = s.pc) (alike : Alike s b)
    (was : (s.pc t).inside = true) (settled : Settled s) : Sane (b.release t) := by
  have owns := (sane.locked t).mpr was
  refine ⟨?_, ?_, ?_, sane.made_goto pcs (Nat.le_of_eq alike.made.symm) ?_⟩
  · intro u
    refine iff_of_false (by simp [State.release, State.goto]) ?_
    by_cases self : u = t
    · subst self
      rw [State.release, goto_self]
      simp [Pc.inside, Ctx.inside]
    · rw [State.release, goto_other _ self]
      show (b.pc u).inside ≠ true
      intro inside
      rw [pcs] at inside
      exact self (Option.some.inj (((sane.locked u).mpr inside).symm.trans owns))
  · intro _
    have after := settled.alike alike
    exact ⟨after.removed, after.handles⟩
  · intro u owned
    cases owned
  · intro h has
    cases has

/-- The thread that has the lock goes on. -/
theorem Sane.inner (sane : Sane s) (pcs : b.pc = s.pc) (lock : b.lock = s.lock)
    (was : (s.pc t).inside = true) (is : pc.inside = true) (more : s.made ≤ b.made)
    (owner : Owner b pc) (none_ : pc.handle = none) : Sane (b.goto t pc) := by
  have owns := (sane.locked t).mpr was
  refine ⟨?_, ?_, ?_, sane.made_goto pcs more ?_⟩
  · intro u
    show b.lock = some u ↔ ((b.goto t pc).pc u).inside = true
    rw [lock, sane.locked u]
    by_cases self : u = t
    · subst self
      rw [goto_self, was, is]
    · rw [goto_other b self, pcs]
  · intro free
    rw [show (b.goto t pc).lock = s.lock from lock, owns] at free
    cases free
  · intro u owned
    rw [show (b.goto t pc).lock = s.lock from lock, owns] at owned
    obtain rfl := Option.some.inj owned
    rw [goto_self]
    exact owner_alike owner ⟨rfl, rfl, rfl, rfl, rfl⟩
  · intro h has
    rw [none_] at has
    cases has

omit [DecidableEq T] in
theorem Sane.owns (sane : Sane s) (at_ : s.pc t = pc) (inside : pc.inside = true) :
    Owner s pc :=
  at_ ▸ sane.owner t ((sane.locked t).mpr (at_ ▸ inside))

theorem Call.entered_inside : (k.entered c).inside = true := by
  cases k <;> rfl

theorem Call.entered_handle : (k.entered c).handle = none := by
  cases k <;> rfl

omit [DecidableEq T] in
theorem owner_entered (settled : Settled s) : Owner s (k.entered c) := by
  cases k <;> exact settled

theorem sane_flow (sane : Sane s) (flow : Flow s t pc) : Sane (s.goto t pc) := by
  have same : Alike s s := ⟨rfl, rfl, rfl, rfl, rfl⟩
  cases flow with
  | @calls k c at_ isCall =>
      cases inside : c.inside with
      | false =>
          exact sane.aside rfl rfl same (by rw [at_]; exact inside) inside (by simp [Pc.handle])
      | true =>
          have settled : Settled s := sane.owns at_ inside
          exact sane.inner rfl rfl (by rw [at_]; exact inside) inside (Nat.le_refl _) settled rfl
  | made at_ =>
      have settled : Settled s := sane.owns at_ rfl
      exact sane.inner rfl rfl (by rw [at_]; rfl) rfl (Nat.le_refl _) settled rfl
  | dispatched at_ old =>
      refine sane.aside rfl rfl same (by rw [at_]; rfl) rfl ?_
      intro g has
      obtain rfl := Option.some.inj has
      exact old
  | active at_ | snapshot at_ =>
      refine sane.aside rfl rfl same (by rw [at_]; rfl) rfl ?_
      intro g has
      exact sane.made t g (by rw [at_]; exact has)
  | inactive at_ | dropped at_ | runs at_ =>
      exact sane.aside rfl rfl same (by rw [at_]; rfl) rfl (by simp [Pc.handle])
  | nested at_ inside =>
      exact sane.inner rfl rfl (by rw [at_]; exact inside) Call.entered_inside (Nat.le_refl _)
        (owner_entered (sane.owns at_ inside)) Call.entered_handle
  | skips at_ tested =>
      refine sane.inner rfl rfl (by rw [at_]; rfl) rfl (Nat.le_refl _) ?_ rfl
      exact ⟨tested, sane.owns at_ rfl⟩
  | starts at_ isOpen reads =>
      refine sane.inner rfl rfl (by rw [at_]; rfl) rfl (Nat.le_refl _) ?_ rfl
      exact ⟨by simp, isOpen, reads, sane.owns at_ rfl⟩
  | noReader at_ none_ =>
      refine sane.inner rfl rfl (by rw [at_]; rfl) rfl (Nat.le_refl _) ?_ rfl
      have owner := sane.owns at_ rfl
      exact ⟨owner.1, fun _ => none_, owner.2⟩
  | leaves at_ inside isCall =>
      refine sane.inner rfl rfl (by rw [at_]; rfl) inside (Nat.le_refl _) ?_ rfl
      exact (sane.owns at_ rfl).2
  | ended at_ =>
      have settled : Settled s := sane.owns at_ rfl
      exact sane.inner rfl rfl (by rw [at_]; rfl) rfl (Nat.le_refl _) settled rfl

/-- What `_add_fd_callback` leaves behind. -/
theorem sane_adds (sane : Sane s) (at_ : s.pc t = .add k c) : Sane (addReader s t k c) := by
  obtain ⟨notPause, isOpen, reads, settled⟩ := sane.owns at_ rfl
  have older : ∀ g, g < s.made → Function.update s.cancelled s.made false g = s.cancelled g := by
    intro g old
    exact Function.update_of_ne (Nat.ne_of_lt old) ..
  unfold addReader
  cases reader : s.reader with
  | none =>
      refine sane.inner rfl rfl (by rw [at_]; rfl) rfl (Nat.le_succ _) ?_ rfl
      refine ⟨fun isPause => absurd isPause notPause, ?_, ?_⟩
      · intro stopped
        simp [isOpen, reads] at stopped
      · intro g old
        obtain isLast | before := Nat.lt_succ_iff_lt_or_eq.mp old |>.symm
        · exact .inl (congrArg some isLast.symm)
        · refine .inr ((older g before).trans ?_)
          obtain isReader | cancelled := settled.handles g before
          · rw [reader] at isReader
            cases isReader
          · exact cancelled
  | some h =>
      refine sane.inner rfl rfl (by rw [at_]; rfl) rfl (Nat.le_succ _) ?_ rfl
      refine ⟨fun isPause => absurd isPause notPause, ?_, ?_⟩
      · intro stopped
        simp [isOpen, reads] at stopped
      · intro g old other
        obtain isLast | before := Nat.lt_succ_iff_lt_or_eq.mp old |>.symm
        · exact .inl (congrArg some isLast.symm)
        · refine .inr ((older g before).trans ?_)
          obtain isReader | cancelled := settled.handles g before
          · rw [reader] at isReader
            exact absurd (Option.some.inj isReader).symm other
          · exact cancelled

theorem sane_step (sane : Sane s) (move : Move s a s') : Sane s' := by
  have same : Alike s s := ⟨rfl, rfl, rfl, rfl, rfl⟩
  cases move with
  | flow flow => exact sane_flow sane flow
  | start at_ | runQueued at_ | defers at_ | passes at_ | requeues at_ | hands at_ =>
      exact sane.aside rfl rfl ⟨rfl, rfl, rfl, rfl, rfl⟩ (by rw [at_]; rfl) rfl
        (by simp [Pc.handle])
  | @resume t c at_ =>
      cases inside : c.inside with
      | false =>
          exact sane.aside rfl rfl ⟨rfl, rfl, rfl, rfl, rfl⟩ (by rw [at_]; exact inside) inside
            (by simp [Pc.handle])
      | true =>
          have settled : Settled s := sane.owns at_ inside
          exact sane.inner rfl rfl (by rw [at_]; exact inside) inside (Nat.le_refl _)
            (settled.alike ⟨rfl, rfl, rfl, rfl, rfl⟩) rfl
  | enter at_ free => exact sane.acquire free rfl (fun settled => settled) rfl
  | locks at_ free => exact sane.acquire free rfl (fun settled => settled) rfl
  | acquires at_ free =>
      exact sane.acquire free Call.entered_inside owner_entered Call.entered_handle
  | exit at_ inside =>
      exact sane.release rfl same (by rw [at_]; exact inside) (sane.owns at_ inside)
  | reads at_ => exact sane.release rfl same (by rw [at_]; rfl) (sane.owns at_ rfl)
  | delivers at_ =>
      have settled : Settled s := sane.owns at_ rfl
      exact sane.inner rfl rfl (by rw [at_]; rfl) rfl (Nat.le_refl _)
        (settled.alike ⟨rfl, rfl, rfl, rfl, rfl⟩) rfl
  | pauses at_ =>
      have settled : Settled s := sane.owns at_ rfl
      refine sane.inner rfl rfl (by rw [at_]; rfl) rfl (Nat.le_refl _) ?_ rfl
      exact ⟨fun _ => .inr rfl, settled.handles⟩
  | unpauses at_ isOpen =>
      have settled : Settled s := sane.owns at_ rfl
      refine sane.inner rfl rfl (by rw [at_]; rfl) rfl (Nat.le_refl _) ?_ rfl
      refine ⟨by simp, isOpen, rfl, ?_, settled.handles⟩
      intro stopped
      simp [isOpen] at stopped
  | closes at_ =>
      have settled : Settled s := sane.owns at_ rfl
      refine sane.inner rfl rfl (by rw [at_]; rfl) rfl (Nat.le_refl _) ?_ rfl
      exact ⟨by simp, settled.handles⟩
  | @removes t k c h at_ reader =>
      obtain ⟨why, handles⟩ := sane.owns at_ rfl
      refine sane.inner rfl rfl (by rw [at_]; rfl) rfl (Nat.le_refl _) ?_ rfl
      refine ⟨why, fun _ => rfl, ?_⟩
      intro g old other
      obtain isReader | cancelled := handles g old
      · rw [reader] at isReader
        exact absurd (Option.some.inj isReader).symm other
      · exact .inr cancelled
  | adds at_ => exact sane_adds sane at_
  | deactivates at_ =>
      have owner := sane.owns at_ rfl
      exact sane.inner rfl rfl (by rw [at_]; rfl) rfl (Nat.le_refl _) owner rfl
  | @cancels t k c h at_ =>
      obtain ⟨why, removed, handles⟩ := sane.owns at_ rfl
      refine sane.inner rfl rfl (by rw [at_]; rfl) rfl (Nat.le_refl _) ?_ rfl
      refine ⟨why, removed, ?_⟩
      intro g old
      show s.reader = some g ∨ Function.update s.cancelled h true g = true
      by_cases isH : g = h
      · subst isH
        exact .inr (Function.update_self ..)
      · rw [Function.update_of_ne isH]
        exact handles g old isH
  | forgets at_ =>
      obtain ⟨why, settled⟩ := sane.owns at_ rfl
      exact sane.inner rfl rfl (by rw [at_]; rfl) rfl (Nat.le_refl _)
        ⟨why, settled.removed, settled.handles⟩ rfl
  | returns at_ =>
      exact sane.release rfl ⟨rfl, rfl, rfl, rfl, rfl⟩ (by rw [at_]; rfl) (sane.owns at_ rfl).2
  | paused at_ isThread inside =>
      have settled : Settled s := (sane.owns at_ rfl).2
      exact sane.inner rfl rfl (by rw [at_]; rfl) inside (Nat.le_refl _)
        (settled.alike ⟨rfl, rfl, rfl, rfl, rfl⟩) rfl
  | claims | loses =>
      refine ⟨sane.locked, ?_, ?_, sane.made⟩
      · intro free
        exact (sane.free free).alike ⟨rfl, rfl, rfl, rfl, rfl⟩
      · intro t owns
        exact owner_alike (sane.owner t owns) ⟨rfl, rfl, rfl, rfl, rfl⟩

/-! ## While reading is paused -/

/-- A worker that no `cancel` stops any more. -/
def Pc.passed : Pc → Bool
  | .testing | .locking | .reading => true
  | _ => false

/-- About to queue a read, or to resume reading. -/
def Pc.reviving : Pc → Bool
  | .requeue | .lock .resume _ | .body .resume _ => true
  | _ => false

/-- A read is on its way on an open connection: a worker is past the tests of its
handle, or a read is queued; or a deferred read is about to be queued, or waits for that,
or another `resume_reading` has been called, and the transport is not closing. -/
structure OnItsWay (s : State T K) : Prop where
  isOpen : s.connLost = false
  way : (∃ t, s.pc t = .testing ∨ s.pc t = .locking) ∨ 0 < s.queued ∨
    s.closing = false ∧ (s.readDeferred = true ∨ ∃ t, (s.pc t).reviving = true)

/-- Every `pause_reading` returns while no read is on its way. -/
def Alone (s : State T K) (a : Act T K) : Prop :=
  ∀ t c, a = .thread t → s.pc t = .leave .pause c → ¬OnItsWay s

/-- No read is on its way, and none can set out. -/
structure Still (s : State T K) : Prop where
  past : ∀ t, (s.pc t).passed = false
  queued : s.queued = 0
  reader : s.reader = none
  cancelled : ∀ h, h < s.made → s.cancelled h = true
  why : s.closing = true ∨
    s.paused = true ∧ s.readDeferred = false ∧ ∀ t, (s.pc t).reviving = false

omit [DecidableEq T] in
theorem still_of_leave (sane : Sane s) (at_ : s.pc t = .leave .pause c)
    (alone : ¬OnItsWay s) (isOpen : s.connLost = false) : Still s := by
  have none_ : ¬_ := fun way => alone ⟨isOpen, way⟩
  obtain ⟨why, settled⟩ := sane.owns at_ rfl
  have stopped := why rfl
  have reader := settled.removed stopped
  refine ⟨?_, ?_, reader, ?_, ?_⟩
  · intro u
    cases atU : s.pc u with
    | testing => exact absurd (.inl ⟨u, .inl atU⟩) none_
    | locking => exact absurd (.inl ⟨u, .inr atU⟩) none_
    | reading =>
        -- it would have the lock
        have owns := (sane.locked t).mpr (by rw [at_]; rfl)
        have ownsU := (sane.locked u).mpr (by rw [atU]; rfl)
        obtain rfl : t = u := Option.some.inj (owns.symm.trans ownsU)
        rw [at_] at atU
        cases atU
    | _ => rfl
  · by_contra some_
    exact none_ (.inr (.inl (Nat.pos_of_ne_zero some_)))
  · intro h old
    obtain isReader | cancelled := settled.handles h old
    · rw [reader] at isReader
      cases isReader
    · exact cancelled
  · cases closing : s.closing with
    | true => exact .inl rfl
    | false =>
        refine .inr ⟨?_, ?_, ?_⟩
        · rw [closing] at stopped
          exact stopped.resolve_left (by simp)
        · cases deferred : s.readDeferred with
          | false => rfl
          | true => exact absurd (.inr (.inr ⟨closing, .inl deferred⟩)) none_
        · intro u
          cases reviving : (s.pc u).reviving with
          | false => rfl
          | true => exact absurd (.inr (.inr ⟨closing, .inr ⟨u, reviving⟩⟩)) none_

omit [DecidableEq T] in
theorem Still.not_reviving (still : Still s) (isOpen : s.closing = false) :
    s.paused = true ∧ s.readDeferred = false ∧ ∀ t, (s.pc t).reviving = false := by
  obtain closing | why := still.why
  · rw [isOpen] at closing
    cases closing
  · exact why

/-- A thread goes on. -/
theorem Still.goto (still : Still s) (pcs : b.pc = s.pc) (alike : Alike s b)
    (queued : b.queued = s.queued) (deferred : b.readDeferred = s.readDeferred)
    (past : pc.passed = false) (revives : s.closing = false → pc.reviving = false) :
    Still (b.goto t pc) := by
  refine ⟨?_, queued.trans still.queued, alike.reader.trans still.reader, ?_, ?_⟩
  · intro u
    by_cases self : u = t
    · subst self
      rwa [goto_self]
    · rw [goto_other b self, pcs]
      exact still.past u
  · intro h old
    show b.cancelled h = true
    rw [alike.cancelled]
    exact still.cancelled h (alike.made ▸ old)
  · show b.closing = true ∨ b.paused = true ∧ b.readDeferred = false ∧ _
    rw [alike.closing, alike.paused, deferred]
    cases closing : s.closing with
    | true => exact .inl rfl
    | false =>
        obtain ⟨paused, none_, reviving⟩ := still.not_reviving closing
        refine .inr ⟨paused, none_, ?_⟩
        intro u
        by_cases self : u = t
        · subst self
          rw [goto_self]
          exact revives closing
        · rw [goto_other b self, pcs]
          exact reviving u

omit [DecidableEq T] in
theorem Still.not_passed (still : Still s) (at_ : s.pc t = pc) (passed : pc.passed = true) :
    False := by
  have none_ := still.past t
  rw [at_, passed] at none_
  cases none_

omit [DecidableEq T] in
theorem Still.not_revived (still : Still s) (at_ : s.pc t = pc) (reviving : pc.reviving = true)
    (isOpen : s.closing = false) : False := by
  have none_ := (still.not_reviving isOpen).2.2 t
  rw [at_, reviving] at none_
  cases none_

omit [DecidableEq T] in
theorem Still.stopped (still : Still s) (isOpen : s.closing = false) (reads : s.paused = false) :
    False := by
  rw [(still.not_reviving isOpen).1] at reads
  cases reads

omit [DecidableEq T] in
theorem still_entered (still : Still s) (at_ : s.pc t = .lock k c) (isOpen : s.closing = false) :
    (k.entered c).reviving = false := by
  cases k with
  | resume => exact (still.not_revived at_ rfl isOpen).elim
  | _ => rfl

theorem Call.entered_passed : (k.entered c).passed = false := by
  cases k <;> rfl

theorem still_flow (sane : Sane s) (still : Still s) (flow : Flow s t pc) :
    Still (s.goto t pc) := by
  have same : Alike s s := ⟨rfl, rfl, rfl, rfl, rfl⟩
  cases flow with
  | calls at_ isCall =>
      refine still.goto rfl same rfl rfl rfl ?_
      intro _
      obtain rfl | rfl := isCall <;> rfl
  | @runs h cb at_ alive =>
      have old := sane.made t h (by rw [at_]; rfl)
      rw [still.cancelled h old] at alive
      cases alive
  | nested at_ inside =>
      exact still.goto rfl same rfl rfl Call.entered_passed (still_entered still at_)
  | starts at_ isOpen reads => exact (still.stopped isOpen reads).elim
  | _ => exact still.goto rfl same rfl rfl rfl fun _ => rfl

theorem still_step (sane : Sane s) (still : Still s) (move : Move s a s')
    (quiet : s'.quiet = true) : Still s' := by
  have same : Alike s s := ⟨rfl, rfl, rfl, rfl, rfl⟩
  cases move with
  | flow flow => exact still_flow sane still flow
  | resume => cases quiet
  | runQueued at_ queued =>
      rw [still.queued] at queued
      cases queued
  | defers at_ | passes at_ | locks at_ | delivers at_ | reads at_ =>
      exact (still.not_passed at_ rfl).elim
  | acquires at_ =>
      exact still.goto rfl ⟨rfl, rfl, rfl, rfl, rfl⟩ rfl rfl Call.entered_passed
        (still_entered still at_)
  | @pauses t c at_ =>
      have moved : Still (s.goto t (.remove .pause c)) :=
        still.goto rfl same rfl rfl rfl fun _ => rfl
      refine ⟨moved.past, moved.queued, moved.reader, moved.cancelled, ?_⟩
      obtain closing | ⟨-, why⟩ := moved.why
      · exact .inl closing
      · exact .inr ⟨rfl, why⟩
  | unpauses at_ isOpen => exact (still.not_revived at_ rfl isOpen).elim
  | @closes t c at_ =>
      have moved : Still (s.goto t (.remove .close c)) :=
        still.goto rfl same rfl rfl rfl fun _ => rfl
      exact ⟨moved.past, moved.queued, moved.reader, moved.cancelled, .inl rfl⟩
  | removes at_ reader =>
      rw [still.reader] at reader
      cases reader
  | adds at_ =>
      obtain ⟨-, isOpen, reads, -⟩ := sane.owns at_ rfl
      exact (still.stopped isOpen reads).elim
  | @cancels t k c h at_ =>
      have moved : Still (s.goto t (.forget k c h)) :=
        still.goto rfl same rfl rfl rfl fun _ => rfl
      refine ⟨moved.past, moved.queued, moved.reader, ?_, moved.why⟩
      intro g old
      show Function.update s.cancelled h true g = true
      by_cases isH : g = h
      · rw [isH, Function.update_self]
      · rw [Function.update_of_ne isH]
        exact still.cancelled g old
  | @requeues t at_ =>
      cases closing : s.closing with
      | false => exact (still.not_revived at_ rfl closing).elim
      | true => exact still.goto rfl ⟨rfl, closing.symm, rfl, rfl, rfl⟩ rfl rfl rfl fun _ => rfl
  | @hands t l at_ deferred =>
      cases closing : s.closing with
      | false =>
          rw [(still.not_reviving closing).2.1] at deferred
          cases deferred
      | true =>
          refine ⟨?_, still.queued, still.reader, still.cancelled, .inl rfl⟩
          intro u
          by_cases self : u = t
          · subst self
            rw [goto_self]
            rfl
          · rw [goto_other _ self]
            exact still.past u
  | claims | loses =>
      exact ⟨still.past, still.queued, still.reader, still.cancelled, still.why⟩
  | _ => exact still.goto rfl ⟨rfl, rfl, rfl, rfl, rfl⟩ rfl rfl rfl fun _ => rfl

/-! ## Runs -/

theorem sane_of_reachable [DecidableEq K] (reached : (machine T K).Reachable s) : Sane s := by
  refine Machine.Reach.invariant Sane ?_ ?_ reached
  · rintro s rfl
    have settled : Settled (fresh T K) :=
      ⟨fun _ => rfl, fun h old => absurd old (Nat.not_lt_zero h)⟩
    refine ⟨?_, fun _ => settled, ?_, ?_⟩
    · intro t
      refine iff_of_false ?_ ?_ <;> intro is <;> cases is
    · intro t owns
      cases owns
    · intro t h has
      cases has
  · intro s a s' sane _ taken
    exact sane_step sane (move_of_step taken)

/-- A step sets `quiet` when a `pause_reading` returns only. -/
theorem quiet_step (move : Move s a s') (quiet : s'.quiet = true) :
    s.quiet = true ∨ ∃ t c, a = .thread t ∧ s.pc t = .leave .pause c := by
  cases move with
  | resume => cases quiet
  | @returns t k at_ isThread =>
      by_cases isPause : k = .pause
      · subst isPause
        exact .inr ⟨t, .outside, isThread, at_⟩
      · refine .inl ?_
        simpa [State.release, State.goto, isPause] using quiet
  | @paused t c at_ isThread => exact .inr ⟨t, c, isThread, at_⟩
  | _ => exact .inl quiet

theorem connLost_kept (move : Move s a s') (isOpen : s'.connLost = false) :
    s.connLost = false := by
  cases move with
  | loses => cases isOpen
  | _ => exact isOpen

/-- Data is late only when it is delivered in a quiet time. -/
theorem late_step (move : Move s a s') (inTime : s.late = false)
    (none_ : s.quiet = true → s.connLost = false → ∀ t, s.pc t ≠ .reading) :
    s'.late = false := by
  cases move with
  | @delivers t at_ isOpen =>
      cases quiet : s.quiet with
      | true => exact absurd at_ (none_ quiet isOpen t)
      | false =>
          show (s.late || false) = false
          rw [inTime]
          rfl
  | _ => exact inTime

theorem still_of_reach [DecidableEq K] (reached : (machine T K).Reach Alone s) :
    (s.quiet = true → s.connLost = false → Still s) ∧ s.late = false := by
  induction reached with
  | start isStart =>
      obtain rfl := isStart
      refine ⟨?_, rfl⟩
      intro quiet
      cases quiet
  | @step s s' a before alone taken inductionHypothesis =>
      obtain ⟨still, inTime⟩ := inductionHypothesis
      have sane := sane_of_reachable before.reachable
      have move := move_of_step taken
      refine ⟨?_, late_step move inTime ?_⟩
      · intro quiet isOpen
        have wasOpen := connLost_kept move isOpen
        obtain wasQuiet | ⟨t, c, isThread, at_⟩ := quiet_step move quiet
        · exact still_step sane (still wasQuiet wasOpen) move quiet
        · have earlier := still_of_leave sane at_ (alone t c isThread at_) wasOpen
          exact still_step sane earlier move quiet
      · intro quiet isOpen t at_
        exact (still quiet isOpen).not_passed at_ rfl

/-- No data is delivered between the return of a `pause_reading` and the next call of
`resume_reading`. -/
theorem silent_while_paused [DecidableEq K] (reached : (machine T K).Reach Alone s) :
    s.late = false :=
  (still_of_reach reached).2

/-! ## A read that is past its tests -/

theorem late_of_locking [DecidableEq K] (reached : (machine T K).Reachable s)
    (at_ : s.pc u = .locking)
    (quiet : s.quiet = true) (isOpen : s.connLost = false) (free : s.lock = none) :
    ∃ s', (machine T K).Reachable s' ∧ s'.late = true := by
  have locks : (machine T K).step s (.thread u) =
      some ({ s with lock := some u }.goto u .reading) := by
    simp [machine, step, threadStep, at_, State.acquire, free]
  have receives : (machine T K).step ({ s with lock := some u }.goto u .reading)
      (.receive u .data) = some (receive ({ s with lock := some u }.goto u .reading) u .data) := by
    simp [machine, step, goto_self]
  refine ⟨_, (reached.next locks).next receives, ?_⟩
  simp [receive, State.goto, isOpen, quiet]

/-- A read that has found no claim when a `pause_reading` returns is delivered late. -/
theorem late_of_passed [DecidableEq K] (reached : (machine T K).Reachable s)
    (at_ : s.pc t = .leave .pause .outside) (isOpen : s.connLost = false)
    (passed : s.pc u = .locking ∨ s.pc u = .testing ∧ s.claims = []) :
    ∃ s', (machine T K).Reachable s' ∧ s'.late = true := by
  have other : u ≠ t := by
    rintro rfl
    obtain locking | ⟨testing, -⟩ := passed
    · rw [at_] at locking
      cases locking
    · rw [at_] at testing
      cases testing
  have returns : (machine T K).step s (.thread t) =
      some ({ s with quiet := true }.release t) := by
    simp [machine, step, threadStep, at_, leave]
  have still : ({ s with quiet := true }.release t).pc u = s.pc u :=
    goto_other _ other _
  have reached' := reached.next returns
  obtain locking | ⟨testing, unclaimed⟩ := passed
  · exact late_of_locking reached' (still.trans locking) rfl isOpen rfl
  · have tests : (machine T K).step ({ s with quiet := true }.release t) (.test u s.now) =
        some (readReady ({ s with quiet := true }.release t) u s.now) := by
      have atU := still.trans testing
      have sameNow : ({ s with quiet := true }.release t).now = s.now := rfl
      simp [machine, step, atU, sameNow]
    have passes : readReady ({ s with quiet := true }.release t) u s.now =
        { { s with quiet := true }.release t with
          now := s.now, readDeferSince := none, readDeferred := false }.goto u .locking := by
      unfold readReady
      exact if_neg fun claimed => claimed.1 unclaimed
    rw [passes] at tests
    exact late_of_locking (reached'.next tests) (goto_self ..) rfl isOpen rfl

/-- `Alone`, decided. -/
def alone (s : State Bool Unit) : Act Bool Unit → Bool
  | .thread t =>
      match s.pc t with
      | .leave .pause _ =>
          s.queued = 0 && !s.readDeferred &&
            decide (∀ u, s.pc u ≠ .testing ∧ s.pc u ≠ .locking ∧ (s.pc u).reviving = false)
      | _ => true
  | _ => true

theorem alone_sound (s : State Bool Unit) (a : Act Bool Unit) (checked : alone s a = true) :
    Alone s a := by
  rintro t c rfl at_ ⟨-, way⟩
  simp only [alone, at_, Bool.and_eq_true, decide_eq_true_eq] at checked
  obtain ⟨⟨queued, notDeferred⟩, none_⟩ := checked
  obtain ⟨u, testing | locking⟩ | some_ | ⟨-, deferred | ⟨u, reviving⟩⟩ := way
  · exact (none_ u).1 testing
  · exact (none_ u).2.1 locking
  · omega
  · rw [deferred] at notDeferred
    cases notDeferred
  · rw [(none_ u).2.2] at reviving
    cases reviving

/-- The transport starts, and a worker has begun with a dispatch of its reader. -/
def dispatchRun : List (Act Bool Unit) :=
  .start false :: .thread false :: .exit false :: List.replicate 3 (.thread false) ++
    [.dispatch true 0, .thread true]

def pauseRun : List (Act Bool Unit) :=
  .call false .pause :: List.replicate 7 (.thread false)

/-- The worker gets to the handle after `pause_reading` has cancelled it. -/
theorem cancelledRun_ends :
    ((machine Bool Unit).execIf alone (fresh Bool Unit)
      (dispatchRun ++ pauseRun ++ List.replicate 2 (.thread true))).any
      (fun s => s.quiet && s.made = 1 && s.pc true = .at_ .outside) = true := by
  decide +kernel

theorem silent_while_paused_cancelled :
    ∃ s : State Bool Unit, s.quiet = true ∧ s.made = 1 ∧ s.late = false := by
  obtain ⟨s, reached, ends⟩ := Machine.Reach.exists_of_execIf alone_sound rfl cancelledRun_ends
  simp only [Bool.and_eq_true, decide_eq_true_eq] at ends
  exact ⟨s, ends.1.1, ends.1.2, silent_while_paused reached⟩

/-- The worker is past the tests of the handle when `pause_reading` is called. -/
theorem passedRun_ends :
    ((machine Bool Unit).exec (fresh Bool Unit)
      (dispatchRun ++ List.replicate 2 (.thread true) ++ pauseRun ++
        [.test true 0, .thread true, .receive true .data])).any
      (fun s => s.late) = true := by
  decide +kernel

theorem delivers_while_paused :
    ¬∀ s : State Bool Unit, (machine Bool Unit).Reachable s → s.late = false := by
  intro always
  obtain ⟨s, reached, late⟩ := Machine.Reachable.exists_of_exec rfl passedRun_ends
  rw [always s reached] at late
  cases late

end MtAsyncio.PausedReads
