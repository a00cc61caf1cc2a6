/-
Module: MtAsyncio.Proofs.SockReceived
Purpose: No task sleeps in `sock_recv`, `sock_recv_into` or `sock_accept` beside something
  to take, whatever is cancelled and begun again, written and polled beside it, unless the
  system call is interrupted or the tick of the word comes round while it is made; and what
  the calls return is what has arrived, in order.
Trusted boundary: none
Main exports: Prompt, Known, known_step, known_of_reach, sock_recv_woken, interrupt_strands
-/
import MtAsyncio.Model.SockRecv
import MtAsyncio.Proofs.ArmSteps

namespace MtAsyncio.SockRecv

open Lib (Machine)
open ScheduledIo (Direction PollEvent Sound InArm ArmMove Writes Aside Pending Exposed heard tickOf
  readinessFromEvent setReadiness threadStep goto_self)

variable {X : Type} {s s' : State X} {a : Act X} {n fut : Nat} {event : PollEvent}
  {sio sio' : ScheduledIo.State Who Nat}

/-! ## What holds in every run -/

/-- No system call is interrupted, and `clear_r` does not find the tick of `arm_r_cb` again
after it has come round. -/
def Prompt (s : State X) (a : Act X) : Prop :=
  a ≠ .interrupt ∧ ∀ n, a = .own → s.pc = .clearing n → s.since = 0 ∨ ¬256 ∣ s.since

/-- The poll thread has an event for the reader in front of it. -/
def State.Edge (s : State X) : Prop :=
  ∃ edge ∈ s.edges, wakesReader edge = true

/-- Where the reader is in the `ScheduledIO`. -/
def Fits : Pc → ScheduledIo.Pc Nat → Prop
  | .arming _ fut, at_ => InArm .read fut at_
  | .clearing _, at_ => ∃ tick, at_ = .clear .read tick
  | _, at_ => at_ = .outside

/-- The tick that a clear would be for. -/
def State.tick (s : State X) : Option (BitVec 8) :=
  match s.sio.pc .task with
  | .storeTick _ tick | .clear _ tick => some tick
  | _ =>
      match s.pc with
      | .receive _ => some (s.sio.tick .read)
      | _ => none

/-- The callback of `fut` was stored. -/
def Waits (s : State X) (fut : Nat) : Prop :=
  (∃ n, s.pc = .awaiting n fut) ∨ (∃ n, s.pc = .arming n fut) ∧ s.sio.pc .task = .unlock .read false

/-- The callback of `fut` is stored, or was called, or is about to be. -/
def Served (s : State X) (fut : Nat) : Prop :=
  s.done fut = true ∨ fut ∈ s.due ∨ ∃ x, s.sio.waiters.readerCb = some x ∧ x.value = fut

structure Known (s : State X) : Prop where
  sound : Sound .poller s.sio
  poller : s.sio.pc .poller = .outside ∨ ∃ ready, s.sio.pc .poller = .polled ready
  writers : ∀ i, Writes (s.sio.pc (.writer i))
  fits : Fits s.pc (s.sio.pc .task)
  counted : ∀ tick, s.tick = some tick →
    tickOf s.sio.readiness = tick + BitVec.ofNat 8 s.since
  promised : s.kernel.ready = true → s.Edge ∨ heard s.sio.readiness = true
  clearing : ∀ n, s.pc = .clearing n → s.kernel.ready = true →
    s.Edge ∨ heard s.sio.readiness = true ∧ s.since ≠ 0
  waits : ∀ fut, Waits s fut → Served s fut
  content : s.returned ++ s.kernel.queue = s.arrived

theorem heard_of_wakes (wakes : wakesReader event = true) :
    heard (readinessFromEvent event) = true := by
  obtain ⟨readable, writable, readClosed, writeClosed, error⟩ := event
  cases readable <;> cases writable <;> cases readClosed <;> cases writeClosed <;>
    cases error <;> first | rfl | cases wakes

/-- A sleeper's callback is in the slot, and no thread but the poll thread takes it. -/
theorem Known.pending (known : Known s) (exposed : Exposed s.sio .callback .read)
    (hears : heard s.sio.readiness = true) :
    ∃ ready, s.sio.pc .poller = .polled ready ∧ ready &&& Direction.read.mask ≠ 0 := by
  have ready := ScheduledIo.readyOrShut_of_heard hears
  rcases known.sound.covered .callback .read exposed ready with polled | ⟨u, shut⟩
  · exact polled
  · cases u with
    | poller =>
        rcases known.poller with outside | ⟨ready, polled⟩
        · exact absurd (shut.symm.trans outside) (fun no => nomatch no)
        · exact absurd (shut.symm.trans polled) (fun no => nomatch no)
    | writer i =>
        have writes := known.writers i
        rw [shut] at writes
        exact writes.elim
    | task =>
        have fits := known.fits
        rw [shut] at fits
        unfold Fits at fits
        split at fits
        · exact fits.elim
        · obtain ⟨tick, no⟩ := fits
          cases no
        · cases fits

/-! ## The reader -/

theorem goto_other (sio : ScheduledIo.State Who Nat) (pc : ScheduledIo.Pc Nat) {u t : Who}
    (other : u ≠ t) : (sio.goto t pc).pc u = sio.pc u :=
  Function.update_of_ne other ..

/-- The reader takes a step that the kernel and the poll thread do not notice. -/
theorem Known.goes (known : Known s) (sound : Sound .poller s'.sio)
    (poller : s'.sio.pc .poller = s.sio.pc .poller)
    (writers : ∀ i, s'.sio.pc (.writer i) = s.sio.pc (.writer i))
    (fits : Fits s'.pc (s'.sio.pc .task))
    (counted : ∀ tick, s'.tick = some tick →
      tickOf s'.sio.readiness = tick + BitVec.ofNat 8 s'.since)
    (readiness : s'.sio.readiness = s.sio.readiness) (kernel : s'.kernel = s.kernel)
    (edges : s'.edges = s.edges) (clearing : ∀ n, s'.pc = .clearing n → s.kernel.ready = false)
    (waits : ∀ fut, Waits s' fut → Served s' fut) (returned : s'.returned = s.returned)
    (arrived : s'.arrived = s.arrived) : Known s' where
  sound := sound
  poller := by
    rw [poller]
    exact known.poller
  writers := by
    intro i
    rw [writers i]
    exact known.writers i
  fits := fits
  counted := counted
  promised := by
    unfold State.Edge
    rw [kernel, edges, readiness]
    exact known.promised
  clearing := by
    intro n stage ready
    rw [kernel, clearing n stage] at ready
    cases ready
  waits := waits
  content := by
    rw [returned, kernel, arrived]
    exact known.content

/-- A step inside of `arm_r_cb`. -/
theorem known_arming (known : Known s) (at_ : s.pc = .arming n fut)
    (taken : threadStep s.sio .task = some sio') :
    Known { s with sio := sio', pc := s.afterArm n fut, since := s.sinceArm } := by
  have inside : InArm .read fut (s.sio.pc .task) := by
    have fits := known.fits
    rw [at_] at fits
    exact fits
  have sound : Sound .poller sio' := ScheduledIo.sound_threadStep known.sound taken
  have other : Who.poller ≠ .task ∧ ∀ i, Who.writer i ≠ .task :=
    ⟨Who.noConfusion, fun _ => Who.noConfusion⟩
  -- a step that stays inside and stores nothing
  have stays : ∀ {b : ScheduledIo.State Who Nat} (pc : ScheduledIo.Pc Nat),
      Sound .poller (b.goto .task pc) → b.pc = s.sio.pc → b.readiness = s.sio.readiness →
        s.afterArm n fut = .arming n fut → InArm .read fut pc → pc ≠ .unlock .read false →
          (∀ tick, pc = .storeTick .read tick →
            tickOf s.sio.readiness = tick + BitVec.ofNat 8 s.sinceArm) →
            (∀ d tick, pc = .storeTick d tick → d = .read) →
            Known { s with
              sio := b.goto .task pc, pc := s.afterArm n fut, since := s.sinceArm } := by
    intro b pc sound pcs readiness stage within unlocked tick direction
    rw [stage]
    refine known.goes sound ?_ ?_ ?_ ?_ readiness rfl rfl (fun _ no => nomatch no) ?_ rfl rfl
    · exact (goto_other b pc other.1).trans (congrFun pcs _)
    · exact fun i => (goto_other b pc (other.2 i)).trans (congrFun pcs _)
    · show Fits (.arming n fut) ((b.goto .task pc).pc .task)
      rw [goto_self]
      exact within
    · intro found isTick
      unfold State.tick at isTick
      dsimp only at isTick
      rw [goto_self] at isTick
      split at isTick
      · rename_i d t
        obtain rfl := direction d t rfl
        obtain rfl := Option.some.inj isTick
        exact readiness ▸ tick t rfl
      · exact within.elim
      · cases isTick
    · rintro g (⟨m, no⟩ | ⟨-, unlock⟩)
      · cases no
      · have unlock' : (b.goto .task pc).pc .task = .unlock .read false := unlock
        rw [goto_self] at unlock'
        exact absurd unlock' unlocked
  cases ScheduledIo.arm_move inside taken with
  | found stage | missed stage | refound stage | remissed stage | locks stage | unlocks stage =>
      refine stays _ sound rfl rfl ?_ ?_ ?_ ?_ ?_
      · simp only [State.afterArm, stage]
      · simp [InArm]
      · exact fun no => nomatch no
      · exact fun _ no => nomatch no
      · exact fun _ _ no => nomatch no
  | loads stage =>
      refine stays _ sound rfl rfl ?_ rfl (fun no => nomatch no) ?_ ?_
      · simp only [State.afterArm, stage]
      · intro tick same
        injection same with _ same
        simp [State.sinceArm, stage, same]
      · intro d tick same
        injection same with same
        exact same.symm
  | stores stage =>
      have kept : s.afterArm n fut = .arming n fut := by simp only [State.afterArm, stage]
      rw [kept]
      refine known.goes sound (goto_other _ _ other.1) (fun i => goto_other _ _ (other.2 i))
        ?_ ?_ rfl rfl rfl (fun _ no => nomatch no) ?_ rfl rfl
      · show Fits (.arming n fut) (ScheduledIo.State.pc (ScheduledIo.State.goto _ _ _) _)
        rw [goto_self]
        rfl
      · intro tick isTick
        simp [State.tick, goto_self] at isTick
      · rintro g (⟨m, no⟩ | ⟨⟨m, same⟩, -⟩)
        · cases no
        · injection same with _ same
          exact .inr (.inr ⟨_, rfl, same⟩)
  | parks stage =>
      have parked : s.afterArm n fut = .awaiting n fut := by simp only [State.afterArm, stage]
      rw [parked]
      refine known.goes sound (goto_other _ _ other.1) (fun i => goto_other _ _ (other.2 i))
        ?_ ?_ rfl rfl rfl (fun _ no => nomatch no) ?_ rfl rfl
      · exact goto_self _ _ _
      · intro tick isTick
        simp [State.tick, goto_self] at isTick
      · rintro g (⟨m, same⟩ | ⟨⟨m, no⟩, -⟩)
        · injection same with _ same
          exact same ▸ known.waits fut (.inr ⟨⟨n, at_⟩, stage⟩)
        · cases no
  | leaves tick stage =>
      have got : s.afterArm n fut = .receive n := by simp only [State.afterArm, stage]
      have since : s.sinceArm = s.since := by simp only [State.sinceArm, stage]
      rw [got, since]
      refine known.goes sound (goto_other _ _ other.1) (fun i => goto_other _ _ (other.2 i))
        ?_ ?_ rfl rfl rfl (fun _ no => nomatch no) ?_ rfl rfl
      · exact goto_self _ _ _
      · intro found isTick
        have same : tick = found := by
          simpa [State.tick, goto_self, ScheduledIo.State.goto] using isTick
        rw [← same]
        exact known.counted tick (by simp only [State.tick, stage])
      · rintro g (⟨m, no⟩ | ⟨⟨m, no⟩, -⟩) <;> cases no

/-- A reader that is outside of the `ScheduledIO` and makes no system call has no tick. -/
theorem tickless {tick : BitVec 8} (isTick : s.tick = some tick)
    (outside : s.sio.pc .task = .outside) (other : ∀ n, s.pc ≠ .receive n) : False := by
  unfold State.tick at isTick
  rw [outside] at isTick
  dsimp only at isTick
  split at isTick
  · rename_i n stage
    exact other n stage
  · cases isTick

/-- The reader begins to clear. -/
theorem known_clears (known : Known s) (at_ : s.pc = .receive n)
    (blocks : s.kernel.ready = false) (taken : sioStep s (.clear .task .read) = some sio') :
    Known { s with sio := sio', pc := .clearing n } := by
  have sound : Sound .poller sio' := ScheduledIo.sound_step known.sound taken
  have outside : s.sio.pc .task = .outside := by
    have fits := known.fits
    rw [at_] at fits
    exact fits
  simp only [sioStep, ScheduledIo.step, outside, Option.some.injEq] at taken
  subst taken
  refine known.goes sound (goto_other _ _ Who.noConfusion)
    (fun _ => goto_other _ _ Who.noConfusion) ?_ ?_ rfl rfl rfl (fun _ _ => blocks) ?_ rfl rfl
  · exact ⟨_, goto_self _ _ _⟩
  · intro tick isTick
    have same : s.sio.tick .read = tick := by simpa [State.tick, goto_self] using isTick
    rw [← same]
    exact known.counted _ (by simp only [State.tick, outside, at_])
  · rintro g (⟨m, no⟩ | ⟨⟨m, no⟩, -⟩) <;> cases no

/-- `clear_r` returns; it clears nothing that has come since the system call. -/
theorem known_cleared (known : Known s) (at_ : s.pc = .clearing n)
    (prompt : s.since = 0 ∨ ¬256 ∣ s.since) (taken : threadStep s.sio .task = some sio') :
    Known { s with sio := sio', pc := .create n } := by
  have sound : Sound .poller sio' := ScheduledIo.sound_threadStep known.sound taken
  obtain ⟨tick, stage⟩ : ∃ tick, s.sio.pc .task = .clear .read tick := by
    have fits := known.fits
    rw [at_] at fits
    exact fits
  have counted := known.counted tick (by simp only [State.tick, stage])
  simp only [threadStep, stage, Option.some.injEq] at taken
  subst taken
  -- an update of the word since then has made the tick another one
  have kept : s.since ≠ 0 →
      ScheduledIo.clear s.sio.readiness Direction.read.mask tick = s.sio.readiness := by
    intro later
    refine ScheduledIo.clear_eq_self_iff.mpr (.inl ?_)
    rw [counted]
    intro same
    exact prompt.elim later fun no => no ((ScheduledIo.add_ofNat_eq_self_iff tick _).mp same)
  refine
    { sound := sound
      poller := by simpa [ScheduledIo.State.goto] using known.poller
      writers := by simpa [ScheduledIo.State.goto] using known.writers
      fits := goto_self _ _ _
      counted := fun found isTick =>
        (tickless isTick (goto_self _ _ _) (fun _ no => Pc.noConfusion no)).elim
      promised := by
        intro ready
        rcases known.clearing n at_ ready with edge | ⟨hears, later⟩
        · exact .inl edge
        · refine .inr ?_
          show heard (ScheduledIo.clear s.sio.readiness Direction.read.mask tick) = true
          rw [kept later]
          exact hears
      clearing := fun _ no => Pc.noConfusion no
      waits := by rintro g (⟨m, no⟩ | ⟨⟨m, no⟩, -⟩) <;> cases no
      content := known.content }

/-- The reader moves on outside of the `ScheduledIO`. -/
theorem Known.moves {done : Nat → Bool} {pc : Pc} (known : Known s)
    (outside : s.sio.pc .task = .outside) (fits : Fits pc .outside)
    (other : ∀ n, pc ≠ .receive n) (notClearing : ∀ n, pc ≠ .clearing n)
    (waits : ∀ n fut, pc ≠ .awaiting n fut) :
    Known { s with done := done, pc := pc } where
  sound := known.sound
  poller := known.poller
  writers := known.writers
  fits := by
    show Fits pc (s.sio.pc .task)
    rw [outside]
    exact fits
  counted := fun _ isTick => (tickless isTick outside other).elim
  promised := known.promised
  clearing := fun n no => absurd no (notClearing n)
  waits := by
    rintro g (⟨m, no⟩ | ⟨-, unlock⟩)
    · exact absurd no (waits m g)
    · exact absurd (outside.symm.trans unlock) (fun no => nomatch no)
  content := known.content

theorem known_own (known : Known s) (prompt : Prompt s .own) (taken : own s = some s') :
    Known s' := by
  have fits := known.fits
  unfold own at taken
  cases at_ : s.pc with
  | idle => simp [at_] at taken
  | create n =>
      rw [at_] at fits
      have outside : s.sio.pc .task = .outside := fits
      simp only [at_] at taken
      obtain ⟨sio', moved, rfl⟩ := Option.map_eq_some_iff.mp taken
      have sound : Sound .poller sio' := ScheduledIo.sound_step known.sound moved
      simp only [sioStep, ScheduledIo.step, outside, Option.some.injEq] at moved
      subst moved
      refine known.goes sound (goto_other _ _ Who.noConfusion)
        (fun _ => goto_other _ _ Who.noConfusion) ?_ ?_ rfl rfl rfl
        (fun _ no => Pc.noConfusion no) ?_ rfl rfl
      · show Fits (.arming n s.futures) (ScheduledIo.State.pc (ScheduledIo.State.goto _ _ _) _)
        rw [goto_self]
        exact ⟨rfl, rfl⟩
      · intro tick isTick
        simp [State.tick, goto_self] at isTick
      · rintro g (⟨m, no⟩ | ⟨-, unlock⟩)
        · cases no
        · have unlock' : (s.sio.goto .task (.fastCheck .callback .read s.futures)).pc .task =
              .unlock .read false := unlock
          rw [goto_self] at unlock'
          cases unlock'
  | arming n fut =>
      simp only [at_] at taken
      obtain ⟨sio', moved, rfl⟩ := Option.map_eq_some_iff.mp taken
      exact known_arming known at_ moved
  | awaiting n fut =>
      rw [at_] at fits
      simp only [at_] at taken
      split at taken
      · obtain rfl := Option.some.inj taken
        exact known.moves fits rfl (fun _ no => Pc.noConfusion no) (fun _ no => Pc.noConfusion no)
          (fun _ _ no => Pc.noConfusion no)
      · cases taken
  | receive n =>
      rw [at_] at fits
      have outside : s.sio.pc .task = .outside := fits
      simp only [at_] at taken
      split at taken
      · obtain rfl := Option.some.inj taken
        have fewer : ({ s.kernel with queue := s.kernel.queue.drop n } : Kernel X).ready = true →
            s.kernel.ready = true := by
          unfold Kernel.ready
          cases s.kernel.queue with
          | nil =>
              intro ready
              simpa using ready
          | cons x rest =>
              intro _
              rfl
        exact
          { sound := known.sound
            poller := known.poller
            writers := known.writers
            fits := fits
            counted := fun _ isTick =>
              (tickless isTick outside (fun _ no => Pc.noConfusion no)).elim
            promised := fun ready => known.promised (fewer ready)
            clearing := fun _ no => Pc.noConfusion no
            waits := by rintro g (⟨m, no⟩ | ⟨⟨m, no⟩, -⟩) <;> cases no
            content := by
              show (s.returned ++ s.kernel.queue.take n) ++ s.kernel.queue.drop n = s.arrived
              rw [List.append_assoc, List.take_append_drop]
              exact known.content }
      · rename_i blocks
        obtain ⟨sio', moved, rfl⟩ := Option.map_eq_some_iff.mp taken
        exact known_clears known at_ (Bool.not_eq_true _ ▸ blocks) moved
  | clearing n =>
      simp only [at_] at taken
      obtain ⟨sio', moved, rfl⟩ := Option.map_eq_some_iff.mp taken
      exact known_cleared known at_ (prompt.2 n rfl at_) moved

/-! ## The poll thread -/

/-- The poll thread takes up an event. -/
theorem known_poll (known : Known s) (taken : sioStep s (.poll event) = some sio') :
    Known { s with sio := sio', edges := s.edges.erase event, since := s.since + 1 } := by
  have sound : Sound .poller sio' := ScheduledIo.sound_step known.sound taken
  simp only [sioStep, ScheduledIo.step] at taken
  split at taken
  · obtain rfl := Option.some.inj taken
    have task : (ScheduledIo.State.goto { s.sio with
        readiness := setReadiness s.sio.readiness (readinessFromEvent event) } .poller
          (.polled (readinessFromEvent event))).pc .task = s.sio.pc .task :=
      goto_other _ _ Who.noConfusion
    -- what was there is there, and what the event is for is heard
    have signalled : s.Edge ∨ heard s.sio.readiness = true →
        (∃ edge ∈ s.edges.erase event, wakesReader edge = true) ∨
          heard (setReadiness s.sio.readiness (readinessFromEvent event)) = true := by
      rintro (⟨edge, member, wakes⟩ | hears)
      · by_cases isEvent : edge = event
        · exact .inr (ScheduledIo.heard_setReadiness.mpr (.inr (isEvent ▸ heard_of_wakes wakes)))
        · exact .inl ⟨edge, (List.mem_erase_of_ne isEvent).mpr member, wakes⟩
      · exact .inr (ScheduledIo.heard_setReadiness.mpr (.inl hears))
    exact
      { sound := sound
        poller := .inr ⟨_, goto_self _ _ _⟩
        writers := by simpa [ScheduledIo.State.goto] using known.writers
        fits := by
          show Fits s.pc (ScheduledIo.State.pc (ScheduledIo.State.goto _ _ _) _)
          rw [task]
          exact known.fits
        counted := by
          intro tick isTick
          have before : s.tick = some tick := by
            unfold State.tick at isTick ⊢
            dsimp only at isTick
            rw [task] at isTick
            exact isTick
          show tickOf (setReadiness s.sio.readiness (readinessFromEvent event)) = _
          rw [ScheduledIo.tickOf_setReadiness _ (ScheduledIo.readinessFromEvent_apart event),
            known.counted tick before, BitVec.add_assoc]
          exact congrArg (tick + ·) (BitVec.ofNat_add s.since 1).symm
        promised := fun ready => signalled (known.promised ready)
        clearing := by
          intro n stage ready
          rcases signalled (known.promised ready) with edge | hears
          · exact .inl edge
          · exact .inr ⟨hears, Nat.succ_ne_zero _⟩
        waits := by
          intro fut waits
          refine known.waits fut ?_
          unfold Waits at waits ⊢
          dsimp only at waits
          rw [task] at waits
          exact waits
        content := known.content }
  · cases taken

/-- The poll thread wakes what its event is for. -/
theorem known_wake (known : Known s) (taken : threadStep s.sio .poller = some sio') :
    Known { s with sio := sio', due := s.due ++ handedOut sio' } := by
  have sound : Sound .poller sio' := ScheduledIo.sound_threadStep known.sound taken
  rcases known.poller with outside | ⟨ready, polled⟩
  · simp [threadStep, outside] at taken
  · simp only [threadStep, polled] at taken
    split at taken
    · cases taken
    · obtain rfl := Option.some.inj taken
      have task : (s.sio.wakeWith .poller ready).pc .task = s.sio.pc .task :=
        goto_other _ _ Who.noConfusion
      have slot : ∀ x, s.sio.waiters.readerCb = some x →
          (s.sio.wakeWith .poller ready).waiters.readerCb = some x ∨
            x.value ∈ handedOut (s.sio.wakeWith .poller ready) := by
        intro x filled
        by_cases masked : ready &&& ScheduledIo.Ready.readAll = 0
        · left
          simp [ScheduledIo.State.wakeWith, ScheduledIo.State.goto, ScheduledIo.wake, masked,
            filled]
        · right
          simpa [handedOut, ScheduledIo.State.wakeWith, ScheduledIo.State.goto, ScheduledIo.wake,
            filled] using masked
      exact
        { sound := sound
          poller := .inl (goto_self _ _ _)
          writers := by
            simpa [ScheduledIo.State.wakeWith, ScheduledIo.State.goto] using known.writers
          fits := by
            show Fits s.pc ((s.sio.wakeWith .poller ready).pc .task)
            rw [task]
            exact known.fits
          counted := by
            intro tick isTick
            refine known.counted tick ?_
            unfold State.tick at isTick ⊢
            dsimp only at isTick
            rw [task] at isTick
            exact isTick
          promised := known.promised
          clearing := known.clearing
          waits := by
            intro fut waits
            have before : Waits s fut := by
              unfold Waits at waits ⊢
              dsimp only at waits
              rw [task] at waits
              exact waits
            rcases known.waits fut before with done | due | ⟨x, filled, isFut⟩
            · exact .inl done
            · exact .inr (.inl (List.mem_append_left _ due))
            · rcases slot x filled with stays | handed
              · exact .inr (.inr ⟨x, stays, isFut⟩)
              · exact .inr (.inl (List.mem_append_right _ (isFut ▸ handed)))
          content := known.content }

/-- The poll thread calls a callback. -/
theorem known_call {rest : List Nat} (known : Known s) (due : s.due = fut :: rest) :
    Known { s with due := rest, done := Function.update s.done fut true } :=
  { known with
    waits := by
      intro g waits
      show Function.update s.done fut true g = true ∨ g ∈ rest ∨ _
      by_cases self : g = fut
      · rw [self, Function.update_self]
        exact .inl rfl
      · rw [Function.update_of_ne self]
        rcases known.waits g waits with done | member | filled
        · exact .inl done
        · rw [due] at member
          exact .inr (.inl ((List.mem_cons.mp member).resolve_left self))
        · exact .inr (.inr filled) }

/-! ## The kernel and the writers -/

theorem known_arrive {xs : List X} {ended : Bool} {edges : List PollEvent} (known : Known s)
    (rises : (s.kernel.ready || !({
      queue := s.kernel.queue ++ xs, ended := s.kernel.ended || ended } : Kernel X).ready ||
        (s.edges ++ edges).any wakesReader) = true) :
    Known { s with
      kernel := { queue := s.kernel.queue ++ xs, ended := s.kernel.ended || ended }
      edges := s.edges ++ edges
      arrived := s.arrived ++ xs } := by
  have more : s.Edge → ∃ edge ∈ s.edges ++ edges, wakesReader edge = true := by
    rintro ⟨edge, member, wakes⟩
    exact ⟨edge, List.mem_append_left _ member, wakes⟩
  have cases_ : ({ queue := s.kernel.queue ++ xs, ended := s.kernel.ended || ended } :
      Kernel X).ready = true → s.kernel.ready = true ∨
        ∃ edge ∈ s.edges ++ edges, wakesReader edge = true := by
    intro ready
    rw [ready, Bool.not_true, Bool.or_false, Bool.or_eq_true] at rises
    exact rises.imp id List.any_eq_true.mp
  exact
    { known with
      promised := by
        intro ready
        rcases cases_ ready with before | edge
        · exact (known.promised before).imp more id
        · exact .inl edge
      clearing := by
        intro n stage ready
        rcases cases_ ready with before | edge
        · exact (known.clearing n stage before).imp more id
        · exact .inl edge
      content := by
        show s.returned ++ (s.kernel.queue ++ xs) = s.arrived ++ xs
        rw [← List.append_assoc, known.content] }

/-- What a writer does beside the reader. -/
theorem aside_of_step {b : ScheduledIo.Act Who Nat}
    (writers : ∀ i, Writes (s.sio.pc (.writer i))) (allowed : mayWrite b = true)
    (taken : sioStep s b = some sio') :
    ∃ i, Aside (.writer i) s.sio sio' ∧ Writes (sio'.pc (.writer i)) := by
  have enters : ∀ (i : Nat) (pc : ScheduledIo.Pc Nat), Writes pc →
      ∃ j, Aside (.writer j) s.sio (s.sio.goto (.writer i) pc) ∧
        Writes ((s.sio.goto (.writer i) pc).pc (.writer j)) := by
    intro i pc still
    refine ⟨i, .goto _ _ rfl rfl rfl rfl, ?_⟩
    rw [goto_self]
    exact still
  cases b with
  | thread t =>
      cases t with
      | writer i => exact ⟨i, ScheduledIo.aside_of_threadStep (writers i) taken⟩
      | poller | task => cases allowed
  | arm t k d v =>
      cases t <;> cases d <;> try cases allowed
      simp only [sioStep, ScheduledIo.step] at taken
      split at taken
      · obtain rfl := Option.some.inj taken
        exact enters _ _ rfl
      · cases taken
  | clear t d =>
      cases t <;> cases d <;> try cases allowed
      simp only [sioStep, ScheduledIo.step] at taken
      split at taken
      · obtain rfl := Option.some.inj taken
        exact enters _ _ rfl
      · cases taken
  | consume t d =>
      cases t with
      | writer i =>
          cases d <;> try cases allowed
          simp only [sioStep, ScheduledIo.step] at taken
          split at taken
          · obtain rfl := Option.some.inj taken
            exact ⟨i, ⟨fun _ _ => rfl, ScheduledIo.heard_consume_write,
              ScheduledIo.tickOf_consume _ _, rfl, rfl⟩, writers i⟩
          · cases taken
      | poller | task => cases d <;> cases allowed
  | outOfMemory t =>
      cases t <;> try cases allowed
      simp only [sioStep, ScheduledIo.step] at taken
      split at taken
      · obtain rfl := Option.some.inj taken
        exact enters _ _ trivial
      · cases taken
  | shutdown t | poll event => cases allowed

theorem known_writes {b : ScheduledIo.Act Who Nat} (known : Known s)
    (taken : writes s b = some s') : Known s' := by
  unfold writes at taken
  split at taken
  · rename_i allowed
    obtain ⟨sio', moved, rfl⟩ := Option.map_eq_some_iff.mp taken
    obtain ⟨i, aside, still⟩ := aside_of_step known.writers allowed moved
    have task := aside.others .task Who.noConfusion
    have poller := aside.others .poller Who.noConfusion
    exact
      { sound := ScheduledIo.sound_step known.sound moved
        poller := by
          show sio'.pc .poller = _ ∨ ∃ ready, sio'.pc .poller = _
          rw [poller]
          exact known.poller
        writers := by
          intro j
          by_cases self : j = i
          · exact self ▸ still
          · show Writes (sio'.pc (.writer j))
            rw [aside.others (.writer j) fun same => self (Who.writer.inj same)]
            exact known.writers j
        fits := by
          show Fits s.pc (sio'.pc .task)
          rw [task]
          exact known.fits
        counted := by
          intro tick isTick
          show tickOf sio'.readiness = _
          rw [aside.tickOf]
          refine known.counted tick ?_
          unfold State.tick at isTick ⊢
          dsimp only at isTick
          rw [task, aside.tick] at isTick
          exact isTick
        promised := by
          show _ → _ ∨ heard sio'.readiness = true
          rw [aside.heard]
          exact known.promised
        clearing := by
          show ∀ n, _ → _ → _ ∨ heard sio'.readiness = true ∧ _
          rw [aside.heard]
          exact known.clearing
        waits := by
          intro fut waits
          show s.done fut = true ∨ fut ∈ s.due ∨ ∃ x, sio'.waiters.readerCb = some x ∧ _
          rw [aside.slot]
          refine known.waits fut ?_
          unfold Waits at waits ⊢
          dsimp only at waits
          rw [task] at waits
          exact waits
        content := known.content }
  · cases taken

/-! ## Every run -/

theorem known_step (known : Known s) (prompt : Prompt s a) (taken : step s a = some s') :
    Known s' := by
  have fits := known.fits
  cases a with
  | begin n =>
      simp only [step] at taken
      split at taken
      · rename_i at_
        obtain rfl := Option.some.inj taken
        rw [at_] at fits
        exact known.moves fits rfl (fun _ no => nomatch no) (fun _ no => nomatch no)
          (fun _ _ no => nomatch no)
      · cases taken
  | own => exact known_own known prompt taken
  | interrupt => exact absurd rfl prompt.1
  | cancel =>
      simp only [step] at taken
      split at taken
      · rename_i n fut at_
        obtain rfl := Option.some.inj taken
        rw [at_] at fits
        exact known.moves fits rfl (fun _ no => nomatch no) (fun _ no => nomatch no)
          (fun _ _ no => nomatch no)
      · cases taken
  | arrive xs ended edges =>
      simp only [step] at taken
      split at taken
      · rename_i rises
        obtain rfl := Option.some.inj taken
        exact known_arrive known rises
      · cases taken
  | poll event =>
      simp only [step] at taken
      split at taken
      · obtain ⟨sio', moved, rfl⟩ := Option.map_eq_some_iff.mp taken
        exact known_poll known moved
      · cases taken
  | wake =>
      obtain ⟨sio', moved, rfl⟩ := Option.map_eq_some_iff.mp taken
      exact known_wake known moved
  | call =>
      simp only [step] at taken
      split at taken
      · cases taken
      · rename_i fut rest due
        obtain rfl := Option.some.inj taken
        exact known_call known due
  | writes b => exact known_writes known taken

theorem known_of_reach (reached : (machine X).Reach Prompt s) : Known s := by
  refine reached.invariant Known ?_ (fun _ _ _ known prompt taken => known_step known prompt taken)
  rintro s ⟨sio, edge, -, -, idle, -, returned, arrived⟩
  have outside : ∀ t, s.sio.pc t = .outside := by
    intro t
    rw [sio]
    rfl
  exact
    { sound := sio ▸ ScheduledIo.sound_fresh
      poller := .inl (outside _)
      writers := by
        intro i
        rw [outside]
        trivial
      fits := by
        rw [idle, outside]
        rfl
      counted := by
        intro tick isTick
        exact (tickless isTick (outside _) (by rw [idle]; exact fun _ no => nomatch no)).elim
      promised := fun ready => .inl (edge ready)
      clearing := fun n no => absurd (idle.symm.trans no) (fun no => nomatch no)
      waits := by
        rintro fut (⟨n, no⟩ | ⟨⟨n, no⟩, -⟩)
        · exact absurd (idle.symm.trans no) (fun no => nomatch no)
        · exact absurd (idle.symm.trans no) (fun no => nomatch no)
      content := by rw [returned, arrived, List.nil_append] }

/-- What the calls have returned is what has arrived, in order, up to what the kernel still
has; and a task sleeps beside something to take only while the poll thread has an edge in
front of it, is about to wake the reader, or is about to complete the task's future. -/
theorem sock_recv_woken (reached : (machine X).Reach Prompt s) :
    s.returned ++ s.kernel.queue = s.arrived ∧
      ∀ n fut, s.pc = .awaiting n fut → s.done fut = false → s.kernel.ready = true →
        s.Edge ∨ fut ∈ s.due ∨
          ∃ ready, s.sio.pc .poller = .polled ready ∧ ready &&& Direction.read.mask ≠ 0 := by
  have known := known_of_reach reached
  refine ⟨known.content, ?_⟩
  intro n fut sleeps pending ready
  rcases known.waits fut (.inl ⟨n, sleeps⟩) with done | due | ⟨x, filled, -⟩
  · rw [pending] at done
    cases done
  · exact .inr (.inl due)
  · rcases known.promised ready with edge | hears
    · exact .inl edge
    · refine .inr (.inr (known.pending (.inl ?_) hears))
      show s.sio.waiters.readerCb.isSome = true
      rw [filled]
      rfl

/-- The check of `Prompt`. -/
def prompt (s : State X) (a : Act X) : Bool :=
  match a, s.pc with
  | .interrupt, _ => false
  | .own, .clearing _ => s.since == 0 || !decide (256 ∣ s.since)
  | _, _ => true

theorem prompt_sound (s : State X) (a : Act X) (checked : prompt s a = true) : Prompt s a := by
  constructor
  · rintro rfl
    cases checked
  · rintro n rfl stage
    simpa [prompt, stage] using checked

def freshSocket : State Nat where
  sio := ScheduledIo.fresh
  kernel := { queue := [], ended := false }
  edges := []
  due := []
  done _ := false
  futures := 0
  pc := .idle
  since := 0
  returned := []
  arrived := []

theorem freshSocket_start : (machine Nat).start freshSocket :=
  ⟨rfl, (fun no => nomatch no), rfl, rfl, rfl, rfl, rfl, rfl⟩

/-- An event that is readable. -/
def readableEvent : PollEvent :=
  ⟨true, false, false, false, false⟩

/-- A cancelled call leaves its callback in the slot; the next call parks beside it. -/
def parkedRun : List (Act Nat) :=
  [.begin 4] ++ List.replicate 6 .own ++ [.cancel, .begin 4] ++ List.replicate 6 .own

/-- Something comes, and the poll thread takes up its edge. -/
def arrivedRun : List (Act Nat) :=
  parkedRun ++ [.arrive [7, 8] false [readableEvent], .poll readableEvent]

theorem arrivedRun_ends :
    ((machine Nat).execIf prompt freshSocket arrivedRun).any (fun s =>
      decide (s.pc = .awaiting 4 1 ∧ s.done 1 = false ∧ s.kernel.ready = true ∧ s.edges = [] ∧
        s.due = [])) = true := by
  decide +kernel

theorem sock_recv_woken_arrived :
    ∃ s : State Nat, s.pc = .awaiting 4 1 ∧
      ∃ ready, s.sio.pc .poller = .polled ready ∧ ready &&& Direction.read.mask ≠ 0 := by
  obtain ⟨s, reached, ends⟩ :=
    Machine.Reach.exists_of_execIf prompt_sound freshSocket_start arrivedRun_ends
  obtain ⟨sleeps, pending, ready, noEdge, noneDue⟩ := of_decide_eq_true ends
  rcases (sock_recv_woken reached).2 4 1 sleeps pending ready with ⟨edge, member, -⟩ | due | woken
  · rw [noEdge] at member
    cases member
  · rw [noneDue] at due
    cases due
  · exact ⟨s, sleeps, woken⟩

/-- A call is woken, and its system call is interrupted. -/
def interruptedRun : List (Act Nat) :=
  [.arrive [7, 8] false [readableEvent], .poll readableEvent, .wake, .begin 4] ++
    List.replicate 4 .own ++ [.interrupt, .own] ++ List.replicate 6 .own

theorem interruptedRun_ends :
    ((machine Nat).exec freshSocket interruptedRun).any (fun s =>
      decide (s.pc = .awaiting 4 1 ∧ s.done 1 = false ∧ s.kernel.ready = true ∧ s.edges = [] ∧
        s.due = [] ∧ s.sio.pc .poller = .outside)) = true := by
  decide +kernel

/-- A clear for an `InterruptedError` takes the bit of what is there, and leaves the task
asleep beside it. -/
theorem interrupt_strands :
    ∃ s : State Nat, (machine Nat).Reachable s ∧ s.pc = .awaiting 4 1 ∧ s.done 1 = false ∧
      s.kernel.ready = true ∧ s.edges = [] ∧ s.due = [] ∧ s.sio.pc .poller = .outside := by
  obtain ⟨s, reached, ends⟩ :=
    Machine.Reachable.exists_of_exec freshSocket_start interruptedRun_ends
  exact ⟨s, reached, of_decide_eq_true ends⟩

end MtAsyncio.SockRecv
