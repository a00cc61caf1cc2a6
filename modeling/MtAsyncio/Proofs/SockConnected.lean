/-
Module: MtAsyncio.Proofs.SockConnected
Purpose: What `sock_connect` reports: when `SO_ERROR` is never read before the
  connection is established or has failed, it returns on established connections
  only, and a connection that fails is bound to end in its `OSError`; a read that
  comes earlier reports success for no connection.
Trusted boundary: none
Main exports: Timely, Honest, sock_connect_honest, early_read_returns, Fresh,
  timely_of_fresh
-/
import MtAsyncio.Model.SockConnect
import MtAsyncio.Proofs.ReadinessHandshake

namespace MtAsyncio.SockConnect

open Lib (Machine)
open ScheduledIo (Direction PollEvent Sound readinessFromEvent readyOrShut setReadiness threadStep)

variable {s s' : State} {a : Act} {fut err : Nat} {event : PollEvent}
variable {sio sio' : ScheduledIo.State Who Nat} {word : BitVec 64}

/-! ## The readiness word -/

/-- `set_readiness` keeps what is ready, and makes ready what the event is for. -/
theorem readyOrShut_setReadiness
    (ready : readyOrShut word .write = true ∨ wakesWriter event = true) :
    readyOrShut (setReadiness word (readinessFromEvent event)) .write = true := by
  rw [ScheduledIo.readyOrShut_iff]
  have bits : ∀ {i}, i < 6 → (setReadiness word (readinessFromEvent event)).getLsbD i =
      (word.getLsbD i || (readinessFromEvent event).getLsbD i) := by
    intro i below
    exact ScheduledIo.setReadiness_getLsbD _ _ (by omega)
  obtain was | takes := ready
  · obtain ⟨i, bit, tested⟩ := ScheduledIo.readyOrShut_iff.mp was
    refine ⟨i, ?_, tested⟩
    rw [bits (ScheduledIo.getLsbD_tested tested), bit, Bool.true_or]
  · obtain ⟨i, bit, masked⟩ := ScheduledIo.and_ne_zero_iff.mp (bne_iff_ne.mp takes)
    have tested : (Direction.write.mask ||| ScheduledIo.Ready.shutdown).getLsbD i = true := by
      rw [BitVec.getLsbD_or, masked, Bool.true_or]
    refine ⟨i, ?_, tested⟩
    rw [bits (ScheduledIo.getLsbD_tested tested), bit, Bool.or_true]

/-! ## Inside of `arm_w_cb` -/

/-- The counters of `arm_w_cb`, called with the callback of `fut`. -/
def inArm (fut : Nat) : ScheduledIo.Pc Nat → Bool
  | .fastCheck .callback .write v | .lock .callback .write v | .recheck .callback .write v
  | .store .callback .write v => v = fut
  | .unlock .write _ | .currentTick .write | .storeTick .write _ => true
  | _ => false

/-- One step of `arm_w_cb`, where `ready` tells whether it finds the direction
ready. -/
inductive ArmMove (ready : Bool) (fut : Nat) : ScheduledIo.Pc Nat → ScheduledIo.Pc Nat → Prop where
  | found (isReady : ready = true) :
      ArmMove ready fut (.fastCheck .callback .write fut) (.currentTick .write)
  | missed (unready : ready = false) :
      ArmMove ready fut (.fastCheck .callback .write fut) (.lock .callback .write fut)
  | locks : ArmMove ready fut (.lock .callback .write fut) (.recheck .callback .write fut)
  | refound (isReady : ready = true) :
      ArmMove ready fut (.recheck .callback .write fut) (.unlock .write true)
  | remissed (unready : ready = false) :
      ArmMove ready fut (.recheck .callback .write fut) (.store .callback .write fut)
  | stores : ArmMove ready fut (.store .callback .write fut) (.unlock .write false)
  | unlocks : ArmMove ready fut (.unlock .write true) (.currentTick .write)
  | parks : ArmMove ready fut (.unlock .write false) .outside
  | loads (tick : BitVec 8) : ArmMove ready fut (.currentTick .write) (.storeTick .write tick)
  | leaves (tick : BitVec 8) : ArmMove ready fut (.storeTick .write tick) .outside

/-- What a step of `arm_w_cb` does. -/
structure Armed (fut : Nat) (sio sio' : ScheduledIo.State Who Nat) : Prop where
  move : ArmMove (readyOrShut sio.readiness .write) fut (sio.pc .task) (sio'.pc .task)
  readiness : sio'.readiness = sio.readiness
  poller : sio'.pc .poller = sio.pc .poller
  stored : sio'.pc .task = .unlock .write false →
    ∃ x, sio'.waiters.writerCb = some x ∧ x.value = fut
  kept : sio'.pc .task ≠ .unlock .write false → sio'.waiters.writerCb = sio.waiters.writerCb

theorem goto_task (sio : ScheduledIo.State Who Nat) (pc : ScheduledIo.Pc Nat) :
    (sio.goto .task pc).pc .task = pc ∧ (sio.goto .task pc).pc .poller = sio.pc .poller := by
  simp [ScheduledIo.State.goto]

theorem armed_of_step (inside : inArm fut (sio.pc .task) = true)
    (taken : threadStep sio .task = some sio') : Armed fut sio sio' := by
  have goes : ∀ {pc : ScheduledIo.Pc Nat} {r : ScheduledIo.State Who Nat},
      r.pc = sio.pc → r.readiness = sio.readiness → r.waiters = sio.waiters →
        ArmMove (readyOrShut sio.readiness .write) fut (sio.pc .task) pc →
          pc ≠ .unlock .write false → Armed fut sio (r.goto .task pc) := by
    intro pc r pcs readiness waiters move other
    obtain ⟨task, poller⟩ := goto_task r pc
    refine ⟨task ▸ move, readiness, poller.trans (congrFun pcs .poller), ?_, ?_⟩
    · rw [task]
      exact fun same => absurd same other
    · exact fun _ => congrArg ScheduledIo.Waiters.writerCb waiters
  unfold threadStep at taken
  cases at_ : sio.pc .task with
  | fastCheck k d v =>
      rw [at_] at inside goes
      simp only [at_] at taken
      cases k <;> cases d <;> simp only [inArm, decide_eq_true_eq, Bool.false_eq_true] at inside
      subst inside
      split at taken
      · rename_i ready
        obtain rfl := Option.some.inj taken
        exact goes rfl rfl rfl (.found ready) (by rintro ⟨⟩)
      · rename_i unready
        obtain rfl := Option.some.inj taken
        exact goes rfl rfl rfl (.missed (Bool.not_eq_true _ ▸ unready)) (by rintro ⟨⟩)
  | lock k d v =>
      rw [at_] at inside goes
      simp only [at_] at taken
      cases k <;> cases d <;> simp only [inArm, decide_eq_true_eq, Bool.false_eq_true] at inside
      subst inside
      split at taken
      · cases taken
      · obtain rfl := Option.some.inj taken
        exact goes rfl rfl rfl .locks (by rintro ⟨⟩)
  | recheck k d v =>
      rw [at_] at inside goes
      simp only [at_] at taken
      cases k <;> cases d <;> simp only [inArm, decide_eq_true_eq, Bool.false_eq_true] at inside
      subst inside
      obtain rfl := Option.some.inj taken
      cases ready : readyOrShut sio.readiness .write with
      | true => exact goes rfl rfl rfl (.refound ready) (by rintro ⟨⟩)
      | false => exact goes rfl rfl rfl (.remissed ready) (by rintro ⟨⟩)
  | store k d v =>
      rw [at_] at inside
      simp only [at_] at taken
      cases k <;> cases d <;> simp only [inArm, decide_eq_true_eq, Bool.false_eq_true] at inside
      subst inside
      obtain rfl := Option.some.inj taken
      refine ⟨?_, rfl, (goto_task _ _).2, fun _ => ⟨_, rfl, rfl⟩, ?_⟩
      · rw [at_, (goto_task _ _).1]
        exact .stores
      · rw [(goto_task _ _).1]
        exact fun other => absurd rfl other
  | unlock d ready =>
      rw [at_] at inside goes
      simp only [at_] at taken
      cases d <;> simp only [inArm, Bool.false_eq_true] at inside
      obtain rfl := Option.some.inj taken
      cases ready with
      | true => exact goes rfl rfl rfl .unlocks (by rintro ⟨⟩)
      | false => exact goes rfl rfl rfl .parks (by rintro ⟨⟩)
  | currentTick d =>
      rw [at_] at inside goes
      simp only [at_] at taken
      cases d <;> simp only [inArm, Bool.false_eq_true] at inside
      obtain rfl := Option.some.inj taken
      exact goes rfl rfl rfl (.loads _) (by rintro ⟨⟩)
  | storeTick d tick =>
      rw [at_] at inside goes
      simp only [at_] at taken
      cases d <;> simp only [inArm, Bool.false_eq_true] at inside
      obtain rfl := Option.some.inj taken
      exact goes rfl rfl rfl (.leaves _) (by rintro ⟨⟩)
  | outside | allocate | clear | polled | shut =>
      rw [at_] at inside
      cases inside

/-! ## Every run -/

/-- Where the task is in the `ScheduledIO`; `clear_w` is never called. -/
def Fits : Pc → ScheduledIo.Pc Nat → Prop
  | .arming fut, at_ => inArm fut at_ = true
  | .clearing, _ => False
  | _, at_ => at_ = .outside

/-- The callback of `fut` was stored. -/
def Waits (s : State) (fut : Nat) : Prop :=
  s.pc = .awaiting fut ∨ s.pc = .arming fut ∧ s.sio.pc .task = .unlock .write false

/-- The poll thread is between its update of the word and a wake of the writer. -/
def Waking (sio : ScheduledIo.State Who Nat) : Prop :=
  ∃ ready, sio.pc .poller = .polled ready ∧ ready &&& Direction.write.mask ≠ 0

/-- What holds of the task, the `ScheduledIO` and the socket in every run. -/
structure Known (s : State) : Prop where
  sound : Sound .poller s.sio
  poller : s.sio.pc .poller = .outside ∨ ∃ ready, s.sio.pc .poller = .polled ready
  fits : Fits s.pc (s.sio.pc .task)
  error : s.soError ≠ 0 → s.socket = .failed s.soError ∧ isFailure s.soError = true
  failed : ∀ err, s.socket = .failed err → s.pc = .raised err ∨ s.soError = err ∧ err ≠ 0
  raised : ∀ err, s.pc = .raised err → s.socket = .failed err
  begun : s.pc = .register ∨ s.pc = .connect → s.socket = .unconnected
  promised : s.socket.settled = true → (∃ edge ∈ s.edges, wakesWriter edge = true) ∨
    readyOrShut s.sio.readiness .write = true ∨ ∃ err, s.pc = .raised err
  waits : ∀ fut, Waits s fut → s.done fut = true ∨ fut ∈ s.due ∨
    ∃ x, s.sio.waiters.writerCb = some x ∧ x.value = fut
  ready : (∃ fut, s.done fut = true) ∨ s.due ≠ [] ∨ Waking s.sio →
    readyOrShut s.sio.readiness .write = true

/-- What changes beside the task: the socket, the edges, the poll thread. -/
theorem Known.around (known : Known s) (pc : s'.pc = s.pc) (sio : s'.sio = s.sio)
    (due : s'.due = s.due) (done : s'.done = s.done)
    (error : s'.soError ≠ 0 → s'.socket = .failed s'.soError ∧ isFailure s'.soError = true)
    (failed : ∀ err, s'.socket = .failed err → s'.pc = .raised err ∨ s'.soError = err ∧ err ≠ 0)
    (raised : ∀ err, s'.pc = .raised err → s'.socket = .failed err)
    (begun : s'.pc = .register ∨ s'.pc = .connect → s'.socket = .unconnected)
    (promised : s'.socket.settled = true → (∃ edge ∈ s'.edges, wakesWriter edge = true) ∨
      readyOrShut s'.sio.readiness .write = true ∨ ∃ err, s'.pc = .raised err) : Known s' := by
  refine ⟨?_, ?_, ?_, error, failed, raised, begun, promised, ?_, ?_⟩
  · rw [sio]
    exact known.sound
  · rw [sio]
    exact known.poller
  · rw [sio, pc]
    exact known.fits
  · intro fut waits
    unfold Waits at waits
    rw [pc, sio] at waits
    rw [sio, due, done]
    exact known.waits fut waits
  · rw [sio, due, done]
    exact known.ready

/-- The task makes a step of its own; the socket and the poll thread do not
notice. -/
theorem Known.goes (known : Known s) (sound : Sound .poller s'.sio)
    (poller : s'.sio.pc .poller = s.sio.pc .poller) (fits : Fits s'.pc (s'.sio.pc .task))
    (readiness : s'.sio.readiness = s.sio.readiness) (socket : s'.socket = s.socket)
    (soError : s'.soError = s.soError) (edges : s'.edges = s.edges) (due : s'.due = s.due)
    (done : s'.done = s.done) (unraised : ∀ err, s.pc ≠ .raised err)
    (unraised' : ∀ err, s'.pc ≠ .raised err) (begun : s'.pc ≠ .register ∧ s'.pc ≠ .connect)
    (waits : ∀ fut, Waits s' fut → s.done fut = true ∨ fut ∈ s.due ∨
      ∃ x, s'.sio.waiters.writerCb = some x ∧ x.value = fut) : Known s' := by
  refine ⟨sound, ?_, fits, ?_, ?_, ?_, ?_, ?_, ?_, ?_⟩
  · rw [poller]
    exact known.poller
  · rw [soError, socket]
    exact known.error
  · intro err isFailed
    rw [socket] at isFailed
    rw [soError]
    exact .inr ((known.failed err isFailed).resolve_left (unraised err))
  · intro err isRaised
    exact absurd isRaised (unraised' err)
  · rintro (isRegister | isConnect)
    · exact absurd isRegister begun.1
    · exact absurd isConnect begun.2
  · rw [socket, edges, readiness]
    intro settled
    obtain edge | ready | ⟨err, isRaised⟩ := known.promised settled
    · exact .inl edge
    · exact .inr (.inl ready)
    · exact absurd isRaised (unraised err)
  · rw [due, done]
    exact waits
  · unfold Waking
    rw [due, done, poller, readiness]
    exact known.ready

theorem known_arming (known : Known s) (at_ : s.pc = .arming fut)
    (taken : threadStep s.sio .task = some sio') :
    Armed fut s.sio sio' ∧ Known { s with sio := sio', pc := s.afterArm fut } := by
  have inside : inArm fut (s.sio.pc .task) = true := by
    have fits := known.fits
    rw [at_] at fits
    exact fits
  have armed := armed_of_step inside taken
  have sound : Sound .poller sio' := ScheduledIo.sound_threadStep known.sound taken
  refine ⟨armed, ?_⟩
  have goes : ∀ pc, s.afterArm fut = pc → Fits pc (sio'.pc .task) → (∀ err, pc ≠ .raised err) →
      pc ≠ .register ∧ pc ≠ .connect →
        (∀ g, Waits { s with sio := sio', pc := pc } g → s.done g = true ∨ g ∈ s.due ∨
          ∃ x, sio'.waiters.writerCb = some x ∧ x.value = g) →
            Known { s with sio := sio', pc := s.afterArm fut } := by
    rintro pc rfl fits unraised begun waits
    exact known.goes sound armed.poller fits armed.readiness rfl rfl rfl rfl rfl
      (by rw [at_]; rintro _ ⟨⟩) unraised begun waits
  have stays : s.afterArm fut = .arming fut → inArm fut (sio'.pc .task) = true →
      sio'.pc .task ≠ .unlock .write false →
        Known { s with sio := sio', pc := s.afterArm fut } := by
    intro pc inside other
    refine goes _ pc inside (by rintro _ ⟨⟩) ⟨by rintro ⟨⟩, by rintro ⟨⟩⟩ ?_
    rintro g (⟨⟨⟩⟩ | ⟨-, unlock⟩)
    exact absurd unlock other
  have move := armed.move
  generalize before : s.sio.pc .task = x at move
  generalize behind : sio'.pc .task = y at move
  cases move with
  | found | missed | locks | refound | remissed | unlocks | loads =>
      refine stays ?_ ?_ ?_
      · simp only [State.afterArm, before]
      · simp [behind, inArm]
      · rw [behind]
        rintro ⟨⟩
  | stores =>
      refine goes (.arming fut) ?_ ?_ (by rintro _ ⟨⟩) ⟨by rintro ⟨⟩, by rintro ⟨⟩⟩ ?_
      · simp only [State.afterArm, before]
      · simp [behind, Fits, inArm]
      · rintro g (⟨⟨⟩⟩ | ⟨⟨⟩, unlock⟩)
        exact .inr (.inr (armed.stored unlock))
  | parks =>
      refine goes (.awaiting fut) ?_ ?_ (by rintro _ ⟨⟩) ⟨by rintro ⟨⟩, by rintro ⟨⟩⟩ ?_
      · simp only [State.afterArm, before]
      · exact behind
      · rintro g (⟨⟨⟩⟩ | ⟨⟨⟩, -⟩)
        show _ ∨ _ ∨ ∃ x, sio'.waiters.writerCb = some x ∧ _
        rw [armed.kept (by rw [behind]; rintro ⟨⟩)]
        exact known.waits fut (.inr ⟨at_, before⟩)
  | leaves tick =>
      refine goes .readError ?_ behind (by rintro _ ⟨⟩) ⟨by rintro ⟨⟩, by rintro ⟨⟩⟩ ?_
      · simp only [State.afterArm, before]
      · rintro g (⟨⟨⟩⟩ | ⟨⟨⟩, -⟩)

/-- The steps of `sock_connect`; it never finds an error that it clears for. -/
inductive OwnMove (s s' : State) : Prop where
  | calls (at_ : s.pc = .create) (outside : s.sio.pc .task = .outside)
      (same : s' = { s with
        sio := s.sio.goto .task (.fastCheck .callback .write s.futures)
        futures := s.futures + 1
        pc := .arming s.futures })
  | arms (fut : Nat) (sio' : ScheduledIo.State Who Nat) (at_ : s.pc = .arming fut)
      (taken : threadStep s.sio .task = some sio')
      (same : s' = { s with sio := sio', pc := s.afterArm fut })
  | resumes (fut : Nat) (at_ : s.pc = .awaiting fut) (done : s.done fut = true)
      (same : s' = { s with pc := .create })
  | returns (at_ : s.pc = .readError) (none : s.soError = 0)
      (same : s' = { s with pc := .returned })
  | raises (at_ : s.pc = .readError) (some_ : s.soError ≠ 0)
      (same : s' = { s with soError := 0, pc := .raised s.soError })

theorem own_move (known : Known s) (taken : own s = some s') : OwnMove s s' := by
  have fits := known.fits
  unfold own at taken
  cases at_ : s.pc with
  | create =>
      rw [at_] at fits
      have outside : s.sio.pc .task = .outside := fits
      simp only [at_, sioStep, ScheduledIo.step, outside, Option.map_some] at taken
      exact .calls at_ outside (Option.some.inj taken).symm
  | arming fut =>
      simp only [at_] at taken
      obtain ⟨sio', moved, same⟩ := Option.map_eq_some_iff.mp taken
      exact .arms fut sio' at_ moved same.symm
  | awaiting fut =>
      simp only [at_] at taken
      split at taken
      · rename_i done
        exact .resumes fut at_ done (Option.some.inj taken).symm
      · cases taken
  | readError =>
      simp only [at_] at taken
      split at taken
      · rename_i none
        exact .returns at_ none (Option.some.inj taken).symm
      · rename_i some_
        have failure := (known.error some_).2
        have blocks : wouldBlock s.soError = false := by
          simp only [isFailure, Bool.and_eq_true, Bool.not_eq_true'] at failure
          exact failure.2
        rw [blocks] at taken
        exact .raises at_ some_ (Option.some.inj taken).symm
  | clearing =>
      rw [at_] at fits
      exact fits.elim
  | register | connect | returned | raised => simp [at_] at taken

theorem known_own (known : Known s) (taken : own s = some s') : Known s' := by
  have fits := known.fits
  cases own_move known taken with
  | calls at_ outside same =>
      subst same
      obtain ⟨task, poller⟩ := goto_task s.sio (.fastCheck .callback .write s.futures)
      have sound : Sound .poller (s.sio.goto .task (.fastCheck .callback .write s.futures)) := by
        refine ScheduledIo.sound_step (a := .arm .task .callback .write s.futures) known.sound ?_
        simp only [ScheduledIo.step, outside]
      refine known.goes sound poller ?_ rfl rfl rfl rfl rfl rfl (by rw [at_]; rintro _ ⟨⟩)
        (by rintro _ ⟨⟩) ⟨by rintro ⟨⟩, by rintro ⟨⟩⟩ ?_
      · show inArm s.futures _ = true
        rw [task]
        simp [inArm]
      · rintro g (⟨⟨⟩⟩ | ⟨-, unlock⟩)
        change (s.sio.goto .task _).pc .task = _ at unlock
        rw [task] at unlock
        cases unlock
  | arms fut sio' at_ moved same =>
      subst same
      exact (known_arming known at_ moved).2
  | resumes fut at_ done same =>
      subst same
      rw [at_] at fits
      refine known.goes known.sound rfl fits rfl rfl rfl rfl rfl rfl (by rw [at_]; rintro _ ⟨⟩)
        (by rintro _ ⟨⟩) ⟨by rintro ⟨⟩, by rintro ⟨⟩⟩ ?_
      rintro g (⟨⟨⟩⟩ | ⟨⟨⟩, -⟩)
  | returns at_ none same =>
      subst same
      rw [at_] at fits
      refine known.goes known.sound rfl fits rfl rfl rfl rfl rfl rfl (by rw [at_]; rintro _ ⟨⟩)
        (by rintro _ ⟨⟩) ⟨by rintro ⟨⟩, by rintro ⟨⟩⟩ ?_
      rintro g (⟨⟨⟩⟩ | ⟨⟨⟩, -⟩)
  | raises at_ some_ same =>
      subst same
      rw [at_] at fits
      have failed := (known.error some_).1
      refine ⟨known.sound, known.poller, fits, fun more => absurd rfl more, ?_, ?_, ?_, ?_, ?_,
        known.ready⟩
      · intro err isFailed
        left
        rw [failed] at isFailed
        cases isFailed
        rfl
      · rintro err ⟨⟩
        exact failed
      · rintro (⟨⟨⟩⟩ | ⟨⟨⟩⟩)
      · exact fun _ => .inr (.inr ⟨_, rfl⟩)
      · rintro g (⟨⟨⟩⟩ | ⟨⟨⟩, -⟩)

/-! ### The poll thread -/

theorem poll_spec (taken : sioStep s (.poll event) = some sio') :
    s.sio.pc .poller = .outside ∧ sio'.pc .poller = .polled (readinessFromEvent event) ∧
      sio'.pc .task = s.sio.pc .task ∧ sio'.waiters = s.sio.waiters ∧
        sio'.readiness = setReadiness s.sio.readiness (readinessFromEvent event) := by
  simp only [sioStep, ScheduledIo.step] at taken
  split at taken
  · rename_i outside
    obtain rfl := Option.some.inj taken
    refine ⟨outside, ?_, ?_, rfl, rfl⟩
    · simp [ScheduledIo.State.goto]
    · simp [ScheduledIo.State.goto]
  · cases taken

theorem known_poll (known : Known s) (taken : sioStep s (.poll event) = some sio') :
    Known { s with sio := sio', edges := s.edges.erase event } := by
  obtain ⟨-, poller, task, waiters, readiness⟩ := poll_spec taken
  have stays : readyOrShut s.sio.readiness .write = true →
      readyOrShut sio'.readiness .write = true := by
    intro ready
    rw [readiness]
    exact readyOrShut_setReadiness (.inl ready)
  have takes : wakesWriter event = true → readyOrShut sio'.readiness .write = true := by
    intro wakes
    rw [readiness]
    exact readyOrShut_setReadiness (.inr wakes)
  refine ⟨ScheduledIo.sound_step known.sound taken, .inr ⟨_, poller⟩, ?_, known.error,
    known.failed, known.raised, known.begun, ?_, ?_, ?_⟩
  · show Fits s.pc (sio'.pc .task)
    rw [task]
    exact known.fits
  · intro settled
    obtain ⟨edge, member, wakes⟩ | ready | isRaised := known.promised settled
    · by_cases isEvent : edge = event
      · exact .inr (.inl (takes (isEvent ▸ wakes)))
      · exact .inl ⟨edge, (List.mem_erase_of_ne isEvent).mpr member, wakes⟩
    · exact .inr (.inl (stays ready))
    · exact .inr (.inr isRaised)
  · intro fut waits
    show _ ∨ _ ∨ ∃ x, sio'.waiters.writerCb = some x ∧ _
    rw [waiters]
    refine known.waits fut ?_
    unfold Waits at waits ⊢
    rwa [← task]
  · rintro (done | due | ⟨ready, polled, masked⟩)
    · exact stays (known.ready (.inl done))
    · exact stays (known.ready (.inr (.inl due)))
    · refine takes (bne_iff_ne.mpr ?_)
      rw [poller] at polled
      cases polled
      exact masked

/-- A wake hands out the callback if its event is for the writer. -/
structure Woken (sio sio' : ScheduledIo.State Who Nat) : Prop where
  free : sio.mutex = none
  poller : sio'.pc .poller = .outside
  task : sio'.pc .task = sio.pc .task
  readiness : sio'.readiness = sio.readiness
  takes : ∀ x, sio.waiters.writerCb = some x →
    sio'.waiters.writerCb = some x ∨ x.value ∈ handedOut sio'
  waking : handedOut sio' ≠ [] → Waking sio
  one : (handedOut sio').length ≤ 1

theorem woken_of_step (known : Known s) (taken : threadStep s.sio .poller = some sio') :
    (∃ ready, s.sio.pc .poller = .polled ready) ∧ Woken s.sio sio' := by
  obtain outside | ⟨ready, polled⟩ := known.poller
  · simp [threadStep, outside] at taken
  · refine ⟨⟨ready, polled⟩, ?_⟩
    simp only [threadStep, polled] at taken
    split at taken
    · cases taken
    · rename_i free
      obtain rfl := Option.some.inj taken
      refine ⟨by simpa using free, ?_, ?_, rfl, ?_, ?_, ?_⟩
      · simp [ScheduledIo.State.wakeWith, ScheduledIo.State.goto]
      · simp [ScheduledIo.State.wakeWith, ScheduledIo.State.goto]
      · intro x filled
        by_cases masked : ready &&& ScheduledIo.Ready.writeAll = 0
        · left
          simp [ScheduledIo.State.wakeWith, ScheduledIo.State.goto, ScheduledIo.wake, masked,
            filled]
        · right
          simpa [handedOut, ScheduledIo.State.wakeWith, ScheduledIo.State.goto, ScheduledIo.wake,
            filled] using masked
      · intro some_
        refine ⟨ready, polled, ?_⟩
        intro masked
        change ready &&& ScheduledIo.Ready.writeAll = 0 at masked
        simp [handedOut, ScheduledIo.State.wakeWith, ScheduledIo.State.goto, ScheduledIo.wake,
          masked] at some_
      · show (Option.toList _).length ≤ 1
        exact Option.length_toList_le

theorem known_wake (known : Known s) (taken : threadStep s.sio .poller = some sio') :
    Known { s with sio := sio', due := s.due ++ handedOut sio' } := by
  obtain ⟨-, -, poller, task, readiness, takes, waking, -⟩ := woken_of_step known taken
  refine ⟨ScheduledIo.sound_threadStep known.sound taken, .inl poller, ?_, known.error,
    known.failed, known.raised, known.begun, ?_, ?_, ?_⟩
  · show Fits s.pc (sio'.pc .task)
    rw [task]
    exact known.fits
  · show _ → _ ∨ readyOrShut sio'.readiness .write = true ∨ _
    rw [readiness]
    exact known.promised
  · intro fut waits
    have waited : Waits s fut := by
      unfold Waits at waits ⊢
      rwa [← task]
    show _ ∨ fut ∈ s.due ++ handedOut sio' ∨ ∃ x, sio'.waiters.writerCb = some x ∧ _
    rw [List.mem_append]
    obtain done | due | ⟨x, filled, rfl⟩ := known.waits fut waited
    · exact .inl done
    · exact .inr (.inl (.inl due))
    · obtain stays | handed := takes x filled
      · exact .inr (.inr ⟨x, stays, rfl⟩)
      · exact .inr (.inl (.inr handed))
  · show _ → readyOrShut sio'.readiness .write = true
    rw [readiness]
    rintro (done | due | ⟨ready, polled, -⟩)
    · exact known.ready (.inl done)
    · by_cases none : s.due = []
      · refine known.ready (.inr (.inr (waking ?_)))
        intro nothing
        exact due (by simp [none, nothing])
      · exact known.ready (.inr (.inl none))
    · change sio'.pc .poller = _ at polled
      rw [poller] at polled
      cases polled

theorem known_call {rest : List Nat} (known : Known s) (due : s.due = fut :: rest) :
    Known { s with due := rest, done := Function.update s.done fut true } := by
  refine ⟨known.sound, known.poller, known.fits, known.error, known.failed, known.raised,
    known.begun, known.promised, ?_, ?_⟩
  · intro g waits
    show Function.update s.done fut true g = true ∨ g ∈ rest ∨ _
    rw [Function.update_apply]
    split
    · exact .inl rfl
    · rename_i other
      obtain done | member | filled := known.waits g waits
      · exact .inl done
      · rw [due] at member
        exact .inr (.inl ((List.mem_cons.mp member).resolve_left other))
      · exact .inr (.inr filled)
  · intro _
    exact known.ready (.inr (.inl (by rw [due]; rintro ⟨⟩)))

/-! ### The kernel -/

theorem known_settle {socket : Socket} {edge : PollEvent} (known : Known s)
    (connecting : s.socket = .connecting) (wakes : wakesWriter edge = true)
    (error : err ≠ 0 → socket = .failed err ∧ isFailure err = true)
    (failed : ∀ err', socket = .failed err' → err = err' ∧ err' ≠ 0) :
    Known (s.settle socket err edge) := by
  have unraised : ∀ err', s.pc ≠ .raised err' := by
    intro err' isRaised
    rw [known.raised err' isRaised] at connecting
    cases connecting
  refine known.around rfl rfl rfl rfl error ?_ ?_ ?_ ?_
  · intro err' isFailed
    exact .inr (failed err' isFailed)
  · intro err' isRaised
    exact absurd isRaised (unraised err')
  · intro begun
    rw [known.begun begun] at connecting
    cases connecting
  · exact fun _ => .inl ⟨edge, List.mem_cons_self, wakes⟩

theorem known_connect {reply : Reply} (known : Known s) (at_ : s.pc = .connect)
    (taken : connectStep s reply = some s') : Known s' := by
  have fits := known.fits
  rw [at_] at fits
  have unconnected := known.begun (.inr at_)
  have noError : s.soError = 0 := by
    by_contra some_
    rw [(known.error some_).1] at unconnected
    cases unconnected
  have waits : ∀ {r : State}, r.pc = .create ∨ (∃ err, r.pc = .raised err) → ∀ g, ¬Waits r g := by
    rintro r pc g (awaiting | ⟨arming, -⟩)
    · obtain create | ⟨err, raised⟩ := pc
      · rw [create] at awaiting
        cases awaiting
      · rw [raised] at awaiting
        cases awaiting
    · obtain create | ⟨err, raised⟩ := pc
      · rw [create] at arming
        cases arming
      · rw [raised] at arming
        cases arming
  cases reply with
  | established edge =>
      simp only [connectStep] at taken
      split at taken
      · rename_i wakes
        obtain rfl := Option.some.inj taken
        refine ⟨known.sound, known.poller, fits, fun more => absurd rfl more, by rintro _ ⟨⟩,
          by rintro _ ⟨⟩, by rintro (⟨⟨⟩⟩ | ⟨⟨⟩⟩), ?_, ?_, known.ready⟩
        · exact fun _ => .inl ⟨edge, List.mem_cons_self, wakes⟩
        · exact fun g waiting => absurd waiting (waits (.inl rfl) g)
      · cases taken
  | inProgress =>
      obtain rfl := Option.some.inj taken
      refine ⟨known.sound, known.poller, fits, fun more => absurd noError more, by rintro _ ⟨⟩,
        by rintro _ ⟨⟩, by rintro (⟨⟨⟩⟩ | ⟨⟨⟩⟩), by rintro ⟨⟩, ?_, known.ready⟩
      exact fun g waiting => absurd waiting (waits (.inl rfl) g)
  | tryAgain =>
      obtain rfl := Option.some.inj taken
      refine ⟨known.sound, known.poller, fits, known.error, ?_, by rintro _ ⟨⟩,
        by rintro (⟨⟨⟩⟩ | ⟨⟨⟩⟩), ?_, ?_, known.ready⟩
      · intro err isFailed
        change s.socket = _ at isFailed
        rw [unconnected] at isFailed
        cases isFailed
      · intro settled
        change s.socket.settled = true at settled
        rw [unconnected] at settled
        cases settled
      · exact fun g waiting => absurd waiting (waits (.inl rfl) g)
  | refused err =>
      obtain rfl := Option.some.inj taken
      refine ⟨known.sound, known.poller, fits, fun more => absurd noError more, ?_, ?_,
        by rintro (⟨⟨⟩⟩ | ⟨⟨⟩⟩), fun _ => .inr (.inr ⟨err, rfl⟩), ?_, known.ready⟩
      · rintro err' ⟨⟩
        exact .inl rfl
      · rintro err' ⟨⟩
        rfl
      · exact fun g waiting => absurd waiting (waits (.inr ⟨err, rfl⟩) g)

theorem known_step (known : Known s) (taken : step s a = some s') : Known s' := by
  cases a with
  | register stale =>
      simp only [step] at taken
      split at taken
      · rename_i at_
        obtain rfl := Option.some.inj taken
        have fits := known.fits
        rw [at_] at fits
        have unconnected := known.begun (.inl at_)
        refine ⟨known.sound, known.poller, fits, known.error, ?_, by rintro _ ⟨⟩,
          fun _ => unconnected, ?_, ?_, known.ready⟩
        · intro err isFailed
          change s.socket = _ at isFailed
          rw [unconnected] at isFailed
          cases isFailed
        · intro settled
          change s.socket.settled = true at settled
          rw [unconnected] at settled
          cases settled
        · rintro g (⟨⟨⟩⟩ | ⟨⟨⟩, -⟩)
      · cases taken
  | connect reply =>
      simp only [step] at taken
      split at taken
      · rename_i at_
        exact known_connect known at_ taken
      · cases taken
  | establish edge =>
      simp only [step] at taken
      split at taken
      · rename_i may
        obtain rfl := Option.some.inj taken
        exact known_settle known may.1 may.2 (fun more => absurd rfl more) (by rintro _ ⟨⟩)
      · cases taken
  | fail err edge =>
      simp only [step] at taken
      split at taken
      · rename_i may
        obtain ⟨connecting, failure, wakes⟩ := may
        obtain rfl := Option.some.inj taken
        refine known_settle known connecting wakes (fun _ => ⟨rfl, failure⟩) ?_
        rintro err' ⟨⟩
        refine ⟨rfl, ?_⟩
        rintro rfl
        cases failure
      · cases taken
  | edge event =>
      obtain rfl := Option.some.inj taken
      refine known.around rfl rfl rfl rfl known.error known.failed known.raised known.begun ?_
      intro settled
      obtain ⟨edge, member, wakes⟩ | other := known.promised settled
      · exact .inl ⟨edge, List.mem_cons_of_mem event member, wakes⟩
      · exact .inr other
  | poll event =>
      simp only [step] at taken
      split at taken
      · obtain ⟨sio', moved, rfl⟩ := Option.map_eq_some_iff.mp taken
        exact known_poll known moved
      · cases taken
  | wake =>
      obtain ⟨sio', moved, rfl⟩ := Option.map_eq_some_iff.mp taken
      exact known_wake known moved
  | call =>
      simp only [step] at taken
      split at taken
      · cases taken
      · rename_i fut rest due
        obtain rfl := Option.some.inj taken
        exact known_call known due
  | own => exact known_own known taken

theorem sound_idle (readiness : BitVec 64) (tick : Direction → BitVec 8) :
    Sound .poller (idleSio readiness tick) where
  owner := fun _ => ⟨by rintro ⟨⟩, by rintro ⟨⟩⟩
  onePoller := by rintro _ _ ⟨⟩
  covered := by
    rintro k d (filled | ⟨t, v, storing⟩) _
    · cases k <;> cases d <;> cases filled
    · cases storing
  stamps := .nil
  numbered := by rintro _ ⟨⟩

theorem known_start (start : Start s) : Known s := by
  obtain ⟨⟨readiness, tick, sio⟩, socket, soError, due, done, -, pc⟩ := start
  refine ⟨?_, ?_, ?_, ?_, ?_, ?_, ?_, ?_, ?_, ?_⟩
  · rw [sio]
    exact sound_idle readiness tick
  · rw [sio]
    exact .inl rfl
  · rw [sio, pc]
    rfl
  · intro more
    exact absurd soError more
  · rw [socket]
    rintro _ ⟨⟩
  · rw [pc]
    rintro _ ⟨⟩
  · exact fun _ => socket
  · rw [socket]
    rintro ⟨⟩
  · unfold Waits
    rw [pc]
    rintro g (⟨⟨⟩⟩ | ⟨⟨⟩, -⟩)
  · unfold Waking
    rw [sio, due]
    rintro (⟨fut, isDone⟩ | some_ | ⟨ready, ⟨⟩, -⟩)
    · rw [done] at isDone
      cases isDone
    · exact absurd rfl some_

/-! ## A failed connection -/

/-- The steps of the poll thread and of `sock_connect`. -/
def internal : Act → Prop
  | .poll _ | .wake | .call | .own => True
  | .register _ | .connect _ | .establish _ | .fail _ _ | .edge _ => False

/-- How far `sock_connect` is from its end once the direction is ready, or from
parking while it is not. -/
def rank (ready : Bool) : Pc → ScheduledIo.Pc Nat → Nat
  | .create, _ => if ready then 9 else 20
  | .arming _, .fastCheck _ _ _ => if ready then 8 else 19
  | .arming _, .lock _ _ _ => if ready then 7 else 18
  | .arming _, .recheck _ _ _ => if ready then 6 else 17
  | .arming _, .store _ _ _ => if ready then 13 else 16
  | .arming _, .unlock _ true => 5
  | .arming _, .unlock _ false => if ready then 12 else 15
  | .arming _, .currentTick _ => 4
  | .arming _, .storeTick _ _ => 3
  | .awaiting _, _ => if ready then 10 else 14
  | .readError, _ => 2
  | _, _ => 0

/-- What is left to do when nothing new happens. -/
def measure (s : State) : Nat :=
  3 * s.edges.length + (if s.sio.pc .poller = .outside then 0 else 2) + s.due.length +
    rank (readyOrShut s.sio.readiness .write) s.pc (s.sio.pc .task)

theorem rank_ready (pc : Pc) (at_ : ScheduledIo.Pc Nat) (ready : Bool) :
    rank true pc at_ ≤ rank ready pc at_ := by
  cases ready with
  | true => exact Nat.le_refl _
  | false =>
      unfold rank
      split <;> decide

theorem rank_own (known : Known s) (taken : own s = some s') :
    rank (readyOrShut s'.sio.readiness .write) s'.pc (s'.sio.pc .task) <
        rank (readyOrShut s.sio.readiness .write) s.pc (s.sio.pc .task) ∧
      s'.edges = s.edges ∧ s'.sio.pc .poller = s.sio.pc .poller ∧ s'.due = s.due ∧
        s'.socket = s.socket := by
  cases own_move known taken with
  | calls at_ outside same =>
      subst same
      obtain ⟨task, poller⟩ := goto_task s.sio (.fastCheck .callback .write s.futures)
      refine ⟨?_, rfl, poller, rfl, rfl⟩
      rw [at_, task]
      show rank (readyOrShut s.sio.readiness .write) _ _ < _
      cases readyOrShut s.sio.readiness .write <;> simp [rank]
  | arms fut sio' at_ moved same =>
      subst same
      obtain ⟨armed, -⟩ := known_arming known at_ moved
      refine ⟨?_, rfl, armed.poller, rfl, rfl⟩
      show rank (readyOrShut sio'.readiness .write) (s.afterArm fut) (sio'.pc .task) < _
      rw [armed.readiness, at_]
      unfold State.afterArm
      have move := armed.move
      generalize s.sio.pc .task = x at move ⊢
      generalize sio'.pc .task = y at move ⊢
      generalize readyOrShut s.sio.readiness .write = ready at move ⊢
      cases move with
      | found isReady | refound isReady =>
          subst isReady
          simp [rank]
      | missed unready | remissed unready =>
          subst unready
          simp [rank]
      | _ => cases ready <;> simp [rank]
  | resumes fut at_ done same =>
      subst same
      refine ⟨?_, rfl, rfl, rfl, rfl⟩
      rw [at_]
      show rank (readyOrShut s.sio.readiness .write) _ _ < _
      rw [known.ready (.inl ⟨fut, done⟩)]
      simp [rank]
  | returns at_ none same | raises at_ some_ same =>
      subst same
      refine ⟨?_, rfl, rfl, rfl, rfl⟩
      rw [at_]
      simp [rank]

/-- Every step makes the measure smaller. -/
theorem measure_smaller (known : Known s) (isInternal : internal a)
    (taken : step s a = some s') : s'.socket = s.socket ∧ measure s' < measure s := by
  cases a with
  | poll event =>
      simp only [step] at taken
      split at taken
      · rename_i may
        obtain ⟨sio', moved, rfl⟩ := Option.map_eq_some_iff.mp taken
        obtain ⟨outside, poller, task, -, readiness⟩ := poll_spec moved
        refine ⟨rfl, ?_⟩
        have fewer := List.length_erase_of_mem may.2
        have pos := List.length_pos_of_mem may.2
        have nearer : rank (readyOrShut sio'.readiness .write) s.pc (sio'.pc .task) ≤
            rank (readyOrShut s.sio.readiness .write) s.pc (s.sio.pc .task) := by
          rw [task]
          cases ready : readyOrShut s.sio.readiness .write with
          | true =>
              refine Nat.le_of_eq ?_
              rw [readiness, readyOrShut_setReadiness (.inl ready)]
          | false =>
              cases readyOrShut sio'.readiness .write with
              | true => exact rank_ready s.pc _ false
              | false => exact Nat.le_refl _
        simp only [measure, outside, poller, fewer, if_true]
        rw [if_neg (by rintro ⟨⟩)]
        omega
      · cases taken
  | wake =>
      obtain ⟨sio', moved, rfl⟩ := Option.map_eq_some_iff.mp taken
      obtain ⟨⟨ready, polled⟩, woken⟩ := woken_of_step known moved
      refine ⟨rfl, ?_⟩
      have one := woken.one
      simp only [measure, polled, woken.poller, woken.task, woken.readiness, if_true,
        List.length_append]
      rw [if_neg (by rintro ⟨⟩)]
      omega
  | call =>
      simp only [step] at taken
      split at taken
      · cases taken
      · rename_i fut rest due
        obtain rfl := Option.some.inj taken
        refine ⟨rfl, ?_⟩
        simp only [measure, due, List.length_cons]
        omega
  | own =>
      obtain ⟨nearer, edges, poller, due, socket⟩ := rank_own known taken
      refine ⟨socket, ?_⟩
      simp only [measure, edges, poller, due]
      omega
  | register | connect | establish | fail | edge => exact isInternal.elim

theorem mutex_free (known : Known s) (unlocked : (s.sio.pc .task).locked = false) :
    s.sio.mutex = none := by
  cases held : s.sio.mutex with
  | none => rfl
  | some u =>
      have locked := (known.sound.owner u).mpr held
      cases u with
      | task =>
          rw [unlocked] at locked
          cases locked
      | poller =>
          obtain outside | ⟨ready, polled⟩ := known.poller
          · rw [outside] at locked
            cases locked
          · rw [polled] at locked
            cases locked

/-- Some step of the poll thread or of `sock_connect` is possible. -/
theorem enabled_of_isSome (isInternal : internal a) (possible : (step s a).isSome = true) :
    ∃ a s', internal a ∧ step s a = some s' := by
  obtain ⟨s', taken⟩ := Option.isSome_iff_exists.mp possible
  exact ⟨a, s', isInternal, taken⟩

theorem arming_enabled (known : Known s) (at_ : s.pc = .arming fut) :
    (threadStep s.sio .task).isSome = true := by
  have inside := known.fits
  rw [at_] at inside
  change inArm fut (s.sio.pc .task) = true at inside
  unfold threadStep
  cases here : s.sio.pc .task with
  | fastCheck k d v =>
      simp only
      split
      · rfl
      · cases k <;> rfl
  | lock k d v =>
      have free := mutex_free known (by rw [here]; rfl)
      simp [free]
  | recheck | store | unlock | currentTick | storeTick => rfl
  | outside | allocate | clear | polled | shut =>
      rw [here] at inside
      cases inside

/-- While the callback waits in its slot, the poll thread has something to do. -/
theorem waiting_enabled (known : Known s) (outside : s.sio.pc .task = .outside)
    (filled : s.sio.waiters.writerCb.isSome = true)
    (settled : s.socket.settled = true) (unraised : ∀ err, s.pc ≠ .raised err) :
    ∃ a s', internal a ∧ step s a = some s' := by
  have free := mutex_free known (by rw [outside]; rfl)
  obtain idle | ⟨ready, polled⟩ := known.poller
  · cases due : s.due with
    | cons fut rest =>
        exact enabled_of_isSome (a := .call) trivial (by simp [step, due])
    | nil =>
        obtain ⟨edge, member, -⟩ | ready | ⟨err, raised⟩ := known.promised settled
        · refine enabled_of_isSome (a := .poll edge) trivial ?_
          simp [step, due, member, sioStep, ScheduledIo.step, idle]
        · obtain ⟨ready', polled, -⟩ | ⟨u, shut⟩ :=
            known.sound.covered .callback .write (.inl filled) ready
          · rw [idle] at polled
            cases polled
          · cases u with
            | task =>
                rw [outside] at shut
                cases shut
            | poller =>
                rw [idle] at shut
                cases shut
        · exact absurd raised (unraised err)
  · exact enabled_of_isSome (a := .wake) trivial (by simp [step, threadStep, polled, free])

/-- Until `sock_connect` has raised, something is left to do. -/
theorem enabled_of_failed (known : Known s) (failed : s.socket = .failed err)
    (unreturned : s.pc ≠ .returned) (unraised : s.pc ≠ .raised err) :
    ∃ a s', internal a ∧ step s a = some s' := by
  have neverRaised : ∀ err', s.pc ≠ .raised err' := by
    intro err' raised
    have same := known.raised err' raised
    rw [failed] at same
    cases same
    exact unraised raised
  have goes : (own s).isSome = true → ∃ a s', internal a ∧ step s a = some s' :=
    enabled_of_isSome (a := .own) trivial
  have fits := known.fits
  cases at_ : s.pc with
  | register =>
      have unconnected := known.begun (.inl at_)
      rw [failed] at unconnected
      cases unconnected
  | connect =>
      have unconnected := known.begun (.inr at_)
      rw [failed] at unconnected
      cases unconnected
  | create =>
      rw [at_] at fits
      have outside : s.sio.pc .task = .outside := fits
      exact goes (by simp [own, at_, sioStep, ScheduledIo.step, outside])
  | arming fut =>
      exact goes (by simp [own, at_, arming_enabled known at_])
  | awaiting fut =>
      rw [at_] at fits
      obtain done | member | ⟨x, filled, -⟩ := known.waits fut (.inl at_)
      · exact goes (by simp [own, at_, done])
      · cases due : s.due with
        | nil =>
            rw [due] at member
            cases member
        | cons fut' rest =>
            exact enabled_of_isSome (a := .call) trivial (by simp [step, due])
      · refine waiting_enabled known fits ?_ ?_ neverRaised
        · rw [filled]
          rfl
        · rw [failed]
          rfl
  | readError =>
      obtain isRaised | ⟨error, some_⟩ := known.failed err failed
      · exact absurd isRaised (neverRaised err)
      · have failure := (known.error (error ▸ some_)).2
        rw [error] at failure
        simp only [isFailure, Bool.and_eq_true, Bool.not_eq_true'] at failure
        exact goes (by simp [own, at_, error, some_, failure.2])
  | clearing =>
      rw [at_] at fits
      exact fits.elim
  | returned => exact absurd at_ unreturned
  | raised err' => exact absurd at_ (neverRaised err')

/-- A connection that has failed before `sock_connect` returned is bound to end in
its error. -/
theorem failure_raises (known : Known s) (failed : s.socket = .failed err)
    (unreturned : s.pc ≠ .returned) :
    machine.Inevitably internal (fun r => r.pc = .raised err) s := by
  refine Machine.inevitably_of_measure
    (fun r => Known r ∧ r.socket = .failed err ∧ r.pc ≠ .returned) measure ?_ ?_
    ⟨known, failed, unreturned⟩
  · rintro r ⟨known, failed, unreturned⟩ unraised
    exact enabled_of_failed known failed unreturned unraised
  · rintro r a r' ⟨known, failed, unreturned⟩ unraised isInternal taken
    obtain ⟨socket, smaller⟩ := measure_smaller known isInternal taken
    refine ⟨⟨known_step known taken, socket.trans failed, ?_⟩, smaller⟩
    cases a with
    | own =>
        cases own_move known taken with
        | returns at_ none same =>
            obtain isRaised | ⟨error, some_⟩ := known.failed err failed
            · exact absurd isRaised unraised
            · exact absurd (error.symm.trans none) some_
        | arms fut sio' at_ moved same =>
            subst same
            show r.afterArm fut ≠ .returned
            unfold State.afterArm
            split <;> rintro ⟨⟩
        | calls at_ outside same | resumes fut at_ done same | raises at_ some_ same =>
            subst same
            rintro ⟨⟩
    | poll event =>
        change step r (.poll event) = some r' at taken
        simp only [step] at taken
        split at taken
        · obtain ⟨sio', -, rfl⟩ := Option.map_eq_some_iff.mp taken
          exact unreturned
        · cases taken
    | wake =>
        obtain ⟨sio', -, rfl⟩ := Option.map_eq_some_iff.mp taken
        exact unreturned
    | call =>
        change step r .call = some r' at taken
        simp only [step] at taken
        split at taken
        · cases taken
        · obtain rfl := Option.some.inj taken
          exact unreturned
    | register | connect | establish | fail | edge => exact isInternal.elim

/-! ## What `sock_connect` reports -/

/-- `SO_ERROR` is read only when the connection is established or has failed. -/
def Timely (s : State) (a : Act) : Prop :=
  a = .own → s.pc = .readError → s.socket.settled = true

/-- `sock_connect` returns on an established connection only; when the connection
fails, it is bound to raise the error of the connection, and it raises no other
one. -/
structure Honest (s : State) : Prop where
  established : s.pc = .returned → s.socket = .connected
  raises : ∀ err, s.socket = .failed err →
    machine.Inevitably internal (fun r => r.pc = .raised err) s
  faithful : ∀ err, s.pc = .raised err → s.socket = .failed err

/-- Only `sock_connect` itself returns, and what is established stays so. -/
theorem returned_before (other : a ≠ .own) (taken : step s a = some s')
    (returned : s'.pc = .returned) :
    s.pc = .returned ∧ (s.socket = .connected → s'.socket = .connected) := by
  cases a with
  | own => exact absurd rfl other
  | register stale =>
      simp only [step] at taken
      split at taken
      · obtain rfl := Option.some.inj taken
        cases returned
      · cases taken
  | connect reply =>
      simp only [step] at taken
      split at taken
      · cases reply with
        | established edge =>
            simp only [connectStep] at taken
            split at taken
            · obtain rfl := Option.some.inj taken
              cases returned
            · cases taken
        | inProgress | tryAgain | refused =>
            obtain rfl := Option.some.inj taken
            cases returned
      · cases taken
  | establish edge | fail err edge =>
      simp only [step] at taken
      split at taken
      · rename_i may
        obtain rfl := Option.some.inj taken
        refine ⟨returned, fun connected => ?_⟩
        rw [may.1] at connected
        cases connected
      · cases taken
  | edge event =>
      obtain rfl := Option.some.inj taken
      exact ⟨returned, id⟩
  | poll event =>
      simp only [step] at taken
      split at taken
      · obtain ⟨sio', -, rfl⟩ := Option.map_eq_some_iff.mp taken
        exact ⟨returned, id⟩
      · cases taken
  | wake =>
      obtain ⟨sio', -, rfl⟩ := Option.map_eq_some_iff.mp taken
      exact ⟨returned, id⟩
  | call =>
      simp only [step] at taken
      split at taken
      · cases taken
      · obtain rfl := Option.some.inj taken
        exact ⟨returned, id⟩

theorem established_own (known : Known s) (timely : Timely s .own) (taken : own s = some s')
    (returned : s'.pc = .returned) : s'.socket = .connected := by
  cases own_move known taken with
  | returns at_ none same =>
      subst same
      have settled := timely rfl at_
      cases socket : s.socket with
      | connected => rfl
      | failed err =>
          obtain isRaised | ⟨error, some_⟩ := known.failed err socket
          · rw [at_] at isRaised
            cases isRaised
          · exact absurd (error.symm.trans none) some_
      | unconnected | connecting =>
          rw [socket] at settled
          cases settled
  | arms fut sio' at_ moved same =>
      subst same
      change s.afterArm fut = .returned at returned
      unfold State.afterArm at returned
      split at returned <;> cases returned
  | calls at_ outside same | resumes fut at_ done same | raises at_ some_ same =>
      subst same
      cases returned

theorem known_of_reachable (reached : machine.Reachable s) : Known s := by
  refine Machine.Reach.invariant Known ?_ ?_ reached
  · intro s start
    exact known_start start
  · intro s a s' known _ taken
    exact known_step known taken

/-- `sock_connect` reports what has become of the connection, in every run in
which it does not read `SO_ERROR` too early. -/
theorem sock_connect_honest (reached : machine.Reach Timely s) : Honest s := by
  have known := known_of_reachable reached.reachable
  have established : s.pc = .returned → s.socket = .connected := by
    have both : Known s ∧ (s.pc = .returned → s.socket = .connected) := by
      refine Machine.Reach.invariant
        (fun s => Known s ∧ (s.pc = .returned → s.socket = .connected)) ?_ ?_ reached
      · intro s start
        refine ⟨known_start start, ?_⟩
        obtain ⟨-, -, -, -, -, -, pc⟩ := start
        rw [pc]
        rintro ⟨⟩
      · rintro s a s' ⟨known, established⟩ timely taken
        refine ⟨known_step known taken, fun returned => ?_⟩
        by_cases isOwn : a = .own
        · subst isOwn
          exact established_own known timely taken returned
        · obtain ⟨was, stays⟩ := returned_before isOwn taken returned
          exact stays (established was)
    exact both.2
  refine ⟨established, ?_, known.raised⟩
  intro err failed
  refine failure_raises known failed ?_
  intro returned
  rw [established returned] at failed
  cases failed

/-- The condition is exact: a read that comes too early reports success. -/
theorem early_read_returns (reached : machine.Reachable s) (at_ : s.pc = .readError)
    (unsettled : s.socket.settled = false) (taken : step s .own = some s') :
    s'.pc = .returned ∧ s'.socket ≠ .connected := by
  have known := known_of_reachable reached
  have unconnected : s.socket ≠ .connected := by
    intro connected
    rw [connected] at unsettled
    cases unsettled
  cases own_move known taken with
  | returns _ none same =>
      subst same
      exact ⟨rfl, unconnected⟩
  | raises _ some_ same =>
      rw [(known.error some_).1] at unsettled
      cases unsettled
  | calls here | arms fut sio' here | resumes fut here =>
      rw [at_] at here
      cases here

/-! ## Stale edges -/

/-- The registration that `_sio` finds is not ready for writing, and the poll
thread takes up no event for the writer before the connection is established or
has failed. -/
structure Fresh (s : State) (a : Act) : Prop where
  found : ∀ stale, a = .register stale → readyOrShut s.sio.readiness .write = false
  polled : ∀ event, a = .poll event → s.socket.settled = false → wakesWriter event = false

/-- `arm_w_cb` has found the direction ready. -/
def foundReady : ScheduledIo.Pc Nat → Bool
  | .unlock .write true | .currentTick .write | .storeTick .write _ => true
  | _ => false

/-- Nothing that `sock_connect` goes by is older than the connection. -/
structure Unhurried (s : State) : Prop where
  word : s.pc ≠ .register → readyOrShut s.sio.readiness .write = true → s.socket.settled = true
  task : s.pc = .readError ∨ foundReady (s.sio.pc .task) = true → s.socket.settled = true

theorem settled_stays (taken : step s a = some s') (known : Known s)
    (settled : s.socket.settled = true) : s'.socket.settled = true := by
  cases a with
  | own =>
      obtain ⟨-, -, -, -, socket⟩ := rank_own known taken
      rwa [socket]
  | poll event =>
      have within : internal (.poll event) := trivial
      rwa [(measure_smaller known within taken).1]
  | wake =>
      have within : internal .wake := trivial
      rwa [(measure_smaller known within taken).1]
  | call =>
      have within : internal .call := trivial
      rwa [(measure_smaller known within taken).1]
  | register stale =>
      simp only [step] at taken
      split at taken
      · obtain rfl := Option.some.inj taken
        exact settled
      · cases taken
  | connect reply =>
      simp only [step] at taken
      split at taken
      · rename_i at_
        rw [known.begun (.inr at_)] at settled
        cases settled
      · cases taken
  | establish edge | fail err edge =>
      simp only [step] at taken
      split at taken
      · obtain rfl := Option.some.inj taken
        rfl
      · cases taken
  | edge event =>
      obtain rfl := Option.some.inj taken
      exact settled

theorem Unhurried.same (unhurried : Unhurried s) (sio : s'.sio = s.sio)
    (settled : s.socket.settled = true → s'.socket.settled = true)
    (begun : s'.pc ≠ .register → s.pc ≠ .register)
    (reads : s'.pc = .readError → s.pc = .readError) : Unhurried s' := by
  constructor
  · rw [sio]
    exact fun later ready => settled (unhurried.word (begun later) ready)
  · rw [sio]
    exact fun hurried => settled (unhurried.task (hurried.imp_left reads))

theorem unhurried_own (known : Known s) (unhurried : Unhurried s) (taken : own s = some s') :
    Unhurried s' := by
  have move := own_move known taken
  cases move with
  | arms fut sio' at_ moved same =>
      subst same
      obtain ⟨armed, -⟩ := known_arming known at_ moved
      have later : s.pc ≠ .register := by
        rw [at_]
        rintro ⟨⟩
      have word := unhurried.word later
      constructor
      · intro _ ready
        change readyOrShut sio'.readiness .write = true at ready
        exact word (armed.readiness ▸ ready)
      · show s.afterArm fut = .readError ∨ foundReady (sio'.pc .task) = true →
          s.socket.settled = true
        have task := unhurried.task
        have armMove := armed.move
        unfold State.afterArm
        generalize s.sio.pc .task = x at armMove task ⊢
        generalize sio'.pc .task = y at armMove ⊢
        cases armMove with
        | found isReady | refound isReady => exact fun _ => word isReady
        | leaves | loads | unlocks => exact fun _ => task (.inr rfl)
        | missed | locks | remissed | stores | parks => rintro (⟨⟨⟩⟩ | ⟨⟨⟩⟩)
  | calls at_ outside same =>
      subst same
      obtain ⟨task, -⟩ := goto_task s.sio (.fastCheck .callback .write s.futures)
      constructor
      · intro _ ready
        refine unhurried.word ?_ ready
        rw [at_]
        rintro ⟨⟩
      · rintro (⟨⟨⟩⟩ | found)
        change foundReady ((s.sio.goto .task _).pc .task) = true at found
        rw [task] at found
        cases found
  | resumes fut at_ done same | returns at_ none same | raises at_ some_ same =>
      subst same
      refine unhurried.same rfl id (fun _ => ?_) (by rintro ⟨⟩)
      rw [at_]
      rintro ⟨⟩

theorem unhurried_step (known : Known s) (unhurried : Unhurried s) (fresh : Fresh s a)
    (taken : step s a = some s') : Unhurried s' := by
  have settled := settled_stays taken known
  cases a with
  | own => exact unhurried_own known unhurried taken
  | register stale =>
      have unready := fresh.found stale rfl
      simp only [step] at taken
      split at taken
      · obtain rfl := Option.some.inj taken
        refine ⟨fun _ ready => ?_, ?_⟩
        · change readyOrShut s.sio.readiness .write = true at ready
          rw [unready] at ready
          cases ready
        · rintro (⟨⟨⟩⟩ | found)
          exact unhurried.task (.inr found)
      · cases taken
  | connect reply =>
      simp only [step] at taken
      split at taken
      · rename_i at_
        have later : s.pc ≠ .register := by
          rw [at_]
          rintro ⟨⟩
        cases reply with
        | established edge =>
            simp only [connectStep] at taken
            split at taken
            · obtain rfl := Option.some.inj taken
              exact unhurried.same rfl settled (fun _ => later) (by rintro ⟨⟩)
            · cases taken
        | inProgress | tryAgain | refused =>
            obtain rfl := Option.some.inj taken
            exact unhurried.same rfl settled (fun _ => later) (by rintro ⟨⟩)
      · cases taken
  | establish edge | fail err edge =>
      simp only [step] at taken
      split at taken
      · obtain rfl := Option.some.inj taken
        exact unhurried.same rfl settled id id
      · cases taken
  | edge event =>
      obtain rfl := Option.some.inj taken
      exact unhurried.same rfl settled id id
  | call =>
      simp only [step] at taken
      split at taken
      · cases taken
      · obtain rfl := Option.some.inj taken
        exact unhurried.same rfl settled id id
  | wake =>
      obtain ⟨sio', moved, rfl⟩ := Option.map_eq_some_iff.mp taken
      obtain ⟨-, woken⟩ := woken_of_step known moved
      constructor
      · show _ → readyOrShut sio'.readiness .write = true → _
        rw [woken.readiness]
        exact unhurried.word
      · show _ ∨ foundReady (sio'.pc .task) = true → _
        rw [woken.task]
        exact unhurried.task
  | poll event =>
      have stale := fresh.polled event rfl
      simp only [step] at taken
      split at taken
      · obtain ⟨sio', moved, rfl⟩ := Option.map_eq_some_iff.mp taken
        obtain ⟨-, -, task, -, readiness⟩ := poll_spec moved
        constructor
        · intro later ready
          change readyOrShut sio'.readiness .write = true at ready
          rw [readiness] at ready
          obtain was | takes := ScheduledIo.readyOrShut_of_setReadiness ready
          · exact unhurried.word later was
          · by_contra unsettled
            have masked := stale (Bool.not_eq_true _ ▸ unsettled)
            exact takes (by simpa [wakesWriter] using masked)
        · show _ ∨ foundReady (sio'.pc .task) = true → _
          rw [task]
          exact unhurried.task
      · cases taken

/-- Without a stale edge `SO_ERROR` is never read too early. -/
theorem timely_of_fresh (reached : machine.Reach Fresh s) :
    machine.Reach Timely s ∧ Unhurried s := by
  induction reached with
  | @start s initial =>
      refine ⟨.start initial, ?_⟩
      obtain ⟨⟨readiness, tick, sio⟩, -, -, -, -, -, pc⟩ := initial
      constructor
      · exact fun later => absurd pc later
      · rw [pc, sio]
        rintro (⟨⟨⟩⟩ | ⟨⟨⟩⟩)
  | @step s s' a before fresh taken inductionHypothesis =>
      obtain ⟨timely, unhurried⟩ := inductionHypothesis
      have known := known_of_reachable before.reachable
      refine ⟨.step timely ?_ taken, unhurried_step known unhurried fresh taken⟩
      rintro - reads
      exact unhurried.task (.inl reads)

/-! ## Runs -/

/-- An unconnected socket without a registration. -/
def freshSocket : State where
  sio := idleSio 0 fun _ => 0
  socket := .unconnected
  soError := 0
  edges := []
  due := []
  done _ := false
  futures := 0
  pc := .register

theorem freshSocket_start : machine.start freshSocket :=
  ⟨⟨0, fun _ => 0, rfl⟩, rfl, rfl, rfl, fun _ => rfl, rfl, rfl⟩

/-- `Timely`, decided. -/
def timely (s : State) (a : Act) : Bool :=
  decide (a = .own → s.pc = .readError → s.socket.settled = true)

theorem timely_sound (s : State) (a : Act) (checked : timely s a = true) : Timely s a := by
  intro isOwn reads
  have known : a = .own → s.pc = .readError → s.socket.settled = true := of_decide_eq_true checked
  exact known isOwn reads

/-- `sock_connect` parks, and the connection is refused by the peer. -/
def refusedRun : List Act :=
  List.flatten
    [[.register [], .connect .inProgress], .replicate 6 .own,
      [.fail 111 ⟨true, true, true, true, true⟩, .poll ⟨true, true, true, true, true⟩, .wake,
        .call], .replicate 6 .own]

theorem refusedRun_ends :
    (machine.execIf timely freshSocket refusedRun).any (fun s => s.pc = .raised 111) = true := by
  decide +kernel

theorem sock_connect_honest_refused : ∃ s : State, s.pc = .raised 111 ∧ Honest s := by
  obtain ⟨s, reached, ends⟩ :=
    Machine.Reach.exists_of_execIf timely_sound freshSocket_start refusedRun_ends
  exact ⟨s, of_decide_eq_true ends, sock_connect_honest reached⟩

/-- The poll thread takes up the edge of the unconnected socket, writable and
closed, before `sock_connect` arms. -/
def staleRun : List Act :=
  List.flatten
    [[.register [⟨false, true, true, true, false⟩], .connect .inProgress,
      .poll ⟨false, true, true, true, false⟩, .wake], .replicate 5 .own]

theorem staleRun_ends :
    (machine.exec freshSocket staleRun).any
      (fun s => s.pc = .returned ∧ s.socket = .connecting) = true := by
  decide +kernel

/-- `sock_connect` reports success while the connection is still being made. -/
theorem sock_connect_returns_early :
    ¬ ∀ s : State, machine.Reachable s → s.pc = .returned → s.socket = .connected := by
  intro always
  obtain ⟨s, reached, ends⟩ := Machine.Reachable.exists_of_exec freshSocket_start staleRun_ends
  obtain ⟨returned, connecting⟩ := of_decide_eq_true ends
  have connected := always s reached returned
  rw [connecting] at connected
  cases connected

end MtAsyncio.SockConnect
