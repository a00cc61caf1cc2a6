/-
Module: MtAsyncio.Proofs.LostOnce
Purpose: How a connection ends: `connection_lost` is called once at most, behind a
  `close` only when everything that had been accepted by then is on the wire, and
  nothing is sent any more when it has returned.
Trusted boundary: none
Main exports: Lost, lost, Silent, silent_move, lost_once
-/
import MtAsyncio.Proofs.WireOrder

namespace MtAsyncio.TransportWrites

open Lib (Machine)

variable {T β : Type} {s s' : Conn T β} {a : Act T β} {iovMax : Nat}

/-- While `connection_lost` has been called and has not returned, the rest of
`_call_connection_lost` is on the stack with no rest of `_write_sendmsg` above it; and a
`close` has promised the bytes that were accepted by then. -/
structure Lost (s : Conn T β) : Prop where
  once : s.lostAt.length ≤ 1
  down : s.lostAt ≠ [] → s.writeImpl = false
  frame : s.lostAt ≠ [] → s.protocol = true →
    ∃ above below, s.stack = above ++ .lost :: below ∧ .resumed ∉ above
  frames : .lost ∈ s.stack ∨ s.protocol = false → s.lostAt ≠ []
  closing : s.connLost ≠ 0 ∨ s.lostAt ≠ [] → s.closing = true
  queued : 0 < s.queuedLost → s.connLost ≠ 0
  promised : s.closing = true → s.forced = false → s.lostAt = [] →
    s.promised <+: s.wire ∨ s.connLost = 0 ∧ s.promised <+: s.accepted
  sent : ∀ w ∈ s.lostAt, s.forced = false → s.promised <+: w

theorem Lost.settle (lost : Lost s) : Lost s.settle := by
  unfold Conn.settle
  split
  · exact { lost with }
  · exact lost

/-- New frames above the others; those of `_write_sendmsg` only while it is in use. -/
theorem Lost.push {f : List Frame} {p : Bool} (lost : Lost s)
    (noneLost : .lost ∉ f) (inUse : .resumed ∈ f → s.lostAt = []) :
    Lost { s with stack := f ++ s.stack, protocolPaused := p } := by
  refine { lost with frame := ?_, frames := ?_ }
  · intro isLost protocol
    obtain ⟨above, below, stack, noneResumed⟩ := lost.frame isLost protocol
    refine ⟨f ++ above, below, ?_, ?_⟩
    · show f ++ s.stack = f ++ above ++ .lost :: below
      rw [stack, List.append_assoc]
    · intro member
      rcases List.mem_append.mp member with inFrames | inAbove
      · exact isLost (inUse inFrames)
      · exact noneResumed inAbove
  · rintro (inStack | noProtocol)
    · rcases List.mem_append.mp inStack with inFrames | old
      · exact absurd inFrames noneLost
      · exact lost.frames (.inl old)
    · exact lost.frames (.inr noProtocol)

theorem Lost.maybePauseProtocol (lost : Lost s) : Lost s.maybePauseProtocol := by
  unfold Conn.maybePauseProtocol
  split
  · exact lost
  · split
    · exact lost.push (f := [.callback]) (by decide) fun no => absurd no (by decide)
    · exact { lost with }

theorem Lost.forceClose {buffer : List (List β)} {accepted : List β} {writer : Bool}
    (lost : Lost s) (more : s.accepted <+: accepted) :
    Lost { s with buffer := buffer, accepted := accepted, writer := writer }.forceClose := by
  have base : Lost { s with buffer := buffer, accepted := accepted, writer := writer } := by
    refine { lost with promised := ?_ }
    intro closing notForced notLost
    rcases lost.promised closing notForced notLost with onWire | waiting
    · exact .inl onWire
    · exact .inr ⟨waiting.1, waiting.2.trans more⟩
  unfold Conn.forceClose
  split
  · exact base
  · split
    · rename_i noProtocol
      have isLost : s.lostAt ≠ [] := lost.frames (.inr noProtocol)
      split
      · exact { base with
          closing := fun _ => base.closing (.inr isLost)
          queued := fun _ => Nat.succ_ne_zero _
          promised := fun _ _ notLost => absurd notLost isLost }
      · exact { base with }
    · exact { base with
        closing := fun _ => rfl
        queued := fun _ => Nat.succ_ne_zero _
        promised := fun _ no => nomatch no
        sent := fun _ _ no => nomatch no }

/-- `connection_lost` is called, the first time. -/
theorem Lost.callConnectionLost (lost : Lost s) (first : s.protocol = true → s.lostAt = [])
    (closing : s.closing = true)
    (flushed : s.protocol = true → s.forced = false → s.promised <+: s.wire) :
    Lost s.callConnectionLost := by
  unfold Conn.callConnectionLost
  split
  · rename_i protocol
    have none_ := first protocol
    refine { lost with
      once := ?_, down := fun _ => rfl, frame := ?_, frames := fun _ => List.cons_ne_nil _ _,
      closing := fun _ => closing, promised := ?_, sent := ?_ }
    · show (s.wire :: s.lostAt).length ≤ 1
      rw [none_]
      exact Nat.le_refl 1
    · intro _ _
      exact ⟨[.callback], s.stack, rfl, by decide⟩
    · intro _ _ no
      cases no
    · intro w member notForced
      have isWire : w = s.wire := by
        rw [none_] at member
        exact List.mem_singleton.mp member
      rw [isWire]
      exact flushed protocol notForced
  · exact { lost with down := fun _ => rfl }

theorem Lost.afterResume (order : Order s) (lost : Lost s)
    (first : s.protocol = true → s.lostAt = []) : Lost s.afterResume := by
  unfold Conn.afterResume
  split
  · exact lost
  · rename_i notEmpty
    have isEmpty : s.buffer = [] := not_not.mp notEmpty
    split
    · rename_i closing
      have noWriter : Lost { s with writer := false } := { lost with }
      refine noWriter.callConnectionLost first closing ?_
      intro protocol notForced
      rcases lost.promised closing notForced (first protocol) with onWire | waiting
      · exact onWire
      · have whole := order.whole protocol notForced
        rw [isEmpty, List.flatten_nil, List.append_nil] at whole
        rw [show s.wire = s.accepted from whole]
        exact waiting.2
    · split
      · exact { lost with }
      · exact { lost with }

theorem Lost.maybeResumeProtocol (order : Order s) (lost : Lost s) (notYet : s.lostAt = []) :
    Lost s.maybeResumeProtocol := by
  unfold Conn.maybeResumeProtocol
  split
  · exact lost.push (f := [.callback, .resumed]) (by decide) fun _ => notYet
  · exact lost.afterResume order fun _ => notYet

theorem Lost.writeReady (order : Order s) (lost : Lost s) (result : Sent) :
    Lost (s.writeReady iovMax result) := by
  unfold Conn.writeReady
  split
  · exact lost
  · rename_i runs
    have noneLost : s.connLost = 0 := by
      by_contra isLost
      exact runs (.inr (.inr isLost))
    have running : s.writeImpl = true := by
      by_contra stopped
      exact runs (.inl (Bool.eq_false_iff.mpr stopped))
    have notYet : s.lostAt = [] := by
      by_contra isLost
      rw [lost.down isLost] at running
      cases running
    cases result with
    | blocked => exact lost
    | failed => exact lost.forceClose (List.prefix_refl _)
    | sent n =>
        have taken := order.sends ((s.buffer.take iovMax).flatten.take n).length
          (order.open_ running) (order.notForced noneLost)
        rw [← taken_of_buffer] at taken
        have grown : Lost { s with
            wire := s.wire ++ (s.buffer.take iovMax).flatten.take n
            buffer := adjustLeftoverBuffer s.buffer
              ((s.buffer.take iovMax).flatten.take n).length } := by
          refine { lost with promised := ?_ }
          intro closing notForced _
          rcases lost.promised closing notForced notYet with onWire | waiting
          · exact .inl (onWire.trans (List.prefix_append _ _))
          · exact .inr waiting
        exact grown.maybeResumeProtocol taken notYet

/-- More bytes are accepted, and some of them may be on the wire at once. -/
theorem Lost.accepts {b : List (List β)} {w : Bool} {d n : List β} (lost : Lost s) :
    Lost { s with
      accepted := s.accepted ++ d, wire := s.wire ++ n, buffer := b, writer := w } := by
  refine { lost with promised := ?_ }
  intro closing notForced notLost
  rcases lost.promised closing notForced notLost with onWire | waiting
  · exact .inl (onWire.trans (List.prefix_append _ _))
  · exact .inr ⟨waiting.1, waiting.2.trans (List.prefix_append _ _)⟩

/-- A write on a lost connection is only counted. -/
theorem Lost.again (lost : Lost s) (isLost : s.connLost ≠ 0) :
    Lost { s with connLost := s.connLost + 1 } := by
  refine { lost with
    closing := fun _ => lost.closing (.inl isLost), queued := fun _ => Nat.succ_ne_zero _,
    promised := ?_ }
  intro closing notForced notLost
  rcases lost.promised closing notForced notLost with onWire | waiting
  · exact .inl onWire
  · exact absurd waiting.1 isLost

theorem Lost.write (lost : Lost s) (data : List β) (result : Sent) :
    Lost (s.write data result) := by
  have waits : ∀ (buffer : List (List β)) (writer : Bool), Lost { s with
      accepted := s.accepted ++ data, buffer := buffer, writer := writer } := by
    intro buffer writer
    have more := lost.accepts (d := data) (n := []) (b := buffer) (w := writer)
    rwa [List.append_nil] at more
  unfold Conn.write
  split
  · exact lost
  · split
    · rename_i isLost
      exact lost.again isLost
    · split
      · exact (waits _ _).maybePauseProtocol
      · split
        · exact lost
        · cases result with
          | failed => exact lost.forceClose (List.prefix_append _ _)
          | blocked => exact (waits _ _).maybePauseProtocol
          | sent n =>
              dsimp only
              split
              · exact lost.accepts
              · exact lost.accepts.maybePauseProtocol

theorem Lost.writelines (order : Order s) (lost : Lost s) (lines : List (List β)) (result : Sent) :
    Lost (s.writelines iovMax lines result) := by
  unfold Conn.writelines
  split
  · exact lost
  · rename_i goes
    have notEof : ¬s.eof = true := fun isEof => goes (.inl isEof)
    have accepted : Lost { s with
        accepted := s.accepted ++ lines.flatten, buffer := s.buffer ++ lines } := by
      have more := lost.accepts (d := lines.flatten) (n := []) (b := s.buffer ++ lines)
        (w := s.writer)
      rwa [List.append_nil] at more
    split
    · rename_i isLost
      exact lost.again isLost
    · split
      · exact accepted
      · have ordered : Order { s with
            accepted := s.accepted ++ lines.flatten, buffer := s.buffer ++ lines } :=
          order.accepts notEof List.flatten_append
        refine Lost.writeReady ?_ ?_ result
        · refine ordered.restack ?_
          intro inStack
          simpa using inStack
        · exact accepted.push (f := [.flushed]) (by decide) fun no => absurd no (by decide)

theorem Lost.close (order : Order s) (lost : Lost s) : Lost s.close := by
  unfold Conn.close
  split
  · exact lost
  · rename_i notClosing
    have noneLost : s.connLost = 0 := by
      by_contra isLost
      exact notClosing (lost.closing (.inl isLost))
    have notYet : s.lostAt = [] := by
      by_contra isLost
      exact notClosing (lost.closing (.inr isLost))
    have noneSent : ∀ {p : List β → Prop}, ∀ w ∈ s.lostAt, p w := by
      intro p w member
      rw [notYet] at member
      cases member
    split
    · exact { lost with
        closing := fun _ => rfl
        promised := fun _ _ _ => .inr ⟨noneLost, List.prefix_refl _⟩
        sent := fun w member => noneSent (p := fun _ => _ → _) w member }
    · rename_i notFull
      have isEmpty : s.buffer = [] := not_not.mp notFull
      refine { lost with
        closing := fun _ => rfl, queued := fun _ => Nat.succ_ne_zero _, promised := ?_,
        sent := fun w member => noneSent (p := fun _ => _ → _) w member }
      intro _ notForced _
      have protocol : s.protocol = true := by
        by_contra noProtocol
        exact lost.frames (.inr (Bool.eq_false_iff.mpr noProtocol)) notYet
      have whole := order.whole protocol notForced
      rw [isEmpty, List.flatten_nil, List.append_nil] at whole
      refine .inl ?_
      have whole : s.wire = s.accepted := whole
      exact whole ▸ List.prefix_refl s.wire

theorem Lost.method {next : Conn T β} (order : Order s) (lost : Lost s)
    (runs : Method iovMax s next) : Lost next := by
  cases runs with
  | write data result => exact lost.write data result
  | writelines lines result => exact lost.writelines order lines result
  | writeEof =>
      unfold Conn.writeEof
      split
      · exact lost
      · exact { lost with }
  | close => exact lost.close order
  | abort => exact lost.forceClose (List.prefix_refl _)
  | limits high low =>
      unfold Conn.setWriteBufferLimits
      split
      · refine Lost.maybePauseProtocol ?_
        exact { lost with }
      · exact lost

theorem Lost.returned {frame : Frame} {rest : List Frame} (order : Order s) (lost : Lost s)
    (top : s.stack = frame :: rest) : Lost ({ s with stack := rest }.returned frame) := by
  -- what the frame of `connection_lost` is under stays there
  have popped : frame ≠ .lost → Lost { s with stack := rest } := by
    intro notLost
    refine { lost with frame := ?_, frames := ?_ }
    · intro isLost protocol
      obtain ⟨above, below, stack, noneResumed⟩ := lost.frame isLost protocol
      cases above with
      | nil =>
          rw [top] at stack
          exact absurd (List.cons.inj stack).1 notLost
      | cons first above =>
          rw [top] at stack
          refine ⟨above, below, (List.cons.inj stack).2, ?_⟩
          exact fun member => noneResumed (List.mem_cons_of_mem _ member)
    · rintro (inStack | noProtocol)
      · exact lost.frames (.inl (by rw [top]; exact List.mem_cons_of_mem _ inStack))
      · exact lost.frames (.inr noProtocol)
  cases frame with
  | callback => exact popped fun same => nomatch same
  | resumed =>
      have ordered : Order { s with stack := rest } := by
        refine order.restack ?_
        intro inStack
        rw [top]
        exact List.mem_cons_of_mem _ inStack
      refine Lost.afterResume ordered (popped fun same => nomatch same) ?_
      intro protocol
      by_contra isLost
      obtain ⟨above, below, stack, noneResumed⟩ := lost.frame isLost protocol
      rw [top] at stack
      cases above with
      | nil => cases (List.cons.inj stack).1
      | cons first above =>
          exact noneResumed ((List.cons.inj stack).1 ▸ List.mem_cons_self)
  | flushed =>
      have rest_ := popped fun same => nomatch same
      show Lost (if s.buffer = [] then _ else _)
      split
      · exact rest_
      · refine Lost.maybePauseProtocol ?_
        exact { rest_ with }
  | lost =>
      refine { lost with frame := fun _ no => (nomatch no), frames := ?_ }
      exact fun _ => lost.frames (.inl (by rw [top]; exact List.mem_cons_self))

/-- The lock is held while a method or a callback has not returned. -/
def Locked (s : Conn T β) : Prop :=
  s.lock = none → s.stack = []

theorem locked_settle (held : s.lock ≠ none) : Locked s.settle := by
  unfold Conn.settle
  split
  · rename_i isEmpty
    exact fun _ => isEmpty
  · exact fun free => absurd free held

theorem lock_maybePauseProtocol : s.maybePauseProtocol.lock = s.lock := by
  unfold Conn.maybePauseProtocol
  split <;> rfl

theorem lock_forceClose : s.forceClose.lock = s.lock := by
  unfold Conn.forceClose
  split
  · rfl
  · split
    · split <;> rfl
    · rfl

theorem lock_callConnectionLost : s.callConnectionLost.lock = s.lock := by
  unfold Conn.callConnectionLost
  split <;> rfl

theorem lock_afterResume : s.afterResume.lock = s.lock := by
  unfold Conn.afterResume
  split
  · rfl
  · split
    · exact lock_callConnectionLost
    · split <;> rfl

theorem lock_writeReady {result : Sent} : (s.writeReady iovMax result).lock = s.lock := by
  unfold Conn.writeReady
  split
  · rfl
  · cases result with
    | blocked => rfl
    | failed => exact lock_forceClose
    | sent n =>
        dsimp only
        unfold Conn.maybeResumeProtocol
        split
        · rfl
        · exact lock_afterResume

theorem lock_method {next : Conn T β} (runs : Method iovMax s next) : next.lock = s.lock := by
  cases runs with
  | write data result =>
      unfold Conn.write
      split
      · rfl
      · split
        · rfl
        · split
          · exact lock_maybePauseProtocol
          · split
            · rfl
            · cases result with
              | failed => exact lock_forceClose
              | blocked => exact lock_maybePauseProtocol
              | sent n =>
                  dsimp only
                  split
                  · rfl
                  · exact lock_maybePauseProtocol
  | writelines lines result =>
      unfold Conn.writelines
      split
      · rfl
      · split
        · rfl
        · split
          · rfl
          · exact lock_writeReady
  | writeEof =>
      unfold Conn.writeEof
      split <;> rfl
  | close =>
      unfold Conn.close
      split
      · rfl
      · split <;> rfl
  | abort => exact lock_forceClose
  | limits high low =>
      unfold Conn.setWriteBufferLimits
      split
      · exact lock_maybePauseProtocol
      · rfl

theorem lock_returned {frame : Frame} : (s.returned frame).lock = s.lock := by
  cases frame with
  | callback => rfl
  | resumed => exact lock_afterResume
  | flushed =>
      show (if s.buffer = [] then s else _).lock = _
      split
      · rfl
      · exact lock_maybePauseProtocol
  | lost => rfl

theorem locked_move (moves : Move iovMax s s') : Locked s' := by
  have held : ∀ {t : T}, some t ≠ none := fun same => nomatch same
  cases moves with
  | outermost free runs => exact locked_settle (by rw [lock_method runs]; exact held)
  | nested mine inside runs => exact locked_settle (by rw [lock_method runs, mine]; exact held)
  | ready free => exact locked_settle (by rw [lock_writeReady]; exact held)
  | connectionLost free queued => exact locked_settle (by rw [lock_callConnectionLost]; exact held)
  | enter free => exact fun no => nomatch no
  | returned mine top =>
      refine locked_settle ?_
      rw [lock_returned]
      exact fun free => nomatch mine.symm.trans free

theorem lost [DecidableEq T] (reached : (machine iovMax T β).Reachable s) :
    Order s ∧ Locked s ∧ Lost s := by
  refine reached.invariant (fun s => Order s ∧ Locked s ∧ Lost s) ?_ ?_
  · rintro s rfl
    have start : (machine iovMax T β).Reachable (fresh T β) := .start rfl
    refine ⟨order start, fun _ => rfl, ?_⟩
    refine ⟨Nat.zero_le _, fun no => absurd rfl no, fun no => absurd rfl no, ?_, ?_,
      fun no => absurd no (Nat.lt_irrefl 0), fun no => (nomatch no), fun _ no => (nomatch no)⟩
    · rintro (no | no) <;> cases no
    · rintro (no | no) <;> exact absurd rfl no
  · rintro s a s' ⟨order, locked, lost⟩ - taken
    have moves := move_of_step taken
    refine ⟨order_move order moves, locked_move moves, ?_⟩
    cases moves with
    | outermost free runs =>
        refine (Lost.method ?_ ?_ runs).settle
        · exact { order with }
        · exact { lost with }
    | nested mine inside runs => exact (lost.method order runs).settle
    | ready free =>
        refine (Lost.writeReady ?_ ?_ _).settle
        · exact { order with }
        · exact { lost with }
    | @connectionLost t free queued =>
        have isLost := lost.queued queued
        have closing := lost.closing (.inl isLost)
        have notYet : s.protocol = true → s.lostAt = [] := by
          intro protocol
          by_contra isLost
          obtain ⟨above, below, stack, -⟩ := lost.frame isLost protocol
          rw [locked free] at stack
          exact absurd stack.symm (by simp)
        have begins : Lost { s with lock := some t, queuedLost := s.queuedLost - 1 } :=
          { lost with queued := fun _ => isLost }
        refine (begins.callConnectionLost notYet closing ?_).settle
        intro protocol notForced
        rcases lost.promised closing notForced (notYet protocol) with onWire | waiting
        · exact onWire
        · exact absurd waiting.1 isLost
    | enter free =>
        have noStack : s.stack = [] := locked free
        have pushed := lost.push (p := s.protocolPaused) (f := [.callback]) (by decide)
          fun no => absurd no (by decide)
        rw [noStack] at pushed
        exact { pushed with }
    | returned mine top => exact (lost.returned order top).settle

/-! ## Behind `connection_lost` -/

/-- `connection_lost` has returned, with the bytes of `w` on the wire. -/
structure Silent (w : List β) (s : Conn T β) : Prop where
  gone : s.protocol = false
  stopped : s.writeImpl = false
  same : s.wire = w

variable {w : List β}

theorem Silent.settle (silent : Silent w s) : Silent w s.settle := by
  unfold Conn.settle
  split
  · exact ⟨silent.gone, silent.stopped, silent.same⟩
  · exact silent

theorem Silent.maybePauseProtocol (silent : Silent w s) : Silent w s.maybePauseProtocol := by
  unfold Conn.maybePauseProtocol
  split
  · exact silent
  · exact ⟨silent.gone, silent.stopped, silent.same⟩

theorem Silent.forceClose (silent : Silent w s) : Silent w s.forceClose := by
  unfold Conn.forceClose
  rw [if_pos silent.gone]
  split
  · exact silent
  · split <;> exact ⟨silent.gone, silent.stopped, silent.same⟩

theorem Silent.callConnectionLost (silent : Silent w s) : Silent w s.callConnectionLost := by
  unfold Conn.callConnectionLost
  rw [if_neg (by rw [silent.gone]; exact Bool.false_ne_true)]
  exact ⟨silent.gone, rfl, silent.same⟩

theorem Silent.afterResume (silent : Silent w s) : Silent w s.afterResume := by
  have still : ∀ {writer shut : Bool}, Silent w { s with writer := writer, shut := shut } :=
    ⟨silent.gone, silent.stopped, silent.same⟩
  unfold Conn.afterResume
  split
  · exact silent
  · split
    · exact Silent.callConnectionLost still
    · split <;> exact still

theorem Silent.writeReady (silent : Silent w s) (result : Sent) :
    Silent w (s.writeReady iovMax result) := by
  unfold Conn.writeReady
  rwa [if_pos (.inl silent.stopped)]

theorem Silent.method {next : Conn T β} (silent : Silent w s) (runs : Method iovMax s next) :
    Silent w next := by
  have still : ∀ {accepted : List β} {buffer : List (List β)},
      Silent w { s with accepted := accepted, buffer := buffer } :=
    ⟨silent.gone, silent.stopped, silent.same⟩
  cases runs with
  | write data result =>
      unfold Conn.write
      rw [if_pos silent.gone]
      split
      · exact silent
      · split
        · exact ⟨silent.gone, silent.stopped, silent.same⟩
        · split
          · exact Silent.maybePauseProtocol still
          · exact silent
  | writelines lines result =>
      unfold Conn.writelines
      rw [if_pos silent.gone]
      split
      · exact silent
      · split
        · exact ⟨silent.gone, silent.stopped, silent.same⟩
        · exact still
  | writeEof =>
      unfold Conn.writeEof
      split
      · exact silent
      · exact ⟨silent.gone, silent.stopped, silent.same⟩
  | close =>
      unfold Conn.close
      split
      · exact silent
      · split <;> exact ⟨silent.gone, silent.stopped, silent.same⟩
  | abort => exact silent.forceClose
  | limits high low =>
      unfold Conn.setWriteBufferLimits
      split
      · refine Silent.maybePauseProtocol ?_
        exact ⟨silent.gone, silent.stopped, silent.same⟩
      · exact silent

theorem Silent.returned {frame : Frame} (silent : Silent w s) : Silent w (s.returned frame) := by
  cases frame with
  | callback => exact silent
  | resumed => exact silent.afterResume
  | flushed =>
      show Silent w (if s.buffer = [] then s else _)
      split
      · exact silent
      · refine Silent.maybePauseProtocol ?_
        exact ⟨silent.gone, silent.stopped, silent.same⟩
  | lost => exact ⟨rfl, silent.stopped, silent.same⟩

theorem silent_move (silent : Silent w s) (moves : Move iovMax s s') : Silent w s' := by
  have still : ∀ {lock : Option T} {stack : List Frame} {queuedLost : Nat},
      Silent w { s with lock := lock, stack := stack, queuedLost := queuedLost } :=
    ⟨silent.gone, silent.stopped, silent.same⟩
  cases moves with
  | outermost free runs => exact (Silent.method still runs).settle
  | nested mine inside runs => exact (silent.method runs).settle
  | ready free => exact (Silent.writeReady still _).settle
  | connectionLost free queued => exact (Silent.callConnectionLost still).settle
  | enter free => exact still
  | returned mine top => exact (Silent.returned still).settle

/-- A connection is closed with bytes in its buffer, which a later dispatch sends. -/
def closingRun : List (Act Nat Nat) :=
  [.write 0 [1, 2, 3] (.sent 1), .close 0, .ready 1 (.sent 5), .thread 1, .thread 1,
    .write 0 [4] (.sent 1)]

theorem closingRun_ends :
    ((machine 16 Nat Nat).exec (fresh Nat Nat) closingRun).any
      (fun s => decide (s.lostAt = [[1, 2, 3]] ∧ s.promised = [1, 2, 3] ∧ s.forced = false ∧
        s.protocol = false)) = true := by
  decide +kernel

end MtAsyncio.TransportWrites
