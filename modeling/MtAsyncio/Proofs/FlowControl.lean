/-
Module: MtAsyncio.Proofs.FlowControl
Purpose: Between two outermost calls an open connection has a writer exactly when its
  buffer has a chunk, its protocol is paused whenever the buffer is over the high mark,
  and it has a writer as long as the protocol is paused or the connection is closing.
Trusted boundary: none
Main exports: Steady, Balanced, Flow, flow, paused_watched
-/
import MtAsyncio.Proofs.LostOnce

namespace MtAsyncio.TransportWrites

open Lib (Machine)

variable {T β : Type} {s s' : Conn T β} {a : Act T β} {iovMax : Nat}

/-- Who sees to the chunks of the buffer, where the rests of the methods on the stack have
still to be run. -/
structure Steady (s : Conn T β) : Prop where
  waits : s.buffer ≠ [] → s.writer = true ∨ .flushed ∈ s.stack
  watched : s.writer = true → s.buffer ≠ [] ∨ .resumed ∈ s.stack
  paused : s.protocolPaused = true → s.buffer ≠ []
  ending : s.closing = true → s.buffer ≠ [] ∨ .resumed ∈ s.stack ∨ .lost ∈ s.stack

/-- And the protocol has been told. -/
structure Balanced (s : Conn T β) : Prop extends Steady s where
  bounded : s.high < s.size → s.protocolPaused = true ∨ .flushed ∈ s.stack

/-- An open connection is balanced. -/
structure Flow (s : Conn T β) : Prop where
  limits : s.low ≤ s.high
  balanced : s.connLost = 0 → s.protocol = true → Balanced s

theorem size_zero (isEmpty : s.buffer = []) : s.size = 0 := by
  unfold Conn.size
  rw [isEmpty]
  rfl

/-- The frames of methods that have not finished stay on the stack. -/
theorem Steady.restack {stack : List Frame} (steady : Steady s)
    (kept : ∀ frame, frame ≠ .callback → frame ∈ s.stack → frame ∈ stack) :
    Steady { s with stack := stack } where
  waits full := (steady.waits full).imp_right (kept .flushed fun same => nomatch same)
  watched has := (steady.watched has).imp_right (kept .resumed fun same => nomatch same)
  paused := steady.paused
  ending closing := by
    rcases steady.ending closing with full | resumed | lost
    · exact .inl full
    · exact .inr (.inl (kept .resumed (fun same => nomatch same) resumed))
    · exact .inr (.inr (kept .lost (fun same => nomatch same) lost))

theorem Balanced.restack {stack : List Frame} (balanced : Balanced s)
    (kept : ∀ frame, frame ≠ .callback → frame ∈ s.stack → frame ∈ stack) :
    Balanced { s with stack := stack } where
  toSteady := balanced.toSteady.restack kept
  bounded above := (balanced.bounded above).imp_right (kept .flushed fun same => nomatch same)

theorem Flow.settle (flow : Flow s) : Flow s.settle := by
  unfold Conn.settle
  split
  · exact ⟨flow.limits, fun isOpen protocol => { flow.balanced isOpen protocol with }⟩
  · exact flow

theorem Flow.lost (limits : s.low ≤ s.high) (isLost : s.connLost ≠ 0) : Flow s :=
  ⟨limits, fun isOpen => absurd isOpen isLost⟩

/-- Where the buffer has grown the protocol is told. -/
theorem Flow.maybePauseProtocol (limits : s.low ≤ s.high)
    (steady : s.connLost = 0 → s.protocol = true → Steady s) :
    Flow s.maybePauseProtocol := by
  unfold Conn.maybePauseProtocol
  split
  · rename_i quiet
    refine ⟨limits, fun isOpen protocol => { steady isOpen protocol with bounded := ?_ }⟩
    intro above
    rcases Bool.or_eq_true_iff.mp quiet with within | paused
    · exact absurd (of_decide_eq_true within) (Nat.not_le.mpr above)
    · exact .inl paused
  · rename_i loud
    refine ⟨limits, fun isOpen protocol => ?_⟩
    have steady := steady isOpen protocol
    have above : s.high < s.size := by
      by_contra within
      refine loud (Bool.or_eq_true_iff.mpr (.inl ?_))
      exact decide_eq_true (Nat.not_lt.mp within)
    have full : s.buffer ≠ [] := by
      intro isEmpty
      rw [size_zero isEmpty] at above
      exact absurd above (Nat.not_lt_zero _)
    have told : Steady { s with stack := .callback :: s.stack } :=
      steady.restack fun _ _ member => List.mem_cons_of_mem _ member
    rw [if_pos protocol]
    exact { told with paused := fun _ => full, bounded := fun _ => .inl rfl }

theorem Flow.forceClose {buffer : List (List β)} {accepted : List β} {writer : Bool}
    (limits : s.low ≤ s.high) :
    Flow { s with buffer := buffer, accepted := accepted, writer := writer }.forceClose := by
  unfold Conn.forceClose
  split
  · rename_i isLost
    exact .lost limits isLost
  · split
    · rename_i noProtocol
      have gone : s.protocol = true → False := by
        intro protocol
        exact absurd (protocol.symm.trans noProtocol) (by decide)
      split <;> exact ⟨limits, fun _ protocol => (gone protocol).elim⟩
    · exact .lost limits (Nat.succ_ne_zero _)

/-- Behind `_maybe_resume_protocol` an empty buffer loses its writer, and its connection
where that is closing. -/
theorem Flow.afterResume (limits : s.low ≤ s.high)
    (balanced : s.connLost = 0 → s.protocol = true → s.buffer ≠ [] → Balanced s)
    (unpaused : s.connLost = 0 → s.protocol = true → s.buffer = [] →
      s.protocolPaused = false) :
    Flow s.afterResume := by
  unfold Conn.afterResume
  split
  · rename_i full
    exact ⟨limits, fun isOpen protocol => balanced isOpen protocol full⟩
  · rename_i notFull
    have isEmpty : s.buffer = [] := not_not.mp notFull
    have emptied : ∀ {stack : List Frame} {writeImpl shut : Bool} {lostAt : List (List β)},
        s.connLost = 0 → s.protocol = true → (s.closing = true → .lost ∈ stack) →
        Balanced { s with
          writer := false, stack := stack, writeImpl := writeImpl, shut := shut,
          lostAt := lostAt } := by
      intro stack writeImpl shut lostAt isOpen protocol ends
      refine ⟨⟨fun full => absurd isEmpty full, fun no => (nomatch no), ?_, ?_⟩, ?_⟩
      · intro paused
        exact absurd (paused.symm.trans (unpaused isOpen protocol isEmpty)) (by decide)
      · exact fun closing => .inr (.inr (ends closing))
      · intro above
        have none_ : s.size = 0 := size_zero isEmpty
        exact absurd (none_ ▸ above) (Nat.not_lt_zero _)
    split
    · unfold Conn.callConnectionLost
      split
      · refine ⟨limits, fun isOpen protocol => ?_⟩
        refine emptied isOpen protocol fun _ => ?_
        exact List.mem_cons_of_mem _ List.mem_cons_self
      · rename_i noProtocol
        exact ⟨limits, fun _ protocol => absurd protocol noProtocol⟩
    · rename_i notClosing
      split <;> exact ⟨limits, fun isOpen protocol =>
        emptied isOpen protocol fun closing => absurd closing notClosing⟩

/-- A shorter buffer is flushed, and the protocol is told. -/
theorem Flow.maybeResumeProtocol {buffer : List (List β)} {wire : List β} (flow : Flow s)
    (shorter : buffer.flatten.length ≤ s.size) (running : s.buffer ≠ []) :
    Flow { s with wire := wire, buffer := buffer }.maybeResumeProtocol := by
  unfold Conn.maybeResumeProtocol
  split
  · rename_i drained
    obtain ⟨-, within⟩ := Bool.and_eq_true_iff.mp drained
    have below : buffer.flatten.length ≤ s.low := of_decide_eq_true within
    refine ⟨flow.limits, fun isOpen protocol => ?_⟩
    have balanced := flow.balanced isOpen protocol
    refine ⟨⟨?_, fun _ => .inr ?_, fun no => (nomatch no), fun _ => .inr (.inl ?_)⟩, ?_⟩
    · intro _
      refine (balanced.waits running).imp_right ?_
      exact fun member => List.mem_cons_of_mem _ (List.mem_cons_of_mem _ member)
    · exact List.mem_cons_of_mem _ List.mem_cons_self
    · exact List.mem_cons_of_mem _ List.mem_cons_self
    · intro above
      have above : s.high < buffer.flatten.length := above
      exact absurd (Nat.lt_of_lt_of_le above below) (Nat.not_lt.mpr flow.limits)
  · rename_i undrained
    refine Flow.afterResume flow.limits ?_ ?_
    · intro isOpen protocol full
      have balanced := flow.balanced isOpen protocol
      refine ⟨⟨fun _ => balanced.waits running, fun _ => .inl full, fun _ => full,
        fun _ => .inl full⟩, ?_⟩
      intro above
      exact balanced.bounded (Nat.lt_of_lt_of_le above shorter)
    · intro isOpen protocol isEmpty
      refine Bool.eq_false_iff.mpr fun paused => undrained ?_
      refine Bool.and_eq_true_iff.mpr ⟨paused, decide_eq_true ?_⟩
      rw [size_zero isEmpty]
      exact Nat.zero_le _

theorem Flow.writeReady (flow : Flow s) (result : Sent) :
    Flow (s.writeReady iovMax result) := by
  unfold Conn.writeReady
  split
  · exact flow
  · rename_i runs
    have running : s.buffer ≠ [] := fun isEmpty => runs (.inr (.inl isEmpty))
    cases result with
    | blocked => exact flow
    | failed => exact Flow.forceClose flow.limits
    | sent n =>
        refine Flow.maybeResumeProtocol flow ?_ running
        rw [flatten_adjustLeftoverBuffer, List.length_drop]
        exact Nat.sub_le _ _

theorem Flow.write (flow : Flow s) (data : List β) (result : Sent) :
    Flow (s.write data result) := by
  unfold Conn.write
  split
  · exact flow
  · split
    · exact .lost flow.limits (Nat.succ_ne_zero _)
    · split
      · rename_i full
        refine Flow.maybePauseProtocol flow.limits fun isOpen protocol => ?_
        have balanced := flow.balanced isOpen protocol
        have more : s.buffer ++ [data] ≠ [] := List.append_ne_nil_of_left_ne_nil full _
        exact ⟨fun _ => balanced.waits full, fun _ => .inl more, fun _ => more, fun _ => .inl more⟩
      · -- the socket takes a first part, and the rest has a writer
        have registered : ∀ {accepted wire chunk : List β},
            Flow { s with
              accepted := accepted, wire := wire, writer := true,
              buffer := [chunk] }.maybePauseProtocol := by
          intro accepted wire chunk
          refine Flow.maybePauseProtocol flow.limits fun _ _ => ?_
          have full : [chunk] ≠ [] := List.cons_ne_nil _ _
          exact ⟨fun _ => .inl rfl, fun _ => .inl full, fun _ => full, fun _ => .inl full⟩
        split
        · exact flow
        · cases result with
          | failed => exact Flow.forceClose flow.limits
          | blocked => exact registered
          | sent n =>
              dsimp only
              split
              · exact ⟨flow.limits, fun isOpen protocol =>
                  { flow.balanced isOpen protocol with }⟩
              · exact registered

theorem Flow.writelines (flow : Flow s) (lines : List (List β)) (result : Sent) :
    Flow (s.writelines iovMax lines result) := by
  unfold Conn.writelines
  split
  · exact flow
  · rename_i goes
    have notNone : lines ≠ [] := fun isNone => goes (.inr isNone)
    split
    · exact .lost flow.limits (Nat.succ_ne_zero _)
    · split
      · rename_i noProtocol
        refine ⟨flow.limits, fun _ protocol => ?_⟩
        exact absurd (noProtocol.symm.trans protocol) (by decide)
      · refine Flow.writeReady ?_ result
        refine ⟨flow.limits, fun isOpen protocol => ?_⟩
        have balanced := flow.balanced isOpen protocol
        have more : s.buffer ++ lines ≠ [] := List.append_ne_nil_of_right_ne_nil _ notNone
        exact ⟨⟨fun _ => .inr List.mem_cons_self, fun _ => .inl more, fun _ => more,
          fun _ => .inl more⟩, fun _ => .inr List.mem_cons_self⟩

theorem Flow.method {next : Conn T β} (flow : Flow s) (runs : Method iovMax s next) :
    Flow next := by
  cases runs with
  | write data result => exact flow.write data result
  | writelines lines result => exact flow.writelines lines result
  | writeEof =>
      unfold Conn.writeEof
      split
      · exact flow
      · exact ⟨flow.limits, fun isOpen protocol => { flow.balanced isOpen protocol with }⟩
  | close =>
      unfold Conn.close
      split
      · exact flow
      · split
        · rename_i full
          exact ⟨flow.limits, fun isOpen protocol =>
            { flow.balanced isOpen protocol with ending := fun _ => .inl full }⟩
        · exact .lost flow.limits (Nat.succ_ne_zero _)
  | abort => exact Flow.forceClose flow.limits
  | limits high low =>
      unfold Conn.setWriteBufferLimits
      split
      · rename_i ordered
        refine Flow.maybePauseProtocol ordered fun isOpen protocol => ?_
        exact { (flow.balanced isOpen protocol).toSteady with }
      · exact flow

/-- A frame is popped and its rest is run. -/
theorem Flow.returned {frame : Frame} {rest : List Frame} (flow : Flow s)
    (top : s.stack = frame :: rest) : Flow ({ s with stack := rest }.returned frame) := by
  have other : ∀ {f : Frame}, f ≠ frame → f ∈ s.stack → f ∈ rest := by
    intro f differs member
    rw [top] at member
    exact (List.mem_cons.mp member).resolve_left differs
  cases frame with
  | callback =>
      refine ⟨flow.limits, fun isOpen protocol => ?_⟩
      exact (flow.balanced isOpen protocol).restack fun f differs member => other differs member
  | resumed =>
      refine Flow.afterResume flow.limits ?_ ?_
      · intro isOpen protocol full
        have balanced := flow.balanced isOpen protocol
        refine ⟨⟨fun _ => ?_, fun _ => .inl full, fun _ => full, fun _ => .inl full⟩, ?_⟩
        · exact (balanced.waits full).imp_right (other fun same => nomatch same)
        · exact fun above =>
            (balanced.bounded above).imp_right (other fun same => nomatch same)
      · intro isOpen protocol isEmpty
        refine Bool.eq_false_iff.mpr fun paused => ?_
        exact (flow.balanced isOpen protocol).paused paused isEmpty
  | flushed =>
      show Flow (if s.buffer = [] then { s with stack := rest } else _)
      split
      · rename_i isEmpty
        refine ⟨flow.limits, fun isOpen protocol => ?_⟩
        have balanced := flow.balanced isOpen protocol
        refine ⟨⟨fun full => absurd isEmpty full, ?_, balanced.paused, ?_⟩, ?_⟩
        · exact fun has => (balanced.watched has).imp_right (other fun same => nomatch same)
        · intro closing
          rcases balanced.ending closing with full | resumed | lost
          · exact .inl full
          · exact .inr (.inl (other (fun same => nomatch same) resumed))
          · exact .inr (.inr (other (fun same => nomatch same) lost))
        · intro above
          have none_ : s.size = 0 := size_zero isEmpty
          exact absurd (none_ ▸ above) (Nat.not_lt_zero _)
      · rename_i full
        refine Flow.maybePauseProtocol flow.limits fun isOpen protocol => ?_
        exact ⟨fun _ => .inl rfl, fun _ => .inl full, fun _ => full, fun _ => .inl full⟩
  | lost => exact ⟨flow.limits, fun _ no => (nomatch no)⟩

theorem Flow.outermost {t : T} (flow : Flow s) : Flow { s with lock := some t } :=
  ⟨flow.limits, fun isOpen protocol => { flow.balanced isOpen protocol with }⟩

theorem flow_move (locked : Locked s) (lost : Lost s) (flow : Flow s)
    (moves : Move iovMax s s') : Flow s' := by
  cases moves with
  | outermost free runs => exact (flow.outermost.method runs).settle
  | nested mine inside runs => exact (flow.method runs).settle
  | ready free => exact (flow.outermost.writeReady _).settle
  | connectionLost free queued =>
      have isLost := lost.queued queued
      refine Flow.settle ?_
      unfold Conn.callConnectionLost
      split <;> exact .lost flow.limits isLost
  | enter free =>
      refine ⟨flow.limits, fun isOpen protocol => ?_⟩
      have kept : ∀ frame, frame ≠ .callback → frame ∈ s.stack → frame ∈ [.callback] := by
        intro frame _ member
        rw [locked free] at member
        cases member
      exact { (flow.balanced isOpen protocol).restack kept with }
  | returned mine top => exact (flow.returned top).settle

theorem flow [DecidableEq T] (reached : (machine iovMax T β).Reachable s) : Flow s := by
  induction reached with
  | start isStart =>
      cases isStart
      have limits : (fresh T β).low ≤ (fresh T β).high := Nat.le_of_ble_eq_true rfl
      refine ⟨limits, fun _ _ => ⟨⟨fun full => absurd rfl full, ?_, ?_, ?_⟩, ?_⟩⟩
      · exact fun no => nomatch no
      · exact fun no => nomatch no
      · exact fun no => nomatch no
      · exact fun above => absurd above (Nat.not_lt_zero _)
  | step before _ taken inductionHypothesis =>
      obtain ⟨-, locked, lost⟩ := lost before
      exact flow_move locked lost inductionHypothesis (move_of_step taken)

/-- The protocol is paused over lowered marks, and closes. -/
def pausedRun : List (Act Nat Nat) :=
  [.setWriteBufferLimits 0 2 1, .write 0 [1, 2, 3, 4] (.sent 1), .close 0, .thread 0]

theorem pausedRun_ends :
    ((machine 16 Nat Nat).exec (fresh Nat Nat) pausedRun).any
      (fun s => decide (s.lock = none ∧ s.connLost = 0 ∧ s.protocol = true ∧
        s.protocolPaused = true)) = true := by
  decide +kernel

end MtAsyncio.TransportWrites
