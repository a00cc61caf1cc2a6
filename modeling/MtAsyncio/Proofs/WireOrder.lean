/-
Module: MtAsyncio.Proofs.WireOrder
Purpose: The bytes on the wire are those of the calls, in the order in which the calls
  got the lock of the connection; nothing is lost, repeated or spliced.
Trusted boundary: none
Main exports: Order, order, wire_in_order
-/
import MtAsyncio.Model.TransportWrites

namespace MtAsyncio.TransportWrites

open Lib (Machine)

variable {T β : Type} {s s' : Conn T β} {a : Act T β} {t : T} {iovMax : Nat}

/-! ## From a step to the method that runs -/

/-- The methods under the lock, with the state in which they begin. -/
inductive Method (iovMax : Nat) (s : Conn T β) : Conn T β → Prop where
  | write (data : List β) (result : Sent) : Method iovMax s (s.write data result)
  | writelines (lines : List (List β)) (result : Sent) :
      Method iovMax s (s.writelines iovMax lines result)
  | writeEof : Method iovMax s s.writeEof
  | close : Method iovMax s s.close
  | abort : Method iovMax s s.forceClose
  | limits (high low : Nat) : Method iovMax s (s.setWriteBufferLimits high low)

/-- What a step does between taking the lock and giving it back. -/
inductive Move (iovMax : Nat) (s : Conn T β) : Conn T β → Prop where
  /-- nobody has the lock -/
  | outermost {t : T} {next : Conn T β} (free : s.lock = none)
      (runs : Method iovMax { s with lock := some t } next) : Move iovMax s next.settle
  /-- a callback of the protocol calls back -/
  | nested {t : T} {next : Conn T β} (mine : s.lock = some t)
      (inside : s.stack.head? = some .callback) (runs : Method iovMax s next) :
      Move iovMax s next.settle
  | ready {t : T} {result : Sent} (free : s.lock = none) :
      Move iovMax s ({ s with lock := some t }.writeReady iovMax result).settle
  | connectionLost {t : T} (free : s.lock = none) (queued : 0 < s.queuedLost) :
      Move iovMax s
        { s with lock := some t, queuedLost := s.queuedLost - 1 }.callConnectionLost.settle
  | enter {t : T} (free : s.lock = none) :
      Move iovMax s { s with lock := some t, stack := [.callback] }
  | returned {t : T} {frame : Frame} {rest : List Frame} (mine : s.lock = some t)
      (top : s.stack = frame :: rest) :
      Move iovMax s ({ s with stack := rest }.returned frame).settle

theorem move_of_enters [DecidableEq T] {method : Conn T β → Conn T β}
    (runs : ∀ s, Method iovMax s (method s))
    (taken : ((s.enters t).map fun s => (method s).settle) = some s') : Move iovMax s s' := by
  obtain ⟨before, entered, rfl⟩ := Option.map_eq_some_iff.mp taken
  unfold Conn.enters at entered
  split at entered
  · rename_i free
    cases entered
    exact .outermost free (runs _)
  · split at entered
    · rename_i mine
      cases entered
      exact .nested mine.1 mine.2 (runs _)
    · cases entered

theorem move_of_step [DecidableEq T] (taken : step iovMax s a = some s') : Move iovMax s s' := by
  cases a with
  | write t data result => exact move_of_enters (fun _ => .write data result) taken
  | writelines t lines result => exact move_of_enters (fun _ => .writelines lines result) taken
  | writeEof t => exact move_of_enters (fun _ => .writeEof) taken
  | close t => exact move_of_enters (fun _ => .close) taken
  | abort t => exact move_of_enters (fun _ => .abort) taken
  | setWriteBufferLimits t high low => exact move_of_enters (fun _ => .limits high low) taken
  | ready t result =>
      simp only [step] at taken
      split at taken
      · rename_i free
        cases taken
        exact .ready free
      · cases taken
  | connectionLost t =>
      simp only [step] at taken
      split at taken
      · rename_i free
        cases taken
        exact .connectionLost free.1 free.2
      · cases taken
  | enter t =>
      simp only [step] at taken
      split at taken
      · rename_i free
        cases taken
        exact .enter free
      · cases taken
  | thread t =>
      simp only [step, threadStep] at taken
      split at taken
      · cases taken
      · rename_i frame rest top
        split at taken
        · rename_i mine
          cases taken
          exact .returned mine top
        · cases taken

/-! ## The order of the bytes -/

/-- The wire has a first part of what was accepted, and the buffer the rest of it unless
the connection was forced to close. -/
structure Order (s : Conn T β) : Prop where
  first : s.wire <+: s.accepted
  whole : s.protocol = true → s.forced = false → s.wire ++ s.buffer.flatten = s.accepted
  eof : s.shut = true → s.eof = true
  empty : s.shut = true → s.protocol = true → s.forced = false → s.buffer = []
  forced : s.forced = true → s.connLost ≠ 0
  gone : .lost ∈ s.stack ∨ s.protocol = false → s.writeImpl = false

theorem Order.settle (order : Order s) : Order s.settle := by
  unfold Conn.settle
  split
  · exact ⟨order.first, order.whole, order.eof, order.empty, order.forced, order.gone⟩
  · exact order

/-- Frames other than the rest of `_call_connection_lost` change nothing. -/
theorem Order.restack {stack : List Frame} {paused : Bool} (order : Order s)
    (noneNew : .lost ∈ stack → .lost ∈ s.stack) :
    Order { s with stack := stack, protocolPaused := paused } := by
  refine ⟨order.first, order.whole, order.eof, order.empty, order.forced, ?_⟩
  rintro (inStack | noProtocol)
  · exact order.gone (.inl (noneNew inStack))
  · exact order.gone (.inr noProtocol)

theorem Order.maybePauseProtocol (order : Order s) : Order s.maybePauseProtocol := by
  unfold Conn.maybePauseProtocol
  split
  · exact order
  · refine order.restack ?_
    intro inStack
    split at inStack
    · simpa using inStack
    · exact inStack

theorem Order.open_ (order : Order s) (running : s.writeImpl = true) : s.protocol = true := by
  by_contra noProtocol
  have stopped := order.gone (.inr (Bool.eq_false_iff.mpr noProtocol))
  rw [running] at stopped
  cases stopped

theorem Order.notForced (order : Order s) (noneLost : s.connLost = 0) : s.forced = false := by
  by_contra isForced
  exact order.forced (Bool.of_not_eq_false isForced) noneLost

theorem Order.forceClose (order : Order s) : Order s.forceClose := by
  unfold Conn.forceClose
  split
  · exact order
  · split
    · rename_i noProtocol
      have closed : ∀ {p : Prop}, s.protocol = true → p := by
        intro p protocol
        rw [noProtocol] at protocol
        cases protocol
      split
      · exact ⟨order.first, order.whole, order.eof, order.empty, fun _ => Nat.succ_ne_zero _,
          order.gone⟩
      · exact ⟨order.first, closed, order.eof, fun _ => closed, order.forced, order.gone⟩
    · exact ⟨order.first, fun _ no => (nomatch no), order.eof, fun _ _ _ => rfl,
        fun _ => Nat.succ_ne_zero _, order.gone⟩

/-- A failed send closes the connection, whatever it has left of the buffer. -/
theorem Order.fails {buffer : List (List β)} {accepted : List β} {writer : Bool} (order : Order s)
    (noneLost : s.connLost = 0) (protocol : s.protocol = true) (more : s.accepted <+: accepted) :
    Order { s with buffer := buffer, accepted := accepted, writer := writer }.forceClose := by
  unfold Conn.forceClose
  rw [if_neg (fun isLost => isLost noneLost), if_neg (by rw [protocol]; exact fun no => nomatch no)]
  exact ⟨order.first.trans more, fun _ no => (nomatch no), order.eof, fun _ _ _ => rfl,
    fun _ => Nat.succ_ne_zero _, order.gone⟩

theorem Order.callConnectionLost (order : Order s) : Order s.callConnectionLost := by
  unfold Conn.callConnectionLost
  split
  · exact ⟨order.first, order.whole, order.eof, order.empty, order.forced, fun _ => rfl⟩
  · exact ⟨order.first, order.whole, order.eof, order.empty, order.forced, fun _ => rfl⟩

theorem Order.afterResume (order : Order s) : Order s.afterResume := by
  have noWriter : Order { s with writer := false } :=
    ⟨order.first, order.whole, order.eof, order.empty, order.forced, order.gone⟩
  unfold Conn.afterResume
  split
  · exact order
  · rename_i notEmpty
    split
    · exact noWriter.callConnectionLost
    · split
      · rename_i isEof
        exact ⟨order.first, order.whole, fun _ => isEof, fun _ _ _ => not_not.mp notEmpty,
          order.forced, order.gone⟩
      · exact noWriter

theorem Order.maybeResumeProtocol (order : Order s) : Order s.maybeResumeProtocol := by
  unfold Conn.maybeResumeProtocol
  split
  · refine order.restack ?_
    intro inStack
    simpa using inStack
  · exact order.afterResume

/-- What `sendmsg` takes is the first part of the whole buffer. -/
theorem taken_of_buffer (buffer : List (List β)) (n : Nat) :
    (buffer.take iovMax).flatten.take n =
      buffer.flatten.take ((buffer.take iovMax).flatten.take n).length := by
  have first : (buffer.take iovMax).flatten.take n <+: buffer.flatten := by
    refine (List.take_prefix _ _).trans ?_
    refine ⟨(buffer.drop iovMax).flatten, ?_⟩
    rw [← List.flatten_append, List.take_append_drop]
  exact List.prefix_iff_eq_take.mp first

/-- What goes from the buffer to the wire. -/
theorem Order.sends (order : Order s) (n : Nat) (protocol : s.protocol = true)
    (notForced : s.forced = false) :
    Order { s with
      wire := s.wire ++ s.buffer.flatten.take n
      buffer := adjustLeftoverBuffer s.buffer n } := by
  have whole := order.whole protocol notForced
  have moved : (s.wire ++ s.buffer.flatten.take n) ++ s.buffer.flatten.drop n = s.accepted := by
    rw [List.append_assoc, List.take_append_drop, whole]
  refine ⟨⟨_, moved⟩, ?_, order.eof, ?_, order.forced, order.gone⟩
  · intro _ _
    show s.wire ++ s.buffer.flatten.take n ++ (adjustLeftoverBuffer s.buffer n).flatten = s.accepted
    rw [flatten_adjustLeftoverBuffer]
    exact moved
  · intro shut _ _
    have isEmpty := order.empty shut protocol notForced
    show adjustLeftoverBuffer s.buffer n = []
    rw [isEmpty]
    rfl

theorem Order.writeReady (order : Order s) (result : Sent) :
    Order (s.writeReady iovMax result) := by
  unfold Conn.writeReady
  split
  · exact order
  · rename_i runs
    have noneLost : s.connLost = 0 := by
      by_contra isLost
      exact runs (.inr (.inr isLost))
    have running : s.writeImpl = true := by
      by_contra stopped
      exact runs (.inl (Bool.eq_false_iff.mpr stopped))
    have protocol := order.open_ running
    cases result with
    | blocked => exact order
    | failed => exact order.fails noneLost protocol (List.prefix_refl _)
    | sent n =>
        have taken := order.sends ((s.buffer.take iovMax).flatten.take n).length protocol
          (order.notForced noneLost)
        rw [← taken_of_buffer] at taken
        exact taken.maybeResumeProtocol

/-- A call takes bytes that no end of file has cut off. -/
theorem Order.accepts {buffer : List (List β)} {writer : Bool} {data : List β} (order : Order s)
    (notEof : ¬s.eof = true) (more : buffer.flatten = s.buffer.flatten ++ data) :
    Order { s with accepted := s.accepted ++ data, buffer := buffer, writer := writer } := by
  refine ⟨order.first.trans (List.prefix_append _ _), ?_, order.eof, ?_, order.forced, order.gone⟩
  · intro protocol notForced
    show s.wire ++ buffer.flatten = s.accepted ++ data
    rw [more, ← List.append_assoc, order.whole protocol notForced]
  · intro shut
    exact absurd (order.eof shut) notEof

theorem Order.write (order : Order s) (data : List β) (result : Sent) :
    Order (s.write data result) := by
  unfold Conn.write
  split
  · exact order
  · rename_i goes
    have notEof : ¬s.eof = true := fun isEof => goes (.inl isEof)
    split
    · exact ⟨order.first, order.whole, order.eof, order.empty, fun _ => Nat.succ_ne_zero _,
        order.gone⟩
    · rename_i noneLost
      have noneLost : s.connLost = 0 := not_not.mp noneLost
      split
      · refine Order.maybePauseProtocol (order.accepts notEof ?_)
        rw [List.flatten_append, List.flatten_cons, List.flatten_nil, List.append_nil]
      · rename_i notFull
        have isEmpty : s.buffer = [] := not_not.mp notFull
        split
        · exact order
        · rename_i protocol
          have protocol : s.protocol = true := Bool.of_not_eq_false protocol
          have all : s.wire = s.accepted := by
            have whole := order.whole protocol (order.notForced noneLost)
            rwa [isEmpty, List.flatten_nil, List.append_nil] at whole
          cases result with
          | failed => exact order.fails noneLost protocol (List.prefix_append _ _)
          | blocked =>
              refine Order.maybePauseProtocol (order.accepts notEof ?_)
              rw [isEmpty, List.flatten_cons, List.flatten_nil, List.append_nil, List.nil_append]
          | sent n =>
              dsimp only
              have sent : ∀ m, Order { s with
                  accepted := s.accepted ++ data
                  wire := s.wire ++ data.take m
                  writer := true
                  buffer := [data.drop m] } := by
                intro m
                have moved : (s.wire ++ data.take m) ++ data.drop m = s.accepted ++ data := by
                  rw [List.append_assoc, List.take_append_drop, all]
                refine ⟨⟨_, moved⟩, ?_, order.eof, fun shut => absurd (order.eof shut) notEof,
                  order.forced, order.gone⟩
                intro _ _
                show s.wire ++ data.take m ++ [data.drop m].flatten = s.accepted ++ data
                rw [List.flatten_cons, List.flatten_nil, List.append_nil]
                exact moved
              split
              · refine ⟨?_, ?_, order.eof, order.empty, order.forced, order.gone⟩
                · show s.wire ++ data <+: s.accepted ++ data
                  exact all ▸ List.prefix_refl (s.wire ++ data)
                · intro _ _
                  show s.wire ++ data ++ s.buffer.flatten = s.accepted ++ data
                  rw [isEmpty, List.flatten_nil, List.append_nil, all]
              · exact (sent n).maybePauseProtocol

theorem Order.writelines (order : Order s) (lines : List (List β)) (result : Sent) :
    Order (s.writelines iovMax lines result) := by
  unfold Conn.writelines
  split
  · exact order
  · rename_i goes
    have notEof : ¬s.eof = true := fun isEof => goes (.inl isEof)
    have accepted : Order { s with
        accepted := s.accepted ++ lines.flatten, buffer := s.buffer ++ lines } :=
      order.accepts notEof List.flatten_append
    split
    · exact ⟨order.first, order.whole, order.eof, order.empty, fun _ => Nat.succ_ne_zero _,
        order.gone⟩
    · split
      · exact accepted
      · refine Order.writeReady ?_ result
        refine accepted.restack ?_
        intro inStack
        simpa using inStack

theorem Order.method {next : Conn T β} (order : Order s) (runs : Method iovMax s next) :
    Order next := by
  cases runs with
  | write data result => exact order.write data result
  | writelines lines result => exact order.writelines lines result
  | writeEof =>
      unfold Conn.writeEof
      split
      · exact order
      · exact ⟨order.first, order.whole, fun _ => rfl, fun shut _ _ => of_decide_eq_true shut,
          order.forced, order.gone⟩
  | close =>
      unfold Conn.close
      split
      · exact order
      · split
        · exact ⟨order.first, order.whole, order.eof, order.empty, order.forced, order.gone⟩
        · exact ⟨order.first, order.whole, order.eof, order.empty, fun _ => Nat.succ_ne_zero _,
            order.gone⟩
  | abort => exact order.forceClose
  | limits high low =>
      unfold Conn.setWriteBufferLimits
      split
      · refine Order.maybePauseProtocol ?_
        exact ⟨order.first, order.whole, order.eof, order.empty, order.forced, order.gone⟩
      · exact order

theorem Order.returned {frame : Frame} {rest : List Frame} (order : Order s)
    (top : s.stack = frame :: rest) : Order ({ s with stack := rest }.returned frame) := by
  have popped : Order { s with stack := rest } := by
    refine order.restack ?_
    intro inStack
    rw [top]
    exact List.mem_cons_of_mem _ inStack
  cases frame with
  | callback => exact popped
  | resumed => exact popped.afterResume
  | flushed =>
      show Order (if s.buffer = [] then _ else _)
      split
      · exact popped
      · refine Order.maybePauseProtocol ?_
        exact ⟨popped.first, popped.whole, popped.eof, popped.empty, popped.forced, popped.gone⟩
  | lost =>
      have stopped : s.writeImpl = false :=
        order.gone (.inl (by rw [top]; exact List.mem_cons_self))
      exact ⟨order.first, fun no => (nomatch no), order.eof, fun _ no => (nomatch no),
        order.forced, fun _ => stopped⟩

theorem order_move (order : Order s) (moves : Move iovMax s s') : Order s' := by
  cases moves with
  | outermost free runs =>
      refine (Order.method ?_ runs).settle
      exact { order with }
  | nested mine inside runs => exact (order.method runs).settle
  | ready free =>
      refine (Order.writeReady ?_ _).settle
      exact { order with }
  | connectionLost free queued =>
      refine (Order.callConnectionLost ?_).settle
      exact { order with }
  | enter free =>
      refine { order with gone := ?_ }
      rintro (no | noProtocol)
      · cases List.mem_singleton.mp no
      · exact order.gone (.inr noProtocol)
  | returned mine top => exact (order.returned top).settle

theorem order [DecidableEq T] (reached : (machine iovMax T β).Reachable s) : Order s := by
  refine reached.invariant Order ?_ ?_
  · rintro s rfl
    refine ⟨List.prefix_refl _, fun _ _ => rfl, fun no => (nomatch no), fun no => (nomatch no),
      fun no => (nomatch no), ?_⟩
    rintro (no | no)
    · cases no
    · cases no
  · rintro s a s' order - taken
    exact order_move order (move_of_step taken)

/-- Two threads write, and a dispatch sends across their chunks. -/
def splicedRun : List (Act Nat Nat) :=
  [.write 0 [1, 2, 3] (.sent 1), .write 1 [4, 5, 6] .blocked, .ready 0 (.sent 4)]

theorem splicedRun_ends :
    ((machine 16 Nat Nat).exec (fresh Nat Nat) splicedRun).any
      (fun s => decide (s.wire = [1, 2, 3, 4, 5] ∧ s.protocol = true ∧ s.forced = false)) =
        true := by
  decide +kernel

end MtAsyncio.TransportWrites
