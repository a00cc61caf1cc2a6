/-
Module: MtAsyncio.Model.TransportWrites
Purpose: The writing side of a `SocketTransport` of `_transports.py`: `write`,
  `writelines`, `write_eof`, `close`, `abort`, `set_write_buffer_limits`, the writer's
  `_locked_write_ready` and `_call_connection_lost`, each under the lock of the
  connection, which a callback of the protocol takes again when it calls back.
Trusted boundary: the bodies under the lock are those of `selector_events.py` and
  `transports.py` of CPython 3.14, the version that is asked for at least, with
  `sendmsg`; its `writelines` drops the data on a lost connection, as `write` does.
  The reactor may dispatch a writer's handle at any time, also one that was removed;
  `sendmsg` sends a first part of what it is given
Main exports: Frame, Sent, Conn, adjustLeftoverBuffer, maybePauseProtocol, forceClose,
  callConnectionLost, writeSendmsg, write, writelines, Act, step, machine
-/
import MtAsyncio.Lib.Machine

namespace MtAsyncio.TransportWrites

open Lib (Machine)

/-- What the thread that has the lock comes back to, innermost first. -/
inductive Frame where
  /-- code of the protocol, which may call the transport -/
  | callback
  /-- `_write_sendmsg` behind `_maybe_resume_protocol` -/
  | resumed
  /-- `writelines` behind `_write_ready` -/
  | flushed
  /-- `_call_connection_lost` behind `connection_lost` -/
  | lost
deriving DecidableEq

/-- What `sock.send` or `sock.sendmsg` makes of its data. -/
inductive Sent where
  | sent (n : Nat)
  | blocked
  | failed
deriving DecidableEq

/-- `protocol` is cleared behind `connection_lost`, with `_sock`, `_loop` and
`_write_ready`; `writer` tells whether the loop has a writer for the fd; `queuedLost`
counts the `_call_connection_lost` that `call_soon` has queued.  Nothing in the program
reads `accepted` (the bytes that the calls have taken, in the order of the lock), `wire`
(those that the kernel has taken), `promised` (the accepted ones when `close` was called),
`forced` (`_force_close` went through) and `lostAt` (`wire` whenever `connection_lost` was
called). -/
structure Conn (T β : Type) where
  lock : Option T
  stack : List Frame
  buffer : List (List β)
  connLost : Nat
  closing : Bool
  eof : Bool
  shut : Bool
  protocolPaused : Bool
  high : Nat
  low : Nat
  writer : Bool
  writeImpl : Bool
  protocol : Bool
  queuedLost : Nat
  accepted : List β
  wire : List β
  promised : List β
  forced : Bool
  lostAt : List (List β)

variable {T β : Type}

/-- `_adjust_leftover_buffer` -/
def adjustLeftoverBuffer : List (List β) → Nat → List (List β)
  | [], _ => []
  | chunk :: rest, n =>
      if n = 0 then chunk :: rest
      else if chunk.length ≤ n then adjustLeftoverBuffer rest (n - chunk.length)
      else chunk.drop n :: rest

theorem flatten_adjustLeftoverBuffer (buffer : List (List β)) (n : Nat) :
    (adjustLeftoverBuffer buffer n).flatten = buffer.flatten.drop n := by
  fun_induction adjustLeftoverBuffer buffer n with
  | case1 n => simp only [List.flatten_nil, List.drop_nil]
  | case2 chunk rest => rfl
  | case3 chunk rest n notZero fits inductionHypothesis =>
      rw [inductionHypothesis, List.flatten_cons, List.drop_append, List.drop_eq_nil_of_le fits,
        List.nil_append]
  | case4 chunk rest n notZero tooLong =>
      have within : n ≤ chunk.length := Nat.le_of_not_le tooLong
      rw [List.flatten_cons, List.flatten_cons, List.drop_append_of_le_length within]

namespace Conn

variable (s : Conn T β)

/-- `get_write_buffer_size` -/
def size : Nat :=
  s.buffer.flatten.length

/-- `_maybe_pause_protocol` -/
def maybePauseProtocol : Conn T β :=
  if s.size ≤ s.high || s.protocolPaused then s
  else
    { s with
      protocolPaused := true
      stack := if s.protocol then .callback :: s.stack else s.stack }

/-- `_force_close`; without a loop its `_remove_writer` or its `call_soon` raises. -/
def forceClose : Conn T β :=
  if s.connLost ≠ 0 then s
  else if s.protocol = false then
    if s.buffer = [] then { s with connLost := s.connLost + 1 } else { s with buffer := [] }
  else
    { s with
      buffer := []
      writer := if s.buffer = [] then s.writer else false
      closing := true
      connLost := s.connLost + 1
      queuedLost := s.queuedLost + 1
      forced := true }

/-- `_call_connection_lost`; a second time there is no protocol to call. -/
def callConnectionLost : Conn T β :=
  if s.protocol then
    { s with
      writeImpl := false
      writer := false
      lostAt := s.wire :: s.lostAt
      stack := .callback :: .lost :: s.stack }
  else { s with writeImpl := false }

/-- `_write_sendmsg` behind `_maybe_resume_protocol` -/
def afterResume : Conn T β :=
  if s.buffer ≠ [] then s
  else if s.closing then { s with writer := false }.callConnectionLost
  else if s.eof then { s with writer := false, shut := true }
  else { s with writer := false }

/-- `_maybe_resume_protocol` and what follows on it -/
def maybeResumeProtocol : Conn T β :=
  if s.protocolPaused && s.size ≤ s.low then
    { s with protocolPaused := false, stack := .callback :: .resumed :: s.stack }
  else s.afterResume

/-- `_write_impl`, which is `_write_sendmsg`; an empty buffer fails its assertion. -/
def writeReady (iovMax : Nat) (result : Sent) : Conn T β :=
  if s.writeImpl = false ∨ s.buffer = [] ∨ s.connLost ≠ 0 then s
  else
    match result with
    | .blocked => s
    | .failed => { s with writer := false, buffer := [] }.forceClose
    | .sent n =>
        let taken := (s.buffer.take iovMax).flatten.take n
        { s with
          wire := s.wire ++ taken
          buffer := adjustLeftoverBuffer s.buffer taken.length }.maybeResumeProtocol

/-- `write`; without a socket its `send` raises. -/
def write (data : List β) (result : Sent) : Conn T β :=
  if s.eof ∨ data = [] then s
  else if s.connLost ≠ 0 then { s with connLost := s.connLost + 1 }
  else if s.buffer ≠ [] then
    { s with
      accepted := s.accepted ++ data
      buffer := s.buffer ++ [data] }.maybePauseProtocol
  else if s.protocol = false then s
  else
    match result with
    | .failed => { s with accepted := s.accepted ++ data }.forceClose
    | .blocked =>
        { s with
          accepted := s.accepted ++ data
          writer := true
          buffer := [data] }.maybePauseProtocol
    | .sent n =>
        if data.drop n = [] then
          { s with accepted := s.accepted ++ data, wire := s.wire ++ data }
        else
          { s with
            accepted := s.accepted ++ data
            wire := s.wire ++ data.take n
            writer := true
            buffer := [data.drop n] }.maybePauseProtocol

/-- `writelines` up to its `_write_ready`, which is gone with the protocol. -/
def writelines (iovMax : Nat) (lines : List (List β)) (result : Sent) : Conn T β :=
  if s.eof ∨ lines = [] then s
  else if s.connLost ≠ 0 then { s with connLost := s.connLost + 1 }
  else if s.protocol = false then
    { s with accepted := s.accepted ++ lines.flatten, buffer := s.buffer ++ lines }
  else
    { s with
      accepted := s.accepted ++ lines.flatten
      buffer := s.buffer ++ lines
      stack := .flushed :: s.stack }.writeReady iovMax result

def writeEof : Conn T β :=
  if s.closing || s.eof then s else { s with eof := true, shut := s.buffer = [] }

def close : Conn T β :=
  if s.closing then s
  else if s.buffer ≠ [] then { s with closing := true, promised := s.accepted }
  else
    { s with
      closing := true
      promised := s.accepted
      connLost := s.connLost + 1
      writer := false
      queuedLost := s.queuedLost + 1 }

/-- `set_write_buffer_limits`, which raises where they are out of order. -/
def setWriteBufferLimits (high low : Nat) : Conn T β :=
  if low ≤ high then { s with high := high, low := low }.maybePauseProtocol else s

/-- The rest of a method. -/
def returned : Frame → Conn T β
  | .callback => s
  | .resumed => s.afterResume
  | .flushed => if s.buffer = [] then s else { s with writer := true }.maybePauseProtocol
  | .lost => { s with protocol := false }

/-- The outermost method gives the lock back. -/
def settle : Conn T β :=
  if s.stack = [] then { s with lock := none } else s

/-- Another method can begin in a thread that has no lock to wait for: nobody has it, or
a callback of the thread's own does. -/
def enters [DecidableEq T] (t : T) : Option (Conn T β) :=
  if s.lock = none then some { s with lock := some t }
  else if s.lock = some t ∧ s.stack.head? = some .callback then some s
  else none

end Conn

inductive Act (T β : Type) where
  | write (t : T) (data : List β) (result : Sent)
  | writelines (t : T) (lines : List (List β)) (result : Sent)
  | writeEof (t : T)
  | close (t : T)
  /-- `abort`, or a fatal error of the reading side -/
  | abort (t : T)
  | setWriteBufferLimits (t : T) (high low : Nat)
  /-- a worker runs a dispatch of a writer's handle -/
  | ready (t : T) (result : Sent)
  /-- a worker runs a queued `_call_connection_lost` -/
  | connectionLost (t : T)
  /-- another locked method, such as `_read_ready`, calls the protocol -/
  | enter (t : T)
  /-- the method or the callback of the thread that has the lock goes on -/
  | thread (t : T)

variable [DecidableEq T]

/-- The innermost callback returns, or the innermost method runs its rest. -/
def threadStep (s : Conn T β) (t : T) : Option (Conn T β) :=
  match s.stack with
  | [] => none
  | frame :: rest =>
      if s.lock = some t then some ({ s with stack := rest }.returned frame).settle else none

def step (iovMax : Nat) (s : Conn T β) : Act T β → Option (Conn T β)
  | .write t data result => (s.enters t).map fun s => (s.write data result).settle
  | .writelines t lines result =>
      (s.enters t).map fun s => (s.writelines iovMax lines result).settle
  | .writeEof t => (s.enters t).map fun s => s.writeEof.settle
  | .close t => (s.enters t).map fun s => s.close.settle
  | .abort t => (s.enters t).map fun s => s.forceClose.settle
  | .setWriteBufferLimits t high low =>
      (s.enters t).map fun s => (s.setWriteBufferLimits high low).settle
  | .ready t result =>
      if s.lock = none then
        some ({ s with lock := some t }.writeReady iovMax result).settle
      else none
  | .connectionLost t =>
      if s.lock = none ∧ 0 < s.queuedLost then
        some { s with lock := some t, queuedLost := s.queuedLost - 1 }.callConnectionLost.settle
      else none
  | .enter t =>
      if s.lock = none then some { s with lock := some t, stack := [.callback] } else none
  | .thread t => threadStep s t

/-- The transport has been made; the limits are those of `_FlowControlMixin`. -/
def fresh (T β : Type) : Conn T β where
  lock := none
  stack := []
  buffer := []
  connLost := 0
  closing := false
  eof := false
  shut := false
  protocolPaused := false
  high := 65536
  low := 16384
  writer := false
  writeImpl := true
  protocol := true
  queuedLost := 0
  accepted := []
  wire := []
  promised := []
  forced := false
  lostAt := []

def machine (iovMax : Nat) (T β : Type) [DecidableEq T] : Machine (Conn T β) (Act T β) where
  start s := s = fresh T β
  step := step iovMax

end MtAsyncio.TransportWrites
