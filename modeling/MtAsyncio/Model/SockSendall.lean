/-
Module: MtAsyncio.Model.SockSendall
Purpose: `sock_sendall` of `asyncio/_loop.py`: the loop over `_wait_writable` and
  `sock.send` of a slice of the view, with the counter of the bytes that were sent.
Trusted boundary: a memoryview of a C-contiguous buffer slices its first dimension,
  and refuses to where it has none; `send` takes a prefix of what it is given, of at
  least one byte where there is one; the awaiting task resumes when its future is
  done
Main exports: Shape, View, View.slice, Reply, Pc, State, Act, sendStep, step, machine
-/
import MtAsyncio.Lib.Machine

namespace MtAsyncio.SockSendall

open Lib (Machine)

variable {B : Type}

/-! ## The view -/

/-- The first dimension of a buffer and the bytes of one of its rows: an item, or
what the other dimensions make of items.  A scalar has no dimension. -/
inductive Shape where
  | scalar
  | rows (count size : Nat)
deriving DecidableEq

/-- `shape` is that of a buffer of `n` bytes. -/
def Shape.Holds (n : Nat) : Shape → Prop
  | .scalar => True
  | .rows count size => n = count * size

/-- A contiguous buffer. -/
structure View (B : Type) where
  bytes : List B
  shape : Shape
  whole : shape.Holds bytes.length

/-- `view[start:]`; a `TypeError` is `none`. -/
def View.slice (v : View B) (start : Nat) : Option (List B) :=
  match v.shape with
  | .scalar => none
  | .rows count size => some (v.bytes.drop (min start count * size))

/-- `view.nbytes` -/
def View.nbytes (v : View B) : Nat :=
  v.bytes.length

/-! ## The loop -/

/-- What `sock.send` does. -/
inductive Reply where
  | accepted (n : Nat)
  /-- `BlockingIOError` or `InterruptedError` -/
  | again
  /-- another `OSError` -/
  | refused
deriving DecidableEq

/-- Where `sock_sendall` stands. -/
inductive Pc where
  /-- `sent < total` -/
  | test
  /-- in front of `arm_w_cb` -/
  | waiting
  /-- `await fut` -/
  | parked
  | sending
  /-- in front of `clear_w` -/
  | clearing
  | returned
  /-- the `TypeError` of the slice -/
  | unsliced
  /-- an error of the socket, or a `CancelledError` -/
  | failed
deriving DecidableEq

/-- `accepted` has the bytes that the sends took; nothing in the program reads it. -/
structure State (B : Type) where
  pc : Pc
  sent : Nat
  accepted : List B
deriving DecidableEq

inductive Act where
  | test
  /-- `arm_w_cb`, which tells whether the socket is ready -/
  | arm (ready : Bool)
  /-- the future of `_wait_writable` is done -/
  | wake
  | send (reply : Reply)
  | clear
  /-- the task is cancelled where it waits -/
  | cancel
deriving DecidableEq

/-- `sent += sock.send(rest)` -/
def sendStep (s : State B) (rest : List B) : Reply → Option (State B)
  | .accepted n =>
      if n ≤ rest.length ∧ (0 < n ∨ rest.length = 0) then
        some { pc := .test, sent := s.sent + n, accepted := s.accepted ++ rest.take n }
      else none
  | .again => some { s with pc := .clearing }
  | .refused => some { s with pc := .failed }

def step (v : View B) (s : State B) : Act → Option (State B)
  | .test =>
      if s.pc = .test then
        some { s with pc := if s.sent < v.nbytes then .waiting else .returned }
      else none
  | .arm ready =>
      if s.pc = .waiting then some { s with pc := if ready then .sending else .parked }
      else none
  | .wake => if s.pc = .parked then some { s with pc := .test } else none
  | .send reply =>
      if s.pc = .sending then
        match v.slice s.sent with
        | none => some { s with pc := .unsliced }
        | some rest => sendStep s rest reply
      else none
  | .clear => if s.pc = .clearing then some { s with pc := .test } else none
  | .cancel => if s.pc = .parked then some { s with pc := .failed } else none

/-- In front of the loop. -/
def State.start (B : Type) : State B where
  pc := .test
  sent := 0
  accepted := []

def machine (v : View B) : Machine (State B) Act where
  start s := s = .start B
  step := step v

end MtAsyncio.SockSendall
