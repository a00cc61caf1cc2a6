/-
Module: MtAsyncio.Model.SockRecv
Purpose: `sock_recv`, `sock_recv_into` and `sock_accept` of `asyncio/_loop.py`, one call
  after the other on one socket: `_wait_readable` over `arm_r_cb`, the system call, and the
  clear and retry, beside the poll thread, the kernel's side of the socket and any use of
  the same `ScheduledIO` for writing, from any number of threads.
Trusted boundary: as for `MtAsyncio.Model.ScheduledIo`; the socket has one reader at a time
  and keeps its registration; when a system call would no longer block, the poller has an
  edge with the readable or the read-closed flag in front of it, one that it gets or one
  that it has not taken up yet; the awaiting task resumes when its future is done
Main exports: Kernel, Who, Pc, State, Act, own, writes, step, machine, sockRecv,
  sockRecvInto, sockAccept
-/
import MtAsyncio.Model.ScheduledIo

namespace MtAsyncio.SockRecv

open Lib (Machine)
open ScheduledIo (Direction PollEvent Kind readinessFromEvent threadStep)

/-! ## The kernel -/

/-- What there is to take: bytes, or connections for a socket that listens.  `ended` is the
end of the stream, or an error that the next call reports. -/
structure Kernel (X : Type) where
  queue : List X
  ended : Bool
deriving DecidableEq

variable {X : Type}

/-- The system call would not raise `BlockingIOError`. -/
def Kernel.ready (k : Kernel X) : Bool :=
  !k.queue.isEmpty || k.ended

/-- An event that is for the reader; an error comes with the readable flag. -/
def wakesReader (event : PollEvent) : Bool :=
  event.readable || event.readClosed

/-! ## The calls -/

/-- Who uses the `ScheduledIO`: the poll thread, the reader, and the threads that write. -/
inductive Who where
  | poller
  | task
  | writer (i : Nat)
deriving DecidableEq

/-- Where a call stands that takes `n` at most.  The futures of `_wait_readable` are
numbered. -/
inductive Pc where
  | idle
  /-- `fut = self.create_future()` -/
  | create (n : Nat)
  /-- inside of `arm_r_cb` -/
  | arming (n fut : Nat)
  | awaiting (n fut : Nat)
  /-- the system call -/
  | receive (n : Nat)
  /-- inside of `clear_r` -/
  | clearing (n : Nat)
deriving DecidableEq

/-- `sock_recv` -/
def sockRecv (n : Nat) : Pc := .create n

/-- `sock_recv_into` takes what its buffer has room for. -/
def sockRecvInto (buf : List UInt8) : Pc := .create buf.length

/-- `sock_accept` takes one connection. -/
def sockAccept : Pc := .create 1

/-- `edges` are the events that the poll thread has not taken up; `due` are the futures
whose callback it has taken out of the slot and is about to call. -/
structure State (X : Type) where
  sio : ScheduledIo.State Who Nat
  kernel : Kernel X
  edges : List PollEvent
  due : List Nat
  done : Nat → Bool
  futures : Nat
  pc : Pc
  -- histories: the updates of the word since the reader last looked at its tick, what the
  -- calls have returned, and what has arrived
  since : Nat
  returned : List X
  arrived : List X

inductive Act (X : Type) where
  /-- a call begins -/
  | begin (n : Nat)
  /-- the next step of the call -/
  | own
  /-- the system call raises `InterruptedError` -/
  | interrupt
  /-- the task is cancelled in `await fut` -/
  | cancel
  /-- something arrives, or the stream ends -/
  | arrive (xs : List X) (ended : Bool) (edges : List PollEvent)
  /-- the poll thread takes up an event -/
  | poll (event : PollEvent)
  /-- the poll thread wakes what the event is for -/
  | wake
  /-- the poll thread calls the next callback, `_set_result_unless_done` -/
  | call
  /-- a writer makes a step of its own -/
  | writes (a : ScheduledIo.Act Who Nat)

namespace State

/-- `arm_r_cb` has made a step: it returns `True` behind its store of the tick and `False`
behind that of the callback. -/
def afterArm (s : State X) (n fut : Nat) : Pc :=
  match s.sio.pc .task with
  | .storeTick _ _ => .receive n
  | .unlock _ false => .awaiting n fut
  | _ => .arming n fut

/-- What the step of `arm_r_cb` makes of the count. -/
def sinceArm (s : State X) : Nat :=
  match s.sio.pc .task with
  | .currentTick _ => 0
  | _ => s.since

end State

/-- The callback that the last wake has handed out for the reader. -/
def handedOut (sio : ScheduledIo.State Who Nat) : List Nat :=
  match sio.woken with
  | [] => []
  | set :: _ => (set.readerCb.map ScheduledIo.Stored.value).toList

def sioStep (s : State X) (a : ScheduledIo.Act Who Nat) : Option (ScheduledIo.State Who Nat) :=
  ScheduledIo.step .poller s.sio a

/-- The next step of `sock_recv`, `sock_recv_into` or `sock_accept`. -/
def own (s : State X) : Option (State X) :=
  match s.pc with
  | .idle => none
  | .create n =>
      (sioStep s (.arm .task .callback .read s.futures)).map fun sio =>
        { s with sio := sio, futures := s.futures + 1, pc := .arming n s.futures }
  | .arming n fut => (threadStep s.sio .task).map fun sio =>
      { s with sio := sio, pc := s.afterArm n fut, since := s.sinceArm }
  -- `_wait_readable` returns `False`, and the loop goes round
  | .awaiting n fut => if s.done fut then some { s with pc := .create n } else none
  | .receive n =>
      if s.kernel.ready then
        some { s with
          kernel := { s.kernel with queue := s.kernel.queue.drop n }
          returned := s.returned ++ s.kernel.queue.take n
          pc := .idle }
      else (sioStep s (.clear .task .read)).map fun sio => { s with sio := sio, pc := .clearing n }
  | .clearing n => (threadStep s.sio .task).map fun sio => { s with sio := sio, pc := .create n }

/-- What a writer may do: `arm_w`, `arm_w_cb`, `clear_w`, `consume_w`, step by step. -/
def mayWrite : ScheduledIo.Act Who Nat → Bool
  | .arm (.writer _) _ .write _ | .clear (.writer _) .write | .consume (.writer _) .write
  | .outOfMemory (.writer _) | .thread (.writer _) => true
  | _ => false

def writes (s : State X) (a : ScheduledIo.Act Who Nat) : Option (State X) :=
  if mayWrite a then (sioStep s a).map fun sio => { s with sio := sio } else none

def step (s : State X) : Act X → Option (State X)
  | .begin n => if s.pc = .idle then some { s with pc := .create n } else none
  | .own => own s
  | .interrupt =>
      match s.pc with
      | .receive n =>
          (sioStep s (.clear .task .read)).map fun sio => { s with sio := sio, pc := .clearing n }
      | _ => none
  | .cancel =>
      match s.pc with
      | .awaiting _ fut => some { s with done := Function.update s.done fut true, pc := .idle }
      | _ => none
  | .arrive xs ended edges =>
      let kernel : Kernel X := { queue := s.kernel.queue ++ xs, ended := s.kernel.ended || ended }
      -- what rises comes with an edge, or is told by the one that is in front of the poller
      if s.kernel.ready || !kernel.ready || (s.edges ++ edges).any wakesReader then
        some { s with kernel := kernel, edges := s.edges ++ edges, arrived := s.arrived ++ xs }
      else none
  | .poll event =>
      if s.due = [] ∧ event ∈ s.edges then
        (sioStep s (.poll event)).map fun sio =>
          { s with sio := sio, edges := s.edges.erase event, since := s.since + 1 }
      else none
  | .wake => (threadStep s.sio .poller).map fun sio =>
      { s with sio := sio, due := s.due ++ handedOut sio }
  | .call =>
      match s.due with
      | [] => none
      | fut :: rest => some { s with due := rest, done := Function.update s.done fut true }
  | .writes a => writes s a

/-- A new registration, of which the poller tells what there is already. -/
def Start (s : State X) : Prop :=
  s.sio = ScheduledIo.fresh ∧ (s.kernel.ready = true → ∃ edge ∈ s.edges, wakesReader edge = true) ∧
    s.due = [] ∧ s.futures = 0 ∧ s.pc = .idle ∧ s.since = 0 ∧ s.returned = [] ∧
    s.arrived = s.kernel.queue

def machine (X : Type) : Machine (State X) (Act X) where
  start := Start
  step := step

end MtAsyncio.SockRecv
