/-
Module: MtAsyncio.Model.SockConnect
Purpose: `sock_connect` of `asyncio/_loop.py` from its registration on: the call
  of `connect`, `_wait_writable` over `arm_w_cb`, the test of `SO_ERROR`, and the
  clear and retry, beside the poll thread and the kernel's side of the socket.
Trusted boundary: as for `MtAsyncio.Model.ScheduledIo`; the socket has no other
  user and keeps its registration, and nobody cancels the task; `SO_ERROR` reads 0
  unless the connection has failed, and reading it clears it; when a connection is
  established or fails, the poller gets an edge of the write direction; the
  awaiting task resumes when its future is done
Main exports: Socket, Reply, Pc, State, Act, own, step, machine
-/
import MtAsyncio.Model.ScheduledIo

namespace MtAsyncio.SockConnect

open Lib (Machine)
open ScheduledIo (Direction PollEvent readinessFromEvent threadStep)

/-! ## The kernel -/

def eagain : Nat := 11
def ewouldblock : Nat := 11
def einprogress : Nat := 115

/-- `err in (errno.EAGAIN, errno.EWOULDBLOCK, errno.EINPROGRESS)` -/
def wouldBlock (err : Nat) : Bool :=
  err = eagain ∨ err = ewouldblock ∨ err = einprogress

/-- An error with which a connection fails. -/
def isFailure (err : Nat) : Bool :=
  err ≠ 0 && !wouldBlock err

inductive Socket where
  | unconnected
  | connecting
  | connected
  | failed (err : Nat)
deriving DecidableEq

/-- The connection is established, or has failed. -/
def Socket.settled : Socket → Bool
  | .connected | .failed _ => true
  | .unconnected | .connecting => false

/-- What `connect` does.  The second and the third are caught. -/
inductive Reply where
  | established (edge : PollEvent)
  /-- `BlockingIOError` with `EINPROGRESS`, or `InterruptedError` -/
  | inProgress
  /-- `BlockingIOError` with `EAGAIN`: a backlog is full, and nothing has begun -/
  | tryAgain
  /-- another `OSError` -/
  | refused (err : Nat)
deriving DecidableEq

/-- An event that is ready for the write direction. -/
def wakesWriter (event : PollEvent) : Bool :=
  readinessFromEvent event &&& Direction.write.mask != 0

/-! ## `sock_connect` -/

/-- The two threads that use the `ScheduledIO`. -/
inductive Who where
  | poller
  | task
deriving DecidableEq

/-- Where `sock_connect` stands.  The futures of `_wait_writable` are numbered. -/
inductive Pc where
  /-- `_sio` -/
  | register
  | connect
  /-- `fut = self.create_future()` -/
  | create
  /-- inside of `arm_w_cb` -/
  | arming (fut : Nat)
  | awaiting (fut : Nat)
  /-- `getsockopt(SOL_SOCKET, SO_ERROR)` -/
  | readError
  /-- inside of `clear_w` -/
  | clearing
  | returned
  /-- `OSError` -/
  | raised (err : Nat)
deriving DecidableEq

/-- `edges` are the events that the poll thread has not taken up; `due` are the
futures whose callback it has taken out of the slot and is about to call. -/
structure State where
  sio : ScheduledIo.State Who Nat
  socket : Socket
  soError : Nat
  edges : List PollEvent
  due : List Nat
  done : Nat → Bool
  futures : Nat
  pc : Pc

inductive Act where
  /-- the registration is there; the poller has `stale` for a new one -/
  | register (stale : List PollEvent)
  | connect (reply : Reply)
  /-- the kernel establishes the connection -/
  | establish (edge : PollEvent)
  /-- the connection fails -/
  | fail (err : Nat) (edge : PollEvent)
  /-- the kernel has another event for the poller -/
  | edge (event : PollEvent)
  /-- the poll thread takes up an event -/
  | poll (event : PollEvent)
  /-- the poll thread wakes what the event is for -/
  | wake
  /-- the poll thread calls the next callback, `_set_result_unless_done` -/
  | call
  /-- the next step of `sock_connect` -/
  | own
deriving DecidableEq

namespace State

/-- The connection is established, or it fails. -/
def settle (s : State) (socket : Socket) (err : Nat) (edge : PollEvent) : State :=
  { s with socket := socket, soError := err, edges := edge :: s.edges }

/-- `arm_w_cb` has made a step: it returns `True` behind its store of the tick and
`False` behind that of the callback. -/
def afterArm (s : State) (fut : Nat) : Pc :=
  match s.sio.pc .task with
  | .storeTick _ _ => .readError
  | .unlock _ false => .awaiting fut
  | _ => .arming fut

end State

/-- The callback that the last wake has handed out. -/
def handedOut (sio : ScheduledIo.State Who Nat) : List Nat :=
  match sio.woken with
  | [] => []
  | set :: _ => (set.writerCb.map ScheduledIo.Stored.value).toList

def sioStep (s : State) (a : ScheduledIo.Act Who Nat) : Option (ScheduledIo.State Who Nat) :=
  ScheduledIo.step .poller s.sio a

def connectStep (s : State) : Reply → Option State
  | .established edge =>
      if wakesWriter edge then some { s.settle .connected 0 edge with pc := .create } else none
  | .inProgress => some { s with socket := .connecting, pc := .create }
  | .tryAgain => some { s with pc := .create }
  | .refused err => some { s with socket := .failed err, pc := .raised err }

/-- The next step of `sock_connect`. -/
def own (s : State) : Option State :=
  match s.pc with
  | .create =>
      (sioStep s (.arm .task .callback .write s.futures)).map fun sio =>
        { s with sio := sio, futures := s.futures + 1, pc := .arming s.futures }
  | .arming fut => (threadStep s.sio .task).map fun sio =>
      { s with sio := sio, pc := s.afterArm fut }
  | .awaiting fut => if s.done fut then some { s with pc := .create } else none
  | .readError =>
      if s.soError = 0 then some { s with pc := .returned }
      else if wouldBlock s.soError then
        (sioStep s (.clear .task .write)).map fun sio =>
          { s with sio := sio, soError := 0, pc := .clearing }
      else some { s with soError := 0, pc := .raised s.soError }
  | .clearing => (threadStep s.sio .task).map fun sio => { s with sio := sio, pc := .create }
  | .register | .connect | .returned | .raised _ => none

def step (s : State) : Act → Option State
  | .register stale =>
      if s.pc = .register then some { s with edges := stale ++ s.edges, pc := .connect } else none
  | .connect reply => if s.pc = .connect then connectStep s reply else none
  | .establish edge =>
      if s.socket = .connecting ∧ wakesWriter edge then some (s.settle .connected 0 edge)
      else none
  | .fail err edge =>
      if s.socket = .connecting ∧ isFailure err ∧ wakesWriter edge then
        some (s.settle (.failed err) err edge)
      else none
  | .edge event => some { s with edges := event :: s.edges }
  | .poll event =>
      if s.due = [] ∧ event ∈ s.edges then
        (sioStep s (.poll event)).map fun sio =>
          { s with sio := sio, edges := s.edges.erase event }
      else none
  | .wake => (threadStep s.sio .poller).map fun sio =>
      { s with sio := sio, due := s.due ++ handedOut sio }
  | .call =>
      match s.due with
      | [] => none
      | fut :: rest => some { s with due := rest, done := Function.update s.done fut true }
  | .own => own s

/-- The `ScheduledIO` that `_sio` finds or makes: nothing is stored, and an older
one may have any bits. -/
def idleSio (readiness : BitVec 64) (tick : Direction → BitVec 8) : ScheduledIo.State Who Nat :=
  { ScheduledIo.fresh with readiness := readiness, tick := tick }

/-- `sock_connect` is in front of its registration, with an unconnected socket. -/
def Start (s : State) : Prop :=
  (∃ readiness tick, s.sio = idleSio readiness tick) ∧ s.socket = .unconnected ∧ s.soError = 0 ∧
    s.due = [] ∧ (∀ fut, s.done fut = false) ∧ s.futures = 0 ∧ s.pc = .register

def machine : Machine State Act where
  start := Start
  step := step

end MtAsyncio.SockConnect
