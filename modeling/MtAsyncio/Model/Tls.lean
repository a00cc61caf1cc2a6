/-
Module: MtAsyncio.Model.Tls
Purpose: A connection that `start_tls` of `_tls.py` upgrades: the swap of the
  protocol, the queued `_begin`, and every call into the `SSLProtocol`, from the
  raw transport, from the application, from timers and from queued handles, with
  the connection's `RLock` where the code takes it.
Trusted boundary: `threading.RLock` excludes; the branches of CPython's
  `sslproto` and of its selector transport are left to the labels, from the
  calls these classes make; reading an attribute of the protocol
  (`get_extra_info`, `is_closing`, ...) is no entry; `call_soon` and the timers
  run each queued handle once, in any order; the upgraded transport is a
  `SocketTransport`
Main exports: Entry, Handle, Op, Stmt, Call, Frame, State, Act, perform, step,
  machine
-/
import Mathlib.Logic.Function.Basic
import MtAsyncio.Lib.Machine
import MtAsyncio.Lib.RLock

namespace MtAsyncio.Tls

open Lib (Machine RLock)

/-- The methods of the `SSLProtocol` that run its state machine. -/
inductive Entry where
  | connectionMade
  | getBuffer
  | bufferUpdated
  | eofReceived
  | connectionLost
  | pauseWriting
  | resumeWriting
  | doRead
  | resumeReadingLocked
  | checkHandshakeTimeout
  | checkShutdownTimeout
  | onHandshakeComplete
  | onShutdownComplete
  /-- what a method of `SSLProtocolTransport` calls -/
  | appTransport
  | getAppTransport
deriving DecidableEq

/-- Data or the end of the stream reaches the protocol. -/
def Entry.delivers : Entry → Bool
  | .bufferUpdated | .eofReceived => true
  | _ => false

/-- Work given to `call_soon` or `call_later`. -/
inductive Handle where
  | begin
  | readReady
  | callConnectionLost
  | doRead
  | resumeReadingLocked
  | checkHandshakeTimeout
  | checkShutdownTimeout
  | close
deriving DecidableEq

/-- The operations that the bodies of the modelled methods are made of. -/
inductive Op where
  | setProtocol
  | pauseReading
  | resumeReading
  | write
  | close
  | forceClose
  /-- the claim test of `_read_ready` -/
  | claimTest
  | readReadyCb
  | receive
  | afterEof
  /-- `_write_impl` -/
  | writeImpl
  /-- `_maybe_resume_protocol`, then the end of a closing transport -/
  | written
  | callConnectionLost
  /-- the transport lets go of its protocol -/
  | detach
  /-- a method of the `SSLProtocol` itself -/
  | ssl (e : Entry)
  /-- a method of the protocol that the transport has -/
  | protocol (e : Entry)
  | callSoon (h : Handle)
  | cancelBegin
  /-- `await waiter` -/
  | await
  /-- `_wakeup_waiter` -/
  | settle (ok : Bool)
deriving DecidableEq

/-- A statement: `with self._lock:` around an operation, or the operation as it
stands. -/
inductive Stmt where
  | locked (o : Op)
  | bare (o : Op)
deriving DecidableEq

/-- The calls that the application and the `SSLProtocol` make. -/
inductive Call where
  | write
  | close
  | abort
  | pauseReading
  | resumeReading
  /-- a method of `SSLProtocolTransport` -/
  | appTransport
  | doRead
  | onHandshakeComplete
  | onShutdownComplete
  | callSoon (h : Handle)
  | settle (ok : Bool)
deriving DecidableEq

def Call.body : Call → List Stmt
  | .write => [.locked .write]
  | .close => [.locked .close]
  | .abort => [.locked .forceClose]
  | .pauseReading => [.locked .pauseReading]
  | .resumeReading => [.locked .resumeReading]
  | .appTransport => [.locked (.ssl .appTransport)]
  | .doRead => [.locked (.ssl .doRead)]
  | .onHandshakeComplete => [.locked (.ssl .onHandshakeComplete)]
  | .onShutdownComplete => [.locked (.ssl .onShutdownComplete)]
  | .callSoon h => [.bare (.callSoon h)]
  | .settle ok => [.bare (.settle ok)]

/-- What the application calls on the raw transport. -/
def Call.raw : Call → Bool
  | .write | .close | .abort | .pauseReading | .resumeReading => true
  | _ => false

/-- What the state machine gives to `call_soon` and `call_later`. -/
def Handle.fromProtocol : Handle → Bool
  | .doRead | .resumeReadingLocked | .checkHandshakeTimeout | .checkShutdownTimeout | .close =>
      true
  | _ => false

/-- What the state machine calls from the inside. -/
def Call.fromProtocol : Call → Bool
  | .callSoon h => h.fromProtocol
  | _ => true

def readReady : List Stmt := [.bare .claimTest, .locked .readReadyCb]

/-- `_begin` calls `connection_made` without the lock. -/
def begin : List Stmt := [.bare (.ssl .connectionMade), .locked .resumeReading]

def Handle.body : Handle → List Stmt
  | .begin => Tls.begin
  | .readReady => Tls.readReady
  | .callConnectionLost => [.locked .callConnectionLost]
  | .doRead => [.locked (.ssl .doRead)]
  | .resumeReadingLocked => [.locked (.ssl .resumeReadingLocked)]
  | .checkHandshakeTimeout => [.locked (.ssl .checkHandshakeTimeout)]
  | .checkShutdownTimeout => [.locked (.ssl .checkShutdownTimeout)]
  | .close => [.locked .close]

/-- `start_tls` up to its suspension. -/
def startTls : List Stmt := [.locked .setProtocol, .bare (.callSoon .begin), .bare .await]

/-- `start_tls` after its suspension. -/
def afterWaiter : Bool → List Stmt
  | true => [.bare (.ssl .getAppTransport)]
  | false => [.locked .close, .bare .cancelBegin]

/-- What a thread is inside of. -/
inductive Bracket where
  | call
  | lock
  | entry (e : Entry)
deriving DecidableEq

structure Frame where
  bracket : Bracket
  rest : List Stmt
deriving DecidableEq

/-- `_protocol` of the raw transport. -/
inductive Attached where
  | app
  | ssl
  | none
deriving DecidableEq

/-- Where `start_tls` stands. -/
inductive Upgrade where
  | notCalled
  | running
  | waiting
  | resumed (ok : Bool)
deriving DecidableEq

/-- `reader` says that `_read_ready` is registered, `buffered` that the write
buffer is not empty and the writer registered, `connLost` that `_conn_lost` is
not 0.  `waiter` is the outcome of the waiter.  `log` is the history of the
entries, oldest first; nothing in the program reads it. -/
structure State (T : Type) where
  attached : Attached
  paused : Bool
  closing : Bool
  connLost : Bool
  reader : Bool
  buffered : Bool
  readDeferred : Bool
  queued : List Handle
  upgrade : Upgrade
  waiter : Option Bool
  lock : RLock T
  stack : T → List Frame
  log : List Entry

/-- What the socket gives to a read. -/
inductive Received where
  | nothing
  | data
  | eof
  | failed
deriving DecidableEq

/-- What becomes of a write. -/
inductive Sent where
  | all
  | part
  /-- the rest takes the buffer over its high-water mark -/
  | paused
  | failed
deriving DecidableEq

/-- The branches that CPython's code, the socket and the claims decide. -/
structure Choice where
  received : Received
  sent : Sent
  /-- a read meets a claim -/
  aside : Bool
  /-- `eof_received` asks to keep the transport open -/
  keepOpen : Bool
  /-- the write buffer drops below its low-water mark -/
  resumes : Bool
deriving DecidableEq

inductive Act (T : Type) where
  /-- a thread goes on in what it is inside of -/
  | go (t : T) (choice : Choice)
  /-- the state machine makes a call -/
  | inner (t : T) (c : Call)
  | startTls (t : T)
  /-- the task in `start_tls` is resumed, by its waiter or by a cancellation -/
  | resume (t : T) (cancelled : Bool)
  /-- the application calls a method of the raw transport, or of the transport
  that `start_tls` has returned -/
  | app (t : T) (c : Call)
  /-- a worker takes a handle from a queue -/
  | run (t : T) (h : Handle)
  /-- the reactor calls `_read_ready` -/
  | readable (t : T)
  /-- the reactor calls `_locked_write_ready` -/
  | writable (t : T)
  /-- the last claim is handed back -/
  | releaseClaim
deriving DecidableEq

variable {T : Type} [DecidableEq T]

namespace State

def setStack (s : State T) (t : T) (stack : List Frame) : State T :=
  { s with stack := Function.update s.stack t stack }

def callSoon (s : State T) (h : Handle) : State T :=
  { s with queued := s.queued ++ [h] }

/-- `_force_close` -/
def forceClose (s : State T) : State T :=
  if s.connLost then s
  else { s with buffered := false, closing := true, reader := false, connLost := true }.callSoon
    .callConnectionLost

/-- `close` -/
def close (s : State T) : State T :=
  if s.closing then s
  else if s.buffered then { s with closing := true, reader := false }
  else { s with closing := true, reader := false, connLost := true }.callSoon .callConnectionLost

/-- The entries that a thread is inside of, the latest first. -/
def inside (s : State T) (t : T) : List Entry :=
  (s.stack t).filterMap fun f =>
    match f.bracket with
    | .entry e => some e
    | _ => none

end State

/-- The statements that an operation leads to, and its effect on the
connection. -/
def perform (s : State T) (choice : Choice) : Op → State T × List Stmt
  | .setProtocol => ({ s with attached := .ssl }, [])
  | .pauseReading =>
      (if s.closing ∨ s.paused then s else { s with paused := true, reader := false }, [])
  | .resumeReading =>
      (if s.closing ∨ s.paused = false then s else { s with paused := false, reader := true }, [])
  | .write =>
      if s.connLost then (s, [])
      else match choice.sent with
        | .all => (s, [])
        | .part => ({ s with buffered := true }, [])
        | .paused => ({ s with buffered := true }, [.bare (.protocol .pauseWriting)])
        | .failed => (s, if s.buffered then [] else [.locked .forceClose])
  | .close => (s.close, [])
  | .forceClose => (s.forceClose, [])
  | .claimTest => ({ s with readDeferred := choice.aside }, [])
  | .readReadyCb =>
      if s.connLost then (s, [])
      else match s.attached with
        | .ssl => (s, [.bare (.protocol .getBuffer), .bare .receive])
        | .app | .none => (s, [])
  | .receive =>
      match choice.received with
      | .nothing => (s, [])
      | .data => (s, [.bare (.protocol .bufferUpdated)])
      | .eof => (s, [.bare (.protocol .eofReceived), .bare .afterEof])
      | .failed => (s, [.locked .forceClose])
  | .afterEof =>
      if choice.keepOpen then ({ s with reader := false }, []) else (s, [.locked .close])
  | .writeImpl =>
      if s.connLost ∨ s.buffered = false then (s, [])
      else match choice.sent with
        | .all => ({ s with buffered := false },
            (if choice.resumes then [.bare (.protocol .resumeWriting)] else []) ++
              [.bare .written])
        | .part | .paused =>
            (s, if choice.resumes then [.bare (.protocol .resumeWriting)] else [])
        | .failed => (s, [.locked .forceClose])
  | .written =>
      (s, if s.closing ∧ s.buffered = false then [.locked .callConnectionLost] else [])
  | .callConnectionLost =>
      ({ s with reader := false, connLost := true }, [.bare (.protocol .connectionLost),
        .bare .detach])
  | .detach => ({ s with attached := .none }, [])
  | .callSoon h => (s.callSoon h, [])
  | .cancelBegin => ({ s with queued := s.queued.filter (· ≠ .begin) }, [])
  | .await => ({ s with upgrade := .waiting }, [])
  | .settle ok => ({ s with waiter := s.waiter.or (some ok) }, [])
  | .ssl _ | .protocol _ => (s, [])

/-- The entry that an operation makes. -/
def State.enters (s : State T) : Op → Option Entry
  | .ssl e => some e
  | .protocol e => if s.attached = .ssl then some e else none
  | _ => none

/-- A read that meets a claim does not go on. -/
def rest (choice : Choice) (after : List Stmt) : Op → List Stmt
  | .claimTest => if choice.aside then [] else after
  | _ => after

/-- A thread goes on in the innermost thing it is inside of. -/
def go (s : State T) (t : T) (choice : Choice) : Option (State T) :=
  match s.stack t with
  | [] => none
  | ⟨.lock, []⟩ :: below =>
      (s.lock.release t).map fun lock => { s with lock := lock }.setStack t below
  | ⟨.call, []⟩ :: below => some (s.setStack t below)
  | ⟨.entry _, []⟩ :: below => some (s.setStack t below)
  | ⟨bracket, .locked o :: after⟩ :: below =>
      (s.lock.acquire t).map fun lock =>
        { s with lock := lock }.setStack t (⟨.lock, [.bare o]⟩ :: ⟨bracket, after⟩ :: below)
  | ⟨bracket, .bare o :: after⟩ :: below =>
      match s.enters o with
      | some e =>
          some ({ s with log := s.log ++ [e] }.setStack t
            (⟨.entry e, []⟩ :: ⟨bracket, after⟩ :: below))
      | none =>
          let (s', stmts) := perform s choice o
          some (s'.setStack t (⟨bracket, stmts ++ rest choice after o⟩ :: below))

/-- An idle thread starts on a body. -/
def begins (s : State T) (t : T) (body : List Stmt) : Option (State T) :=
  if s.stack t = [] then some (s.setStack t [⟨.call, body⟩]) else none

def step (s : State T) : Act T → Option (State T)
  | .go t choice => go s t choice
  | .inner t c =>
      match s.stack t with
      | ⟨.entry e, []⟩ :: below =>
          if c.fromProtocol then some (s.setStack t (⟨.entry e, c.body⟩ :: below)) else none
      | _ => none
  | .startTls t =>
      if s.upgrade = .notCalled then begins { s with upgrade := .running } t Tls.startTls else none
  | .resume t cancelled =>
      if s.upgrade = .waiting then
        if cancelled then begins { s with upgrade := .resumed false } t (afterWaiter false)
        else match s.waiter with
          | some ok => begins { s with upgrade := .resumed ok } t (afterWaiter ok)
          | none => none
      else none
  | .app t c =>
      if c.raw ∨ (c = .appTransport ∧ s.upgrade = .resumed true) then begins s t c.body else none
  | .run t h =>
      if h ∈ s.queued then begins { s with queued := s.queued.erase h } t h.body else none
  | .readable t => if s.reader then begins s t readReady else none
  | .writable t => if s.buffered then begins s t [.locked .writeImpl] else none
  | .releaseClaim =>
      if s.readDeferred then
        some (if s.closing then { s with readDeferred := false }
          else { s with readDeferred := false }.callSoon .readReady)
      else none

/-- An open connection with a protocol of the application, reading or paused. -/
def fresh (paused : Bool) : State T where
  attached := .app
  paused := paused
  closing := false
  connLost := false
  reader := !paused
  buffered := false
  readDeferred := false
  queued := []
  upgrade := .notCalled
  waiter := none
  lock := .free
  stack := fun _ => []
  log := []

def machine (T : Type) [DecidableEq T] : Machine (State T) (Act T) where
  start s := ∃ paused, s = fresh paused
  step := step

end MtAsyncio.Tls
