/-
Module: MtAsyncio.Model.PausedReads
Purpose: `pause_reading` and `resume_reading` of a `SocketTransport` of
  `_transports.py`, with the reads that they compete with: dispatches of the reader's
  `_FdHandle` in `_loop.py`, from its test of `_active` to `data_received`, and reads
  that a claim has deferred or that its release has queued.
Trusted boundary: `pause_reading`, `resume_reading`, `close` and `_add_reader` of
  CPython test `_closing` and `_paused` as in its `selector_events.py`, and
  `_read_ready__data_received` tests `_conn_lost` only; the reactor may dispatch a handle
  that was made at any time; nobody else uses the reader of the fd; what follows on
  `eof_received` is a `close` or nothing; a section under `_claim_lock` is one step, and
  times are in microseconds
Main exports: Ctx, Call, Pc, State, Act, threadStep, step, machine
-/
import Mathlib.Logic.Function.Basic
import MtAsyncio.Model.Transports

namespace MtAsyncio.PausedReads

open Lib (Machine)
open Transports (Received maxReadDefer)

/-- Where a thread is between two calls.  The connection lock is an `RLock`: what is
called from under it does not take it again. -/
inductive Ctx where
  | outside
  /-- inside of `data_received` or `eof_received` -/
  | callback
  /-- inside of a locked entry point that calls the protocol, such as `write` -/
  | entry
  /-- inside of `connection_made` -/
  | startup
deriving DecidableEq

inductive Call where
  | pause
  | resume
  | close
  /-- `_startup` -/
  | startup
deriving DecidableEq

/-- Where a thread stands. -/
inductive Pc where
  | at_ (c : Ctx)
  /-- `_dispatch`, in front of `if not self._active` -/
  | dispatch (h : Nat)
  /-- `_run`, in front of `cb, args = self._cb, self._args` -/
  | run (h : Nat)
  /-- in front of `if self._cancelled or cb is None`, and whether there was a callback -/
  | snapshot (h : Nat) (cb : Bool)
  /-- `_read_ready`, in front of the test of `_claims` -/
  | testing
  /-- past the test, before it takes the connection lock -/
  | locking
  /-- inside of the lock, in front of `if self._conn_lost` -/
  | reading
  /-- in front of `with self._lock` -/
  | lock (k : Call) (c : Ctx)
  /-- inside of the lock, in front of the test of `_closing` and `_paused` -/
  | body (k : Call) (c : Ctx)
  /-- `_remove_reader` -/
  | remove (k : Call) (c : Ctx)
  /-- `_add_reader` -/
  | add (k : Call) (c : Ctx)
  /-- `cancel` of a handle, in front of `self._active = False` -/
  | deactivate (k : Call) (c : Ctx) (h : Nat)
  /-- in front of `self._cancelled = True` -/
  | cancel (k : Call) (c : Ctx) (h : Nat)
  /-- in front of `self._cb = None` -/
  | forget (k : Call) (c : Ctx) (h : Nat)
  /-- about to give the lock back and to return -/
  | leave (k : Call) (c : Ctx)
  /-- `_mt_release_claim` has found a deferred read -/
  | requeue
deriving DecidableEq

/-- The handles of the reader are numbered in the order in which they are made, and
`reader` is the one of the registration.  Claims are held by tasks of `K`; `queued`
counts the `_read_ready` that `call_soon` has queued.  Nothing in the program reads
`quiet` (a `pause_reading` has returned, and no `resume_reading` has been called since)
and `late` (data has been delivered in such a time). -/
structure State (T K : Type) where
  lock : Option T
  paused : Bool
  closing : Bool
  connLost : Bool
  started : Bool
  reader : Option Nat
  made : Nat
  active : Nat → Bool
  cancelled : Nat → Bool
  cb : Nat → Bool
  claims : List K
  readDeferred : Bool
  readDeferSince : Option Nat
  now : Nat
  queued : Nat
  quiet : Bool
  late : Bool
  pc : T → Pc

inductive Act (T K : Type) where
  /-- the loop runs `_startup` -/
  | start (t : T)
  /-- `pause_reading`, `resume_reading` or `close` -/
  | call (t : T) (k : Call)
  /-- another locked entry point -/
  | enter (t : T)
  /-- a callback of the protocol returns -/
  | exit (t : T)
  /-- a worker runs a dispatch of a handle -/
  | dispatch (t : T) (h : Nat)
  /-- a worker runs a queued `_read_ready` -/
  | runQueued (t : T)
  /-- the test of `_claims`, at a time of the monotonic clock -/
  | test (t : T) (now : Nat)
  | receive (t : T) (got : Received)
  | claim (k : K)
  /-- `_mt_release_claim` -/
  | release (t : T) (k : K)
  /-- `_conn_lost` is counted up -/
  | lose
  /-- the next step of a thread that is inside of a call -/
  | thread (t : T)
deriving DecidableEq

variable {T K : Type} [DecidableEq T] [DecidableEq K]

namespace State

def goto (s : State T K) (t : T) (pc : Pc) : State T K :=
  { s with pc := Function.update s.pc t pc }

def acquire (s : State T K) (t : T) (pc : Pc) : Option (State T K) :=
  if s.lock.isSome then none else some ({ s with lock := some t }.goto t pc)

def release (s : State T K) (t : T) : State T K :=
  { s with lock := none }.goto t (.at_ .outside)

end State

/-- What a call does first under the lock. -/
def Call.entered (k : Call) (c : Ctx) : Pc :=
  match k with
  | .startup => .at_ .startup
  | .pause | .resume | .close => .body k c

/-- The test of `_closing` and `_paused`, and what is set after it. -/
def body (s : State T K) (t : T) (k : Call) (c : Ctx) : State T K :=
  match k with
  | .pause =>
      if s.closing || s.paused then s.goto t (.leave k c)
      else { s with paused := true }.goto t (.remove k c)
  | .resume =>
      if s.closing || !s.paused then s.goto t (.leave k c)
      else { s with paused := false }.goto t (.add k c)
  | .close =>
      if s.closing then s.goto t (.leave k c) else { s with closing := true }.goto t (.remove k c)
  | .startup => s.goto t (if s.closing || s.paused then .leave k c else .add k c)

/-- `_remove_fd_callback` -/
def removeReader (s : State T K) (t : T) (k : Call) (c : Ctx) : State T K :=
  match s.reader with
  | none => s.goto t (.leave k c)
  | some h => { s with reader := none }.goto t (.deactivate k c h)

/-- `_add_fd_callback` -/
def addReader (s : State T K) (t : T) (k : Call) (c : Ctx) : State T K :=
  { s with
    reader := some s.made
    made := s.made + 1
    active := Function.update s.active s.made true
    cancelled := Function.update s.cancelled s.made false
    cb := Function.update s.cb s.made true }.goto t
      (match s.reader with
      | none => .leave k c
      | some h => .deactivate k c h)

def leave (s : State T K) (t : T) (k : Call) (c : Ctx) : State T K :=
  match c with
  | .outside => { s with quiet := s.quiet || k = Call.pause }.release t
  | .callback | .entry | .startup => { s with quiet := s.quiet || k = Call.pause }.goto t (.at_ c)

def threadStep (s : State T K) (t : T) : Option (State T K) :=
  match s.pc t with
  | .at_ _ | .testing | .reading => none
  | .dispatch h => some (s.goto t (if s.active h then .run h else .at_ .outside))
  | .run h => some (s.goto t (.snapshot h (s.cb h)))
  | .snapshot h cb =>
      some (s.goto t (if s.cancelled h || !cb then .at_ .outside else .testing))
  | .locking => s.acquire t .reading
  | .lock k .outside => s.acquire t (k.entered .outside)
  | .lock k c => some (s.goto t (k.entered c))
  | .body k c => some (body s t k c)
  | .remove k c => some (removeReader s t k c)
  | .add k c => some (addReader s t k c)
  | .deactivate k c h =>
      some ({ s with active := Function.update s.active h false }.goto t (.cancel k c h))
  | .cancel k c h =>
      some ({ s with cancelled := Function.update s.cancelled h true }.goto t (.forget k c h))
  | .forget k c h => some ({ s with cb := Function.update s.cb h false }.goto t (.leave k c))
  | .leave k c => some (leave s t k c)
  | .requeue =>
      some ({ s with queued := if s.closing then s.queued else s.queued + 1 }.goto t
        (.at_ .outside))

/-- The test of `_read_ready`: with a claim in place it stands aside, unless it has been
deferred for too long. -/
def readReady (s : State T K) (t : T) (now : Nat) : State T K :=
  let since := s.readDeferSince.getD now
  if s.claims ≠ [] ∧ now - since < maxReadDefer then
    { s with now := now, readDeferSince := some since, readDeferred := true }.goto t (.at_ .outside)
  else
    { s with now := now, readDeferSince := none, readDeferred := false }.goto t .locking

/-- `_read_ready__data_received` -/
def receive (s : State T K) (t : T) (got : Received) : State T K :=
  match s.connLost, got with
  | false, .data => { s with late := s.late || s.quiet }.goto t (.at_ .callback)
  | false, .eof => s.goto t (.at_ .callback)
  | _, _ => s.release t

/-- The locked section of `_mt_release_claim`. -/
def mtReleaseClaim (s : State T K) (t : T) (k : K) : State T K :=
  let claims := s.claims.filter (· ≠ k)
  if claims = [] ∧ s.readDeferred then
    { s with claims := claims, readDeferred := false }.goto t .requeue
  else { s with claims := claims }

def step (s : State T K) : Act T K → Option (State T K)
  | .start t =>
      if s.started = false ∧ s.pc t = .at_ .outside then
        some ({ s with started := true }.goto t (.lock .startup .outside))
      else none
  | .call t k =>
      match k, s.pc t with
      | .resume, .at_ c => some ({ s with quiet := false }.goto t (.lock .resume c))
      | .pause, .at_ c => some (s.goto t (.lock .pause c))
      | .close, .at_ c => some (s.goto t (.lock .close c))
      | _, _ => none
  | .enter t => if s.pc t = .at_ .outside then s.acquire t (.at_ .entry) else none
  | .exit t =>
      match s.pc t with
      | .at_ .callback | .at_ .entry => some (s.release t)
      | .at_ .startup => some (s.goto t (.body .startup .outside))
      | _ => none
  | .dispatch t h =>
      if s.pc t = .at_ .outside ∧ h < s.made then some (s.goto t (.dispatch h)) else none
  | .runQueued t =>
      if s.pc t = .at_ .outside ∧ 0 < s.queued then
        some ({ s with queued := s.queued - 1 }.goto t .testing)
      else none
  | .test t now => if s.pc t = .testing ∧ s.now ≤ now then some (readReady s t now) else none
  | .receive t got => if s.pc t = .reading then some (receive s t got) else none
  | .claim k => some { s with claims := if k ∈ s.claims then s.claims else k :: s.claims }
  | .release t k => if s.pc t = .at_ .outside then some (mtReleaseClaim s t k) else none
  | .lose => some { s with connLost := true }
  | .thread t => threadStep s t

/-- The transport has been made. -/
def fresh (T K : Type) : State T K where
  lock := none
  paused := false
  closing := false
  connLost := false
  started := false
  reader := none
  made := 0
  active := fun _ => false
  cancelled := fun _ => false
  cb := fun _ => false
  claims := []
  readDeferred := false
  readDeferSince := none
  now := 0
  queued := 0
  quiet := false
  late := false
  pc := fun _ => .at_ .outside

def machine (T K : Type) [DecidableEq T] [DecidableEq K] : Machine (State T K) (Act T K) where
  start s := s = fresh T K
  step := step

end MtAsyncio.PausedReads
