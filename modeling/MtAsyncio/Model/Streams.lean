/-
Module: MtAsyncio.Model.Streams
Purpose: `StreamReader` of `_streams.py` with one reading task.  The feeding
  side holds the reader lock, so a feed is one step; `_wait_for_data`,
  `_maybe_resume_transport` and the `read` and `readexactly` that `asyncio`
  supplies are taken apart into the steps that a feed can land between.
Trusted boundary: one operation on the bytearray is one step; `read` and
  `readexactly` are those of `asyncio.streams`; the transport can pause reading
Main exports: Call, Answer, Pc, State, feedData, feedEof, setException,
  readerStep, machine
-/
import MtAsyncio.Model.Tasks

namespace MtAsyncio.Streams

open Lib (Machine)
open Tasks (FutState)

abbrev Bytes := List UInt8

/-- A call that the reading task makes. -/
inductive Call where
  | read (n : Int)
  | readexactly (n : Int)
deriving DecidableEq

/-- What a call hands to the reading task: a result, or the `partial` of an
`IncompleteReadError`. -/
inductive Answer where
  | returned (call : Call) (data : Bytes)
  | incomplete (n : Nat) (data : Bytes)
deriving DecidableEq

def Answer.data : Answer → Bytes
  | .returned _ data => data
  | .incomplete _ data => data

/-- A `read` of at most `n` bytes, or one of the `read(self._limit)` of a
`read(n)` with a negative `n`, which has collected `blocks`. -/
inductive Read where
  | upTo (n : Nat)
  | all (n : Int) (blocks : Bytes)
deriving DecidableEq

def Read.size (limit : Nat) : Read → Nat
  | .upTo n => n
  | .all _ _ => limit

/-- Who called `_wait_for_data`, or has taken `data` and calls
`_maybe_resume_transport`. -/
inductive Caller where
  | read (r : Read)
  | readexactly (n : Nat)
deriving DecidableEq

inductive WaitPc where
  /-- `if self._waiter is not None` -/
  | testWaiter
  /-- `if self._paused` -/
  | testPaused
  | unpause
  | resumeReading
  /-- the locked section that decides whether to park -/
  | decide
  | parked
  /-- the finally clause -/
  | dropWaiter
  | catchUp
deriving DecidableEq

/-- Where the reading task stands. -/
inductive Pc where
  | idle
  | enter (call : Call)
  /-- the next `read(self._limit)` of a `read` of everything -/
  | readEnter (n : Int) (blocks : Bytes)
  /-- `if not self._buffer` of `read` -/
  | readBuffer (r : Read)
  /-- `and not self._eof` -/
  | readEof (r : Read)
  | readCopy (r : Read)
  | readDelete (r : Read) (data : Bytes)
  /-- `while len(self._buffer) < n` of `readexactly` -/
  | exactTest (n : Nat)
  | exactEof (n : Nat)
  | incompleteCopy (n : Nat)
  | incompleteClear (n : Nat) (data : Bytes)
  /-- `if len(self._buffer) == n` -/
  | exactEqual (n : Nat)
  | copyAll (n : Nat)
  | clearAll (n : Nat) (data : Bytes)
  | copyPrefix (n : Nat)
  | deletePrefix (n : Nat) (data : Bytes)
  | wait (c : Caller) (pc : WaitPc)
  /-- the locked section of `_maybe_resume_transport` -/
  | maybeResume (c : Caller) (data : Bytes)
  | resume (c : Caller) (data : Bytes)
deriving DecidableEq

/-- `fut` is the state of the waiter made last and `reading` says that the
transport is not paused; `fed` and `answers` record what went in and out. -/
structure State where
  limit : Nat
  transport : Bool
  buffer : Bytes
  eof : Bool
  exception : Bool
  waiter : Bool
  fut : FutState
  paused : Bool
  feedGen : Nat
  seenGen : Nat
  reading : Bool
  pc : Pc
  fed : Bytes
  answers : List Answer

inductive Act where
  | feedData (data : Bytes)
  | feedEof
  | setException
  /-- a `Task.cancel()` cancels the waiter -/
  | cancel
  | call (c : Call)
  /-- the next step of the reading task -/
  | reader
deriving DecidableEq

/-! ## The feeding side -/

/-- `_wakeup_waiter`, and the part of `set_exception` that wakes. -/
def wakeupWaiter (s : State) (outcome : FutState) : State :=
  if s.waiter then
    { s with
      waiter := false
      fut := if s.fut = FutState.cancelled then s.fut else outcome }
  else s

/-- The generation counts a feed also when `asyncio` refuses it after the end
of the stream. -/
def feedData (s : State) (data : Bytes) : State :=
  let s := { s with feedGen := s.feedGen + 1 }
  if s.eof ∨ data = [] then s
  else
    let s := wakeupWaiter { s with buffer := s.buffer ++ data, fed := s.fed ++ data } .finished
    if s.transport ∧ s.paused = false ∧ 2 * s.limit < s.buffer.length then
      { s with paused := true, reading := false }
    else s

def feedEof (s : State) : State :=
  wakeupWaiter { s with feedGen := s.feedGen + 1, eof := true } .finished

def setException (s : State) : State :=
  wakeupWaiter { s with feedGen := s.feedGen + 1, exception := true } .failed

/-! ## The reading task -/

/-- A call raises: the bytes a `read` of everything collected go with it. -/
def raise (s : State) : State :=
  { s with pc := .idle }

def answer (s : State) (a : Answer) : State :=
  { s with pc := .idle, answers := s.answers ++ [a] }

/-- After `_maybe_resume_transport`. -/
def finish (s : State) (data : Bytes) : Caller → State
  | .read (.upTo n) => answer s (.returned (.read n) data)
  | .read (.all n blocks) =>
      if data = [] then answer s (.returned (.read n) blocks)
      else { s with pc := .readEnter n (blocks ++ data) }
  | .readexactly n => answer s (.returned (.readexactly n) data)

/-- `_wait_for_data` has returned. -/
def Caller.resumed : Caller → Pc
  | .read r => .readCopy r
  | .readexactly n => .exactTest n

/-- The locked section of `_wait_for_data`. -/
def decideWait (s : State) (c : Caller) : State :=
  let fresh := s.feedGen ≠ s.seenGen
  let seen := { s with seenGen := s.feedGen }
  if fresh ∧ (s.buffer ≠ [] ∨ s.eof ∨ s.exception) then { seen with pc := c.resumed }
  else if s.eof ∨ s.exception then { seen with pc := c.resumed }
  else { seen with waiter := true, fut := .pending, pc := .wait c .parked }

def waitStep (s : State) (c : Caller) : WaitPc → Option State
  | .testWaiter =>
      some (if s.waiter then raise s else { s with pc := .wait c .testPaused })
  | .testPaused => some { s with pc := .wait c (if s.paused then .unpause else .decide) }
  | .unpause => some { s with paused := false, pc := .wait c .resumeReading }
  | .resumeReading => some { s with reading := true, pc := .wait c .decide }
  | .decide => some (decideWait s c)
  | .parked => if s.fut = .pending then none else some { s with pc := .wait c .dropWaiter }
  | .dropWaiter => some { s with waiter := false, pc := .wait c .catchUp }
  | .catchUp =>
      let seen := { s with seenGen := s.feedGen }
      some (if s.fut = FutState.finished then { seen with pc := c.resumed } else raise seen)

/-- The tests that open `read` and `readexactly`. -/
def enter (s : State) : Call → State
  | .read n =>
      if s.exception then raise s
      else if n = 0 then answer s (.returned (.read n) [])
      else if n < 0 then { s with pc := .readEnter n [] }
      else { s with pc := .readBuffer (.upTo n.toNat) }
  | .readexactly n =>
      if n < 0 then raise s
      else if s.exception then raise s
      else if n = 0 then answer s (.returned (.readexactly n) [])
      else { s with pc := .exactTest n.toNat }

def readerStep (s : State) : Option State :=
  match s.pc with
  | .idle => none
  | .enter call => some (enter s call)
  | .readEnter n blocks =>
      some (if s.exception then raise s else { s with pc := .readBuffer (.all n blocks) })
  | .readBuffer r => some { s with pc := if s.buffer = [] then .readEof r else .readCopy r }
  | .readEof r =>
      some { s with pc := if s.eof then .readCopy r else .wait (.read r) .testWaiter }
  | .readCopy r => some { s with pc := .readDelete r (s.buffer.take (r.size s.limit)) }
  | .readDelete r data =>
      some { s with
        buffer := s.buffer.drop (r.size s.limit)
        pc := .maybeResume (.read r) data }
  | .exactTest n =>
      some { s with pc := if s.buffer.length < n then .exactEof n else .exactEqual n }
  | .exactEof n =>
      some { s with pc := if s.eof then .incompleteCopy n else .wait (.readexactly n) .testWaiter }
  | .incompleteCopy n => some { s with pc := .incompleteClear n s.buffer }
  | .incompleteClear n data => some (answer { s with buffer := [] } (.incomplete n data))
  | .exactEqual n =>
      some { s with pc := if s.buffer.length = n then .copyAll n else .copyPrefix n }
  | .copyAll n => some { s with pc := .clearAll n s.buffer }
  | .clearAll n data => some { s with buffer := [], pc := .maybeResume (.readexactly n) data }
  | .copyPrefix n => some { s with pc := .deletePrefix n (s.buffer.take n) }
  | .deletePrefix n data =>
      some { s with buffer := s.buffer.drop n, pc := .maybeResume (.readexactly n) data }
  | .wait c pc => waitStep s c pc
  | .maybeResume c data =>
      some (if s.paused ∧ s.buffer.length ≤ s.limit then
          { s with paused := false, pc := .resume c data }
        else finish s data c)
  | .resume c data => some (finish { s with reading := true } data c)

def step (s : State) : Act → Option State
  | .feedData data => some (feedData s data)
  | .feedEof => some (feedEof s)
  | .setException => some (setException s)
  | .cancel =>
      match s.pc with
      | .wait _ .parked => if s.fut = .pending then some { s with fut := .cancelled } else none
      | _ => none
  | .call c =>
      match s.pc with
      | .idle => some { s with pc := .enter c }
      | _ => none
  | .reader => readerStep s

/-- A new reader; `limit` is positive, as its constructor checks. -/
def fresh (limit : Nat) (transport : Bool) : State where
  limit := limit
  transport := transport
  buffer := []
  eof := false
  exception := false
  waiter := false
  fut := .pending
  paused := false
  feedGen := 0
  seenGen := 0
  reading := true
  pc := .idle
  fed := []
  answers := []

def machine : Machine State Act where
  start s := ∃ limit transport, 0 < limit ∧ s = fresh limit transport
  step := step

end MtAsyncio.Streams
