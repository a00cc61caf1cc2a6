/-
Module: MtAsyncio.Model.Handoff
Purpose: The hand-off between the feeds of a `StreamReader` and any reading task
  that waits with `_wait_for_data`: the task evaluates a condition of its own,
  waits, takes bytes and lets the transport go on in whatever order it likes.
Trusted boundary: as in `MtAsyncio.Model.Streams`
Main exports: ReaderPc, State, Act, waitStep, step, machine
-/
import MtAsyncio.Model.Streams

namespace MtAsyncio.Handoff

open Lib (Machine)
open Streams (Bytes WaitPc)

/-- Where the reading task stands; `evaluated` is after it has tested its
condition and before it has acted on that. -/
inductive ReaderPc where
  | running
  | evaluated
  | wait (pc : WaitPc)
  /-- in `_maybe_resume_transport`, before `resume_reading` -/
  | resume
deriving DecidableEq

structure State where
  stream : Streams.State
  reader : ReaderPc
  -- history: data, the end or an exception has come since the last evaluation
  news : Bool

inductive Act where
  | feedData (data : Bytes)
  | feedEof
  | setException
  /-- a `Task.cancel()` cancels the waiter -/
  | cancel
  /-- the await raises `CancelledError` before it has parked -/
  | interrupt
  /-- the reading task evaluates its condition -/
  | evaluate
  /-- it deletes bytes from the front of the buffer -/
  | consume (n : Nat)
  | maybeResume
  | resumeReading
  /-- it calls `_wait_for_data` -/
  | wait
  /-- the next step of that call -/
  | reader
deriving DecidableEq

/-- `_wait_for_data` does not depend on its caller. -/
def caller : Streams.Caller := .readexactly 0

/-- The next step of `_wait_for_data`; it ends when the call returns or raises. -/
def waitStep (s : State) (pc : WaitPc) : Option State :=
  (Streams.waitStep s.stream caller pc).map fun t =>
    { s with
      stream := t
      reader := match t.pc with
        | .wait _ pc' => .wait pc'
        | _ => .running }

/-- The locked section of `_maybe_resume_transport`. -/
def maybeResume (s : State) : State :=
  if s.stream.paused ∧ s.stream.buffer.length ≤ s.stream.limit then
    { s with stream := { s.stream with paused := false }, reader := .resume }
  else { s with reader := .running }

/-- The task runs code of its own. -/
def ReaderPc.own : ReaderPc → Bool
  | .running | .evaluated => true
  | _ => false

def step (s : State) : Act → Option State
  | .feedData data =>
      some { s with stream := Streams.feedData s.stream data, news := s.news || data ≠ [] }
  | .feedEof => some { s with stream := Streams.feedEof s.stream, news := true }
  | .setException => some { s with stream := Streams.setException s.stream, news := true }
  | .cancel =>
      if s.reader = .wait .parked ∧ s.stream.fut = .pending then
        some { s with stream := { s.stream with fut := .cancelled } }
      else none
  | .interrupt =>
      if s.reader = .wait .parked ∧ s.stream.fut = .pending then
        some { s with reader := .wait .dropWaiter }
      else none
  | .evaluate =>
      if s.reader.own then some { s with reader := .evaluated, news := false } else none
  | .consume n =>
      if s.reader.own then
        some { s with
          stream := { s.stream with buffer := s.stream.buffer.drop n }
          reader := .running }
      else none
  | .maybeResume => if s.reader.own then some (maybeResume s) else none
  | .resumeReading =>
      if s.reader = .resume then
        some { s with stream := { s.stream with reading := true }, reader := .running }
      else none
  | .wait => if s.reader = .evaluated then some { s with reader := .wait .testWaiter } else none
  | .reader => match s.reader with
      | .wait pc => waitStep s pc
      | _ => none

def machine : Machine State Act where
  start s := ∃ limit transport, 0 < limit ∧ s =
    { stream := Streams.fresh limit transport, reader := .running, news := false }
  step := step

end MtAsyncio.Handoff
