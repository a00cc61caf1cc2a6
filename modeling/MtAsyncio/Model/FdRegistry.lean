/-
Module: MtAsyncio.Model.FdRegistry
Purpose: The registrations that one `EventLoop` of `_loop.py` keeps for file
  descriptors: `_registration`, `_drop_registration`, `_sio`,
  `_add_fd_callback`, `_remove_fd_callback`, `_release_fd` and `close`, over
  the kernel's descriptors and its poller.
Trusted boundary: every operation holds `_sios_lock`, so it is one step; the
  kernel drops a closed fd from the poller, and registering an fd fails when it
  is not open or registered already; no other loop registers the fd
Main exports: FdHandle, FdIo, HandOut, State, ioRegister, registration,
  dropRegistration, sio, addFdCallback, removeFdCallback, releaseFd, machine
-/
import Mathlib.Logic.Function.Basic
import MtAsyncio.Lib.Machine

namespace MtAsyncio.FdRegistry

open Lib (Machine)

abbrev Fd := Nat

/-- A socket, and a `ScheduledIO`, is named by the moment it was made. -/
abbrev Stamp := Nat

structure FdHandle (C : Type) where
  fd : Fd
  sio : Stamp
  writer : Bool
  callback : C
deriving DecidableEq

/-- `_FdIO`.  `owner` is the socket that the weak reference was made for; the
reference to a collected socket is equal to no socket, and neither is a stamp
of the past. -/
structure FdIo (C : Type) where
  sio : Stamp
  reader : Option (FdHandle C) := none
  writer : Option (FdHandle C) := none
  pinned : Bool := false
  owner : Option Stamp := none
deriving DecidableEq

/-- A registration handed out for an open fd: when the fd was opened, when the
registration was created, and whether the poller still has it. -/
structure HandOut where
  fd : Fd
  opened : Stamp
  created : Stamp
  polled : Bool
deriving DecidableEq

/-- `opened` are the sockets that are open and `poller` what the kernel polls;
`handed` records every registration that was handed out. -/
structure State (C : Type) where
  clock : Stamp
  opened : Fd → Option Stamp
  poller : Fd → Option Stamp
  sios : Fd → Option (FdIo C)
  closed : Bool
  handed : List HandOut

inductive Act (C : Type) where
  /-- a new socket gets the number `fd` -/
  | openSocket (fd : Fd)
  /-- the socket open on `fd` is closed -/
  | closeSocket (fd : Fd)
  /-- a `sock_*` helper is called with the socket open on `fd` -/
  | sockCall (fd : Fd)
  | addFdCallback (fd : Fd) (writer : Bool) (callback : C)
  | removeFdCallback (fd : Fd) (writer : Bool)
  | releaseFd (fd : Fd)
  | closeLoop
deriving DecidableEq

variable {C : Type}

/-! ## The kernel -/

/-- `io_register`: `epoll_ctl` refuses a descriptor that is not open or that it
has already. -/
def ioRegister (s : State C) (fd : Fd) : Option (State C × Stamp) :=
  if s.opened fd = none ∨ s.poller fd ≠ none then none
  else
    some ({ s with
      clock := s.clock + 1
      poller := Function.update s.poller fd (some s.clock) }, s.clock)

/-- `io_deregister` is by number. -/
def ioDeregister (s : State C) (fd : Fd) : State C :=
  { s with poller := Function.update s.poller fd none }

/-! ## The registry -/

def setReg (s : State C) (fd : Fd) (reg : Option (FdIo C)) : State C :=
  { s with sios := Function.update s.sios fd reg }

/-- `_registration`; `none` when `io_register` raises. -/
def registration (s : State C) (fd : Fd) : Option (State C × FdIo C) :=
  match s.sios fd with
  | some reg => some (s, reg)
  | none =>
      (ioRegister s fd).map fun made =>
        (setReg made.1 fd (some { sio := made.2 }), { sio := made.2 })

def dropRegistration (s : State C) (fd : Fd) : State C :=
  match s.sios fd with
  | none => s
  | some _ => ioDeregister (setReg s fd none) fd

/-- Record a registration handed out for an open fd. -/
def handOut (s : State C) (fd : Fd) (reg : FdIo C) : State C :=
  match s.opened fd with
  | none => s
  | some sock =>
      { s with handed := ⟨fd, sock, reg.sio, s.poller fd = some reg.sio⟩ :: s.handed }

/-- The first half of `_sio`: another socket's registration is dropped. -/
def dropForeign (s : State C) (fd : Fd) (sock : Stamp) : State C :=
  match s.sios fd with
  | none => s
  | some reg =>
      if reg.owner ≠ none ∧ reg.owner ≠ some sock then dropRegistration s fd else s

def sio (s : State C) (fd : Fd) (sock : Stamp) : State C :=
  let s := dropForeign s fd sock
  match registration s fd with
  | none => s
  | some (s, reg) =>
      let reg := { reg with owner := some sock, pinned := true }
      handOut (setReg s fd (some reg)) fd reg

def FdIo.handle (reg : FdIo C) : Bool → Option (FdHandle C)
  | true => reg.writer
  | false => reg.reader

def FdIo.setHandle (reg : FdIo C) : Bool → Option (FdHandle C) → FdIo C
  | true, handle => { reg with writer := handle }
  | false, handle => { reg with reader := handle }

def addFdCallback (s : State C) (fd : Fd) (writer : Bool) (callback : C) : State C :=
  if s.closed then s
  else
    match registration s fd with
    | none => s
    | some (s, reg) =>
        let reg := reg.setHandle writer (some ⟨fd, reg.sio, writer, callback⟩)
        handOut (setReg s fd (some reg)) fd reg

def removeFdCallback (s : State C) (fd : Fd) (writer : Bool) : State C :=
  if s.closed then s
  else
    match s.sios fd with
    | none => s
    | some reg =>
        if (reg.handle writer).isNone then s
        else
          let reg := reg.setHandle writer none
          let s := setReg s fd (some reg)
          if reg.reader.isNone ∧ reg.writer.isNone ∧ reg.pinned = false then dropRegistration s fd
          else s

def releaseFd (s : State C) (fd : Fd) : State C :=
  dropRegistration s fd

/-- `close` of the loop drops every registration. -/
def closeLoop (s : State C) : State C :=
  if s.closed then s
  else
    { s with
      closed := true
      sios := fun _ => none
      poller := fun fd => if (s.sios fd).isSome then none else s.poller fd }

/-- No reader or writer is in place: whoever added one removes it, or releases
the fd, before the socket is closed. -/
def unwatched (s : State C) (fd : Fd) : Bool :=
  match s.sios fd with
  | none => true
  | some reg => reg.reader.isNone && reg.writer.isNone

def step (s : State C) : Act C → Option (State C)
  | .openSocket fd =>
      if (s.opened fd).isSome then none
      else some { s with
        clock := s.clock + 1
        opened := Function.update s.opened fd (some s.clock) }
  | .closeSocket fd =>
      if (s.opened fd).isSome ∧ unwatched s fd = true then
        some { s with
          opened := Function.update s.opened fd none
          poller := Function.update s.poller fd none }
      else none
  | .sockCall fd => (s.opened fd).map fun sock => sio s fd sock
  | .addFdCallback fd writer callback => some (addFdCallback s fd writer callback)
  | .removeFdCallback fd writer => some (removeFdCallback s fd writer)
  | .releaseFd fd => some (releaseFd s fd)
  | .closeLoop => some (closeLoop s)

def fresh : State C where
  clock := 0
  opened := fun _ => none
  poller := fun _ => none
  sios := fun _ => none
  closed := false
  handed := []

def machine (C : Type) : Machine (State C) (Act C) where
  start s := s = fresh
  step := step

end MtAsyncio.FdRegistry
