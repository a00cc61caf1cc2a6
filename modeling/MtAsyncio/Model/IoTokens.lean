/-
Module: MtAsyncio.Model.IoTokens
Purpose: Who keeps a `ScheduledIO` alive.  The token of a registration is the address
  of its `Arc`, and the poll thread turns the token of an event back into a reference:
  `io_register`, `io_deregister` and `cleanup_io` of `runtime.rs` with the release of
  the parked entries at the top of `Runtime::poll`, over an allocator that gives a
  freed address out again.
Trusted boundary: the kernel forgets the registrations of a file when its last
  descriptor is closed, and finds the one to delete by descriptor and file; an entry
  taken out of the map lives on until it is collected, at any time after
Main exports: Address, Cell, Polled, Kernel, Holder, Pc, Poller, State, Act,
  threadStep, pollerStep, step, machine, Unshared
-/
import MtAsyncio.Lib.Machine
import MtAsyncio.Lib.Shared
import Mathlib.Logic.Function.Basic

namespace MtAsyncio.IoTokens

open Lib (Machine Refs)

/-- The address of a `ScheduledIO`, which is its token. -/
abbrev Address := Nat

abbrev Fd := Nat

/-- An open file, whatever the number of its descriptors. -/
abbrev File := Nat

/-- One epoll instance: every `_run` makes its own. -/
abbrev Epoll := Nat

/-! ## The kernel -/

/-- A registration in an epoll instance.  `made` tells which `ScheduledIO` it was made
for; nothing in the program reads it. -/
structure Polled where
  epoll : Epoll
  fd : Fd
  file : File
  token : Address
  made : Nat
deriving DecidableEq

structure Kernel where
  opened : Fd → Option File
  /-- how many descriptors a file has -/
  descriptors : File → Nat
  polled : List Polled

namespace Kernel

def openFd (k : Kernel) (fd : Fd) (file : File) : Kernel :=
  { k with
    opened := Function.update k.opened fd (some file)
    descriptors := Function.update k.descriptors file (k.descriptors file + 1) }

/-- A file goes with its last descriptor, and its registrations with the file. -/
def closeFd (k : Kernel) (fd : Fd) (file : File) : Kernel :=
  { opened := Function.update k.opened fd none
    descriptors := Function.update k.descriptors file (k.descriptors file - 1)
    polled :=
      if k.descriptors file ≤ 1 then k.polled.filter fun p => p.file ≠ file else k.polled }

/-- `registry.register`, which fails for an fd that is closed or registered already. -/
def register (k : Kernel) (epoll : Epoll) (fd : Fd) (token made : Nat) : Option Kernel :=
  match k.opened fd with
  | none => none
  | some file =>
      if k.polled.any fun p => p.epoll = epoll && p.fd = fd && p.file = file then none
      else some { k with polled := ⟨epoll, fd, file, token, made⟩ :: k.polled }

/-- `registry.deregister`; its error is ignored. -/
def deregister (k : Kernel) (epoll : Epoll) (fd : Fd) : Kernel :=
  match k.opened fd with
  | none => k
  | some file =>
      { k with polled := k.polled.filter fun p => ¬(p.epoll = epoll ∧ p.fd = fd ∧ p.file = file) }

end Kernel

/-! ## The runtime -/

variable {T : Type} [DecidableEq T]

/-- What holds an `Arc<ScheduledIO>`. -/
inductive Holder (T : Type) where
  /-- `io_registrations` -/
  | registrations
  /-- a `PyScheduledIO` -/
  | object
  /-- `io_register` or `io_deregister`, in the thread -/
  | call (t : T)
  /-- an entry that was taken out of the map and is not collected yet -/
  | retired
  /-- `io_pending_release` -/
  | pending
deriving DecidableEq

/-- The `ScheduledIO` at an address. -/
structure Cell where
  fd : Fd
  made : Nat
deriving DecidableEq

/-- Where a thread is in `io_register` and in `io_deregister`. -/
inductive Pc where
  | idle
  /-- `io_registry` was loaded -/
  | registering (epoll : Epoll) (fd : Fd)
  /-- in front of `registry.register` -/
  | inserted (epoll : Epoll) (fd : Fd) (io : Address)
  /-- `registry.register` failed -/
  | refused (io : Address)
  /-- in front of `regs.remove` -/
  | removing (io : Address)
  /-- in front of `registry.deregister` -/
  | removed (io : Address)
  /-- in front of `io.shutdown()` -/
  | deregistered (io : Address)
  /-- in front of the push onto `io_pending_release` -/
  | shut (io : Address)
  /-- in front of `io_needs_release.store(true)` -/
  | parked (io : Address)
deriving DecidableEq

/-- The `ScheduledIO` that a thread works on. -/
def Pc.address : Pc → Option Address
  | .idle => none
  | .registering _ _ => none
  | .inserted _ _ io => some io
  | .refused io => some io
  | .removing io => some io
  | .removed io => some io
  | .deregistered io => some io
  | .shut io => some io
  | .parked io => some io

/-- Where the poll thread is in `_run`. -/
inductive Poller where
  /-- no `_run` is in progress -/
  | off
  /-- at the top of `poll` -/
  | top
  /-- `io_needs_release` was set -/
  | releasing
  /-- in `state.io.poll` -/
  | waiting
  /-- the events that are still to be handled -/
  | dispatching (events : List Polled)
  /-- the loop of `cleanup_io` over the map -/
  | cleaning (fds : List Fd)
  /-- in front of its `io_needs_release.store(false)` -/
  | lowering
  /-- in front of its `io_pending_release.lock().clear()` -/
  | emptying
  /-- in front of `io_registry.swap(None)` -/
  | leaving
deriving DecidableEq

/-- The poll thread is in the loop of `_run`. -/
def Poller.polling : Poller → Bool
  | .top => true
  | .releasing => true
  | .waiting => true
  | .dispatching _ => true
  | _ => false

/-- `clock` numbers the epoll instances and the `ScheduledIO`s; `epoll` is the instance
of the last `_run`. -/
structure State (T : Type) where
  kernel : Kernel
  clock : Nat
  memory : Address → Cell
  arcs : Refs (Holder T) Address
  registry : Option Epoll
  epoll : Epoll
  needsRelease : Bool
  pc : T → Pc
  poller : Poller

inductive Act (T : Type) where
  /-- a new file is opened on a free fd -/
  | openFd (fd : Fd) (file : File)
  /-- `dup` -/
  | dupFd (fd copy : Fd)
  | closeFd (fd : Fd)
  /-- `ScheduledIO(fd)` is called -/
  | register (t : T) (fd : Fd)
  /-- `Arc::new` gives the address `io`, and it goes into the map -/
  | insert (t : T) (io : Address)
  /-- `close` of a `PyScheduledIO` is called -/
  | close (t : T) (io : Address)
  /-- the next step of a thread in one of the two -/
  | thread (t : T)
  /-- the last reference to a `PyScheduledIO` goes -/
  | dropObject (io : Address)
  /-- an entry that was taken out of the map is collected -/
  | collect (io : Address)
  /-- `_run` is called -/
  | run
  /-- `state.io.poll` comes back with events -/
  | poll (events : List Polled)
  /-- `stopping` is set when the poll thread looks, or its poll failed -/
  | stop
  /-- the next step of the poll thread -/
  | poller
deriving DecidableEq

def State.goto (s : State T) (t : T) (pc : Pc) : State T :=
  { s with pc := Function.update s.pc t pc }

/-- `self.io_registry.load()`, and `registry.deregister` where there is one -/
def State.deregisterFd (s : State T) (fd : Fd) : State T :=
  match s.registry with
  | none => s
  | some epoll => { s with kernel := s.kernel.deregister epoll fd }

/-- The next step of `io_register` behind the map, and of `io_deregister`. -/
def threadStep (s : State T) (t : T) : Option (State T) :=
  match s.pc t with
  | .idle => none
  | .registering _ _ => none
  | .inserted epoll fd io =>
      match s.kernel.register epoll fd io (s.memory io).made with
      | none => some (s.goto t (.refused io))
      | some kernel =>
          some ({ s with kernel := kernel, arcs := s.arcs.give (.call t) .object io }.goto t .idle)
  | .refused io =>
      some ({ s with
        arcs := (s.arcs.give .registrations .retired io).drop (.call t) io }.goto t .idle)
  | .removing io =>
      if (.registrations, io) ∈ s.arcs then
        some ({ s with arcs := s.arcs.give .registrations .retired io }.goto t (.removed io))
      else some ({ s with arcs := s.arcs.drop (.call t) io }.goto t .idle)
  | .removed io => some ((s.deregisterFd (s.memory io).fd).goto t (.deregistered io))
  | .deregistered io => some (s.goto t (.shut io))
  | .shut io => some ({ s with arcs := (.pending, io) :: s.arcs }.goto t (.parked io))
  | .parked io =>
      some ({ s with arcs := s.arcs.drop (.call t) io, needsRelease := true }.goto t .idle)

/-- The fds of the map, as `cleanup_io` goes through it. -/
def State.mapped (s : State T) : List Fd :=
  (s.arcs.filter fun reference => reference.1 = .registrations).map fun reference =>
    (s.memory reference.2).fd

/-- The next step of the poll thread. -/
def pollerStep (s : State T) : Option (State T) :=
  match s.poller with
  | .off => none
  | .top =>
      some { s with
        needsRelease := false
        poller := if s.needsRelease then .releasing else .waiting }
  | .releasing => some { s with arcs := s.arcs.dropAll .pending, poller := .waiting }
  | .waiting => none
  | .dispatching [] => some { s with poller := .top }
  -- the token is followed here, and the callbacks are run
  | .dispatching (_ :: events) => some { s with poller := .dispatching events }
  | .cleaning (fd :: fds) =>
      some { s with kernel := s.kernel.deregister s.epoll fd, poller := .cleaning fds }
  | .cleaning [] =>
      some { s with arcs := s.arcs.giveAll .registrations .retired, poller := .lowering }
  | .lowering => some { s with needsRelease := false, poller := .emptying }
  | .emptying => some { s with arcs := s.arcs.dropAll .pending, poller := .leaving }
  | .leaving => some { s with registry := none, poller := .off }

def step (s : State T) : Act T → Option (State T)
  | .openFd fd file =>
      if (s.kernel.opened fd).isNone && s.kernel.descriptors file = 0 then
        some { s with kernel := s.kernel.openFd fd file }
      else none
  | .dupFd fd copy =>
      match s.kernel.opened fd, s.kernel.opened copy with
      | some file, none => some { s with kernel := s.kernel.openFd copy file }
      | _, _ => none
  | .closeFd fd =>
      (s.kernel.opened fd).map fun file => { s with kernel := s.kernel.closeFd fd file }
  | .register t fd =>
      match s.pc t, s.registry with
      | .idle, some epoll => some (s.goto t (.registering epoll fd))
      | _, _ => none
  | .insert t io =>
      match s.pc t with
      | .registering epoll fd =>
          if s.arcs.strong io = 0 then
            some ({ s with
              clock := s.clock + 1
              memory := Function.update s.memory io ⟨fd, s.clock⟩
              arcs := (.registrations, io) :: (.call t, io) :: s.arcs }.goto t
              (.inserted epoll fd io))
          else none
      | _ => none
  | .close t io =>
      match s.pc t with
      | .idle =>
          if (.object, io) ∈ s.arcs then
            some ({ s with arcs := (.call t, io) :: s.arcs }.goto t (.removing io))
          else none
      | _ => none
  | .thread t => threadStep s t
  | .dropObject io =>
      if (.object, io) ∈ s.arcs then some { s with arcs := s.arcs.drop .object io } else none
  | .collect io =>
      if (.retired, io) ∈ s.arcs then some { s with arcs := s.arcs.drop .retired io } else none
  | .run =>
      match s.poller with
      | .off =>
          some { s with
            clock := s.clock + 1
            registry := some s.clock
            epoll := s.clock
            poller := .top }
      | _ => none
  | .poll events =>
      match s.poller with
      | .waiting =>
          if events.all fun p => decide (p ∈ s.kernel.polled) && decide (p.epoll = s.epoll) then
            some { s with poller := .dispatching events }
          else none
      | _ => none
  | .stop =>
      match s.poller with
      | .top => some { s with poller := .cleaning s.mapped }
      | _ => none
  | .poller => pollerStep s

def fresh (T : Type) : State T where
  kernel := { opened := fun _ => none, descriptors := fun _ => 0, polled := [] }
  clock := 1
  memory _ := ⟨0, 0⟩
  arcs := []
  registry := none
  epoll := 0
  needsRelease := false
  pc _ := .idle
  poller := .off

def machine (T : Type) [DecidableEq T] : Machine (State T) (Act T) where
  start s := s = fresh T
  step := step

/-- No descriptor of a file that is registered under it is closed while the file has
another one. -/
def Unshared (s : State T) (a : Act T) : Prop :=
  match a with
  | .closeFd fd =>
      ∀ file, s.kernel.opened fd = some file →
        s.kernel.descriptors file ≤ 1 ∨
          ∀ p ∈ s.kernel.polled, p.epoll = s.epoll → ¬(p.fd = fd ∧ p.file = file)
  | _ => True

end MtAsyncio.IoTokens
