/-
Module: MtAsyncio.Model.SharedPoller
Purpose: The registrations of any number of `EventLoop`s over one runtime:
  `io_register` and `io_deregister` of `runtime.rs` with the map of tokens and the
  kernel's poller, and under the lock of each loop `_registration`,
  `_drop_registration`, `_sio`, `_add_fd_callback`, `_remove_fd_callback`,
  `_release_fd` and `close`.
Trusted boundary: the operations of one loop exclude each other, by its `_sios_lock`;
  the kernel drops a closed fd from the poller, registering an fd fails when it is not
  open or registered already, and deregistering is by number
Main exports: Entry, Kernel, ioRegister, removeToken, deregister, Table, Use, After,
  LoopPc, State, Act, loopStep, step, machine
-/
import MtAsyncio.Model.FdRegistry

namespace MtAsyncio.SharedPoller

open Lib (Machine)
open FdRegistry (Fd Stamp FdIo)

/-! ## The runtime and the kernel -/

/-- A `ScheduledIO` in the map of the runtime.  `opened` tells which socket was open
when it was registered; nothing in the program reads it. -/
structure Entry where
  fd : Fd
  opened : Stamp
deriving DecidableEq

/-- `opened` are the open sockets, `poller` has the token that the kernel polls an fd
with, and `registrations` is `io_registrations`, by token. -/
structure Kernel where
  clock : Stamp
  opened : Fd → Option Stamp
  poller : Fd → Option Stamp
  registrations : Stamp → Option Entry

namespace Kernel

def openSocket (k : Kernel) (fd : Fd) : Kernel :=
  { k with clock := k.clock + 1, opened := Function.update k.opened fd (some k.clock) }

def closeSocket (k : Kernel) (fd : Fd) : Kernel :=
  { k with
    opened := Function.update k.opened fd none
    poller := Function.update k.poller fd none }

/-- `io_register`; where `epoll_ctl` refuses, the token is taken out again. -/
def ioRegister (k : Kernel) (fd : Fd) : Option (Kernel × Stamp) :=
  match k.opened fd, k.poller fd with
  | some sock, none =>
      some ({ k with
        clock := k.clock + 1
        poller := Function.update k.poller fd (some k.clock)
        registrations := Function.update k.registrations k.clock (some ⟨fd, sock⟩) }, k.clock)
  | _, _ => none

/-- `regs.remove(&token)` of `io_deregister` -/
def removeToken (k : Kernel) (token : Stamp) : Kernel :=
  { k with registrations := Function.update k.registrations token none }

/-- `registry.deregister` of `io_deregister` -/
def deregister (k : Kernel) (fd : Fd) : Kernel :=
  { k with poller := Function.update k.poller fd none }

end Kernel

/-! ## The loops -/

variable {L C : Type}

/-- `_sios` -/
abbrev Table (C : Type) := List (Fd × FdIo C)

namespace Table

def get (t : Table C) (fd : Fd) : Option (FdIo C) :=
  t.lookup fd

def pop (t : Table C) (fd : Fd) : Table C :=
  t.filter fun entry => entry.1 ≠ fd

def set (t : Table C) (fd : Fd) (reg : FdIo C) : Table C :=
  (fd, reg) :: pop t fd

def keys (t : Table C) : List Fd :=
  t.map Prod.fst

end Table

/-- What a registration is made or looked up for. -/
inductive Use (C : Type) where
  /-- `_sio`, for the socket -/
  | sock (owner : Stamp)
  /-- `_add_fd_callback` -/
  | callback (writer : Bool) (callback : C)
deriving DecidableEq

/-- What a loop does behind `_drop_registration`. -/
inductive After (C : Type) where
  | done
  | use (fd : Fd) (purpose : Use C)
  /-- `close` goes on -/
  | close (rest : List Fd)
deriving DecidableEq

/-- Where a loop stands, under its lock. -/
inductive LoopPc (C : Type) where
  | idle
  /-- in front of `_drop_registration` -/
  | dropping (fd : Fd) (after : After C)
  /-- in front of `registry.deregister` -/
  | deregistering (fd : Fd) (after : After C)
  /-- in front of `_registration` -/
  | registering (fd : Fd) (purpose : Use C)
  | closing (rest : List Fd)
deriving DecidableEq

def After.pc : After C → LoopPc C
  | .done => .idle
  | .use fd purpose => .registering fd purpose
  | .close rest => .closing rest

structure State (L C : Type) where
  kernel : Kernel
  table : L → Table C
  closed : L → Bool
  pc : L → LoopPc C

inductive Act (L C : Type) where
  /-- a new socket gets the number `fd` -/
  | openSocket (fd : Fd)
  /-- the socket open on `fd` is closed -/
  | closeSocket (fd : Fd)
  /-- a `sock_*` helper is called with the socket open on `fd` -/
  | sockCall (l : L) (fd : Fd)
  | addFdCallback (l : L) (fd : Fd) (writer : Bool) (callback : C)
  | removeFdCallback (l : L) (fd : Fd) (writer : Bool)
  | releaseFd (l : L) (fd : Fd)
  | close (l : L)
  /-- the next step of a loop that has its lock -/
  | loop (l : L)

variable [DecidableEq L]

def State.goto (s : State L C) (l : L) (pc : LoopPc C) : State L C :=
  { s with pc := Function.update s.pc l pc }

def State.setTable (s : State L C) (l : L) (t : Table C) : State L C :=
  { s with table := Function.update s.table l t }

/-- What `_sio` and `_add_fd_callback` do with a registration; a handle is made for
the fd. -/
def Use.apply (fd : Fd) (reg : FdIo C) : Use C → FdIo C
  | .sock owner => { reg with owner := some owner, pinned := true }
  | .callback writer function => reg.setHandle writer (some ⟨fd, reg.sio, writer, function⟩)

/-- The next step of a loop that has its lock. -/
def loopStep (s : State L C) (l : L) : Option (State L C) :=
  match s.pc l with
  | .idle => none
  | .dropping fd after =>
      match (s.table l).get fd with
      | none => some (s.goto l after.pc)
      | some reg =>
          match s.kernel.registrations reg.sio with
          | none => some ((s.setTable l ((s.table l).pop fd)).goto l after.pc)
          | some io =>
              some (({ s with kernel := s.kernel.removeToken reg.sio }.setTable l
                ((s.table l).pop fd)).goto l (.deregistering io.fd after))
  | .deregistering fd after => some ({ s with kernel := s.kernel.deregister fd }.goto l after.pc)
  | .registering fd purpose =>
      match (s.table l).get fd with
      | some reg => some ((s.setTable l ((s.table l).set fd (purpose.apply fd reg))).goto l .idle)
      | none =>
          match s.kernel.ioRegister fd with
          | none => some (s.goto l .idle)
          | some (kernel, token) =>
              some (({ s with kernel := kernel }.setTable l
                ((s.table l).set fd (purpose.apply fd { sio := token }))).goto l .idle)
  | .closing [] => some (s.goto l .idle)
  | .closing (fd :: rest) => some (s.goto l (.dropping fd (.close rest)))

/-- `_sio` finds a registration of another socket. -/
def foreign (reg : FdIo C) (sock : Stamp) : Bool :=
  reg.owner ≠ none && reg.owner ≠ some sock

/-- `_remove_fd_callback` under the lock. -/
def removeFdCallback (s : State L C) (l : L) (fd : Fd) (writer : Bool) : State L C :=
  match (s.table l).get fd with
  | none => s
  | some reg =>
      if (reg.handle writer).isNone then s
      else
        let reg := reg.setHandle writer none
        let s := s.setTable l ((s.table l).set fd reg)
        if reg.reader.isNone && reg.writer.isNone && !reg.pinned then s.goto l (.dropping fd .done)
        else s

def step (s : State L C) : Act L C → Option (State L C)
  | .openSocket fd =>
      if (s.kernel.opened fd).isSome then none
      else some { s with kernel := s.kernel.openSocket fd }
  | .closeSocket fd =>
      if (s.kernel.opened fd).isSome then some { s with kernel := s.kernel.closeSocket fd }
      else none
  | .sockCall l fd =>
      match s.pc l, s.kernel.opened fd with
      | .idle, some sock =>
          if ((s.table l).get fd).any fun reg => foreign reg sock then
            some (s.goto l (.dropping fd (.use fd (.sock sock))))
          else some (s.goto l (.registering fd (.sock sock)))
      | _, _ => none
  | .addFdCallback l fd writer callback =>
      match s.pc l with
      | .idle =>
          if s.closed l then none else some (s.goto l (.registering fd (.callback writer callback)))
      | _ => none
  | .removeFdCallback l fd writer =>
      match s.pc l with
      | .idle => if s.closed l then none else some (removeFdCallback s l fd writer)
      | _ => none
  | .releaseFd l fd =>
      match s.pc l with
      | .idle => some (s.goto l (.dropping fd .done))
      | _ => none
  | .close l =>
      match s.pc l with
      | .idle =>
          if s.closed l then none
          else some ({ s with closed := Function.update s.closed l true }.goto l
            (.closing (s.table l).keys))
      | _ => none
  | .loop l => loopStep s l

def fresh (L C : Type) : State L C where
  kernel :=
    { clock := 0, opened := fun _ => none, poller := fun _ => none,
      registrations := fun _ => none }
  table _ := []
  closed _ := false
  pc _ := .idle

def machine (L C : Type) [DecidableEq L] : Machine (State L C) (Act L C) where
  start s := s = fresh L C
  step := step

end MtAsyncio.SharedPoller
