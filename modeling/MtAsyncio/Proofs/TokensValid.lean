/-
Module: MtAsyncio.Proofs.TokensValid
Purpose: A token that the poll thread follows is the address of a live `ScheduledIO`,
  the one that was registered with it, as long as no fd is closed that is registered
  and has a duplicate.
Trusted boundary: none
Main exports: Move, move_of_step, Base, Live, sound, token_valid, token_dangles
-/
import MtAsyncio.Model.IoTokens

namespace MtAsyncio.IoTokens

open Lib (Machine Refs)

variable {T : Type} [DecidableEq T] {s s' : State T} {a : Act T} {t u : T} {pc : Pc}
variable {k k' : Kernel} {io other : Address} {fd : Fd} {file : File} {p : Polled}

/-! ## What a step does -/

/-- The steps of a thread in `io_register` and `io_deregister`. -/
inductive ThreadMove (s : State T) (t : T) : State T → Prop where
  | registered {epoll : Epoll} {fd : Fd} {io : Address} {k : Kernel}
      (at_ : s.pc t = .inserted epoll fd io)
      (accepted : s.kernel.register epoll fd io (s.memory io).made = some k) :
      ThreadMove s t
        ({ s with kernel := k, arcs := s.arcs.give (.call t) .object io }.goto t .idle)
  | refused {epoll : Epoll} {fd : Fd} {io : Address} (at_ : s.pc t = .inserted epoll fd io) :
      ThreadMove s t (s.goto t (.refused io))
  | withdrawn {io : Address} (at_ : s.pc t = .refused io) :
      ThreadMove s t
        ({ s with
          arcs := (s.arcs.give .registrations .retired io).drop (.call t) io }.goto t .idle)
  | removed {io : Address} (at_ : s.pc t = .removing io) (mapped : (.registrations, io) ∈ s.arcs) :
      ThreadMove s t
        ({ s with arcs := s.arcs.give .registrations .retired io }.goto t (.removed io))
  | absent {io : Address} (at_ : s.pc t = .removing io) :
      ThreadMove s t ({ s with arcs := s.arcs.drop (.call t) io }.goto t .idle)
  | deregistered {io : Address} (at_ : s.pc t = .removed io) :
      ThreadMove s t ((s.deregisterFd (s.memory io).fd).goto t (.deregistered io))
  | shut {io : Address} (at_ : s.pc t = .deregistered io) : ThreadMove s t (s.goto t (.shut io))
  | parked {io : Address} (at_ : s.pc t = .shut io) :
      ThreadMove s t ({ s with arcs := (.pending, io) :: s.arcs }.goto t (.parked io))
  | announced {io : Address} (at_ : s.pc t = .parked io) :
      ThreadMove s t
        ({ s with arcs := s.arcs.drop (.call t) io, needsRelease := true }.goto t .idle)

/-- The steps of the poll thread. -/
inductive PollerMove (s : State T) : State T → Prop where
  | swaps (at_ : s.poller = .top) (needs : s.needsRelease = true) :
      PollerMove s { s with needsRelease := false, poller := .releasing }
  | skips (at_ : s.poller = .top) (nothing : s.needsRelease = false) :
      PollerMove s { s with needsRelease := false, poller := .waiting }
  | releases (at_ : s.poller = .releasing) :
      PollerMove s { s with arcs := s.arcs.dropAll .pending, poller := .waiting }
  | returns (at_ : s.poller = .dispatching []) : PollerMove s { s with poller := .top }
  | handles {event : Polled} {events : List Polled}
      (at_ : s.poller = .dispatching (event :: events)) :
      PollerMove s { s with poller := .dispatching events }
  | cleans {fd : Fd} {fds : List Fd} (at_ : s.poller = .cleaning (fd :: fds)) :
      PollerMove s { s with kernel := s.kernel.deregister s.epoll fd, poller := .cleaning fds }
  | clears (at_ : s.poller = .cleaning []) :
      PollerMove s
        { s with arcs := s.arcs.giveAll .registrations .retired, poller := .lowering }
  | lowers (at_ : s.poller = .lowering) :
      PollerMove s { s with needsRelease := false, poller := .emptying }
  | empties (at_ : s.poller = .emptying) :
      PollerMove s { s with arcs := s.arcs.dropAll .pending, poller := .leaving }
  | leaves (at_ : s.poller = .leaving) : PollerMove s { s with registry := none, poller := .off }

inductive Move (s : State T) : Act T → State T → Prop where
  | opened {fd : Fd} {file : File} (free : s.kernel.opened fd = none) :
      Move s (.openFd fd file) { s with kernel := s.kernel.openFd fd file }
  | copied {fd copy : Fd} {file : File} (isOpen : s.kernel.opened fd = some file)
      (free : s.kernel.opened copy = none) :
      Move s (.dupFd fd copy) { s with kernel := s.kernel.openFd copy file }
  | closed {fd : Fd} {file : File} (isOpen : s.kernel.opened fd = some file) :
      Move s (.closeFd fd) { s with kernel := s.kernel.closeFd fd file }
  | begins {t : T} {fd : Fd} {epoll : Epoll} (at_ : s.pc t = .idle)
      (running : s.registry = some epoll) :
      Move s (.register t fd) (s.goto t (.registering epoll fd))
  | inserts {t : T} {io : Address} {epoll : Epoll} {fd : Fd} (at_ : s.pc t = .registering epoll fd)
      (free : s.arcs.strong io = 0) :
      Move s (.insert t io)
        ({ s with
          clock := s.clock + 1
          memory := Function.update s.memory io ⟨fd, s.clock⟩
          arcs := (.registrations, io) :: (.call t, io) :: s.arcs }.goto t (.inserted epoll fd io))
  | closes {t : T} {io : Address} (at_ : s.pc t = .idle) (owned : (.object, io) ∈ s.arcs) :
      Move s (.close t io) ({ s with arcs := (.call t, io) :: s.arcs }.goto t (.removing io))
  | thread {t : T} {next : State T} (moves : ThreadMove s t next) : Move s (.thread t) next
  | dropped {io : Address} : Move s (.dropObject io) { s with arcs := s.arcs.drop .object io }
  | collected {io : Address} : Move s (.collect io) { s with arcs := s.arcs.drop .retired io }
  | runs (at_ : s.poller = .off) :
      Move s .run
        { s with
          clock := s.clock + 1
          registry := some s.clock
          epoll := s.clock
          poller := .top }
  | polled {events : List Polled} (at_ : s.poller = .waiting)
      (ready : ∀ p ∈ events, p ∈ s.kernel.polled ∧ p.epoll = s.epoll) :
      Move s (.poll events) { s with poller := .dispatching events }
  | stops (at_ : s.poller = .top) : Move s .stop { s with poller := .cleaning s.mapped }
  | poller {next : State T} (moves : PollerMove s next) : Move s .poller next

theorem threadMove_of_step (taken : threadStep s t = some s') : ThreadMove s t s' := by
  unfold threadStep at taken
  split at taken
  · cases taken
  · cases taken
  · rename_i at_
    split at taken
    · cases taken
      exact .refused at_
    · rename_i accepted
      cases taken
      exact .registered at_ accepted
  · rename_i at_
    cases taken
    exact .withdrawn at_
  · rename_i at_
    split at taken
    · rename_i mapped
      cases taken
      exact .removed at_ mapped
    · cases taken
      exact .absent at_
  · rename_i at_
    cases taken
    exact .deregistered at_
  · rename_i at_
    cases taken
    exact .shut at_
  · rename_i at_
    cases taken
    exact .parked at_
  · rename_i at_
    cases taken
    exact .announced at_

theorem pollerMove_of_step (taken : pollerStep s = some s') : PollerMove s s' := by
  unfold pollerStep at taken
  split at taken
  · cases taken
  · rename_i at_
    cases needs : s.needsRelease with
    | true =>
        rw [needs] at taken
        cases taken
        exact .swaps at_ needs
    | false =>
        rw [needs] at taken
        cases taken
        exact .skips at_ needs
  · rename_i at_
    cases taken
    exact .releases at_
  · cases taken
  · rename_i at_
    cases taken
    exact .returns at_
  · rename_i at_
    cases taken
    exact .handles at_
  · rename_i at_
    cases taken
    exact .cleans at_
  · rename_i at_
    cases taken
    exact .clears at_
  · rename_i at_
    cases taken
    exact .lowers at_
  · rename_i at_
    cases taken
    exact .empties at_
  · rename_i at_
    cases taken
    exact .leaves at_

theorem move_of_step (taken : step s a = some s') : Move s a s' := by
  cases a with
  | openFd fd file =>
      simp only [step] at taken
      split at taken
      · rename_i free
        cases taken
        have isNone : s.kernel.opened fd = none := by
          simp only [Bool.and_eq_true, Option.isNone_iff_eq_none] at free
          exact free.1
        exact .opened isNone
      · cases taken
  | dupFd fd copy =>
      simp only [step] at taken
      split at taken
      · rename_i isOpen free
        cases taken
        exact .copied isOpen free
      · cases taken
  | closeFd fd =>
      simp only [step] at taken
      obtain ⟨file, isOpen, rfl⟩ := Option.map_eq_some_iff.mp taken
      exact .closed isOpen
  | register t fd =>
      simp only [step] at taken
      split at taken
      · rename_i at_ running
        cases taken
        exact .begins at_ running
      · cases taken
  | insert t io =>
      simp only [step] at taken
      split at taken
      · rename_i at_
        split at taken
        · rename_i free
          cases taken
          exact .inserts at_ free
        · cases taken
      · cases taken
  | close t io =>
      simp only [step] at taken
      split at taken
      · rename_i at_
        split at taken
        · rename_i owned
          cases taken
          exact .closes at_ owned
        · cases taken
      · cases taken
  | thread t => exact .thread (threadMove_of_step taken)
  | dropObject io =>
      simp only [step] at taken
      split at taken
      · cases taken
        exact .dropped
      · cases taken
  | collect io =>
      simp only [step] at taken
      split at taken
      · cases taken
        exact .collected
      · cases taken
  | run =>
      simp only [step] at taken
      split at taken
      · rename_i at_
        cases taken
        exact .runs at_
      · cases taken
  | poll events =>
      simp only [step] at taken
      split at taken
      · rename_i at_
        split at taken
        · rename_i ready
          cases taken
          refine .polled at_ ?_
          simpa only [List.all_eq_true, Bool.and_eq_true, decide_eq_true_eq] using ready
        · cases taken
      · cases taken
  | stop =>
      simp only [step] at taken
      split at taken
      · rename_i at_
        cases taken
        exact .stops at_
      · cases taken
  | poller => exact .poller (pollerMove_of_step taken)

/-! ## What holds in every run -/

/-- The `ScheduledIO` that `io_register` has made and not given out. -/
def Pc.fresh : Pc → Option Address
  | .inserted _ _ io => some io
  | .refused io => some io
  | _ => none

/-- The epoll instance that `io_register` works with. -/
def Pc.epoll : Pc → Option Epoll
  | .registering epoll _ => some epoll
  | .inserted epoll _ _ => some epoll
  | _ => none

theorem Pc.address_of_fresh {pc : Pc} (isFresh : pc.fresh = some io) : pc.address = some io := by
  cases pc <;> first | exact isFresh | cases isFresh

/-- A thread holds what it works on; what `io_register` has made is with nobody else
but the map; and the numbers that were given out are old. -/
structure Base (s : State T) : Prop where
  calls : ∀ t io, (s.pc t).address = some io → (.call t, io) ∈ s.arcs
  only : ∀ t io, (s.pc t).fresh = some io → ∀ o, (o, io) ∈ s.arcs →
    o = .call t ∨ o = .registrations ∨ o = .retired
  cells : ∀ t epoll fd io, s.pc t = .inserted epoll fd io → (s.memory io).fd = fd
  epochs : ∀ t epoll, (s.pc t).epoll = some epoll → epoll < s.clock
  current : ∀ epoll, s.registry = some epoll → epoll < s.clock
  polled : ∀ p ∈ s.kernel.polled, p.epoll < s.clock

/-- What thread `t` turns to keeps `Base` where it keeps it for the thread itself and
takes nothing from the others. -/
theorem Base.goto {r : State T} (base : Base s) (samePc : r.pc = s.pc) (older : s.clock ≤ r.clock)
    (keeps : ∀ u io, u ≠ t → (.call u, io) ∈ s.arcs → (.call u, io) ∈ r.arcs)
    (gains : ∀ u io, u ≠ t → (s.pc u).fresh = some io → ∀ o, (o, io) ∈ r.arcs →
      (o, io) ∈ s.arcs ∨ o = .retired)
    (memory : ∀ u io, u ≠ t → (s.pc u).fresh = some io → r.memory io = s.memory io)
    (current : ∀ epoll, r.registry = some epoll → epoll < r.clock)
    (polled : ∀ p ∈ r.kernel.polled, p.epoll < r.clock)
    (holds : ∀ io, pc.address = some io → (.call t, io) ∈ r.arcs)
    (alone : ∀ io, pc.fresh = some io → ∀ o, (o, io) ∈ r.arcs →
      o = .call t ∨ o = .registrations ∨ o = .retired)
    (cell : ∀ epoll fd io, pc = .inserted epoll fd io → (r.memory io).fd = fd)
    (epoch : ∀ epoll, pc.epoll = some epoll → epoll < r.clock) : Base (r.goto t pc) where
  calls := by
    intro u io isAddress
    by_cases same : u = t
    · subst same
      rw [show (r.goto u pc).pc u = pc from Function.update_self ..] at isAddress
      exact holds io isAddress
    · rw [show (r.goto t pc).pc u = s.pc u from
        (Function.update_of_ne same ..).trans (congrFun samePc u)] at isAddress
      exact keeps u io same (base.calls u io isAddress)
  only := by
    intro u io isFresh o member
    by_cases same : u = t
    · subst same
      rw [show (r.goto u pc).pc u = pc from Function.update_self ..] at isFresh
      exact alone io isFresh o member
    · rw [show (r.goto t pc).pc u = s.pc u from
        (Function.update_of_ne same ..).trans (congrFun samePc u)] at isFresh
      rcases gains u io same isFresh o member with old | retired
      · exact base.only u io isFresh o old
      · exact .inr (.inr retired)
  cells := by
    intro u epoll fd io at_
    by_cases same : u = t
    · subst same
      rw [show (r.goto u pc).pc u = pc from Function.update_self ..] at at_
      exact cell epoll fd io at_
    · rw [show (r.goto t pc).pc u = s.pc u from
        (Function.update_of_ne same ..).trans (congrFun samePc u)] at at_
      have isFresh : (s.pc u).fresh = some io := by rw [at_]; rfl
      show (r.memory io).fd = fd
      rw [memory u io same isFresh]
      exact base.cells u epoll fd io at_
  epochs := by
    intro u epoll isEpoll
    by_cases same : u = t
    · subst same
      rw [show (r.goto u pc).pc u = pc from Function.update_self ..] at isEpoll
      exact epoch epoll isEpoll
    · rw [show (r.goto t pc).pc u = s.pc u from
        (Function.update_of_ne same ..).trans (congrFun samePc u)] at isEpoll
      exact Nat.lt_of_lt_of_le (base.epochs u epoll isEpoll) older
  current := current
  polled := polled

omit [DecidableEq T] in
/-- A step that moves no thread. -/
theorem Base.same {r : State T} (base : Base s) (samePc : r.pc = s.pc) (older : s.clock ≤ r.clock)
    (sameMemory : r.memory = s.memory)
    (keeps : ∀ u io, (.call u, io) ∈ s.arcs → (.call u, io) ∈ r.arcs)
    (gains : ∀ o io, (o, io) ∈ r.arcs → (o, io) ∈ s.arcs ∨ o = .retired)
    (current : ∀ epoll, r.registry = some epoll → epoll < r.clock)
    (polled : ∀ p ∈ r.kernel.polled, p.epoll < r.clock) : Base r where
  calls := by
    intro u io isAddress
    rw [samePc] at isAddress
    exact keeps u io (base.calls u io isAddress)
  only := by
    intro u io isFresh o member
    rw [samePc] at isFresh
    rcases gains o io member with old | retired
    · exact base.only u io isFresh o old
    · exact .inr (.inr retired)
  cells := by
    intro u epoll fd io at_
    rw [samePc] at at_
    rw [sameMemory]
    exact base.cells u epoll fd io at_
  epochs := by
    intro u epoll isEpoll
    rw [samePc] at isEpoll
    exact Nat.lt_of_lt_of_le (base.epochs u epoll isEpoll) older
  current := current
  polled := polled

theorem deregister_polled {epoll : Epoll} (member : p ∈ (k.deregister epoll fd).polled) :
    p ∈ k.polled := by
  unfold Kernel.deregister at member
  split at member
  · exact member
  · exact List.mem_of_mem_filter member

theorem closeFd_polled (member : p ∈ (k.closeFd fd file).polled) : p ∈ k.polled := by
  simp only [Kernel.closeFd] at member
  split at member
  · exact List.mem_of_mem_filter member
  · exact member

omit [DecidableEq T] in
theorem deregisterFd_polled (member : p ∈ (s.deregisterFd fd).kernel.polled) :
    p ∈ s.kernel.polled := by
  unfold State.deregisterFd at member
  split at member
  · exact member
  · exact deregister_polled member

/-- The new entry of a `registry.register` that is accepted. -/
theorem register_polled {epoll : Epoll} {made : Nat}
    (accepted : k.register epoll fd io made = some k') :
    k'.opened = k.opened ∧
      ∃ file, k.opened fd = some file ∧ k'.polled = ⟨epoll, fd, file, io, made⟩ :: k.polled := by
  unfold Kernel.register at accepted
  split at accepted
  · cases accepted
  · rename_i file isOpen
    split at accepted
    · cases accepted
    · cases accepted
      exact ⟨rfl, file, isOpen, rfl⟩

omit [DecidableEq T] in
/-- Two threads do not work on what one of them has just made. -/
theorem Base.apart (base : Base s) (isFresh : (s.pc u).fresh = some io)
    (works : (s.pc t).address = some io) : t = u := by
  rcases base.only u io isFresh (.call t) (base.calls t io works) with same | same | same
  · exact Holder.call.inj same
  · cases same
  · cases same

theorem base_threadMove (base : Base s) (moves : ThreadMove s t s') : Base s' := by
  cases moves with
  | @registered epoll fd io k at_ accepted =>
      have works : (s.pc t).address = some io := by rw [at_]; rfl
      obtain ⟨-, file, -, polled⟩ := register_polled accepted
      refine base.goto rfl (Nat.le_refl _) ?_ ?_ (fun _ _ _ _ => rfl) base.current ?_
        (fun _ no => nomatch no) (fun _ no => nomatch no) (fun _ _ _ no => nomatch no)
        (fun _ no => nomatch no)
      · intro u x other member
        exact Refs.mem_give member (.inl fun same => other (Holder.call.inj same))
      · intro u x other isFresh o member
        rcases Refs.mem_of_give member with old | isNew
        · exact .inl old
        · exact absurd (base.apart isFresh (isNew.2 ▸ works)) (Ne.symm other)
      · intro p member
        rcases List.mem_cons.mp (polled ▸ member) with rfl | old
        · exact base.epochs t epoll (by rw [at_]; rfl)
        · exact base.polled p old
  | @refused epoll fd io at_ =>
      have works : (s.pc t).address = some io := by rw [at_]; rfl
      have isFresh : (s.pc t).fresh = some io := by rw [at_]; rfl
      refine base.goto rfl (Nat.le_refl _) (fun _ _ _ member => member)
        (fun _ _ _ _ _ member => .inl member) (fun _ _ _ _ => rfl) base.current base.polled
        ?_ ?_ (fun _ _ _ no => nomatch no) (fun _ no => nomatch no)
      · rintro x ⟨⟩
        exact base.calls t io works
      · rintro x ⟨⟩
        exact base.only t io isFresh
  | @withdrawn io at_ =>
      refine base.goto rfl (Nat.le_refl _) ?_ ?_ (fun _ _ _ _ => rfl) base.current base.polled
        (fun _ no => nomatch no) (fun _ no => nomatch no) (fun _ _ _ no => nomatch no)
        (fun _ no => nomatch no)
      · intro u x other member
        refine Refs.mem_drop (Refs.mem_give member (.inl fun same => nomatch same)) (.inl ?_)
        exact fun same => other (Holder.call.inj same)
      · intro u x other isFresh o member
        have kept : (o, x) ∈ s.arcs.give .registrations .retired io :=
          Refs.mem_of_drop (o := .call t) (a := io) member
        rcases Refs.mem_of_give kept with old | isNew
        · exact .inl old
        · exact .inr isNew.1
  | @removed io at_ mapped =>
      have works : (s.pc t).address = some io := by rw [at_]; rfl
      refine base.goto rfl (Nat.le_refl _) ?_ ?_ (fun _ _ _ _ => rfl) base.current base.polled
        ?_ (fun _ no => nomatch no) (fun _ _ _ no => nomatch no) (fun _ no => nomatch no)
      · intro u x other member
        exact Refs.mem_give member (.inl fun same => nomatch same)
      · intro u x other isFresh o member
        rcases Refs.mem_of_give member with old | isNew
        · exact .inl old
        · exact .inr isNew.1
      · rintro x ⟨⟩
        exact Refs.mem_give (base.calls t io works) (.inl fun same => nomatch same)
  | @absent io at_ =>
      refine base.goto rfl (Nat.le_refl _) ?_ ?_ (fun _ _ _ _ => rfl) base.current base.polled
        (fun _ no => nomatch no) (fun _ no => nomatch no) (fun _ _ _ no => nomatch no)
        (fun _ no => nomatch no)
      · intro u x other member
        exact Refs.mem_drop member (.inl fun same => other (Holder.call.inj same))
      · intro u x other isFresh o member
        exact .inl (Refs.mem_of_drop member)
  | @deregistered io at_ =>
      have works : (s.pc t).address = some io := by rw [at_]; rfl
      have frame : ∀ fd, (s.deregisterFd fd).pc = s.pc ∧ (s.deregisterFd fd).arcs = s.arcs ∧
          (s.deregisterFd fd).memory = s.memory ∧ (s.deregisterFd fd).clock = s.clock ∧
          (s.deregisterFd fd).registry = s.registry := by
        intro fd
        unfold State.deregisterFd
        split
        · exact ⟨rfl, rfl, rfl, rfl, rfl⟩
        · exact ⟨rfl, rfl, rfl, rfl, rfl⟩
      obtain ⟨samePc, sameArcs, sameMemory, sameClock, sameRegistry⟩ := frame (s.memory io).fd
      refine base.goto samePc (Nat.le_of_eq sameClock.symm) ?_ ?_
        (fun _ x _ _ => congrFun sameMemory x) ?_ ?_ ?_ (fun _ no => nomatch no)
        (fun _ _ _ no => nomatch no) (fun _ no => nomatch no)
      · exact fun u x other member => sameArcs ▸ member
      · exact fun u x other isFresh o member => .inl (sameArcs ▸ member)
      · rw [sameRegistry, sameClock]
        exact base.current
      · rw [sameClock]
        exact fun p member => base.polled p (deregisterFd_polled member)
      · rintro x ⟨⟩
        exact sameArcs ▸ base.calls t io works
  | @shut io at_ =>
      have works : (s.pc t).address = some io := by rw [at_]; rfl
      refine base.goto rfl (Nat.le_refl _) (fun _ _ _ member => member)
        (fun _ _ _ _ _ member => .inl member) (fun _ _ _ _ => rfl) base.current base.polled
        ?_ (fun _ no => nomatch no) (fun _ _ _ no => nomatch no) (fun _ no => nomatch no)
      rintro x ⟨⟩
      exact base.calls t io works
  | @parked io at_ =>
      have works : (s.pc t).address = some io := by rw [at_]; rfl
      refine base.goto rfl (Nat.le_refl _) (fun _ _ _ member => List.mem_cons_of_mem _ member) ?_
        (fun _ _ _ _ => rfl) base.current base.polled
        ?_ (fun _ no => nomatch no) (fun _ _ _ no => nomatch no) (fun _ no => nomatch no)
      · intro u x other isFresh o member
        rcases List.mem_cons.mp member with isNew | old
        · cases isNew
          exact absurd (base.apart isFresh works) (Ne.symm other)
        · exact .inl old
      · rintro x ⟨⟩
        exact List.mem_cons_of_mem _ (base.calls t io works)
  | @announced io at_ =>
      refine base.goto rfl (Nat.le_refl _) ?_ ?_ (fun _ _ _ _ => rfl) base.current base.polled
        (fun _ no => nomatch no) (fun _ no => nomatch no) (fun _ _ _ no => nomatch no)
        (fun _ no => nomatch no)
      · intro u x other member
        exact Refs.mem_drop member (.inl fun same => other (Holder.call.inj same))
      · intro u x other isFresh o member
        exact .inl (Refs.mem_of_drop member)

theorem base_pollerMove (base : Base s) (moves : PollerMove s s') : Base s' := by
  cases moves with
  | swaps | skips | returns | handles | lowers =>
      exact base.same rfl (Nat.le_refl _) rfl (fun _ _ member => member)
        (fun _ _ member => .inl member) base.current base.polled
  | releases | empties =>
      refine base.same rfl (Nat.le_refl _) rfl ?_ ?_ base.current base.polled
      · exact fun u io member => Refs.mem_dropAll.mpr ⟨member, fun same => nomatch same⟩
      · exact fun o io member => .inl (Refs.mem_dropAll.mp member).1
  | cleans at_ =>
      refine base.same rfl (Nat.le_refl _) rfl (fun _ _ member => member)
        (fun _ _ member => .inl member) base.current ?_
      exact fun p member => base.polled p (deregister_polled member)
  | clears at_ =>
      refine base.same rfl (Nat.le_refl _) rfl ?_ ?_ base.current base.polled
      · exact fun u io member => Refs.mem_giveAll.mpr (.inl ⟨member, fun same => nomatch same⟩)
      · intro o io member
        rcases Refs.mem_giveAll.mp member with old | isNew
        · exact .inl old.1
        · exact .inr isNew.2
  | leaves at_ =>
      exact base.same rfl (Nat.le_refl _) rfl (fun _ _ member => member)
        (fun _ _ member => .inl member) (fun _ no => nomatch no) base.polled

theorem base_move (base : Base s) (moves : Move s a s') : Base s' := by
  cases moves with
  | opened | copied | polled | stops =>
      exact base.same rfl (Nat.le_refl _) rfl (fun _ _ member => member)
        (fun _ _ member => .inl member) base.current base.polled
  | closed isOpen =>
      refine base.same rfl (Nat.le_refl _) rfl (fun _ _ member => member)
        (fun _ _ member => .inl member) base.current ?_
      exact fun p member => base.polled p (closeFd_polled member)
  | @begins t fd epoll at_ running =>
      refine base.goto rfl (Nat.le_refl _) (fun _ _ _ member => member)
        (fun _ _ _ _ _ member => .inl member) (fun _ _ _ _ => rfl) base.current base.polled
        (fun _ no => nomatch no) (fun _ no => nomatch no) (fun _ _ _ no => nomatch no) ?_
      rintro e ⟨⟩
      exact base.current epoll running
  | @inserts t io epoll fd at_ free =>
      have unheld := Refs.not_held_of_strong free
      have apart : ∀ u x, (s.pc u).fresh = some x → x ≠ io := by
        rintro u x isFresh rfl
        exact unheld ⟨.call u, base.calls u x (Pc.address_of_fresh isFresh)⟩
      refine base.goto rfl (Nat.le_succ _) ?_ ?_ ?_ ?_ ?_ ?_ ?_ ?_ ?_
      · exact fun u x other member => List.mem_cons_of_mem _ (List.mem_cons_of_mem _ member)
      · intro u x other isFresh o member
        have notIo := apart u x isFresh
        rcases List.mem_cons.mp member with isNew | member
        · exact absurd (Prod.mk.inj isNew).2 notIo
        · rcases List.mem_cons.mp member with isNew | old
          · exact absurd (Prod.mk.inj isNew).2 notIo
          · exact .inl old
      · exact fun u x other isFresh => Function.update_of_ne (apart u x isFresh) ..
      · exact fun e running => Nat.lt_succ_of_lt (base.current e running)
      · exact fun p member => Nat.lt_succ_of_lt (base.polled p member)
      · rintro x ⟨⟩
        exact List.mem_cons_of_mem _ List.mem_cons_self
      · rintro x ⟨⟩ o member
        rcases List.mem_cons.mp member with isNew | member
        · exact .inr (.inl (Prod.mk.inj isNew).1)
        · rcases List.mem_cons.mp member with isNew | old
          · exact .inl (Prod.mk.inj isNew).1
          · exact absurd ⟨o, old⟩ unheld
      · rintro e f x ⟨⟩
        have made : Function.update s.memory io ⟨fd, s.clock⟩ io = ⟨fd, s.clock⟩ :=
          Function.update_self ..
        exact congrArg Cell.fd made
      · rintro e ⟨⟩
        exact Nat.lt_succ_of_lt (base.epochs t epoll (by rw [at_]; rfl))
  | @closes t io at_ owned =>
      refine base.goto rfl (Nat.le_refl _) (fun _ _ _ member => List.mem_cons_of_mem _ member) ?_
        (fun _ _ _ _ => rfl) base.current base.polled ?_ (fun _ no => nomatch no)
        (fun _ _ _ no => nomatch no) (fun _ no => nomatch no)
      · intro u x other isFresh o member
        rcases List.mem_cons.mp member with isNew | old
        · cases isNew
          -- what is given out is not with `io_register` any more
          rcases base.only u io isFresh .object owned with no | no | no <;> cases no
        · exact .inl old
      · rintro x ⟨⟩
        exact List.mem_cons_self
  | thread moves => exact base_threadMove base moves
  | dropped | collected =>
      refine base.same rfl (Nat.le_refl _) rfl ?_ ?_ base.current base.polled
      · exact fun u x member => Refs.mem_drop member (.inl fun same => nomatch same)
      · exact fun o x member => .inl (Refs.mem_of_drop member)
  | runs at_ =>
      refine base.same rfl (Nat.le_succ _) rfl (fun _ _ member => member)
        (fun _ _ member => .inl member) ?_ ?_
      · rintro e ⟨⟩
        exact Nat.lt_succ_self _
      · exact fun p member => Nat.lt_succ_of_lt (base.polled p member)
  | poller moves => exact base_pollerMove base moves

omit [DecidableEq T] in
theorem base_fresh : Base (fresh T) where
  calls _ _ no := nomatch no
  only _ _ no := nomatch no
  cells _ _ _ _ no := nomatch no
  epochs _ _ no := nomatch no
  current _ no := nomatch no
  polled _ no := nomatch no

/-! ## What holds while the poll thread is in its loop -/

/-- The events that are still to be handled. -/
def State.events (s : State T) : List Polled :=
  match s.poller with
  | .dispatching events => events
  | _ => []

/-- The `ScheduledIO` that `io_deregister` took out of the map and did not park yet. -/
def Pc.taken : Pc → Option Address
  | .removed io => some io
  | .deregistered io => some io
  | .shut io => some io
  | _ => none

theorem Pc.address_of_taken {pc : Pc} (isTaken : pc.taken = some io) : pc.address = some io := by
  cases pc <;> first | exact isTaken | cases isTaken

/-- Who takes a registration out of the kernel. -/
inductive Heard (s : State T) (io : Address) : Prop where
  | mapped (member : (.registrations, io) ∈ s.arcs)
  | removed {t : T} (at_ : s.pc t = .removed io)

/-- What holds a `ScheduledIO` until the next release. -/
inductive Stable (s : State T) (io : Address) : Prop where
  | mapped (member : (.registrations, io) ∈ s.arcs)
  | taken {t : T} (at_ : (s.pc t).taken = some io)
  | parked (member : (.pending, io) ∈ s.arcs)

omit [DecidableEq T] in
theorem Heard.congr {r : State T} (heard : Heard s io) (sameArcs : r.arcs = s.arcs)
    (samePc : r.pc = s.pc) : Heard r io := by
  cases heard with
  | mapped member => exact .mapped (sameArcs ▸ member)
  | removed at_ => exact .removed (samePc ▸ at_)

omit [DecidableEq T] in
theorem Stable.congr {r : State T} (stable : Stable s io) (sameArcs : r.arcs = s.arcs)
    (samePc : r.pc = s.pc) : Stable r io := by
  cases stable with
  | mapped member => exact .mapped (sameArcs ▸ member)
  | taken at_ => exact .taken (samePc ▸ at_)
  | parked member => exact .parked (sameArcs ▸ member)

omit [DecidableEq T] in
theorem Heard.stable (heard : Heard s io) : Stable s io := by
  cases heard with
  | mapped member => exact .mapped member
  | removed at_ => exact .taken (by rw [at_]; rfl)

omit [DecidableEq T] in
theorem Stable.held (base : Base s) (stable : Stable s io) : s.arcs.Held io := by
  cases stable with
  | mapped member => exact ⟨.registrations, member⟩
  | @taken t at_ => exact ⟨.call t, base.calls t io (Pc.address_of_taken at_)⟩
  | parked member => exact ⟨.pending, member⟩

/-- A registration of the running instance. -/
structure Backed (s : State T) (p : Polled) : Prop where
  heard : Heard s p.token
  cell : s.memory p.token = ⟨p.fd, p.made⟩
  isOpen : s.kernel.opened p.fd = some p.file

structure Live (s : State T) : Prop where
  registry : s.registry = some s.epoll
  mapped : ∀ t fd io, s.pc t = .inserted s.epoll fd io → (.registrations, io) ∈ s.arcs
  unheard : ∀ t io, (s.pc t).fresh = some io →
    ∀ p ∈ s.kernel.polled, p.epoll = s.epoll → p.token ≠ io
  unseen : ∀ t io, (s.pc t).fresh = some io → ∀ p ∈ s.events, p.token ≠ io
  backed : ∀ p ∈ s.kernel.polled, p.epoll = s.epoll → Backed s p
  batch : ∀ p ∈ s.events, Stable s p.token ∧ (s.memory p.token).made = p.made

theorem Heard.goto {r : State T} (heard : Heard s io) (samePc : r.pc = s.pc)
    (mapped : (.registrations, io) ∈ s.arcs → (.registrations, io) ∈ r.arcs ∨ pc = .removed io)
    (removed : s.pc t = .removed io → pc = .removed io ∨ (.registrations, io) ∈ r.arcs) :
    Heard (r.goto t pc) io := by
  have here : (r.goto t pc).pc t = pc := Function.update_self ..
  cases heard with
  | mapped member =>
      rcases mapped member with kept | moved
      · exact .mapped kept
      · exact .removed (here.trans moved)
  | @removed u at_ =>
      by_cases same : u = t
      · subst same
        rcases removed at_ with moved | back
        · exact .removed (here.trans moved)
        · exact .mapped back
      · refine .removed (t := u) ?_
        exact (Function.update_of_ne same ..).trans ((congrFun samePc u).trans at_)

theorem Stable.goto {r : State T} (stable : Stable s io) (samePc : r.pc = s.pc)
    (mapped : (.registrations, io) ∈ s.arcs →
      (.registrations, io) ∈ r.arcs ∨ pc.taken = some io)
    (taken : (s.pc t).taken = some io → pc.taken = some io ∨ (.pending, io) ∈ r.arcs)
    (parked : (.pending, io) ∈ s.arcs → (.pending, io) ∈ r.arcs) : Stable (r.goto t pc) io := by
  have here : (r.goto t pc).pc t = pc := Function.update_self ..
  cases stable with
  | mapped member =>
      rcases mapped member with kept | moved
      · exact .mapped kept
      · exact .taken (t := t) (by rw [here]; exact moved)
  | @taken u at_ =>
      by_cases same : u = t
      · subst same
        rcases taken at_ with moved | back
        · exact .taken (t := u) (by rw [here]; exact moved)
        · exact .parked back
      · refine .taken (t := u) ?_
        rw [show (r.goto t pc).pc u = s.pc u from
          (Function.update_of_ne same ..).trans (congrFun samePc u)]
        exact at_
  | parked member => exact .parked (parked member)

omit [DecidableEq T] in
/-- A step that moves no thread keeps what holds in the loop when it keeps the map and
every registration, and hands out no event but of the running instance. -/
theorem Live.same {r : State T} (live : Live s) (samePc : r.pc = s.pc)
    (sameMemory : r.memory = s.memory) (sameEpoll : r.epoll = s.epoll)
    (sameRegistry : r.registry = s.registry)
    (fewer : ∀ p ∈ r.kernel.polled, p ∈ s.kernel.polled)
    (isOpen : ∀ p ∈ r.kernel.polled, p.epoll = s.epoll → s.kernel.opened p.fd = some p.file →
      r.kernel.opened p.fd = some p.file)
    (mapped : ∀ io, (.registrations, io) ∈ s.arcs → (.registrations, io) ∈ r.arcs)
    (events : ∀ p ∈ r.events,
      p ∈ s.events ∧ ((.pending, p.token) ∈ s.arcs → (.pending, p.token) ∈ r.arcs) ∨
        p ∈ s.kernel.polled ∧ p.epoll = s.epoll) : Live r := by
  have heard : ∀ io, Heard s io → Heard r io := by
    intro io heard
    cases heard with
    | mapped member => exact .mapped (mapped io member)
    | @removed t at_ => exact .removed (t := t) (by rw [samePc]; exact at_)
  refine ⟨?_, ?_, ?_, ?_, ?_, ?_⟩
  · rw [sameRegistry, sameEpoll]
    exact live.registry
  · intro t fd io at_
    rw [samePc, sameEpoll] at at_
    exact mapped io (live.mapped t fd io at_)
  · intro t io isFresh p member ofEpoll
    rw [samePc] at isFresh
    exact live.unheard t io isFresh p (fewer p member) (ofEpoll.trans sameEpoll)
  · intro t io isFresh p member
    rw [samePc] at isFresh
    rcases events p member with old | isNew
    · exact live.unseen t io isFresh p old.1
    · exact live.unheard t io isFresh p isNew.1 isNew.2
  · intro p member ofEpoll
    have old := live.backed p (fewer p member) (ofEpoll.trans sameEpoll)
    refine ⟨heard _ old.heard, ?_, isOpen p member (ofEpoll.trans sameEpoll) old.isOpen⟩
    rw [sameMemory]
    exact old.cell
  · intro p member
    rw [sameMemory]
    rcases events p member with old | isNew
    · obtain ⟨stable, made⟩ := live.batch p old.1
      refine ⟨?_, made⟩
      cases stable with
      | mapped member => exact .mapped (mapped _ member)
      | @taken t at_ => exact .taken (t := t) (by rw [samePc]; exact at_)
      | parked member => exact .parked (old.2 member)
    · have backed := live.backed p isNew.1 isNew.2
      exact ⟨(heard _ backed.heard).stable, congrArg Cell.made backed.cell⟩

/-- A step of thread `t` that makes no `ScheduledIO` and no registration.  What it takes
out of the map it goes on with, unless nobody has heard of it. -/
theorem Live.goto {r : State T} (base : Base s) (live : Live s) (samePc : r.pc = s.pc)
    (samePoller : r.poller = s.poller) (sameEpoll : r.epoll = s.epoll)
    (sameRegistry : r.registry = s.registry) (sameMemory : r.memory = s.memory)
    (sameOpened : r.kernel.opened = s.kernel.opened)
    (fewer : ∀ p ∈ r.kernel.polled, p ∈ s.kernel.polled)
    (mapped : ∀ io, (.registrations, io) ∈ s.arcs →
      (.registrations, io) ∈ r.arcs ∨ pc = .removed io ∧ (s.pc t).address = some io ∨
        (s.pc t).fresh = some io)
    (removed : ∀ io, s.pc t = .removed io →
      ∀ p ∈ r.kernel.polled, p.epoll = s.epoll → Backed s p → p.token ≠ io)
    (taken : ∀ io, (s.pc t).taken = some io → pc.taken = some io ∨ (.pending, io) ∈ r.arcs)
    (parked : ∀ io, (.pending, io) ∈ s.arcs → (.pending, io) ∈ r.arcs)
    (noneNew : ∀ io, pc.fresh = some io → (s.pc t).fresh = some io)
    (notInserted : ∀ epoll fd io, pc ≠ .inserted epoll fd io) : Live (r.goto t pc) := by
  have sameEvents : (r.goto t pc).events = s.events := by
    show (match r.poller with | .dispatching events => events | _ => []) = _
    rw [samePoller]
    rfl
  have here : (r.goto t pc).pc t = pc := Function.update_self ..
  have there : ∀ u, u ≠ t → (r.goto t pc).pc u = s.pc u := by
    intro u other
    exact (Function.update_of_ne other ..).trans (congrFun samePc u)
  have isFresh : ∀ u io, ((r.goto t pc).pc u).fresh = some io → (s.pc u).fresh = some io := by
    intro u io isFresh
    by_cases same : u = t
    · subst same
      rw [here] at isFresh
      exact noneNew io isFresh
    · rw [there u same] at isFresh
      exact isFresh
  refine ⟨?_, ?_, ?_, ?_, ?_, ?_⟩
  · show r.registry = some r.epoll
    rw [sameRegistry, sameEpoll]
    exact live.registry
  · intro u fd io at_
    have at_ : (r.goto t pc).pc u = .inserted s.epoll fd io := sameEpoll ▸ at_
    by_cases same : u = t
    · subst same
      exact absurd (here.symm.trans at_) (notInserted _ _ _)
    · rw [there u same] at at_
      have mine : (s.pc u).fresh = some io := by rw [at_]; rfl
      rcases mapped io (live.mapped u fd io at_) with kept | moved | own
      · exact kept
      · exact absurd (base.apart mine moved.2).symm same
      · exact absurd (base.apart mine (Pc.address_of_fresh own)).symm same
  · intro u io new p member ofEpoll
    exact live.unheard u io (isFresh u io new) p (fewer p member)
      (ofEpoll.trans sameEpoll)
  · intro u io new p member
    rw [sameEvents] at member
    exact live.unseen u io (isFresh u io new) p member
  · intro p member ofEpoll
    have ofEpoll : p.epoll = s.epoll := ofEpoll.trans sameEpoll
    have old := live.backed p (fewer p member) ofEpoll
    refine ⟨?_, ?_, ?_⟩
    · refine old.heard.goto samePc ?_ ?_
      · intro inMap
        rcases mapped _ inMap with kept | moved | own
        · exact .inl kept
        · exact .inr moved.1
        · exact absurd rfl (live.unheard t _ own p (fewer p member) ofEpoll)
      · intro at_
        exact absurd rfl (removed _ at_ p member ofEpoll old)
    · show r.memory p.token = _
      rw [sameMemory]
      exact old.cell
    · show r.kernel.opened p.fd = _
      rw [sameOpened]
      exact old.isOpen
  · intro p member
    rw [sameEvents] at member
    obtain ⟨stable, made⟩ := live.batch p member
    refine ⟨stable.goto samePc ?_ (taken p.token) (parked p.token), ?_⟩
    · intro inMap
      rcases mapped _ inMap with kept | moved | own
      · exact .inl kept
      · exact .inr (by rw [moved.1]; rfl)
      · exact absurd rfl (live.unseen t _ own p member)
    · show (r.memory p.token).made = _
      rw [sameMemory]
      exact made

/-! ## The steps of the running instance -/

/-- `registry.deregister` leaves no registration of the fd as it is open now. -/
theorem deregister_gone {epoll : Epoll} (isOpen : k.opened fd = some file)
    (member : p ∈ (k.deregister epoll fd).polled) :
    ¬(p.epoll = epoll ∧ p.fd = fd ∧ p.file = file) := by
  rw [Kernel.deregister, isOpen] at member
  simpa only [decide_eq_true_eq] using (List.mem_filter.mp member).2

theorem live_registered {epoll : Epoll} (base : Base s) (live : Live s)
    (at_ : s.pc t = .inserted epoll fd io)
    (accepted : s.kernel.register epoll fd io (s.memory io).made = some k) :
    Live ({ s with kernel := k, arcs := s.arcs.give (.call t) .object io }.goto t .idle) := by
  obtain ⟨sameOpened, file, isOpen, polled⟩ := register_polled accepted
  have mine : (s.pc t).fresh = some io := by rw [at_]; rfl
  let r : State T := { s with arcs := s.arcs.give (.call t) .object io }
  have inMap : ∀ x, (.registrations, x) ∈ s.arcs → (.registrations, x) ∈ r.arcs := by
    intro x member
    exact Refs.mem_give member (.inl fun same => nomatch same)
  -- all but the new registration is as after a step that makes none
  have rest : Live (r.goto t .idle) := by
    refine Live.goto (r := r) base live rfl rfl rfl rfl rfl rfl (fun _ member => member) ?_ ?_ ?_ ?_
      (fun _ no => nomatch no) (fun _ _ _ no => nomatch no)
    · exact fun x member => .inl (inMap x member)
    · intro x no
      rw [at_] at no
      cases no
    · intro x no
      rw [at_] at no
      cases no
    · exact fun x member => Refs.mem_give member (.inl fun same => nomatch same)
  have fd_ : (s.memory io).fd = fd := base.cells t epoll fd io at_
  refine ⟨rest.registry, rest.mapped, ?_, rest.unseen, ?_, ?_⟩
  · intro u x isFresh p member ofEpoll
    have isFresh : (Function.update s.pc t .idle u).fresh = some x := isFresh
    rcases List.mem_cons.mp (polled ▸ member) with rfl | old
    · rintro rfl
      by_cases same : u = t
      · rw [same, Function.update_self] at isFresh
        cases isFresh
      · rw [Function.update_of_ne same] at isFresh
        exact same (base.apart isFresh (Pc.address_of_fresh mine)).symm
    · exact rest.unheard u x isFresh p old ofEpoll
  · intro p member ofEpoll
    rcases List.mem_cons.mp (polled ▸ member) with rfl | old
    · have ofEpoll : epoll = s.epoll := ofEpoll
      subst ofEpoll
      refine ⟨.mapped (inMap io (live.mapped t fd io at_)), ?_, ?_⟩
      · show s.memory io = ⟨fd, (s.memory io).made⟩
        rw [← fd_]
      · show k.opened fd = some file
        rw [sameOpened]
        exact isOpen
    · have before := rest.backed p old ofEpoll
      refine ⟨before.heard.congr rfl rfl, before.cell, ?_⟩
      show k.opened p.fd = some p.file
      rw [sameOpened]
      exact before.isOpen
  · intro p member
    obtain ⟨stable, made⟩ := rest.batch p member
    exact ⟨stable.congr rfl rfl, made⟩

theorem live_threadMove (base : Base s) (live : Live s) (moves : ThreadMove s t s') : Live s' := by
  cases moves with
  | registered at_ accepted => exact live_registered base live at_ accepted
  | @refused epoll fd io at_ =>
      refine live.goto base rfl rfl rfl rfl rfl rfl (fun _ member => member)
        (fun _ member => .inl member) ?_ ?_ (fun _ member => member) ?_ (fun _ _ _ no => nomatch no)
      · rw [at_]
        exact fun _ no => nomatch no
      · rw [at_]
        exact fun _ no => nomatch no
      · rw [at_]
        exact fun _ same => same
  | @withdrawn io at_ =>
      refine Live.goto base live rfl rfl rfl rfl rfl rfl (fun _ member => member) ?_ ?_ ?_ ?_
        (fun _ no => nomatch no) (fun _ _ _ no => nomatch no)
      · intro x member
        by_cases same : x = io
        · subst same
          exact .inr (.inr (by rw [at_]; rfl))
        · refine .inl (Refs.mem_drop (Refs.mem_give member (.inr same)) (.inl ?_))
          exact fun no => nomatch no
      · rw [at_]
        exact fun _ no => nomatch no
      · rw [at_]
        exact fun _ no => nomatch no
      · intro x member
        refine Refs.mem_drop (Refs.mem_give member (.inl ?_)) (.inl ?_)
        · exact fun no => nomatch no
        · exact fun no => nomatch no
  | @removed io at_ mapped =>
      refine Live.goto base live rfl rfl rfl rfl rfl rfl (fun _ member => member) ?_ ?_ ?_ ?_
        (fun _ no => nomatch no) (fun _ _ _ no => nomatch no)
      · intro x member
        by_cases same : x = io
        · subst same
          exact .inr (.inl ⟨rfl, by rw [at_]; rfl⟩)
        · exact .inl (Refs.mem_give member (.inr same))
      · rw [at_]
        exact fun _ no => nomatch no
      · rw [at_]
        exact fun _ no => nomatch no
      · exact fun x member => Refs.mem_give member (.inl fun no => nomatch no)
  | @absent io at_ =>
      refine Live.goto base live rfl rfl rfl rfl rfl rfl (fun _ member => member) ?_ ?_ ?_ ?_
        (fun _ no => nomatch no) (fun _ _ _ no => nomatch no)
      · exact fun x member => .inl (Refs.mem_drop member (.inl fun no => nomatch no))
      · rw [at_]
        exact fun _ no => nomatch no
      · rw [at_]
        exact fun _ no => nomatch no
      · exact fun x member => Refs.mem_drop member (.inl fun no => nomatch no)
  | @deregistered io at_ =>
      have running : s.deregisterFd (s.memory io).fd =
          { s with kernel := s.kernel.deregister s.epoll (s.memory io).fd } := by
        rw [State.deregisterFd, live.registry]
      rw [running]
      have sameOpened :
          (s.kernel.deregister s.epoll (s.memory io).fd).opened = s.kernel.opened := by
        unfold Kernel.deregister
        split <;> rfl
      refine Live.goto base live rfl rfl rfl rfl rfl sameOpened
        (fun _ member => deregister_polled member) (fun _ member => .inl member) ?_ ?_
        (fun _ member => member) (fun _ no => nomatch no) (fun _ _ _ no => nomatch no)
      · intro x isAt p member ofEpoll backed sameToken
        -- its registration is the one that is deleted here
        have isIo : x = io := by
          rw [at_] at isAt
          exact (Pc.removed.inj isAt).symm
        have fd_ : (s.memory io).fd = p.fd := by
          rw [← isIo, ← sameToken, backed.cell]
        refine deregister_gone ?_ member ⟨ofEpoll, fd_.symm, rfl⟩
        rw [fd_]
        exact backed.isOpen
      · rw [at_]
        exact fun x same => .inl same
  | @shut io at_ =>
      refine live.goto base rfl rfl rfl rfl rfl rfl (fun _ member => member)
        (fun _ member => .inl member) ?_ ?_ (fun _ member => member) (fun _ no => nomatch no)
        (fun _ _ _ no => nomatch no)
      · rw [at_]
        exact fun _ no => nomatch no
      · rw [at_]
        exact fun x same => .inl same
  | @parked io at_ =>
      refine Live.goto base live rfl rfl rfl rfl rfl rfl (fun _ member => member)
        (fun _ member => .inl (List.mem_cons_of_mem _ member)) ?_ ?_
        (fun _ member => List.mem_cons_of_mem _ member) (fun _ no => nomatch no)
        (fun _ _ _ no => nomatch no)
      · rw [at_]
        exact fun _ no => nomatch no
      · rw [at_]
        rintro x ⟨⟩
        exact .inr List.mem_cons_self
  | @announced io at_ =>
      refine Live.goto base live rfl rfl rfl rfl rfl rfl (fun _ member => member) ?_ ?_ ?_ ?_
        (fun _ no => nomatch no) (fun _ _ _ no => nomatch no)
      · exact fun x member => .inl (Refs.mem_drop member (.inl fun no => nomatch no))
      · rw [at_]
        exact fun _ no => nomatch no
      · rw [at_]
        exact fun _ no => nomatch no
      · exact fun x member => Refs.mem_drop member (.inl fun no => nomatch no)

theorem live_inserts {epoll : Epoll} (base : Base s) (live : Live s)
    (at_ : s.pc t = .registering epoll fd) (free : s.arcs.strong io = 0) :
    Live
      ({ s with
        clock := s.clock + 1
        memory := Function.update s.memory io ⟨fd, s.clock⟩
        arcs := (.registrations, io) :: (.call t, io) :: s.arcs }.goto t
          (.inserted epoll fd io)) := by
  have unheld := Refs.not_held_of_strong free
  have kept : ∀ {reference}, reference ∈ s.arcs →
      reference ∈ (.registrations, io) :: (.call t, io) :: s.arcs :=
    fun member => List.mem_cons_of_mem _ (List.mem_cons_of_mem _ member)
  -- nobody has a token with the address that is given out
  have heardOther : ∀ p ∈ s.kernel.polled, p.epoll = s.epoll → p.token ≠ io := by
    rintro p member ofEpoll rfl
    exact unheld ((live.backed p member ofEpoll).heard.stable.held base)
  have seenOther : ∀ p ∈ s.events, p.token ≠ io := by
    rintro p member rfl
    exact unheld ((live.batch p member).1.held base)
  refine ⟨live.registry, ?_, ?_, ?_, ?_, ?_⟩
  · intro u f x at_
    have at_ : Function.update s.pc t (.inserted epoll fd io) u = .inserted s.epoll f x := at_
    by_cases same : u = t
    · rw [same, Function.update_self] at at_
      cases at_
      exact List.mem_cons_self
    · rw [Function.update_of_ne same] at at_
      exact kept (live.mapped u f x at_)
  · intro u x isFresh p member ofEpoll
    have isFresh : (Function.update s.pc t (.inserted epoll fd io) u).fresh = some x := isFresh
    by_cases same : u = t
    · rw [same, Function.update_self] at isFresh
      cases isFresh
      exact heardOther p member ofEpoll
    · rw [Function.update_of_ne same] at isFresh
      exact live.unheard u x isFresh p member ofEpoll
  · intro u x isFresh p member
    have isFresh : (Function.update s.pc t (.inserted epoll fd io) u).fresh = some x := isFresh
    by_cases same : u = t
    · rw [same, Function.update_self] at isFresh
      cases isFresh
      exact seenOther p member
    · rw [Function.update_of_ne same] at isFresh
      exact live.unseen u x isFresh p member
  · intro p member ofEpoll
    obtain ⟨heard, cell, isOpen⟩ := live.backed p member ofEpoll
    refine ⟨heard.goto rfl (fun inMap => .inl (kept inMap)) ?_, ?_, isOpen⟩
    · rw [at_]
      exact fun no => nomatch no
    · exact (Function.update_of_ne (heardOther p member ofEpoll) ..).trans cell
  · intro p member
    obtain ⟨stable, made⟩ := live.batch p member
    refine ⟨stable.goto rfl (fun inMap => .inl (kept inMap)) ?_ kept, ?_⟩
    · rw [at_]
      exact fun no => nomatch no
    · exact (congrArg Cell.made (Function.update_of_ne (seenOther p member) ..)).trans made

theorem live_pollerMove (live : Live s) (moves : PollerMove s s')
    (stillPolling : s'.poller.polling = true) : Live s' := by
  cases moves with
  | swaps | skips | returns =>
      exact live.same rfl rfl rfl rfl (fun _ member => member) (fun _ _ _ isOpen => isOpen)
        (fun _ member => member) (fun _ no => nomatch no)
  | releases at_ =>
      refine live.same rfl rfl rfl rfl (fun _ member => member) (fun _ _ _ isOpen => isOpen) ?_
        (fun _ no => nomatch no)
      exact fun x member => Refs.mem_dropAll.mpr ⟨member, fun same => nomatch same⟩
  | @handles event events at_ =>
      refine live.same rfl rfl rfl rfl (fun _ member => member) (fun _ _ _ isOpen => isOpen)
        (fun _ member => member) ?_
      intro p member
      refine .inl ⟨?_, fun parked => parked⟩
      have before : s.events = event :: events := by rw [State.events, at_]
      rw [before]
      exact List.mem_cons_of_mem _ member
  | cleans | clears | lowers | empties | leaves => cases stillPolling

omit [DecidableEq T] in
/-- Under the guard, closing a descriptor leaves the registrations of the running
instance with their files. -/
theorem live_closed (live : Live s) (isOpen : s.kernel.opened fd = some file)
    (allowed : Unshared s (.closeFd fd)) :
    Live { s with kernel := s.kernel.closeFd fd file } := by
  refine live.same rfl rfl rfl rfl (fun p member => closeFd_polled member) ?_
    (fun _ member => member) (fun p member => .inl ⟨member, fun parked => parked⟩)
  intro p member ofEpoll before
  have notFd : p.fd ≠ fd := by
    rintro rfl
    have isFile : file = p.file := Option.some.inj (isOpen.symm.trans before)
    rcases allowed file isOpen with last | noneThere
    · simp only [Kernel.closeFd, if_pos last] at member
      exact of_decide_eq_true (List.mem_filter.mp member).2 isFile.symm
    · exact noneThere p (closeFd_polled member) ofEpoll ⟨rfl, isFile.symm⟩
  exact (Function.update_of_ne notFd ..).trans before

omit [DecidableEq T] in
/-- A free number is nobody's registration. -/
theorem live_openFd (live : Live s) (free : s.kernel.opened fd = none) :
    Live { s with kernel := s.kernel.openFd fd file } := by
  refine live.same rfl rfl rfl rfl (fun _ member => member) ?_ (fun _ member => member)
    (fun p member => .inl ⟨member, fun parked => parked⟩)
  intro p member ofEpoll before
  have notFd : p.fd ≠ fd := by
    rintro rfl
    rw [free] at before
    cases before
  exact (Function.update_of_ne notFd ..).trans before

omit [DecidableEq T] in
theorem live_runs (base : Base s) :
    Live
      { s with
        clock := s.clock + 1
        registry := some s.clock
        epoll := s.clock
        poller := .top } := by
  have noneOf : ∀ p ∈ s.kernel.polled, p.epoll ≠ s.clock :=
    fun p member => Nat.ne_of_lt (base.polled p member)
  refine ⟨rfl, ?_, ?_, (fun _ _ _ _ no => nomatch no), ?_, (fun _ no => nomatch no)⟩
  · intro t f x at_
    have old := base.epochs t s.clock (by rw [at_]; rfl)
    exact absurd old (Nat.lt_irrefl _)
  · exact fun _ _ _ p member ofEpoll => absurd ofEpoll (noneOf p member)
  · exact fun p member ofEpoll => absurd ofEpoll (noneOf p member)

theorem live_move (base : Base s) (live : s.poller.polling = true → Live s)
    (allowed : Unshared s a) (moves : Move s a s') (stillPolling : s'.poller.polling = true) :
    Live s' := by
  cases moves with
  | opened free => exact live_openFd (live stillPolling) free
  | copied isOpen free => exact live_openFd (live stillPolling) free
  | closed isOpen => exact live_closed (live stillPolling) isOpen allowed
  | begins at_ running =>
      refine Live.goto base (live stillPolling) rfl rfl rfl rfl rfl rfl (fun _ member => member)
        (fun _ member => .inl member) ?_ ?_ (fun _ member => member) (fun _ no => nomatch no)
        (fun _ _ _ no => nomatch no)
      · rw [at_]
        exact fun _ no => nomatch no
      · rw [at_]
        exact fun _ no => nomatch no
  | inserts at_ free => exact live_inserts base (live stillPolling) at_ free
  | closes at_ owned =>
      refine Live.goto base (live stillPolling) rfl rfl rfl rfl rfl rfl (fun _ member => member)
        (fun _ member => .inl (List.mem_cons_of_mem _ member)) ?_ ?_
        (fun _ member => List.mem_cons_of_mem _ member) (fun _ no => nomatch no)
        (fun _ _ _ no => nomatch no)
      · rw [at_]
        exact fun _ no => nomatch no
      · rw [at_]
        exact fun _ no => nomatch no
  | thread moves =>
      have samePoller : s'.poller = s.poller := by
        cases moves with
        | deregistered =>
            show (s.deregisterFd _).poller = _
            unfold State.deregisterFd
            split <;> rfl
        | _ => rfl
      exact live_threadMove base (live (samePoller ▸ stillPolling)) moves
  | dropped | collected =>
      refine (live stillPolling).same rfl rfl rfl rfl (fun _ member => member)
        (fun _ _ _ isOpen => isOpen) ?_ ?_
      · exact fun x member => Refs.mem_drop member (.inl fun same => nomatch same)
      · intro p member
        refine .inl ⟨member, ?_⟩
        exact fun parked => Refs.mem_drop parked (.inl fun same => nomatch same)
  | runs at_ => exact live_runs base
  | polled at_ ready =>
      have polling : s.poller.polling = true := by rw [at_]; rfl
      exact (live polling).same rfl rfl rfl rfl (fun _ member => member)
        (fun _ _ _ isOpen => isOpen)
        (fun _ member => member) (fun p member => .inr (ready p member))
  | stops at_ => cases stillPolling
  | poller moves =>
      by_cases polling : s.poller.polling = true
      · exact live_pollerMove (live polling) moves stillPolling
      · cases moves with
        | swaps at_ | skips at_ | releases at_ | returns at_ | handles at_ =>
            rw [at_] at polling
            exact absurd rfl polling
        | cleans | clears | lowers | empties | leaves => cases stillPolling

theorem sound (reached : (machine T).Reach Unshared s) :
    Base s ∧ (s.poller.polling = true → Live s) := by
  refine reached.invariant (fun s => Base s ∧ (s.poller.polling = true → Live s)) ?_ ?_
  · rintro s rfl
    exact ⟨base_fresh, fun no => nomatch no⟩
  · rintro s a s' ⟨base, live⟩ allowed taken
    have moves := move_of_step taken
    exact ⟨base_move base moves, live_move base live allowed moves⟩

/-- Every token that the poll thread has still to follow is the address of a live
`ScheduledIO`, and of the one that was registered with it, although addresses are given
out again; and what `io_register` and `io_deregister` work on is alive. -/
theorem token_valid (reached : (machine T).Reach Unshared s) :
    (∀ events, s.poller = .dispatching events → ∀ p ∈ events,
      0 < s.arcs.strong p.token ∧ (s.memory p.token).made = p.made) ∧
    ∀ t io, (s.pc t).address = some io → 0 < s.arcs.strong io := by
  obtain ⟨base, live⟩ := sound reached
  constructor
  · intro events at_ p member
    have polling : s.poller.polling = true := by rw [at_]; rfl
    have isEvent : p ∈ s.events := by
      rw [State.events, at_]
      exact member
    obtain ⟨stable, made⟩ := (live polling).batch p isEvent
    exact ⟨Refs.strong_pos_iff.mpr (stable.held base), made⟩
  · intro t io works
    exact Refs.strong_pos_iff.mpr ⟨.call t, base.calls t io works⟩

/-- A registration is closed by one thread while its event is handled. -/
def closingRun : List (Act Nat) :=
  [.openFd 5 70, .run, .register 0 5, .insert 0 100, .thread 0, .poller,
    .poll [⟨1, 5, 70, 100, 2⟩], .close 1 100, .thread 1, .thread 1, .dropObject 100,
    .collect 100, .thread 1, .thread 1, .thread 1]

/-- No descriptor is closed. -/
def keepsOpen (_ : State Nat) : Act Nat → Bool
  | .closeFd _ => false
  | _ => true

theorem keepsOpen_sound (s : State Nat) (a : Act Nat) (allowed : keepsOpen s a = true) :
    Unshared s a := by
  cases a with
  | closeFd fd => cases allowed
  | _ => trivial

theorem closingRun_ends :
    ((machine Nat).execIf keepsOpen (fresh Nat) closingRun).any
      (fun s => decide (s.poller = .dispatching [⟨1, 5, 70, 100, 2⟩] ∧ s.kernel.polled = [])) =
        true := by
  decide +kernel

theorem token_valid_closing :
    ∃ s : State Nat, s.poller = .dispatching [⟨1, 5, 70, 100, 2⟩] ∧
      s.kernel.polled = [] ∧ 0 < s.arcs.strong 100 ∧ (s.memory 100).made = 2 := by
  obtain ⟨s, reached, ends⟩ := Machine.Reach.exists_of_execIf keepsOpen_sound rfl closingRun_ends
  obtain ⟨at_, gone⟩ := of_decide_eq_true ends
  obtain ⟨alive, made⟩ := (token_valid reached).1 _ at_ _ List.mem_cons_self
  exact ⟨s, at_, gone, alive, made⟩

/-- Without the guard a token can dangle: an fd that has a duplicate is closed before
its registration, which `registry.deregister` does not find any more. -/
def duplicatedRun : List (Act Nat) :=
  [.openFd 5 70, .run, .register 0 5, .insert 0 100, .thread 0, .dupFd 5 6, .closeFd 5,
    .close 0 100, .thread 0, .thread 0, .thread 0, .thread 0, .thread 0, .dropObject 100,
    .collect 100, .poller, .poller, .poll [⟨1, 5, 70, 100, 2⟩]]

theorem duplicatedRun_ends :
    ((machine Nat).exec (fresh Nat) duplicatedRun).any
      (fun s => decide (s.poller = .dispatching [⟨1, 5, 70, 100, 2⟩] ∧ s.arcs.strong 100 = 0)) =
        true := by
  decide +kernel

theorem token_dangles :
    ∃ s : State Nat, (machine Nat).Reachable s ∧
      s.poller = .dispatching [⟨1, 5, 70, 100, 2⟩] ∧ s.arcs.strong 100 = 0 := by
  obtain ⟨s, reached, ends⟩ := Machine.Reachable.exists_of_exec rfl duplicatedRun_ends
  exact ⟨s, reached, of_decide_eq_true ends⟩

end MtAsyncio.IoTokens
