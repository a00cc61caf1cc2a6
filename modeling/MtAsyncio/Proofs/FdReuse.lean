/-
Module: MtAsyncio.Proofs.FdReuse
Purpose: A registration is not handed out for a recycled fd as long as
  `_add_fd_callback` meets only registrations that nobody owns or that the
  socket now open on the fd owns, which is the test that `_sio` makes and
  `_add_fd_callback` does not.
Trusted boundary: none
Main exports: owned, RegCore, FdOk, Tracked, tracked_step,
  registration_is_live, recycled_fd_gets_dead_registration
-/
import MtAsyncio.Model.FdRegistry

namespace MtAsyncio.FdRegistry

open Lib (Machine)

variable {C : Type} {s s' : State C} {fd : Fd}

/-! ## The invariant -/

/-- What `_add_fd_callback` relies on and does not test: the registration it
finds is not one that another socket owns. -/
def owned (s : State C) : Act C → Bool
  | .addFdCallback fd _ _ =>
      match s.sios fd, s.opened fd with
      | some reg, some sock => reg.owner = none || reg.owner = some sock
      | _, _ => true
  | _ => true

/-- A registration against the socket that is open on its fd and what the poller
has for it. -/
structure RegCore (clock : Stamp) (socket polled : Option Stamp) (reg : FdIo C) : Prop where
  pinned : reg.pinned = true → reg.owner ≠ none
  past : ∀ owner, reg.owner = some owner → owner < clock
  live : ∀ sock, socket = some sock → reg.owner = none ∨ reg.owner = some sock →
    sock < reg.sio ∧ polled = some reg.sio
  orphan : socket = none → reg.owner ≠ none

/-- An unpinned registration is there for a reader or a writer. -/
def Held (reg : FdIo C) : Prop :=
  reg.pinned = false → reg.reader.isSome = true ∨ reg.writer.isSome = true

structure FdOk (clock : Stamp) (socket polled : Option Stamp) (reg : Option (FdIo C)) : Prop where
  past : ∀ sock, socket = some sock → sock < clock
  known : ∀ sio, polled = some sio → ∃ r, reg = some r
  core : ∀ r, reg = some r → RegCore clock socket polled r
  held : ∀ r, reg = some r → Held r

structure Tracked (s : State C) : Prop where
  fds : ∀ fd, FdOk s.clock (s.opened fd) (s.poller fd) (s.sios fd)
  handed : ∀ h ∈ s.handed, h.opened < h.created ∧ h.polled = true

theorem RegCore.later {clock later : Stamp} {socket polled : Option Stamp} {reg : FdIo C}
    (core : RegCore clock socket polled reg) (le : clock ≤ later) :
    RegCore later socket polled reg :=
  { core with past := fun owner is => Nat.lt_of_lt_of_le (core.past owner is) le }

theorem FdOk.later {clock later : Stamp} {socket polled : Option Stamp} {reg : Option (FdIo C)}
    (ok : FdOk clock socket polled reg) (le : clock ≤ later) : FdOk later socket polled reg :=
  { ok with
    past := fun sock is => Nat.lt_of_lt_of_le (ok.past sock is) le
    core := fun r is => (ok.core r is).later le }

/-- Only `fd` has changed, and time has gone on. -/
structure Elsewhere (s s' : State C) (fd : Fd) : Prop where
  clock : s.clock ≤ s'.clock
  opened : ∀ other, other ≠ fd → s'.opened other = s.opened other
  poller : ∀ other, other ≠ fd → s'.poller other = s.poller other
  sios : ∀ other, other ≠ fd → s'.sios other = s.sios other

theorem Tracked.change (tracked : Tracked s) (fd : Fd) (elsewhere : Elsewhere s s' fd)
    (here : FdOk s'.clock (s'.opened fd) (s'.poller fd) (s'.sios fd))
    (handed : ∀ h ∈ s'.handed, h ∈ s.handed ∨ h.opened < h.created ∧ h.polled = true) :
    Tracked s' where
  fds := by
    intro other
    by_cases same : other = fd
    · exact same ▸ here
    · rw [elsewhere.opened other same, elsewhere.poller other same, elsewhere.sios other same]
      exact (tracked.fds other).later elsewhere.clock
  handed := by
    intro h member
    rcases handed h member with before | now
    · exact tracked.handed h before
    · exact now

/-! ## The operations -/

theorem tracked_forget (tracked : Tracked s) : Tracked (ioDeregister (setReg s fd none) fd) := by
  refine tracked.change fd ⟨Nat.le_refl _, fun _ _ => rfl, ?_, ?_⟩ ?_ fun _ => .inl
  · intro other apart
    simp [ioDeregister, setReg, apart]
  · intro other apart
    simp [ioDeregister, setReg, apart]
  · have here := tracked.fds fd
    refine ⟨here.past, ?_, ?_, ?_⟩ <;> simp [ioDeregister, setReg]

theorem tracked_dropRegistration (tracked : Tracked s) : Tracked (dropRegistration s fd) := by
  unfold dropRegistration
  split
  · exact tracked
  · exact tracked_forget tracked

/-- What `_registration` returns, and all that it changes: it was there before,
or it is a new one that nobody owns. -/
structure Registered (s s' : State C) (fd : Fd) (reg : FdIo C) : Prop where
  elsewhere : Elsewhere s s' fd
  opened : s'.opened = s.opened
  handed : s'.handed = s.handed
  core : RegCore s'.clock (s'.opened fd) (s'.poller fd) reg
  origin : s.sios fd = some reg ∨ reg = { sio := s.clock }

theorem registered_of_registration (tracked : Tracked s) {reg : FdIo C}
    (made : registration s fd = some (s', reg)) : Registered s s' fd reg := by
  unfold registration at made
  cases found : s.sios fd with
  | some old =>
      simp only [found, Option.some.injEq, Prod.mk.injEq] at made
      obtain ⟨rfl, rfl⟩ := made
      exact ⟨⟨Nat.le_refl _, fun _ _ => rfl, fun _ _ => rfl, fun _ _ => rfl⟩, rfl, rfl,
        (tracked.fds fd).core old found, .inl found⟩
  | none =>
      simp only [found, Option.map_eq_some_iff, Prod.mk.injEq, ioRegister] at made
      obtain ⟨⟨polled, sio⟩, registered, rfl, rfl⟩ := made
      split at registered
      · cases registered
      · rename_i accepted
        rw [not_or] at accepted
        obtain ⟨sock, isOpen⟩ := Option.ne_none_iff_exists'.mp accepted.1
        simp only [Option.some.injEq, Prod.mk.injEq] at registered
        obtain ⟨rfl, rfl⟩ := registered
        refine ⟨⟨Nat.le_succ _, fun _ _ => rfl, ?_, ?_⟩, rfl, rfl, ?_, .inr rfl⟩
        · intro other apart
          simp [setReg, apart]
        · intro other apart
          simp [setReg, apart]
        · refine ⟨by simp, by simp, ?_, ?_⟩
          · intro other isOther _
            refine ⟨(tracked.fds fd).past other isOther, by simp [setReg]⟩
          · intro closed
            exact absurd (isOpen.symm.trans closed) (by simp)

/-- Handing out the registration `reg'` that replaces the one registered. -/
theorem tracked_handOut (tracked : Tracked s) {reg reg' : FdIo C}
    (registered : Registered s s' fd reg)
    (core : RegCore s'.clock (s'.opened fd) (s'.poller fd) reg') (held : Held reg')
    (mine : ∀ sock, s.opened fd = some sock → reg'.owner = none ∨ reg'.owner = some sock) :
    Tracked (handOut (setReg s' fd (some reg')) fd reg') := by
  have here := tracked.fds fd
  have changed : Tracked (setReg s' fd (some reg')) := by
    refine tracked.change fd ⟨registered.elsewhere.clock, ?_, ?_, ?_⟩ ?_ ?_
    · intro other _
      exact congrFun registered.opened other
    · exact registered.elsewhere.poller
    · intro other apart
      simpa [setReg, apart] using registered.elsewhere.sios other apart
    · refine ⟨?_, fun _ _ => ⟨reg', by simp [setReg]⟩, ?_, ?_⟩
      · intro sock isOpen
        have before : s.opened fd = some sock := by rw [← registered.opened]; exact isOpen
        exact Nat.lt_of_lt_of_le (here.past sock before) registered.elsewhere.clock
      · intro r is
        have same : reg' = r := by simpa [setReg] using is
        exact same ▸ core
      · intro r is
        have same : reg' = r := by simpa [setReg] using is
        exact same ▸ held
    · intro h member
      exact .inl (registered.handed ▸ member)
  unfold handOut
  split
  · exact changed
  · rename_i sock isOpen
    refine ⟨changed.fds, ?_⟩
    intro h member
    rcases List.mem_cons.mp member with rfl | before
    · have before : s.opened fd = some sock := by rw [← registered.opened]; exact isOpen
      obtain ⟨later, polled⟩ := core.live sock isOpen (mine sock before)
      exact ⟨later, decide_eq_true polled⟩
    · exact changed.handed h before

theorem tracked_sio (tracked : Tracked s) {sock : Stamp} (isOpen : s.opened fd = some sock) :
    Tracked (sio s fd sock) := by
  have dropped : Tracked (dropForeign s fd sock) := by
    unfold dropForeign
    split
    · exact tracked
    · split
      · exact tracked_dropRegistration tracked
      · exact tracked
  have stillOpen : (dropForeign s fd sock).opened fd = some sock := by
    unfold dropForeign dropRegistration
    split
    · exact isOpen
    · split
      · split <;> exact isOpen
      · exact isOpen
  -- what is left of the cache is the socket's own or nobody's
  have mine : ∀ reg, (dropForeign s fd sock).sios fd = some reg →
      reg.owner = none ∨ reg.owner = some sock := by
    intro reg
    unfold dropForeign
    split
    · rename_i none_
      intro found
      rw [none_] at found
      cases found
    · rename_i old found
      split
      · intro after
        simp [dropRegistration, found, ioDeregister, setReg] at after
      · rename_i own
        intro after
        rw [found] at after
        cases after
        by_contra foreign
        exact own (not_or.mp foreign)
  unfold sio
  simp only
  split
  · exact dropped
  · rename_i s' reg made
    have registered := registered_of_registration dropped made
    have notForeign : reg.owner = none ∨ reg.owner = some sock := by
      rcases registered.origin with before | new
      · exact mine reg before
      · exact .inl (by rw [new])
    have openNow : s'.opened fd = some sock := by rw [registered.opened]; exact stillOpen
    refine tracked_handOut dropped registered ⟨by simp, ?_, ?_, by simp⟩ (by rintro ⟨⟩) ?_
    · intro owner is
      cases is
      exact Nat.lt_of_lt_of_le ((dropped.fds fd).past sock stillOpen)
        registered.elsewhere.clock
    · intro other isOther _
      rw [openNow] at isOther
      cases isOther
      exact registered.core.live sock openNow notForeign
    · intro other isOther
      rw [stillOpen] at isOther
      cases isOther
      exact .inr rfl

theorem setHandle_core {clock : Stamp} {socket polled : Option Stamp} {reg : FdIo C}
    (core : RegCore clock socket polled reg) (writer : Bool) (handle : Option (FdHandle C)) :
    RegCore clock socket polled (reg.setHandle writer handle) := by
  cases writer <;> exact ⟨core.pinned, core.past, core.live, core.orphan⟩

theorem tracked_addFdCallback (tracked : Tracked s) {writer : Bool} {callback : C}
    (allowed : owned s (.addFdCallback fd writer callback) = true) :
    Tracked (addFdCallback s fd writer callback) := by
  unfold addFdCallback
  split
  · exact tracked
  split
  · exact tracked
  · rename_i s' reg made
    have registered := registered_of_registration tracked made
    refine tracked_handOut tracked registered (setHandle_core registered.core _ _) ?_ ?_
    · intro _
      cases writer
      · exact .inl rfl
      · exact .inr rfl
    · intro sock isOpen
      have same : (reg.setHandle writer (some ⟨fd, reg.sio, writer, callback⟩)).owner =
          reg.owner := by cases writer <;> rfl
      rw [same]
      rcases registered.origin with before | new
      · simpa [owned, before, isOpen] using allowed
      · exact .inl (by rw [new])

theorem tracked_removeFdCallback (tracked : Tracked s) {writer : Bool} :
    Tracked (removeFdCallback s fd writer) := by
  unfold removeFdCallback
  split
  · exact tracked
  split
  · exact tracked
  rename_i reg found
  split
  · exact tracked
  have here := tracked.fds fd
  simp only
  split
  · have same : dropRegistration (setReg s fd (some (reg.setHandle writer none))) fd =
        ioDeregister (setReg s fd none) fd := by simp [dropRegistration, setReg]
    rw [same]
    exact tracked_forget tracked
  · rename_i kept
    refine tracked.change fd ⟨Nat.le_refl _, fun _ _ => rfl, fun _ _ => rfl, ?_⟩ ?_ fun _ => .inl
    · intro other apart
      simp [setReg, apart]
    · refine ⟨here.past, fun _ _ => ⟨reg.setHandle writer none, by simp [setReg]⟩, ?_, ?_⟩
      · intro r is
        have same : reg.setHandle writer none = r := by simpa [setReg] using is
        exact same ▸ setHandle_core (here.core reg found) writer none
      · intro r is
        have same : reg.setHandle writer none = r := by simpa [setReg] using is
        subst same
        intro unpinned
        by_contra bare
        rw [not_or] at bare
        exact kept ⟨by simpa using bare.1, by simpa using bare.2, unpinned⟩

theorem tracked_closeLoop (tracked : Tracked s) : Tracked (closeLoop s) := by
  unfold closeLoop
  split
  · exact tracked
  · refine ⟨fun fd => ⟨(tracked.fds fd).past, ?_, by simp, by simp⟩, tracked.handed⟩
    intro sio polled
    simp only at polled
    split at polled
    · cases polled
    · rename_i unknown
      obtain ⟨reg, found⟩ := (tracked.fds fd).known sio polled
      exact absurd (by rw [found]; rfl) unknown

/-- A new socket is younger than every registration and every owner. -/
theorem tracked_openSocket (tracked : Tracked s) (free : s.opened fd = none) :
    Tracked { s with
      clock := s.clock + 1
      opened := Function.update s.opened fd (some s.clock) } := by
  have here := tracked.fds fd
  refine tracked.change fd ⟨Nat.le_succ _, ?_, fun _ _ => rfl, fun _ _ => rfl⟩ ?_ fun _ => .inl
  · intro other apart
    simp [apart]
  · refine ⟨?_, here.known, ?_, here.held⟩
    · intro sock is
      have same : s.clock = sock := by simpa using is
      exact same ▸ Nat.lt_succ_self _
    · intro reg found
      have core := here.core reg found
      refine ⟨core.pinned, (core.later (Nat.le_succ _)).past, ?_, ?_⟩
      · intro sock is own
        have same : s.clock = sock := by simpa using is
        rcases own with unowned | own
        · exact absurd unowned (core.orphan free)
        · exact absurd (core.past sock own) (same ▸ Nat.lt_irrefl _)
      · intro closed
        simp at closed

/-- The kernel drops the closed fd; a registration that stays is pinned, so it
has an owner. -/
theorem tracked_closeSocket (tracked : Tracked s) (unwatched : unwatched s fd = true) :
    Tracked { s with
      opened := Function.update s.opened fd none
      poller := Function.update s.poller fd none } := by
  have here := tracked.fds fd
  refine tracked.change fd ⟨Nat.le_refl _, ?_, ?_, fun _ _ => rfl⟩ ?_ fun _ => .inl
  · intro other apart
    simp [apart]
  · intro other apart
    simp [apart]
  · refine ⟨by simp, by simp, ?_, here.held⟩
    intro reg found
    have core := here.core reg found
    refine ⟨core.pinned, core.past, by simp, fun _ => ?_⟩
    refine core.pinned ?_
    by_contra unpinned
    have handles := here.held reg found (by simpa using unpinned)
    rw [FdRegistry.unwatched, found] at unwatched
    simp only [Bool.and_eq_true, Option.isNone_iff_eq_none] at unwatched
    simp [unwatched.1, unwatched.2] at handles

theorem tracked_step {a : Act C} (tracked : Tracked s) (allowed : owned s a = true)
    (taken : step s a = some s') : Tracked s' := by
  cases a with
  | openSocket fd =>
      simp only [step] at taken
      split at taken
      · cases taken
      · rename_i free
        cases taken
        exact tracked_openSocket tracked (by simpa using free)
  | closeSocket fd =>
      simp only [step] at taken
      split at taken
      · rename_i closable
        cases taken
        exact tracked_closeSocket tracked closable.2
      · cases taken
  | sockCall fd =>
      simp only [step, Option.map_eq_some_iff] at taken
      obtain ⟨sock, isOpen, rfl⟩ := taken
      exact tracked_sio tracked isOpen
  | addFdCallback fd writer callback =>
      cases taken
      exact tracked_addFdCallback tracked allowed
  | removeFdCallback fd writer =>
      cases taken
      exact tracked_removeFdCallback tracked
  | releaseFd fd =>
      cases taken
      exact tracked_dropRegistration tracked
  | closeLoop =>
      cases taken
      exact tracked_closeLoop tracked

theorem tracked_fresh : Tracked (fresh : State C) :=
  ⟨fun _ => ⟨by rintro _ ⟨⟩, by rintro _ ⟨⟩, by rintro _ ⟨⟩, by rintro _ ⟨⟩⟩, by rintro _ ⟨⟩⟩

/-! ## Runs -/

/-- Every registration that was handed out for an open fd had been created after
that fd was opened last, and the poller had it. -/
theorem registration_is_live (reached : (machine C).Reach (fun s a => owned s a = true) s) :
    ∀ h ∈ s.handed, h.opened < h.created ∧ h.polled = true := by
  have tracked : Tracked s := by
    refine reached.invariant Tracked ?_ fun _ _ _ before allowed taken =>
      tracked_step before allowed taken
    rintro _ rfl
    exact tracked_fresh
  exact tracked.handed

/-- A connect on fd 3 fails and its socket is closed; the fd is recycled and the
new socket is first used by a helper, then watched by a transport. -/
def recycledThenCalled : List (Act Unit) :=
  [.openSocket 3, .sockCall 3, .closeSocket 3, .openSocket 3, .sockCall 3,
    .addFdCallback 3 false ()]

theorem recycledThenCalled_ends :
    ((machine Unit).execIf owned fresh recycledThenCalled).any (fun s =>
      s.handed.length = 3) = true := by
  decide +kernel

theorem registration_is_live_after_recycling :
    ∃ s : State Unit, s.handed.length = 3 ∧
      ∀ h ∈ s.handed, h.opened < h.created ∧ h.polled = true := by
  obtain ⟨s, reached, ends⟩ :=
    Machine.Reach.exists_of_execIf (fun _ _ => id) rfl recycledThenCalled_ends
  exact ⟨s, of_decide_eq_true ends, registration_is_live reached⟩

/-- A connect on fd 3 fails and its socket is closed; an accepted connection gets
the fd and its transport starts to watch it. -/
def recycledThenWatched : List (Act Unit) :=
  [.openSocket 3, .sockCall 3, .closeSocket 3, .openSocket 3, .addFdCallback 3 false ()]

theorem recycledThenWatched_ends :
    ((machine Unit).exec fresh recycledThenWatched).any (fun s =>
      s.opened 3 = some 2 ∧ ⟨3, 2, 1, false⟩ ∈ s.handed) = true := by
  decide +kernel

theorem recycled_fd_gets_dead_registration :
    ∃ s, (machine Unit).Reachable s ∧ s.opened 3 = some 2 ∧
      ⟨3, 2, 1, false⟩ ∈ s.handed ∧ ¬(2 : Stamp) < 1 := by
  obtain ⟨s, reached, ends⟩ := Machine.Reachable.exists_of_exec rfl recycledThenWatched_ends
  obtain ⟨isOpen, handed⟩ := of_decide_eq_true ends
  exact ⟨s, reached, isOpen, handed, by decide⟩

end MtAsyncio.FdRegistry
