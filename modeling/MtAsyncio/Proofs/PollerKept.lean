/-
Module: MtAsyncio.Proofs.PollerKept
Purpose: Whether the poller keeps the registrations of several loops: it does as long
  as no `io_deregister` finds another loop's registration under its fd, as with a
  single loop none does.
Trusted boundary: none
Main exports: KernelMove, kernel_move_of_step, Sound, Kept, Own, poller_kept,
  deregister_breaks, Listed, own_of_alone
-/
import MtAsyncio.Model.SharedPoller

namespace MtAsyncio.SharedPoller

open Lib (Machine)
open FdRegistry (Fd Stamp FdIo)

variable {L C : Type} [DecidableEq L] {s s' : State L C} {a : Act L C} {l l' : L}
variable {k k' : Kernel} {fd fd' : Fd} {token : Stamp} {e : Entry} {after : After C}

/-! ## What a step does to the kernel -/

inductive KernelMove (s : State L C) (a : Act L C) : Kernel → Prop where
  | same : KernelMove s a s.kernel
  | opens {fd : Fd} (free : s.kernel.opened fd = none) : KernelMove s a (s.kernel.openSocket fd)
  | closes {fd : Fd} : KernelMove s a (s.kernel.closeSocket fd)
  | registers {fd : Fd} {k : Kernel} {token : Stamp}
      (made : s.kernel.ioRegister fd = some (k, token)) : KernelMove s a k
  | removes {token : Stamp} : KernelMove s a (s.kernel.removeToken token)
  | deregisters {l : L} {fd : Fd} {after : After C} (isLoop : a = .loop l)
      (at_ : s.pc l = .deregistering fd after) : KernelMove s a (s.kernel.deregister fd)

theorem kernel_move_of_loopStep (taken : loopStep s l = some s') :
    KernelMove s (.loop l) s'.kernel := by
  unfold loopStep at taken
  split at taken
  · cases taken
  · split at taken
    · obtain rfl := Option.some.inj taken
      exact .same
    · split at taken <;> obtain rfl := Option.some.inj taken
      · exact .same
      · exact .removes
  · rename_i at_
    obtain rfl := Option.some.inj taken
    exact .deregisters rfl at_
  · split at taken
    · obtain rfl := Option.some.inj taken
      exact .same
    · split at taken <;> obtain rfl := Option.some.inj taken
      · exact .same
      · rename_i made
        exact .registers made
  · obtain rfl := Option.some.inj taken
    exact .same
  · obtain rfl := Option.some.inj taken
    exact .same

theorem removeFdCallback_kernel {writer : Bool} :
    (removeFdCallback s l fd writer).kernel = s.kernel := by
  unfold removeFdCallback
  split
  · rfl
  · split
    · rfl
    · dsimp only
      split <;> rfl

theorem kernel_move_of_step (taken : step s a = some s') : KernelMove s a s'.kernel := by
  cases a with
  | openSocket fd =>
      simp only [step] at taken
      split at taken
      · cases taken
      · rename_i free
        obtain rfl := Option.some.inj taken
        exact .opens (by simpa using free)
  | closeSocket fd =>
      simp only [step] at taken
      split at taken
      · obtain rfl := Option.some.inj taken
        exact .closes
      · cases taken
  | sockCall l fd =>
      simp only [step] at taken
      split at taken
      · split at taken <;> obtain rfl := Option.some.inj taken <;> exact .same
      · cases taken
  | addFdCallback l fd writer callback =>
      simp only [step] at taken
      split at taken
      · split at taken
        · cases taken
        · obtain rfl := Option.some.inj taken
          exact .same
      · cases taken
  | removeFdCallback l fd writer =>
      simp only [step] at taken
      split at taken
      · split at taken
        · cases taken
        · obtain rfl := Option.some.inj taken
          rw [removeFdCallback_kernel]
          exact .same
      · cases taken
  | releaseFd l fd =>
      simp only [step] at taken
      split at taken
      · obtain rfl := Option.some.inj taken
        exact .same
      · cases taken
  | close l =>
      simp only [step] at taken
      split at taken
      · split at taken
        · cases taken
        · obtain rfl := Option.some.inj taken
          exact .same
      · cases taken
  | loop l => exact kernel_move_of_loopStep taken

/-! ## The poller -/

/-- Every registration in the map that was made for a socket that is still open is
what the kernel polls its fd for. -/
def Kept (k : Kernel) : Prop :=
  ∀ token e, k.registrations token = some e → k.opened e.fd = some e.opened →
    k.poller e.fd = some token

/-- Stamps are of the past; an fd is polled while it is open, and for the socket it
was registered with. -/
structure Sound (k : Kernel) : Prop where
  entries : ∀ token e, k.registrations token = some e → token < k.clock ∧ e.opened < k.clock
  sockets : ∀ fd sock, k.opened fd = some sock → sock < k.clock
  closed : ∀ fd, k.opened fd = none → k.poller fd = none
  tokens : ∀ fd token, k.poller fd = some token → token < k.clock
  polled : ∀ fd token e, k.poller fd = some token → k.registrations token = some e →
    e.fd = fd ∧ k.opened fd = some e.opened

/-- What `io_register` makes. -/
theorem ioRegister_eq (made : k.ioRegister fd = some (k', token)) :
    token = k.clock ∧ k.poller fd = none ∧ ∃ sock, k.opened fd = some sock ∧
      k' = { k with
        clock := k.clock + 1
        poller := Function.update k.poller fd (some k.clock)
        registrations := Function.update k.registrations k.clock (some ⟨fd, sock⟩) } := by
  unfold Kernel.ioRegister at made
  split at made
  · rename_i sock isOpen free
    obtain ⟨rfl, rfl⟩ := Prod.mk.inj (Option.some.inj made)
    exact ⟨rfl, free, sock, isOpen, rfl⟩
  · cases made

theorem sound_open (sound : Sound k) (free : k.opened fd = none) : Sound (k.openSocket fd) := by
  refine ⟨?_, ?_, ?_, ?_, ?_⟩
  · intro token e entry
    obtain ⟨old, oldSocket⟩ := sound.entries token e entry
    exact ⟨Nat.lt_succ_of_lt old, Nat.lt_succ_of_lt oldSocket⟩
  · intro fd' sock isOpen
    simp only [Kernel.openSocket, Function.update_apply] at isOpen
    split at isOpen
    · obtain rfl := Option.some.inj isOpen
      exact Nat.lt_succ_self _
    · exact Nat.lt_succ_of_lt (sound.sockets fd' sock isOpen)
  · intro fd' isClosed
    simp only [Kernel.openSocket, Function.update_apply] at isClosed
    split at isClosed
    · cases isClosed
    · exact sound.closed fd' isClosed
  · intro fd' token polls
    exact Nat.lt_succ_of_lt (sound.tokens fd' token polls)
  · intro fd' token e polls entry
    have other : fd' ≠ fd := by
      rintro rfl
      have idle := sound.closed fd' free
      have polls' : k.poller fd' = some token := polls
      rw [idle] at polls'
      cases polls'
    obtain ⟨same, isOpen⟩ := sound.polled fd' token e polls entry
    refine ⟨same, ?_⟩
    simp only [Kernel.openSocket, Function.update_of_ne other]
    exact isOpen

theorem sound_close (sound : Sound k) : Sound (k.closeSocket fd) := by
  have still : ∀ {fd' token}, (k.closeSocket fd).poller fd' = some token →
      fd' ≠ fd ∧ k.poller fd' = some token := by
    intro fd' token polls
    simp only [Kernel.closeSocket, Function.update_apply] at polls
    split at polls
    · cases polls
    · rename_i other
      exact ⟨other, polls⟩
  refine ⟨sound.entries, ?_, ?_, ?_, ?_⟩
  · intro fd' sock isOpen
    simp only [Kernel.closeSocket, Function.update_apply] at isOpen
    split at isOpen
    · cases isOpen
    · exact sound.sockets fd' sock isOpen
  · intro fd' isClosed
    simp only [Kernel.closeSocket, Function.update_apply] at isClosed ⊢
    split
    · rfl
    · rename_i other
      rw [if_neg other] at isClosed
      exact sound.closed fd' isClosed
  · intro fd' token polls
    exact sound.tokens fd' token (still polls).2
  · intro fd' token e polls entry
    obtain ⟨other, polls⟩ := still polls
    obtain ⟨same, isOpen⟩ := sound.polled fd' token e polls entry
    refine ⟨same, ?_⟩
    simp only [Kernel.closeSocket, Function.update_of_ne other]
    exact isOpen

theorem sound_register (sound : Sound k) (made : k.ioRegister fd = some (k', token)) :
    Sound k' := by
  obtain ⟨rfl, free, sock, isOpen, rfl⟩ := ioRegister_eq made
  refine ⟨?_, ?_, ?_, ?_, ?_⟩
  · intro token e entry
    simp only [Function.update_apply] at entry
    split at entry
    · rename_i new
      obtain rfl := Option.some.inj entry
      exact ⟨by rw [new]; exact Nat.lt_succ_self _,
        Nat.lt_succ_of_lt (sound.sockets fd sock isOpen)⟩
    · obtain ⟨old, oldSocket⟩ := sound.entries token e entry
      exact ⟨Nat.lt_succ_of_lt old, Nat.lt_succ_of_lt oldSocket⟩
  · intro fd' sock' isOpen'
    exact Nat.lt_succ_of_lt (sound.sockets fd' sock' isOpen')
  · intro fd' isClosed
    have other : fd' ≠ fd := by
      rintro rfl
      change k.opened fd' = none at isClosed
      rw [isOpen] at isClosed
      cases isClosed
    simp only [Function.update_of_ne other]
    exact sound.closed fd' isClosed
  · intro fd' token polls
    simp only [Function.update_apply] at polls
    split at polls
    · obtain rfl := Option.some.inj polls
      exact Nat.lt_succ_self _
    · exact Nat.lt_succ_of_lt (sound.tokens fd' token polls)
  · intro fd' token e polls entry
    simp only [Function.update_apply] at polls entry
    split at polls
    · rename_i here
      obtain rfl := Option.some.inj polls
      rw [if_pos rfl] at entry
      obtain rfl := Option.some.inj entry
      exact ⟨here.symm, here ▸ isOpen⟩
    · have old := sound.tokens fd' token polls
      rw [if_neg (Nat.ne_of_lt old)] at entry
      exact sound.polled fd' token e polls entry

theorem sound_remove (sound : Sound k) : Sound (k.removeToken token) := by
  have still : ∀ {t e}, (k.removeToken token).registrations t = some e →
      k.registrations t = some e := by
    intro t e entry
    simp only [Kernel.removeToken, Function.update_apply] at entry
    split at entry
    · cases entry
    · exact entry
  exact ⟨fun t e entry => sound.entries t e (still entry), sound.sockets, sound.closed,
    sound.tokens, fun fd t e polls entry => sound.polled fd t e polls (still entry)⟩

theorem sound_deregister (sound : Sound k) : Sound (k.deregister fd) := by
  have still : ∀ {fd' token}, (k.deregister fd).poller fd' = some token →
      k.poller fd' = some token := by
    intro fd' token polls
    simp only [Kernel.deregister, Function.update_apply] at polls
    split at polls
    · cases polls
    · exact polls
  refine ⟨sound.entries, sound.sockets, ?_, fun fd' t polls => sound.tokens fd' t (still polls),
    fun fd' t e polls entry => sound.polled fd' t e (still polls) entry⟩
  intro fd' isClosed
  simp only [Kernel.deregister, Function.update_apply]
  split
  · rfl
  · exact sound.closed fd' isClosed

omit [DecidableEq L] in
theorem sound_move (sound : Sound s.kernel) (move : KernelMove s a k) : Sound k := by
  cases move with
  | same => exact sound
  | opens free => exact sound_open sound free
  | closes => exact sound_close sound
  | registers made => exact sound_register sound made
  | removes => exact sound_remove sound
  | deregisters => exact sound_deregister sound

omit [DecidableEq L] in
theorem sound_fresh : Sound (fresh L C).kernel := by
  constructor <;> simp [fresh]

theorem sound_of_reachable (reached : (machine L C).Reachable s) : Sound s.kernel := by
  refine Machine.Reach.invariant (fun s => Sound s.kernel) ?_ ?_ reached
  · rintro s rfl
    exact sound_fresh
  · intro s a s' sound _ taken
    exact sound_move sound (kernel_move_of_step taken)

/-! ## The runs of the claim -/

/-- Where `io_deregister` comes to the kernel, the poller has nothing under the fd
but what is out of the map. -/
def Own (s : State L C) (a : Act L C) : Prop :=
  ∀ l fd after, a = .loop l → s.pc l = .deregistering fd after →
    ∀ token, s.kernel.poller fd = some token → s.kernel.registrations token = none

omit [DecidableEq L] in
theorem kept_move (sound : Sound s.kernel) (kept : Kept s.kernel) (own : Own s a)
    (move : KernelMove s a k) : Kept k := by
  cases move with
  | same => exact kept
  | opens free =>
      rename_i fd
      intro token e entry isOpen
      have other : e.fd ≠ fd := by
        intro same
        simp only [Kernel.openSocket, Function.update_apply, if_pos same] at isOpen
        exact Nat.ne_of_gt (sound.entries token e entry).2 (Option.some.inj isOpen)
      simp only [Kernel.openSocket, Function.update_of_ne other] at isOpen
      exact kept token e entry isOpen
  | closes =>
      rename_i fd
      intro token e entry isOpen
      simp only [Kernel.closeSocket, Function.update_apply] at isOpen ⊢
      split at isOpen
      · cases isOpen
      · rename_i other
        rw [if_neg other]
        exact kept token e entry isOpen
  | registers made =>
      rename_i fd token'
      obtain ⟨rfl, free, sock, isOpen', rfl⟩ := ioRegister_eq made
      intro token e entry isOpen
      simp only [Function.update_apply] at entry ⊢
      split at entry
      · rename_i new
        obtain rfl := Option.some.inj entry
        rw [if_pos rfl, new]
      · have polls := kept token e entry isOpen
        have other : e.fd ≠ fd := by
          intro same
          rw [same, free] at polls
          cases polls
        rw [if_neg other]
        exact polls
  | removes =>
      rename_i removed
      intro token e entry isOpen
      simp only [Kernel.removeToken, Function.update_apply] at entry
      split at entry
      · cases entry
      · exact kept token e entry isOpen
  | deregisters isLoop at_ =>
      rename_i l fd after
      intro token e entry isOpen
      have polls := kept token e entry isOpen
      have other : e.fd ≠ fd := by
        intro same
        rw [same] at polls
        have gone := own l fd after isLoop at_ token polls
        have entry' : s.kernel.registrations token = some e := entry
        rw [gone] at entry'
        cases entry'
      simp only [Kernel.deregister, Function.update_of_ne other]
      exact polls

/-- The poller keeps every registration whose socket is open until it is itself
deregistered, in every run in which no `io_deregister` finds a registration of the
map under its fd. -/
theorem poller_kept (reached : (machine L C).Reach Own s) : Kept s.kernel := by
  induction reached with
  | start isStart =>
      obtain rfl : _ = fresh L C := isStart
      intro token e entry
      cases entry
  | step before allowed taken inductionHypothesis =>
      exact kept_move (sound_of_reachable before.reachable) inductionHypothesis allowed
        (kernel_move_of_step taken)

/-- An `io_deregister` that does find one takes it from the poller. -/
theorem deregister_breaks (reached : (machine L C).Reachable s)
    (at_ : s.pc l = .deregistering fd after) (polls : s.kernel.poller fd = some token)
    (entry : s.kernel.registrations token = some e) :
    ∃ s', step s (.loop l) = some s' ∧ ¬Kept s'.kernel := by
  obtain ⟨same, isOpen⟩ := (sound_of_reachable reached).polled fd token e polls entry
  refine ⟨{ s with kernel := s.kernel.deregister fd }.goto l after.pc, ?_, ?_⟩
  · simp only [step, loopStep, at_]
  · intro kept
    have still := kept token e entry (by rw [same]; exact isOpen)
    rw [same] at still
    change Function.update s.kernel.poller fd none fd = some token at still
    rw [Function.update_self] at still
    cases still

/-! ## A single loop -/

namespace Table

variable {t : Table C} {reg : FdIo C}

theorem get_cons_ne (other : fd' ≠ fd) : get ((fd, reg) :: t) fd' = t.get fd' := by
  unfold get
  simp only [List.lookup_cons, beq_false_of_ne other]

theorem get_pop : (t.pop fd).get fd' = if fd' = fd then none else t.get fd' := by
  induction t with
  | nil => simp [get, pop]
  | cons entry rest inductionHypothesis =>
      obtain ⟨key, value⟩ := entry
      by_cases dropped : key = fd
      · have same : pop ((key, value) :: rest) fd = pop rest fd :=
          List.filter_cons_of_neg (by simp [dropped])
        rw [same, inductionHypothesis]
        split
        · rfl
        · rename_i other
          rw [get_cons_ne (dropped ▸ other)]
      · have kept : pop ((key, value) :: rest) fd = (key, value) :: pop rest fd :=
          List.filter_cons_of_pos (by simp [dropped])
        rw [kept]
        by_cases here : fd' = key
        · subst here
          rw [if_neg dropped]
          exact List.lookup_cons_self.trans List.lookup_cons_self.symm
        · rw [get_cons_ne here, get_cons_ne here, inductionHypothesis]

theorem get_set : (t.set fd reg).get fd' = if fd' = fd then some reg else t.get fd' := by
  unfold set
  by_cases here : fd' = fd
  · subst here
    rw [if_pos rfl]
    exact List.lookup_cons_self
  · rw [if_neg here, get_cons_ne here, get_pop, if_neg here]

end Table

@[simp] theorem setHandle_sio {reg : FdIo C} {writer : Bool}
    {handle : Option (FdRegistry.FdHandle C)} : (reg.setHandle writer handle).sio = reg.sio := by
  cases writer <;> rfl

@[simp] theorem apply_sio {reg : FdIo C} {purpose : Use C} :
    (purpose.apply fd reg).sio = reg.sio := by
  cases purpose with
  | sock => rfl
  | callback writer function => exact setHandle_sio

/-- What the tables of the loops have of the map. -/
structure Listed (s : State L C) : Prop where
  listed : ∀ token e, s.kernel.registrations token = some e →
    ∃ l reg, (s.table l).get e.fd = some reg ∧ reg.sio = token
  named : ∀ l fd reg e, (s.table l).get fd = some reg →
    s.kernel.registrations reg.sio = some e → e.fd = fd
  known : ∀ l fd reg, (s.table l).get fd = some reg → reg.sio < s.kernel.clock
  popped : ∀ l fd after, s.pc l = .deregistering fd after → (s.table l).get fd = none

omit [DecidableEq L] in
/-- A step that touches neither the tables nor the map. -/
theorem Listed.goes (listed : Listed s) (table : s'.table = s.table)
    (registrations : s'.kernel.registrations = s.kernel.registrations)
    (clock : s.kernel.clock ≤ s'.kernel.clock)
    (pc : ∀ l fd after, s'.pc l = .deregistering fd after → s.pc l = .deregistering fd after) :
    Listed s' := by
  refine ⟨?_, ?_, ?_, ?_⟩
  · rw [registrations, table]
    exact listed.listed
  · rw [registrations, table]
    exact listed.named
  · rw [table]
    intro l fd reg here
    exact Nat.lt_of_lt_of_le (listed.known l fd reg here) clock
  · rw [table]
    intro l fd after at_
    exact listed.popped l fd after (pc l fd after at_)

/-- A loop goes on to a place that is not in front of the kernel. -/
theorem Listed.goto {pc : LoopPc C} (listed : Listed s)
    (other : ∀ fd after, pc ≠ .deregistering fd after) : Listed (s.goto l pc) := by
  refine listed.goes rfl rfl (Nat.le_refl _) ?_
  intro l' fd after at_
  simp only [State.goto, Function.update_apply] at at_
  split at at_
  · exact absurd at_ (other fd after)
  · exact at_

theorem pc_ne (fd : Fd) (after' : After C) : after.pc ≠ .deregistering fd after' := by
  cases after <;> simp [After.pc]

theorem table_set {reg : FdIo C} :
    ((s.setTable l ((s.table l).set fd reg)).table l').get fd' =
      if l' = l ∧ fd' = fd then some reg else (s.table l').get fd' := by
  by_cases isLoop : l' = l
  · subst isLoop
    simp only [State.setTable, Function.update_self, Table.get_set, true_and]
  · simp only [State.setTable, Function.update_of_ne isLoop, isLoop, false_and, if_false]

theorem table_pop :
    ((s.setTable l ((s.table l).pop fd)).table l').get fd' =
      if l' = l ∧ fd' = fd then none else (s.table l').get fd' := by
  by_cases isLoop : l' = l
  · subst isLoop
    simp only [State.setTable, Function.update_self, Table.get_pop, true_and]
  · simp only [State.setTable, Function.update_of_ne isLoop, isLoop, false_and, if_false]

/-- A loop that writes its table is not in front of the kernel. -/
theorem Listed.popped_set {reg : FdIo C} (listed : Listed s)
    (away : ∀ fd after, s.pc l ≠ .deregistering fd after)
    (at_ : s.pc l' = .deregistering fd' after) :
    ((s.setTable l ((s.table l).set fd reg)).table l').get fd' = none := by
  rw [table_set, if_neg]
  · exact listed.popped l' fd' after at_
  · rintro ⟨rfl, -⟩
    exact away fd' after at_

/-- A registration of a table is changed, and keeps its `ScheduledIO`. -/
theorem Listed.sets {reg reg' : FdIo C} (listed : Listed s) (here : (s.table l).get fd = some reg)
    (same : reg'.sio = reg.sio) (away : ∀ fd after, s.pc l ≠ .deregistering fd after) :
    Listed (s.setTable l ((s.table l).set fd reg')) := by
  have changed : ∀ {l' fd' found},
      ((s.setTable l ((s.table l).set fd reg')).table l').get fd' = some found →
        ∃ old, (s.table l').get fd' = some old ∧ old.sio = found.sio := by
    intro l' fd' found get
    rw [table_set] at get
    split at get
    · rename_i place
      obtain ⟨rfl, rfl⟩ := place
      obtain rfl := Option.some.inj get
      exact ⟨reg, here, same.symm⟩
    · exact ⟨found, get, rfl⟩
  refine ⟨?_, ?_, ?_, fun _ _ _ at_ => listed.popped_set away at_⟩
  · intro token e entry
    obtain ⟨l', found, get, isToken⟩ := listed.listed token e entry
    by_cases place : l' = l ∧ e.fd = fd
    · obtain ⟨rfl, isFd⟩ := place
      rw [isFd, here] at get
      obtain rfl := Option.some.inj get
      exact ⟨l', reg', table_set.trans (if_pos ⟨rfl, isFd⟩), same.trans isToken⟩
    · exact ⟨l', found, (table_set.trans (if_neg place)).trans get, isToken⟩
  · intro l' fd' found e get entry
    obtain ⟨old, get, sio⟩ := changed get
    exact listed.named l' fd' old e get (sio ▸ entry)
  · intro l' fd' found get
    obtain ⟨old, get, sio⟩ := changed get
    exact sio ▸ listed.known l' fd' old get

/-- A registration leaves its table, and is not in the map any more. -/
theorem Listed.pops {reg : FdIo C} (listed : Listed s) (here : (s.table l).get fd = some reg)
    (table : s'.table = (s.setTable l ((s.table l).pop fd)).table)
    (registrations : ∀ token e, s'.kernel.registrations token = some e →
      token ≠ reg.sio ∧ s.kernel.registrations token = some e)
    (clock : s'.kernel.clock = s.kernel.clock)
    (pc : ∀ l' fd' after, s'.pc l' = .deregistering fd' after →
      s.pc l' = .deregistering fd' after ∨ l' = l ∧ fd' = fd) : Listed s' := by
  have kept : ∀ {l' fd' found}, (s'.table l').get fd' = some found →
      (s.table l').get fd' = some found := by
    intro l' fd' found get
    rw [table, table_pop] at get
    split at get
    · cases get
    · exact get
  refine ⟨?_, ?_, ?_, ?_⟩
  · intro token e entry
    obtain ⟨other, entry⟩ := registrations token e entry
    obtain ⟨l', found, get, isToken⟩ := listed.listed token e entry
    refine ⟨l', found, ?_, isToken⟩
    rw [table, table_pop, if_neg]
    · exact get
    · rintro ⟨rfl, isFd⟩
      rw [isFd, here] at get
      obtain rfl := Option.some.inj get
      exact other isToken.symm
  · intro l' fd' found e get entry
    exact listed.named l' fd' found e (kept get) (registrations _ e entry).2
  · intro l' fd' found get
    rw [clock]
    exact listed.known l' fd' found (kept get)
  · intro l' fd' after at_
    rw [table, table_pop]
    split
    · rfl
    · rename_i other
      exact listed.popped l' fd' after ((pc l' fd' after at_).resolve_right other)

/-- A registration is taken out of its table, and out of the map. -/
theorem listed_pop {reg : FdIo C} {io : Entry} (listed : Listed s)
    (here : (s.table l).get fd = some reg) (entry : s.kernel.registrations reg.sio = some io) :
    Listed (({ s with kernel := s.kernel.removeToken reg.sio }.setTable l
      ((s.table l).pop fd)).goto l (.deregistering io.fd after)) := by
  have isFd : io.fd = fd := listed.named l fd reg io here entry
  refine listed.pops here rfl ?_ rfl ?_
  · intro token e left
    change Function.update s.kernel.registrations reg.sio none token = some e at left
    rw [Function.update_apply] at left
    split at left
    · cases left
    · rename_i other
      exact ⟨other, left⟩
  · intro l' fd' after' at_
    simp only [State.goto, Function.update_apply] at at_
    split at at_
    · rename_i isLoop
      obtain ⟨rfl, -⟩ := LoopPc.deregistering.inj at_
      exact .inr ⟨isLoop, isFd⟩
    · exact .inl at_

/-- The table has a registration that is no longer in the map. -/
theorem listed_forget {reg : FdIo C} (listed : Listed s) (here : (s.table l).get fd = some reg)
    (gone : s.kernel.registrations reg.sio = none) :
    Listed (s.setTable l ((s.table l).pop fd)) := by
  refine listed.pops here rfl ?_ rfl fun _ _ _ at_ => .inl at_
  intro token e entry
  refine ⟨?_, entry⟩
  rintro rfl
  exact Option.some_ne_none e (entry.symm.trans gone)

/-- A registration is made for an fd that the table does not have. -/
theorem listed_register {reg : FdIo C} (listed : Listed s)
    (absent : (s.table l).get fd = none) (made : s.kernel.ioRegister fd = some (k, token))
    (isToken : reg.sio = token) (away : ∀ fd after, s.pc l ≠ .deregistering fd after) :
    Listed ({ s with kernel := k }.setTable l ((s.table l).set fd reg)) := by
  obtain ⟨rfl, free, sock, isOpen, rfl⟩ := ioRegister_eq made
  have found_ : ∀ {l' fd' found},
      ((s.setTable l ((s.table l).set fd reg)).table l').get fd' = some found →
        found.sio = s.kernel.clock ∧ fd' = fd ∨
          found.sio < s.kernel.clock ∧ (s.table l').get fd' = some found := by
    intro l' fd' found get
    rw [table_set] at get
    split at get
    · rename_i place
      obtain rfl := Option.some.inj get
      exact .inl ⟨isToken, place.2⟩
    · exact .inr ⟨listed.known _ _ _ get, get⟩
  refine ⟨?_, ?_, ?_, fun _ _ _ at_ => listed.popped_set away at_⟩
  · intro token e entry
    simp only [State.setTable, Function.update_apply] at entry
    split at entry
    · rename_i new
      obtain rfl := Option.some.inj entry
      exact ⟨l, reg, table_set.trans (if_pos ⟨rfl, rfl⟩), isToken.trans new.symm⟩
    · obtain ⟨l', found, get, same⟩ := listed.listed token e entry
      refine ⟨l', found, (table_set.trans (if_neg ?_)).trans get, same⟩
      rintro ⟨rfl, isFd⟩
      rw [isFd, absent] at get
      cases get
  · intro l' fd' found e get entry
    simp only [State.setTable, Function.update_apply] at entry
    obtain ⟨new, isFd⟩ | ⟨old, get⟩ := found_ get
    · rw [if_pos new] at entry
      obtain rfl := Option.some.inj entry
      exact isFd.symm
    · rw [if_neg (Nat.ne_of_lt old)] at entry
      exact listed.named l' fd' found e get entry
  · intro l' fd' found get
    obtain ⟨new, -⟩ | ⟨old, -⟩ := found_ get
    · exact Nat.lt_succ_of_le (Nat.le_of_eq new)
    · exact Nat.lt_succ_of_lt old

theorem listed_loopStep (listed : Listed s) (taken : loopStep s l = some s') : Listed s' := by
  unfold loopStep at taken
  split at taken
  · cases taken
  · split at taken
    · obtain rfl := Option.some.inj taken
      exact listed.goto pc_ne
    · rename_i reg here
      split at taken <;> obtain rfl := Option.some.inj taken
      · rename_i gone
        exact (listed_forget listed here gone).goto pc_ne
      · rename_i io entry
        exact listed_pop listed here entry
  · obtain rfl := Option.some.inj taken
    exact Listed.goto (s := { s with kernel := _ })
      (listed.goes rfl rfl (Nat.le_refl _) fun _ _ _ at_ => at_) pc_ne
  · rename_i at_
    split at taken
    · rename_i reg here
      obtain rfl := Option.some.inj taken
      exact (listed.sets here apply_sio (by simp [at_])).goto (by simp)
    · rename_i absent
      split at taken <;> obtain rfl := Option.some.inj taken
      · exact listed.goto (by simp)
      · rename_i made
        exact (listed_register listed absent made apply_sio (by simp [at_])).goto (by simp)
  · obtain rfl := Option.some.inj taken
    exact listed.goto (by simp)
  · obtain rfl := Option.some.inj taken
    exact listed.goto (by simp)

theorem listed_remove {writer : Bool} (listed : Listed s) (idle : s.pc l = .idle) :
    Listed (removeFdCallback s l fd writer) := by
  unfold removeFdCallback
  split
  · exact listed
  · rename_i reg here
    split
    · exact listed
    · have same : (reg.setHandle writer none).sio = reg.sio := setHandle_sio
      have set_ := listed.sets here same (by simp [idle])
      dsimp only
      split
      · exact set_.goto (by simp)
      · exact set_

theorem listed_step (listed : Listed s) (taken : step s a = some s') : Listed s' := by
  cases a with
  | openSocket fd =>
      simp only [step] at taken
      split at taken
      · cases taken
      · obtain rfl := Option.some.inj taken
        exact listed.goes rfl rfl (Nat.le_succ _) fun _ _ _ at_ => at_
  | closeSocket fd =>
      simp only [step] at taken
      split at taken
      · obtain rfl := Option.some.inj taken
        exact listed.goes rfl rfl (Nat.le_refl _) fun _ _ _ at_ => at_
      · cases taken
  | sockCall l fd =>
      simp only [step] at taken
      split at taken
      · split at taken <;> obtain rfl := Option.some.inj taken <;>
          exact listed.goto (by simp)
      · cases taken
  | addFdCallback l fd writer callback =>
      simp only [step] at taken
      split at taken
      · split at taken
        · cases taken
        · obtain rfl := Option.some.inj taken
          exact listed.goto (by simp)
      · cases taken
  | removeFdCallback l fd writer =>
      simp only [step] at taken
      split at taken
      · rename_i idle
        split at taken
        · cases taken
        · obtain rfl := Option.some.inj taken
          exact listed_remove listed idle
      · cases taken
  | releaseFd l fd =>
      simp only [step] at taken
      split at taken
      · obtain rfl := Option.some.inj taken
        exact listed.goto (by simp)
      · cases taken
  | close l =>
      simp only [step] at taken
      split at taken
      · split at taken
        · cases taken
        · obtain rfl := Option.some.inj taken
          exact Listed.goto (s := { s with closed := _ })
            (listed.goes rfl rfl (Nat.le_refl _) fun _ _ _ at_ => at_) (by simp)
      · cases taken
  | loop l => exact listed_loopStep listed taken

theorem listed_of_reachable (reached : (machine L C).Reachable s) : Listed s := by
  refine Machine.Reach.invariant Listed ?_ ?_ reached
  · rintro s rfl
    constructor <;> simp [fresh, Table.get]
  · intro s a s' listed _ taken
    exact listed_step listed taken

/-- With a single loop the condition holds by itself: its lock covers both steps. -/
theorem own_of_alone [Subsingleton L] (reached : (machine L C).Reachable s) : Own s a := by
  intro l fd after _ at_ token polls
  cases entry : s.kernel.registrations token with
  | none => rfl
  | some e =>
      obtain ⟨isFd, -⟩ := (sound_of_reachable reached).polled fd token e polls entry
      obtain ⟨l', reg, get, -⟩ := (listed_of_reachable reached).listed token e entry
      obtain rfl := Subsingleton.elim l' l
      rw [isFd, (listed_of_reachable reached).popped l' fd after at_] at get
      cases get

/-! ## Runs -/

/-- `Own` of a `Bool` of loops, decided. -/
def own (s : State Bool Unit) : Act Bool Unit → Bool
  | .loop l =>
      match s.pc l with
      | .deregistering fd _ => (s.kernel.poller fd).all fun token =>
          (s.kernel.registrations token).isNone
      | _ => true
  | _ => true

theorem own_sound (s : State Bool Unit) (a : Act Bool Unit) (checked : own s a = true) :
    Own s a := by
  rintro l fd after rfl at_ token polls
  simpa [own, at_, polls] using checked

/-- A loop registers a socket; it is closed, and the next one gets its number and is
registered by another loop. -/
def reuseRun : List (Act Bool Unit) :=
  [.openSocket 3, .sockCall true 3, .loop true, .closeSocket 3, .openSocket 3, .sockCall false 3,
    .loop false]

theorem reuseRun_ends :
    ((machine Bool Unit).execIf own (fresh Bool Unit) reuseRun).any
      (fun s => s.kernel.registrations 3 = some ⟨3, 2⟩ ∧ s.kernel.opened 3 = some 2 ∧
        s.kernel.poller 3 = some 3) = true := by
  decide +kernel

theorem poller_kept_reused :
    ∃ s : State Bool Unit, s.kernel.registrations 3 = some ⟨3, 2⟩ ∧ Kept s.kernel := by
  obtain ⟨s, reached, ends⟩ := Machine.Reach.exists_of_execIf own_sound rfl reuseRun_ends
  exact ⟨s, (of_decide_eq_true ends).1, poller_kept reached⟩

/-- The first loop releases the fd. -/
theorem releasedRun_ends :
    ((machine Bool Unit).exec (fresh Bool Unit)
      (reuseRun ++ [.releaseFd true 3, .loop true, .loop true])).any
      (fun s => s.kernel.registrations 3 = some ⟨3, 2⟩ ∧ s.kernel.opened 3 = some 2 ∧
        s.kernel.poller 3 = none) = true := by
  decide +kernel

theorem poller_loses_registration :
    ¬∀ s : State Bool Unit, (machine Bool Unit).Reachable s → Kept s.kernel := by
  intro always
  obtain ⟨s, reached, ends⟩ := Machine.Reachable.exists_of_exec rfl releasedRun_ends
  obtain ⟨entry, isOpen, gone⟩ := of_decide_eq_true ends
  have polls := always s reached 3 ⟨3, 2⟩ entry isOpen
  rw [gone] at polls
  cases polls

end MtAsyncio.SharedPoller
