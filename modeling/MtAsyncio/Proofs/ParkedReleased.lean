/-
Module: MtAsyncio.Proofs.ParkedReleased
Purpose: No `ScheduledIO` is leaked: one that `io_deregister` has parked is dropped by
  the poll thread, whose flag is up or about to be.
Trusted boundary: none
Main exports: Counted, Announced, counted_announced, parked_released
-/
import MtAsyncio.Proofs.TokensValid

namespace MtAsyncio.IoTokens

open Lib (Machine Refs)

variable {T : Type} [DecidableEq T] {s s' : State T} {a : Act T} {t : T} {pc : Pc}
variable {io : Address}

/-! ## What the calls own -/

/-- A call owns what it works on once, and nothing else. -/
def Counted (s : State T) : Prop :=
  ∀ t io, s.arcs.count (.call t, io) = if (s.pc t).address = some io then 1 else 0

theorem Counted.goto {r : State T} (counted : Counted s) (samePc : r.pc = s.pc)
    (others : ∀ u io, u ≠ t → r.arcs.count (.call u, io) = s.arcs.count (.call u, io))
    (own : ∀ io, r.arcs.count (.call t, io) = if pc.address = some io then 1 else 0) :
    Counted (r.goto t pc) := by
  intro u io
  show r.arcs.count (.call u, io) = if (Function.update r.pc t pc u).address = some io then 1 else 0
  by_cases same : u = t
  · rw [same, Function.update_self]
    exact own io
  · rw [Function.update_of_ne same, samePc, others u io same]
    exact counted u io

theorem Counted.same {r : State T} (counted : Counted s) (samePc : r.pc = s.pc)
    (sameCount : ∀ u io, r.arcs.count (.call u, io) = s.arcs.count (.call u, io)) :
    Counted r := by
  intro u io
  rw [samePc, sameCount]
  exact counted u io

/-- The call gives up what it works on, and goes. -/
theorem Counted.ends {r : State T} (counted : Counted s) (at_ : (s.pc t).address = some io)
    (samePc : r.pc = s.pc)
    (gone : ∀ u x, r.arcs.count (.call u, x) = (s.arcs.drop (.call t) io).count (.call u, x)) :
    Counted (r.goto t .idle) := by
  refine counted.goto samePc ?_ ?_
  · intro u x other
    rw [gone, Refs.count_drop_of_ne (.inl fun same => other (Holder.call.inj same))]
  · intro x
    rw [gone]
    by_cases same : x = io
    · rw [same, Refs.count_drop_self, counted t io, if_pos at_]
      rfl
    · rw [Refs.count_drop_of_ne (.inr same), counted t x, at_]
      exact if_neg fun isX => same (Option.some.inj isX).symm

/-- The call goes on with what it works on. -/
theorem Counted.goes {r : State T} (counted : Counted s) (at_ : (s.pc t).address = pc.address)
    (samePc : r.pc = s.pc)
    (sameCount : ∀ u x, r.arcs.count (.call u, x) = s.arcs.count (.call u, x)) :
    Counted (r.goto t pc) := by
  refine counted.goto samePc (fun u x _ => sameCount u x) ?_
  intro x
  rw [sameCount, counted t x, at_]

/-- A call begins with a reference of its own. -/
theorem Counted.begins {r : State T} (counted : Counted s) (at_ : (s.pc t).address = none)
    (begins : pc.address = some io) (samePc : r.pc = s.pc)
    (sameCount : ∀ u x, r.arcs.count (.call u, x) =
      ((.call t, io) :: s.arcs).count (.call u, x)) : Counted (r.goto t pc) := by
  refine counted.goto samePc ?_ ?_
  · intro u x other
    rw [sameCount]
    exact List.count_cons_of_ne fun same => other (Holder.call.inj (Prod.mk.inj same).1).symm
  · intro x
    rw [sameCount, begins]
    have before : s.arcs.count (.call t, x) = 0 := by
      rw [counted t x, at_]
      exact if_neg fun no => nomatch no
    by_cases same : x = io
    · rw [same, List.count_cons_self, if_pos rfl, ← same, before]
    · rw [if_neg fun isIo => same (Option.some.inj isIo).symm, ← before]
      exact List.count_cons_of_ne fun isX => same (Prod.mk.inj isX).2.symm

/-- What is retired is not a call's. -/
theorem count_retired (u : T) (x : Address) :
    (s.arcs.give .registrations .retired io).count (.call u, x) = s.arcs.count (.call u, x) := by
  have notRetired : Holder.call u ≠ .retired := fun same => nomatch same
  have notRegistrations : Holder.call u ≠ .registrations := fun same => nomatch same
  rw [Refs.count_give notRetired, Refs.count_drop_of_ne (.inl notRegistrations)]

theorem counted_threadMove (counted : Counted s) (moves : ThreadMove s t s') : Counted s' := by
  cases moves with
  | registered at_ accepted =>
      refine counted.ends (by rw [at_]; rfl) rfl ?_
      exact fun u x => Refs.count_give fun same => nomatch same
  | refused at_ => exact counted.goes (by rw [at_]; rfl) rfl fun _ _ => rfl
  | @withdrawn io at_ =>
      have works : (s.pc t).address = some io := by rw [at_]; rfl
      refine counted.ends works rfl ?_
      intro u x
      have given : (s.arcs.give .registrations .retired io).count (.call u, x) =
          s.arcs.count (.call u, x) := count_retired u x
      by_cases same : Holder.call u = .call t ∧ x = io
      · obtain ⟨isThread, isIo⟩ := same
        rw [isThread, isIo] at given ⊢
        exact (Refs.count_drop_self.trans (congrArg (· - 1) given)).trans
          Refs.count_drop_self.symm
      · have other : Holder.call u ≠ .call t ∨ x ≠ io := by
          rwa [← not_and_or]
        exact ((Refs.count_drop_of_ne other).trans given).trans (Refs.count_drop_of_ne other).symm
  | removed at_ mapped =>
      exact counted.goes (by rw [at_]; rfl) rfl count_retired
  | absent at_ => exact counted.ends (by rw [at_]; rfl) rfl fun _ _ => rfl
  | deregistered at_ =>
      have frame : ∀ fd, (s.deregisterFd fd).pc = s.pc ∧ (s.deregisterFd fd).arcs = s.arcs := by
        intro fd
        unfold State.deregisterFd
        split
        · exact ⟨rfl, rfl⟩
        · exact ⟨rfl, rfl⟩
      obtain ⟨samePc, sameArcs⟩ := frame (s.memory _).fd
      refine counted.goes (by rw [at_]; rfl) samePc ?_
      intro u x
      rw [sameArcs]
  | shut at_ => exact counted.goes (by rw [at_]; rfl) rfl fun _ _ => rfl
  | parked at_ =>
      refine counted.goes (by rw [at_]; rfl) rfl ?_
      exact fun u x => Refs.count_cons fun same => nomatch same
  | announced at_ => exact counted.ends (by rw [at_]; rfl) rfl fun _ _ => rfl

theorem counted_move (counted : Counted s) (moves : Move s a s') : Counted s' := by
  cases moves with
  | opened | copied | closed | runs | polled | stops => exact counted.same rfl fun _ _ => rfl
  | begins at_ running => exact counted.goes (by rw [at_]; rfl) rfl fun _ _ => rfl
  | inserts at_ free =>
      refine counted.begins (by rw [at_]; rfl) rfl rfl ?_
      exact fun u x => Refs.count_cons fun same => nomatch same
  | closes at_ owned => exact counted.begins (by rw [at_]; rfl) rfl rfl fun _ _ => rfl
  | thread moves => exact counted_threadMove counted moves
  | dropped | collected =>
      refine counted.same rfl ?_
      exact fun u x => Refs.count_drop_of_ne (.inl fun same => nomatch same)
  | poller moves =>
      cases moves with
      | swaps | skips | returns | handles | lowers | cleans | leaves =>
          exact counted.same rfl fun _ _ => rfl
      | releases | empties =>
          refine counted.same rfl ?_
          exact fun u x => Refs.count_dropAll fun same => nomatch same
      | clears =>
          refine counted.same rfl ?_
          exact fun u x => Refs.count_giveAll (fun same => nomatch same) fun same => nomatch same

/-! ## The release -/

/-- The release of the parked entries is on its way. -/
def Announced (s : State T) : Prop :=
  s.needsRelease = true ∨ (∃ t io, s.pc t = .parked io) ∨ s.poller = .releasing ∨
    s.poller = .emptying

omit [DecidableEq T] in
/-- A step keeps what is announced when it lowers no flag, ends no push and no clearing,
and parks nothing itself. -/
theorem announced_same {r : State T} (announced : (∃ io, (.pending, io) ∈ s.arcs) → Announced s)
    (less : ∀ io, (.pending, io) ∈ r.arcs → (.pending, io) ∈ s.arcs)
    (flag : s.needsRelease = true → r.needsRelease = true)
    (pushes : ∀ t io, s.pc t = .parked io → ∃ t io, r.pc t = .parked io)
    (samePoller : r.poller = s.poller) : (∃ io, (.pending, io) ∈ r.arcs) → Announced r := by
  rintro ⟨io, member⟩
  rcases announced ⟨io, less io member⟩ with up | ⟨t, x, at_⟩ | releasing | emptying
  · exact .inl (flag up)
  · exact .inr (.inl (pushes t x at_))
  · exact .inr (.inr (.inl (samePoller.trans releasing)))
  · exact .inr (.inr (.inr (samePoller.trans emptying)))

/-- A thread that is elsewhere goes on, and those that have parked something stay. -/
theorem pushes_goto {r : State T} (samePc : r.pc = s.pc) (notParked : ∀ io, s.pc t ≠ .parked io)
    (u : T) (io : Address) (at_ : s.pc u = .parked io) :
    ∃ v x, (r.goto t pc).pc v = .parked x := by
  refine ⟨u, io, ?_⟩
  have other : u ≠ t := by
    rintro rfl
    exact notParked io at_
  exact (Function.update_of_ne other ..).trans ((congrFun samePc u).trans at_)

theorem announced_threadMove (announced : (∃ io, (.pending, io) ∈ s.arcs) → Announced s)
    (moves : ThreadMove s t s') : (∃ io, (.pending, io) ∈ s'.arcs) → Announced s' := by
  have given : ∀ {old new : Holder T} {io x : Address}, new ≠ .pending →
      (.pending, x) ∈ s.arcs.give old new io → (.pending, x) ∈ s.arcs := by
    intro old new io x notPending member
    rcases Refs.mem_of_give member with old | isNew
    · exact old
    · exact absurd isNew.1.symm notPending
  cases moves with
  | registered at_ accepted =>
      exact announced_same announced (fun _ => given fun no => nomatch no) (fun up => up)
        (pushes_goto rfl (by rw [at_]; exact fun _ no => nomatch no)) rfl
  | refused at_ =>
      exact announced_same announced (fun _ member => member) (fun up => up)
        (pushes_goto rfl (by rw [at_]; exact fun _ no => nomatch no)) rfl
  | @withdrawn io at_ =>
      refine announced_same announced ?_ (fun up => up)
        (pushes_goto rfl (by rw [at_]; exact fun _ no => nomatch no)) rfl
      intro x member
      have kept : (.pending, x) ∈ (s.arcs.give .registrations .retired io).drop (.call t) io :=
        member
      have notPending : (.retired : Holder T) ≠ .pending := fun no => nomatch no
      exact given notPending (Refs.mem_of_drop kept)
  | removed at_ mapped =>
      exact announced_same announced (fun _ => given fun no => nomatch no) (fun up => up)
        (pushes_goto rfl (by rw [at_]; exact fun _ no => nomatch no)) rfl
  | absent at_ =>
      exact announced_same announced (fun _ member => Refs.mem_of_drop member) (fun up => up)
        (pushes_goto rfl (by rw [at_]; exact fun _ no => nomatch no)) rfl
  | @deregistered io at_ =>
      have frame : ∀ fd, (s.deregisterFd fd).pc = s.pc ∧ (s.deregisterFd fd).arcs = s.arcs ∧
          (s.deregisterFd fd).needsRelease = s.needsRelease ∧
          (s.deregisterFd fd).poller = s.poller := by
        intro fd
        unfold State.deregisterFd
        split
        · exact ⟨rfl, rfl, rfl, rfl⟩
        · exact ⟨rfl, rfl, rfl, rfl⟩
      obtain ⟨samePc, sameArcs, sameFlag, samePoller⟩ := frame (s.memory io).fd
      exact announced_same announced (fun _ member => sameArcs ▸ member)
        (fun up => sameFlag.trans up)
        (pushes_goto samePc (by rw [at_]; exact fun _ no => nomatch no)) samePoller
  | shut at_ =>
      exact announced_same announced (fun _ member => member) (fun up => up)
        (pushes_goto rfl (by rw [at_]; exact fun _ no => nomatch no)) rfl
  | @parked io at_ =>
      exact fun _ => .inr (.inl ⟨t, io, Function.update_self ..⟩)
  | announced at_ => exact fun _ => .inl rfl

theorem announced_pollerMove (announced : (∃ io, (.pending, io) ∈ s.arcs) → Announced s)
    (moves : PollerMove s s') : (∃ io, (.pending, io) ∈ s'.arcs) → Announced s' := by
  cases moves with
  | swaps => exact fun _ => .inr (.inr (.inl rfl))
  | lowers => exact fun _ => .inr (.inr (.inr rfl))
  | releases | empties =>
      rintro ⟨io, member⟩
      exact absurd rfl (Refs.mem_dropAll.mp member).2
  | skips at_ nothing =>
      intro member
      rcases announced member with up | pushes | releasing | emptying
      · rw [nothing] at up
        cases up
      · exact .inr (.inl pushes)
      · rw [at_] at releasing
        cases releasing
      · rw [at_] at emptying
        cases emptying
  | returns at_ | handles at_ | cleans at_ | leaves at_ =>
      intro member
      rcases announced member with up | pushes | releasing | emptying
      · exact .inl up
      · exact .inr (.inl pushes)
      · rw [at_] at releasing
        cases releasing
      · rw [at_] at emptying
        cases emptying
  | clears at_ =>
      rintro ⟨io, member⟩
      rcases Refs.mem_giveAll.mp member with old | isNew
      · rcases announced ⟨io, old.1⟩ with up | pushes | releasing | emptying
        · exact .inl up
        · exact .inr (.inl pushes)
        · rw [at_] at releasing
          cases releasing
        · rw [at_] at emptying
          cases emptying
      · cases isNew.2

theorem announced_move (announced : (∃ io, (.pending, io) ∈ s.arcs) → Announced s)
    (moves : Move s a s') : (∃ io, (.pending, io) ∈ s'.arcs) → Announced s' := by
  cases moves with
  | opened | copied | closed =>
      exact announced_same announced (fun _ member => member) (fun up => up)
        (fun t io at_ => ⟨t, io, at_⟩) rfl
  | begins at_ running =>
      exact announced_same announced (fun _ member => member) (fun up => up)
        (pushes_goto rfl (by rw [at_]; exact fun _ no => nomatch no)) rfl
  | inserts at_ free =>
      refine announced_same announced ?_ (fun up => up)
        (pushes_goto rfl (by rw [at_]; exact fun _ no => nomatch no)) rfl
      intro x member
      rcases List.mem_cons.mp member with no | member
      · cases no
      · rcases List.mem_cons.mp member with no | old
        · cases no
        · exact old
  | closes at_ owned =>
      refine announced_same announced ?_ (fun up => up)
        (pushes_goto rfl (by rw [at_]; exact fun _ no => nomatch no)) rfl
      intro x member
      rcases List.mem_cons.mp member with no | old
      · cases no
      · exact old
  | thread moves => exact announced_threadMove announced moves
  | dropped | collected =>
      exact announced_same announced (fun _ member => Refs.mem_of_drop member) (fun up => up)
        (fun t io at_ => ⟨t, io, at_⟩) rfl
  | runs at_ | polled at_ | stops at_ =>
      intro member
      rcases announced member with up | pushes | releasing | emptying
      · exact .inl up
      · exact .inr (.inl pushes)
      · rw [at_] at releasing
        cases releasing
      · rw [at_] at emptying
        cases emptying
  | poller moves => exact announced_pollerMove announced moves

theorem counted_announced (reached : (machine T).Reachable s) :
    Counted s ∧ ((∃ io, (.pending, io) ∈ s.arcs) → Announced s) := by
  refine reached.invariant
    (fun s => Counted s ∧ ((∃ io, (.pending, io) ∈ s.arcs) → Announced s)) ?_ ?_
  · rintro s rfl
    refine ⟨fun t io => rfl, ?_⟩
    rintro ⟨io, no⟩
    cases no
  · rintro s a s' ⟨counted, announced⟩ - taken
    have moves := move_of_step taken
    exact ⟨counted_move counted moves, announced_move announced moves⟩

/-- Nothing is leaked: a `ScheduledIO` that is still alive is registered, or belongs to
a `PyScheduledIO` or to a call that is working on it, or is still held by the map's own
deferred reclamation, which nothing announces, or it is parked and its release is on its
way. -/
theorem parked_released (reached : (machine T).Reachable s) (alive : 0 < s.arcs.strong io) :
    (.registrations, io) ∈ s.arcs ∨ (.object, io) ∈ s.arcs ∨ (∃ t, (s.pc t).address = some io) ∨
      (.retired, io) ∈ s.arcs ∨ (.pending, io) ∈ s.arcs ∧ Announced s := by
  obtain ⟨counted, announced⟩ := counted_announced reached
  obtain ⟨holder, member⟩ := Refs.strong_pos_iff.mp alive
  cases holder with
  | registrations => exact .inl member
  | object => exact .inr (.inl member)
  | call t =>
      refine .inr (.inr (.inl ⟨t, ?_⟩))
      have count := counted t io
      by_contra notWorking
      rw [if_neg notWorking] at count
      exact List.count_eq_zero.mp count member
  | retired => exact .inr (.inr (.inr (.inl member)))
  | pending => exact .inr (.inr (.inr (.inr ⟨member, announced ⟨io, member⟩⟩)))

/-- An entry is parked behind the back of a poll thread that has just looked. -/
def lateRun : List (Act Nat) :=
  [.openFd 5 70, .run, .register 0 5, .insert 0 100, .thread 0, .close 1 100, .thread 1,
    .dropObject 100, .collect 100, .thread 1, .thread 1, .thread 1, .poller]

theorem lateRun_ends :
    ((machine Nat).exec (fresh Nat) lateRun).any
      (fun s => decide (s.poller = .waiting ∧ s.needsRelease = false ∧ 0 < s.arcs.strong 100)) =
        true := by
  decide +kernel

theorem parked_released_late :
    ∃ s : State Nat, s.poller = .waiting ∧ s.needsRelease = false ∧
      ((.registrations, 100) ∈ s.arcs ∨ (.object, 100) ∈ s.arcs ∨
        (∃ t, (s.pc t).address = some 100) ∨ (.retired, 100) ∈ s.arcs ∨
          (.pending, 100) ∈ s.arcs ∧ Announced s) := by
  obtain ⟨s, reached, ends⟩ := Machine.Reachable.exists_of_exec rfl lateRun_ends
  obtain ⟨at_, lowered, alive⟩ := of_decide_eq_true ends
  exact ⟨s, at_, lowered, parked_released reached alive⟩

end MtAsyncio.IoTokens
