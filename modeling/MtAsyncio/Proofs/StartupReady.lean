/-
Module: MtAsyncio.Proofs.StartupReady
Purpose: When a registration after `acquire` can find no runtime.  `acquire` waits for
  `_ssock_w`, which is set before the poller is there; unless a call of it returns
  in between, `io_registry` stays published until the runtime is stopped.
Trusted boundary: none
Main exports: DrivePc.starting, ReturnsStarted, Effect, effect_of_step, Ready, ready_step,
  registers_after_acquire, register_panics_before_publication
-/
import MtAsyncio.Model.Startup

namespace MtAsyncio.Startup

open Lib (Machine)

variable {L C D : Type} [DecidableEq L] [DecidableEq C] [DecidableEq D]
variable {s s' b : State L C D} {a : Act L C D} {c : C} {d e : D} {l : L} {pc : DrivePc}

/-! ## The threads that drive -/

/-- The thread has set `_ssock_w` and has not got as far as `io_registry`, or it
has failed before. -/
def DrivePc.starting : DrivePc → Bool
  | .setBlocking | .sigReg | .pollNew | .publishRegistry | .sigDereg .failed
  | .ssockStop .failed => true
  | _ => false

/-- The thread has left its loop and has not yet stopped the self-socket. -/
def DrivePc.leaving : DrivePc → Bool
  | .dropSchedule | .dropWaker | .dropRegistry | .sigDereg .ran | .ssockStop .ran => true
  | _ => false

/-- The thread has published `io_registry` and not yet withdrawn it. -/
def DrivePc.published : DrivePc → Bool
  | .publishWaker | .publishSchedule | .looping | .dropSchedule | .dropWaker
  | .dropRegistry => true
  | _ => false

/-- Going on from `old` to `new` leaves a start and a publication standing, and
a thread that is leaving, or is not, as it was. -/
def DrivePc.leads (old new : DrivePc) : Bool :=
  (!old.starting || new.starting) && (new.leaving == old.leaving) &&
    (!old.published || new.published)

/-- No `acquire` returns while a thread that drives the runtime is starting. -/
def ReturnsStarted (s : State L C D) : Act L C D → Prop
  | .call c => ∀ l, s.call c = .returns l → ∀ d, (s.drive d).starting = false
  | _ => True

theorem DrivePc.leads_iff {old new : DrivePc} : old.leads new = true ↔
    (old.starting = true → new.starting = true) ∧ new.leaving = old.leaving ∧
      (old.published = true → new.published = true) := by
  simp only [DrivePc.leads, Bool.and_eq_true, Bool.or_eq_true, Bool.not_eq_true', beq_iff_eq,
    and_assoc]
  cases old.starting <;> cases old.published <;> simp

omit [DecidableEq L] [DecidableEq C] in
@[simp]
theorem goDrive_self (s : State L C D) (d : D) (pc : DrivePc) : (s.goDrive d pc).drive d = pc :=
  Function.update_self ..

omit [DecidableEq L] [DecidableEq C] in
theorem goDrive_other (s : State L C D) (other : e ≠ d) :
    (s.goDrive d pc).drive e = s.drive e :=
  Function.update_of_ne other ..

/-! ## What a step does -/

/-- The fields that the registrations depend on. -/
structure Same (s s' : State L C D) : Prop where
  ssock : s'.ssock = s.ssock
  registry : s'.registry = s.registry
  leaving : s'.leaving = s.leaving
  promised : s'.promised = s.promised
  panicked : s'.panicked = s.panicked

/-- What a step does to them, and to the threads that drive. -/
inductive Effect (s : State L C D) : Act L C D → State L C D → Prop where
  | aside {a : Act L C D} {s' : State L C D} (same : Same s s') (drive : s'.drive = s.drive) :
      Effect s a s'
  | returns {c : C} {l : L} {s' : State L C D} (at_ : s.call c = .returns l)
      (drive : s'.drive = s.drive) (registry : s'.registry = s.registry)
      (ssock : s'.ssock = s.ssock) (leaving : s'.leaving = s.leaving)
      (promised : s'.promised = (s.promised || s.driven)) (panicked : s'.panicked = s.panicked) :
      Effect s (.call c) s'
  | registers {c : C} {l : L} (at_ : s.call c = .register l) :
      Effect s (.call c)
        ({ s with panicked := s.panicked || (s.promised && !s.registry) }.goCall c .idle)
  /-- a thread goes on where it changes none of these -/
  | goes {a : Act L C D} {b : State L C D} {d : D} {old pc : DrivePc} (at_ : s.drive d = old)
      (same : Same s b) (drive : b.drive = s.drive) (leads : old.leads pc = true) :
      Effect s a (b.goDrive d pc)
  | opens {a : Act L C D} {d : D} (at_ : s.drive d = .ssockSet) :
      Effect s a ({ s with ssock := true }.goDrive d .setBlocking)
  | publishes {a : Act L C D} {d : D} (at_ : s.drive d = .publishRegistry) :
      Effect s a ({ s with registry := true }.goDrive d .publishWaker)
  | leaves {a : Act L C D} {d : D} (at_ : s.drive d = .looping) : Effect s a (s.leaves d)
  | withdraws {a : Act L C D} {d : D} (at_ : s.drive d = .dropRegistry) :
      Effect s a ({ s with registry := false }.goDrive d (.sigDereg .ran))
  | shuts {a : Act L C D} {d : D} {pc : DrivePc} {leaving : List D}
      (others : ∀ u, u ≠ d → (u ∈ leaving ↔ u ∈ s.leaving))
      (mine : d ∈ leaving → d ∈ s.leaving ∧ (s.drive d).leaving = false)
      (gone : pc.leaving = false) (unpublished : (s.drive d).published = false) :
      Effect s a ({ s with ssock := false, leaving := leaving }.goDrive d pc)

theorem effect_of_call (taken : callStep s c = some s') : Effect s (.call c) s' := by
  unfold callStep at taken
  cases at_ : s.call c
  case join thread =>
    cases thread <;> simp only [at_] at taken
    · cases taken
      exact .aside ⟨rfl, rfl, rfl, rfl, rfl⟩ rfl
    · split at taken <;> cases taken
      exact .aside ⟨rfl, rfl, rfl, rfl, rfl⟩ rfl
  all_goals simp only [at_] at taken
  case idle | start => cases taken
  case returns l =>
    cases taken
    exact .returns at_ rfl rfl rfl rfl rfl rfl
  case register l =>
    cases taken
    exact .registers at_
  case checkClosed | test | count | poll | assign | closeClosed | closeSet | closeTest |
      closeClear | stop | unlock =>
    cases taken
    exact .aside ⟨rfl, rfl, rfl, rfl, rfl⟩ rfl
  case lock | reuse | runtime | releaseLock | releaseCount =>
    split at taken <;> cases taken
    all_goals exact .aside ⟨rfl, rfl, rfl, rfl, rfl⟩ rfl

omit [DecidableEq L] in
theorem effect_of_drive (taken : driveStep s d = some s') : Effect s a s' := by
  unfold driveStep at taken
  cases at_ : s.drive d <;> simp only [at_] at taken
  case outside => cases taken
  case ssockSet =>
    cases taken
    exact .opens at_
  case publishRegistry =>
    cases taken
    exact .publishes at_
  case looping =>
    cases taken
    split
    · exact .leaves at_
    · exact .aside ⟨rfl, rfl, rfl, rfl, rfl⟩ rfl
  case dropRegistry =>
    cases taken
    exact .withdraws at_
  case ssockStop e =>
    cases taken
    refine .shuts ?_ ?_ (by split <;> rfl) (by rw [at_]; rfl)
    · intro u other
      simp [List.mem_filter, other]
    · intro member
      simp [List.mem_filter] at member
  case ssockTest =>
    cases taken
    refine .goes at_ ⟨rfl, rfl, rfl, rfl, rfl⟩ rfl ?_
    split <;> rfl
  case setBlocking | sigReg | pollNew | publishWaker | publishSchedule | dropSchedule | dropWaker |
      unstop =>
    cases taken
    exact .goes at_ ⟨rfl, rfl, rfl, rfl, rfl⟩ rfl rfl
  case sigDereg e =>
    cases taken
    refine .goes at_ ⟨rfl, rfl, rfl, rfl, rfl⟩ rfl ?_
    cases e <;> rfl

omit [DecidableEq L] in
theorem effect_of_fail (taken : failStep s d = some s') : Effect s a s' := by
  unfold failStep at taken
  cases at_ : s.drive d <;> simp only [at_] at taken
  case setBlocking =>
    cases taken
    refine .shuts (fun _ _ => Iff.rfl) (fun member => ⟨member, ?_⟩) rfl ?_
    all_goals rw [at_]
    all_goals rfl
  case looping =>
    cases taken
    exact .leaves at_
  case ssockSet | sigReg | pollNew =>
    cases taken
    exact .goes at_ ⟨rfl, rfl, rfl, rfl, rfl⟩ rfl rfl
  all_goals cases taken

theorem effect_of_step (taken : step s a = some s') : Effect s a s' := by
  cases a with
  | call c => exact effect_of_call taken
  | drive d => exact effect_of_drive taken
  | fail d => exact effect_of_fail taken
  | start c d =>
      simp only [step] at taken
      split at taken
      · split at taken <;> cases taken
        rename_i outside
        exact .goes outside ⟨rfl, rfl, rfl, rfl, rfl⟩ rfl rfl
      · cases taken
  | run d =>
      simp only [step] at taken
      split at taken <;> cases taken
      rename_i outside
      exact .goes outside.2 ⟨rfl, rfl, rfl, rfl, rfl⟩ rfl rfl
  | raises c =>
      simp only [step] at taken
      split at taken
      · cases taken
        exact .aside ⟨rfl, rfl, rfl, rfl, rfl⟩ rfl
      · split at taken <;> cases taken
        exact .aside ⟨rfl, rfl, rfl, rfl, rfl⟩ rfl
      · cases taken
  | register | close | cached | timeout | create | stop =>
      simp only [step] at taken
      split at taken <;> cases taken
      exact .aside ⟨rfl, rfl, rfl, rfl, rfl⟩ rfl

/-! ## The invariant -/

/-- While `_ssock_w` is set the registry is published, unless a thread that
drives the runtime is starting or leaving; and what `acquire` has promised holds. -/
structure Ready (s : State L C D) : Prop where
  listed : ∀ d, d ∈ s.leaving ↔ (s.drive d).leaving = true
  signalled : s.ssock = true →
    (∃ d, (s.drive d).starting = true) ∨ s.leaving ≠ [] ∨ s.registry = true
  promise : s.promised = true → s.registry = true ∧ s.leaving = []
  calm : s.panicked = false

omit [DecidableEq L] [DecidableEq C] in
/-- The threads that are leaving, after a thread has gone on. -/
theorem Ready.goes_listed (ready : Ready s) (drive : b.drive = s.drive)
    (others : ∀ u, u ≠ d → (u ∈ b.leaving ↔ u ∈ s.leaving))
    (mine : d ∈ b.leaving ↔ pc.leaving = true) (u : D) :
    u ∈ (b.goDrive d pc).leaving ↔ ((b.goDrive d pc).drive u).leaving = true := by
  by_cases self : u = d
  · subst self
    rw [goDrive_self]
    exact mine
  · rw [goDrive_other b self, drive, ← ready.listed u]
    exact others u self

omit [DecidableEq L] [DecidableEq C] in
/-- A thread that is starting is so still, unless it is the one that has gone on. -/
theorem starting_goes (drive : b.drive = s.drive)
    (keeps : (s.drive d).starting = true → pc.starting = true)
    (starts : ∃ u, (s.drive u).starting = true) :
    ∃ u, ((b.goDrive d pc).drive u).starting = true := by
  obtain ⟨u, isStarting⟩ := starts
  refine ⟨u, ?_⟩
  by_cases self : u = d
  · subst self
    rw [goDrive_self]
    exact keeps isStarting
  · rwa [goDrive_other b self, drive]

omit [DecidableEq L] [DecidableEq C] [DecidableEq D] in
theorem Ready.aside (ready : Ready s) (same : Same s s') (drive : s'.drive = s.drive) :
    Ready s' := by
  obtain ⟨ssock, registry, leaving, promised, panicked⟩ := same
  refine ⟨?_, ?_, ?_, panicked.trans ready.calm⟩
  · rw [leaving, drive]
    exact ready.listed
  · rw [ssock, drive, leaving, registry]
    exact ready.signalled
  · rw [promised, registry, leaving]
    exact ready.promise

omit [DecidableEq L] [DecidableEq C] in
theorem Ready.goes (ready : Ready s) (same : Same s b) (drive : b.drive = s.drive)
    (leads : (s.drive d).leads pc = true) : Ready (b.goDrive d pc) := by
  obtain ⟨starting, leaving, -⟩ := DrivePc.leads_iff.mp leads
  have aside := ready.aside same drive
  refine ⟨?_, ?_, aside.promise, aside.calm⟩
  · refine ready.goes_listed drive (fun u _ => by rw [same.leaving]) ?_
    rw [same.leaving, ready.listed d, leaving]
  · intro isSet
    exact (aside.signalled isSet).imp_left fun starts =>
      starting_goes drive starting (drive ▸ starts)

omit [DecidableEq L] [DecidableEq C] [DecidableEq D] in
/-- What is published when `acquire` returns is the registry. -/
theorem Ready.returns (ready : Ready s) (started : ∀ d, (s.drive d).starting = false)
    (driven : s.driven = true) : s.registry = true ∧ s.leaving = [] := by
  obtain ⟨isSet, none_⟩ := Bool.and_eq_true_iff.mp driven
  have nobody : s.leaving = [] := List.isEmpty_iff.mp none_
  rcases ready.signalled isSet with ⟨d, starting⟩ | somebody | published
  · rw [started d] at starting
    cases starting
  · exact absurd nobody somebody
  · exact ⟨published, nobody⟩

omit [DecidableEq L] in
theorem ready_step (ready : Ready s) (guard : ReturnsStarted s a) (effect : Effect s a s') :
    Ready s' := by
  cases effect with
  | aside same drive => exact ready.aside same drive
  | goes at_ same drive leads => exact ready.goes same drive (at_ ▸ leads)
  | @returns c l _ at_ drive registry ssock leaving promised panicked =>
      refine ⟨?_, ?_, ?_, panicked.trans ready.calm⟩
      · rw [leaving, drive]
        exact ready.listed
      · rw [ssock, drive, leaving, registry]
        exact ready.signalled
      · rw [promised, registry, leaving, Bool.or_eq_true]
        rintro (before | driven)
        · exact ready.promise before
        · exact ready.returns (guard l at_) driven
  | registers =>
      refine ⟨ready.listed, ready.signalled, ready.promise, ?_⟩
      show (s.panicked || (s.promised && !s.registry)) = false
      rw [ready.calm, Bool.false_or]
      cases isPromised : s.promised with
      | false => rfl
      | true => simp [(ready.promise isPromised).1]
  | @opens _ d at_ =>
      refine ⟨?_, fun _ => .inl ⟨d, by rw [goDrive_self]; rfl⟩, ready.promise, ready.calm⟩
      refine ready.goes_listed rfl (fun _ _ => Iff.rfl) ((ready.listed d).trans ?_)
      rw [at_]
      rfl
  | @publishes _ d at_ =>
      refine ⟨?_, fun _ => .inr (.inr rfl), fun isPromised => ?_, ready.calm⟩
      · refine ready.goes_listed rfl (fun _ _ => Iff.rfl) ((ready.listed d).trans ?_)
        rw [at_]
        rfl
      · exact ⟨rfl, (ready.promise isPromised).2⟩
  | @leaves _ d at_ =>
      refine ⟨?_, fun _ => .inr (.inl (List.cons_ne_nil _ _)), ?_, ready.calm⟩
      · refine ready.goes_listed rfl (fun u other => ?_) (iff_of_true List.mem_cons_self rfl)
        exact List.mem_cons.trans (or_iff_right other)
      · rintro ⟨⟩
  | @withdraws _ d at_ =>
      -- nothing is promised any more: `d` has left its loop before
      have isLeaving : d ∈ s.leaving := by
        rw [ready.listed d, at_]
        rfl
      have somebody : s.leaving ≠ [] := List.ne_nil_of_mem isLeaving
      refine ⟨?_, fun _ => .inr (.inl somebody), fun isPromised => ?_, ready.calm⟩
      · exact ready.goes_listed rfl (fun _ _ => Iff.rfl) (iff_of_true isLeaving rfl)
      · exact absurd (ready.promise isPromised).2 somebody
  | @shuts _ d pc leaving others mine gone =>
      -- `_ssock_w` is `None`, and `d` is not one of those that are leaving
      have notLeft : d ∉ leaving := by
        intro member
        obtain ⟨was, notLeaving⟩ := mine member
        rw [(ready.listed d).mp was] at notLeaving
        cases notLeaving
      refine ⟨?_, ?_, fun isPromised => ?_, ready.calm⟩
      · exact ready.goes_listed rfl others (iff_of_false notLeft (by simp [gone]))
      · rintro ⟨⟩
      · obtain ⟨published, nobody⟩ := ready.promise isPromised
        refine ⟨published, List.eq_nil_iff_forall_not_mem.mpr fun u member => ?_⟩
        by_cases self : u = d
        · exact notLeft (self ▸ member)
        · have was := (others u self).mp member
          rw [nobody] at was
          cases was

theorem ready_of_reachable (reached : (machine L C D).Reach ReturnsStarted s) : Ready s := by
  refine reached.invariant Ready ?_ fun _ _ _ ready guard taken =>
    ready_step ready guard (effect_of_step taken)
  rintro _ rfl
  refine ⟨fun d => ?_, ?_, ?_, rfl⟩
  · simp [fresh, DrivePc.leaving]
  · rintro ⟨⟩
  · rintro ⟨⟩

/-- In every run in which no `acquire` returns while a thread that drives the
runtime has set `_ssock_w` and not yet published `io_registry`: after an
`acquire` has returned and until the runtime is stopped the registry is there,
and no `io_register` panics. -/
theorem registers_after_acquire (reached : (machine L C D).Reach ReturnsStarted s) :
    (s.promised = true → s.registry = true) ∧ s.panicked = false := by
  have ready := ready_of_reachable reached
  exact ⟨fun isPromised => (ready.promise isPromised).1, ready.calm⟩

/-! ## A call that returns too early -/

/-- Whoever has published the registry is still there. -/
def Held (s : State L C D) : Prop :=
  s.registry = true → ∃ d, (s.drive d).published = true

omit [DecidableEq L] [DecidableEq C] in
theorem Held.goes (held : Held s) (registry : b.registry = s.registry) (drive : b.drive = s.drive)
    (keeps : (s.drive d).published = true → pc.published = true) : Held (b.goDrive d pc) := by
  intro published
  obtain ⟨u, isPublished⟩ := held (registry.symm.trans published)
  refine ⟨u, ?_⟩
  by_cases self : u = d
  · subst self
    rw [goDrive_self]
    exact keeps isPublished
  · rwa [goDrive_other b self, drive]

omit [DecidableEq L] in
theorem held_effect (held : Held s) (effect : Effect s a s') : Held s' := by
  cases effect with
  | aside same drive =>
      rw [Held, same.registry, drive]
      exact held
  | returns _ drive registry =>
      rw [Held, registry, drive]
      exact held
  | registers => exact held
  | goes at_ same drive leads =>
      exact held.goes same.registry drive (DrivePc.leads_iff.mp (at_ ▸ leads)).2.2
  | opens at_ => exact held.goes rfl rfl (by simp [at_, DrivePc.published])
  | @publishes _ d at_ => exact fun _ => ⟨d, by rw [goDrive_self]; rfl⟩
  | leaves at_ => exact held.goes rfl rfl fun _ => rfl
  | withdraws => rintro ⟨⟩
  | shuts _ _ _ unpublished => exact held.goes rfl rfl (by simp [unpublished])

theorem held_of_reachable (reached : (machine L C D).Reachable s) : Held s := by
  refine reached.invariant Held ?_ fun _ _ _ held _ taken => held_effect held (effect_of_step taken)
  rintro _ rfl ⟨⟩

theorem register_panics (at_ : s.call c = .returns l) (driven : s.driven = true)
    (unpublished : s.registry = false) :
    ((machine L C D).exec s [.call c, .call c, .call c]).any State.panicked = true := by
  simp [Machine.exec, machine, step, callStep, at_, State.goCall, driven, unpublished]

/-- The condition is not too strong: an `acquire` that returns to a loop while
the only thread in `run_forever` is starting lets the loop's next registration
panic. -/
theorem register_panics_while_starting (reached : (machine L C D).Reachable s)
    (at_ : s.call c = .returns l) (driven : s.driven = true)
    (starting : (s.drive d).starting = true) (alone : ∀ e, e ≠ d → s.drive e = .outside) :
    ((machine L C D).exec s [.call c, .call c, .call c]).any State.panicked = true := by
  refine register_panics at_ driven ?_
  by_contra published
  obtain ⟨e, isPublished⟩ := held_of_reachable reached (Bool.not_eq_false _ ▸ published)
  by_cases self : e = d
  · subst self
    cases pc : s.drive e <;> simp [pc, DrivePc.starting, DrivePc.published] at starting isPublished
  · rw [alone e self] at isPublished
    cases isPublished

/-! ### A thread that is fast enough, and one that is not -/

/-- A loop calls `add_reader` and starts the runtime. -/
def addReader : List (Act Unit Unit Unit) :=
  [.register () (), .call (), .call (), .call (), .call (), .call (), .call (), .start () ()]

/-- The thread has published the registry when `acquire` looks at `_ssock_w`. -/
def inTime : List (Act Unit Unit Unit) :=
  addReader ++ [.drive (), .drive (), .drive (), .drive (), .drive (), .drive ()] ++
    [.call (), .call (), .call ()]

/-- `acquire` finds `_ssock_w` as soon as it is set. -/
def tooEarly : List (Act Unit Unit Unit) :=
  addReader ++ [.drive (), .drive ()] ++ [.call (), .call (), .call (), .call ()]

def returnsStarted (s : State Unit Unit Unit) : Act Unit Unit Unit → Bool
  | .call _ => match s.call () with
      | .returns _ => !(s.drive ()).starting
      | _ => true
  | _ => true

theorem returnsStarted_sound (s : State Unit Unit Unit) (a : Act Unit Unit Unit)
    (ok : returnsStarted s a = true) : ReturnsStarted s a := by
  cases a with
  | call c =>
      intro l at_ d
      have checked : (!(s.drive ()).starting) = true := by
        simpa only [returnsStarted, show s.call () = _ from at_] using ok
      simpa using checked
  | _ => trivial

theorem inTime_ends :
    ((machine Unit Unit Unit).execIf returnsStarted fresh inTime).any (fun s =>
      s.promised ∧ s.call () = .register ()) = true := by
  decide +kernel

theorem registers_after_acquire_in_time :
    ∃ s : State Unit Unit Unit, (machine Unit Unit Unit).Reach ReturnsStarted s ∧
      s.promised = true ∧ s.call () = .register () ∧ s.registry = true := by
  obtain ⟨s, reached, ends⟩ :=
    Machine.Reach.exists_of_execIf returnsStarted_sound rfl inTime_ends
  obtain ⟨isPromised, at_⟩ := of_decide_eq_true ends
  exact ⟨s, reached, isPromised, at_, (registers_after_acquire reached).1 isPromised⟩

theorem tooEarly_ends :
    ((machine Unit Unit Unit).exec fresh tooEarly).any (fun s => s.panicked) = true := by
  decide +kernel

theorem registration_panics_after_acquire :
    ¬∀ s : State Unit Unit Unit, (machine Unit Unit Unit).Reachable s →
      (s.promised = true → s.registry = true) ∧ s.panicked = false := by
  intro safe
  obtain ⟨s, reached, panicked⟩ := Machine.Reachable.exists_of_exec rfl tooEarly_ends
  rw [(safe s reached).2] at panicked
  cases panicked

end MtAsyncio.Startup
