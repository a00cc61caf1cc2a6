/-
Module: MtAsyncio.Proofs.QueueServed
Purpose: Whether somebody sleeps beside an item or a free slot.  Each item that
  is put wakes one getter and each one taken wakes one putter; a woken call that
  is cancelled before it parks leaves without passing the wake on.
Trusted boundary: none
Main exports: InFlight, Served, available, PassesOn, queue_serves_waiters,
  getter_stranded
-/
import MtAsyncio.Lib.Counting
import MtAsyncio.Proofs.QueueContent
import MtAsyncio.Proofs.WaitingLists

namespace MtAsyncio.Waiting

open Lib (AtLeast)
open Tasks

variable {S K T F C : Type} [DecidableEq S] [DecidableEq T] [DecidableEq F]
variable {w w' : Waits S K T F C} {side : K → S} {sd : S} {t u : T} {k : K} {f g : F} {n m : Nat}

/-! ## Calls in flight -/

/-- The future of the task's call was given a result, and the task has not
entered its next locked section. -/
def InFlight (side : K → S) (w : Waits S K T F C) (sd : S) (t : T) : Prop :=
  ∃ k f, (w.place t).call = some (k, f) ∧ side k = sd ∧ w.kernel.state (.fut f) = .finished

/-- There is no live future on the deque, or at least `n` calls are in flight. -/
def Served (side : K → S) (w : Waits S K T F C) (sd : S) (n : Nat) : Prop :=
  (∀ f ∈ w.waiters sd, w.done f = true) ∨ AtLeast (InFlight side w sd) n

omit [DecidableEq S] [DecidableEq T] [DecidableEq F] in
theorem Served.mono (served : Served side w sd n) (fewer : m ≤ n) : Served side w sd m :=
  served.imp_right fun flying => flying.mono (fun _ => id) fewer

omit [DecidableEq S] [DecidableEq T] [DecidableEq F] in
theorem Served.zero : Served side w sd 0 :=
  .inr .zero

omit [DecidableEq S] [DecidableEq T] [DecidableEq F] in
/-- No future gets live, and no call of the side is grounded. -/
theorem Served.of_kept (served : Served side w sd n)
    (waiters : ∀ f ∈ w'.waiters sd, w'.done f = false → f ∈ w.waiters sd ∧ w.done f = false)
    (flying : ∀ u, InFlight side w sd u → InFlight side w' sd u) : Served side w' sd n := by
  obtain dead | flies := served
  · left
    intro f member
    by_contra live
    obtain ⟨was, alive⟩ := waiters f member (by simpa using live)
    rw [dead f was] at alive
    cases alive
  · exact .inr (flies.mono flying le_rfl)

omit [DecidableEq S] [DecidableEq F] in
/-- One call of the side is grounded. -/
theorem Served.of_lost (served : Served side w sd n)
    (waiters : ∀ f ∈ w'.waiters sd, w'.done f = false → f ∈ w.waiters sd ∧ w.done f = false)
    (flying : ∀ u, u ≠ t → InFlight side w sd u → InFlight side w' sd u) :
    Served side w' sd (n - 1) := by
  obtain dead | flies := served
  · left
    intro f member
    by_contra live
    obtain ⟨was, alive⟩ := waiters f member (by simpa using live)
    rw [dead f was] at alive
    cases alive
  · exact .inr (flies.lose flying)

section Kernel

variable {kernel : Kernel T F C}

omit [DecidableEq S] [DecidableEq T] [DecidableEq F] in
theorem inFlight_setKernel (registered : Registered side w)
    (eased : Eased w.issued w.kernel kernel) (flies : InFlight side w sd t) :
    InFlight side (w.setKernel kernel) sd t := by
  obtain ⟨k, f, call, isSide, finished⟩ := flies
  have made := registered.used t f (Place.future_of_call call)
  exact ⟨k, f, call, isSide, (eased.finished made).mpr finished⟩

omit [DecidableEq S] [DecidableEq T] [DecidableEq F] in
theorem Served.setKernel (served : Served side w sd n) (registered : Registered side w)
    (eased : Eased w.issued w.kernel kernel) : Served side (w.setKernel kernel) sd n := by
  refine served.of_kept ?_ fun u => inFlight_setKernel registered eased
  intro f member live
  refine ⟨member, done_eq_false.mpr ?_⟩
  exact eased.pending (registered.issued_of_mem member) (done_eq_false.mp live)

end Kernel

omit [DecidableEq S] [DecidableEq F] in
/-- A task that goes on with its call, or that had none in flight. -/
theorem Served.setPlace (served : Served side w sd n) {p : Place K F}
    (goes : InFlight side w sd t → p.call = (w.place t).call) :
    Served side (w.setPlace t p) sd n := by
  refine served.of_kept (fun f member live => ⟨member, live⟩) ?_
  intro u flies
  by_cases isT : u = t
  · subst isT
    obtain ⟨k, f, call, rest⟩ := id flies
    refine ⟨k, f, ?_, rest⟩
    rw [setPlace_self, goes flies]
    exact call
  · obtain ⟨k, f, call, rest⟩ := flies
    refine ⟨k, f, ?_, rest⟩
    rw [setPlace_other w p isT]
    exact call

omit [DecidableEq S] [DecidableEq F] in
/-- A call of the side ends. -/
theorem Served.ground (served : Served side w sd n) {p : Place K F} :
    Served side (w.setPlace t p) sd (n - 1) := by
  refine served.of_lost (t := t) (fun f member live => ⟨member, live⟩) ?_
  rintro u other ⟨k, f, call, rest⟩
  refine ⟨k, f, ?_, rest⟩
  rw [setPlace_other w p other]
  exact call

omit [DecidableEq S] [DecidableEq F] in
/-- The await of a future with a result does not lose the call. -/
theorem afterAwait_call (registered : Registered side w) {kernel : Kernel T F C} {pc : AwaitPc}
    {next : AwaitPc ⊕ Outcome} (at_ : w.place t = .waiting k f pc)
    (taken : w.kernel.awaitStep t (.fut f) pc = some (kernel, next))
    (finished : w.kernel.state (.fut f) = .finished) :
    (Waits.afterAwait k f next).call = some (k, f) := by
  cases pc with
  | read =>
      have set := registered.resumed t k f .read at_ rfl
      simp only [Kernel.awaitStep, set, if_true, Kernel.read, finished] at taken
      cases taken
      rfl
  | arm | ready | suspended =>
      simp only [Kernel.awaitStep] at taken
      split at taken <;> cases taken <;> rfl
  | _ =>
      cases taken
      rfl

omit [DecidableEq S] [DecidableEq F] in
theorem Served.await (served : Served side w sd n) (registered : Registered side w) {pc : AwaitPc}
    (at_ : w.place t = .waiting k f pc) (taken : w.await t k f pc = some w') :
    Served side w' sd n := by
  obtain ⟨⟨kernel, next⟩, moved, rfl⟩ := Option.map_eq_some_iff.mp taken
  have eased : Eased w.issued w.kernel kernel := awaitStep_eased moved
  refine (served.setKernel registered eased).setPlace ?_
  rintro ⟨k', g, call, -, finished⟩
  have here : (w.place t).call = some (k, f) := congrArg Place.call at_
  obtain ⟨rfl, rfl⟩ : k = k' ∧ f = g := by simpa using here.symm.trans call
  have made := registered.used t f (congrArg Place.future at_)
  rw [afterAwait_call registered at_ moved ((eased.finished made).mp finished)]
  exact here.symm

/-- A call of the other side parks. -/
theorem Served.park (served : Served side w sd n) (registered : Registered side w)
    (other : side k ≠ sd) (grounded : ¬InFlight side w sd t)
    (taken : w.park t k (side k) f = some w') : Served side w' sd n := by
  have parked := park_spec registered.facts taken
  have waiters : w'.waiters sd = w.waiters sd := by
    rw [parked.waiters, Function.update_of_ne other.symm]
  refine served.of_kept ?_ ?_
  · intro g member live
    rw [waiters] at member
    have apart := parked.ne_of_issued (registered.issued_of_mem member)
    exact ⟨member, done_eq_false.mpr ((parked.state g apart).symm.trans (done_eq_false.mp live))⟩
  · intro u flies
    have notT : u ≠ t := by
      rintro rfl
      exact grounded flies
    obtain ⟨k', g, call, isSide, finished⟩ := flies
    have apart := parked.ne_of_issued (registered.used u g (Place.future_of_call call))
    refine ⟨k', g, ?_, isSide, (parked.state g apart).trans finished⟩
    rw [parked.place, Function.update_of_ne notT]
    exact call

theorem leave_waiters {side' : S} (member : g ∈ (w.leave t side' f).waiters sd) :
    g ∈ w.waiters sd := by
  simp only [Waits.leave, Waits.setPlace, Waits.setWaiters, Function.update_apply] at member
  split at member
  · rename_i isSide
    exact isSide ▸ List.mem_of_mem_erase member
  · exact member

/-- A call that is not in flight leaves its deque. -/
theorem Served.leave (served : Served side w sd n) {side' : S} (grounded : ¬InFlight side w sd t) :
    Served side (w.leave t side' f) sd n := by
  refine served.of_kept (fun g member live => ⟨leave_waiters member, live⟩) ?_
  intro u flies
  have notT : u ≠ t := by
    rintro rfl
    exact grounded flies
  obtain ⟨k', g, call, rest⟩ := flies
  refine ⟨k', g, ?_, rest⟩
  rw [Waits.leave, setPlace_other _ _ notT]
  exact call

/-- A call in flight leaves. -/
theorem Served.leave_lost (served : Served side w sd n) {side' : S} :
    Served side (w.leave t side' f) sd (n - 1) := by
  refine served.of_lost (t := t) (fun g member live => ⟨leave_waiters member, live⟩) ?_
  rintro u other ⟨k', g, call, rest⟩
  refine ⟨k', g, ?_, rest⟩
  rw [Waits.leave, setPlace_other _ _ other]
  exact call

theorem inFlight_granted {fs : List F} {sd' : S} (pending : w.done f = false)
    (flies : InFlight side w sd t) : InFlight side ((w.setWaiters sd' fs).setKernel
      (w.kernel.setState (.fut f) .finished)) sd t := by
  obtain ⟨k, g, call, isSide, finished⟩ := flies
  refine ⟨k, g, call, isSide, ?_⟩
  have apart : Ref.fut (T := T) g ≠ .fut f := by
    intro same
    rw [Ref.fut.inj same, done_eq_false.mp pending] at finished
    cases finished
  exact (Function.update_of_ne apart _ _).trans finished

theorem wakeNext_place (w : Waits S K T F C) (sd : S) : (w.wakeNext sd).1.place = w.place := by
  obtain ⟨result, -⟩ | ⟨dead, f, rest, -, -, -, result⟩ := wakeNext_spec w sd
  · rw [result]
    rfl
  · rw [result]
    rfl

/-- The hand-off takes one more call of its side into the air. -/
theorem Served.wakeNext (served : Served side w sd n) (registered : Registered side w) :
    Served side (w.wakeNext sd).1 sd (n + 1) := by
  obtain ⟨result, -⟩ | ⟨dead, f, rest, split, -, live, result⟩ := wakeNext_spec w sd
  · rw [result]
    left
    rw [setWaiters_self]
    intro f member
    cases member
  · have here : f ∈ w.waiters sd := by
      rw [split]
      exact List.mem_append_right _ List.mem_cons_self
    obtain all | flies := served
    · rw [all f here] at live
      cases live
    · obtain ⟨t, k, enrolled, isSide⟩ := registered.queued sd f here
      have call := Place.call_of_enrolled enrolled
      rw [result]
      refine .inr (flies.gain (a := t) ?_ ?_ fun u => inFlight_granted live)
      · rintro ⟨k', g, call', -, finished⟩
        obtain ⟨rfl, rfl⟩ : k = k' ∧ f = g := by simpa using call.symm.trans call'
        rw [done_eq_false.mp live] at finished
        cases finished
      · exact ⟨k, f, call, isSide, Function.update_self ..⟩

/-- The hand-off leaves the other side alone. -/
theorem Served.wakeNext_other (served : Served side w sd n) {sd' : S} (other : sd ≠ sd') :
    Served side (w.wakeNext sd').1 sd n := by
  obtain ⟨result, -⟩ | ⟨dead, f, rest, -, -, live, result⟩ := wakeNext_spec w sd'
  · rw [result]
    refine served.of_kept ?_ fun u => id
    intro g member alive
    simp only [Waits.setWaiters, Function.update_of_ne other] at member
    exact ⟨member, alive⟩
  · rw [result]
    refine served.of_kept ?_ fun u => inFlight_granted live
    intro g member alive
    simp only [Waits.setKernel, Waits.setWaiters, Function.update_of_ne other] at member
    refine ⟨member, ?_⟩
    by_cases isF : g = f
    · exact isF ▸ live
    · refine done_eq_false.mpr ?_
      rw [← done_eq_false.mp alive]
      exact (Function.update_of_ne (fun same => isF (Ref.fut.inj same)) _ _).symm

end MtAsyncio.Waiting

namespace MtAsyncio.Queue

open Lib (AtLeast Discipline Machine Storage)
open Tasks
open Waiting

variable {A B T F C : Type} [DecidableEq T] [DecidableEq F]
variable {D : Discipline A} {storage : Storage D B} {maxsize : Int}
variable {s s' : State A B T F C} {a : Act A T F C} {t : T} {f : F} {k : Call A} {x : A}

/-! ## Items and slots -/

/-- What the calls of a side wait for: the stored items, or the free slots. -/
def available (storage : Storage D B) (maxsize : Int) (s : State A B T F C) : Side → Nat
  | .getter => qlen storage s
  | .putter => (maxsize - qlen storage s).toNat

def Call.other : Call A → Side
  | .get => .putter
  | .put _ => .getter

theorem Call.other_ne_side (k : Call A) : k.other ≠ k.side := by
  cases k <;> rintro ⟨⟩

/-- The except clause of a call whose future was given a result loses a wake
that nobody needs: no live future is on the deque, or more calls are in flight
than there are items (or slots). -/
def PassesOn (storage : Storage D B) (maxsize : Int) (s : State A B T F C) (a : Act A T F C) :
    Prop :=
  ∀ t k f, a = .task t → s.waits.place t = .caught k f →
    s.waits.kernel.state (.fut f) = .finished →
    Served Call.side s.waits k.side (available storage maxsize s k.side + 1)

structure Serving (storage : Storage D B) (maxsize : Int) (s : State A B T F C) : Prop where
  registered : Registered Call.side s.waits
  kept : Kept storage maxsize s
  served : ∀ sd, Served Call.side s.waits sd (available storage maxsize s sd)

omit [DecidableEq T] [DecidableEq F] in
theorem available_eq (same : s'.store = s.store) :
    available storage maxsize s' = available storage maxsize s := by
  funext sd
  cases sd <;> simp only [available, qlen, same]

/-- A call of `k` has got what it waits for: there is less of that, and one
more for the other side. -/
structure Consumes (storage : Storage D B) (maxsize : Int) (k : Call A)
    (s s' : State A B T F C) : Prop where
  waits : s'.waits = (s.waits.wakeNext k.other).1
  own : available storage maxsize s' k.side ≤ available storage maxsize s k.side - 1
  other : available storage maxsize s' k.other ≤ available storage maxsize s k.other + 1

theorem putLocked_consumes (s : State A B T F C) (x : A) :
    Consumes storage maxsize (.put x) s (putLocked storage s x) := by
  have length := Discipline.accepts_length (storage.put_accepts s.store x)
  refine ⟨rfl, ?_, ?_⟩
  · simp only [Call.side, available, qlen, putLocked, length]
    omega
  · simp only [Call.other, available, qlen, putLocked, length]
    exact le_rfl

theorem getLocked_consumes (taken : getLocked storage s = some s') :
    Consumes storage maxsize .get s s' := by
  obtain ⟨⟨x, rest⟩, got, rfl⟩ := Option.map_eq_some_iff.mp taken
  have length := Discipline.returns_length (storage.get_returns _ _ _ got)
  refine ⟨rfl, ?_, ?_⟩
  · simp only [Call.side, available, qlen, length]
    omega
  · simp only [Call.other, available, qlen, length]
    omega

theorem side_cases (k : Call A) (sd : Side) : sd = k.side ∨ sd = k.other := by
  cases k <;> cases sd <;> first | exact .inl rfl | exact .inr rfl

/-- A call without a task: `put_nowait` and `get_nowait`. -/
theorem Serving.consumes (serving : Serving storage maxsize s)
    (consumes : Consumes storage maxsize k s s') (change : Change storage maxsize s s') :
    Serving storage maxsize s' := by
  obtain ⟨registered, kept, served⟩ := serving
  refine ⟨consumes.waits ▸ registered.wakeNext k.other, kept.change change, ?_⟩
  intro sd
  rw [consumes.waits]
  obtain rfl | rfl := side_cases k sd
  · have own := (served k.side).wakeNext_other k.other_ne_side.symm
    exact own.mono (consumes.own.trans (Nat.sub_le _ 1))
  · exact ((served k.other).wakeNext registered).mono consumes.other

/-- The task is at the start of its call, or has waited in it. -/
def AtCall (w : Waits Side (Call A) T F C) (t : T) (k : Call A) : Prop :=
  w.place t = .away ∨ ∃ f, w.place t = .woken k f

omit [DecidableEq T] [DecidableEq F] in
theorem AtCall.enrolled {w : Waits Side (Call A) T F C} (at_ : AtCall w t k) :
    (w.place t).enrolled = none := by
  obtain away | ⟨f, woken⟩ := at_
  · rw [away]
    rfl
  · rw [woken]
    rfl

omit [DecidableEq T] [DecidableEq F] in
/-- A task at a call is in flight on the side of that call only. -/
theorem AtCall.grounded {w : Waits Side (Call A) T F C} (at_ : AtCall w t k) {sd : Side}
    (other : sd ≠ k.side) : ¬InFlight Call.side w sd t := by
  rintro ⟨k', f, call, isSide, -⟩
  obtain away | ⟨g, woken⟩ := at_
  · rw [away] at call
    cases call
  · rw [woken] at call
    cases call
    exact other isSide.symm

omit [DecidableEq F] in
theorem Registered.away {w : Waits Side (Call A) T F C} (registered : Registered Call.side w)
    (free : (w.place t).enrolled = none) : Registered Call.side (w.setPlace t .away) := by
  refine registered.setPlace (by rintro g ⟨⟩) (by rintro _ _ _ ⟨⟩) (by rintro _ ⟨⟩) ?_
    (by rintro _ _ ⟨⟩)
  intro k f enrolled
  rw [free] at enrolled
  cases enrolled

/-- A call gets what it waits for and returns. -/
theorem Serving.succeeds (serving : Serving storage maxsize s) (at_ : AtCall s.waits t k)
    (consumes : Consumes storage maxsize k s s') (change : Change storage maxsize s s') :
    Serving storage maxsize (s'.setPlace t .away) := by
  obtain ⟨registered, kept, served⟩ := serving
  have place : s'.waits.place = s.waits.place := by
    rw [consumes.waits]
    exact wakeNext_place s.waits k.other
  have at' : AtCall s'.waits t k := by
    rw [AtCall, place]
    exact at_
  have registered' : Registered Call.side s'.waits := by
    rw [consumes.waits]
    exact registered.wakeNext k.other
  refine ⟨Registered.away registered' at'.enrolled, (kept.change change).change ?_, ?_⟩
  · exact .same rfl rfl rfl rfl
  · intro sd
    show Served Call.side (s'.waits.setPlace t .away) sd (available storage maxsize s' sd)
    obtain rfl | rfl := side_cases k sd
    · have own : Served Call.side s'.waits k.side (available storage maxsize s k.side) := by
        rw [consumes.waits]
        exact (served k.side).wakeNext_other k.other_ne_side.symm
      exact own.ground.mono consumes.own
    · have others : Served Call.side s'.waits k.other
          (available storage maxsize s k.other + 1) := by
        rw [consumes.waits]
        exact (served k.other).wakeNext registered
      refine (others.mono consumes.other).setPlace ?_
      intro flies
      exact absurd flies (at'.grounded k.other_ne_side)

/-- A call that finds nothing waits. -/
theorem Serving.waits (serving : Serving storage maxsize s) (at_ : AtCall s.waits t k)
    (nothing : available storage maxsize s k.side = 0) (taken : wait s t k f = some s') :
    Serving storage maxsize s' := by
  obtain ⟨registered, kept, served⟩ := serving
  obtain ⟨waits, parked, rfl⟩ := Option.map_eq_some_iff.mp taken
  refine ⟨registered.park at_.enrolled parked, kept.change (.same rfl rfl rfl rfl), ?_⟩
  intro sd
  show Served Call.side waits sd (available storage maxsize s sd)
  obtain rfl | rfl := side_cases k sd
  · rw [nothing]
    exact .zero
  · exact (served k.other).park registered k.other_ne_side.symm
      (at_.grounded k.other_ne_side) parked

theorem Serving.enter (serving : Serving storage maxsize s) (at_ : AtCall s.waits t k)
    (taken : enter storage maxsize s t k f = some s') : Serving storage maxsize s' := by
  cases k with
  | put x =>
      simp only [Queue.enter] at taken
      split at taken
      · rename_i full
        refine serving.waits at_ ?_ taken
        have filled := full.2
        simp only [Call.side, available]
        omega
      · rename_i room
        cases taken
        exact serving.succeeds at_ (putLocked_consumes s x) (putLocked_change room x)
  | get =>
      simp only [Queue.enter] at taken
      split at taken
      · obtain ⟨s', got, rfl⟩ := Option.map_eq_some_iff.mp taken
        exact serving.succeeds at_ (getLocked_consumes got) (getLocked_change got)
      · rename_i empty
        refine serving.waits at_ ?_ taken
        simp only [Call.side, available]
        omega

/-- The except clause: a wake that it loses is one that nobody needs. -/
theorem Serving.leave (serving : Serving storage maxsize s)
    (at_ : s.waits.place t = .caught k f)
    (passes : s.waits.kernel.state (.fut f) = .finished →
      Served Call.side s.waits k.side (available storage maxsize s k.side + 1)) :
    Serving storage maxsize { s with waits := s.waits.leave t k.side f } := by
  obtain ⟨registered, kept, served⟩ := serving
  have enrolled : (s.waits.place t).enrolled = some (k, f) := congrArg Place.enrolled at_
  have call : (s.waits.place t).call = some (k, f) := congrArg Place.call at_
  refine ⟨registered.leave enrolled, kept.change (.same rfl rfl rfl rfl), ?_⟩
  intro sd
  show Served Call.side (s.waits.leave t k.side f) sd (available storage maxsize s sd)
  by_cases flies : InFlight Call.side s.waits sd t
  · obtain ⟨k', g, call', rfl, finished⟩ := flies
    obtain ⟨rfl, rfl⟩ : k = k' ∧ f = g := by simpa using call.symm.trans call'
    exact (passes finished).leave_lost.mono le_rfl
  · exact (served sd).leave flies

theorem serving_step [DecidableEq C] (serving : Serving storage maxsize s)
    (passes : PassesOn storage maxsize s a)
    (taken : step storage maxsize s a = some s') : Serving storage maxsize s' := by
  obtain ⟨registered, kept, served⟩ := id serving
  -- the steps that move neither the items nor the deques
  have still : ∀ {r : State A B T F C}, r.waits = s.waits → r.store = s.store →
      Kept storage maxsize r → Serving storage maxsize r := by
    intro r waits store kept
    refine ⟨waits ▸ registered, kept, ?_⟩
    rw [waits, available_eq store]
    exact served
  have keptAfter := kept.change (step_change taken)
  cases a with
  | around a =>
      obtain ⟨waits, moved, rfl⟩ := Option.map_eq_some_iff.mp taken
      refine ⟨registered.around moved, keptAfter, ?_⟩
      obtain ⟨kernel, rfl, eased⟩ := around_eased registered.facts moved
      intro sd
      exact (served sd).setKernel registered eased
  | call t k f =>
      simp only [step] at taken
      split at taken
      · rename_i away
        exact serving.enter (.inl away) taken
      · cases taken
  | task t =>
      simp only [step, taskStep] at taken
      split at taken
      · rename_i k f pc at_
        obtain ⟨waits, moved, rfl⟩ := Option.map_eq_some_iff.mp taken
        refine ⟨registered.await at_ moved, keptAfter, ?_⟩
        intro sd
        exact (served sd).await registered at_ moved
      · rename_i k f at_
        cases taken
        exact serving.leave at_ (passes t k f rfl at_)
      all_goals cases taken
  | again t f =>
      simp only [step] at taken
      split at taken
      · rename_i k g woken
        exact serving.enter (.inr ⟨g, woken⟩) taken
      · cases taken
  | putNowait x =>
      cases taken
      simp only [putNowait]
      split
      · exact serving
      · rename_i room
        exact serving.consumes (putLocked_consumes s x) (putLocked_change room x)
  | getNowait =>
      cases taken
      simp only [getNowait]
      split
      · exact serving
      · cases got : getLocked storage s with
        | none => exact serving
        | some s' => exact serving.consumes (getLocked_consumes got) (getLocked_change got)
  | taskDone =>
      cases taken
      refine still ?_ ?_ keptAfter
      all_goals
        simp only [taskDone]
        split <;> rfl
  | setFinished =>
      simp only [step] at taken
      split at taken
      · cases taken
      · cases taken
        exact still rfl rfl keptAfter

omit [DecidableEq T] [DecidableEq F] in
theorem serving_start (start : Start storage s) : Serving storage maxsize s := by
  refine ⟨.of_fresh start.1, .start start, ?_⟩
  intro sd
  left
  intro f member
  rw [start.1.2.2.1 sd] at member
  cases member

theorem serving_of_reach [DecidableEq C]
    (reached : (machine storage maxsize T F C).Reach (PassesOn storage maxsize) s) :
    Serving storage maxsize s := by
  refine reached.invariant (Serving storage maxsize) ?_ ?_
  · intro s start
    exact serving_start start
  · intro s a s' serving passes taken
    exact serving_step serving passes taken

/-- No getter sleeps beside an item and no putter beside a free slot without a
wake in flight, in every run in which no except clause loses a wake that
somebody needs. -/
theorem queue_serves_waiters [DecidableEq C]
    (reached : (machine storage maxsize T F C).Reach (PassesOn storage maxsize) s) :
    Served Call.side s.waits .getter (qlen storage s) ∧
      (0 < maxsize → Served Call.side s.waits .putter (maxsize - qlen storage s).toNat) := by
  have serving := serving_of_reach reached
  exact ⟨serving.served .getter, fun _ => serving.served .putter⟩

/-- The condition is exact: an except clause that does not meet it strands a
waiter. -/
theorem wake_lost_strands [DecidableEq C] (at_ : s.waits.place t = .caught k f)
    (finished : s.waits.kernel.state (.fut f) = .finished)
    (needed : ¬Served Call.side s.waits k.side (available storage maxsize s k.side + 1))
    (taken : step storage maxsize s (.task t) = some s') :
    ¬Served Call.side s'.waits k.side (available storage maxsize s' k.side) := by
  simp only [step, taskStep, at_] at taken
  cases taken
  have call : (s.waits.place t).call = some (k, f) := congrArg Place.call at_
  rintro (dead | flies)
  · refine needed (.inl ?_)
    intro g member
    by_contra live
    have pending := done_eq_false.mp (Bool.not_eq_true _ ▸ live)
    have other : g ≠ f := by
      rintro rfl
      rw [finished] at pending
      cases pending
    have still : g ∈ (s.waits.leave t k.side f).waiters k.side := by
      simp only [Waits.leave, Waits.setPlace, setWaiters_self]
      exact (List.mem_erase_of_ne other).mpr member
    exact live (dead g still)
  · refine needed (.inr (flies.gain (a := t) ?_ ⟨k, f, call, rfl, finished⟩ ?_))
    · rintro ⟨k', g, gone, -⟩
      rw [Waits.leave, setPlace_self] at gone
      cases gone
    · rintro u ⟨k', g, gone, rest⟩
      by_cases isT : u = t
      · rw [isT, Waits.leave, setPlace_self] at gone
        cases gone
      · rw [Waits.leave, setPlace_other _ _ isT] at gone
        exact ⟨k', g, gone, rest⟩

/-! ## Runs -/

/-- Two getters wait.  The first one is asked to cancel before it parks; an item
wakes it, and it leaves. -/
def strandingRun : List (Act Nat Bool Nat Unit) :=
  List.flatten
    [[.call false .get 10, .call true .get 11, .task true, .task true, .task true],
      [.around (.kernel (.cancel () false)), .around (.kernel (.call ())),
        .around (.kernel (.call ())), .around (.kernel (.call ()))],
      [.putNowait 5, .task false, .task false, .task false]]

theorem strandingRun_ends :
    ((machine (deque Nat) 0 Bool Nat Unit).exec (freshState (deque Nat) _ _ _) strandingRun).any
      (fun s => s.store = [5] ∧ s.waits.waiters .getter = [11] ∧
        s.waits.place false = .away ∧ s.waits.place true = .waiting .get 11 .suspended ∧
        s.waits.kernel.state (.fut 11) = .pending) = true := by
  decide +kernel

/-- A getter sleeps beside an item, and no getter is in flight. -/
theorem getter_stranded :
    ¬ ∀ s : State Nat (List Nat) Bool Nat Unit,
      (machine (deque Nat) 0 Bool Nat Unit).Reachable s →
        Served Call.side s.waits .getter (qlen (deque Nat) s) := by
  intro always
  obtain ⟨s, reached, ends⟩ := Machine.Reachable.exists_of_exec freshState_start strandingRun_ends
  obtain ⟨store, waiters, away, waiting, pending⟩ := of_decide_eq_true ends
  have one : qlen (deque Nat) s = 1 := by
    rw [qlen, store]
    rfl
  have grounded : ∀ t, ¬InFlight Call.side s.waits .getter t := by
    rintro t ⟨k, f, call, -, finished⟩
    cases t with
    | false =>
        rw [away] at call
        cases call
    | true =>
        rw [waiting] at call
        cases call
        rw [pending] at finished
        cases finished
  obtain dead | ⟨those, flying, size⟩ := always s reached
  · have ended := dead 11 (by rw [waiters]; exact List.mem_cons_self)
    exact done_eq_true.mp ended pending
  · rw [one] at size
    obtain ⟨t, member⟩ := Finset.card_pos.mp size
    exact grounded t (flying t member)

/-- No except clause runs on a future with a result. -/
def unlost (s : State A B T F C) : Act A T F C → Bool
  | .task t =>
      match s.waits.place t with
      | .caught _ f => s.waits.kernel.state (.fut f) ≠ .finished
      | _ => true
  | _ => true

omit [DecidableEq T] [DecidableEq F] in
theorem unlost_sound (s : State A B T F C) (a : Act A T F C) (checked : unlost s a = true) :
    PassesOn storage maxsize s a := by
  rintro t k f rfl at_ finished
  simp only [unlost, at_, finished] at checked
  cases checked

/-- Two getters wait; the first one is cancelled while it sleeps, and an item
wakes the second one. -/
def cancelledRun : List (Act Nat Bool Nat Unit) :=
  List.flatten
    [[.call false .get 10, .task false, .task false, .task false],
      [.call true .get 11, .task true, .task true, .task true],
      .around (.kernel (.cancel () false)) :: .replicate 4 (.around (.kernel (.call ()))),
      .around (.kernel (.wake (.fut 10))) :: .replicate 4 (.task false), [.putNowait 5]]

theorem cancelledRun_ends :
    ((machine (deque Nat) 0 Bool Nat Unit).execIf unlost (freshState (deque Nat) _ _ _)
      cancelledRun).any (fun s => s.store = [5] ∧ s.waits.place false = .away ∧
        s.waits.kernel.state (.fut 11) = .finished) = true := by
  decide +kernel

theorem queue_serves_waiters_after_cancel :
    ∃ s : State Nat (List Nat) Bool Nat Unit, s.store = [5] ∧ s.waits.place false = .away ∧
      Served Call.side s.waits .getter (qlen (deque Nat) s) := by
  obtain ⟨s, reached, ends⟩ :=
    Machine.Reach.exists_of_execIf unlost_sound freshState_start cancelledRun_ends
  obtain ⟨store, away, -⟩ := of_decide_eq_true ends
  exact ⟨s, store, away, (queue_serves_waiters reached).1⟩

end MtAsyncio.Queue
