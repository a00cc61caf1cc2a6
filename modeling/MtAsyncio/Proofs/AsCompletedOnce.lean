/-
Module: MtAsyncio.Proofs.AsCompletedOnce
Purpose: What `as_completed` yields and delivers: when no callback takes a future
  out of `todo` before the generator has evaluated its range bound, the generator
  raises nothing, yields one awaitable per future, and the awaitables deliver
  every future once; a callback that comes earlier ends the iteration with an
  error or loses a future.
Trusted boundary: none
Main exports: Late, Delivers, as_completed_delivers, discard_shortens, short_step
-/
import Mathlib.Data.List.Nodup
import Mathlib.Data.List.Perm.Subperm
import MtAsyncio.Model.AsCompleted
import MtAsyncio.Proofs.QueueServed
import MtAsyncio.Proofs.WaitingCalm

namespace MtAsyncio.AsCompleted

open Lib (AtLeast Machine)
open Queue (deque)
open Tasks
open Waiting

variable {F O T W C : Type} [DecidableEq F] [DecidableEq T] [DecidableEq W] [DecidableEq C]
variable {futures : List F} {s s' : State F O T W C} {a : Act F O T W C}
variable {q q' : Queue.State F (List F) T W C} {t : T} {w : W} {f : F} {i : Nat}

/-! ## The queue that the awaitables read from -/

/-- All callers that wait are getters. -/
def Getting (place : T → Place (Queue.Call F) W) : Prop :=
  ∀ t, place t = .away ∨ ∃ w, (place t).call = some (.get, w)

omit [DecidableEq F] [DecidableEq W] in
/-- A task moves, and the others stay where they are. -/
theorem Getting.moved {place : T → Place (Queue.Call F) W} (getting : Getting place)
    {p : Place (Queue.Call F) W} (goes : p = .away ∨ ∃ w, p.call = some (.get, w)) :
    Getting (Function.update place t p) := by
  intro u
  rw [Function.update_apply]
  split
  · exact goes
  · exact getting u

/-- The queue goes through a run of its own, in which nobody is cancelled. -/
structure Fed (q : Queue.State F (List F) T W C) : Prop where
  reached : (Queue.machine (deque F) 0 T W C).Reach (Queue.PassesOn (deque F) 0) q
  calm : Calm q.waits
  getting : Getting q.waits.place

omit [DecidableEq F] in
theorem Fed.registered (fed : Fed q) : Registered Queue.Call.side q.waits :=
  (Queue.serving_of_reach fed.reached).registered

omit [DecidableEq F] in
theorem Fed.inOrder (fed : Fed q) : q.accepted = q.returned ++ q.store :=
  Queue.accepted_eq_returned_append fed.reached.reachable

omit [DecidableEq F] in
theorem Fed.step (fed : Fed q) {act : Queue.Act F T W C}
    (taken : Queue.step (deque F) 0 q act = some q') (calm : Calm q'.waits)
    (getting : Getting q'.waits.place) : Fed q' := by
  refine ⟨.step fed.reached ?_ taken, calm, getting⟩
  intro t k w _ caught
  exact absurd caught (fed.calm.uncaught t k w)

/-- What the queue does beside the locked section of a `get`. -/
structure Quiet (q q' : Queue.State F (List F) T W C) : Prop where
  fed : Fed q'
  returned : q'.returned = q.returned
  accepted : q'.accepted = q.accepted
  call : ∀ t, (q'.waits.place t).call = (q.waits.place t).call

omit [DecidableEq F] in
theorem quiet_around (fed : Fed q) {around : Around T W C} (spares : around.cancels = false)
    (taken : Queue.step (deque F) 0 q (.around around) = some q') : Quiet q q' := by
  obtain ⟨waits, moved, same⟩ := Option.map_eq_some_iff.mp taken
  subst same
  obtain ⟨kernel, rfl, -⟩ := around_eased fed.registered.facts moved
  exact ⟨fed.step taken (fed.calm.around spares moved) fed.getting, rfl, rfl, fun _ => rfl⟩

omit [DecidableEq F] in
theorem quiet_task (fed : Fed q) (taken : Queue.step (deque F) 0 q (.task t) = some q') :
    Quiet q q' := by
  have moved := taken
  simp only [Queue.step, Queue.taskStep] at moved
  split at moved
  · rename_i k w pc at_
    obtain ⟨waits, awaits, rfl⟩ := Option.map_eq_some_iff.mp moved
    obtain ⟨calm, p, call, place⟩ := fed.calm.await fed.registered at_ awaits
    have was : (q.waits.place t).call = some (k, w) := congrArg Place.call at_
    obtain away | ⟨g, get⟩ := fed.getting t
    · rw [at_] at away
      cases away
    · refine ⟨fed.step taken calm ?_, rfl, rfl, ?_⟩
      · show Getting waits.place
        rw [place]
        exact fed.getting.moved (.inr ⟨g, call.trans (was.symm.trans get)⟩)
      · intro u
        show (waits.place u).call = _
        rw [place, Function.update_apply]
        split
        · rename_i isT
          rw [isT, call, was]
        · rfl
  · rename_i k w caught
    exact absurd caught (fed.calm.uncaught t k w)
  all_goals cases moved

omit [DecidableEq F] in
/-- `put_nowait` never finds the queue full. -/
theorem putNowait_spec (fed : Fed q) (f : F) :
    Fed (Queue.putNowait (deque F) 0 q f).1 ∧
      (Queue.putNowait (deque F) 0 q f).1.returned = q.returned ∧
      (Queue.putNowait (deque F) 0 q f).1.accepted = q.accepted ++ [f] ∧
      (Queue.putNowait (deque F) 0 q f).1.waits.place = q.waits.place := by
  have room : ¬Queue.Full (deque F) 0 q := by
    rintro ⟨bounded, -⟩
    exact absurd bounded (by decide)
  have put : (Queue.putNowait (deque F) 0 q f).1 = Queue.putLocked (deque F) q f := by
    rw [Queue.putNowait, if_neg room]
  have place : (Queue.putLocked (deque F) q f).waits.place = q.waits.place :=
    wakeNext_place q.waits .getter
  rw [put]
  refine ⟨?_, rfl, rfl, place⟩
  have moved : Queue.step (deque F) 0 q (.putNowait f) = some (Queue.putLocked (deque F) q f) :=
    congrArg some put
  refine fed.step moved (fed.calm.wakeNext .getter) ?_
  rw [place]
  exact fed.getting

/-- The locked section of a `get` returns the oldest item, or the task waits. -/
structure Gets (q : Queue.State F (List F) T W C) (t : T) (q' : Queue.State F (List F) T W C) :
    Prop where
  fed : Fed q'
  accepted : q'.accepted = q.accepted
  cases_ : (∃ f ∈ q.store, q'.returned = q.returned ++ [f] ∧
      q'.waits.place = Function.update q.waits.place t .away) ∨
    q'.returned = q.returned ∧ ∃ w, q'.waits.place =
      Function.update q.waits.place t (.waiting .get w .test)

omit [DecidableEq F] in
theorem gets_of_enter (fed : Fed q) {act : Queue.Act F T W C}
    (isStep : Queue.step (deque F) 0 q act = Queue.enter (deque F) 0 q t .get w)
    (taken : Queue.step (deque F) 0 q act = some q') : Gets q t q' := by
  have entered := isStep.symm.trans taken
  simp only [Queue.enter] at entered
  split at entered
  · obtain ⟨r, got, rfl⟩ := Option.map_eq_some_iff.mp entered
    obtain ⟨⟨f, rest⟩, front, rfl⟩ := Option.map_eq_some_iff.mp got
    have place : (q.waits.wakeNext .putter).1.place = q.waits.place :=
      wakeNext_place q.waits .putter
    have oldest : q.store = f :: rest := (deque F).get_returns _ _ _ front
    refine ⟨fed.step taken ?_ ?_, rfl, .inl ⟨f, ?_, rfl, ?_⟩⟩
    · exact (fed.calm.wakeNext .putter).setPlace (by rintro _ _ ⟨⟩)
    · show Getting (Function.update (q.waits.wakeNext .putter).1.place t .away)
      rw [place]
      exact fed.getting.moved (.inl rfl)
    · rw [oldest]
      exact List.mem_cons_self
    · exact congrArg (fun place => Function.update place t .away) place
  · obtain ⟨waits, parks, rfl⟩ := Option.map_eq_some_iff.mp entered
    have place := (park_spec fed.registered.facts parks).place
    refine ⟨fed.step taken (fed.calm.park parks) ?_, rfl, .inr ⟨rfl, w, place⟩⟩
    show Getting waits.place
    rw [place]
    exact fed.getting.moved (.inr ⟨w, rfl⟩)

omit [DecidableEq F] in
theorem gets_of_call (fed : Fed q)
    (taken : Queue.step (deque F) 0 q (.call t .get w) = some q') :
    q.waits.place t = .away ∧ Gets q t q' := by
  cases at_ : q.waits.place t with
  | away =>
      refine ⟨rfl, gets_of_enter (w := w) fed ?_ taken⟩
      simp only [Queue.step, at_]
  | _ => simp [Queue.step, at_] at taken

omit [DecidableEq F] in
theorem gets_of_again (fed : Fed q) (taken : Queue.step (deque F) 0 q (.again t w) = some q') :
    Gets q t q' := by
  cases at_ : q.waits.place t with
  | woken k g =>
      have isGet : k = .get := by
        obtain away | ⟨g', get⟩ := fed.getting t
        · rw [at_] at away
          cases away
        · rw [at_] at get
          exact (Prod.mk.inj (Option.some.inj get)).1
      refine gets_of_enter (w := w) fed ?_ taken
      simp only [Queue.step, at_, isGet]
  | _ => simp [Queue.step, at_] at taken

/-! ## The callbacks -/

/-- How many futures the loop has registered at. -/
def GenPc.registered (n : Nat) : GenPc F → Nat
  | .next index | .adding index _ => index
  | _ => n

/-- What the phase of the callback of `f` says about `f`. -/
def Stands (futures : List F) (s : State F O T W C) (f : F) : Prop :=
  match s.phase f with
  | .idle => (f ∈ s.todo ↔ f ∈ futures) ∧ f ∉ s.done.accepted
  | .attached => f ∈ futures ∧ f ∈ s.todo ∧ f ∉ s.done.accepted ∧ s.status f = none
  | .scheduled | .found =>
      f ∈ futures ∧ f ∈ s.todo ∧ f ∉ s.done.accepted ∧ (s.status f).isSome = true
  | .discarded => f ∈ futures ∧ f ∉ s.todo ∧ f ∉ s.done.accepted ∧ (s.status f).isSome = true
  | .ran => f ∈ futures ∧ f ∉ s.todo ∧ f ∈ s.done.accepted ∧ (s.status f).isSome = true

/-- Each callback is attached once, scheduled when its future is done, and puts
the future once. -/
structure Completing (futures : List F) (s : State F O T W C) : Prop where
  stands : ∀ f, Stands futures s f
  idle : s.gen ≠ .raised → ∀ i f, futures[i]? = some f →
    (s.phase f = .idle ↔ s.gen.registered futures.length ≤ i)
  adding : ∀ i f, s.gen = .adding i f → futures[i]? = some f
  sub : s.todo.Sublist futures
  once : s.done.accepted.Nodup

omit [DecidableEq F] [DecidableEq T] [DecidableEq W] [DecidableEq C] in
theorem Stands.same (stands : Stands futures s f) (phase : s'.phase f = s.phase f)
    (status : s'.status f = s.status f) (todo : f ∈ s'.todo ↔ f ∈ s.todo)
    (accepted : f ∈ s'.done.accepted ↔ f ∈ s.done.accepted) : Stands futures s' f := by
  unfold Stands at *
  rwa [phase, status, todo, accepted]

omit [DecidableEq F] [DecidableEq T] [DecidableEq W] [DecidableEq C] in
theorem Completing.moves (completing : Completing futures s)
    (stands : ∀ f, Stands futures s' f) (idle : ∀ f, s'.phase f = .idle ↔ s.phase f = .idle)
    (gen : s'.gen = s.gen) (sub : s'.todo.Sublist s.todo) (once : s'.done.accepted.Nodup) :
    Completing futures s' := by
  refine ⟨stands, ?_, ?_, sub.trans completing.sub, once⟩
  · rw [gen]
    intro unraised i f at_
    rw [idle f]
    exact completing.idle unraised i f at_
  · rw [gen]
    exact completing.adding

omit [DecidableEq F] [DecidableEq T] [DecidableEq W] [DecidableEq C] in
/-- The callbacks stay where they are. -/
theorem Completing.same (completing : Completing futures s) (phase : s'.phase = s.phase)
    (status : s'.status = s.status) (todo : s'.todo = s.todo)
    (accepted : s'.done.accepted = s.done.accepted)
    (registered : s'.gen ≠ .raised → s.gen ≠ .raised ∧ ∀ i, i < futures.length →
      (s'.gen.registered futures.length ≤ i ↔ s.gen.registered futures.length ≤ i))
    (adding : ∀ i f, s'.gen = .adding i f → futures[i]? = some f) : Completing futures s' := by
  obtain ⟨stands, idle, -, sub, once⟩ := completing
  refine ⟨?_, ?_, adding, todo ▸ sub, accepted ▸ once⟩
  · intro f
    exact (stands f).same (congrFun phase f) (congrFun status f) (by rw [todo]) (by rw [accepted])
  · intro unraised i f at_
    obtain ⟨was, same⟩ := registered unraised
    obtain ⟨bound, -⟩ := List.getElem?_eq_some_iff.mp at_
    rw [phase, same i bound]
    exact idle was i f at_

omit [DecidableEq F] [DecidableEq T] [DecidableEq W] [DecidableEq C] in
/-- The generator stays where it is. -/
theorem Completing.rests (completing : Completing futures s) (phase : s'.phase = s.phase)
    (status : s'.status = s.status) (todo : s'.todo = s.todo)
    (accepted : s'.done.accepted = s.done.accepted) (gen : s'.gen = s.gen) :
    Completing futures s' := by
  refine completing.same phase status todo accepted ?_ ?_
  · rw [gen]
    exact fun unraised => ⟨unraised, fun _ _ => Iff.rfl⟩
  · rw [gen]
    exact completing.adding

omit [DecidableEq T] [DecidableEq W] [DecidableEq C] in
theorem setPhase_phase (s : State F O T W C) (f g : F) (p : Phase) :
    (s.setPhase f p).phase g = if g = f then p else s.phase g :=
  Function.update_apply ..

omit [DecidableEq T] [DecidableEq W] [DecidableEq C] in
theorem completing_finish {o : O} (completing : Completing futures s) (live : s.status f = none) :
    Completing futures (s.finish f o) := by
  have phase : ∀ g, (s.finish f o).phase g =
      if g = f then (if s.phase f = .attached then .scheduled else s.phase f) else s.phase g :=
    fun g => setPhase_phase s f g _
  refine completing.moves ?_ ?_ rfl (.refl _) completing.once
  · intro g
    by_cases isF : g = f
    · subst isF
      have stands := completing.stands g
      have result : (s.finish g o).status g = some o := Function.update_self ..
      unfold Stands at stands ⊢
      rw [phase, if_pos rfl]
      cases at_ : s.phase g with
      | attached =>
          rw [at_] at stands
          exact ⟨stands.1, stands.2.1, stands.2.2.1, by rw [result]; rfl⟩
      | idle =>
          rw [at_] at stands
          exact stands
      | scheduled | found | discarded | ran =>
          rw [at_] at stands
          have ended := stands.2.2.2
          rw [live] at ended
          cases ended
    · refine (completing.stands g).same ?_ ?_ Iff.rfl Iff.rfl
      · rw [phase, if_neg isF]
      · exact Function.update_of_ne isF _ _
  · intro g
    rw [phase]
    split
    · rename_i isF
      rw [isF]
      split
      · rename_i attached
        rw [attached]
        decide
      · rfl
    · rfl

omit [DecidableEq T] [DecidableEq W] [DecidableEq C] in
/-- The loop registers at `f`. -/
theorem completing_add {index : Nat} (distinct : futures.Nodup)
    (completing : Completing futures s) (at_ : s.gen = .adding index f) :
    Completing futures { s.setPhase f (if (s.status f).isSome then .scheduled else .attached) with
      gen := .next (index + 1) } := by
  have here := completing.adding index f at_
  have isIdle : s.phase f = .idle := by
    rw [completing.idle (by rw [at_]; rintro ⟨⟩) index f here, at_]
    exact le_rfl
  have member : f ∈ futures := List.mem_of_getElem? here
  have stands := completing.stands f
  unfold Stands at stands
  rw [isIdle] at stands
  refine ⟨?_, ?_, by rintro _ _ ⟨⟩, completing.sub, completing.once⟩
  · intro g
    by_cases isF : g = f
    · subst isF
      unfold Stands
      rw [setPhase_phase, if_pos rfl]
      cases status : s.status g with
      | none => exact ⟨member, stands.1.mpr member, stands.2, status⟩
      | some o => exact ⟨member, stands.1.mpr member, stands.2, congrArg Option.isSome status⟩
    · refine (completing.stands g).same ?_ rfl Iff.rfl Iff.rfl
      exact (setPhase_phase s f g _).trans (if_neg isF)
  · intro _ i g there
    change (s.setPhase f _).phase g = .idle ↔ index + 1 ≤ i
    rw [setPhase_phase]
    split
    · rename_i isF
      subst isF
      have same : i = index := by
        obtain ⟨bound, -⟩ := List.getElem?_eq_some_iff.mp here
        exact ((List.getElem?_inj bound distinct).mp (here.trans there.symm)).symm
      refine iff_of_false ?_ (by omega)
      split <;> decide
    · rename_i other
      have before := completing.idle (by rw [at_]; rintro ⟨⟩) i g there
      rw [at_] at before
      have apart : i ≠ index := by
        rintro rfl
        exact other (Option.some.inj (there.symm.trans here))
      rw [before]
      show index ≤ i ↔ index + 1 ≤ i
      omega

omit [DecidableEq T] [DecidableEq W] [DecidableEq C] in
/-- The callback of `f` goes on. -/
theorem Completing.runs (completing : Completing futures s) {p : Phase}
    (begun : s.phase f ≠ .idle) (goes : p ≠ .idle) (phase : s'.phase = (s.setPhase f p).phase)
    (status : s'.status = s.status) (todo : ∀ g, g ≠ f → (g ∈ s'.todo ↔ g ∈ s.todo))
    (accepted : ∀ g, g ≠ f → (g ∈ s'.done.accepted ↔ g ∈ s.done.accepted))
    (stands : s'.phase f = p → Stands futures s' f) (gen : s'.gen = s.gen)
    (sub : s'.todo.Sublist s.todo) (once : s'.done.accepted.Nodup) : Completing futures s' := by
  have phases : ∀ g, s'.phase g = if g = f then p else s.phase g := by
    intro g
    rw [phase, setPhase_phase]
  refine completing.moves ?_ ?_ gen sub once
  · intro g
    by_cases isF : g = f
    · rw [isF]
      exact stands ((phases f).trans (if_pos rfl))
    · refine (completing.stands g).same ?_ (congrFun status g) (todo g isF) (accepted g isF)
      rw [phases, if_neg isF]
  · intro g
    rw [phases]
    split
    · rename_i isF
      rw [isF]
      exact iff_of_false goes begun
    · rfl

omit [DecidableEq T] [DecidableEq W] [DecidableEq C] in
/-- The callback finds its future in `todo`. -/
theorem completing_find (completing : Completing futures s) (at_ : s.phase f = .scheduled) :
    f ∈ s.todo ∧ Completing futures (s.setPhase f .found) := by
  have stands := completing.stands f
  unfold Stands at stands
  rw [at_] at stands
  refine ⟨stands.2.1, completing.runs (by rw [at_]; decide) (by decide) rfl rfl
    (fun _ _ => Iff.rfl) (fun _ _ => Iff.rfl) ?_ rfl (.refl _) completing.once⟩
  intro phase
  unfold Stands
  rw [phase]
  exact stands

omit [DecidableEq T] [DecidableEq W] [DecidableEq C] in
theorem completing_discard (distinct : futures.Nodup) (completing : Completing futures s)
    (at_ : s.phase f = .found) :
    Completing futures { s.setPhase f .discarded with todo := s.todo.erase f } := by
  have stands := completing.stands f
  unfold Stands at stands
  rw [at_] at stands
  have nodup : s.todo.Nodup := distinct.sublist completing.sub
  refine completing.runs (by rw [at_]; decide) (by decide) rfl rfl
    (fun _ other => List.mem_erase_of_ne other) (fun _ _ => Iff.rfl) ?_ rfl List.erase_sublist
    completing.once
  intro phase
  unfold Stands
  rw [phase]
  exact ⟨stands.1, nodup.not_mem_erase, stands.2.2⟩

theorem completing_put (completing : Completing futures s) (fed : Fed s.done)
    (at_ : s.phase f = .discarded) :
    Completing futures { s.setPhase f .ran with
      done := (Queue.putNowait (deque F) 0 s.done f).1 } := by
  have stands := completing.stands f
  unfold Stands at stands
  rw [at_] at stands
  obtain ⟨-, -, accepted, -⟩ := putNowait_spec fed f
  have member : ∀ g, g ∈ (Queue.putNowait (deque F) 0 s.done f).1.accepted ↔
      g ∈ s.done.accepted ∨ g = f := by
    intro g
    rw [accepted, List.mem_append, List.mem_singleton]
  refine completing.runs (by rw [at_]; decide) (by decide) rfl rfl (fun _ _ => Iff.rfl) ?_ ?_ rfl
    (.refl _) ?_
  · intro g other
    exact (member g).trans (or_iff_left other)
  · intro phase
    unfold Stands
    rw [phase]
    exact ⟨stands.1, stands.2.1, (member f).mpr (.inr rfl), stands.2.2.2⟩
  · show (Queue.putNowait (deque F) 0 s.done f).1.accepted.Nodup
    rw [accepted, List.nodup_append]
    refine ⟨completing.once, List.nodup_singleton f, ?_⟩
    rintro g old h last rfl
    rw [List.mem_singleton.mp last] at old
    exact stands.2.2.1 old

/-! ## The awaitables -/

/-- Each awaitable is awaited by one task, which is inside of `get`, and what the
queue has returned has been delivered. -/
structure Reading (s : State F O T W C) : Prop where
  awaited : ∀ (i : Nat) (t : T), s.ones[i]? = some (.awaited t) →
    ∃ w, (s.done.waits.place t).call = some (.get, w)
  apart : ∀ (i j : Nat) (t : T), s.ones[i]? = some (.awaited t) →
    s.ones[j]? = some (.awaited t) → i = j
  delivered : (s.deliveries.map Prod.fst).Perm s.done.returned
  outcomes : ∀ d ∈ s.deliveries, d.2 = s.status d.1 ∧ d.2.isSome = true

omit [DecidableEq F] [DecidableEq T] in
/-- An awaitable that has delivered nothing changes. -/
theorem delivery_set {ones : List (One F O T)} {one : One F O T} (at_ : ones[i]? = some one)
    (undelivered : one.delivery = none) (new : One F O T) :
    ((ones.set i new).filterMap One.delivery).Perm
      (new.delivery.toList ++ ones.filterMap One.delivery) := by
  induction ones generalizing i with
  | nil => cases at_
  | cons head rest inductionHypothesis =>
      cases i with
      | zero =>
          cases at_
          rw [List.set_cons_zero, List.filterMap_cons_none undelivered]
          cases given : new.delivery with
          | none => rw [List.filterMap_cons_none given]; rfl
          | some d => rw [List.filterMap_cons_some given]; rfl
      | succ i =>
          rw [List.set_cons_succ]
          have rest' := inductionHypothesis at_
          cases given : head.delivery with
          | none =>
              rw [List.filterMap_cons_none given, List.filterMap_cons_none given]
              exact rest'
          | some d =>
              rw [List.filterMap_cons_some given, List.filterMap_cons_some given]
              exact (rest'.cons d).trans List.perm_middle.symm

omit [DecidableEq F] [DecidableEq T] in
/-- An awaitable that is not awaited by another task is set. -/
theorem awaited_set {ones : List (One F O T)} {new : One F O T} {j : Nat} {u : T}
    (mine : ∀ j : Nat, ones[j]? = some (.awaited t) → j = i)
    (at_ : (ones.set i new)[j]? = some (.awaited u)) :
    j = i ∧ new = .awaited u ∨ j ≠ i ∧ u ≠ t ∧ ones[j]? = some (.awaited u) := by
  rw [List.getElem?_set] at at_
  split at at_
  · rename_i here
    split at at_
    · exact .inl ⟨here.symm, Option.some.inj at_⟩
    · cases at_
  · rename_i other
    refine .inr ⟨fun same => other same.symm, ?_, at_⟩
    rintro rfl
    exact other (mine j at_).symm

omit [DecidableEq F] in
theorem reading_resume {one : One F O T} (reading : Reading s) (fed : Fed s.done)
    (completing : Completing futures s) (gets : Gets s.done t q')
    (at_ : s.ones[i]? = some one) (undelivered : one.delivery = none)
    (mine : ∀ j : Nat, s.ones[j]? = some (.awaited t) → j = i) : Reading (s.resume i t q') := by
  -- a task whose awaitable stays as it is
  have stays : ∀ {p : Place (Queue.Call F) W} {j : Nat} {u : T}, u ≠ t →
      q'.waits.place = Function.update s.done.waits.place t p →
        s.ones[j]? = some (.awaited u) →
          ∃ w, (q'.waits.place u).call = some (.get, w) := by
    intro p j u other place was
    rw [place, Function.update_of_ne other]
    exact reading.awaited j u was
  obtain ⟨f, stored, returned, place⟩ | ⟨returned, w, place⟩ := gets.cases_
  · have item : q'.returned[s.done.returned.length]? = some f := by
      rw [returned, List.getElem?_concat_length]
    have resumed : s.resume i t q' =
        { s with done := q', ones := s.ones.set i (.delivered f (s.status f)) } := by
      simp only [State.resume, item]
    have delivers := delivery_set at_ undelivered (.delivered f (s.status f))
    rw [resumed]
    refine ⟨?_, ?_, ?_, ?_⟩
    · intro j u awaited
      obtain ⟨-, ⟨⟩⟩ | ⟨-, other, was⟩ := awaited_set mine awaited
      exact stays other place was
    · intro j k u first second
      obtain ⟨-, ⟨⟩⟩ | ⟨-, -, was⟩ := awaited_set mine first
      obtain ⟨-, ⟨⟩⟩ | ⟨-, -, was'⟩ := awaited_set mine second
      exact reading.apart j k u was was'
    · show (((s.ones.set i _).filterMap One.delivery).map Prod.fst).Perm q'.returned
      rw [returned]
      refine (delivers.map Prod.fst).trans ?_
      exact (reading.delivered.cons f).trans (List.perm_append_singleton f _).symm
    · intro d member
      obtain rfl | old := List.mem_cons.mp (delivers.mem_iff.mp member)
      · refine ⟨rfl, ?_⟩
        have accepted : f ∈ s.done.accepted := by
          rw [fed.inOrder]
          exact List.mem_append_right _ stored
        have stands := completing.stands f
        unfold Stands at stands
        cases phase : s.phase f with
        | ran =>
            rw [phase] at stands
            exact stands.2.2.2
        | idle =>
            rw [phase] at stands
            exact absurd accepted stands.2
        | attached | scheduled | found | discarded =>
            rw [phase] at stands
            exact absurd accepted stands.2.2.1
      · exact reading.outcomes d old
  · have nothing : q'.returned[s.done.returned.length]? = none := by
      rw [returned]
      exact List.getElem?_eq_none le_rfl
    have resumed : s.resume i t q' = { s with done := q', ones := s.ones.set i (.awaited t) } := by
      simp only [State.resume, nothing]
    have delivers := delivery_set at_ undelivered (.awaited t)
    rw [resumed]
    refine ⟨?_, ?_, ?_, ?_⟩
    · intro j u awaited
      obtain ⟨-, same⟩ | ⟨-, other, was⟩ := awaited_set mine awaited
      · cases same
        refine ⟨w, ?_⟩
        rw [place, Function.update_self]
        rfl
      · exact stays other place was
    · intro j k u first second
      obtain ⟨rfl, same⟩ | ⟨-, other, was⟩ := awaited_set mine first
      · cases same
        obtain ⟨rfl, -⟩ | ⟨-, other, -⟩ := awaited_set mine second
        · rfl
        · exact absurd rfl other
      · obtain ⟨-, same⟩ | ⟨-, -, was'⟩ := awaited_set mine second
        · cases same
          exact absurd rfl other
        · exact reading.apart j k u was was'
    · show (((s.ones.set i _).filterMap One.delivery).map Prod.fst).Perm q'.returned
      rw [returned]
      exact (delivers.map Prod.fst).trans reading.delivered
    · intro d member
      exact reading.outcomes d (delivers.mem_iff.mp member)

omit [DecidableEq F] [DecidableEq T] [DecidableEq W] [DecidableEq C] in
theorem Reading.moves (reading : Reading s) (ones : s'.ones = s.ones)
    (call : ∀ t, (s'.done.waits.place t).call = (s.done.waits.place t).call)
    (returned : s'.done.returned = s.done.returned)
    (status : ∀ f, (s.status f).isSome = true → s'.status f = s.status f) : Reading s' := by
  have deliveries : s'.deliveries = s.deliveries := congrArg (List.filterMap One.delivery) ones
  refine ⟨?_, ?_, ?_, ?_⟩
  · intro i t awaited
    rw [call]
    exact reading.awaited i t (ones ▸ awaited)
  · rw [ones]
    exact reading.apart
  · rw [deliveries, returned]
    exact reading.delivered
  · intro d member
    rw [deliveries] at member
    obtain ⟨outcome, isDone⟩ := reading.outcomes d member
    rw [status d.1 (outcome ▸ isDone)]
    exact ⟨outcome, isDone⟩

omit [DecidableEq F] [DecidableEq T] [DecidableEq W] [DecidableEq C] in
theorem reading_yield (reading : Reading s) :
    Reading { s with ones := s.ones ++ [.yielded] } := by
  have was : ∀ {i : Nat} {t : T}, (s.ones ++ [One.yielded])[i]? = some (.awaited t) →
      s.ones[i]? = some (.awaited t) := by
    intro i t awaited
    rw [List.getElem?_append] at awaited
    split at awaited
    · exact awaited
    · cases List.mem_singleton.mp (List.mem_of_getElem? awaited)
  have deliveries : (s.ones ++ [One.yielded]).filterMap One.delivery =
      s.ones.filterMap One.delivery := by
    simp [One.delivery]
  refine ⟨?_, ?_, ?_, ?_⟩
  · intro i t awaited
    exact reading.awaited i t (was awaited)
  · intro i j t first second
    exact reading.apart i j t (was first) (was second)
  · show (((s.ones ++ [One.yielded]).filterMap One.delivery).map Prod.fst).Perm _
    rw [deliveries]
    exact reading.delivered
  · intro d member
    change d ∈ (s.ones ++ [One.yielded]).filterMap One.delivery at member
    rw [deliveries] at member
    exact reading.outcomes d member

/-! ## Every run -/

/-- What holds in every run, however early the callbacks come. -/
structure Inv (futures : List F) (s : State F O T W C) : Prop where
  fed : Fed s.done
  completing : Completing futures s
  reading : Reading s

theorem inv_gen (distinct : futures.Nodup) (inv : Inv futures s)
    (taken : genStep futures s = some s') : Inv futures s' := by
  obtain ⟨fed, completing, reading⟩ := inv
  -- the generator moves on without an awaitable or a callback
  have goes : ∀ {gen : GenPc F}, (gen ≠ .raised → s.gen ≠ .raised ∧ ∀ i, i < futures.length →
      (gen.registered futures.length ≤ i ↔ s.gen.registered futures.length ≤ i)) →
        (∀ i f, gen = .adding i f → futures[i]? = some f) → Inv futures { s with gen := gen } := by
    intro gen registered adding
    exact ⟨fed, completing.same rfl rfl rfl rfl registered adding,
      reading.moves rfl (fun _ => rfl) rfl (fun _ _ => rfl)⟩
  unfold genStep at taken
  cases at_ : s.gen with
  | next index =>
      simp only [at_] at taken
      split at taken
      · obtain rfl := Option.some.inj taken
        exact goes (fun unraised => absurd rfl unraised) (by rintro _ _ ⟨⟩)
      · rename_i size
        have whole : s.todo = futures :=
          completing.sub.eq_of_length (Decidable.not_not.mp size)
        split at taken
        · rename_i f here
          obtain rfl := Option.some.inj taken
          refine goes ?_ ?_
          · rw [at_]
            exact fun _ => ⟨by rintro ⟨⟩, fun _ _ => Iff.rfl⟩
          · rintro _ _ ⟨⟩
            rwa [whole] at here
        · rename_i past
          obtain rfl := Option.some.inj taken
          rw [whole, List.getElem?_eq_none_iff] at past
          refine goes ?_ (by rintro _ _ ⟨⟩)
          rw [at_]
          refine fun _ => ⟨by rintro ⟨⟩, ?_⟩
          intro i bound
          show futures.length ≤ i ↔ index ≤ i
          omega
  | adding index f =>
      simp only [at_] at taken
      obtain rfl := Option.some.inj taken
      exact ⟨fed, completing_add distinct completing at_,
        reading.moves rfl (fun _ => rfl) rfl (fun _ _ => rfl)⟩
  | bounding =>
      simp only [at_] at taken
      obtain rfl := Option.some.inj taken
      refine goes ?_ (by rintro _ _ ⟨⟩)
      rw [at_]
      exact fun _ => ⟨by rintro ⟨⟩, fun _ _ => Iff.rfl⟩
  | yielding total =>
      simp only [at_] at taken
      split at taken
      · obtain rfl := Option.some.inj taken
        exact ⟨fed, completing.rests rfl rfl rfl rfl at_.symm,
          (reading_yield reading).moves rfl (fun _ => rfl) rfl (fun _ _ => rfl)⟩
      · obtain rfl := Option.some.inj taken
        refine goes ?_ (by rintro _ _ ⟨⟩)
        rw [at_]
        exact fun _ => ⟨by rintro ⟨⟩, fun _ _ => Iff.rfl⟩
  | exhausted | raised => simp [at_] at taken

theorem inv_run (distinct : futures.Nodup) (inv : Inv futures s)
    (taken : onCompletion s f = some s') : Inv futures s' := by
  obtain ⟨fed, completing, reading⟩ := inv
  have reads : Reading { s with phase := s'.phase, todo := s'.todo } :=
    reading.moves rfl (fun _ => rfl) rfl (fun _ _ => rfl)
  unfold onCompletion at taken
  cases at_ : s.phase f with
  | scheduled =>
      obtain ⟨member, after⟩ := completing_find completing at_
      simp only [at_, if_pos member] at taken
      obtain rfl := Option.some.inj taken
      exact ⟨fed, after, reads⟩
  | found =>
      simp only [at_] at taken
      obtain rfl := Option.some.inj taken
      exact ⟨fed, completing_discard distinct completing at_, reads⟩
  | discarded =>
      obtain ⟨fed', returned, -, place⟩ := putNowait_spec fed f
      simp only [at_] at taken
      obtain rfl := Option.some.inj taken
      refine ⟨fed', completing_put completing fed at_, reading.moves rfl ?_ returned ?_⟩
      · intro t
        exact congrArg Place.call (congrFun place t)
      · exact fun _ _ => rfl
  | idle | attached | ran => simp [at_] at taken

omit [DecidableEq F] in
/-- The steps that only the queue notices. -/
theorem Inv.quiet (inv : Inv futures s) (quiet : Quiet s.done q') :
    Inv futures { s with done := q' } :=
  ⟨quiet.fed, inv.completing.rests rfl rfl rfl quiet.accepted rfl,
    inv.reading.moves rfl quiet.call quiet.returned fun _ _ => rfl⟩

omit [DecidableEq F] in
theorem Inv.resume {one : One F O T} (inv : Inv futures s) (gets : Gets s.done t q')
    (at_ : s.ones[i]? = some one) (undelivered : one.delivery = none)
    (mine : ∀ j : Nat, s.ones[j]? = some (.awaited t) → j = i) : Inv futures (s.resume i t q') :=
  ⟨gets.fed, inv.completing.rests rfl rfl rfl gets.accepted rfl,
    reading_resume inv.reading inv.fed inv.completing gets at_ undelivered mine⟩

theorem inv_step (distinct : futures.Nodup) (inv : Inv futures s)
    (taken : step futures s a = some s') : Inv futures s' := by
  cases a with
  | complete f o =>
      simp only [step] at taken
      split at taken
      · cases taken
      · rename_i live
        have pending : s.status f = none := by simpa using live
        obtain rfl := Option.some.inj taken
        refine ⟨inv.fed, completing_finish inv.completing pending,
          inv.reading.moves rfl (fun _ => rfl) rfl ?_⟩
        intro g isDone
        refine Function.update_of_ne ?_ _ _
        rintro rfl
        exact live isDone
  | gen => exact inv_gen distinct inv taken
  | run f => exact inv_run distinct inv taken
  | await i t w =>
      simp only [step] at taken
      split at taken
      · rename_i yielded
        obtain ⟨q', called, rfl⟩ := Option.map_eq_some_iff.mp taken
        obtain ⟨away, gets⟩ := gets_of_call inv.fed called
        refine inv.resume gets yielded rfl ?_
        intro j awaited
        obtain ⟨w', call⟩ := inv.reading.awaited j t awaited
        rw [away] at call
        cases call
      · cases taken
  | task t =>
      obtain ⟨q', moved, rfl⟩ := Option.map_eq_some_iff.mp taken
      exact inv.quiet (quiet_task inv.fed moved)
  | again i w =>
      simp only [step] at taken
      split at taken
      · rename_i t awaited
        obtain ⟨q', called, rfl⟩ := Option.map_eq_some_iff.mp taken
        refine inv.resume (gets_of_again inv.fed called) awaited rfl ?_
        intro j also
        exact inv.reading.apart j i t also awaited
      · cases taken
  | around act =>
      simp only [step] at taken
      split at taken
      · cases taken
      · rename_i spares
        obtain ⟨q', moved, rfl⟩ := Option.map_eq_some_iff.mp taken
        exact inv.quiet (quiet_around inv.fed (by simpa using spares) moved)

omit [DecidableEq F] in
theorem inv_start (start : Start futures s) : Inv futures s := by
  obtain ⟨phase, todo, gen, queue, ones⟩ := start
  have accepted : s.done.accepted = [] := queue.2.2.2.2.2.1
  have returned : s.done.returned = [] := queue.2.2.2.2.2.2.1
  refine ⟨⟨.start queue, .of_fresh queue.1, ?_⟩, ⟨?_, ?_, ?_, ?_, ?_⟩, ⟨?_, ?_, ?_, ?_⟩⟩
  · intro t
    exact .inl (queue.1.2.2.2 t)
  · intro f
    unfold Stands
    rw [phase, todo, accepted]
    exact ⟨Iff.rfl, List.not_mem_nil⟩
  · intro _ i f _
    rw [phase, gen]
    exact iff_of_true rfl (Nat.zero_le i)
  · rw [gen]
    rintro _ _ ⟨⟩
  · rw [todo]
  · rw [accepted]
    exact List.nodup_nil
  all_goals simp [State.deliveries, ones, returned]

theorem inv_of_reachable (distinct : futures.Nodup)
    (reached : (machine futures O T W C).Reachable s) : Inv futures s := by
  refine Machine.Reach.invariant (Inv futures) ?_ ?_ reached
  · intro s start
    exact inv_start start
  · intro s a s' inv _ taken
    exact inv_step distinct inv taken

/-! ## The pace of the generator -/

/-- The generator has evaluated `range(len(todo))`. -/
def GenPc.bounded : GenPc F → Bool
  | .yielding _ | .exhausted => true
  | _ => false

/-- What a step of the generator does to its counter, to `todo` and to the number
of awaitables. -/
inductive GenMove (futures : List F) (s s' : State F O T W C) : Prop where
  | raises (index : Nat) (at_ : s.gen = .next index) (size : s.todo.length ≠ futures.length)
      (gen : s'.gen = .raised) (ones : s'.ones = s.ones)
  | walks (before : s.gen.bounded = false) (unraised : s.gen ≠ .raised)
      (unbounded : s'.gen.bounded = false) (unraised' : s'.gen ≠ .raised)
      (todo : s'.todo = s.todo) (ones : s'.ones = s.ones)
  | bounds (at_ : s.gen = .bounding) (gen : s'.gen = .yielding s.todo.length)
      (ones : s'.ones = s.ones)
  | yields (total : Nat) (at_ : s.gen = .yielding total) (more : s.ones.length < total)
      (gen : s'.gen = .yielding total) (ones : s'.ones.length = s.ones.length + 1)
  | ends (total : Nat) (at_ : s.gen = .yielding total) (all : total ≤ s.ones.length)
      (gen : s'.gen = .exhausted) (ones : s'.ones = s.ones)

omit [DecidableEq T] [DecidableEq W] [DecidableEq C] in
theorem genMove_of_step (taken : genStep futures s = some s') : GenMove futures s s' := by
  unfold genStep at taken
  cases at_ : s.gen with
  | next index =>
      have before : s.gen.bounded = false := by rw [at_]; rfl
      have unraised : s.gen ≠ .raised := by rw [at_]; rintro ⟨⟩
      simp only [at_] at taken
      split at taken
      · rename_i size
        obtain rfl := Option.some.inj taken
        exact .raises index at_ size rfl rfl
      · split at taken <;> obtain rfl := Option.some.inj taken <;>
          exact .walks before unraised rfl (by rintro ⟨⟩) rfl rfl
  | adding index f =>
      have before : s.gen.bounded = false := by rw [at_]; rfl
      simp only [at_] at taken
      obtain rfl := Option.some.inj taken
      exact .walks before (by rw [at_]; rintro ⟨⟩) rfl (by rintro ⟨⟩) rfl rfl
  | bounding =>
      simp only [at_] at taken
      obtain rfl := Option.some.inj taken
      exact .bounds at_ rfl rfl
  | yielding total =>
      simp only [at_] at taken
      split at taken
      · rename_i more
        obtain rfl := Option.some.inj taken
        exact .yields total at_ more rfl List.length_append
      · rename_i all
        obtain rfl := Option.some.inj taken
        exact .ends total at_ (Nat.le_of_not_lt all) rfl rfl
  | exhausted | raised => simp [at_] at taken

/-- What the other steps do to these. -/
structure Beside (s : State F O T W C) (a : Act F O T W C) (s' : State F O T W C) : Prop where
  gen : s'.gen = s.gen
  ones : s'.ones.length = s.ones.length
  todo : s'.todo = s.todo ∨ ∃ f, a = .run f ∧ s.phase f = .found ∧ s'.todo = s.todo.erase f

theorem beside_of_step (other : a ≠ .gen) (taken : step futures s a = some s') :
    Beside s a s' := by
  cases a with
  | gen => exact absurd rfl other
  | complete f o =>
      simp only [step] at taken
      split at taken
      · cases taken
      · obtain rfl := Option.some.inj taken
        exact ⟨rfl, rfl, .inl rfl⟩
  | run f =>
      simp only [step] at taken
      unfold onCompletion at taken
      split at taken
      · obtain rfl := Option.some.inj taken
        exact ⟨rfl, rfl, .inl rfl⟩
      · rename_i found
        obtain rfl := Option.some.inj taken
        exact ⟨rfl, rfl, .inr ⟨f, rfl, found, rfl⟩⟩
      · obtain rfl := Option.some.inj taken
        exact ⟨rfl, rfl, .inl rfl⟩
      all_goals cases taken
  | task t =>
      obtain ⟨q', -, rfl⟩ := Option.map_eq_some_iff.mp taken
      exact ⟨rfl, rfl, .inl rfl⟩
  | await | again =>
      simp only [step] at taken
      split at taken
      · obtain ⟨q', -, rfl⟩ := Option.map_eq_some_iff.mp taken
        exact ⟨rfl, List.length_set, .inl rfl⟩
      · cases taken
  | around act =>
      simp only [step] at taken
      split at taken
      · cases taken
      · obtain ⟨q', -, rfl⟩ := Option.map_eq_some_iff.mp taken
        exact ⟨rfl, rfl, .inl rfl⟩

/-- Nothing is yielded in front of the range, and no more than the range has. -/
structure Paced (s : State F O T W C) : Prop where
  unyielded : s.gen.bounded = false → s.ones.length = 0
  within : ∀ total, s.gen = .yielding total → s.ones.length ≤ total

theorem paced_step (paced : Paced s) (taken : step futures s a = some s') : Paced s' := by
  by_cases isGen : a = .gen
  · subst isGen
    cases genMove_of_step taken with
    | raises index at_ size gen ones =>
        refine ⟨fun _ => ?_, ?_⟩
        · rw [ones]
          exact paced.unyielded (by rw [at_]; rfl)
        · rw [gen]
          rintro _ ⟨⟩
    | walks before unraised unbounded unraised' todo ones =>
        refine ⟨fun _ => ?_, ?_⟩
        · rw [ones]
          exact paced.unyielded before
        · intro total at_
          rw [at_] at unbounded
          cases unbounded
    | bounds at_ gen ones =>
        refine ⟨?_, ?_⟩
        · rw [gen]
          rintro ⟨⟩
        · intro total _
          rw [ones, paced.unyielded (by rw [at_]; rfl)]
          exact Nat.zero_le total
    | yields total at_ more gen ones =>
        refine ⟨?_, ?_⟩
        · rw [gen]
          rintro ⟨⟩
        · rw [gen, ones]
          rintro _ ⟨⟩
          exact more
    | ends total at_ all gen ones =>
        refine ⟨?_, ?_⟩ <;> rw [gen]
        · rintro ⟨⟩
        · rintro _ ⟨⟩
  · obtain ⟨gen, ones, -⟩ := beside_of_step isGen taken
    constructor
    · rw [gen, ones]
      exact paced.unyielded
    · rw [gen, ones]
      exact paced.within

theorem paced_of_reachable (reached : (machine futures O T W C).Reachable s) : Paced s := by
  refine Machine.Reach.invariant Paced ?_ ?_ reached
  · rintro s ⟨-, -, gen, -, ones⟩
    refine ⟨fun _ => by rw [ones]; rfl, ?_⟩
    rw [gen]
    rintro _ ⟨⟩
  · intro s a s' paced _ taken
    exact paced_step paced taken

/-- A callback takes its future out of `todo` only after the generator has
evaluated `range(len(todo))`. -/
def Late (s : State F O T W C) (a : Act F O T W C) : Prop :=
  ∀ f, a = .run f → s.phase f = .found → s.gen.bounded = true

/-- The set is whole until the range is made. -/
structure Timely (futures : List F) (s : State F O T W C) : Prop where
  whole : s.gen.bounded = false → s.todo = futures
  total : ∀ total, s.gen = .yielding total → total = futures.length
  all : s.gen = .exhausted → s.ones.length = futures.length
  quiet : s.gen ≠ .raised

theorem timely_step (paced : Paced s) (timely : Timely futures s) (late : Late s a)
    (taken : step futures s a = some s') : Timely futures s' := by
  by_cases isGen : a = .gen
  · subst isGen
    cases genMove_of_step taken with
    | raises index at_ size gen ones =>
        exact absurd (congrArg List.length (timely.whole (by rw [at_]; rfl))) size
    | walks before unraised unbounded unraised' todo ones =>
        refine ⟨?_, ?_, ?_, unraised'⟩
        · intro _
          rw [todo]
          exact timely.whole before
        · intro total at_
          rw [at_] at unbounded
          cases unbounded
        · intro at_
          rw [at_] at unbounded
          cases unbounded
    | bounds at_ gen ones =>
        constructor <;> rw [gen]
        · rintro ⟨⟩
        · rintro _ ⟨⟩
          rw [timely.whole (by rw [at_]; rfl)]
        · rintro ⟨⟩
        · rintro ⟨⟩
    | yields total at_ more gen ones =>
        constructor <;> rw [gen]
        · rintro ⟨⟩
        · rintro _ ⟨⟩
          exact timely.total total at_
        · rintro ⟨⟩
        · rintro ⟨⟩
    | ends total at_ all gen ones =>
        constructor <;> rw [gen]
        · rintro ⟨⟩
        · rintro _ ⟨⟩
        · intro _
          rw [ones, ← timely.total total at_]
          exact Nat.le_antisymm (paced.within total at_) all
        · rintro ⟨⟩
  · obtain ⟨gen, ones, todo⟩ := beside_of_step isGen taken
    refine ⟨?_, ?_, ?_, ?_⟩ <;> rw [gen]
    · intro unbounded
      obtain same | ⟨f, rfl, found, -⟩ := todo
      · rw [same]
        exact timely.whole unbounded
      · have bounded := late f rfl found
        rw [unbounded] at bounded
        cases bounded
    · exact timely.total
    · rw [ones]
      exact timely.all
    · exact timely.quiet

theorem timely_of_reach (reached : (machine futures O T W C).Reach Late s) :
    Timely futures s := by
  have both : Paced s ∧ Timely futures s := by
    refine Machine.Reach.invariant (fun s => Paced s ∧ Timely futures s) ?_ ?_ reached
    · intro s start
      refine ⟨paced_of_reachable (.start start), ?_⟩
      obtain ⟨-, todo, gen, -, -⟩ := start
      constructor <;> rw [gen]
      · exact fun _ => todo
      · rintro _ ⟨⟩
      · rintro ⟨⟩
      · rintro ⟨⟩
    · rintro s a s' ⟨paced, timely⟩ late taken
      exact ⟨paced_step paced taken, timely_step paced timely late taken⟩
  exact both.2

/-! ## What is delivered -/

/-- All futures are done, every awaitable is awaited, and nothing that the
generator, the callbacks and the tasks have begun is left to do. -/
structure Over (futures : List F) (s : State F O T W C) : Prop where
  done : ∀ f ∈ futures, (s.status f).isSome = true
  generator : step futures s .gen = none
  callbacks : ∀ f, step futures s (.run f) = none
  begun : .yielded ∉ s.ones
  tasks : ∀ t, step futures s (.task t) = none
  behind : ∀ t k w, s.done.waits.place t ≠ .woken k w
  told : ∀ w, s.done.waits.kernel.state (.fut w) ≠ .pending →
    s.done.waits.kernel.event (.fut w) = true

/-- The generator raises nothing and yields one awaitable per future; the
awaitables deliver outcomes of futures, none twice and in the end all. -/
structure Delivers (futures : List F) (s : State F O T W C) : Prop where
  quiet : s.gen ≠ .raised
  yields : s.ones.length ≤ futures.length
  all : s.gen = .exhausted → s.ones.length = futures.length
  outcomes : ∀ d ∈ s.deliveries, d.1 ∈ futures ∧ d.2 = s.status d.1 ∧ d.2.isSome = true
  once : (s.deliveries.map Prod.fst).Nodup
  complete : Over futures s → s.gen = .exhausted ∧ (s.deliveries.map Prod.fst).Perm futures

omit [DecidableEq F] [DecidableEq T] [DecidableEq W] [DecidableEq C] in
theorem mem_accepted (completing : Completing futures s) :
    f ∈ s.done.accepted ↔ s.phase f = .ran := by
  have stands := completing.stands f
  unfold Stands at stands
  cases phase : s.phase f with
  | ran =>
      rw [phase] at stands
      exact iff_of_true stands.2.2.1 rfl
  | idle =>
      rw [phase] at stands
      exact iff_of_false stands.2 (by decide)
  | attached | scheduled | found | discarded =>
      rw [phase] at stands
      exact iff_of_false stands.2.2.1 (by decide)

omit [DecidableEq F] [DecidableEq T] [DecidableEq W] [DecidableEq C] in
theorem mem_futures (completing : Completing futures s) (ran : s.phase f = .ran) :
    f ∈ futures := by
  have stands := completing.stands f
  unfold Stands at stands
  rw [ran] at stands
  exact stands.1

omit [DecidableEq W] [DecidableEq C] in
theorem awaitStep_none {kernel : Kernel T W C} {r : Ref T W} {pc : AwaitPc}
    (stuck : kernel.awaitStep t r pc = none) : pc = .suspended ∧ kernel.event r = false := by
  cases pc with
  | suspended =>
      refine ⟨rfl, ?_⟩
      simp only [Kernel.awaitStep] at stuck
      split at stuck
      · cases stuck
      · rename_i unset
        exact Bool.not_eq_true _ ▸ unset
  | arm | ready =>
      simp only [Kernel.awaitStep] at stuck
      split at stuck <;> cases stuck
  | _ => cases stuck

/-- A task that is in its `get` sleeps on a pending future. -/
theorem Over.asleep (isOver : Over futures s) (fed : Fed s.done) {k : Queue.Call F}
    (call : (s.done.waits.place t).call = some (k, w)) :
    (s.done.waits.place t).enrolled = some (k, w) ∧
      s.done.waits.kernel.state (.fut w) = .pending := by
  cases at_ : s.done.waits.place t with
  | waiting k' w' pc =>
      rw [at_] at call
      obtain ⟨rfl, rfl⟩ := Prod.mk.inj (Option.some.inj call)
      have stuck := isOver.tasks t
      simp only [step, queueStep, Queue.step, Queue.taskStep, at_, Waits.await,
        Option.map_eq_none_iff] at stuck
      obtain ⟨rfl, unset⟩ := awaitStep_none stuck
      refine ⟨rfl, ?_⟩
      by_contra ended
      have set := isOver.told _ ended
      rw [unset] at set
      cases set
  | caught k' w' => exact absurd at_ (fed.calm.uncaught t k' w')
  | woken k' w' => exact absurd at_ (isOver.behind t k' w')
  | away | handing =>
      rw [at_] at call
      cases call

/-- When everything is done, every future was put. -/
theorem Over.accepted (isOver : Over futures s) (distinct : futures.Nodup)
    (completing : Completing futures s) (quiet : s.gen ≠ .raised) :
    s.gen = .exhausted ∧ s.done.accepted.Perm futures := by
  have exhausted : s.gen = .exhausted := by
    have stuck := isOver.generator
    simp only [step, genStep] at stuck
    cases at_ : s.gen with
    | exhausted => rfl
    | raised => exact absurd at_ quiet
    | next index =>
        simp only [at_] at stuck
        split at stuck
        · cases stuck
        · split at stuck <;> cases stuck
    | yielding total =>
        simp only [at_] at stuck
        split at stuck <;> cases stuck
    | adding | bounding => simp [at_] at stuck
  refine ⟨exhausted, (List.perm_ext_iff_of_nodup completing.once distinct).mpr ?_⟩
  intro f
  rw [mem_accepted completing]
  refine ⟨mem_futures completing, ?_⟩
  intro member
  have stuck := isOver.callbacks f
  simp only [step, onCompletion] at stuck
  cases phase : s.phase f with
  | ran => rfl
  | idle =>
      obtain ⟨i, bound, at_⟩ := List.getElem_of_mem member
      have idle := completing.idle quiet i f (List.getElem?_eq_some_iff.mpr ⟨bound, at_⟩)
      rw [exhausted] at idle
      exact absurd (idle.mp phase) (Nat.not_le_of_lt bound)
  | attached =>
      have stands := completing.stands f
      unfold Stands at stands
      rw [phase] at stands
      have isDone := isOver.done f member
      rw [stands.2.2.2] at isDone
      cases isDone
  | scheduled | found | discarded => simp [phase] at stuck

/-- No awaitable waits when everything is done. -/
theorem Over.delivered (isOver : Over futures s) (distinct : futures.Nodup) (inv : Inv futures s)
    (quiet : s.gen ≠ .raised) (all : s.ones.length = futures.length) :
    s.deliveries.length = s.ones.length := by
  obtain ⟨-, put⟩ := isOver.accepted distinct inv.completing quiet
  refine List.filterMap_length_eq_length.mpr ?_
  intro one member
  cases one with
  | delivered f o => rfl
  | yielded => exact absurd member isOver.begun
  | awaited t =>
      exfalso
      obtain ⟨i, bound, at_⟩ := List.getElem_of_mem member
      obtain ⟨w, call⟩ := inv.reading.awaited i t (List.getElem?_eq_some_iff.mpr ⟨bound, at_⟩)
      obtain ⟨enrolled, pending⟩ := isOver.asleep inv.fed call
      have queued := inv.fed.registered.live t .get w enrolled pending
      obtain dead | flying := (Queue.queue_serves_waiters inv.fed.reached).1
      · exact done_eq_true.mp (dead w queued) pending
      · -- nothing is in flight, so nothing is stored
        have empty : s.done.store.length = 0 := by
          obtain ⟨those, flies, size⟩ := flying
          obtain rfl | ⟨u, isOne⟩ := those.eq_empty_or_nonempty
          · exact Nat.le_zero.mp size
          · obtain ⟨k, g, calls, -, finished⟩ := flies u isOne
            rw [(isOver.asleep inv.fed calls).2] at finished
            cases finished
        have length := congrArg List.length inv.fed.inOrder
        rw [List.length_append, empty, put.length_eq, ← all] at length
        have delivered := inv.reading.delivered.length_eq
        rw [List.length_map] at delivered
        have full : s.deliveries.length = s.ones.length := by omega
        have isSome := List.filterMap_length_eq_length.mp full _ member
        cases isSome

/-- `as_completed` delivers every future once, in every run in which no callback
takes its future out of `todo` before the range bound is evaluated. -/
theorem as_completed_delivers (distinct : futures.Nodup)
    (reached : (machine futures O T W C).Reach Late s) : Delivers futures s := by
  have inv := inv_of_reachable distinct reached.reachable
  have paced := paced_of_reachable reached.reachable
  have timely := timely_of_reach reached
  obtain ⟨fed, completing, reading⟩ := id inv
  have returned : ∀ f ∈ s.deliveries.map Prod.fst, f ∈ s.done.accepted := by
    intro f member
    rw [fed.inOrder]
    exact List.mem_append_left _ (reading.delivered.mem_iff.mp member)
  have once : (s.deliveries.map Prod.fst).Nodup := by
    refine reading.delivered.nodup_iff.mpr ?_
    have accepted := completing.once
    rw [fed.inOrder] at accepted
    exact (List.nodup_append.mp accepted).1
  refine ⟨timely.quiet, ?_, timely.all, ?_, once, ?_⟩
  · cases at_ : s.gen with
    | yielding total => exact timely.total total at_ ▸ paced.within total at_
    | exhausted => exact (timely.all at_).le
    | next | adding | bounding | raised =>
        rw [paced.unyielded (by rw [at_]; rfl)]
        exact Nat.zero_le _
  · intro d member
    refine ⟨?_, reading.outcomes d member⟩
    refine mem_futures completing ((mem_accepted completing).mp ?_)
    exact returned d.1 (List.mem_map_of_mem member)
  · intro isOver
    obtain ⟨exhausted, put⟩ := isOver.accepted distinct completing timely.quiet
    have all := timely.all exhausted
    refine ⟨exhausted, (List.subperm_of_subset once ?_).perm_of_length_le ?_⟩
    · intro f member
      exact put.mem_iff.mp (returned f member)
    · rw [List.length_map, isOver.delivered distinct inv timely.quiet all, all]

/-! ## A callback that comes too early -/

/-- The set has shrunk in front of the range, or the range was made too short. -/
structure Short (futures : List F) (s : State F O T W C) : Prop where
  shrunk : s.gen.bounded = false → s.gen ≠ .raised → s.todo.length < futures.length
  few : ∀ total, s.gen = .yielding total → total < futures.length
  less : s.gen = .exhausted → s.ones.length < futures.length

/-- The generator of a set that has shrunk raises, or yields less than it should. -/
theorem short_step (paced : Paced s) (short : Short futures s)
    (taken : step futures s a = some s') : Short futures s' := by
  by_cases isGen : a = .gen
  · subst isGen
    cases genMove_of_step taken with
    | raises index at_ size gen ones =>
        constructor <;> rw [gen]
        · exact fun _ unraised => absurd rfl unraised
        · rintro _ ⟨⟩
        · rintro ⟨⟩
    | walks before unraised unbounded unraised' todo ones =>
        refine ⟨?_, ?_, ?_⟩
        · intro _ _
          rw [todo]
          exact short.shrunk before unraised
        · intro total at_
          rw [at_] at unbounded
          cases unbounded
        · intro at_
          rw [at_] at unbounded
          cases unbounded
    | bounds at_ gen ones =>
        constructor <;> rw [gen]
        · rintro ⟨⟩
        · rintro _ ⟨⟩
          exact short.shrunk (by rw [at_]; rfl) (by rw [at_]; rintro ⟨⟩)
        · rintro ⟨⟩
    | yields total at_ more gen ones =>
        constructor <;> rw [gen]
        · rintro ⟨⟩
        · rintro _ ⟨⟩
          exact short.few total at_
        · rintro ⟨⟩
    | ends total at_ all gen ones =>
        constructor <;> rw [gen]
        · rintro ⟨⟩
        · rintro _ ⟨⟩
        · intro _
          rw [ones]
          exact (paced.within total at_).trans_lt (short.few total at_)
  · obtain ⟨gen, ones, todo⟩ := beside_of_step isGen taken
    refine ⟨?_, ?_, ?_⟩ <;> rw [gen]
    · intro unbounded unraised
      have shrunk := short.shrunk unbounded unraised
      obtain same | ⟨f, -, -, erased⟩ := todo
      · rwa [same]
      · rw [erased]
        exact List.length_erase_le.trans_lt shrunk
    · exact short.few
    · rw [ones]
      exact short.less

/-- The condition is exact: a callback that does not meet it spoils the run. -/
theorem discard_shortens (distinct : futures.Nodup)
    (reached : (machine futures O T W C).Reachable s) (found : s.phase f = .found)
    (unbounded : s.gen.bounded = false) (taken : step futures s (.run f) = some s')
    {r : State F O T W C} {steps : List (Act F O T W C)}
    (executed : (machine futures O T W C).exec s' steps = some r) :
    Short futures r := by
  have short : Short futures s' := by
    obtain ⟨-, completing, -⟩ := inv_of_reachable distinct reached
    have stands := completing.stands f
    unfold Stands at stands
    rw [found] at stands
    simp only [step, onCompletion, found] at taken
    obtain rfl := Option.some.inj taken
    refine ⟨?_, ?_, ?_⟩
    · intro _ _
      show (s.todo.erase f).length < futures.length
      have pos : 0 < s.todo.length := List.length_pos_of_mem stands.2.1
      have within := completing.sub.length_le
      rw [List.length_erase_of_mem stands.2.1]
      omega
    · intro total at_
      change s.gen = .yielding total at at_
      rw [at_] at unbounded
      cases unbounded
    · intro at_
      change s.gen = .exhausted at at_
      rw [at_] at unbounded
      cases unbounded
  have both := Machine.exec_invariant (M := machine futures O T W C)
    (fun s => Paced s ∧ Short futures s) ?_
    ⟨paced_step (paced_of_reachable reached) taken, short⟩ executed
  · exact both.2
  · rintro s a s' ⟨paced, short⟩ taken
    exact ⟨paced_step paced taken, short_step paced short taken⟩

/-! ## Runs -/

/-- The iteration begins; the futures in `early` are done. -/
def freshGenerator (futures early : List Nat) : State Nat Nat Nat Nat Unit where
  status f := if f ∈ early then some f else none
  phase _ := .idle
  todo := futures
  gen := .next 0
  done := Queue.freshState (deque Nat) Nat Nat Unit
  ones := []

theorem freshGenerator_start (futures early : List Nat) :
    (machine futures Nat Nat Nat Unit).start (freshGenerator futures early) :=
  ⟨fun _ => rfl, rfl, rfl, Queue.freshState_start, rfl⟩

/-- `Late`, decided. -/
def late (s : State F O T W C) : Act F O T W C → Bool
  | .run f => decide (s.phase f = .found → s.gen.bounded = true)
  | _ => true

omit [DecidableEq F] [DecidableEq T] [DecidableEq W] [DecidableEq C] in
theorem late_sound (s : State F O T W C) (a : Act F O T W C) (checked : late s a = true) :
    Late s a := by
  rintro f rfl found
  exact of_decide_eq_true checked found

/-- Two futures; the first one is done beforehand, and a task waits for the second
one. -/
def bothRun : List (Act Nat Nat Nat Nat Unit) :=
  List.flatten
    [.replicate 9 .gen, .replicate 3 (.run 5), [.await 0 0 10, .await 1 1 11],
      .replicate 3 (.task 1), .complete 7 3 :: .replicate 3 (.run 7),
      .around (.kernel (.wake (.fut 11))) :: .replicate 3 (.task 1), [.again 1 12]]

theorem bothRun_ends :
    ((machine [5, 7] Nat Nat Nat Unit).execIf late (freshGenerator [5, 7] [5]) bothRun).any
      (fun s => s.gen = .exhausted ∧ s.deliveries = [(5, some 5), (7, some 3)]) = true := by
  decide +kernel

theorem as_completed_delivers_both :
    ∃ s : State Nat Nat Nat Nat Unit, s.gen = .exhausted ∧
      s.deliveries = [(5, some 5), (7, some 3)] ∧ Delivers [5, 7] s := by
  obtain ⟨s, reached, ends⟩ :=
    Machine.Reach.exists_of_execIf late_sound (freshGenerator_start [5, 7] [5]) bothRun_ends
  obtain ⟨exhausted, deliveries⟩ := of_decide_eq_true ends
  exact ⟨s, exhausted, deliveries, as_completed_delivers (by decide) reached⟩

/-- The callback of a future that is done beforehand runs before the loop gets to
the next one. -/
theorem raisingRun_ends :
    ((machine [5, 7] Nat Nat Nat Unit).exec (freshGenerator [5, 7] [5])
      [.gen, .gen, .run 5, .run 5, .gen]).any (fun s => s.gen = .raised) = true := by
  decide +kernel

/-- The callback of a future that is done beforehand runs behind the loop and in
front of the range. -/
theorem shortRun_ends :
    ((machine [5] Nat Nat Nat Unit).exec (freshGenerator [5] [5])
      [.gen, .gen, .gen, .run 5, .run 5, .gen, .gen]).any
      (fun s => s.gen = .exhausted ∧ s.ones = []) = true := by
  decide +kernel

/-- The generator raises, and it yields too few awaitables. -/
theorem as_completed_loses_futures :
    (¬ ∀ s : State Nat Nat Nat Nat Unit, (machine [5, 7] Nat Nat Nat Unit).Reachable s →
      s.gen ≠ .raised) ∧
    ¬ ∀ s : State Nat Nat Nat Nat Unit, (machine [5] Nat Nat Nat Unit).Reachable s →
      s.gen = .exhausted → s.ones.length = 1 := by
  constructor
  · intro always
    obtain ⟨s, reached, ends⟩ :=
      Machine.Reachable.exists_of_exec (freshGenerator_start [5, 7] [5]) raisingRun_ends
    exact always s reached (of_decide_eq_true ends)
  · intro always
    obtain ⟨s, reached, ends⟩ :=
      Machine.Reachable.exists_of_exec (freshGenerator_start [5] [5]) shortRun_ends
    obtain ⟨exhausted, none⟩ := of_decide_eq_true ends
    have one := always s reached exhausted
    rw [none] at one
    cases one

end MtAsyncio.AsCompleted
