/-
Module: MtAsyncio.Proofs.EventBroadcast
Purpose: `Event.set` wakes every waiter it finds and raises nothing, as long as
  no `cancel` hits a waiter's future between the `done()` test and the
  `set_result()` of the loop; a set event has no waiters in every run.
Trusted boundary: none
Main exports: Waking, WakesUndisturbed, Broadcasts, event_set_wakes_all,
  set_stops_midway
-/
import MtAsyncio.Model.SyncEvent
import MtAsyncio.Proofs.WaitingTenants

namespace MtAsyncio.SyncEvent

open Lib (Machine)
open Tasks
open Waiting

variable {T F C P : Type} [DecidableEq T] [DecidableEq F] [DecidableEq C] [DecidableEq P]
variable {s s' : State T F C P} {w : Waits Unit Unit T F C} {t : T} {f : F} {p : P}

/-! ## What a call of `set` owes -/

/-- The futures that the loop has still to look at. -/
def SetPc.owes : SetPc F → List F
  | .loop _ rest => rest
  | .complete _ fut rest => fut :: rest
  | _ => []

/-- What the locked section found in `_waiters`. -/
def SetPc.collected : SetPc F → List F
  | .loop collected _ | .complete collected _ _ | .returned collected => collected
  | _ => []

/-- The future that was found not done. -/
def SetPc.chosen : SetPc F → Option F
  | .complete _ fut _ => some fut
  | _ => none

omit [DecidableEq F] in
theorem SetPc.owes_of_chosen {pc : SetPc F} (chosen : pc.chosen = some f) : f ∈ pc.owes := by
  cases pc with
  | complete =>
      cases chosen
      exact List.mem_cons_self
  | _ => cases chosen

omit [DecidableEq F] in
theorem SetPc.owes_of_idle {pc : SetPc F} (idle : pc.busy = false) : pc.owes = [] := by
  cases pc with
  | loop | complete => cases idle
  | _ => rfl

/-- The waiters, and the futures that calls of `set` have taken off the list. -/
structure Waking (s : State T F C P) : Prop where
  tenants : Tenants s.waits
  issued : ∀ p f, f ∈ (s.caller p).owes → s.waits.issued f = true
  apart : ∀ p f, f ∈ (s.caller p).owes → f ∉ s.waits.waiters ()
  single : ∀ p q f, f ∈ (s.caller p).owes → f ∈ (s.caller q).owes → p = q
  chosen : ∀ p f, (s.caller p).chosen = some f → s.waits.done f = false
  delivered : ∀ p f, f ∈ (s.caller p).collected →
    s.waits.done f = true ∨ f ∈ (s.caller p).owes
  calm : ∀ p, s.caller p ≠ .raised
  made : ∀ p f, f ∈ (s.caller p).collected → s.waits.issued f = true
  closed : s.value = true → s.waits.waiters () = []
  live : ∀ t k f, (s.waits.place t).enrolled = some (k, f) → s.waits.done f = false →
    f ∈ s.waits.waiters () ∨ ∃ p, f ∈ (s.caller p).owes

/-- The step cancels no future between the test and the `set_result()` of a call
of `set`. -/
def WakesUndisturbed (s : State T F C P) (a : Act T F C P) : Prop :=
  ∀ b p f, a = .around b → (s.caller p).chosen = some f → ¬Cancels s.waits b f

/-! ## Steps of the waiters -/

omit [DecidableEq T] [DecidableEq F] [DecidableEq C] [DecidableEq P] in
/-- A step that moves no call of `set`. -/
theorem Waking.setWaits (waking : Waking s) (tenants : Tenants w)
    (issued : ∀ f, s.waits.issued f = true → w.issued f = true)
    (waiters : ∀ f, s.waits.issued f = true → f ∈ w.waiters () → f ∈ s.waits.waiters ())
    (done : ∀ f, s.waits.issued f = true → s.waits.done f = true → w.done f = true)
    (chosen : ∀ p f, (s.caller p).chosen = some f → w.done f = false)
    (closed : s.value = true → w.waiters () = [])
    (live : ∀ t k f, (w.place t).enrolled = some (k, f) → w.done f = false →
      f ∈ w.waiters () ∨ ∃ p, f ∈ (s.caller p).owes) :
    Waking { s with waits := w } where
  tenants := tenants
  issued p f owes := issued f (waking.issued p f owes)
  apart p f owes member := waking.apart p f owes (waiters f (waking.issued p f owes) member)
  single := waking.single
  chosen := chosen
  delivered p f member :=
    (waking.delivered p f member).imp_left (done f (waking.made p f member))
  calm := waking.calm
  made p f member := issued f (waking.made p f member)
  closed := closed
  live := live

omit [DecidableEq P] in
theorem waking_around {a : Around T F C} (waking : Waking s)
    (undisturbed : WakesUndisturbed s (.around a)) (taken : s.waits.around a = some w) :
    Waking { s with waits := w } := by
  have tenants := waking.tenants.around taken
  have spared : ∀ p f, (s.caller p).chosen = some f → w.done f = false := by
    intro p f chosen
    have made := waking.issued p f (SetPc.owes_of_chosen chosen)
    exact around_done waking.tenants taken made (waking.chosen p f chosen)
      (undisturbed a p f rfl chosen)
  obtain ⟨kernel, rfl, eased⟩ := around_eased waking.tenants.facts taken
  have pending : ∀ f, s.waits.issued f = true →
      (s.waits.setKernel kernel).done f = false → s.waits.done f = false := by
    intro f made live
    rw [done_eq_false] at live ⊢
    exact eased.pending made live
  refine waking.setWaits tenants (fun _ => id) (fun _ _ => id) ?_ spared waking.closed ?_
  · intro f made ended
    by_contra live
    rw [pending f made (Bool.not_eq_true _ ▸ live)] at ended
    cases ended
  · intro t k f enrolled live
    have made := waking.tenants.used t f (Place.future_of_enrolled enrolled)
    exact waking.live t k f enrolled (pending f made live)

omit [DecidableEq C] [DecidableEq P] in
theorem waking_wait (waking : Waking s) (taken : waitLocked s t f = some s') :
    Waking s' := by
  unfold waitLocked at taken
  split at taken
  · cases taken
    exact waking
  · rename_i unset
    obtain ⟨w, parks, rfl⟩ := Option.map_eq_some_iff.mp taken
    have parked := park_spec waking.tenants.facts parks
    have state : ∀ g, s.waits.issued g = true → w.done g = s.waits.done g := by
      intro g made
      simp only [Waits.done, parked.state g (parked.ne_of_issued made)]
    refine waking.setWaits (waking.tenants.park parks) ?_ ?_ ?_ ?_ ?_ ?_
    · intro g made
      rw [parked.issued, Function.update_of_ne (parked.ne_of_issued made)]
      exact made
    · intro g made member
      rw [parked.waiters, Function.update_self] at member
      obtain member | isF := List.mem_append.mp member
      · exact member
      · exact absurd (List.mem_singleton.mp isF) (parked.ne_of_issued made)
    · intro g made ended
      rw [state g made, ended]
    · intro p g chosen
      rw [state g (waking.issued p g (SetPc.owes_of_chosen chosen))]
      exact waking.chosen p g chosen
    · intro isSet
      exact absurd isSet unset
    · intro u k g enrolled live
      rw [parked.waiters, Function.update_self]
      rw [parked.place, Function.update_apply] at enrolled
      split at enrolled
      · cases enrolled
        exact .inl (List.mem_append_right _ List.mem_cons_self)
      · rw [state g (waking.tenants.used u g (Place.future_of_enrolled enrolled))] at live
        exact (waking.live u k g enrolled live).imp_left (List.mem_append_left _)

omit [DecidableEq F] [DecidableEq C] [DecidableEq P] in
/-- A task moves on inside of `wait`, with the same future or with none. -/
theorem Waking.setPlace (waking : Waking s) {place : Place Unit F}
    (future : ∀ f, place.future = some f → (s.waits.place t).future = some f)
    (enrolled : ∀ k f, place.enrolled = some (k, f) →
      ∃ k', (s.waits.place t).enrolled = some (k', f)) :
    Waking { s with waits := s.waits.setPlace t place } := by
  refine waking.setWaits (waking.tenants.setPlace future) (fun _ => id) (fun _ _ => id)
    (fun _ _ => id) waking.chosen waking.closed ?_
  intro u k g has live
  simp only [Waits.setPlace, Function.update_apply] at has
  split at has
  · obtain ⟨k', was⟩ := enrolled k g has
    exact waking.live t k' g was live
  · exact waking.live u k g has live

omit [DecidableEq F] [DecidableEq C] [DecidableEq P] in
theorem waking_await {pc : AwaitPc} (waking : Waking s) {k : Unit}
    (at_ : s.waits.place t = .waiting k f pc) (taken : s.waits.await t k f pc = some w) :
    Waking { s with waits := w } := by
  obtain ⟨⟨kernel, next⟩, moved, rfl⟩ := Option.map_eq_some_iff.mp taken
  have state : kernel.state = s.waits.kernel.state := (awaitStep_frame moved).1
  have same : ∀ g, (s.waits.setKernel kernel).done g = s.waits.done g := by
    intro g
    simp only [Waits.done, Waits.setKernel, state]
  have moves : Waking { s with waits := s.waits.setKernel kernel } := by
    refine waking.setWaits (waking.tenants.setKernel (awaitStep_eased moved)) (fun _ => id)
      (fun _ _ => id) ?_ ?_ waking.closed ?_
    · intro g _ ended
      rw [same, ended]
    · intro p g chosen
      rw [same]
      exact waking.chosen p g chosen
    · intro u k g enrolled live
      rw [same] at live
      exact waking.live u k g enrolled live
  refine moves.setPlace ?_ ?_
  · intro g has
    show (s.waits.place t).future = some g
    rw [at_, afterAwait_future has]
    rfl
  · intro k' g has
    refine ⟨k, ?_⟩
    show (s.waits.place t).enrolled = some (k, g)
    rw [at_, afterAwait_future (Place.future_of_enrolled has)]
    rfl

omit [DecidableEq C] [DecidableEq P] in
/-- The except clause takes the future off the list, wherever it is. -/
theorem waking_leave (waking : Waking s) {k : Unit} (at_ : s.waits.place t = .caught k f) :
    Waking { s with waits := s.waits.leave t () f } := by
  have fewer : ∀ g, g ∈ (s.waits.leave t () f).waiters () → g ∈ s.waits.waiters () := by
    intro g member
    simp only [Waits.leave, Waits.setWaiters, Waits.setPlace, Function.update_self] at member
    exact List.mem_of_mem_erase member
  refine waking.setWaits waking.tenants.leave (fun _ => id) (fun g _ => fewer g) (fun _ _ => id)
    waking.chosen ?_ ?_
  · intro isSet
    simp [Waits.leave, Waits.setWaiters, Waits.setPlace, waking.closed isSet]
  · intro u k' g enrolled live
    simp only [Waits.leave, Waits.setWaiters, Waits.setPlace, Function.update_apply] at enrolled
    split at enrolled
    · cases enrolled
    · rename_i other
      have apart : g ≠ f := by
        rintro rfl
        refine other (waking.tenants.apart u t g (Place.future_of_enrolled enrolled) ?_)
        rw [at_]
        rfl
      refine (waking.live u k' g enrolled live).imp_left ?_
      intro member
      simp only [Waits.leave, Waits.setWaiters, Waits.setPlace, Function.update_self]
      exact (List.mem_erase_of_ne apart).mpr member

omit [DecidableEq C] [DecidableEq P] in
theorem waking_task (waking : Waking s) (taken : taskStep s t = some s') : Waking s' := by
  unfold taskStep at taken
  cases at_ : s.waits.place t with
  | away | handing => simp [at_] at taken
  | waiting k f pc =>
      simp only [at_] at taken
      obtain ⟨w, moved, rfl⟩ := Option.map_eq_some_iff.mp taken
      exact waking_await waking at_ moved
  | caught k f =>
      simp only [at_, Option.some.injEq] at taken
      exact taken ▸ waking_leave waking at_
  | woken k f =>
      simp only [at_, Option.some.injEq] at taken
      exact taken ▸ waking.setPlace (by rintro _ ⟨⟩) (by rintro _ _ ⟨⟩)

/-! ## Steps of `set` -/

omit [DecidableEq T] [DecidableEq F] [DecidableEq C] in
theorem setCaller_self (s : State T F C P) (p : P) (pc : SetPc F) :
    (s.setCaller p pc).caller p = pc := by
  simp only [State.setCaller, Function.update_self]

omit [DecidableEq T] [DecidableEq F] [DecidableEq C] in
/-- A call of `set` drops futures that are done from what it owes. -/
theorem Waking.setCaller (waking : Waking s) {pc : SetPc F}
    (fewer : ∀ f ∈ pc.owes, f ∈ (s.caller p).owes)
    (dropped : ∀ f ∈ (s.caller p).owes, s.waits.done f = true ∨ f ∈ pc.owes)
    (chosen : ∀ f, pc.chosen = some f → s.waits.done f = false)
    (collected : ∀ f ∈ pc.collected, f ∈ (s.caller p).collected) (calm : pc ≠ .raised) :
    Waking (s.setCaller p pc) := by
  have callers : ∀ q, (s.setCaller p pc).caller q = if q = p then pc else s.caller q := by
    intro q
    exact Function.update_apply ..
  have owes : ∀ q f, f ∈ ((s.setCaller p pc).caller q).owes → f ∈ (s.caller q).owes := by
    intro q f member
    rw [callers] at member
    split at member
    · rename_i isP
      exact isP ▸ fewer f member
    · exact member
  have kept : ∀ q f, f ∈ (s.caller q).owes → s.waits.done f = true ∨
      f ∈ ((s.setCaller p pc).caller q).owes := by
    intro q f member
    rw [callers]
    split
    · rename_i isP
      exact dropped f (isP ▸ member)
    · exact .inr member
  have taken : ∀ q f, f ∈ ((s.setCaller p pc).caller q).collected →
      f ∈ (s.caller q).collected := by
    intro q f member
    rw [callers] at member
    split at member
    · rename_i isP
      exact isP ▸ collected f member
    · exact member
  refine ⟨waking.tenants, ?_, ?_, ?_, ?_, ?_, ?_, ?_, waking.closed, ?_⟩
  · intro q f member
    exact waking.issued q f (owes q f member)
  · intro q f member
    exact waking.apart q f (owes q f member)
  · intro q r f member member'
    exact waking.single q r f (owes q f member) (owes r f member')
  · intro q f isChosen
    rw [callers] at isChosen
    split at isChosen
    · exact chosen f isChosen
    · exact waking.chosen q f isChosen
  · intro q f member
    obtain ended | owed := waking.delivered q f (taken q f member)
    · exact .inl ended
    · exact kept q f owed
  · intro q
    rw [callers]
    split
    · exact calm
    · exact waking.calm q
  · intro q f member
    exact waking.made q f (taken q f member)
  · intro t k f enrolled live
    obtain queued | ⟨q, owed⟩ := waking.live t k f enrolled live
    · exact .inl queued
    · obtain ended | owed := kept q f owed
      · exact absurd (live.symm.trans ended) (by decide)
      · exact .inr ⟨q, owed⟩

omit [DecidableEq T] [DecidableEq F] [DecidableEq C] in
theorem waking_set (waking : Waking s) (idle : (s.caller p).busy = false) :
    Waking (setLocked s p) := by
  have nothing := SetPc.owes_of_idle idle
  unfold setLocked
  split
  · rename_i isSet
    rw [waking.closed isSet]
    refine waking.setCaller ?_ ?_ ?_ ?_ (by rintro ⟨⟩)
    · intro f member
      cases member
    · intro f member
      rw [nothing] at member
      cases member
    · rintro f ⟨⟩
    · intro f member
      cases member
  · have callers : ∀ q, ({ s with value := true, waits := s.waits.setWaiters () [] }.setCaller p
        (.loop (s.waits.waiters ()) (s.waits.waiters ()))).caller q =
          if q = p then .loop (s.waits.waiters ()) (s.waits.waiters ()) else s.caller q := by
      intro q
      exact Function.update_apply ..
    have emptied : (s.waits.setWaiters () []).waiters () = [] := setWaiters_self ..
    have owes : ∀ q f, f ∈ (if q = p then SetPc.loop (s.waits.waiters ()) (s.waits.waiters ())
        else s.caller q).owes →
          q = p ∧ f ∈ s.waits.waiters () ∨ q ≠ p ∧ f ∈ (s.caller q).owes := by
      intro q f member
      split at member
      · rename_i isP
        exact .inl ⟨isP, member⟩
      · rename_i other
        exact .inr ⟨other, member⟩
    refine ⟨waking.tenants.setWaiters ?_, ?_, ?_, ?_, ?_, ?_, ?_, ?_, fun _ => emptied, ?_⟩
    · intro f member
      cases member
    · intro q f member
      rw [callers] at member
      obtain ⟨-, member⟩ | ⟨-, member⟩ := owes q f member
      · exact waking.tenants.listed () f member
      · exact waking.issued q f member
    · intro q f _ member
      exact List.not_mem_nil (emptied ▸ member)
    · intro q r f member member'
      rw [callers] at member member'
      obtain ⟨isP, member⟩ | ⟨-, member⟩ := owes q f member <;>
        obtain ⟨isP', member'⟩ | ⟨-, member'⟩ := owes r f member'
      · rw [isP, isP']
      · exact absurd member (waking.apart r f member')
      · exact absurd member' (waking.apart q f member)
      · exact waking.single q r f member member'
    · intro q f isChosen
      rw [callers] at isChosen
      split at isChosen
      · cases isChosen
      · exact waking.chosen q f isChosen
    · intro q f member
      rw [callers] at member ⊢
      split
      · rename_i isP
        rw [if_pos isP] at member
        exact .inr member
      · rename_i other
        rw [if_neg other] at member
        exact waking.delivered q f member
    · intro q
      rw [callers]
      split
      · rintro ⟨⟩
      · exact waking.calm q
    · intro q f member
      rw [callers] at member
      split at member
      · exact waking.tenants.listed () f member
      · exact waking.made q f member
    · intro t k f enrolled live
      obtain queued | ⟨q, owed⟩ := waking.live t k f enrolled live
      · refine .inr ⟨p, ?_⟩
        rw [callers, if_pos rfl]
        exact queued
      · refine .inr ⟨q, ?_⟩
        rw [callers]
        split
        · rename_i isP
          rw [isP, nothing] at owed
          cases owed
        · exact owed

omit [DecidableEq T] [DecidableEq F] [DecidableEq C] in
theorem setCaller_setCaller (s : State T F C P) (p : P) (w : Waits Unit Unit T F C)
    (pc pc' : SetPc F) : { s.setCaller p pc with waits := w }.setCaller p pc' =
      { s with waits := w }.setCaller p pc' := by
  simp only [State.setCaller, Function.update_idem]

omit [DecidableEq C] in
/-- `set_result()` on the chosen future. -/
theorem waking_complete (waking : Waking s) {collected rest : List F}
    (at_ : s.caller p = .complete collected f rest) :
    Waking ({ s with waits := s.waits.setKernel (s.waits.kernel.setState (.fut f) .finished)
      }.setCaller p (.loop collected rest)) := by
  -- the call is back in its loop, with the chosen future still owed
  have back : Waking (s.setCaller p (.loop collected (f :: rest))) := by
    refine waking.setCaller ?_ ?_ (by rintro _ ⟨⟩) ?_ (by rintro ⟨⟩)
    · rw [at_]
      exact fun _ => id
    · rw [at_]
      exact fun _ => .inr
    · rw [at_]
      exact fun _ => id
  have chosen : ∀ q g, ((s.setCaller p (.loop collected (f :: rest))).caller q).chosen = some g →
      g ≠ f := by
    rintro q g isChosen rfl
    have isP : q = p := back.single q p g (SetPc.owes_of_chosen isChosen) (by
      rw [setCaller_self]
      exact List.mem_cons_self)
    rw [isP, setCaller_self] at isChosen
    cases isChosen
  have finished := back.setWaits (back.tenants.finish f) (fun _ => id) (fun _ _ => id)
    ?_ ?_ back.closed ?_
  · rw [← setCaller_setCaller s p _ (.loop collected (f :: rest))]
    refine finished.setCaller ?_ ?_ (by rintro _ ⟨⟩) ?_ (by rintro ⟨⟩)
    · intro g member
      rw [setCaller_self]
      exact List.mem_cons_of_mem _ member
    · intro g member
      rw [setCaller_self] at member
      obtain rfl | member := List.mem_cons.mp member
      · exact .inl ((done_finish s.waits g g).trans (by simp))
      · exact .inr member
    · rw [setCaller_self]
      exact fun _ => id
  · intro g _ ended
    exact (done_finish s.waits f g).trans (Bool.or_eq_true_iff.mpr (.inr ended))
  · intro q g isChosen
    refine (done_finish s.waits f g).trans ?_
    rw [decide_eq_false (chosen q g isChosen), Bool.false_or]
    exact back.chosen q g isChosen
  · intro t k g enrolled live
    have either := (done_finish s.waits f g).symm.trans live
    exact back.live t k g enrolled (Bool.or_eq_false_iff.mp either).2

omit [DecidableEq C] in
theorem waking_caller {pc : SetPc F} (waking : Waking s)
    (taken : wakeStep s.waits (s.caller p) = some (w, pc)) :
    Waking ({ s with waits := w }.setCaller p pc) := by
  cases at_ : s.caller p with
  | outside | returned | raised => simp [at_, wakeStep] at taken
  | loop collected rest =>
      cases rest with
      | nil =>
          simp only [at_, wakeStep, Option.some.injEq, Prod.mk.injEq] at taken
          obtain ⟨rfl, rfl⟩ := taken
          refine waking.setCaller ?_ ?_ (by rintro _ ⟨⟩) ?_ (by rintro ⟨⟩)
          · intro f member
            cases member
          · intro f member
            rw [at_] at member
            cases member
          · rw [at_]
            exact fun _ => id
      | cons f rest =>
          simp only [at_, wakeStep, Option.some.injEq, Prod.mk.injEq] at taken
          obtain ⟨rfl, rfl⟩ := taken
          cases ended : s.waits.done f with
          | true =>
              rw [if_pos rfl]
              refine waking.setCaller ?_ ?_ (by rintro _ ⟨⟩) ?_ (by rintro ⟨⟩)
              · intro g member
                rw [at_]
                exact List.mem_cons_of_mem _ member
              · intro g member
                rw [at_] at member
                obtain rfl | member := List.mem_cons.mp member
                · exact .inl ended
                · exact .inr member
              · rw [at_]
                exact fun _ => id
          | false =>
              rw [if_neg Bool.false_ne_true]
              refine waking.setCaller ?_ ?_ ?_ ?_ (by rintro ⟨⟩)
              · rw [at_]
                exact fun _ => id
              · rw [at_]
                exact fun _ => .inr
              · rintro g ⟨⟩
                exact ended
              · rw [at_]
                exact fun _ => id
  | complete collected f rest =>
      have live := waking.chosen p f (by rw [at_]; rfl)
      simp only [at_, wakeStep, live, Bool.false_eq_true, if_false, Option.some.injEq,
        Prod.mk.injEq] at taken
      obtain ⟨rfl, rfl⟩ := taken
      exact waking_complete waking at_

theorem waking_step {a : Act T F C P} (waking : Waking s) (undisturbed : WakesUndisturbed s a)
    (taken : step s a = some s') : Waking s' := by
  cases a with
  | around a =>
      obtain ⟨w, moved, rfl⟩ := Option.map_eq_some_iff.mp taken
      exact waking_around waking undisturbed moved
  | wait t f =>
      simp only [step] at taken
      split at taken
      · exact waking_wait waking taken
      · cases taken
  | task t => exact waking_task waking taken
  | set p =>
      simp only [step] at taken
      split at taken
      · cases taken
      · rename_i idle
        cases taken
        exact waking_set waking (Bool.not_eq_true _ ▸ idle)
  | caller p =>
      obtain ⟨⟨w, pc⟩, moved, rfl⟩ := Option.map_eq_some_iff.mp taken
      exact waking_caller waking moved
  | clear =>
      cases taken
      exact { waking with closed := by rintro ⟨⟩ }

omit [DecidableEq T] [DecidableEq F] [DecidableEq C] [DecidableEq P] in
theorem waking_start (fresh : Start s) : Waking s := by
  obtain ⟨fresh, unset, callers⟩ := fresh
  have tenants := Tenants.of_fresh fresh
  obtain ⟨-, -, waiters, place⟩ := fresh
  refine ⟨tenants, ?_, ?_, ?_, ?_, ?_, ?_, ?_, ?_, ?_⟩
  all_goals simp [callers, waiters, place, SetPc.owes, SetPc.chosen, SetPc.collected,
    Place.enrolled]

theorem waking_of_reach (reached : (machine T F C P).Reach WakesUndisturbed s) : Waking s :=
  Machine.Reach.invariant Waking (fun _ => waking_start)
    (fun _ _ _ waking undisturbed taken => waking_step waking undisturbed taken) reached

/-! ## Every waiter is woken -/

/-- `set` raises nothing and completes every future it found, and a set event has
no waiter; once no call of `set` is under way, no task is parked on it. -/
structure Broadcasts (s : State T F C P) : Prop where
  calm : ∀ p, s.caller p ≠ .raised
  woken : ∀ p collected, s.caller p = .returned collected →
    ∀ f ∈ collected, s.waits.done f = true
  closed : s.value = true → s.waits.waiters () = []
  unparked : s.value = true → (∀ p, (s.caller p).busy = false) →
    ∀ t k f pc, s.waits.place t = .waiting k f pc → s.waits.done f = true

theorem event_set_wakes_all (reached : (machine T F C P).Reach WakesUndisturbed s) :
    Broadcasts s := by
  have waking := waking_of_reach reached
  refine ⟨waking.calm, ?_, waking.closed, ?_⟩
  · intro p collected at_ f member
    obtain ended | owed := waking.delivered p f (by rw [at_]; exact member)
    · exact ended
    · rw [at_] at owed
      cases owed
  · intro isSet idle t k f pc at_
    by_contra live
    obtain queued | ⟨p, owed⟩ :=
      waking.live t k f (by rw [at_]; rfl) (Bool.not_eq_true _ ▸ live)
    · rw [waking.closed isSet] at queued
      cases queued
    · rw [SetPc.owes_of_idle (idle p)] at owed
      cases owed

/-! ## Runs -/

def freshEvent (T F C P : Type) : State T F C P where
  waits := freshWaits Unit Unit T F C
  value := false
  caller := fun _ => .outside

omit [DecidableEq T] [DecidableEq F] [DecidableEq C] [DecidableEq P] in
theorem freshEvent_start : Start (freshEvent T F C P) :=
  ⟨freshWaits_fresh, rfl, fun _ => rfl⟩

/-- Both tasks wait, and a `cancel` of `false` has read its future. -/
def waitingRun : List (Act Bool Nat Nat Unit) :=
  [.wait false 0, .task false, .task false, .task false, .wait true 1, .task true, .task true,
    .task true, .around (.kernel (.cancel 0 false)), .around (.kernel (.call 0)),
    .around (.kernel (.call 0)), .around (.kernel (.call 0))]

/-- `WakesUndisturbed` for one thread that calls `set`. -/
def undisturbed (s : State T F C Unit) : Act T F C Unit → Bool
  | .around (.kernel (.call c)) =>
      match s.waits.kernel.calls c with
      | (_, .futCancel (.fut f)) :: _ => (s.caller ()).chosen ≠ some f
      | _ => true
  | _ => true

omit [DecidableEq T] [DecidableEq C] in
theorem wakesUndisturbed_of_undisturbed (s : State T F C Unit) (a : Act T F C Unit)
    (checked : undisturbed s a = true) : WakesUndisturbed s a := by
  rintro b p f rfl chosen ⟨c, t, rest, rfl, stack⟩
  simp only [undisturbed, stack, decide_eq_true_eq] at checked
  exact checked chosen

/-- The cancel lands before the test, and `set` goes on to the second waiter. -/
theorem wokenRun_ends :
    ((machine Bool Nat Nat Unit).execIf undisturbed (freshEvent _ _ _ _)
      (waitingRun ++ [.set (), .around (.kernel (.call 0)), .caller (), .caller (), .caller (),
        .caller ()])).any
      (fun s => s.caller () = .returned [0, 1]) = true := by
  decide +kernel

theorem event_set_wakes_all_cancelled :
    ∃ s : State Bool Nat Nat Unit, s.caller () = .returned [0, 1] ∧ Broadcasts s := by
  obtain ⟨s, reached, returned⟩ := Machine.Reach.exists_of_execIf wakesUndisturbed_of_undisturbed
    freshEvent_start wokenRun_ends
  exact ⟨s, of_decide_eq_true returned, event_set_wakes_all reached⟩

/-- The cancel lands between the test and the `set_result()`. -/
theorem raisingRun_ends :
    ((machine Bool Nat Nat Unit).exec (freshEvent _ _ _ _)
      (waitingRun ++ [.set (), .caller (), .around (.kernel (.call 0)), .caller ()])).any
      (fun s => s.caller () = .raised) = true := by
  decide +kernel

theorem set_stops_midway :
    ¬ ∀ s : State Bool Nat Nat Unit, (machine Bool Nat Nat Unit).Reachable s → Broadcasts s := by
  intro always
  obtain ⟨s, reached, raised⟩ :=
    Machine.Reachable.exists_of_exec freshEvent_start raisingRun_ends
  exact (always s reached).calm () (of_decide_eq_true raised)

end MtAsyncio.SyncEvent
