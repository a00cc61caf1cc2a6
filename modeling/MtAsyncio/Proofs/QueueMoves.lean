/-
Module: MtAsyncio.Proofs.QueueMoves
Purpose: What one step of the queue with its sections taken apart does, and that
  the getters, the putters and the waiters of the event never share a future.
Trusted boundary: none
Main exports: Move, move_of_step, On, Sides, sides_of_reachable
-/
import MtAsyncio.Model.QueueSteps
import MtAsyncio.Proofs.EventBroadcast

namespace MtAsyncio.QueueSteps

open Lib (Discipline Machine Storage)
open SyncEvent (SetPc wakeStep)
open Tasks
open Waiting

variable {A B T F C P : Type} [DecidableEq T] [DecidableEq P]
variable {D : Discipline A} {storage : Storage D B} {maxsize : Int}
variable {s s' : State A B T F C P} {u : T ⊕ P} {t : T} {p : P} {op : Op A} {f : F} {sd : Side}

theorem goto_self (s : State A B T F C P) (u : T ⊕ P) (frame : Frame A F) :
    (s.goto u frame).frame u = frame :=
  Function.update_self ..

theorem goto_other (s : State A B T F C P) (frame : Frame A F) {v : T ⊕ P} (other : v ≠ u) :
    (s.goto u frame).frame v = s.frame v :=
  Function.update_of_ne other ..

/-! ## Steps -/

/-- What one step does. -/
inductive Move [DecidableEq F] [DecidableEq C] (storage : Storage D B) (maxsize : Int)
    (s : State A B T F C P) :
    Act A T F C P → State A B T F C P → Prop where
  | around {b : Around T F C} {w : Waits Side (Call A) T F C} (moved : s.waits.around b = some w) :
      Move storage maxsize s (.around b) { s with waits := w }
  | calls {u : T ⊕ P} {op : Op A} (idle : (s.frame u).idle = true) (may : mayCall s u op = true) :
      Move storage maxsize s (.call u op) ((s.note u .nothing).goto u (.inside op .entering))
  | enters {u : T ⊕ P} {op : Op A} {f : F} (at_ : s.frame u = .inside op .entering)
      (free : s.mu = none) :
      Move storage maxsize s (.step u f) ({ s with mu := some u }.goto u (.inside op .testing))
  | tests {u : T ⊕ P} {op : Op A} {f : F} {pc : SectionPc A F}
      (at_ : s.frame u = .inside op .testing)
      (leads : tested storage maxsize s.store op = some pc) :
      Move storage maxsize s (.step u f) (s.goto u (.inside op pc))
  | parks {t : T} {op : Op A} {k : Call A} {f : F} {w : Waits Side (Call A) T F C}
      (at_ : s.frame (.inl t) = .inside op .testing) (call : k.op = some op)
      (parked : s.waits.park t k k.side f = some w) :
      Move storage maxsize s (.step (.inl t) f)
        ({ s with mu := none, waits := w }.goto (.inl t) .outside)
  | stores {u : T ⊕ P} {op : Op A} {f : F} {x : A} (at_ : s.frame u = .inside op (.storing x)) :
      Move storage maxsize s (.step u f)
        (({ s with store := storage.put s.store x }.note u { s.did u with stored := true }).goto
          u (.inside op .counting))
  | counts {u : T ⊕ P} {op : Op A} {f : F} (at_ : s.frame u = .inside op .counting) :
      Move storage maxsize s (.step u f)
        (({ s with unfinished := s.unfinished + 1 }.note u { s.did u with counted := true }).goto
          u (.inside op .clearing))
  | clears {u : T ⊕ P} {op : Op A} {f : F} (at_ : s.frame u = .inside op .clearing) :
      Move storage maxsize s (.step u f)
        ({ s with value := false }.goto u (.inside op (.waking .getter)))
  | removes {u : T ⊕ P} {op : Op A} {f : F} {x : A} {rest : B}
      (at_ : s.frame u = .inside op .removing) (got : storage.get s.store = some (x, rest)) :
      Move storage maxsize s (.step u f)
        (({ s with store := rest }.note u { s.did u with removed := true }).goto u
          (.inside op (.waking .putter)))
  | misses {u : T ⊕ P} {op : Op A} {f : F} (at_ : s.frame u = .inside op .removing)
      (empty : storage.get s.store = none) :
      Move storage maxsize s (.step u f) (s.goto u (.inside op (.leaving true)))
  | drained {u : T ⊕ P} {op : Op A} {f : F} {sd : Side} (at_ : s.frame u = .inside op (.waking sd))
      (nobody : s.waits.waiters sd = []) :
      Move storage maxsize s (.step u f) (s.goto u (.inside op (.leaving false)))
  | pops {u : T ⊕ P} {op : Op A} {f fut : F} {sd : Side} {rest : List F}
      (at_ : s.frame u = .inside op (.waking sd)) (first : s.waits.waiters sd = fut :: rest) :
      Move storage maxsize s (.step u f)
        ({ s with waits := s.waits.setWaiters sd rest }.goto u
          (.inside op (if s.waits.done fut then .waking sd else .completing sd fut)))
  | spoiled {u : T ⊕ P} {op : Op A} {f fut : F} {sd : Side}
      (at_ : s.frame u = .inside op (.completing sd fut)) (ended : s.waits.done fut = true) :
      Move storage maxsize s (.step u f) (s.goto u (.inside op (.leaving true)))
  | completes {u : T ⊕ P} {op : Op A} {f fut : F} {sd : Side}
      (at_ : s.frame u = .inside op (.completing sd fut)) (live : s.waits.done fut = false) :
      Move storage maxsize s (.step u f)
        ({ s with waits := s.waits.setKernel (s.waits.kernel.setState (.fut fut) .finished)
          }.goto u (.inside op (.leaving false)))
  | leaves {u : T ⊕ P} {op : Op A} {f : F} {raises : Bool}
      (at_ : s.frame u = .inside op (.leaving raises)) :
      Move storage maxsize s (.step u f)
        { (if raises then s.fail u op else s).goto u .outside with mu := none }
  | joinSet {t : T} {f : F} (at_ : s.frame (.inl t) = .joining) (isSet : s.value = true) :
      Move storage maxsize s (.step (.inl t) f) (s.goto (.inl t) .joined)
  | joinParks {t : T} {f : F} {w : Waits Side (Call A) T F C} (at_ : s.frame (.inl t) = .joining)
      (unset : s.value = false) (parked : s.waits.park t .join .joiner f = some w) :
      Move storage maxsize s (.step (.inl t) f) ({ s with waits := w }.goto (.inl t) .outside)
  | sets {u : T ⊕ P} {f : F} (at_ : s.frame u = .finishing) :
      Move storage maxsize s (.step u f) (setLocked s u)
  | wakes {u : T ⊕ P} {f : F} {pc pc' : SetPc F} {w : Waits Side (Call A) T F C}
      (at_ : s.frame u = .setting pc) (moved : wakeStep s.waits pc = some (w, pc')) :
      Move storage maxsize s (.step u f)
        ({ s with waits := w }.goto u (if pc'.busy then .setting pc' else .outside))
  | awaits {t : T} {k : Call A} {f : F} {pc : AwaitPc} {w : Waits Side (Call A) T F C}
      (idle : (s.frame (.inl t)).idle = true) (at_ : s.waits.place t = .waiting k f pc)
      (moved : s.waits.await t k f pc = some w) (stays : w.place t ≠ .away) :
      Move storage maxsize s (.await t) { s with waits := w }
  | fails {t : T} {k : Call A} {f : F} {pc : AwaitPc} {w : Waits Side (Call A) T F C}
      (idle : (s.frame (.inl t)).idle = true) (at_ : s.waits.place t = .waiting k f pc)
      (moved : s.waits.await t k f pc = some w) (gone : w.place t = .away) :
      Move storage maxsize s (.await t) ({ s with waits := w }.abandon t k)
  | abandons {t : T} {k : Call A} {f : F} (idle : (s.frame (.inl t)).idle = true)
      (at_ : s.waits.place t = .caught k f) :
      Move storage maxsize s (.await t)
        ({ s with waits := s.waits.leave t k.side f }.abandon t k)
  | resumes {t : T} {k : Call A} {f : F} (idle : (s.frame (.inl t)).idle = true)
      (at_ : s.waits.place t = .woken k f) :
      Move storage maxsize s (.await t)
        ({ s with waits := s.waits.setPlace t .away }.goto (.inl t) k.behind)
  | counted {p : P} (idle : (s.frame (.inr p)).idle = true) (free : s.mu = none) :
      Move storage maxsize s (.taskDone p) (taskDone s p)
  | joins {t : T} (idle : (s.frame (.inl t)).idle = true) (away : s.away t = true) :
      Move storage maxsize s (.join t)
        (s.goto (.inl t) (if 0 < s.unfinished then .joining else .joined))

theorem move_of_testing [DecidableEq F] [DecidableEq C] (at_ : s.frame u = .inside op .testing)
    (taken : sectionStep storage maxsize s u op f .testing = some s') :
    Move storage maxsize s (.step u f) s' := by
  simp only [sectionStep] at taken
  cases leads : tested (F := F) storage maxsize s.store op with
  | some pc =>
      simp only [leads, Option.some.injEq] at taken
      exact taken ▸ .tests at_ leads
  | none =>
      simp only [leads] at taken
      unfold waitStep at taken
      split at taken
      · obtain ⟨w, parked, rfl⟩ := Option.map_eq_some_iff.mp taken
        exact .parks at_ rfl parked
      · obtain ⟨w, parked, rfl⟩ := Option.map_eq_some_iff.mp taken
        exact .parks at_ rfl parked
      · cases taken

theorem move_of_section [DecidableEq F] [DecidableEq C] {pc : SectionPc A F}
    (at_ : s.frame u = .inside op pc) (taken : sectionStep storage maxsize s u op f pc = some s') :
    Move storage maxsize s (.step u f) s' := by
  cases pc with
  | entering =>
      simp only [sectionStep] at taken
      split at taken
      · cases taken
      · rename_i free
        cases taken
        exact .enters at_ (by simpa using free)
  | testing => exact move_of_testing at_ taken
  | storing x =>
      cases taken
      exact .stores at_
  | counting =>
      cases taken
      exact .counts at_
  | clearing =>
      cases taken
      exact .clears at_
  | removing =>
      simp only [sectionStep] at taken
      split at taken
      · rename_i got
        cases taken
        exact .removes at_ got
      · rename_i empty
        cases taken
        exact .misses at_ empty
  | waking sd =>
      simp only [sectionStep] at taken
      split at taken
      · rename_i nobody
        cases taken
        exact .drained at_ nobody
      · rename_i first
        cases taken
        exact .pops at_ first
  | completing sd fut =>
      simp only [sectionStep] at taken
      cases ended : s.waits.done fut with
      | true =>
          simp only [ended, if_true] at taken
          cases taken
          exact .spoiled at_ ended
      | false =>
          simp only [ended, Bool.false_eq_true, if_false] at taken
          cases taken
          exact .completes at_ ended
  | leaving raises =>
      cases taken
      exact .leaves at_

theorem move_of_frame [DecidableEq F] [DecidableEq C]
    (taken : frameStep storage maxsize s u f = some s') :
    Move storage maxsize s (.step u f) s' := by
  unfold frameStep at taken
  cases at_ : s.frame u with
  | outside | joined => simp [at_] at taken
  | inside op pc =>
      simp only [at_] at taken
      exact move_of_section at_ taken
  | joining =>
      simp only [at_] at taken
      cases u with
      | inr p => cases taken
      | inl t =>
          simp only at taken
          split at taken
          · rename_i isSet
            cases taken
            exact .joinSet at_ isSet
          · rename_i unset
            obtain ⟨w, parked, rfl⟩ := Option.map_eq_some_iff.mp taken
            exact .joinParks at_ (Bool.not_eq_true _ ▸ unset) parked
  | finishing =>
      simp only [at_, Option.some.injEq] at taken
      exact taken ▸ .sets at_
  | setting pc =>
      simp only [at_] at taken
      obtain ⟨⟨w, pc'⟩, moved, rfl⟩ := Option.map_eq_some_iff.mp taken
      exact .wakes at_ moved

theorem move_of_await [DecidableEq F] [DecidableEq C] (idle : (s.frame (.inl t)).idle = true)
    (taken : awaitStep s t = some s') :
    Move storage maxsize s (.await t) s' := by
  unfold awaitStep at taken
  cases at_ : s.waits.place t with
  | away | handing => simp [at_] at taken
  | waiting k f pc =>
      simp only [at_] at taken
      obtain ⟨w, moved, rfl⟩ := Option.map_eq_some_iff.mp taken
      split
      · rename_i gone
        exact .fails idle at_ moved gone
      · rename_i stays
        exact .awaits idle at_ moved stays
  | caught k f =>
      simp only [at_] at taken
      split at taken
      · cases taken
      · cases taken
        exact .abandons idle at_
  | woken k f =>
      simp only [at_, Option.some.injEq] at taken
      exact taken ▸ .resumes idle at_

theorem move_of_step [DecidableEq F] [DecidableEq C] {a : Act A T F C P}
    (taken : step storage maxsize s a = some s') :
    Move storage maxsize s a s' := by
  cases a with
  | around b =>
      cases b with
      | elsewhere t e =>
          simp only [step] at taken
          split at taken
          · obtain ⟨w, moved, rfl⟩ := Option.map_eq_some_iff.mp taken
            exact .around moved
          · cases taken
      | kernel b =>
          obtain ⟨w, moved, rfl⟩ := Option.map_eq_some_iff.mp taken
          exact .around moved
  | call u op =>
      simp only [step] at taken
      split at taken
      · rename_i allowed
        cases taken
        exact .calls allowed.1 allowed.2
      · cases taken
  | step u f => exact move_of_frame taken
  | await t =>
      simp only [step] at taken
      split at taken
      · rename_i idle
        exact move_of_await idle taken
      · cases taken
  | taskDone p =>
      simp only [step] at taken
      split at taken
      · rename_i allowed
        cases taken
        exact .counted allowed.1 allowed.2
      · cases taken
  | join t =>
      simp only [step] at taken
      split at taken
      · rename_i allowed
        cases taken
        exact .joins allowed.1 allowed.2
      · cases taken

/-! ## Futures and their sides -/

omit [DecidableEq T] [DecidableEq P] in
theorem call_of_away (away : s.away t = true) (k : Call A) (f : F) :
    (s.waits.place t).call ≠ some (k, f) := by
  unfold State.away at away
  split at away
  · rename_i place
    rw [place]
    rintro ⟨⟩
  · cases away

/-- The frame has taken `f` off the deque of `sd` to complete it. -/
def Frame.has (sd : Side) (f : F) : Frame A F → Prop
  | .inside _ (.completing sd' fut) => sd' = sd ∧ fut = f
  | .setting pc => sd = .joiner ∧ f ∈ pc.owes
  | _ => False

/-- The deque that the loop at the end of the section pops from. -/
def Frame.serves : Frame A F → Option Side
  | .inside _ (.waking sd) | .inside _ (.completing sd _) => some sd
  | _ => none

/-- The future is on the deque of `sd`, or a thread took it off to complete it. -/
def On (s : State A B T F C P) (sd : Side) (f : F) : Prop :=
  f ∈ s.waits.waiters sd ∨ ∃ u, (s.frame u).has sd f

/-- No future is on two sides, a task waits on the side of its call, and no section
hands anything to the waiters of the event. -/
structure Sides (s : State A B T F C P) : Prop where
  tenants : Tenants s.waits
  serves : ∀ u, (s.frame u).serves ≠ some .joiner
  issued : ∀ sd f, On s sd f → s.waits.issued f = true
  one : ∀ sd sd' f, On s sd f → On s sd' f → sd = sd'
  sided : ∀ t k f sd, (s.waits.place t).enrolled = some (k, f) → On s sd f → k.side = sd

/-- A step that puts nothing on a deque. -/
structure Kept (s s' : State A B T F C P) : Prop where
  tenants : Tenants s'.waits
  serves : (∀ u, (s.frame u).serves ≠ some .joiner) → ∀ u, (s'.frame u).serves ≠ some .joiner
  issued : ∀ f, s.waits.issued f = true → s'.waits.issued f = true
  on : ∀ sd f, On s' sd f → On s sd f
  place : ∀ t k f, (s'.waits.place t).enrolled = some (k, f) →
    (s.waits.place t).enrolled = some (k, f)

omit [DecidableEq T] [DecidableEq P] in
theorem Sides.kept (sides : Sides s) (kept : Kept s s') : Sides s' where
  tenants := kept.tenants
  serves := kept.serves sides.serves
  issued sd f here := kept.issued f (sides.issued sd f (kept.on sd f here))
  one sd sd' f here here' := sides.one sd sd' f (kept.on sd f here) (kept.on sd' f here')
  sided t k f sd enrolled here :=
    sides.sided t k f sd (kept.place t k f enrolled) (kept.on sd f here)

/-- A thread goes on, perhaps with futures that were on a side before. -/
theorem on_goto {frame : Frame A F} (had : ∀ sd f, frame.has sd f → On s sd f)
    (here : On (s.goto u frame) sd f) : On s sd f := by
  obtain member | ⟨v, has⟩ := here
  · exact .inl member
  · simp only [State.goto, Function.update_apply] at has
    split at has
    · exact had sd f has
    · exact .inr ⟨v, has⟩

theorem serves_goto {frame : Frame A F} (frame_serves : frame.serves ≠ some .joiner)
    (serves : ∀ u, (s.frame u).serves ≠ some .joiner) (v : T ⊕ P) :
    ((s.goto u frame).frame v).serves ≠ some .joiner := by
  simp only [State.goto, Function.update_apply]
  split
  · exact frame_serves
  · exact serves v

theorem Kept.goto (tenants : Tenants s.waits) {frame : Frame A F}
    (had : ∀ sd f, frame.has sd f → On s sd f) (serves : frame.serves ≠ some .joiner) :
    Kept s (s.goto u frame) :=
  ⟨tenants, serves_goto serves, fun _ => id, fun _ _ here => on_goto had here, fun _ _ _ => id⟩

omit [DecidableEq T] [DecidableEq P] in
theorem Kept.trans {s₁ s₂ s₃ : State A B T F C P} (one : Kept s₁ s₂) (two : Kept s₂ s₃) :
    Kept s₁ s₃ where
  tenants := two.tenants
  serves none := two.serves (one.serves none)
  issued f made := two.issued f (one.issued f made)
  on sd f here := one.on sd f (two.on sd f here)
  place t k f enrolled := one.place t k f (two.place t k f enrolled)

omit [DecidableEq T] [DecidableEq P] in
/-- What neither the waits nor a frame has to do with. -/
theorem Kept.of_same (tenants : Tenants s.waits) (waits : s'.waits = s.waits)
    (frame : s'.frame = s.frame) : Kept s s' := by
  refine ⟨waits ▸ tenants, by rw [frame]; exact id, by rw [waits]; exact fun _ => id, ?_,
    by rw [waits]; exact fun _ _ _ => id⟩
  intro sd f here
  unfold On at here ⊢
  rwa [waits, frame] at here

omit [DecidableEq T] [DecidableEq P] in
/-- The waits move, and their deques do not grow. -/
theorem Kept.setWaits {w : Waits Side (Call A) T F C} (tenants : Tenants w)
    (issued : ∀ f, s.waits.issued f = true → w.issued f = true)
    (fewer : ∀ sd f, f ∈ w.waiters sd → f ∈ s.waits.waiters sd)
    (place : ∀ t k f, (w.place t).enrolled = some (k, f) →
      (s.waits.place t).enrolled = some (k, f)) : Kept s { s with waits := w } :=
  ⟨tenants, id, issued, fun sd f here => here.imp_left (fewer sd f), place⟩

theorem setPlace_enrolled {w : Waits Side (Call A) T F C} {place : Place (Call A) F}
    (enrolled : ∀ k f, place.enrolled = some (k, f) → (w.place t).enrolled = some (k, f))
    (v : T) (k : Call A) (f : F) (has : ((w.setPlace t place).place v).enrolled = some (k, f)) :
    (w.place v).enrolled = some (k, f) := by
  simp only [Waits.setPlace, Function.update_apply] at has
  split at has
  · rename_i isT
    exact isT ▸ enrolled k f has
  · exact has

theorem afterAwait_enrolled {k k' : Call A} {f g : F} {next : AwaitPc ⊕ Outcome}
    (has : (Waits.afterAwait k f next).enrolled = some (k', g)) : k' = k ∧ g = f := by
  cases next with
  | inl pc =>
      cases has
      exact ⟨rfl, rfl⟩
  | inr outcome =>
      cases outcome with
      | cancelled =>
          cases has
          exact ⟨rfl, rfl⟩
      | _ => cases has

theorem afterAwait_call {k k' : Call A} {f g : F} {next : AwaitPc ⊕ Outcome}
    (call : (Waits.afterAwait k f next).call = some (k', g)) : k' = k := by
  cases next with
  | inl pc =>
      cases call
      rfl
  | inr outcome =>
      cases outcome with
      | returned | cancelled =>
          cases call
          rfl
      | _ => cases call

theorem afterAwait_woken {k k' : Call A} {f g : F} {next : AwaitPc ⊕ Outcome}
    (woken : Waits.afterAwait k f next = .woken k' g) :
    next = .inr .returned ∧ k = k' ∧ f = g := by
  cases next with
  | inl pc => cases woken
  | inr outcome =>
      cases outcome with
      | returned =>
          cases woken
          exact ⟨rfl, rfl, rfl⟩
      | _ => cases woken

omit [DecidableEq P] in
theorem kept_await {w : Waits Side (Call A) T F C} {k : Call A} {pc : AwaitPc} (sides : Sides s)
    (at_ : s.waits.place t = .waiting k f pc) (moved : s.waits.await t k f pc = some w) :
    Kept s { s with waits := w } := by
  have tenants := sides.tenants.await at_ moved
  obtain ⟨⟨kernel, next⟩, -, rfl⟩ := Option.map_eq_some_iff.mp moved
  refine Kept.setWaits tenants (fun _ => id) (fun _ _ => id) ?_
  refine setPlace_enrolled (w := s.waits.setKernel kernel) ?_
  intro k' g has
  obtain ⟨rfl, rfl⟩ := afterAwait_enrolled has
  show (s.waits.place t).enrolled = some (k', g)
  rw [at_]
  rfl

omit [DecidableEq P] in
theorem kept_leave [DecidableEq F] {k : Call A} (sides : Sides s) :
    Kept s { s with waits := s.waits.leave t k.side f } := by
  refine Kept.setWaits sides.tenants.leave (fun _ => id) ?_ ?_
  · intro sd g member
    simp only [Waits.leave, Waits.setWaiters, Waits.setPlace, Function.update_apply] at member
    split at member
    · rename_i isSide
      exact isSide ▸ List.mem_of_mem_erase member
    · exact member
  · exact setPlace_enrolled (w := s.waits.setWaiters k.side ((s.waits.waiters k.side).erase f))
      (by rintro _ _ ⟨⟩)

omit [DecidableEq T] [DecidableEq P] in
theorem kept_abandon {k : Call A} (tenants : Tenants s.waits) : Kept s (s.abandon t k) := by
  unfold State.abandon
  cases k.op <;> exact Kept.of_same tenants rfl rfl

theorem kept_setLocked (sides : Sides s) : Kept s (setLocked s u) := by
  unfold setLocked
  split
  · exact Kept.goto sides.tenants (by rintro _ _ ⟨⟩) (by rintro ⟨⟩)
  · refine ⟨sides.tenants.setWaiters (fun f member => absurd member List.not_mem_nil),
      serves_goto (by rintro ⟨⟩), fun _ => id, ?_, fun _ _ _ => id⟩
    rintro sd f (member | ⟨v, has⟩)
    · simp only [State.goto, Waits.setWaiters, Function.update_apply] at member
      split at member
      · cases member
      · exact .inl member
    · simp only [State.goto, Function.update_apply] at has
      split at has
      · obtain ⟨rfl, member⟩ := has
        exact .inl member
      · exact .inr ⟨v, has⟩

theorem wakeStep_owes [DecidableEq F] {S K : Type} [DecidableEq S] {w w' : Waits S K T F C}
    {pc pc' : SetPc F} (moved : wakeStep w pc = some (w', pc')) :
    (w' = w ∨ ∃ g, pc.chosen = some g ∧ w.done g = false ∧
      w' = w.setKernel (w.kernel.setState (.fut g) .finished)) ∧ ∀ f ∈ pc'.owes, f ∈ pc.owes := by
  cases pc with
  | outside | returned | raised => cases moved
  | loop collected rest =>
      cases rest with
      | nil =>
          cases moved
          exact ⟨.inl rfl, fun _ => id⟩
      | cons g rest =>
          simp only [wakeStep, Option.some.injEq, Prod.mk.injEq] at moved
          obtain ⟨rfl, rfl⟩ := moved
          refine ⟨.inl rfl, ?_⟩
          intro f member
          split at member
          · exact List.mem_cons_of_mem _ member
          · exact member
  | complete collected g rest =>
      simp only [wakeStep, Option.some.injEq] at moved
      split at moved
      · cases moved
        exact ⟨.inl rfl, fun f member => absurd member List.not_mem_nil⟩
      · rename_i live
        cases moved
        exact ⟨.inr ⟨g, rfl, Bool.not_eq_true _ ▸ live, rfl⟩, fun f => List.mem_cons_of_mem _⟩

theorem kept_wakes [DecidableEq F] {pc pc' : SetPc F} {w : Waits Side (Call A) T F C}
    (sides : Sides s)
    (at_ : s.frame u = .setting pc) (moved : wakeStep s.waits pc = some (w, pc')) :
    Kept s ({ s with waits := w }.goto u (if pc'.busy then .setting pc' else .outside)) := by
  obtain ⟨waits, fewer⟩ := wakeStep_owes moved
  have same : Kept s { s with waits := w } := by
    obtain rfl | ⟨g, -, -, rfl⟩ := waits
    · exact Kept.of_same sides.tenants rfl rfl
    · exact Kept.setWaits (sides.tenants.finish g) (fun _ => id) (fun _ _ => id) (fun _ _ _ => id)
  refine same.trans (Kept.goto same.tenants ?_ ?_)
  · intro sd f has
    split at has
    · obtain ⟨rfl, member⟩ := has
      refine .inr ⟨u, ?_⟩
      show (s.frame u).has .joiner f
      rw [at_]
      exact ⟨rfl, fewer f member⟩
    · cases has
  · split <;> rintro ⟨⟩

omit [DecidableEq P] in
/-- A call makes a future and puts it on the deque of its side. -/
theorem Sides.park [DecidableEq F] (sides : Sides s) {w : Waits Side (Call A) T F C} {k : Call A}
    (parks : s.waits.park t k k.side f = some w) : Sides { s with waits := w } := by
  have parked := park_spec sides.tenants.facts parks
  have on : ∀ sd g, On { s with waits := w } sd g → g = f ∧ sd = k.side ∨ g ≠ f ∧ On s sd g := by
    intro sd g here
    have old : On s sd g → g ≠ f :=
      fun was => parked.ne_of_issued (sides.issued sd g was)
    obtain member | ⟨v, has⟩ := here
    · simp only [parked.waiters, Function.update_apply] at member
      split at member
      · rename_i isSide
        obtain member | isF := List.mem_append.mp member
        · have was : On s sd g := .inl (isSide ▸ member)
          exact .inr ⟨old was, was⟩
        · exact .inl ⟨List.mem_singleton.mp isF, isSide⟩
      · have was : On s sd g := .inl member
        exact .inr ⟨old was, was⟩
    · have was : On s sd g := .inr ⟨v, has⟩
      exact .inr ⟨old was, was⟩
  refine ⟨sides.tenants.park parks, sides.serves, ?_, ?_, ?_⟩
  · intro sd g here
    show w.issued g = true
    rw [parked.issued, Function.update_apply]
    obtain ⟨rfl, -⟩ | ⟨other, was⟩ := on sd g here
    · rw [if_pos rfl]
    · rw [if_neg other]
      exact sides.issued sd g was
  · intro sd sd' g here here'
    obtain ⟨isF, isSide⟩ | ⟨other, was⟩ := on sd g here <;>
      obtain ⟨isF', isSide'⟩ | ⟨other', was'⟩ := on sd' g here'
    · rw [isSide, isSide']
    · exact absurd isF other'
    · exact absurd isF' other
    · exact sides.one sd sd' g was was'
  · intro v k' g sd enrolled here
    simp only [parked.place, Function.update_apply] at enrolled
    split at enrolled
    · cases enrolled
      obtain ⟨-, isSide⟩ | ⟨other, -⟩ := on sd f here
      · exact isSide.symm
      · exact absurd rfl other
    · have used := sides.tenants.used v g (Place.future_of_enrolled enrolled)
      obtain ⟨isF, -⟩ | ⟨-, was⟩ := on sd g here
      · exact absurd isF (parked.ne_of_issued used)
      · exact sides.sided v k' g sd enrolled was

theorem tested_leads {store : B} {op : Op A} {pc : SectionPc A F}
    (leads : tested storage maxsize store op = some pc) :
    pc = .leaving true ∨ pc = .removing ∨ ∃ x, pc = .storing x := by
  cases op with
  | put x =>
      simp only [tested] at leads
      split at leads
      · cases leads
      · exact .inr (.inr ⟨x, (Option.some.inj leads).symm⟩)
  | get =>
      simp only [tested] at leads
      split at leads
      · exact .inr (.inl (Option.some.inj leads).symm)
      · cases leads
  | putNowait x =>
      obtain rfl := Option.some.inj leads
      split
      · exact .inl rfl
      · exact .inr (.inr ⟨x, rfl⟩)
  | getNowait =>
      obtain rfl := Option.some.inj leads
      split
      · exact .inl rfl
      · exact .inr (.inl rfl)

theorem sides_step [DecidableEq F] [DecidableEq C] {a : Act A T F C P} (sides : Sides s)
    (taken : step storage maxsize s a = some s') : Sides s' := by
  have tenants := sides.tenants
  have plain : ∀ {s₁ : State A B T F C P} {v : T ⊕ P} {frame : Frame A F},
      s₁.waits = s.waits → s₁.frame = s.frame → (∀ sd f, ¬frame.has sd f) →
        frame.serves ≠ some .joiner → Sides (s₁.goto v frame) := by
    intro s₁ v frame waits frames none serves
    have same := Kept.of_same tenants waits frames
    exact sides.kept
      (same.trans (Kept.goto same.tenants (fun sd f has => absurd has (none sd f)) serves))
  cases move_of_step taken with
  | around moved =>
      have after := tenants.around moved
      obtain ⟨kernel, rfl, -⟩ := around_eased tenants.facts moved
      exact sides.kept (Kept.setWaits after (fun _ => id) (fun _ _ => id) (fun _ _ _ => id))
  | calls idle may => exact plain rfl rfl (by rintro _ _ ⟨⟩) (by rintro ⟨⟩)
  | enters at_ free => exact plain rfl rfl (by rintro _ _ ⟨⟩) (by rintro ⟨⟩)
  | @tests u op f pc at_ leads =>
      obtain rfl | rfl | ⟨x, rfl⟩ := tested_leads leads
      all_goals exact plain rfl rfl (by rintro _ _ ⟨⟩) (by rintro ⟨⟩)
  | parks at_ call parked =>
      have after := sides.park parked
      have same : Kept _ { s with mu := none, waits := _ } := Kept.of_same after.tenants rfl rfl
      exact (after.kept same).kept (Kept.goto same.tenants (by rintro _ _ ⟨⟩) (by rintro ⟨⟩))
  | stores at_ => exact plain rfl rfl (by rintro _ _ ⟨⟩) (by rintro ⟨⟩)
  | counts at_ => exact plain rfl rfl (by rintro _ _ ⟨⟩) (by rintro ⟨⟩)
  | clears at_ => exact plain rfl rfl (by rintro _ _ ⟨⟩) (by rintro ⟨⟩)
  | removes at_ got => exact plain rfl rfl (by rintro _ _ ⟨⟩) (by rintro ⟨⟩)
  | misses at_ empty => exact plain rfl rfl (by rintro _ _ ⟨⟩) (by rintro ⟨⟩)
  | drained at_ nobody => exact plain rfl rfl (by rintro _ _ ⟨⟩) (by rintro ⟨⟩)
  | @pops u op f fut sd rest at_ first =>
      have here : On s sd fut := .inl (first ▸ List.mem_cons_self)
      have fewer : ∀ g ∈ rest, g ∈ s.waits.waiters sd := by
        intro g member
        rw [first]
        exact List.mem_cons_of_mem _ member
      have serves : sd ≠ .joiner := by
        rintro rfl
        exact sides.serves u (by rw [at_]; rfl)
      have loop : (Frame.inside op (if s.waits.done fut then .waking sd
          else .completing sd fut)).serves ≠ some .joiner := by
        split <;> exact fun same => serves (Option.some.inj same)
      refine sides.kept
        ⟨tenants.setWaiters fewer, serves_goto loop, fun _ => id, ?_, fun _ _ _ => id⟩
      rintro sd' g (member | ⟨v, has⟩)
      · simp only [State.goto, Waits.setWaiters, Function.update_apply] at member
        split at member
        · rename_i isSide
          exact .inl (isSide ▸ fewer g member)
        · exact .inl member
      · simp only [State.goto, Function.update_apply] at has
        split at has
        · split at has
          · cases has
          · obtain ⟨rfl, rfl⟩ := has
            exact here
        · exact .inr ⟨v, has⟩
  | spoiled at_ ended => exact plain rfl rfl (by rintro _ _ ⟨⟩) (by rintro ⟨⟩)
  | @completes u op f fut sd at_ live =>
      have same := Kept.setWaits (s := s) (tenants.finish fut) (fun _ => id) (fun _ _ => id)
        (fun _ _ _ => id)
      exact sides.kept (same.trans (Kept.goto same.tenants (by rintro _ _ ⟨⟩) (by rintro ⟨⟩)))
  | @leaves u op f raises at_ =>
      have same : Kept s (if raises then s.fail u op else s) := by
        cases raises <;> exact Kept.of_same tenants rfl rfl
      have gone : Kept s ((if raises then s.fail u op else s).goto u .outside) :=
        same.trans (Kept.goto same.tenants (by rintro _ _ ⟨⟩) (by rintro ⟨⟩))
      exact sides.kept (gone.trans (Kept.of_same gone.tenants rfl rfl))
  | joinSet at_ isSet => exact plain rfl rfl (by rintro _ _ ⟨⟩) (by rintro ⟨⟩)
  | joinParks at_ unset parked =>
      have after := Sides.park (k := .join) sides parked
      exact after.kept (Kept.goto after.tenants (by rintro _ _ ⟨⟩) (by rintro ⟨⟩))
  | sets at_ => exact sides.kept (kept_setLocked sides)
  | wakes at_ moved => exact sides.kept (kept_wakes sides at_ moved)
  | awaits idle at_ moved stays => exact sides.kept (kept_await sides at_ moved)
  | fails idle at_ moved gone =>
      have same := kept_await sides at_ moved
      exact sides.kept (same.trans (kept_abandon same.tenants))
  | @abandons t k f idle at_ =>
      have same : Kept s { s with waits := s.waits.leave t k.side f } := kept_leave sides
      exact sides.kept (same.trans (kept_abandon same.tenants))
  | @resumes t k f idle at_ =>
      have same : Kept s { s with waits := s.waits.setPlace t .away } :=
        Kept.setWaits (tenants.setPlace (by rintro _ ⟨⟩)) (fun _ => id) (fun _ _ => id)
          (setPlace_enrolled (by rintro _ _ ⟨⟩))
      refine sides.kept (same.trans (Kept.goto same.tenants ?_ ?_))
      · intro sd g has
        cases k <;> cases has
      · cases k <;> rintro ⟨⟩
  | counted idle free =>
      unfold taskDone
      split
      · exact sides
      · refine plain rfl rfl ?_ ?_
        · intro sd f has
          split at has <;> cases has
        · split <;> rintro ⟨⟩
  | joins idle away =>
      refine plain rfl rfl ?_ ?_
      · intro sd f has
        split at has <;> cases has
      · split <;> rintro ⟨⟩

omit [DecidableEq T] [DecidableEq P] in
theorem sides_start (fresh : Start storage s) : Sides s := by
  obtain ⟨fresh, -, -, -, -, frame, -⟩ := fresh
  have tenants := Tenants.of_fresh fresh
  obtain ⟨-, -, waiters, place⟩ := fresh
  refine ⟨tenants, ?_, ?_, ?_, ?_⟩
  all_goals simp [On, waiters, frame, Frame.has, Frame.serves]

theorem sides_of_reachable [DecidableEq F] [DecidableEq C]
    (reached : (machine storage maxsize T F C P).Reachable s) : Sides s :=
  Machine.Reach.invariant Sides (fun _ => sides_start)
    (fun _ _ _ sides _ taken => sides_step sides taken) reached

/-- The queue at its start. -/
def freshSteps (storage : Storage D B) (T F C P : Type) : State A B T F C P where
  waits := freshWaits Side (Call A) T F C
  store := storage.empty
  unfinished := 0
  value := true
  mu := none
  frame := fun _ => .outside
  did := fun _ => .nothing
  failures := []

omit [DecidableEq T] [DecidableEq P] in
theorem freshSteps_start : Start storage (freshSteps storage T F C P) :=
  ⟨freshWaits_fresh, rfl, rfl, rfl, rfl, fun _ => rfl, fun _ => rfl, rfl⟩

end MtAsyncio.QueueSteps
