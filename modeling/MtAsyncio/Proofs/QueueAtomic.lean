/-
Module: MtAsyncio.Proofs.QueueAtomic
Purpose: A `put` or a `get` that raises has done nothing to the queue, as long
  as no `cancel` hits the waiter that it hands its wake to; a cancel between the
  `done()` test and the `set_result()` makes a call raise that has stored its
  item.
Trusted boundary: none
Main exports: HandoffUndisturbed, Atomic, raising_calls_change_nothing,
  put_raises_after_storing
-/
import MtAsyncio.Model.Queue
import MtAsyncio.Proofs.QueueMoves

namespace MtAsyncio.QueueSteps

open Lib (Discipline Machine Storage)
open Queue (deque)
open SyncEvent (SetPc wakeStep)
open Tasks
open Waiting

variable {A B T F C P : Type} [DecidableEq T] [DecidableEq P]
variable {D : Discipline A} {storage : Storage D B} {maxsize : Int}
variable {s s' : State A B T F C P} {u v : T ⊕ P} {t : T} {f : F} {sd : Side}

/-! ## Threads inside of a section -/

/-- The thread holds `_mu`. -/
def Frame.locked : Frame A F → Bool
  | .inside _ .entering => false
  | .inside _ _ => true
  | _ => false

/-- Nothing was done to the queue yet: the call may raise, or wait. -/
def Frame.clean : Frame A F → Bool
  | .inside _ .entering | .inside _ .testing | .inside _ (.storing _) => true
  | .inside _ .removing | .inside _ (.leaving true) => true
  | _ => false

/-- The waiter that was found not done. -/
def Frame.chosen : Frame A F → Option F
  | .inside _ (.completing _ f) => some f
  | _ => none

theorem Frame.locked_of_chosen {frame : Frame A F} (chosen : frame.chosen = some f) :
    frame.locked = true := by
  cases frame with
  | inside op pc =>
      cases pc with
      | completing => rfl
      | _ => cases chosen
  | _ => cases chosen

/-- No cancel completes the waiter that a call has chosen to hand its wake to,
between the `done()` test and the `set_result()`. -/
def HandoffUndisturbed (s : State A B T F C P) (a : Act A T F C P) : Prop :=
  ∀ b u f, a = .around b → (s.frame u).chosen = some f → ¬Cancels s.waits b f

/-- What holds of one thread. -/
structure Sound (s : State A B T F C P) (u : T ⊕ P) : Prop where
  locked : (s.frame u).locked = true → s.mu = some u
  live : ∀ f, (s.frame u).chosen = some f → s.waits.done f = false
  clean : (s.frame u).clean = true → s.did u = .nothing

/-- A task that waits is in no section, and its `put` or `get` has done nothing. -/
def AtRest (s : State A B T F C P) (t : T) : Prop :=
  ∀ k f, (s.waits.place t).call = some (k, f) →
    (s.frame (.inl t)).idle = true ∧ (k.op.isSome = true → s.did (.inl t) = .nothing)

/-- The threads, the tasks that wait, and the calls that raised. -/
structure Atomic (s : State A B T F C P) : Prop where
  sides : Sides s
  sound : ∀ u, Sound s u
  atRest : ∀ t, AtRest s t
  failed : ∀ op effects, (op, effects) ∈ s.failures → effects = .nothing

/-! ## What a step keeps -/

/-- Only `u` moves. -/
structure Apart (s s' : State A B T F C P) (u : T ⊕ P) : Prop where
  frame : ∀ v, v ≠ u → s'.frame v = s.frame v
  did : ∀ v, v ≠ u → s'.did v = s.did v
  mu : ∀ v, v ≠ u → s.mu = some v → s'.mu = some v
  done : ∀ v f, v ≠ u → (s.frame v).chosen = some f → s'.waits.done f = false

omit [DecidableEq T] [DecidableEq P] in
theorem Sound.apart (sound : Sound s v) (apart : Apart s s' u) (other : v ≠ u) : Sound s' v where
  locked := by
    rw [apart.frame v other]
    exact fun locked => apart.mu v other (sound.locked locked)
  live := by
    intro f chosen
    rw [apart.frame v other] at chosen
    exact apart.done v f other chosen
  clean := by
    rw [apart.frame v other, apart.did v other]
    exact sound.clean

omit [DecidableEq T] [DecidableEq P] in
theorem AtRest.apart (atRest : AtRest s t) (apart : Apart s s' u) (other : .inl t ≠ u)
    (place : s'.waits.place t = s.waits.place t) : AtRest s' t := by
  intro k f call
  rw [place] at call
  rw [apart.frame _ other, apart.did _ other]
  exact atRest k f call

theorem Frame.has_of_chosen {frame : Frame A F} (chosen : frame.chosen = some f) :
    ∃ sd, frame.has sd f ∧ frame.serves = some sd := by
  cases frame with
  | inside op pc =>
      cases pc with
      | completing sd g =>
          cases chosen
          exact ⟨sd, ⟨rfl, rfl⟩, rfl⟩
      | _ => cases chosen
  | _ => cases chosen

omit [DecidableEq T] [DecidableEq P] in
theorem Atomic.issued_of_chosen (atomic : Atomic s) (chosen : (s.frame u).chosen = some f) :
    s.waits.issued f = true := by
  obtain ⟨sd, has, -⟩ := Frame.has_of_chosen chosen
  exact atomic.sides.issued sd f (.inr ⟨u, has⟩)

omit [DecidableEq T] [DecidableEq P] in
theorem Atomic.away_of_busy (atomic : Atomic s) (busy : (s.frame (.inl t)).idle = false)
    (k : Call A) (f : F) : (s.waits.place t).call ≠ some (k, f) := by
  intro call
  have idle := (atomic.atRest t k f call).1
  rw [busy] at idle
  cases idle

/-- A thread that is inside of a section or of `_finished.set()` moves. -/
theorem Atomic.busy (atomic : Atomic s) (sides : Sides s') (busy : (s.frame u).idle = false)
    (apart : Apart s s' u) (place : s'.waits.place = s.waits.place) (sound : Sound s' u)
    (failed : ∀ op effects, (op, effects) ∈ s'.failures → effects = .nothing) : Atomic s' := by
  refine ⟨sides, ?_, ?_, failed⟩
  · intro v
    by_cases self : v = u
    · exact self ▸ sound
    · exact (atomic.sound v).apart apart self
  · intro t
    by_cases self : .inl t = u
    · intro k f call
      rw [place] at call
      exact absurd call (atomic.away_of_busy (self ▸ busy) k f)
    · exact (atomic.atRest t).apart apart self (congrFun place t)

/-- Such a thread goes on to another frame. -/
theorem Atomic.goes (atomic : Atomic s) {s₁ : State A B T F C P} {frame : Frame A F}
    (sides : Sides (s₁.goto u frame)) (busy : (s.frame u).idle = false)
    (frames : s₁.frame = s.frame) (place : s₁.waits.place = s.waits.place)
    (did : ∀ v, v ≠ u → s₁.did v = s.did v)
    (mu : ∀ v, v ≠ u → s.mu = some v → s₁.mu = some v)
    (done : ∀ v f, v ≠ u → (s.frame v).chosen = some f → s₁.waits.done f = false)
    (locked : frame.locked = true → s₁.mu = some u)
    (live : ∀ f, frame.chosen = some f → s₁.waits.done f = false)
    (clean : frame.clean = true → s₁.did u = .nothing)
    (failed : ∀ op effects, (op, effects) ∈ s₁.failures → effects = .nothing) :
    Atomic (s₁.goto u frame) := by
  refine atomic.busy sides busy ⟨?_, did, mu, done⟩ place ?_ failed
  · intro v other
    rw [← frames]
    exact Function.update_of_ne other ..
  · constructor
    · rw [goto_self]
      exact locked
    · rw [goto_self]
      exact live
    · rw [goto_self]
      exact clean

/-- The thread leaves the waits, `_mu` and the calls that raised as they are. -/
theorem Atomic.inside (atomic : Atomic s) {s₁ : State A B T F C P} {op op' : Op A}
    {pc pc' : SectionPc A F} (sides : Sides (s₁.goto u (.inside op' pc')))
    (at_ : s.frame u = .inside op pc) (locked : (Frame.inside op pc).locked = true)
    (frames : s₁.frame = s.frame) (waits : s₁.waits = s.waits) (mu : s₁.mu = s.mu)
    (did : ∀ v, v ≠ u → s₁.did v = s.did v) (failures : s₁.failures = s.failures)
    (live : ∀ f, (Frame.inside op' pc').chosen = some f → s.waits.done f = false)
    (clean : (Frame.inside op' pc').clean = true → s₁.did u = .nothing) :
    Atomic (s₁.goto u (.inside op' pc')) := by
  have held := (atomic.sound u).locked
  rw [at_] at held
  refine atomic.goes sides (at_ ▸ rfl) frames (by rw [waits]) did ?_ ?_ ?_ ?_ clean ?_
  · rw [mu]
    exact fun _ _ => id
  · rw [waits]
    exact fun v f _ => (atomic.sound v).live f
  · rw [mu]
    exact fun _ => held locked
  · rw [waits]
    exact live
  · rw [failures]
    exact atomic.failed

omit [DecidableEq T] [DecidableEq P] in
theorem clean_did (atomic : Atomic s) {op : Op A} {pc : SectionPc A F}
    (at_ : s.frame u = .inside op pc) (clean : (Frame.inside op pc).clean = true) :
    s.did u = .nothing :=
  (atomic.sound u).clean (at_ ▸ clean)

/-! ## Steps -/

omit [DecidableEq P] in
theorem atomic_around [DecidableEq F] [DecidableEq C] {b : Around T F C}
    {w : Waits Side (Call A) T F C} (atomic : Atomic s)
    (sides : Sides { s with waits := w }) (undisturbed : HandoffUndisturbed s (.around b))
    (moved : s.waits.around b = some w) : Atomic { s with waits := w } := by
  have spared : ∀ u f, (s.frame u).chosen = some f → w.done f = false := by
    intro u f chosen
    have live := (atomic.sound u).live f chosen
    exact around_done atomic.sides.tenants moved (atomic.issued_of_chosen chosen) live
      (undisturbed b u f rfl chosen)
  obtain ⟨kernel, rfl, -⟩ := around_eased atomic.sides.tenants.facts moved
  refine ⟨sides, ?_, atomic.atRest, atomic.failed⟩
  intro u
  exact { atomic.sound u with live := spared u }

theorem atomic_calls {op : Op A} (atomic : Atomic s)
    (sides : Sides ((s.note u .nothing).goto u (.inside op .entering)))
    (idle : (s.frame u).idle = true) (may : mayCall s u op = true) :
    Atomic ((s.note u .nothing).goto u (.inside op .entering)) := by
  have apart : Apart s ((s.note u .nothing).goto u (.inside op .entering)) u := by
    refine ⟨?_, ?_, fun _ _ => id, fun v f _ => (atomic.sound v).live f⟩
    · intro v other
      exact Function.update_of_ne other ..
    · intro v other
      exact Function.update_of_ne other ..
  refine ⟨sides, ?_, ?_, atomic.failed⟩
  · intro v
    by_cases self : v = u
    · subst self
      constructor
      · rw [goto_self]
        rintro ⟨⟩
      · rw [goto_self]
        rintro f ⟨⟩
      · intro _
        exact Function.update_self ..
    · exact (atomic.sound v).apart apart self
  · intro t
    by_cases self : .inl t = u
    · subst self
      intro k f call
      have away : s.away t = true := by
        cases op with
        | put | get => exact may
        | putNowait | getNowait => cases may
      exact absurd call (call_of_away away k f)
    · exact (atomic.atRest t).apart apart self rfl

omit [DecidableEq T] [DecidableEq P] in
/-- A thread outside of every section. -/
theorem Sound.of_outer (outer : ∀ op pc, s.frame u ≠ .inside op pc) : Sound s u := by
  cases at_ : s.frame u with
  | inside op pc => exact absurd at_ (outer op pc)
  | _ => constructor <;> simp [at_, Frame.locked, Frame.chosen, Frame.clean]

omit [DecidableEq T] [DecidableEq P] in
theorem Sound.of_idle (idle : (s.frame u).idle = true) : Sound s u := by
  refine .of_outer ?_
  intro op pc at_
  rw [at_] at idle
  cases idle

/-- A task makes a step in its call. -/
theorem Atomic.tasks (atomic : Atomic s) (sides : Sides s') (apart : Apart s s' (.inl t))
    (place : ∀ v, v ≠ t → s'.waits.place v = s.waits.place v) (sound : Sound s' (.inl t))
    (atRest : AtRest s' t)
    (failed : ∀ op effects, (op, effects) ∈ s'.failures → effects = .nothing) : Atomic s' := by
  refine ⟨sides, ?_, ?_, failed⟩
  · intro v
    by_cases self : v = .inl t
    · exact self ▸ sound
    · exact (atomic.sound v).apart apart self
  · intro v
    by_cases self : v = t
    · exact self ▸ atRest
    · exact (atomic.atRest v).apart apart (fun same => self (Sum.inl.inj same)) (place v self)

theorem atomic_parks [DecidableEq F] {k : Call A} {mu : Option (T ⊕ P)}
    {w : Waits Side (Call A) T F C}
    (atomic : Atomic s) (sides : Sides ({ s with mu := mu, waits := w }.goto (.inl t) .outside))
    (others : ∀ v, v ≠ .inl t → s.mu = some v → mu = some v)
    (clean : k.op.isSome = true → s.did (.inl t) = .nothing)
    (moved : s.waits.park t k k.side f = some w) :
    Atomic ({ s with mu := mu, waits := w }.goto (.inl t) .outside) := by
  have parked := park_spec atomic.sides.tenants.facts moved
  refine atomic.tasks (t := t) sides ⟨?_, fun _ _ => rfl, others, ?_⟩ ?_ ?_ ?_ atomic.failed
  · intro v other
    exact Function.update_of_ne other ..
  · intro v g other chosen
    have was := (atomic.sound v).live g chosen
    rw [done_eq_false] at was ⊢
    exact (parked.state g (parked.ne_of_issued (atomic.issued_of_chosen chosen))).trans was
  · intro v other
    exact (congrFun parked.place v).trans (Function.update_of_ne other ..)
  · exact .of_idle (by rw [goto_self]; rfl)
  · intro k' g call
    have place : w.place t = .waiting k f .test :=
      (congrFun parked.place t).trans (Function.update_self ..)
    change (w.place t).call = some (k', g) at call
    rw [place] at call
    cases call
    rw [goto_self]
    exact ⟨rfl, clean⟩

/-- A call of a task that waits goes on in its await. -/
theorem atomic_await {k : Call A} {pc : AwaitPc} {w : Waits Side (Call A) T F C}
    (atomic : Atomic s) (sides : Sides { s with waits := w })
    (at_ : s.waits.place t = .waiting k f pc) (moved : s.waits.await t k f pc = some w) :
    Atomic { s with waits := w } := by
  obtain ⟨kernel, next, state, rfl⟩ := await_spec moved
  have rest := atomic.atRest t k f (by rw [at_]; rfl)
  refine atomic.tasks (t := t) sides ⟨fun _ _ => rfl, fun _ _ => rfl, fun _ _ => id, ?_⟩ ?_ ?_ ?_
    atomic.failed
  · intro v g _ chosen
    have was := (atomic.sound v).live g chosen
    rw [done_eq_false] at was ⊢
    exact (congrFun state _).trans was
  · intro v other
    exact Function.update_of_ne other ..
  · exact .of_idle rest.1
  · intro k' g call
    have place : ((s.waits.setKernel kernel).setPlace t (Waits.afterAwait k f next)).place t =
        Waits.afterAwait k f next := Function.update_self ..
    change (((s.waits.setKernel kernel).setPlace t _).place t).call = some (k', g) at call
    rw [place] at call
    obtain rfl : k' = k := afterAwait_call call
    exact rest

omit [DecidableEq T] [DecidableEq P] in
/-- Such a call ends with an exception. -/
theorem atomic_abandon {k : Call A} (atomic : Atomic s) (sides : Sides (s.abandon t k))
    (clean : k.op.isSome = true → s.did (.inl t) = .nothing) : Atomic (s.abandon t k) := by
  cases op : k.op with
  | none =>
      simp only [State.abandon, op]
      exact atomic
  | some op' =>
      simp only [State.abandon, op] at sides ⊢
      refine ⟨sides, fun u => { atomic.sound u with }, atomic.atRest, ?_⟩
      intro op'' effects member
      obtain same | member := List.mem_cons.mp member
      · cases same
        exact clean (by rw [op]; rfl)
      · exact atomic.failed op'' effects member

theorem atomic_leave [DecidableEq F] {k : Call A} (atomic : Atomic s)
    (sides : Sides { s with waits := s.waits.leave t k.side f })
    (idle : (s.frame (.inl t)).idle = true) :
    Atomic { s with waits := s.waits.leave t k.side f } := by
  refine atomic.tasks (t := t) sides
    ⟨fun _ _ => rfl, fun _ _ => rfl, fun _ _ => id, fun v g _ => (atomic.sound v).live g⟩ ?_
    (.of_idle idle) ?_ atomic.failed
  · intro v other
    exact Function.update_of_ne other ..
  · intro k' g call
    have place : (s.waits.leave t k.side f).place t = .away := Function.update_self ..
    change ((s.waits.leave t k.side f).place t).call = some (k', g) at call
    rw [place] at call
    cases call

/-- Behind the await, a `put` or a `get` is in front of its section again. -/
theorem atomic_resumes {k : Call A} (atomic : Atomic s)
    (sides : Sides ({ s with waits := s.waits.setPlace t .away }.goto (.inl t) k.behind))
    (at_ : s.waits.place t = .woken k f) :
    Atomic ({ s with waits := s.waits.setPlace t .away }.goto (.inl t) k.behind) := by
  have rest := atomic.atRest t k f (by rw [at_]; rfl)
  refine atomic.tasks (t := t) sides
    ⟨?_, fun _ _ => rfl, fun _ _ => id, fun v g _ => (atomic.sound v).live g⟩ ?_ ?_ ?_ atomic.failed
  · intro v other
    exact Function.update_of_ne other ..
  · intro v other
    exact Function.update_of_ne other ..
  · constructor
    · rw [goto_self]
      cases k <;> rintro ⟨⟩
    · rw [goto_self]
      cases k <;> rintro _ ⟨⟩
    · rw [goto_self]
      cases k with
      | join => rintro ⟨⟩
      | get | put => exact fun _ => rest.2 rfl
  · intro k' g call
    have place : (s.waits.setPlace t .away).place t = .away := Function.update_self ..
    change ((s.waits.setPlace t .away).place t).call = some (k', g) at call
    rw [place] at call
    cases call

theorem atomic_calm (atomic : Atomic s) {frame : Frame A F} (sides : Sides (s.goto u frame))
    (busy : (s.frame u).idle = false) (outer : ∀ op pc, frame ≠ .inside op pc) :
    Atomic (s.goto u frame) := by
  refine atomic.busy sides busy
    ⟨?_, fun _ _ => rfl, fun _ _ => id, fun v f _ => (atomic.sound v).live f⟩ rfl ?_ atomic.failed
  · intro v other
    exact Function.update_of_ne other ..
  · exact .of_outer (by rw [goto_self]; exact outer)

/-- A thread in `_finished.set()`. -/
theorem atomic_wakes [DecidableEq F] {pc pc' : SetPc F} {w : Waits Side (Call A) T F C}
    (atomic : Atomic s)
    (sides : Sides ({ s with waits := w }.goto u (if pc'.busy then .setting pc' else .outside)))
    (at_ : s.frame u = .setting pc) (moved : wakeStep s.waits pc = some (w, pc')) :
    Atomic ({ s with waits := w }.goto u (if pc'.busy then .setting pc' else .outside)) := by
  obtain ⟨waits, -⟩ := wakeStep_owes moved
  -- a joiner is on the deque of no `put` and no `get`
  have others : ∀ v f, (s.frame v).chosen = some f → w.done f = false := by
    intro v f chosen
    have live := (atomic.sound v).live f chosen
    obtain rfl | ⟨g, isChosen, -, rfl⟩ := waits
    · exact live
    · refine (done_finish s.waits g f).trans ?_
      rw [live, Bool.or_false]
      refine decide_eq_false ?_
      rintro rfl
      obtain ⟨sd, has, serves⟩ := Frame.has_of_chosen chosen
      have joins : (s.frame u).has .joiner f := by
        rw [at_]
        exact ⟨rfl, SetPc.owes_of_chosen isChosen⟩
      refine atomic.sides.serves v ?_
      rw [serves, atomic.sides.one sd .joiner f (.inr ⟨v, has⟩) (.inr ⟨u, joins⟩)]
  have place : w.place = s.waits.place := by
    obtain rfl | ⟨g, -, -, rfl⟩ := waits <;> rfl
  have outer : ∀ op pc, (if pc'.busy then .setting pc' else .outside : Frame A F) ≠
      .inside op pc := by
    intro op pc
    split <;> rintro ⟨⟩
  refine atomic.busy (u := u) sides (at_ ▸ rfl)
    ⟨?_, fun _ _ => rfl, fun _ _ => id, fun v f _ => others v f⟩ place ?_ atomic.failed
  · intro v other
    exact Function.update_of_ne other ..
  · exact .of_outer (by rw [goto_self]; exact outer)

/-- An idle thread calls `task_done` or `join`. -/
theorem atomic_begins {n : Nat} {frame : Frame A F} (atomic : Atomic s)
    (sides : Sides ({ s with unfinished := n }.goto u frame))
    (away : ∀ t, u = .inl t → s.away t = true) (outer : ∀ op pc, frame ≠ .inside op pc) :
    Atomic ({ s with unfinished := n }.goto u frame) := by
  have apart : Apart s ({ s with unfinished := n }.goto u frame) u := by
    refine ⟨?_, fun _ _ => rfl, fun _ _ => id, fun v f _ => (atomic.sound v).live f⟩
    intro v other
    exact Function.update_of_ne other ..
  refine ⟨sides, ?_, ?_, atomic.failed⟩
  · intro v
    by_cases self : v = u
    · subst self
      exact .of_outer (by rw [goto_self]; exact outer)
    · exact (atomic.sound v).apart apart self
  · intro t
    by_cases self : .inl t = u
    · intro k f call
      exact absurd call (call_of_away (away t self.symm) k f)
    · exact (atomic.atRest t).apart apart self rfl

theorem atomic_step [DecidableEq F] [DecidableEq C] {a : Act A T F C P} (atomic : Atomic s)
    (undisturbed : HandoffUndisturbed s a)
    (taken : step storage maxsize s a = some s') : Atomic s' := by
  have sides := sides_step atomic.sides taken
  cases move_of_step taken with
  | around moved => exact atomic_around atomic sides undisturbed moved
  | calls idle may => exact atomic_calls atomic sides idle may
  | @enters u op f at_ free =>
      have clean := clean_did atomic at_ rfl
      refine atomic.goes sides (at_ ▸ rfl) rfl rfl (fun _ _ => rfl) ?_
        (fun v f _ => (atomic.sound v).live f) (fun _ => rfl) (by rintro _ ⟨⟩)
        (fun _ => clean) atomic.failed
      intro v _ owner
      rw [free] at owner
      cases owner
  | @tests u op f pc at_ leads =>
      have clean := clean_did atomic at_ rfl
      obtain rfl | rfl | ⟨x, rfl⟩ := tested_leads leads
      all_goals
        exact atomic.inside sides at_ rfl rfl rfl rfl (fun _ _ => rfl) rfl
          (by rintro _ ⟨⟩) (fun _ => clean)
  | @parks t op k f w at_ call parked =>
      have held := (atomic.sound (.inl t)).locked (at_ ▸ rfl)
      refine atomic_parks atomic sides ?_ (fun _ => clean_did atomic at_ rfl) parked
      intro v other owner
      exact absurd (Option.some.inj (owner.symm.trans held)) other
  | stores at_ =>
      exact atomic.inside sides at_ rfl rfl rfl rfl
        (fun v other => Function.update_of_ne other ..) rfl
        (by rintro _ ⟨⟩) (by rintro ⟨⟩)
  | counts at_ =>
      exact atomic.inside sides at_ rfl rfl rfl rfl
        (fun v other => Function.update_of_ne other ..) rfl
        (by rintro _ ⟨⟩) (by rintro ⟨⟩)
  | clears at_ =>
      exact atomic.inside sides at_ rfl rfl rfl rfl (fun _ _ => rfl) rfl
        (by rintro _ ⟨⟩) (by rintro ⟨⟩)
  | removes at_ got =>
      exact atomic.inside sides at_ rfl rfl rfl rfl
        (fun v other => Function.update_of_ne other ..) rfl
        (by rintro _ ⟨⟩) (by rintro ⟨⟩)
  | misses at_ empty =>
      exact atomic.inside sides at_ rfl rfl rfl rfl (fun _ _ => rfl) rfl
        (by rintro _ ⟨⟩) (fun _ => clean_did atomic at_ rfl)
  | drained at_ nobody =>
      exact atomic.inside sides at_ rfl rfl rfl rfl (fun _ _ => rfl) rfl
        (by rintro _ ⟨⟩) (by rintro ⟨⟩)
  | @pops u op f fut sd rest at_ first =>
      have held := (atomic.sound u).locked (at_ ▸ rfl)
      refine atomic.goes sides (at_ ▸ rfl) rfl rfl (fun _ _ => rfl) (fun _ _ => id)
        (fun v f _ => (atomic.sound v).live f) (fun _ => held) ?_ ?_ atomic.failed
      · intro g chosen
        split at chosen
        · cases chosen
        · rename_i live
          exact Option.some.inj chosen ▸ Bool.not_eq_true _ ▸ live
      · intro clean
        split at clean <;> cases clean
  | spoiled at_ ended =>
      have live := (atomic.sound _).live _ (by rw [at_]; rfl)
      rw [ended] at live
      cases live
  | @completes u op f fut sd at_ live =>
      have held := (atomic.sound u).locked (at_ ▸ rfl)
      refine atomic.goes sides (at_ ▸ rfl) rfl rfl (fun _ _ => rfl) (fun _ _ => id) ?_
        (fun _ => held) (by rintro _ ⟨⟩) (by rintro ⟨⟩) atomic.failed
      -- nobody else is in a section
      intro v g other chosen
      obtain ⟨sd', has, -⟩ := Frame.has_of_chosen chosen
      have owner := (atomic.sound v).locked (Frame.locked_of_chosen chosen)
      exact absurd (Option.some.inj (owner.symm.trans held)) other
  | @leaves u op f raises at_ =>
      have held := (atomic.sound u).locked (at_ ▸ rfl)
      have clean := (atomic.sound u).clean
      rw [at_] at clean
      let left := { (if raises then s.fail u op else s) with mu := none }
      show Atomic (left.goto u .outside)
      refine atomic.goes sides (at_ ▸ rfl) ?_ ?_ ?_ ?_ ?_ (by rintro ⟨⟩) (by rintro _ ⟨⟩)
        (by rintro ⟨⟩) ?_
      · cases raises <;> rfl
      · cases raises <;> rfl
      · cases raises <;> exact fun _ _ => rfl
      · intro v other owner
        exact absurd (Option.some.inj (owner.symm.trans held)) other
      · cases raises <;> exact fun v f _ => (atomic.sound v).live f
      · cases raises with
        | false => exact atomic.failed
        | true =>
            intro op' effects member
            obtain same | member := List.mem_cons.mp member
            · cases same
              exact clean rfl
            · exact atomic.failed op' effects member
  | joinSet at_ isSet => exact atomic_calm atomic sides (at_ ▸ rfl) (by rintro _ _ ⟨⟩)
  | @joinParks t f w at_ unset parked =>
      exact atomic_parks (k := .join) atomic sides (fun _ _ => id) (by rintro ⟨⟩) parked
  | @sets u f at_ =>
      unfold setLocked at sides ⊢
      split at sides
      · rw [if_pos ‹_›]
        exact atomic_calm atomic sides (at_ ▸ rfl) (by rintro _ _ ⟨⟩)
      · rw [if_neg ‹_›]
        refine atomic.goes sides (at_ ▸ rfl) rfl rfl (fun _ _ => rfl) (fun _ _ => id)
          (fun v f _ => (atomic.sound v).live f) (by rintro ⟨⟩) (by rintro _ ⟨⟩)
          (by rintro ⟨⟩) atomic.failed
  | wakes at_ moved => exact atomic_wakes atomic sides at_ moved
  | awaits idle at_ moved stays => exact atomic_await atomic sides at_ moved
  | fails idle at_ moved gone =>
      have before := atomic_await atomic (atomic.sides.kept (kept_await atomic.sides at_ moved)) at_
        moved
      exact atomic_abandon before sides (atomic.atRest _ _ _ (by rw [at_]; rfl)).2
  | @abandons t k f idle at_ =>
      have before := atomic_leave (k := k) (f := f) atomic
        (atomic.sides.kept (kept_leave atomic.sides)) idle
      exact atomic_abandon before sides (atomic.atRest _ _ _ (by rw [at_]; rfl)).2
  | resumes idle at_ => exact atomic_resumes atomic sides at_
  | @counted p idle free =>
      unfold taskDone at sides ⊢
      split at sides
      · rwa [if_pos ‹_›]
      · rw [if_neg ‹_›]
        refine atomic_begins atomic sides (by rintro _ ⟨⟩) ?_
        intro op pc
        split <;> rintro ⟨⟩
  | @joins t idle away =>
      refine atomic_begins atomic sides ?_ ?_
      · rintro _ ⟨⟩
        exact away
      · intro op pc
        split <;> rintro ⟨⟩

omit [DecidableEq T] [DecidableEq P] in
theorem atomic_start (fresh : Start storage s) : Atomic s := by
  have sides := sides_start fresh
  obtain ⟨⟨-, -, -, place⟩, -, -, -, -, frame, -, failures⟩ := fresh
  refine ⟨sides, ?_, ?_, ?_⟩
  · intro u
    exact .of_idle (by rw [frame]; rfl)
  · intro t k f call
    rw [place] at call
    cases call
  · intro op effects member
    rw [failures] at member
    cases member

theorem atomic_of_reach [DecidableEq F] [DecidableEq C]
    (reached : (machine storage maxsize T F C P).Reach HandoffUndisturbed s) : Atomic s :=
  Machine.Reach.invariant Atomic (fun _ => atomic_start)
    (fun _ _ _ atomic undisturbed taken => atomic_step atomic undisturbed taken) reached

/-! ## Calls that raise -/

/-- A call that raised has stored no item, counted none and removed none. -/
def RaisesClean (s : State A B T F C P) : Prop :=
  ∀ op effects, (op, effects) ∈ s.failures → effects = .nothing

theorem raising_calls_change_nothing [DecidableEq F] [DecidableEq C]
    (reached : (machine storage maxsize T F C P).Reach HandoffUndisturbed s) : RaisesClean s :=
  (atomic_of_reach reached).failed

/-! ## Runs -/

/-- A getter waits, and a `cancel` has read its future. -/
def getterRun : List (Act Nat Bool Nat Unit Unit) :=
  .call (.inl false) .get :: .replicate 2 (.step (.inl false) 10) ++ .replicate 3 (.await false) ++
    .around (.kernel (.cancel () false)) :: .replicate 3 (.around (.kernel (.call ())))

/-- `HandoffUndisturbed` for two tasks and one thread. -/
def undisturbed [DecidableEq F] (s : State A B Bool F C Unit) : Act A Bool F C Unit → Bool
  | .around (.kernel (.call c)) =>
      match s.waits.kernel.calls c with
      | (_, .futCancel (.fut f)) :: _ =>
          [.inl false, .inl true, .inr ()].all fun u => (s.frame u).chosen ≠ some f
      | _ => true
  | _ => true

theorem undisturbed_sound [DecidableEq F] (s : State A B Bool F C Unit) (a : Act A Bool F C Unit)
    (checked : undisturbed s a = true) : HandoffUndisturbed s a := by
  rintro b u f rfl chosen ⟨c, t, rest, rfl, stack⟩
  simp only [undisturbed, stack, List.all_cons, List.all_nil, Bool.and_true, Bool.and_eq_true,
    decide_eq_true_eq] at checked
  obtain ⟨first, second, thread⟩ := checked
  obtain (_ | _) | _ := u
  · exact first chosen
  · exact second chosen
  · exact thread chosen

/-- The cancel ends, and the getter leaves with its exception. -/
theorem cancelledRun_ends :
    ((machine (deque Nat) 0 Bool Nat Unit Unit).execIf undisturbed (freshSteps (deque Nat) _ _ _ _)
      (getterRun ++ .around (.kernel (.call ())) :: .around (.kernel (.wake (.fut 10))) ::
        .replicate 4 (.await false))).any
      (fun s => s.failures = [(.get, .nothing)]) = true := by
  decide +kernel

theorem raising_calls_change_nothing_cancelled :
    ∃ s : State Nat (List Nat) Bool Nat Unit Unit, s.failures = [(.get, .nothing)] ∧
      RaisesClean s := by
  obtain ⟨s, reached, ends⟩ :=
    Machine.Reach.exists_of_execIf undisturbed_sound freshSteps_start cancelledRun_ends
  exact ⟨s, of_decide_eq_true ends, raising_calls_change_nothing reached⟩

/-- `put_nowait(5)` finds the getter not done, and the cancel comes before its
`set_result()`. -/
theorem spoiledRun_ends :
    ((machine (deque Nat) 0 Bool Nat Unit Unit).exec (freshSteps (deque Nat) _ _ _ _)
      (getterRun ++ .call (.inr ()) (.putNowait 5) :: .replicate 6 (.step (.inr ()) 0) ++
        .around (.kernel (.call ())) :: .replicate 2 (.step (.inr ()) 0))).any
      (fun s => s.store = [5] ∧ s.unfinished = 1 ∧
        s.failures = [(.putNowait 5, ⟨true, true, false⟩)]) = true := by
  decide +kernel

theorem put_raises_after_storing :
    ¬ ∀ s : State Nat (List Nat) Bool Nat Unit Unit,
      (machine (deque Nat) 0 Bool Nat Unit Unit).Reachable s → RaisesClean s := by
  intro always
  obtain ⟨s, reached, ends⟩ := Machine.Reachable.exists_of_exec freshSteps_start spoiledRun_ends
  obtain ⟨-, -, failures⟩ := of_decide_eq_true ends
  have clean := always s reached (.putNowait 5) ⟨true, true, false⟩ (by
    rw [failures]
    exact List.mem_cons_self)
  cases clean

end MtAsyncio.QueueSteps
