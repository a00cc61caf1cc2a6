/-
Module: MtAsyncio.Proofs.WaitingLists
Purpose: What holds of the deques of waiters of every primitive: each queued
  future belongs to one task that is inside of the primitive, none of them has a
  result, and no live future of such a task has fallen off its deque.
Trusted boundary: none
Main exports: Registered, Registered.around, Registered.await, Registered.park,
  Registered.leave, Registered.wakeNext, Served, Served.wakeNext
-/
import MtAsyncio.Model.Waiting
import MtAsyncio.Proofs.IssuedFutures
import MtAsyncio.Proofs.LockOwner

namespace MtAsyncio.Waiting

open Lock (Elsewhere)
open Tasks

variable {S K T F C : Type}
variable {w w' : Waits S K T F C} {t u : T} {k : K} {f g : F}

/-! ## The surroundings -/

theorem elsewhere_eased [DecidableEq T] [DecidableEq F] (facts : Issued w.kernel w.issued)
    {e : Elsewhere T F} (taken : w.elsewhere t e = some w') :
    ∃ kernel, w' = w.setKernel kernel ∧ Eased w.issued w.kernel kernel := by
  cases e with
  | create f =>
      simp only [Waits.elsewhere] at taken
      split at taken
      · cases taken
      · rename_i fresh
        cases taken
        exact ⟨_, rfl, create_eased facts.created fresh⟩
  | await r pc =>
      cases r with
      | fut f =>
          simp only [Waits.elsewhere] at taken
          split at taken
          · cases taken
          · obtain ⟨next, moved, rfl⟩ := Option.map_eq_some_iff.mp taken
            exact ⟨next.1, rfl, awaitStep_eased moved⟩
      | task v =>
          obtain ⟨next, moved, rfl⟩ := Option.map_eq_some_iff.mp taken
          exact ⟨next.1, rfl, awaitStep_eased moved⟩
  | uncancel pc =>
      cases taken
      exact ⟨_, rfl, uncancel_eased w.kernel t pc⟩
  | settle ending =>
      cases taken
      exact ⟨_, rfl, settle_eased w.kernel t ending⟩

/-- The surroundings move the kernel only, and ease the futures of the
primitive. -/
theorem around_eased [DecidableEq T] [DecidableEq F] [DecidableEq C]
    (facts : Issued w.kernel w.issued) {a : Around T F C} (taken : w.around a = some w') :
    ∃ kernel, w' = w.setKernel kernel ∧ Eased w.issued w.kernel kernel := by
  cases a with
  | kernel a =>
      have moves : (∀ f st, a = .complete f st → w.issued f = false) →
          (w.kernel.step a).map w.setKernel = some w' →
            ∃ kernel, w' = w.setKernel kernel ∧ Eased w.issued w.kernel kernel := by
        intro foreign mapped
        obtain ⟨kernel, moved, rfl⟩ := Option.map_eq_some_iff.mp mapped
        exact ⟨kernel, rfl, kernel_eased moved foreign⟩
      cases a with
      | complete f st =>
          simp only [Waits.around] at taken
          split at taken
          · cases taken
          · rename_i foreign
            refine moves ?_ taken
            rintro g st' ⟨rfl, rfl⟩
            simpa using foreign
      | _ => exact moves (by rintro _ _ ⟨⟩) taken
  | elsewhere t e =>
      simp only [Waits.around] at taken
      split at taken
      · exact elsewhere_eased facts taken
      · cases taken

/-! ## The deques -/

/-- The future of the task's call. -/
def Place.future : Place K F → Option F
  | .away => none
  | .waiting _ f _ | .caught _ f | .woken _ f | .handing _ f => some f

/-- The call whose future may still be on its deque. -/
def Place.enrolled : Place K F → Option (K × F)
  | .waiting k f _ | .caught k f => some (k, f)
  | _ => none

/-- The call that has left its deque with a result. -/
def Place.settled : Place K F → Option F
  | .woken _ f | .handing _ f => some f
  | _ => none

theorem Place.future_of_enrolled {p : Place K F} (enrolled : p.enrolled = some (k, f)) :
    p.future = some f := by
  cases p with
  | waiting | caught =>
      cases enrolled
      rfl
  | _ => cases enrolled

theorem Place.future_of_settled {p : Place K F} (settled : p.settled = some f) :
    p.future = some f := by
  cases p with
  | woken | handing => exact settled
  | _ => cases settled

theorem Place.settled_of_enrolled {p : Place K F} (enrolled : p.enrolled = some (k, f)) :
    p.settled = none := by
  cases p with
  | waiting | caught => rfl
  | _ => cases enrolled

/-- The call of a task that has not entered its next locked section. -/
def Place.call : Place K F → Option (K × F)
  | .waiting k f _ | .caught k f | .woken k f => some (k, f)
  | _ => none

theorem Place.future_of_call {p : Place K F} (call : p.call = some (k, f)) :
    p.future = some f := by
  cases p with
  | waiting | caught | woken =>
      cases call
      rfl
  | _ => cases call

theorem Place.call_of_enrolled {p : Place K F} (enrolled : p.enrolled = some (k, f)) :
    p.call = some (k, f) := by
  cases p with
  | waiting | caught => exact enrolled
  | _ => cases enrolled

/-- The deques and the tasks inside of the primitive. -/
structure Registered (side : K → S) (w : Waits S K T F C) : Prop where
  facts : Issued w.kernel w.issued
  used : ∀ t f, (w.place t).future = some f → w.issued f = true
  apart : ∀ t u f, (w.place t).future = some f → (w.place u).future = some f → t = u
  resumed : ∀ t k f pc, w.place t = .waiting k f pc → Lock.resumed pc = true →
    w.kernel.event (.fut f) = true
  settled : ∀ t f, (w.place t).settled = some f → w.kernel.state (.fut f) = .finished
  queued : ∀ sd f, f ∈ w.waiters sd → ∃ t k, (w.place t).enrolled = some (k, f) ∧ side k = sd
  nodup : ∀ sd, (w.waiters sd).Nodup
  ungranted : ∀ sd f, f ∈ w.waiters sd → w.kernel.state (.fut f) ≠ .finished
  live : ∀ t k f, (w.place t).enrolled = some (k, f) → w.kernel.state (.fut f) = .pending →
    f ∈ w.waiters (side k)

/-- A step of the await completes no future, and gives the task no other one. -/
theorem await_spec [DecidableEq T] {pc : AwaitPc} (taken : w.await t k f pc = some w') :
    ∃ kernel next, kernel.state = w.kernel.state ∧
      w' = (w.setKernel kernel).setPlace t (Waits.afterAwait k f next) := by
  obtain ⟨⟨kernel, next⟩, moved, rfl⟩ := Option.map_eq_some_iff.mp taken
  exact ⟨kernel, next, (awaitStep_frame moved).1, rfl⟩

theorem afterAwait_future {next : AwaitPc ⊕ Outcome}
    (has : (Waits.afterAwait k f next).future = some g) : g = f := by
  cases next with
  | inl pc =>
      cases has
      rfl
  | inr outcome => cases outcome <;> cases has <;> rfl

/-- What parking does. -/
structure Parked [DecidableEq S] [DecidableEq T] [DecidableEq F] (w : Waits S K T F C) (t : T)
    (k : K) (sd : S) (f : F) (w' : Waits S K T F C) :
    Prop where
  new : w.issued f = false
  issued : w'.issued = Function.update w.issued f true
  waiters : w'.waiters = Function.update w.waiters sd (w.waiters sd ++ [f])
  place : w'.place = Function.update w.place t (.waiting k f .test)
  pending : w'.kernel.state (.fut f) = .pending
  state : ∀ g, g ≠ f → w'.kernel.state (.fut g) = w.kernel.state (.fut g)

theorem park_spec [DecidableEq S] [DecidableEq T] [DecidableEq F] (facts : Issued w.kernel w.issued)
    {sd : S} (taken : w.park t k sd f = some w') : Parked w t k sd f w' := by
  simp only [Waits.park] at taken
  split at taken
  · cases taken
  · rename_i fresh
    cases taken
    refine ⟨?_, rfl, rfl, rfl, Function.update_self .., ?_⟩
    · by_contra made
      exact fresh (facts.created f (by simpa using made))
    · intro g other
      exact Function.update_of_ne (fun same => other (Ref.fut.inj same)) _ _

theorem Parked.ne_of_issued [DecidableEq S] [DecidableEq T] [DecidableEq F] {sd : S}
    (parked : Parked w t k sd f w') (made : w.issued g = true) :
    g ≠ f := by
  rintro rfl
  rw [parked.new] at made
  cases made

theorem setWaiters_self [DecidableEq S] (w : Waits S K T F C) (sd : S) (fs : List F) :
    (w.setWaiters sd fs).waiters sd = fs := by
  simp only [Waits.setWaiters, Function.update_self]

theorem setPlace_self [DecidableEq T] (w : Waits S K T F C) (t : T) (p : Place K F) :
    (w.setPlace t p).place t = p := by
  simp only [Waits.setPlace, Function.update_self]

theorem setPlace_other [DecidableEq T] (w : Waits S K T F C) (p : Place K F) (other : u ≠ t) :
    (w.setPlace t p).place u = w.place u := by
  simp only [Waits.setPlace, Function.update_of_ne other]

theorem setPlace_future [DecidableEq T] {p : Place K F}
    (future : ∀ g, p.future = some g → (w.place t).future = some g) (u : T) (g : F)
    (has : ((w.setPlace t p).place u).future = some g) : (w.place u).future = some g := by
  simp only [Waits.setPlace, Function.update_apply] at has
  split at has
  · rename_i isT
    exact isT ▸ future g has
  · exact has

variable {side : K → S}

namespace Registered

theorem issued_of_mem (registered : Registered side w) {sd : S} (member : f ∈ w.waiters sd) :
    w.issued f = true := by
  obtain ⟨t, k, enrolled, -⟩ := registered.queued sd f member
  exact registered.used t f (Place.future_of_enrolled enrolled)

theorem side_eq (registered : Registered side w) {sd : S}
    (enrolled : (w.place t).enrolled = some (k, f)) (member : f ∈ w.waiters sd) : side k = sd := by
  obtain ⟨u, k', enrolled', isSide⟩ := registered.queued sd f member
  have same : t = u := registered.apart t u f (Place.future_of_enrolled enrolled)
    (Place.future_of_enrolled enrolled')
  subst same
  rw [enrolled] at enrolled'
  cases enrolled'
  exact isSide

theorem setKernel (registered : Registered side w) {kernel : Kernel T F C}
    (eased : Eased w.issued w.kernel kernel) : Registered side (w.setKernel kernel) where
  facts := registered.facts.eased eased
  used := registered.used
  apart := registered.apart
  resumed := by
    intro t k f pc at_ past
    refine eased.event f (registered.used t f ?_) (registered.resumed t k f pc at_ past)
    exact congrArg Place.future at_
  settled := by
    intro t f settled
    have made := registered.used t f (Place.future_of_settled settled)
    exact (eased.finished made).mpr (registered.settled t f settled)
  queued := registered.queued
  nodup := registered.nodup
  ungranted := by
    intro sd f member finished
    have made := registered.issued_of_mem member
    exact registered.ungranted sd f member ((eased.finished made).mp finished)
  live := by
    intro t k f enrolled pending
    have made := registered.used t f (Place.future_of_enrolled enrolled)
    exact registered.live t k f enrolled (eased.pending made pending)

theorem around [DecidableEq T] [DecidableEq F] [DecidableEq C] (registered : Registered side w)
    {a : Around T F C} (taken : w.around a = some w') : Registered side w' := by
  obtain ⟨kernel, rfl, eased⟩ := around_eased registered.facts taken
  exact registered.setKernel eased

/-- A task goes on with the same future, or with none; what it leaves is not on a
deque. -/
theorem setPlace [DecidableEq T] (registered : Registered side w) {p : Place K F}
    (future : ∀ f, p.future = some f → (w.place t).future = some f)
    (resumes : ∀ k f pc, p = .waiting k f pc → Lock.resumed pc = true →
      w.kernel.event (.fut f) = true)
    (settles : ∀ f, p.settled = some f → w.kernel.state (.fut f) = .finished)
    (leaves : ∀ k f, (w.place t).enrolled = some (k, f) → p.enrolled = some (k, f) ∨
      f ∉ w.waiters (side k))
    (live : ∀ k f, p.enrolled = some (k, f) → w.kernel.state (.fut f) = .pending →
      f ∈ w.waiters (side k)) : Registered side (w.setPlace t p) := by
  have place : ∀ u, (w.setPlace t p).place u = if u = t then p else w.place u := by
    intro u
    exact Function.update_apply ..
  have futures := setPlace_future future
  refine ⟨registered.facts, ?_, ?_, ?_, ?_, ?_, registered.nodup, registered.ungranted, ?_⟩
  · intro u g has
    exact registered.used u g (futures u g has)
  · intro u v g has has'
    exact registered.apart u v g (futures u g has) (futures v g has')
  · intro u k g pc at_ past
    rw [place] at at_
    split at at_
    · exact resumes k g pc at_ past
    · exact registered.resumed u k g pc at_ past
  · intro u g settled
    rw [place] at settled
    split at settled
    · exact settles g settled
    · exact registered.settled u g settled
  · intro sd g member
    obtain ⟨u, k, enrolled, isSide⟩ := registered.queued sd g member
    refine ⟨u, k, ?_, isSide⟩
    rw [place]
    split
    · rename_i isT
      subst isT
      obtain kept | off := leaves k g enrolled
      · exact kept
      · rw [isSide] at off
        exact absurd member off
    · exact enrolled
  · intro u k g enrolled pending
    rw [place] at enrolled
    split at enrolled
    · exact live k g enrolled pending
    · exact registered.live u k g enrolled pending

/-- The steps of the await. -/
theorem await [DecidableEq T] (registered : Registered side w) {pc : AwaitPc}
    (at_ : w.place t = .waiting k f pc) (taken : w.await t k f pc = some w') :
    Registered side w' := by
  obtain ⟨⟨kernel, next⟩, moved, rfl⟩ := Option.map_eq_some_iff.mp taken
  have eased : Registered side (w.setKernel kernel) :=
    registered.setKernel (awaitStep_eased moved)
  obtain ⟨state, event, -, -⟩ := awaitStep_frame moved
  have enrolled : ((w.setKernel kernel).place t).enrolled = some (k, f) :=
    congrArg Place.enrolled at_
  have made : w.issued f = true := registered.used t f (congrArg Place.future at_)
  -- a step to another counter of the await, or to the except clause
  have goes : ∀ p : Place K F, p.enrolled = some (k, f) →
      (∀ k' g apc, p = .waiting k' g apc → Lock.resumed apc = true →
        kernel.event (.fut g) = true) → Registered side ((w.setKernel kernel).setPlace t p) := by
    intro p stays resumes
    have isFuture := Place.future_of_enrolled stays
    refine eased.setPlace ?_ resumes ?_ ?_ ?_
    · intro g has
      rw [isFuture] at has
      exact has ▸ Place.future_of_enrolled enrolled
    · intro g settled
      rw [Place.settled_of_enrolled stays] at settled
      cases settled
    · intro k' g was
      left
      rw [enrolled] at was
      exact was ▸ stays
    · intro k' g has pending
      rw [stays] at has
      exact eased.live t k' g (has ▸ enrolled) pending
  cases pc with
  | test =>
      cases moved
      refine goes _ (by split <;> rfl) ?_
      intro k' g apc same past
      split at same
      · rename_i set
        cases same
        exact set
      · cases same
        cases past
  | arm =>
      simp only [Kernel.awaitStep] at moved
      split at moved
      · cases moved
        exact goes _ rfl (by rintro _ _ _ ⟨⟩)
      · cases moved
        refine goes _ rfl ?_
        rintro _ _ _ ⟨⟩ ⟨⟩
  | armed =>
      cases moved
      refine goes _ rfl ?_
      rintro _ _ _ ⟨⟩ ⟨⟩
  | suspended =>
      simp only [Kernel.awaitStep] at moved
      split at moved
      · rename_i set
        cases moved
        refine goes _ rfl ?_
        rintro _ _ _ ⟨⟩ _
        exact set
      · cases moved
  | disarm =>
      cases moved
      refine goes _ rfl ?_
      rintro _ _ _ ⟨⟩ _
      exact registered.resumed t k f .disarm at_ rfl
  | ready =>
      simp only [Kernel.awaitStep] at moved
      split at moved
      · cases moved
        exact goes _ rfl (by rintro _ _ _ ⟨⟩)
      · cases moved
        refine goes _ rfl ?_
        rintro _ _ _ ⟨⟩ _
        exact registered.resumed t k f .ready at_ rfl
  | read =>
      have set := registered.resumed t k f .read at_ rfl
      simp only [Kernel.awaitStep, set, if_true, Kernel.read] at moved
      cases status : w.kernel.state (.fut f) with
      | pending => exact absurd status (registered.facts.fence f made set)
      | failed => exact absurd status (registered.facts.unfailed f made)
      | cancelled =>
          simp only [status] at moved
          cases moved
          exact goes _ rfl (by rintro _ _ _ ⟨⟩)
      | finished =>
          simp only [status] at moved
          cases moved
          refine eased.setPlace ?_ (by rintro _ _ _ ⟨⟩) ?_ ?_ (by rintro _ _ ⟨⟩)
          · rintro g ⟨⟩
            exact Place.future_of_enrolled enrolled
          · rintro g ⟨⟩
            exact status
          · intro k' g was
            right
            rw [enrolled] at was
            cases was
            intro member
            exact registered.ungranted _ f member status

/-- A call makes a future and puts it on its deque. -/
theorem park [DecidableEq S] [DecidableEq T] [DecidableEq F] (registered : Registered side w)
    (away : (w.place t).enrolled = none)
    (taken : w.park t k (side k) f = some w') : Registered side w' := by
  simp only [Waits.park] at taken
  split at taken
  · cases taken
  · rename_i fresh
    cases taken
    have new : ∀ g, w.issued g = true → g ≠ f := by
      rintro g made rfl
      exact fresh (registered.facts.created g made)
    have ref : ∀ g, w.issued g = true → Ref.fut (T := T) g ≠ .fut f := by
      intro g made same
      exact new g made (Ref.fut.inj same)
    have state : ∀ g, w.issued g = true →
        (w.kernel.create f).state (.fut g) = w.kernel.state (.fut g) := by
      intro g made
      exact Function.update_of_ne (ref g made) _ _
    have place : ∀ u, Function.update w.place t (.waiting k f .test) u =
        if u = t then .waiting k f .test else w.place u := by
      intro u
      exact Function.update_apply ..
    have waiters : ∀ sd, Function.update w.waiters (side k) (w.waiters (side k) ++ [f]) sd =
        if sd = side k then w.waiters sd ++ [f] else w.waiters sd := by
      intro sd
      rw [Function.update_apply]
      split
      · rename_i isSide
        rw [isSide]
      · rfl
    have queued : ∀ sd g, g ∈ w.waiters sd →
        g ∈ Function.update w.waiters (side k) (w.waiters (side k) ++ [f]) sd := by
      intro sd g member
      rw [waiters]
      split
      · exact List.mem_append_left _ member
      · exact member
    refine ⟨registered.facts.create f, ?_, ?_, ?_, ?_, ?_, ?_, ?_, ?_⟩
    · intro u g has
      simp only [Waits.setPlace, place] at has ⊢
      rw [Function.update_apply]
      split at has
      · cases has
        rw [if_pos rfl]
      · rw [if_neg (new g (registered.used u g has))]
        exact registered.used u g has
    · intro u v g has has'
      simp only [Waits.setPlace, place] at has has'
      split at has <;> split at has'
      · rename_i isT isT'
        rw [isT, isT']
      · cases has
        exact absurd rfl (new f (registered.used v f has'))
      · cases has'
        exact absurd rfl (new f (registered.used u f has))
      · exact registered.apart u v g has has'
    · intro u k' g pc at_ past
      simp only [Waits.setPlace, place] at at_
      split at at_
      · cases at_
        cases past
      · have made := registered.used u g (congrArg Place.future at_)
        exact (Function.update_of_ne (ref g made) _ _).trans
          (registered.resumed u k' g pc at_ past)
    · intro u g settled
      simp only [Waits.setPlace, place] at settled
      split at settled
      · cases settled
      · have made := registered.used u g (Place.future_of_settled settled)
        exact (state g made).trans (registered.settled u g settled)
    · intro sd g member
      simp only [Waits.setPlace, waiters] at member
      have old : g ∈ w.waiters sd → ∃ u k', ((Function.update w.place t
          (.waiting k f .test)) u).enrolled = some (k', g) ∧ side k' = sd := by
        intro member
        obtain ⟨u, k', enrolled, isSide⟩ := registered.queued sd g member
        refine ⟨u, k', ?_, isSide⟩
        rw [place]
        split
        · rename_i isT
          rw [isT, away] at enrolled
          cases enrolled
        · exact enrolled
      split at member
      · rename_i isSide
        obtain member | isF := List.mem_append.mp member
        · exact old member
        · cases List.mem_singleton.mp isF
          refine ⟨t, k, ?_, isSide.symm⟩
          simp only [Waits.setPlace, place, if_true]
          rfl
      · exact old member
    · intro sd
      simp only [Waits.setPlace, waiters]
      split
      · refine List.nodup_append.mpr ⟨registered.nodup sd, List.nodup_singleton f, ?_⟩
        intro g member g' isF
        cases List.mem_singleton.mp isF
        exact new g (registered.issued_of_mem member)
      · exact registered.nodup sd
    · intro sd g member
      have old : g ∈ w.waiters sd → (w.kernel.create f).state (.fut g) ≠ .finished := by
        intro member
        rw [state g (registered.issued_of_mem member)]
        exact registered.ungranted sd g member
      simp only [Waits.setPlace, waiters] at member
      split at member
      · obtain member | isF := List.mem_append.mp member
        · exact old member
        · cases List.mem_singleton.mp isF
          simp [Waits.setPlace, Kernel.create]
      · exact old member
    · intro u k' g enrolled pending
      simp only [Waits.setPlace, place] at enrolled
      split at enrolled
      · cases enrolled
        simp only [Waits.setPlace, waiters, if_true]
        exact List.mem_append_right _ List.mem_cons_self
      · have made := registered.used u g (Place.future_of_enrolled enrolled)
        exact queued _ g (registered.live u k' g enrolled ((state g made).symm.trans pending))

/-- The except clause takes the future off its deque. -/
theorem leave [DecidableEq S] [DecidableEq T] [DecidableEq F] (registered : Registered side w)
    (enrolled : (w.place t).enrolled = some (k, f)) :
    Registered side (w.leave t (side k) f) := by
  have place : ∀ u, (w.leave t (side k) f).place u = if u = t then .away else w.place u := by
    intro u
    exact Function.update_apply ..
  have waiters : ∀ sd, (w.leave t (side k) f).waiters sd =
      if sd = side k then (w.waiters sd).erase f else w.waiters sd := by
    intro sd
    refine (Function.update_apply ..).trans ?_
    split
    · rename_i isSide
      rw [isSide]
    · rfl
  have sub : ∀ sd, ((w.leave t (side k) f).waiters sd).Sublist (w.waiters sd) := by
    intro sd
    rw [waiters]
    split
    · exact List.erase_sublist
    · exact .refl _
  have isFuture := Place.future_of_enrolled enrolled
  refine ⟨registered.facts, ?_, ?_, ?_, ?_, ?_, fun sd => (registered.nodup sd).sublist (sub sd),
    fun sd g member => registered.ungranted sd g ((sub sd).subset member), ?_⟩
  · intro u g has
    rw [place] at has
    split at has
    · cases has
    · exact registered.used u g has
  · intro u v g has has'
    rw [place] at has has'
    split at has
    · cases has
    · split at has'
      · cases has'
      · exact registered.apart u v g has has'
  · intro u k' g pc at_ past
    rw [place] at at_
    split at at_
    · cases at_
    · exact registered.resumed u k' g pc at_ past
  · intro u g settled
    rw [place] at settled
    split at settled
    · cases settled
    · exact registered.settled u g settled
  · intro sd g member
    obtain ⟨u, k', owner, isSide⟩ := registered.queued sd g ((sub sd).subset member)
    refine ⟨u, k', ?_, isSide⟩
    rw [place]
    split
    · rename_i isT
      subst isT
      rw [enrolled] at owner
      cases owner
      rw [waiters, if_pos isSide.symm, (registered.nodup sd).mem_erase_iff] at member
      exact absurd rfl member.1
    · exact owner
  · intro u k' g owner pending
    rw [place] at owner
    split at owner
    · cases owner
    · rename_i other
      have member := registered.live u k' g owner pending
      rw [waiters]
      split
      · refine (List.mem_erase_of_ne ?_).mpr member
        rintro rfl
        exact other (registered.apart u t g (Place.future_of_enrolled owner) isFuture)
      · exact member

end Registered

/-! ## The hand-off -/

theorem nextLive_spec (done : F → Bool) (fs : List F) :
    (nextLive done fs = ([], none) ∧ ∀ f ∈ fs, done f = true) ∨
      ∃ dead f rest, fs = dead ++ f :: rest ∧ (∀ g ∈ dead, done g = true) ∧ done f = false ∧
        nextLive done fs = (rest, some f) := by
  induction fs with
  | nil => exact .inl ⟨rfl, fun f member => absurd member List.not_mem_nil⟩
  | cons f rest ih =>
      cases ended : done f with
      | false =>
          exact .inr ⟨[], f, rest, rfl, fun g member => absurd member List.not_mem_nil, ended,
            by simp [nextLive, ended]⟩
      | true =>
          simp only [nextLive, ended, if_true]
          obtain ⟨result, all⟩ | ⟨dead, g, rest', rfl, all, live, result⟩ := ih
          · exact .inl ⟨result, List.forall_mem_cons.mpr ⟨ended, all⟩⟩
          · exact .inr ⟨f :: dead, g, rest', rfl, List.forall_mem_cons.mpr ⟨ended, all⟩, live,
              result⟩

/-- The loop empties a deque without a live future, or gives the first live one a
result. -/
theorem wakeNext_spec [DecidableEq S] [DecidableEq T] [DecidableEq F] (w : Waits S K T F C)
    (sd : S) :
    (w.wakeNext sd = (w.setWaiters sd [], false) ∧ ∀ f ∈ w.waiters sd, w.done f = true) ∨
      ∃ dead f rest, w.waiters sd = dead ++ f :: rest ∧ (∀ g ∈ dead, w.done g = true) ∧
        w.done f = false ∧ w.wakeNext sd =
          ((w.setWaiters sd rest).setKernel (w.kernel.setState (.fut f) .finished), true) := by
  obtain ⟨result, all⟩ | ⟨dead, f, rest, split, all, live, result⟩ :=
    nextLive_spec w.done (w.waiters sd)
  · exact .inl ⟨by simp only [Waits.wakeNext, result], all⟩
  · exact .inr ⟨dead, f, rest, split, all, live, by simp only [Waits.wakeNext, result]⟩

theorem done_eq_false : w.done f = false ↔ w.kernel.state (.fut f) = .pending := by
  simp [Waits.done]

theorem done_eq_true : w.done f = true ↔ w.kernel.state (.fut f) ≠ .pending := by
  simp [Waits.done]

namespace Registered

theorem drained [DecidableEq S] (registered : Registered side w) {sd : S}
    (dead : ∀ f ∈ w.waiters sd, w.done f = true) : Registered side (w.setWaiters sd []) := by
  have waiters : ∀ sd',
      (w.setWaiters sd []).waiters sd' = if sd' = sd then [] else w.waiters sd' := by
    intro sd'
    exact Function.update_apply ..
  refine ⟨registered.facts, registered.used, registered.apart, registered.resumed,
    registered.settled, ?_, ?_, ?_, ?_⟩
  · intro sd' g member
    rw [waiters] at member
    split at member
    · cases member
    · exact registered.queued sd' g member
  · intro sd'
    rw [waiters]
    split
    · exact List.nodup_nil
    · exact registered.nodup sd'
  · intro sd' g member
    rw [waiters] at member
    split at member
    · cases member
    · exact registered.ungranted sd' g member
  · intro u k' g enrolled pending
    have member := registered.live u k' g enrolled pending
    rw [waiters]
    split
    · rename_i isSide
      exact absurd pending (done_eq_true.mp (dead g (isSide ▸ member)))
    · exact member

theorem granted [DecidableEq S] [DecidableEq T] [DecidableEq F] (registered : Registered side w)
    {sd : S} {dead rest : List F}
    (split : w.waiters sd = dead ++ f :: rest) (over_ : ∀ g ∈ dead, w.done g = true) :
    Registered side ((w.setWaiters sd rest).setKernel (w.kernel.setState (.fut f) .finished)) := by
  have here : f ∈ w.waiters sd := by
    rw [split]
    exact List.mem_append_right _ List.mem_cons_self
  have sub : rest.Sublist (w.waiters sd) := by
    rw [split]
    exact (List.sublist_cons_self f rest).trans (List.sublist_append_right dead _)
  have notRest : f ∉ rest := by
    have nodup := registered.nodup sd
    rw [split] at nodup
    exact (List.nodup_cons.mp (List.nodup_append.mp nodup).2.1).1
  have waiters : ∀ sd', (w.setWaiters sd rest).waiters sd' =
      if sd' = sd then rest else w.waiters sd' := by
    intro sd'
    exact Function.update_apply ..
  have subset : ∀ sd' g, g ∈ (w.setWaiters sd rest).waiters sd' → g ∈ w.waiters sd' ∧ g ≠ f := by
    intro sd' g member
    rw [waiters] at member
    split at member
    · rename_i isSide
      refine ⟨isSide ▸ sub.subset member, ?_⟩
      rintro rfl
      exact notRest member
    · rename_i other
      refine ⟨member, ?_⟩
      rintro rfl
      obtain ⟨u, k', enrolled, isSide⟩ := registered.queued sd' g member
      exact other (isSide.symm.trans (registered.side_eq enrolled here))
  have state : ∀ g, g ≠ f → (w.kernel.setState (.fut f) .finished).state (.fut g) =
      w.kernel.state (.fut g) := by
    intro g other
    exact Function.update_of_ne (fun same => other (Ref.fut.inj same)) _ _
  have result : (w.kernel.setState (.fut f) .finished).state (.fut f) = .finished :=
    Function.update_self ..
  refine ⟨registered.facts.finish f, registered.used, registered.apart, registered.resumed, ?_,
    ?_, ?_, ?_, ?_⟩
  · intro u g settled
    by_cases isF : g = f
    · exact isF ▸ result
    · exact (state g isF).trans (registered.settled u g settled)
  · intro sd' g member
    exact registered.queued sd' g (subset sd' g member).1
  · intro sd'
    rw [Waits.setKernel, waiters]
    split
    · exact (registered.nodup sd).sublist sub
    · exact registered.nodup sd'
  · intro sd' g member finished
    obtain ⟨old, other⟩ := subset sd' g member
    exact registered.ungranted sd' g old ((state g other).symm.trans finished)
  · intro u k' g enrolled pending
    have other : g ≠ f := by
      rintro rfl
      cases result.symm.trans pending
    have was : w.kernel.state (.fut g) = .pending := (state g other).symm.trans pending
    have member := registered.live u k' g enrolled was
    rw [Waits.setKernel, waiters]
    split
    · rename_i isSide
      rw [isSide, split] at member
      obtain early | now := List.mem_append.mp member
      · exact absurd was (done_eq_true.mp (over_ g early))
      · exact (List.mem_cons.mp now).resolve_left other
    · exact member

theorem wakeNext [DecidableEq S] [DecidableEq T] [DecidableEq F] (registered : Registered side w)
    (sd : S) :
    Registered side (w.wakeNext sd).1 := by
  obtain ⟨result, dead⟩ | ⟨dead, f, rest, split, over_, -, result⟩ := wakeNext_spec w sd
  · rw [result]
    exact registered.drained dead
  · rw [result]
    exact registered.granted split over_

theorem of_fresh (fresh : w.Fresh) : Registered side w := by
  obtain ⟨-, issued, waiters, place⟩ := fresh
  refine ⟨⟨?_, ?_, ?_⟩, ?_, ?_, ?_, ?_, ?_, ?_, ?_, ?_⟩
  all_goals simp [issued, waiters, place, Place.future, Place.settled, Place.enrolled]

end Registered

/-- Nobody has used the primitive yet. -/
def freshWaits (S K T F C : Type) : Waits S K T F C where
  kernel := (Tasks.freshState T F C).kernel
  issued := fun _ => false
  waiters := fun _ => []
  place := fun _ => .away

theorem freshWaits_fresh : (freshWaits S K T F C).Fresh :=
  ⟨Tasks.freshState_start.1, fun _ => rfl, fun _ => rfl, fun _ => rfl⟩

end MtAsyncio.Waiting
