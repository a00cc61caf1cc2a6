/-
Module: MtAsyncio.Proofs.SemaphorePermits
Purpose: No permit of a semaphore is lost or made up, whatever is cancelled:
  each one is in `_value`, with a task, or on its way to one in a future.
  Permits go to the live waiters in the order of their registration.
Trusted boundary: none
Main exports: Granted, Live, Permits, permits_conserved
-/
import MtAsyncio.Lib.Counting
import MtAsyncio.Model.Semaphore
import MtAsyncio.Proofs.WaitingLists

namespace MtAsyncio.Semaphore

open Lib (Machine Exactly)
open Tasks
open Waiting

variable {T F C : Type} [DecidableEq T] [DecidableEq F]
variable {n : Nat} {bounded : Bool} {s s' : State T F C} {t : T} {f g : F}

/-- The future was given a permit, and its acquire has neither returned nor
handed the permit back. -/
def Granted (s : State T F C) (f : F) : Prop :=
  s.waits.issued f = true ∧ s.waits.kernel.state (.fut f) = .finished ∧ s.discharged f = false

/-- A task is in `acquire` with this future, which is not done. -/
def Live (s : State T F C) (g : F) : Prop :=
  s.waits.kernel.state (.fut g) = .pending ∧ ∃ t k, (s.waits.place t).enrolled = some (k, g)

/-! ## The line of waiters -/

/-- The deque is in the order of registration, behind every future that has a
permit, and empty while there are permits left. -/
structure Lined (s : State T F C) : Prop where
  empty : 0 < s.value → s.waiters = []
  ordered : s.waiters.Pairwise fun f g => s.ticket f < s.ticket g
  numbered : ∀ f, s.waits.issued f = true → s.ticket f < s.tickets
  fifo : ∀ f g, s.waits.issued f = true → s.waits.kernel.state (.fut f) = .finished →
    g ∈ s.waiters → s.ticket f < s.ticket g

/-- The permits are where they are counted. -/
structure Counted (n : Nat) (s : State T F C) : Prop where
  owned : ∀ t f, (s.waits.place t).future = some f → s.discharged f = false
  known : ∀ f, s.discharged f = true → s.waits.issued f = true
  conserved : ∃ granted, Exactly (Granted s) granted ∧
    s.value + s.held + granted = n + s.unmatched

structure Permits (n : Nat) (s : State T F C) : Prop where
  registered : Registered id s.waits
  lined : Lined s
  counted : Counted n s

/-! ## Steps -/

omit [DecidableEq T] [DecidableEq F] in
/-- The surroundings grant nothing and take no grant away. -/
theorem Permits.setWaits (permits : Permits n s) {waits : Waits Unit Unit T F C}
    (registered : Registered id waits) (issued : waits.issued = s.waits.issued)
    (waiters : (waits.waiters ()).Sublist s.waiters)
    (finished : ∀ f, s.waits.issued f = true →
      (waits.kernel.state (.fut f) = .finished ↔ s.waits.kernel.state (.fut f) = .finished))
    (future : ∀ t f, (waits.place t).future = some f → (s.waits.place t).future = some f) :
    Permits n { s with waits := waits } := by
  obtain ⟨-, lined, counted⟩ := permits
  refine ⟨registered, ⟨?_, lined.ordered.sublist waiters, ?_, ?_⟩, ?_, ?_, ?_⟩
  · intro left
    have none := lined.empty left
    rw [none] at waiters
    exact List.sublist_nil.mp waiters
  · rw [issued]
    exact lined.numbered
  · intro f g made done member
    rw [issued] at made
    exact lined.fifo f g made ((finished f made).mp done) (waiters.subset member)
  · intro t f has
    exact counted.owned t f (future t f has)
  · rw [issued]
    exact counted.known
  · obtain ⟨granted, exactly, total⟩ := counted.conserved
    refine ⟨granted, exactly.congr ?_, total⟩
    intro f
    simp only [Granted, issued]
    refine and_congr_right fun made => ?_
    rw [finished f made]

theorem Permits.around [DecidableEq C] (permits : Permits n s) {a : Around T F C}
    {waits : Waits Unit Unit T F C}
    (taken : s.waits.around a = some waits) : Permits n { s with waits := waits } := by
  have registered := permits.registered.around taken
  obtain ⟨kernel, rfl, eased⟩ := around_eased permits.registered.facts taken
  exact permits.setWaits registered rfl (.refl _) (fun f made => eased.finished made)
    fun t f => id

omit [DecidableEq F] in
theorem Permits.await (permits : Permits n s) {k : Unit} {pc : AwaitPc}
    {waits : Waits Unit Unit T F C} (at_ : s.waits.place t = .waiting k f pc)
    (taken : s.waits.await t k f pc = some waits) : Permits n { s with waits := waits } := by
  have registered := permits.registered.await at_ taken
  obtain ⟨kernel, next, state, rfl⟩ := await_spec taken
  refine permits.setWaits registered rfl (.refl _) ?_ ?_
  · intro g _
    exact state ▸ Iff.rfl
  · refine setPlace_future ?_
    intro g has
    rw [afterAwait_future has]
    exact congrArg Place.future at_

/-- The except clause leaves the deque. -/
theorem Permits.leave (permits : Permits n s) {k : Unit}
    (enrolled : (s.waits.place t).enrolled = some (k, f)) :
    Permits n { s with waits := s.waits.leave t () f } := by
  have registered : Registered id (s.waits.leave t () f) := permits.registered.leave enrolled
  refine permits.setWaits registered rfl ?_ (fun _ _ => Iff.rfl) (setPlace_future ?_)
  · simp only [Waits.leave, Waits.setPlace, Waits.setWaiters, Function.update_self]
    exact List.erase_sublist
  · rintro g ⟨⟩

omit [DecidableEq F] in
/-- A task that is off its deque goes on with the same future, or with none. -/
theorem Permits.setPlace (permits : Permits n s) {p : Place Unit F}
    (registered : Registered id (s.waits.setPlace t p))
    (future : ∀ g, p.future = some g → (s.waits.place t).future = some g) :
    Permits n (s.setPlace t p) :=
  permits.setWaits registered rfl (.refl _) (fun _ _ => Iff.rfl) (setPlace_future future)

theorem Permits.acquire (permits : Permits n s) (away : s.waits.place t = .away)
    (taken : acquire s t f = some s') : Permits n s' := by
  simp only [Semaphore.acquire] at taken
  split at taken
  · rename_i left
    cases taken
    obtain ⟨registered, lined, owned, known, granted, exactly, total⟩ := permits
    refine ⟨registered, ⟨fun _ => left.2, lined.ordered, lined.numbered, lined.fifo⟩, owned, known,
      granted, exactly, ?_⟩
    simp only
    omega
  · rename_i waits
    obtain ⟨w, parked, rfl⟩ := Option.map_eq_some_iff.mp taken
    obtain ⟨registered, lined, owned, known, granted, exactly, total⟩ := permits
    have registered' : Registered id w :=
      registered.park (by rw [away]; rfl) parked
    have zero : s.value = 0 := by
      by_contra left
      have positive : 0 < s.value := Nat.pos_of_ne_zero left
      exact waits ⟨positive, lined.empty positive⟩
    have parked := park_spec registered.facts parked
    have waiters : w.waiters () = s.waiters ++ [f] := by
      rw [parked.waiters, Function.update_self]
      rfl
    have ticket : ∀ g, g ≠ f → Function.update s.ticket f s.tickets g = s.ticket g := by
      intro g other
      exact Function.update_of_ne other _ _
    have issued : ∀ g, w.issued g = true ↔ g = f ∨ s.waits.issued g = true := by
      intro g
      rw [parked.issued, Function.update_apply]
      split <;> simp_all
    have old : ∀ g, g ∈ s.waiters → g ≠ f := by
      intro g member
      exact parked.ne_of_issued (registered.issued_of_mem member)
    refine ⟨registered', ⟨?_, ?_, ?_, ?_⟩, ?_, ?_, granted, exactly.congr ?_, total⟩
    · intro left
      rw [zero] at left
      cases left
    · rw [State.waiters, waiters, List.pairwise_append]
      refine ⟨lined.ordered.imp_of_mem ?_, List.pairwise_singleton .., ?_⟩
      · intro g g' member member' before
        simp only
        rw [ticket g (old g member), ticket g' (old g' member')]
        exact before
      · intro g member g' isF
        cases List.mem_singleton.mp isF
        simp only
        rw [ticket g (old g member), Function.update_self]
        exact lined.numbered g (registered.issued_of_mem member)
    · intro g made
      simp only
      by_cases isF : g = f
      · rw [isF, Function.update_self]
        exact Nat.lt_succ_self _
      · rw [ticket g isF]
        exact Nat.lt_succ_of_lt (lined.numbered g ((issued g).mp made |>.resolve_left isF))
    · intro g g' made done member
      have other : g ≠ f := by
        rintro rfl
        cases done.symm.trans parked.pending
      have made := (issued g).mp made |>.resolve_left other
      simp only
      rw [ticket g other]
      rw [State.waiters, waiters] at member
      obtain member | isF := List.mem_append.mp member
      · rw [ticket g' (old g' member)]
        exact lined.fifo g g' made ((parked.state g other).symm.trans done) member
      · rw [List.mem_singleton.mp isF, Function.update_self]
        exact lined.numbered g made
    · intro u g has
      simp only [parked.place, Function.update_apply] at has
      split at has
      · cases has
        by_contra discharged
        exact parked.ne_of_issued (known f (by simpa using discharged)) rfl
      · exact owned u g has
    · intro g discharged
      exact (issued g).mpr (.inr (known g discharged))
    · intro g
      by_cases isF : g = f
      · subst isF
        refine iff_of_false ?_ ?_
        · rintro ⟨-, done, -⟩
          cases done.symm.trans parked.pending
        · rintro ⟨made, -⟩
          exact parked.ne_of_issued made rfl
      · simp only [Granted, issued, isF, false_or, parked.state g isF]

/-! ## Releases -/

/-- What a `release` that does not raise does: it grants a future that had no
permit, or adds to `_value`. -/
structure Released (s s' : State T F C) : Prop where
  registered : Registered id s'.waits
  lined : Lined s'
  place : s'.waits.place = s.waits.place
  issued : s'.waits.issued = s.waits.issued
  discharged : s'.discharged = s.discharged
  held : s'.held = s.held
  unmatched : s'.unmatched = s.unmatched
  finished : ∀ f, s.waits.kernel.state (.fut f) = .finished →
    s'.waits.kernel.state (.fut f) = .finished
  adds : ∀ granted, Exactly (Granted s) granted → ∃ granted', Exactly (Granted s') granted' ∧
    s'.value + granted' = s.value + granted + 1

theorem Permits.released (permits : Permits n s) (given : release s = some s') :
    Released s s' := by
  obtain ⟨registered, lined, counted⟩ := permits
  simp only [release] at given
  split at given
  · cases given
  · cases given
    have registered' : Registered id (s.waits.wakeNext ()).1 := registered.wakeNext ()
    obtain ⟨result, -⟩ | ⟨dead, f, rest, split, -, live, result⟩ := wakeNext_spec s.waits ()
    · rw [result] at registered'
      simp only [result]
      have none := setWaiters_self s.waits () []
      refine ⟨registered', ⟨fun _ => none, ?_, lined.numbered, ?_⟩, rfl, rfl, rfl, rfl, rfl,
        fun _ => id, ?_⟩
      · rw [State.waiters, none]
        exact .nil
      · intro g g' _ _ member
        rw [State.waiters, none] at member
        cases member
      · intro granted exactly
        refine ⟨granted, exactly.congr fun _ => Iff.rfl, ?_⟩
        simp only [Bool.false_eq_true, if_false]
        omega
    · rw [result] at registered'
      simp only [result]
      have split : s.waiters = dead ++ f :: rest := split
      have here : f ∈ s.waiters := by
        rw [split]
        exact List.mem_append_right _ List.mem_cons_self
      have pending := done_eq_false.mp live
      have left : ((s.waits.setWaiters () rest).setKernel
          (s.waits.kernel.setState (.fut f) .finished)).waiters () = rest :=
        setWaiters_self s.waits () rest
      have state : ∀ g, g ≠ f →
          (s.waits.kernel.setState (.fut f) .finished).state (.fut g) =
            s.waits.kernel.state (.fut g) := by
        intro g other
        exact Function.update_of_ne (fun same => other (Ref.fut.inj same)) _ _
      have ordered := lined.ordered
      rw [split, List.pairwise_append] at ordered
      refine ⟨registered', ⟨?_, ?_, lined.numbered, ?_⟩, rfl, rfl, rfl, rfl, rfl, ?_, ?_⟩
      · intro positive
        rw [lined.empty positive] at here
        cases here
      · rw [State.waiters, left]
        exact (List.pairwise_cons.mp ordered.2.1).2
      · intro g g' made done member
        rw [State.waiters, left] at member
        by_cases isF : g = f
        · rw [isF]
          exact (List.pairwise_cons.mp ordered.2.1).1 g' member
        · refine lined.fifo g g' made ((state g isF).symm.trans done) ?_
          rw [split]
          exact List.mem_append_right _ (List.mem_cons_of_mem _ member)
      · intro g done
        refine (state g ?_).trans done
        rintro rfl
        cases pending.symm.trans done
      · intro granted exactly
        refine ⟨granted + 1, exactly.gain (a := f) ?_ ?_, ?_⟩
        · rintro ⟨-, done, -⟩
          cases pending.symm.trans done
        · intro g
          by_cases isF : g = f
          · subst isF
            obtain ⟨u, k, enrolled, -⟩ := registered.queued () g here
            have future := Place.future_of_enrolled enrolled
            exact iff_of_true ⟨registered.used u g future, Function.update_self ..,
              counted.owned u g future⟩ (.inl rfl)
          · simp only [isF, false_or]
            exact and_congr_right fun _ => and_congr_left fun _ => by
              rw [← state g isF]
              rfl
        · simp only [if_true]
          omega

theorem Permits.userRelease (permits : Permits n s) : Permits n (userRelease s) := by
  simp only [Semaphore.userRelease]
  split
  · obtain ⟨registered, lined, counted⟩ := permits
    exact ⟨registered, ⟨lined.empty, lined.ordered, lined.numbered, lined.fifo⟩,
      ⟨counted.owned, counted.known, counted.conserved⟩⟩
  · rename_i s' given
    have released := permits.released given
    obtain ⟨granted, exactly, total⟩ := permits.counted.conserved
    obtain ⟨granted', exactly', adds⟩ := released.adds granted exactly
    have lined := released.lined
    have owned : ∀ t f, (s'.waits.place t).future = some f → s'.discharged f = false := by
      rw [released.place, released.discharged]
      exact permits.counted.owned
    have known : ∀ f, s'.discharged f = true → s'.waits.issued f = true := by
      rw [released.issued, released.discharged]
      exact permits.counted.known
    split
    · refine ⟨released.registered, ⟨lined.empty, lined.ordered, lined.numbered, lined.fifo⟩, owned,
        known, granted', exactly'.congr fun _ => Iff.rfl, ?_⟩
      have held := released.held
      simp only
      omega
    · refine ⟨released.registered, ⟨lined.empty, lined.ordered, lined.numbered, lined.fifo⟩, owned,
        known, granted', exactly'.congr fun _ => Iff.rfl, ?_⟩
      have unmatched := released.unmatched
      simp only
      omega

omit [DecidableEq T] in
/-- The acquire of `f` returns or hands its permit back. -/
theorem Granted.discharge (granted : Granted s f) (g : F) :
    Granted (s.discharge f) g ↔ g ≠ f ∧ Granted s g := by
  by_cases isF : g = f
  · subst isF
    refine iff_of_false ?_ (fun both => both.1 rfl)
    rintro ⟨-, -, kept⟩
    simp [State.discharge] at kept
  · simp only [Granted, State.discharge, Function.update_of_ne isF]
    exact ⟨fun held => ⟨isF, held⟩, fun both => both.2⟩

/-- The task of a discharged future goes away. -/
theorem Permits.discharge (registered : Registered id s.waits) (lined : Lined s)
    (future : (s.waits.place t).future = some f) (settled : (s.waits.place t).settled = some f)
    (owned : ∀ t f, (s.waits.place t).future = some f → s.discharged f = false)
    (known : ∀ f, s.discharged f = true → s.waits.issued f = true) {held : Nat}
    (conserved : ∃ granted, Exactly (Granted s) (granted + 1) ∧
      s.value + held + granted = n + s.unmatched) :
    Permits n (({ s with held := held }.discharge f).setPlace t .away) := by
  have granted : Granted s f :=
    ⟨registered.used t f future, registered.settled t f settled, owned t f future⟩
  have away : ∀ u, Function.update s.waits.place t .away u =
      if u = t then .away else s.waits.place u := by
    intro u
    exact Function.update_apply ..
  refine ⟨?_, ⟨lined.empty, lined.ordered, lined.numbered, lined.fifo⟩, ?_, ?_, ?_⟩
  · refine registered.setPlace (by rintro g ⟨⟩) (by rintro _ _ _ ⟨⟩) (by rintro _ ⟨⟩) ?_
      (by rintro _ _ ⟨⟩)
    intro k g enrolled
    rw [Place.settled_of_enrolled enrolled] at settled
    cases settled
  · intro u g has
    simp only [State.setPlace, State.discharge, Waits.setPlace, away] at has ⊢
    split at has
    · cases has
    · rename_i other
      have apart : g ≠ f := by
        rintro rfl
        exact other (registered.apart u t g has future)
      rw [Function.update_of_ne apart]
      exact owned u g has
  · intro g discharged
    by_cases isF : g = f
    · exact isF ▸ granted.1
    · refine known g ?_
      simpa only [State.setPlace, State.discharge, Function.update_of_ne isF] using discharged
  · obtain ⟨count, exactly, total⟩ := conserved
    refine ⟨count, (exactly.lose granted (granted.discharge)).congr fun _ => Iff.rfl, total⟩

omit [DecidableEq T] [DecidableEq F] in
theorem Permits.raise (permits : Permits n s) : Permits n { s with raised := true } := by
  obtain ⟨registered, lined, counted⟩ := permits
  exact ⟨registered, ⟨lined.empty, lined.ordered, lined.numbered, lined.fifo⟩,
    ⟨counted.owned, counted.known, counted.conserved⟩⟩

/-- The await has returned: so does `acquire`. -/
theorem Permits.woken (permits : Permits n s) {k : Unit} (at_ : s.waits.place t = .woken k f) :
    Permits n (({ s with held := s.held + 1 }.discharge f).setPlace t .away) := by
  have future : (s.waits.place t).future = some f := congrArg Place.future at_
  have settled : (s.waits.place t).settled = some f := congrArg Place.settled at_
  obtain ⟨registered, lined, owned, known, granted, exactly, total⟩ := permits
  have has : Granted s f :=
    ⟨registered.used t f future, registered.settled t f settled, owned t f future⟩
  have positive := exactly.pos has
  refine Permits.discharge registered lined future settled owned known
    ⟨granted - 1, ?_, ?_⟩
  · rwa [Nat.sub_add_cancel positive]
  · omega

/-- The except clause passes the permit on. -/
theorem Permits.handing (permits : Permits n s) {k : Unit}
    (at_ : s.waits.place t = .handing k f) (given : release s = some s') :
    Permits n ((s'.discharge f).setPlace t .away) := by
  have released := permits.released given
  have future : (s'.waits.place t).future = some f := by
    rw [released.place, at_]
    rfl
  have settled : (s'.waits.place t).settled = some f := by
    rw [released.place, at_]
    rfl
  have owned : ∀ t f, (s'.waits.place t).future = some f → s'.discharged f = false := by
    rw [released.place, released.discharged]
    exact permits.counted.owned
  have known : ∀ f, s'.discharged f = true → s'.waits.issued f = true := by
    rw [released.issued, released.discharged]
    exact permits.counted.known
  obtain ⟨granted, exactly, total⟩ := permits.counted.conserved
  obtain ⟨granted', exactly', adds⟩ := released.adds granted exactly
  have has : Granted s' f := ⟨released.registered.used t f future,
    released.registered.settled t f settled, owned t f future⟩
  have positive := exactly'.pos has
  refine Permits.discharge released.registered released.lined future settled owned known
    ⟨granted' - 1, ?_, ?_⟩
  · rwa [Nat.sub_add_cancel positive]
  · have held := released.held
    have unmatched := released.unmatched
    omega

omit [DecidableEq F] in
/-- The locked section of the except clause. -/
theorem Permits.caught (permits : Permits n s) {k : Unit} {p : Place Unit F}
    (at_ : s.waits.place t = .caught k f) (off : f ∉ s.waiters)
    (goes : p = .away ∨ (p = .handing k f ∧ s.waits.kernel.state (.fut f) = .finished)) :
    Permits n (s.setPlace t p) := by
  have enrolled : (s.waits.place t).enrolled = some (k, f) := congrArg Place.enrolled at_
  have leaves : ∀ k' g, (s.waits.place t).enrolled = some (k', g) → p.enrolled = some (k', g) ∨
      g ∉ s.waits.waiters (id k') := by
    intro k' g was
    rw [enrolled] at was
    cases was
    exact .inr off
  obtain rfl | ⟨rfl, finished⟩ := goes
  · refine permits.setPlace ?_ (by rintro g ⟨⟩)
    exact permits.registered.setPlace (by rintro g ⟨⟩) (by rintro _ _ _ ⟨⟩) (by rintro _ ⟨⟩) leaves
      (by rintro _ _ ⟨⟩)
  · have future : ∀ g, (Place.handing k f).future = some g →
        (s.waits.place t).future = some g := by
      rintro g ⟨⟩
      exact congrArg Place.future at_
    refine permits.setPlace ?_ future
    refine permits.registered.setPlace future (by rintro _ _ _ ⟨⟩) ?_ leaves (by rintro _ _ ⟨⟩)
    rintro g ⟨⟩
    exact finished

theorem Permits.task (permits : Permits n s) (taken : taskStep s t = some s') :
    Permits n s' := by
  simp only [taskStep] at taken
  split at taken
  · cases taken
  · rename_i k f pc at_
    obtain ⟨waits, moved, rfl⟩ := Option.map_eq_some_iff.mp taken
    exact permits.await at_ moved
  · rename_i k f at_
    cases taken
    exact permits.woken at_
  · rename_i k f at_
    split at taken
    · cases taken
      exact permits.leave (congrArg Place.enrolled at_)
    · rename_i off
      split at taken
      · rename_i finished
        cases taken
        exact permits.caught at_ off (.inr ⟨rfl, finished⟩)
      · rename_i failed
        have made := permits.registered.used t f (congrArg Place.future at_)
        exact absurd failed (permits.registered.facts.unfailed f made)
      · cases taken
        exact permits.caught at_ off (.inl rfl)
      · cases taken
        exact permits.caught at_ off (.inl rfl)
  · rename_i k f at_
    split at taken
    · cases taken
      refine permits.raise.setPlace ?_ (by rintro g ⟨⟩)
      refine permits.registered.setPlace (by rintro g ⟨⟩) (by rintro _ _ _ ⟨⟩) (by rintro _ ⟨⟩) ?_
        (by rintro _ _ ⟨⟩)
      intro k' g enrolled
      rw [at_] at enrolled
      cases enrolled
    · rename_i s' given
      cases taken
      exact permits.handing at_ given

theorem permits_step [DecidableEq C] {a : Act T F C} (permits : Permits n s)
    (taken : step s a = some s') :
    Permits n s' := by
  cases a with
  | around a =>
      obtain ⟨waits, moved, rfl⟩ := Option.map_eq_some_iff.mp taken
      exact permits.around moved
  | acquire t f =>
      simp only [step] at taken
      split at taken
      · rename_i away
        exact permits.acquire away taken
      · cases taken
  | release =>
      cases taken
      exact permits.userRelease
  | task t => exact permits.task taken

omit [DecidableEq T] [DecidableEq F] in
theorem permits_start (start : Start n bounded s) : Permits n s := by
  obtain ⟨fresh, value, -, held, unmatched, discharged, -, -⟩ := start
  have registered : Registered id s.waits := .of_fresh fresh
  obtain ⟨-, issued, waiters, place⟩ := fresh
  refine ⟨registered, ⟨fun _ => waiters (), ?_, ?_, ?_⟩, fun _ f _ => discharged f, ?_, 0, .none ?_,
    ?_⟩
  · rw [State.waiters, waiters]
    exact .nil
  · intro f made
    rw [issued] at made
    cases made
  · intro f g made
    rw [issued] at made
    cases made
  · intro f known
    rw [discharged] at known
    cases known
  · rintro f ⟨made, -⟩
    rw [issued] at made
    cases made
  · omega

theorem permits_of_reach [DecidableEq C] {guard : State T F C → Act T F C → Prop}
    (reached : (machine n bounded T F C).Reach guard s) : Permits n s := by
  refine reached.invariant (Permits n) ?_ ?_
  · intro s start
    exact permits_start start
  · intro s a s' permits _ taken
    exact permits_step permits taken

/-! ## Matched releases -/

/-- The user releases only what an acquire has returned. -/
def Matched (s : State T F C) (a : Act T F C) : Prop :=
  a = .release → s.held ≠ 0

/-- What matched runs keep. -/
structure Quiet (n : Nat) (bounded : Bool) (s : State T F C) : Prop where
  bound : s.bound = if bounded then some n else none
  unmatched : s.unmatched = 0
  raised : s.raised = false

theorem Quiet.release_ne_none (quiet : Quiet n bounded s) (room : s.value < n) :
    release s ≠ none := by
  simp only [release]
  split
  · rename_i raises
    rw [quiet.bound] at raises
    cases bounded with
    | false => cases raises.2
    | true =>
        have full : n ≤ s.value := by simpa using raises.2
        omega
  · rintro ⟨⟩

theorem Quiet.of_release (quiet : Quiet n bounded s) (given : release s = some s') :
    Quiet n bounded s' := by
  simp only [release] at given
  split at given
  · cases given
  · cases given
    exact ⟨quiet.bound, quiet.unmatched, quiet.raised⟩

theorem Quiet.userRelease (quiet : Quiet n bounded s) (permits : Permits n s)
    (matched : s.held ≠ 0) : Quiet n bounded (userRelease s) := by
  obtain ⟨granted, -, total⟩ := permits.counted.conserved
  have unmatched := quiet.unmatched
  have room : s.value < n := by omega
  simp only [Semaphore.userRelease]
  split
  · rename_i raises
    exact absurd raises (quiet.release_ne_none room)
  · rename_i s' given
    have quiet' := quiet.of_release given
    rw [if_neg matched]
    exact ⟨quiet'.bound, quiet'.unmatched, quiet'.raised⟩

/-- The permit that the except clause passes on was taken from `_value`. -/
theorem Quiet.handing (quiet : Quiet n bounded s) (permits : Permits n s) {k : Unit}
    (at_ : s.waits.place t = .handing k f) : release s ≠ none := by
  obtain ⟨granted, exactly, total⟩ := permits.counted.conserved
  have future : (s.waits.place t).future = some f := congrArg Place.future at_
  have has : Granted s f := ⟨permits.registered.used t f future,
    permits.registered.settled t f (congrArg Place.settled at_), permits.counted.owned t f future⟩
  have positive := exactly.pos has
  have unmatched := quiet.unmatched
  exact quiet.release_ne_none (by omega)

theorem Quiet.acquire (quiet : Quiet n bounded s) (taken : acquire s t f = some s') :
    Quiet n bounded s' := by
  simp only [Semaphore.acquire] at taken
  split at taken
  · cases taken
    exact ⟨quiet.bound, quiet.unmatched, quiet.raised⟩
  · obtain ⟨waits, -, rfl⟩ := Option.map_eq_some_iff.mp taken
    exact ⟨quiet.bound, quiet.unmatched, quiet.raised⟩

theorem Quiet.task (quiet : Quiet n bounded s) (permits : Permits n s)
    (taken : taskStep s t = some s') : Quiet n bounded s' := by
  simp only [taskStep] at taken
  split at taken
  · cases taken
  · obtain ⟨waits, -, rfl⟩ := Option.map_eq_some_iff.mp taken
    exact ⟨quiet.bound, quiet.unmatched, quiet.raised⟩
  · cases taken
    exact ⟨quiet.bound, quiet.unmatched, quiet.raised⟩
  · split at taken
    · cases taken
      exact ⟨quiet.bound, quiet.unmatched, quiet.raised⟩
    · split at taken <;> cases taken <;> exact ⟨quiet.bound, quiet.unmatched, quiet.raised⟩
  · rename_i k f at_
    split at taken
    · rename_i raises
      exact absurd raises (quiet.handing permits at_)
    · rename_i s' given
      cases taken
      have quiet' := quiet.of_release given
      exact ⟨quiet'.bound, quiet'.unmatched, quiet'.raised⟩

theorem quiet_of_reach [DecidableEq C] (reached : (machine n bounded T F C).Reach Matched s) :
    Permits n s ∧ Quiet n bounded s := by
  refine reached.invariant (fun s => Permits n s ∧ Quiet n bounded s) ?_ ?_
  · intro s start
    obtain ⟨-, -, bound, -, unmatched, -, -, raised⟩ := id start
    exact ⟨permits_start start, bound, unmatched, raised⟩
  · rintro s a s' ⟨permits, quiet⟩ matched taken
    refine ⟨permits_step permits taken, ?_⟩
    cases a with
    | around a =>
        obtain ⟨waits, -, rfl⟩ := Option.map_eq_some_iff.mp taken
        exact ⟨quiet.bound, quiet.unmatched, quiet.raised⟩
    | acquire t f =>
        simp only [machine, step] at taken
        split at taken
        · exact quiet.acquire taken
        · cases taken
    | release =>
        cases taken
        exact quiet.userRelease permits (matched rfl)
    | task t => exact quiet.task permits taken

omit [DecidableEq T] [DecidableEq F] in
/-- A live waiter is on the deque. -/
theorem Permits.mem_of_live (permits : Permits n s) (live : Live s g) : g ∈ s.waiters := by
  obtain ⟨pending, t, k, enrolled⟩ := live
  exact permits.registered.live t k g enrolled pending

/-- An `acquire` that does not wait finds no live waiter. -/
theorem Permits.no_live (permits : Permits n s) (taken : Semaphore.acquire s t f = some s')
    (took : s'.held ≠ s.held) (g : F) : ¬Live s g := by
  intro live
  have member := permits.mem_of_live live
  simp only [Semaphore.acquire] at taken
  split at taken
  · rename_i left
    rw [left.2] at member
    cases member
  · obtain ⟨waits, -, rfl⟩ := Option.map_eq_some_iff.mp taken
    exact took rfl

/-- Permits are conserved and given out in order, and a bounded semaphore whose
releases are matched never raises. -/
theorem permits_conserved [DecidableEq C] (n : Nat) (bounded : Bool) :
    (∀ s : State T F C, (machine n bounded T F C).Reachable s →
      (∃ granted, Exactly (Granted s) granted ∧
        s.value + (s.held + granted) = n + s.unmatched) ∧
      (0 < s.value → s.waiters = []) ∧
      (∀ f g, s.waits.issued f = true → s.waits.kernel.state (.fut f) = .finished → Live s g →
        s.ticket f < s.ticket g) ∧
      ∀ t f s', step s (.acquire t f) = some s' → s'.held ≠ s.held → ∀ g, ¬Live s g) ∧
    ∀ s : State T F C, (machine n bounded T F C).Reach Matched s → s.raised = false := by
  constructor
  · intro s reached
    have permits := permits_of_reach reached
    refine ⟨?_, permits.lined.empty, ?_, ?_⟩
    · obtain ⟨granted, exactly, total⟩ := permits.counted.conserved
      exact ⟨granted, exactly, by omega⟩
    · intro f g made finished live
      exact permits.lined.fifo f g made finished (permits.mem_of_live live)
    · intro t f s' taken took
      simp only [step] at taken
      split at taken
      · exact permits.no_live taken took
      · cases taken
  · intro s reached
    exact (quiet_of_reach reached).2.raised

/-! ## A run -/

def freshState (n : Nat) (bounded : Bool) (T F C : Type) : State T F C where
  waits := freshWaits Unit Unit T F C
  value := n
  bound := if bounded then some n else none
  held := 0
  unmatched := 0
  discharged := fun _ => false
  ticket := fun _ => 0
  tickets := 0
  raised := false

omit [DecidableEq T] [DecidableEq F] in
theorem freshState_start : Start n bounded (freshState n bounded T F C) :=
  ⟨freshWaits_fresh, rfl, rfl, rfl, rfl, fun _ => rfl, rfl, rfl⟩

def matched (s : State T F C) : Act T F C → Bool
  | .release => s.held ≠ 0
  | _ => true

omit [DecidableEq T] [DecidableEq F] in
theorem matched_sound (s : State T F C) (a : Act T F C) (checked : matched s a = true) :
    Matched s a := by
  rintro rfl
  exact of_decide_eq_true checked

/-- Task 1 waits behind task 0.  It is asked to cancel before it parks and is
granted the permit that task 0 releases; its except clause has to pass it on. -/
def handedRun : List (Act Nat Nat Unit) :=
  [.acquire 0 9, .acquire 1 10, .around (.kernel (.cancel () 1)), .around (.kernel (.call ())),
    .around (.kernel (.call ())), .around (.kernel (.call ())), .release, .task 1, .task 1, .task 1]

theorem handedRun_ends :
    ((machine 1 true Nat Nat Unit).execIf matched (freshState 1 true _ _ _) handedRun).any (fun s =>
      s.waits.place 1 = .handing () 10 ∧ s.value = 0 ∧ s.held = 0 ∧
        (taskStep s 1).any fun s' => s'.value = 1) = true := by
  decide +kernel

theorem permits_conserved_when_handed :
    ∃ s : State Nat Nat Unit, s.waits.place 1 = .handing () 10 ∧ s.value = 0 ∧ s.held = 0 ∧
      (∃ granted, Exactly (Granted s) granted ∧ 0 + (0 + granted) = 1 + s.unmatched) ∧
      s.raised = false := by
  obtain ⟨s, reached, ends⟩ :=
    Machine.Reach.exists_of_execIf matched_sound freshState_start handedRun_ends
  obtain ⟨handing, value, held, -⟩ := of_decide_eq_true ends
  have conserved := ((permits_conserved 1 true).1 s reached.reachable).1
  rw [value, held] at conserved
  exact ⟨s, handing, value, held, conserved, (permits_conserved 1 true).2 s reached⟩

end MtAsyncio.Semaphore
