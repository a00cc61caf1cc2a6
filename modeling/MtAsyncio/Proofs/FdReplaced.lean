/-
Module: MtAsyncio.Proofs.FdReplaced
Purpose: A handle that replaces another one on its fd is stored in the slot of its
  direction when everything is at rest, unless an arm loop of the old one has
  stored over it.
Trusted boundary: none
Main exports: ThreadMove, Shift, shift_step, AtRest, Timely, Served,
  replacement_served, late_store_loses
-/
import MtAsyncio.Lib.Places
import MtAsyncio.Model.FdCallbacks

namespace MtAsyncio.FdCallbacks

open Lib (Machine Scarce)
open ScheduledIo (Direction PollEvent readinessFromEvent)
open FdHandle (ArmPc)

variable {T : Type} [DecidableEq T] {s s' : State T} {a : Act T} {t : T}
  {h k : Handle}

/-! ## Where a handle is -/

/-- The thread goes on to arm `h`, or to run it. -/
def Pc.serves (h : Handle) : Pc → Bool
  | .cancelOld k _ | .arm k _ _ | .dispatch k | .run k => k = h
  | .outside | .cancelRemoved _ | .leave => false

/-- The thread is about to cancel `h`. -/
def Pc.cancels (h : Handle) : Pc → Bool
  | .cancelOld _ k | .cancelRemoved k => k = h
  | _ => false

inductive Place (T : Type) where
  | thread (t : T)
  | parked
  | woken
  | queued
deriving DecidableEq

/-- How often a handle is in a place. -/
def State.count (s : State T) (h : Handle) : Place T → Nat
  | .thread t => ((s.pc t).serves h).toNat
  | .parked => (decide (s.slot h.dir = some h)).toNat
  | .woken => s.poller.handles.count h
  | .queued => s.queued.count h

/-- An arm loop of another handle stores its `_wake` over that of `h`. -/
def Overwrites (s : State T) (a : Act T) (h : Handle) : Prop :=
  s.slot h.dir = some h ∧
    ∃ t k attempts, a = .thread t ∧ s.pc t = .arm k attempts .store ∧ k.dir = h.dir ∧ k ≠ h

/-- What a step does to a handle. -/
inductive Shift (s : State T) (a : Act T) (s' : State T) (h : Handle) : Prop where
  | stays (same : ∀ p, s'.count h p = s.count h p)
  | moves (p q : Place T) (other : p ≠ q)
      (less : s'.count h p + s'.count h q ≤ s.count h p + s.count h q)
      (kept : s.count h p + s.count h q ≠ 0 → s'.count h p + s'.count h q ≠ 0)
      (elsewhere : ∀ r, r ≠ p → r ≠ q → s'.count h r = s.count h r)
  /-- a test of `_active` -/
  | drops (inactive : s'.active h = false) (less : ∀ p, s'.count h p ≤ s.count h p)
  | overwritten (overwrites : Overwrites s a h) (less : ∀ p, s'.count h p ≤ s.count h p)

namespace Shift

omit [DecidableEq T] in
theorem scarce (shift : Shift s a s' h) (scarce : Scarce (s.count h)) : Scarce (s'.count h) := by
  cases shift with
  | stays same => exact scarce.less fun p => Nat.le_of_eq (same p)
  | moves p q other less _ elsewhere => exact scarce.transfer other less elsewhere
  | drops _ less | overwritten _ less => exact scarce.less less

theorem absent (shift : Shift s a s' h) (none : ∀ p, s.count h p = 0) (p : Place T) :
    s'.count h p = 0 := by
  cases shift with
  | stays same => exact (same p).trans (none p)
  | moves q r _ less _ elsewhere =>
      rw [none q, none r] at less
      by_cases isQ : p = q
      · rw [isQ]
        omega
      · by_cases isR : p = r
        · rw [isR]
          omega
        · exact (elsewhere p isQ isR).trans (none p)
  | drops _ less | overwritten _ less => exact Nat.eq_zero_of_le_zero (none p ▸ less p)

end Shift

/-! ## Steps of a thread -/

@[simp] theorem goto_pc_self (s : State T) (t : T) (pc : Pc) : (s.goto t pc).pc t = pc :=
  Function.update_self ..

theorem goto_pc_other (s : State T) {t u : T} (pc : Pc) (other : u ≠ t) :
    (s.goto t pc).pc u = s.pc u :=
  Function.update_of_ne other ..

/-- The states agree in everything that has to do with the handles. -/
structure Alike (s r : State T) : Prop where
  slot : r.slot = s.slot
  poller : r.poller.handles = s.poller.handles
  queued : r.queued = s.queued
  pc : r.pc = s.pc
  registered : r.registered = s.registered
  handles : r.handles = s.handles
  active : r.active = s.active

omit [DecidableEq T] in
theorem Alike.refl (s : State T) : Alike s s :=
  ⟨rfl, rfl, rfl, rfl, rfl, rfl, rfl⟩

/-- What the next step of a thread is. -/
inductive ThreadMove (s : State T) (t : T) (s' : State T) : Prop where
  | goes (r : State T) (next : Pc) (alike : Alike s r)
      (serves : ∀ h, next.serves h = (s.pc t).serves h)
      (idle : ∀ h, (s.pc t).cancels h = false) (same : s' = r.goto t next)
  /-- the test of `_active` fails -/
  | quits (k : Handle) (inactive : s.active k = false)
      (only : ∀ h, (s.pc t).serves h = true → h = k)
      (idle : ∀ h, (s.pc t).cancels h = false) (same : s' = s.goto t .outside)
  | stores (k : Handle) (attempts : Nat) (here : s.pc t = .arm k attempts .store)
      (same : s' = { s with slot := Function.update s.slot k.dir (some k) }.goto t .leave)
  | queues (k : Handle) (attempts : Nat) (here : s.pc t = .arm k attempts .dispatchSoon)
      (same : s' = (s.dispatchSoon k).goto t .outside)
  | cancels (k : Handle) (lock : Option T) (next : Pc)
      (serves : ∀ h, next.serves h = (s.pc t).serves h)
      (only : ∀ h, (s.pc t).cancels h = true → h = k)
      (same : s' = { s.cancel k with siosLock := lock }.goto t next)

theorem armMove {attempts : Nat} {at_ : ArmPc} (here : s.pc t = .arm k attempts at_)
    (taken : armStep s t k attempts at_ = some s') : ThreadMove s t s' := by
  have inside : ∀ (r : State T) (more : Nat) (next : ArmPc), Alike s r →
      ThreadMove s t (r.goto t (.arm k more next)) := by
    intro r more next alike
    refine .goes r _ alike ?_ ?_ rfl
    · intro h
      rw [here]
      rfl
    · intro h
      rw [here]
      rfl
  cases at_ with
  | active =>
      obtain rfl := Option.some.inj taken
      by_cases active : s.active k = true
      · rw [if_pos active]
        exact inside s _ _ (.refl s)
      · rw [if_neg active]
        refine .quits k (Bool.not_eq_true _ ▸ active) ?_ ?_ rfl
        · intro h served
          rw [here] at served
          exact (of_decide_eq_true served).symm
        · intro h
          rw [here]
          rfl
  | store => exact .stores k attempts here (Option.some.inj taken).symm
  | dispatchSoon => exact .queues k attempts here (Option.some.inj taken).symm
  | lock =>
      simp only [armStep] at taken
      split at taken
      · cases taken
      · obtain rfl := Option.some.inj taken
        exact inside { s with mutex := some t } _ _ ⟨rfl, rfl, rfl, rfl, rfl, rfl, rfl⟩
  | probe =>
      simp only [armStep] at taken
      split at taken
      · obtain rfl := Option.some.inj taken
        exact inside s _ _ (.refl s)
      · split at taken
        all_goals
          obtain rfl := Option.some.inj taken
          exact inside s _ _ (.refl s)
  | fastCheck | recheck | currentTick | loadTick =>
      obtain rfl := Option.some.inj taken
      exact inside s _ _ (.refl s)
  | unlock =>
      obtain rfl := Option.some.inj taken
      exact inside { s with mutex := none } _ _ ⟨rfl, rfl, rfl, rfl, rfl, rfl, rfl⟩
  | storeTick tick =>
      obtain rfl := Option.some.inj taken
      exact inside { s with tick := Function.update s.tick k.dir tick } _ _
        ⟨rfl, rfl, rfl, rfl, rfl, rfl, rfl⟩
  | clear tick =>
      obtain rfl := Option.some.inj taken
      exact inside { s with word := s.word.clear k.dir.mask tick } _ _
        ⟨rfl, rfl, rfl, rfl, rfl, rfl, rfl⟩

theorem threadMove (taken : threadStep s t = some s') : ThreadMove s t s' := by
  unfold threadStep at taken
  cases here : s.pc t with
  | outside =>
      rw [here] at taken
      cases taken
  | cancelOld k old =>
      simp only [here] at taken
      refine .cancels old s.siosLock _ ?_ ?_ (Option.some.inj taken).symm
      · intro h
        rw [here]
        rfl
      · intro h cancels
        rw [here] at cancels
        exact (of_decide_eq_true cancels).symm
  | cancelRemoved k =>
      simp only [here] at taken
      refine .cancels k none _ ?_ ?_ (Option.some.inj taken).symm
      · intro h
        rw [here]
        rfl
      · intro h cancels
        rw [here] at cancels
        exact (of_decide_eq_true cancels).symm
  | arm k attempts at_ =>
      rw [here] at taken
      exact armMove here taken
  | leave =>
      simp only [here] at taken
      refine .goes { s with mutex := none } .outside ⟨rfl, rfl, rfl, rfl, rfl, rfl, rfl⟩ ?_ ?_
        (Option.some.inj taken).symm
      · intro h
        rw [here]
        rfl
      · intro h
        rw [here]
        rfl
  | run k =>
      simp only [here] at taken
      refine .goes s _ (.refl s) ?_ ?_ (Option.some.inj taken).symm
      · intro h
        rw [here]
        rfl
      · intro h
        rw [here]
        rfl
  | dispatch k =>
      have idle : ∀ h, (s.pc t).cancels h = false := by
        intro h
        rw [here]
        rfl
      simp only [here] at taken
      obtain rfl := Option.some.inj taken
      by_cases active : s.active k = true
      · rw [if_pos active]
        refine .goes s (.run k) (.refl s) ?_ idle rfl
        intro h
        rw [here]
        rfl
      · rw [if_neg active]
        refine .quits k (Bool.not_eq_true _ ▸ active) ?_ idle rfl
        intro h served
        rw [here] at served
        exact (of_decide_eq_true served).symm

/-! ## A handle under the steps of a thread -/

/-- Only the thread itself may have a handle more or less. -/
theorem count_beside {r : State T} (slot : r.slot = s.slot)
    (poller : r.poller.handles = s.poller.handles) (queued : r.queued = s.queued)
    (pc : r.pc = s.pc) (next : Pc) {p : Place T} (notOwn : p ≠ .thread t) :
    (r.goto t next).count h p = s.count h p := by
  cases p with
  | thread u =>
      have other : u ≠ t := fun same => notOwn (same ▸ rfl)
      simp only [State.count, goto_pc_other r next other, pc]
  | parked => simp only [State.count, State.goto, slot]
  | woken => simp only [State.count, State.goto, poller]
  | queued => simp only [State.count, State.goto, queued]

theorem shift_goto {r : State T} {next : Pc} (slot : r.slot = s.slot)
    (poller : r.poller.handles = s.poller.handles) (queued : r.queued = s.queued)
    (pc : r.pc = s.pc) (same : next.serves h = (s.pc t).serves h) :
    Shift s a (r.goto t next) h := by
  refine .stays ?_
  intro p
  by_cases own : p = .thread t
  · rw [own]
    simp only [State.count, goto_pc_self, same]
  · exact count_beside slot poller queued pc next own

theorem shift_quit (inactive : s.active k = false)
    (only : ∀ h, (s.pc t).serves h = true → h = k) : Shift s a (s.goto t .outside) h := by
  by_cases isOwn : h = k
  · refine .drops (isOwn ▸ inactive) ?_
    intro p
    by_cases here : p = .thread t
    · rw [here]
      simp only [State.count, goto_pc_self, Pc.serves, Bool.toNat_false, Nat.zero_le]
    · exact Nat.le_of_eq (count_beside rfl rfl rfl rfl _ here)
  · have apart : (s.pc t).serves h = false := by
      rw [← Bool.not_eq_true]
      exact fun served => isOwn (only h served)
    exact shift_goto rfl rfl rfl rfl apart.symm

theorem count_store (s : State T) (k : Handle) {p : Place T} (notThread : p ≠ .thread t)
    (notParked : p ≠ .parked) :
    ({ s with slot := Function.update s.slot k.dir (some k) }.goto t .leave).count h p =
      s.count h p := by
  cases p with
  | thread u =>
      have other : u ≠ t := fun same => notThread (same ▸ rfl)
      simp only [State.count, goto_pc_other _ _ other]
  | parked => exact absurd rfl notParked
  | woken | queued => rfl

theorem shift_store {attempts : Nat} (here : s.pc t = .arm k attempts .store) :
    Shift s (.thread t)
      ({ s with slot := Function.update s.slot k.dir (some k) }.goto t .leave) h := by
  have others {p : Place T} := count_store (t := t) (h := h) (p := p) s k
  by_cases own : k = h
  · subst own
    refine .moves (.thread t) .parked (by rintro ⟨⟩) ?_ ?_ fun _ => others
    · simp only [State.count, here, Pc.serves, State.goto, Function.update_self]
      simp
    · simp only [State.count, State.goto, Function.update_self]
      simp
  · have thread : ({ s with slot := Function.update s.slot k.dir (some k) }.goto t .leave).count h
        (.thread t) = s.count h (.thread t) := by
      simp only [State.count, goto_pc_self, here, Pc.serves, decide_eq_false own]
    by_cases overwrites : s.slot h.dir = some h ∧ k.dir = h.dir
    · obtain ⟨parked, sameDir⟩ := overwrites
      refine .overwritten ⟨parked, t, k, attempts, rfl, here, sameDir, own⟩ ?_
      intro p
      by_cases isThread : p = .thread t
      · exact Nat.le_of_eq (isThread ▸ thread)
      · by_cases isParked : p = .parked
        · rw [isParked]
          simp [State.count, State.goto, sameDir, own]
        · exact Nat.le_of_eq (others isThread isParked)
    · refine .stays ?_
      intro p
      by_cases isThread : p = .thread t
      · exact isThread ▸ thread
      · by_cases isParked : p = .parked
        · rw [isParked]
          simp only [State.count, State.goto]
          by_cases sameDir : k.dir = h.dir
          · have empty : s.slot h.dir ≠ some h := fun parked => overwrites ⟨parked, sameDir⟩
            simp [sameDir, own, empty]
          · simp only [Function.update_of_ne (Ne.symm sameDir)]
        · exact others isThread isParked

theorem shift_dispatchSoon {attempts : Nat} (here : s.pc t = .arm k attempts .dispatchSoon) :
    Shift s a ((s.dispatchSoon k).goto t .outside) h := by
  have queued : (k :: s.queued).count h = s.queued.count h + (decide (k = h)).toNat := by
    rw [List.count_cons]
    by_cases own : k = h
    · rw [decide_eq_true own, if_pos (beq_iff_eq.mpr own)]
      rfl
    · rw [decide_eq_false own, if_neg fun same => own (beq_iff_eq.mp same)]
      rfl
  refine .moves (.thread t) .queued (by rintro ⟨⟩) ?_ ?_ ?_
  · simp only [State.count, here, Pc.serves, State.goto, State.dispatchSoon, queued,
      Function.update_self, Bool.toNat_false]
    omega
  · simp only [State.count, here, Pc.serves, State.goto, State.dispatchSoon, queued,
      Function.update_self, Bool.toNat_false]
    omega
  · intro p notThread notQueued
    cases p with
    | thread u =>
        have other : u ≠ t := fun same => notThread (same ▸ rfl)
        simp only [State.count, goto_pc_other _ _ other]
        rfl
    | queued => exact absurd rfl notQueued
    | parked | woken => rfl

theorem shift_threadStep (taken : threadStep s t = some s') : Shift s (.thread t) s' h := by
  cases threadMove taken with
  | goes r next alike serves _ same =>
      subst same
      exact shift_goto alike.slot alike.poller alike.queued alike.pc (serves h)
  | quits k inactive only _ same =>
      subst same
      exact shift_quit inactive only
  | stores k attempts here same =>
      subst same
      exact shift_store here
  | queues k attempts here same =>
      subst same
      exact shift_dispatchSoon here
  | cancels k lock next serves _ same =>
      subst same
      exact shift_goto rfl rfl rfl rfl (serves h)

/-! ## Steps of the poll thread -/

/-- A slot holds handles of its direction only. -/
def Sorted (s : State T) : Prop :=
  ∀ d k, s.slot d = some k → k.dir = d

omit [DecidableEq T] in
theorem sorted_taken (sorted : Sorted s) {ready : BitVec 64} {d : Direction}
    (here : s.taken ready d = some k) : k.dir = d := by
  simp only [State.taken] at here
  split at here
  · cases here
  · exact sorted d k here

theorem count_toList (found : Option Handle) :
    found.toList.count h = (decide (found = some h)).toNat := by
  cases found with
  | none => rfl
  | some k =>
      by_cases own : k = h
      · subst own
        simp
      · simp [own]

omit [DecidableEq T] in
theorem wakeSet_eq (s : State T) (ready : BitVec 64) :
    s.wakeSet ready = (s.taken ready .read).toList ++ (s.taken ready .write).toList := by
  rw [State.wakeSet, List.filterMap_cons, List.filterMap_cons]
  cases s.taken ready .read <;> cases s.taken ready .write <;> rfl

omit [DecidableEq T] in
theorem count_wakeSet (sorted : Sorted s) (ready : BitVec 64) :
    (s.wakeSet ready).count h = (decide (s.taken ready h.dir = some h)).toNat := by
  have apart : ∀ d, d ≠ h.dir → (s.taken ready d).toList.count h = 0 := by
    intro d other
    rw [count_toList, decide_eq_false]
    · rfl
    · intro here
      exact other (sorted_taken sorted here).symm
  rw [wakeSet_eq, List.count_append]
  cases dir : h.dir with
  | read => rw [apart .write (by rw [dir]; rintro ⟨⟩), count_toList, Nat.add_zero]
  | write => rw [apart .read (by rw [dir]; rintro ⟨⟩), count_toList, Nat.zero_add]

/-- What the poll thread leaves alone. -/
structure Outside (s s' : State T) : Prop where
  pc : s'.pc = s.pc
  registered : s'.registered = s.registered
  handles : s'.handles = s.handles
  active : s'.active = s.active

omit [DecidableEq T] in
theorem pollerStep_frame (taken : pollerStep s = some s') :
    Outside s s' ∧ ∀ d, s'.slot d = s.slot d ∨ s'.slot d = none := by
  unfold pollerStep at taken
  cases here : s.poller with
  | idle =>
      rw [here] at taken
      cases taken
  | wake ready =>
      simp only [here] at taken
      split at taken
      · cases taken
      · obtain rfl := Option.some.inj taken
        refine ⟨⟨rfl, rfl, rfl, rfl⟩, ?_⟩
        intro d
        by_cases apart : ready &&& d.mask = 0
        · exact .inl (if_pos apart)
        · exact .inr (if_neg apart)
  | call cbs =>
      cases cbs with
      | nil | cons =>
          simp only [here] at taken
          obtain rfl := Option.some.inj taken
          exact ⟨⟨rfl, rfl, rfl, rfl⟩, fun _ => .inl rfl⟩
  | dispatchSoon k cbs =>
      simp only [here] at taken
      obtain rfl := Option.some.inj taken
      exact ⟨⟨rfl, rfl, rfl, rfl⟩, fun _ => .inl rfl⟩

omit [DecidableEq T] in
theorem shift_pollerStep (sorted : Sorted s) (taken : pollerStep s = some s') :
    Shift s a s' h := by
  unfold pollerStep at taken
  cases here : s.poller with
  | idle =>
      rw [here] at taken
      cases taken
  | wake ready =>
      simp only [here] at taken
      split at taken
      · cases taken
      · obtain rfl := Option.some.inj taken
        have total : ∀ found : Option Handle,
            (decide ((if ready &&& h.dir.mask = 0 then found else none) = some h)).toNat +
              (decide ((if ready &&& h.dir.mask = 0 then none else found) = some h)).toNat =
            (decide (found = some h)).toNat := by
          intro found
          by_cases apart : ready &&& h.dir.mask = 0
          · rw [if_pos apart, if_pos apart]
            rfl
          · rw [if_neg apart, if_neg apart]
            exact Nat.zero_add _
        have same : (decide ((if ready &&& h.dir.mask = 0 then s.slot h.dir else none) =
              some h)).toNat + (s.wakeSet ready).count h =
            (decide (s.slot h.dir = some h)).toNat := by
          rw [count_wakeSet sorted]
          exact total (s.slot h.dir)
        refine .moves .parked .woken (by rintro ⟨⟩) ?_ ?_ ?_
        · simp only [State.count, here, Poller.handles, List.count_nil]
          omega
        · simp only [State.count, here, Poller.handles, List.count_nil]
          omega
        · intro p notParked notWoken
          cases p with
          | parked => exact absurd rfl notParked
          | woken => exact absurd rfl notWoken
          | thread u | queued => rfl
  | call cbs =>
      cases cbs with
      | nil =>
          simp only [here] at taken
          obtain rfl := Option.some.inj taken
          refine .stays ?_
          intro p
          cases p <;> simp [State.count, here, Poller.handles]
      | cons k cbs =>
          simp only [here] at taken
          obtain rfl := Option.some.inj taken
          by_cases active : s.active k = true
          · rw [if_pos active]
            refine .stays ?_
            intro p
            cases p <;> simp [State.count, here, Poller.handles]
          · rw [if_neg active]
            by_cases own : k = h
            · refine .drops (own ▸ Bool.not_eq_true _ ▸ active) ?_
              intro p
              cases p <;> simp [State.count, here, Poller.handles]
              exact List.count_le_count_cons
            · refine .stays ?_
              intro p
              cases p <;> simp [State.count, here, Poller.handles, own]
  | dispatchSoon k cbs =>
      simp only [here] at taken
      obtain rfl := Option.some.inj taken
      refine .moves .woken .queued (by rintro ⟨⟩) ?_ ?_ ?_
      · simp only [State.count, State.dispatchSoon, here, Poller.handles, List.count_cons]
        omega
      · simp only [State.count, State.dispatchSoon, here, Poller.handles, List.count_cons]
        omega
      · intro p notWoken notQueued
        cases p with
        | woken => exact absurd rfl notWoken
        | queued => exact absurd rfl notQueued
        | thread u | parked => rfl

/-! ## All steps -/

/-- `_add_fd_callback` makes `h` in this step. -/
def Makes (s : State T) (h : Handle) : Act T → Prop
  | .add _ d => h = ⟨s.handles, d⟩
  | _ => False

theorem shift_step (sorted : Sorted s) (taken : step s a = some s')
    (old : ¬Makes s h a) : Shift s a s' h := by
  cases a with
  | arrival event | drain event =>
      obtain rfl := Option.some.inj taken
      refine .stays ?_
      intro p
      cases p <;> rfl
  | poll edge event =>
      simp only [step] at taken
      split at taken
      · rename_i enabled
        obtain rfl := Option.some.inj taken
        refine .stays ?_
        intro p
        cases p <;> simp [State.count, enabled.1, Poller.handles]
      · cases taken
  | poller => exact shift_pollerStep sorted taken
  | thread t => exact shift_threadStep taken
  | add t d =>
      simp only [step] at taken
      split at taken
      · rename_i enabled
        obtain rfl := Option.some.inj taken
        have other : ¬(⟨s.handles, d⟩ : Handle) = h := fun same => old same.symm
        refine shift_goto rfl rfl rfl rfl ?_
        rw [enabled.1]
        cases s.registered d <;> exact decide_eq_false other
      · cases taken
  | remove t d =>
      simp only [step] at taken
      split at taken
      · rename_i enabled
        obtain rfl := Option.some.inj taken
        unfold remove
        cases s.registered d with
        | none => exact .stays fun _ => rfl
        | some k => exact shift_goto rfl rfl rfl rfl (enabled.1 ▸ rfl)
      · cases taken
  | take t k =>
      simp only [step] at taken
      split at taken
      · rename_i enabled
        obtain ⟨outside, queued⟩ := enabled
        obtain rfl := Option.some.inj taken
        have total : (s.queued.erase k).count h + (decide (k = h)).toNat = s.queued.count h := by
          by_cases own : k = h
          · subst own
            have some_ : 0 < s.queued.count k := List.count_pos_iff.mpr queued
            rw [List.count_erase_self, decide_eq_true rfl, Bool.toNat_true]
            omega
          · rw [List.count_erase_of_ne (Ne.symm own), decide_eq_false own]
            rfl
        refine .moves .queued (.thread t) (by rintro ⟨⟩) ?_ ?_ ?_
        · simp only [State.count, State.goto, Function.update_self, Pc.serves, outside,
            Bool.toNat_false]
          omega
        · simp only [State.count, State.goto, Function.update_self, Pc.serves, outside,
            Bool.toNat_false]
          omega
        · intro p notQueued notThread
          cases p with
          | thread u =>
              have other : u ≠ t := fun same => notThread (same ▸ rfl)
              simp only [State.count, goto_pc_other _ _ other]
          | queued => exact absurd rfl notQueued
          | parked | woken => rfl
      · cases taken

/-! ## The registration -/

/-- What a step does to the registration and to `_active`. -/
inductive Registry (s : State T) (a : Act T) (s' : State T) : Prop where
  | keeps (handles : s'.handles = s.handles) (registered : s'.registered = s.registered)
      (active : ∀ h, s'.active h = true → s.active h = true)
      (cancels : ∀ h, s'.active h = true → ∀ t, (s.pc t).cancels h = true →
        (s'.pc t).cancels h = true)
  | adds (t : T) (d : Direction) (isAdd : a = .add t d) (outside : s.pc t = .outside)
      (same : s' = add s t d)
  | removes (t : T) (d : Direction) (isRemove : a = .remove t d) (outside : s.pc t = .outside)
      (same : s' = remove s t d)

theorem registry_goto {r : State T} {next : Pc} (handles : r.handles = s.handles)
    (registered : r.registered = s.registered) (active : r.active = s.active) (pc : r.pc = s.pc)
    (idle : ∀ h, (s.pc t).cancels h = false) : Registry s a (r.goto t next) := by
  refine .keeps handles registered ?_ ?_
  · intro h isActive
    exact active ▸ isActive
  · intro h _ u cancels
    by_cases own : u = t
    · rw [own, idle] at cancels
      cases cancels
    · rwa [goto_pc_other _ _ own, pc]

theorem registry_cancel {r : State T} {next : Pc} (handles : r.handles = s.handles)
    (registered : r.registered = s.registered)
    (active : r.active = Function.update s.active k false) (pc : r.pc = s.pc)
    (only : ∀ h, (s.pc t).cancels h = true → h = k) : Registry s a (r.goto t next) := by
  have others : ∀ h, r.active h = true → h ≠ k ∧ s.active h = true := by
    intro h isActive
    rw [active] at isActive
    by_cases own : h = k
    · rw [own, Function.update_self] at isActive
      cases isActive
    · rw [Function.update_of_ne own] at isActive
      exact ⟨own, isActive⟩
  refine .keeps handles registered (fun h isActive => (others h isActive).2) ?_
  intro h isActive u cancels
  by_cases own : u = t
  · exact absurd (only h (own ▸ cancels)) (others h isActive).1
  · rwa [goto_pc_other _ _ own, pc]

theorem registry_threadStep (taken : threadStep s t = some s') : Registry s a s' := by
  cases threadMove taken with
  | goes r next alike _ idle same =>
      subst same
      exact registry_goto alike.handles alike.registered alike.active alike.pc idle
  | quits k _ _ idle same =>
      subst same
      exact registry_goto rfl rfl rfl rfl idle
  | stores k attempts here same | queues k attempts here same =>
      subst same
      exact registry_goto rfl rfl rfl rfl fun h => here ▸ rfl
  | cancels k lock next _ only same =>
      subst same
      exact registry_cancel rfl rfl rfl rfl only

theorem registry_pollerStep (taken : pollerStep s = some s') : Registry s a s' := by
  obtain ⟨same, -⟩ := pollerStep_frame taken
  refine .keeps same.handles same.registered ?_ ?_
  · intro h
    rw [same.active]
    exact id
  · intro h _ t
    rw [same.pc]
    exact id

theorem registry_step (taken : step s a = some s') : Registry s a s' := by
  cases a with
  | arrival event | drain event =>
      obtain rfl := Option.some.inj taken
      exact .keeps rfl rfl (fun _ => id) fun _ _ _ => id
  | poll edge event =>
      simp only [step] at taken
      split at taken
      · obtain rfl := Option.some.inj taken
        exact .keeps rfl rfl (fun _ => id) fun _ _ _ => id
      · cases taken
  | poller => exact registry_pollerStep taken
  | thread t => exact registry_threadStep taken
  | add t d =>
      simp only [step] at taken
      split at taken
      · rename_i enabled
        exact .adds t d rfl enabled.1 (Option.some.inj taken).symm
      · cases taken
  | remove t d =>
      simp only [step] at taken
      split at taken
      · rename_i enabled
        exact .removes t d rfl enabled.1 (Option.some.inj taken).symm
      · cases taken
  | take t k =>
      simp only [step] at taken
      split at taken
      · rename_i enabled
        obtain rfl := Option.some.inj taken
        exact registry_goto rfl rfl rfl rfl fun h => enabled.1 ▸ rfl
      · cases taken

/-! ## What always holds -/

structure Known (s : State T) : Prop where
  sorted : Sorted s
  /-- a handle that is not made yet is nowhere -/
  made : ∀ h, s.handles ≤ h.number → ∀ p, s.count h p = 0
  scarce : ∀ h, Scarce (s.count h)
  /-- an active handle is registered, or its cancel is to come -/
  current : ∀ h, s.active h = true →
    s.registered h.dir = some h ∨ ∃ t, (s.pc t).cancels h = true

omit [DecidableEq T] in
theorem sorted_of_slot (sorted : Sorted s)
    (slot : ∀ d, s'.slot d = s.slot d ∨ s'.slot d = none) : Sorted s' := by
  intro d k here
  rcases slot d with same | empty
  · exact sorted d k (same ▸ here)
  · rw [empty] at here
    cases here

theorem sorted_threadStep (sorted : Sorted s) (taken : threadStep s t = some s') : Sorted s' := by
  cases threadMove taken with
  | goes r next alike _ _ same =>
      subst same
      exact sorted_of_slot sorted fun d => .inl (congrFun alike.slot d)
  | quits k _ _ _ same | queues k attempts here same | cancels k lock next _ _ same =>
      subst same
      exact sorted
  | stores k attempts here same =>
      subst same
      intro d h stored
      simp only [State.goto] at stored
      by_cases own : d = k.dir
      · rw [own, Function.update_self] at stored
        exact own ▸ Option.some.inj stored ▸ rfl
      · rw [Function.update_of_ne own] at stored
        exact sorted d h stored

theorem sorted_step (sorted : Sorted s) (taken : step s a = some s') : Sorted s' := by
  cases a with
  | arrival event | drain event =>
      obtain rfl := Option.some.inj taken
      exact sorted
  | poller => exact sorted_of_slot sorted (pollerStep_frame taken).2
  | thread t => exact sorted_threadStep sorted taken
  | remove t d =>
      simp only [step] at taken
      split at taken
      · obtain rfl := Option.some.inj taken
        unfold remove
        cases s.registered d <;> exact sorted
      · cases taken
  | poll | add | take =>
      simp only [step] at taken
      split at taken
      · obtain rfl := Option.some.inj taken
        exact sorted
      · cases taken

theorem add_count (t : T) (d : Direction) {p : Place T} (notOwn : p ≠ .thread t) :
    (add s t d).count h p = s.count h p :=
  count_beside rfl rfl rfl rfl _ notOwn

theorem add_serves (t : T) (d : Direction) : ((add s t d).pc t).serves ⟨s.handles, d⟩ = true := by
  simp only [add, goto_pc_self]
  cases s.registered d <;> exact decide_eq_true rfl

theorem handles_step (taken : step s a = some s') :
    s.handles ≤ s'.handles ∧ ∀ h, Makes s h a → h.number < s'.handles := by
  cases registry_step taken with
  | keeps handles registered active cancels =>
      refine ⟨Nat.le_of_eq handles.symm, ?_⟩
      intro h makes
      cases a with
      | add t d =>
          simp only [step] at taken
          split at taken
          · obtain rfl := Option.some.inj taken
            exact absurd handles (Nat.succ_ne_self s.handles)
          · cases taken
      | arrival | drain | poll | poller | remove | take | thread => exact makes.elim
  | adds t d isAdd outside same =>
      subst isAdd same
      refine ⟨Nat.le_succ s.handles, ?_⟩
      rintro h rfl
      exact Nat.lt_succ_self s.handles
  | removes t d isRemove outside same =>
      subst isRemove same
      constructor
      · unfold remove
        cases s.registered d <;> exact Nat.le_refl s.handles
      · intro h makes
        exact makes.elim

theorem made_step (known : Known s) (taken : step s a = some s') (h : Handle)
    (later : s'.handles ≤ h.number) (p : Place T) : s'.count h p = 0 := by
  obtain ⟨grows, makes⟩ := handles_step taken
  have old : ¬Makes s h a := fun new => absurd (makes h new) (Nat.not_lt.mpr later)
  exact (shift_step known.sorted taken old).absent (known.made h (Nat.le_trans grows later)) p

theorem scarce_step (known : Known s) (taken : step s a = some s') (h : Handle) :
    Scarce (s'.count h) := by
  by_cases new : Makes s h a
  · cases a with
    | add t d =>
        simp only [step] at taken
        split at taken
        · obtain rfl := Option.some.inj taken
          have none := known.made h (new ▸ Nat.le_refl s.handles)
          refine ⟨.thread t, Bool.toNat_le _, ?_⟩
          intro p notOwn
          exact (add_count t d notOwn).trans (none p)
        · cases taken
    | arrival | drain | poll | poller | remove | take | thread => exact new.elim
  · exact (shift_step known.sorted taken new).scarce (known.scarce h)

theorem current_add (known : Known s) {d : Direction} (outside : s.pc t = .outside)
    (active : (add s t d).active h = true) :
    (add s t d).registered h.dir = some h ∨ ∃ u, ((add s t d).pc u).cancels h = true := by
  simp only [add, State.goto] at active ⊢
  by_cases own : h = ⟨s.handles, d⟩
  · subst own
    exact .inl (Function.update_self ..)
  · rw [Function.update_of_ne own] at active
    rcases known.current h active with registered | ⟨u, cancels⟩
    · by_cases sameDir : h.dir = d
      · refine .inr ⟨t, ?_⟩
        rw [sameDir] at registered
        rw [Function.update_self, registered]
        exact decide_eq_true rfl
      · exact .inl ((Function.update_of_ne sameDir ..).trans registered)
    · have other : u ≠ t := by
        rintro rfl
        rw [outside] at cancels
        cases cancels
      refine .inr ⟨u, ?_⟩
      rwa [Function.update_of_ne other]

theorem current_remove (known : Known s) {d : Direction} (outside : s.pc t = .outside)
    (active : (remove s t d).active h = true) :
    (remove s t d).registered h.dir = some h ∨ ∃ u, ((remove s t d).pc u).cancels h = true := by
  unfold remove at active ⊢
  cases found : s.registered d with
  | none =>
      rw [found] at active
      exact known.current h active
  | some k =>
      simp only [found, State.goto] at active ⊢
      rcases known.current h active with registered | ⟨u, cancels⟩
      · by_cases own : h.dir = d
        · rw [own, found] at registered
          refine .inr ⟨t, ?_⟩
          rw [Function.update_self]
          exact decide_eq_true (Option.some.inj registered)
        · exact .inl ((Function.update_of_ne own ..).trans registered)
      · have other : u ≠ t := by
          rintro rfl
          rw [outside] at cancels
          cases cancels
        refine .inr ⟨u, ?_⟩
        rwa [Function.update_of_ne other]

theorem current_step (known : Known s) (taken : step s a = some s') (h : Handle)
    (active : s'.active h = true) :
    s'.registered h.dir = some h ∨ ∃ t, (s'.pc t).cancels h = true := by
  cases registry_step taken with
  | keeps _ registered activeBefore cancels =>
      rcases known.current h (activeBefore h active) with here | ⟨t, toCome⟩
      · exact .inl (registered ▸ here)
      · exact .inr ⟨t, cancels h active t toCome⟩
  | adds t d isAdd outside same =>
      subst same
      exact current_add known outside active
  | removes t d isRemove outside same =>
      subst same
      exact current_remove known outside active

theorem known_start (initial : machine.start s) : Known s := by
  obtain ⟨event, rfl⟩ := initial
  constructor
  · rintro d k ⟨⟩
  · intro h _ p
    cases p <;> rfl
  · intro h
    refine ⟨.parked, Nat.zero_le _, ?_⟩
    intro p _
    cases p <;> rfl
  · rintro h ⟨⟩

theorem known_step (known : Known s) (taken : step s a = some s') : Known s' where
  sorted := sorted_step known.sorted taken
  made := made_step known taken
  scarce := scarce_step known taken
  current := current_step known taken

theorem known_of_reachable (reached : machine.Reachable s) : Known s := by
  refine Machine.Reach.invariant Known (fun _ => known_start) ?_ reached
  intro s a s' known _ taken
  exact known_step known taken

/-! ## Rest -/

/-- No add, wake, dispatch or arm loop is in progress or queued. -/
structure AtRest (s : State T) : Prop where
  threads : ∀ t, s.pc t = .outside ∨ ∃ k, s.pc t = .cancelRemoved k
  poller : s.poller = .idle
  queued : s.queued = []

/-- No arm loop of another handle stores its `_wake` over that of the registered
handle. -/
def Timely (s : State T) (a : Act T) : Prop :=
  ∀ h, s.registered h.dir = some h → ¬Overwrites s a h

/-- The handle is the one of its fd and direction, its `_wake` is in the slot, and
a wake for the direction takes it out. -/
structure Served (s : State T) (h : Handle) : Prop where
  registered : s.registered h.dir = some h
  stored : s.slot h.dir = some h
  woken : ∀ ready, ready &&& h.dir.mask ≠ 0 → h ∈ s.wakeSet ready

/-- An active handle is somewhere as long as it is registered. -/
def Placed (s : State T) : Prop :=
  ∀ h, s.active h = true → s.registered h.dir = some h → ∃ p, s.count h p ≠ 0

/-- Only its own add registers a handle. -/
theorem registered_before (taken : step s a = some s') (old : ¬Makes s h a)
    (active : s'.active h = true) (registered : s'.registered h.dir = some h) :
    s.active h = true ∧ s.registered h.dir = some h := by
  cases registry_step taken with
  | keeps _ same activeBefore _ => exact ⟨activeBefore h active, same ▸ registered⟩
  | adds t d isAdd outside same =>
      subst isAdd same
      simp only [add, State.goto] at active registered
      rw [Function.update_of_ne old] at active
      by_cases own : h.dir = d
      · rw [own, Function.update_self] at registered
        exact absurd (Option.some.inj registered).symm old
      · rw [Function.update_of_ne own] at registered
        exact ⟨active, registered⟩
  | removes t d isRemove outside same =>
      subst same
      unfold remove at active registered
      cases found : s.registered d with
      | none =>
          rw [found] at active registered
          exact ⟨active, registered⟩
      | some k =>
          simp only [found, State.goto] at active registered
          by_cases own : h.dir = d
          · rw [own, Function.update_self] at registered
            cases registered
          · rw [Function.update_of_ne own] at registered
            exact ⟨active, registered⟩

theorem placed_step (known : Known s) (placed : Placed s) (timely : Timely s a)
    (taken : step s a = some s') : Placed s' := by
  intro h active registered
  by_cases new : Makes s h a
  · cases a with
    | add t d =>
        simp only [step] at taken
        split at taken
        · obtain rfl := Option.some.inj taken
          refine ⟨.thread t, ?_⟩
          rw [State.count, new, add_serves]
          exact Nat.one_ne_zero
        · cases taken
    | arrival | drain | poll | poller | remove | take | thread => exact new.elim
  · obtain ⟨activeBefore, registeredBefore⟩ := registered_before taken new active registered
    obtain ⟨p, here⟩ := placed h activeBefore registeredBefore
    cases shift_step known.sorted taken new with
    | stays same => exact ⟨p, same p ▸ here⟩
    | moves q r other less kept elsewhere =>
        by_cases between : p = q ∨ p = r
        · have some_ : s.count h q + s.count h r ≠ 0 := by
            rcases between with rfl | rfl <;> omega
          have still := kept some_
          by_cases atQ : s'.count h q = 0
          · exact ⟨r, by omega⟩
          · exact ⟨q, atQ⟩
        · refine ⟨p, ?_⟩
          rwa [elsewhere p (fun same => between (.inl same)) fun same => between (.inr same)]
    | drops inactive _ =>
        rw [active] at inactive
        cases inactive
    | overwritten overwrites _ => exact absurd overwrites (timely h registeredBefore)

omit [DecidableEq T] in
theorem mem_wakeSet (stored : s.slot h.dir = some h) {ready : BitVec 64}
    (wakes : ready &&& h.dir.mask ≠ 0) : h ∈ s.wakeSet ready := by
  have taken : s.taken ready h.dir = some h := (if_neg wakes).trans stored
  refine List.mem_filterMap.mpr ⟨h.dir, ?_, taken⟩
  cases h.dir <;> decide

theorem placed_of_reach (reached : machine.Reach Timely s) : Placed s := by
  have both : Known s ∧ Placed s := by
    refine Machine.Reach.invariant (fun s => Known s ∧ Placed s) ?_ ?_ reached
    · intro s initial
      refine ⟨known_start initial, ?_⟩
      obtain ⟨event, rfl⟩ := initial
      rintro h ⟨⟩
    · rintro s a s' ⟨known, placed⟩ timely taken
      constructor
      · exact known_step known taken
      · exact placed_step known placed timely taken
  exact both.2

omit [DecidableEq T] in
theorem registered_at_rest (known : Known s) (rest : AtRest s) (active : s.active h = true)
    (kept : ∀ t, s.pc t ≠ .cancelRemoved h) : s.registered h.dir = some h := by
  rcases known.current h active with registered | ⟨t, cancels⟩
  · exact registered
  · rcases rest.threads t with outside | ⟨k, removes⟩
    · rw [outside] at cancels
      cases cancels
    · rw [removes] at cancels
      have own : k = h := of_decide_eq_true cancels
      exact absurd (own ▸ removes) (kept t)

omit [DecidableEq T] in
/-- At rest a handle that is somewhere is in its slot. -/
theorem stored_at_rest (rest : AtRest s) {p : Place T} (here : s.count h p ≠ 0) :
    s.slot h.dir = some h := by
  cases p with
  | thread t =>
      rcases rest.threads t with outside | ⟨k, removes⟩
      · simp only [State.count, outside] at here
        exact absurd rfl here
      · simp only [State.count, removes] at here
        exact absurd rfl here
  | parked =>
      by_contra empty
      simp only [State.count, decide_eq_false empty] at here
      exact here rfl
  | woken =>
      simp only [State.count, rest.poller] at here
      exact absurd rfl here
  | queued =>
      simp only [State.count, rest.queued] at here
      exact absurd rfl here

/-- A replacement does not lose the new handle: at rest an active handle that is not
being removed is the registered one, and its `_wake` is in the slot. -/
theorem replacement_served (reached : machine.Reach Timely s) (rest : AtRest s)
    (active : s.active h = true) (kept : ∀ t, s.pc t ≠ .cancelRemoved h) : Served s h := by
  have known := known_of_reachable reached.reachable
  have registered := registered_at_rest known rest active kept
  obtain ⟨p, here⟩ := placed_of_reach reached h active registered
  have stored := stored_at_rest rest here
  exact ⟨registered, stored, fun _ => mem_wakeSet stored⟩

/-! ## A late store -/

/-- A handle that another one has stored over stays away from its slot for good. -/
theorem late_store_loses {s₁ s₂ : State T} {steps : List (Act T)} (reached : machine.Reachable s)
    (overwrites : Overwrites s a h) (taken : step s a = some s₁)
    (later : machine.exec s₁ steps = some s₂) : s₂.slot h.dir ≠ some h := by
  have known := known_of_reachable reached
  obtain ⟨parked, t, k, attempts, rfl, here, sameDir, other⟩ := overwrites
  have parkedCount : s.count h .parked ≠ 0 := by
    simp only [State.count, decide_eq_true parked]
    exact Nat.one_ne_zero
  have elsewhere : ∀ p, p ≠ .parked → s.count h p = 0 := fun p => (known.scarce h).apart parkedCount
  have old : h.number < s.handles := by
    by_contra new
    exact parkedCount (known.made h (Nat.not_lt.mp new) .parked)
  have none : ∀ p, s₁.count h p = 0 := by
    simp only [step, threadStep, here, armStep] at taken
    obtain rfl := Option.some.inj taken
    intro p
    by_cases isParked : p = .parked
    · rw [isParked]
      simp [State.count, State.goto, sameDir, other]
    · by_cases isThread : p = .thread t
      · rw [isThread]
        simp only [State.count, goto_pc_self]
        rfl
      · exact (count_store s k isThread isParked).trans (elsewhere p isParked)
  have gone : Sorted s₂ ∧ h.number < s₂.handles ∧ ∀ p, s₂.count h p = 0 := by
    refine Machine.exec_invariant
      (fun r : State T => Sorted r ∧ h.number < r.handles ∧ ∀ p, r.count h p = 0) ?_ ?_ later
    · rintro r b r' ⟨sorted, made, none⟩ moved
      change step r b = some r' at moved
      have notNew : ¬Makes r h b := by
        intro new
        cases b with
        | add u d => exact absurd made (new ▸ Nat.lt_irrefl r.handles)
        | arrival | drain | poll | poller | remove | take | thread => exact new
      refine ⟨sorted_step sorted moved, ?_, (shift_step sorted moved notNew).absent none⟩
      exact Nat.lt_of_lt_of_le made (handles_step moved).1
    · exact ⟨sorted_step known.sorted taken, Nat.lt_of_lt_of_le old (handles_step taken).1, none⟩
  intro stored
  have missing := gone.2.2 .parked
  simp only [State.count, decide_eq_true stored] at missing
  cases missing

/-! ## Runs -/

/-- An fd that is not ready. -/
def idleFd : State Bool :=
  registration ⟨false, false, false, false, false⟩

theorem idleFd_start : machine.start idleFd :=
  ⟨_, rfl⟩

def reader (number : Nat) : Handle :=
  ⟨number, .read⟩

/-- Rest, with the reader of a number active and that of another in the slot. -/
def restsWith (active stored : Nat) (s : State Bool) : Bool :=
  s.pc true = .outside ∧ s.pc false = .outside ∧ s.poller = .idle ∧ s.queued = [] ∧
    s.active (reader active) ∧ s.slot .read = some (reader stored)

theorem atRest_of_restsWith {active stored : Nat} {s : State Bool}
    (ends : restsWith active stored s = true) :
    AtRest s ∧ (∀ t, s.pc t = .outside) ∧ s.active (reader active) = true ∧
      s.slot .read = some (reader stored) := by
  obtain ⟨first, second, poller, queued, isActive, slot⟩ := of_decide_eq_true ends
  have outside : ∀ t, s.pc t = .outside := by
    intro t
    cases t
    · exact second
    · exact first
  exact ⟨⟨fun t => .inl (outside t), poller, queued⟩, outside, isActive, slot⟩

/-- `Timely`, decided. -/
def timely (s : State Bool) : Act Bool → Bool
  | .thread t =>
      match s.pc t with
      | .arm k _ .store =>
          s.slot k.dir ≠ s.registered k.dir ∨ s.slot k.dir = none ∨ s.slot k.dir = some k
      | _ => true
  | _ => true

theorem timely_sound (s : State Bool) (a : Act Bool) (checked : timely s a = true) :
    Timely s a := by
  rintro h registered ⟨stored, t, k, attempts, rfl, here, sameDir, other⟩
  simp only [timely, here] at checked
  have allowed := of_decide_eq_true checked
  rw [sameDir, stored, registered] at allowed
  rcases allowed with apart | empty | own
  · exact apart rfl
  · cases empty
  · exact other (Option.some.inj own).symm

/-- One thread adds a reader and replaces it. -/
def replaceRun : List (Act Bool) :=
  List.flatten [[.add false .read], .replicate 6 (.thread false),
    [.add false .read], .replicate 7 (.thread false)]

theorem replaceRun_ends :
    (machine.execIf timely idleFd replaceRun).any (restsWith 1 1) = true := by
  decide +kernel

theorem replacement_served_second : ∃ s : State Bool, Served s (reader 1) := by
  obtain ⟨s, reached, ends⟩ :=
    Machine.Reach.exists_of_execIf timely_sound idleFd_start replaceRun_ends
  obtain ⟨rest, outside, active, -⟩ := atRest_of_restsWith ends
  refine ⟨s, replacement_served reached rest active ?_⟩
  intro t removes
  rw [outside t] at removes
  cases removes

/-- The dispatch of the first reader is in its arm loop, behind the test of
`_active`, when the other thread replaces it. -/
def lateRun : List (Act Bool) :=
  List.flatten [[.add false .read], .replicate 6 (.thread false),
    [.arrival ⟨true, false, false, false, false⟩,
      .poll (readinessFromEvent ⟨true, false, false, false, false⟩)
        ⟨true, false, false, false, false⟩], .replicate 4 .poller,
    [.take true (reader 0), .thread true, .drain ⟨true, false, false, false, false⟩],
    .replicate 10 (.thread true),
    [.add false .read], .replicate 7 (.thread false), .replicate 4 (.thread true)]

theorem lateRun_ends : (machine.exec idleFd lateRun).any (restsWith 1 0) = true := by
  decide +kernel

/-- The new handle is active and in no slot. -/
theorem replacement_lost :
    ¬∀ (s : State Bool) (h : Handle), machine.Reachable s → AtRest s → s.active h = true →
      (∀ t, s.pc t ≠ .cancelRemoved h) → s.slot h.dir = some h := by
  intro always
  obtain ⟨s, reached, ends⟩ := Machine.Reachable.exists_of_exec idleFd_start lateRun_ends
  obtain ⟨rest, outside, active, old⟩ := atRest_of_restsWith ends
  have kept : ∀ t, s.pc t ≠ .cancelRemoved (reader 1) := by
    intro t removes
    rw [outside t] at removes
    cases removes
  have stored := always s (reader 1) reached rest active kept
  change s.slot .read = some (reader 1) at stored
  rw [old] at stored
  cases stored

end MtAsyncio.FdCallbacks
