/-
Module: MtAsyncio.Proofs.TimersPrompt
Purpose: No timer is overslept, fired early or missed: a blocked poll covers every
  deadline of the heap or a wake-up is on its way, and a drain takes exactly what is
  due.
Trusted boundary: none
Main exports: cmp_ne_gt, due_perm, due_early, due_sorted, due_leaves, Covered,
  Punctual, punctual_of_reachable, Prompt, timers_prompt
-/
import Mathlib.Data.List.MinMax
import MtAsyncio.Model.TimerHeap

namespace MtAsyncio.TimerHeap

open Lib (Machine Storage greatestFirst)

variable {T H A : Type} {storage : Storage (greatestFirst (Timer.cmp (T := T))) H}
variable {heap : H} {tick clock : Nat} {timeout : BitVec 64} {timer : Timer T}

/-! ## The order -/

/-- The order is that of the deadlines, the other way round. -/
theorem cmp_ne_gt {x y : Timer T} : y.cmp x ≠ .gt ↔ x.when_ ≤ y.when_ := by
  unfold Timer.cmp
  split
  · rename_i less
    exact iff_of_false (fun not => not rfl) (Nat.not_le.mpr less)
  · rename_i notLess
    refine iff_of_true ?_ (Nat.not_lt.mp notLess)
    split <;> decide

/-! ## The drain -/

theorem due_perm :
    (storage.contents heap).Perm
      ((due storage tick heap).1 ++ storage.contents (due storage tick heap).2) :=
  Storage.takeWhile_perm

theorem due_early : ∀ timer ∈ (due storage tick heap).1, timer.when_ ≤ tick := by
  intro timer member
  have wanted := Storage.takeWhile_wanted timer member
  simpa using wanted

theorem due_sorted : (due storage tick heap).1.Pairwise fun x y => x.when_ ≤ y.when_ :=
  Storage.takeWhile_sorted.imp fun inOrder => cmp_ne_gt.mp inOrder

theorem due_leaves : ∀ timer ∈ storage.contents (due storage tick heap).2, tick < timer.when_ := by
  intro timer member
  have upward : ∀ x y : Timer T, (!decide (y.when_ > tick)) = true → y.cmp x ≠ .gt →
      (!decide (x.when_ > tick)) = true := by
    intro x y wanted inOrder
    have early : y.when_ ≤ tick := by simpa using wanted
    have before := Nat.le_trans (cmp_ne_gt.mp inOrder) early
    simpa using before
  have unwanted := Storage.takeWhile_leaves upward timer member
  simpa using unwanted

/-! ## The arithmetic -/

theorem whenOf_eq (below : clock < clockMax) : whenOf clock timeout = clock + timeout.toNat := by
  have small := timeout.isLt
  unfold clockMax at below
  exact Nat.mod_eq_of_lt (by omega)

/-- The conversion to `u64` loses nothing of a timer that is less than `2^64`
microseconds away. -/
theorem schedTime_toNat {deadline : Nat} (near : deadline < tick + 2 ^ 64) :
    (schedTime deadline tick).toNat = deadline - tick := by
  unfold schedTime
  split
  · rw [BitVec.toNat_ofNat, Nat.mod_eq_of_lt (by omega)]
  · rename_i past
    rw [Nat.sub_eq_zero_of_le (Nat.not_lt.mp past)]
    rfl

/-! ## The blocked poll -/

variable [DecidableEq A] {s s' : State T H A} {a : A} {snapshot : Option Snapshot}

/-- No timer of the heap is due before the poll ends. -/
def Covers (timers : List (Timer T)) : Option Snapshot → Prop
  | none => timers = []
  | some d => ∀ timer ∈ timers, d.deadline ≤ timer.when_

/-- An `add_timer` is about to wake the poller. -/
def Notifies (s : State T H A) (a : A) : Prop :=
  s.caller a = .load ∨ ∃ waker, s.waker = some waker ∧ s.caller a = .wake (some waker)

/-- The poll covers the heap, or a wake-up is pending or about to be sent. -/
def Covered (storage : Storage (greatestFirst (Timer.cmp (T := T))) H) (s : State T H A)
    (snapshot : Option Snapshot) : Prop :=
  Covers (storage.contents s.heap) snapshot ∨ s.pending = true ∨ ∃ a, Notifies s a

/-- A thread goes on that was not about to wake the poller. -/
theorem Covered.setCaller {pc : CallerPc T} (covered : Covered storage s snapshot)
    (other : ¬Notifies s a) : Covered storage (s.setCaller a pc) snapshot := by
  obtain covers | pending | ⟨b, notifies⟩ := covered
  · exact .inl covers
  · exact .inr (.inl pending)
  · have apart : b ≠ a := by
      rintro rfl
      exact other notifies
    refine .inr (.inr ⟨b, ?_⟩)
    unfold Notifies State.setCaller at *
    simpa only [Function.update_of_ne apart] using notifies

/-- The state of the timers and of the poll loop. -/
structure Punctual (storage : Storage (greatestFirst (Timer.cmp (T := T))) H)
    (s : State T H A) : Prop where
  covered : ∀ snapshot, s.poller = .blocked snapshot → Covered storage s snapshot
  opened : s.poller ≠ .stopped → s.waker ≠ none
  lossless : ∀ d, s.poller = .blocked (some d) → d.timeout.toNat = d.deadline - d.tick
  near : ∀ timer ∈ storage.contents s.heap, timer.when_ < s.now + 2 ^ 64
  made : ∀ a timer, s.caller a = .push timer → timer.when_ < s.now + 2 ^ 64
  once : s.added.Perm (s.deferred ++ storage.contents s.heap)

/-! ## The steps -/

omit [DecidableEq A] in
/-- A step of the poll loop that leaves the heap alone, or a wake-up. -/
theorem Punctual.polls (punctual : Punctual storage s) (heap : s'.heap = s.heap)
    (caller : s'.caller = s.caller) (deferred : s'.deferred = s.deferred)
    (added : s'.added = s.added) (now : s.now ≤ s'.now)
    (covered : ∀ snapshot, s'.poller = .blocked snapshot → Covered storage s' snapshot)
    (opened : s'.poller ≠ .stopped → s'.waker ≠ none)
    (lossless : ∀ d, s'.poller = .blocked (some d) → d.timeout.toNat = d.deadline - d.tick) :
    Punctual storage s' := by
  refine ⟨covered, opened, lossless, ?_, ?_, ?_⟩
  · rw [heap]
    intro timer member
    have near := punctual.near timer member
    omega
  · rw [caller]
    intro a timer pushes
    have near := punctual.made a timer pushes
    omega
  · rw [added, deferred, heap]
    exact punctual.once

theorem punctual_register {target : T} (punctual : Punctual storage s) (idle : s.caller a = .idle)
    (reads : s.reads clock = true) :
    Punctual storage
      ({ s with now := clock }.setCaller a (.push ⟨whenOf clock timeout, target⟩)) := by
  simp only [State.reads, Bool.and_eq_true, decide_eq_true_eq] at reads
  obtain ⟨later, below⟩ := reads
  refine ⟨?_, punctual.opened, punctual.lossless, ?_, ?_, punctual.once⟩
  · intro snapshot blocked
    have covered : Covered storage { s with now := clock } snapshot :=
      punctual.covered snapshot blocked
    refine covered.setCaller ?_
    rintro (load | ⟨waker, -, wake⟩)
    · cases idle.symm.trans load
    · cases idle.symm.trans wake
  · intro timer member
    have near := punctual.near timer member
    show timer.when_ < clock + 2 ^ 64
    omega
  · intro b timer pushes
    simp only [State.setCaller, Function.update_apply] at pushes
    split at pushes
    · obtain rfl := CallerPc.push.inj pushes
      show whenOf clock timeout < clock + 2 ^ 64
      rw [whenOf_eq below]
      exact Nat.add_lt_add_left timeout.isLt clock
    · have near := punctual.made b timer pushes
      show timer.when_ < clock + 2 ^ 64
      omega

/-- The timer is in the heap, and its wake-up is about to be sent. -/
theorem punctual_push (punctual : Punctual storage s) (pushes : s.caller a = .push timer) :
    Punctual storage
      ({ s with heap := storage.put s.heap timer, added := s.added ++ [timer] }.setCaller a
        .load) := by
  have perm := storage.put_accepts s.heap timer
  refine ⟨?_, punctual.opened, punctual.lossless, ?_, ?_, ?_⟩
  · intro snapshot _
    exact .inr (.inr ⟨a, .inl (Function.update_self a _ _)⟩)
  · intro timer' member
    obtain rfl | old := List.mem_cons.mp (perm.mem_iff.mp member)
    · exact punctual.made a timer' pushes
    · exact punctual.near timer' old
  · intro b timer' pushes'
    simp only [State.setCaller, Function.update_apply] at pushes'
    split at pushes'
    · cases pushes'
    · exact punctual.made b timer' pushes'
  · have joined := punctual.once.append_right [timer]
    rw [List.append_assoc] at joined
    exact joined.trans ((List.perm_append_comm.trans perm.symm).append_left _)

/-- A thread goes on that has nothing more to push. -/
theorem Punctual.caller {pc : CallerPc T} (punctual : Punctual storage s)
    (idle : ∀ timer, pc ≠ .push timer)
    (covered : ∀ snapshot, s.poller = .blocked snapshot →
      Covered storage (s.setCaller a pc) snapshot) :
    Punctual storage (s.setCaller a pc) := by
  refine ⟨covered, punctual.opened, punctual.lossless, punctual.near, ?_, punctual.once⟩
  intro b timer pushes
  simp only [State.setCaller, Function.update_apply] at pushes
  split at pushes
  · exact absurd pushes (idle timer)
  · exact punctual.made b timer pushes

theorem punctual_load (punctual : Punctual storage s) :
    Punctual storage (s.setCaller a (.wake s.waker)) := by
  refine punctual.caller (by simp) ?_
  intro snapshot blocked
  obtain ⟨waker, isSome⟩ := Option.ne_none_iff_exists'.mp (punctual.opened (by simp [blocked]))
  refine .inr (.inr ⟨a, .inr ⟨waker, isSome, ?_⟩⟩)
  rw [← isSome]
  exact Function.update_self a _ _

theorem punctual_wake {waker : Option Nat} (punctual : Punctual storage s)
    (wake : s.caller a = .wake waker) :
    Punctual storage ({ s with
      pending := s.pending || (waker.isSome && waker == s.waker) }.setCaller a .idle) := by
  refine Punctual.caller (s := { s with pending := _ })
    (punctual.polls rfl rfl rfl rfl (Nat.le_refl _) ?_ punctual.opened punctual.lossless)
    (by simp) ?_
  · intro snapshot blocked
    obtain covers | pending | notifies := punctual.covered snapshot blocked
    · exact .inl covers
    · exact .inr (.inl (by simp [pending]))
    · exact .inr (.inr notifies)
  · intro snapshot blocked
    by_cases sends : waker.isSome && waker == s.waker
    · exact .inr (.inl (by simp [State.setCaller, sends]))
    · refine Covered.setCaller ?_ ?_
      · obtain covers | pending | notifies := punctual.covered snapshot blocked
        · exact .inl covers
        · exact .inr (.inl (by simp [pending]))
        · exact .inr (.inr notifies)
      · rintro (load | ⟨current, isCurrent, same⟩)
        · cases wake.symm.trans load
        · obtain rfl := CallerPc.wake.inj (wake.symm.trans same)
          have current_ : s.waker = some current := isCurrent
          rw [current_] at sends
          simp at sends

theorem punctual_caller (punctual : Punctual storage s)
    (taken : callerStep storage s a = some s') : Punctual storage s' := by
  unfold callerStep at taken
  split at taken
  · cases taken
  · rename_i pushes
    obtain rfl := Option.some.inj taken
    exact punctual_push punctual pushes
  · obtain rfl := Option.some.inj taken
    exact punctual_load punctual
  · rename_i wake
    obtain rfl := Option.some.inj taken
    exact punctual_wake punctual wake

omit [DecidableEq A] in
/-- The timeout covers the heap, and loses nothing in the conversion. -/
theorem punctual_compute (punctual : Punctual storage s) (at_ : s.poller = .cycle)
    (reads : s.reads tick = true) :
    Punctual storage { s with now := tick, poller := .blocked (s.snapshot storage tick) } := by
  simp only [State.reads, Bool.and_eq_true, decide_eq_true_eq] at reads
  refine punctual.polls rfl rfl rfl rfl reads.1 ?_ ?_ ?_
  · rintro snapshot ⟨⟩
    refine .inl ?_
    unfold State.snapshot
    cases top : storage.peek s.heap with
    | none => exact Storage.peek_eq_none.mp top
    | some timer =>
        intro other member
        exact cmp_ne_gt.mp (Storage.peek_greatest top other member)
  · intro _
    exact punctual.opened (by simp [at_])
  · intro d blocked
    obtain ⟨timer, top, rfl⟩ := Option.map_eq_some_iff.mp (PollerPc.blocked.inj blocked)
    have near := punctual.near timer (Storage.peek_mem top)
    exact schedTime_toNat (by omega)

omit [DecidableEq A] in
theorem punctual_drain {result : PollResult} {handled : Bool} (punctual : Punctual storage s)
    (at_ : s.poller = .draining result) (reads : s.reads tick = true) :
    Punctual storage { s with
      now := tick
      heap := (due storage tick s.heap).2
      deferred := s.deferred ++ (due storage tick s.heap).1
      poller := result.next handled } := by
  simp only [State.reads, Bool.and_eq_true, decide_eq_true_eq] at reads
  have unblocked : ∀ snapshot, result.next handled ≠ .blocked snapshot := by
    intro snapshot
    cases result <;> cases handled <;> simp [PollResult.next]
  have perm : (storage.contents s.heap).Perm
      ((due storage tick s.heap).1 ++ storage.contents (due storage tick s.heap).2) := due_perm
  refine ⟨?_, ?_, ?_, ?_, ?_, ?_⟩
  · intro snapshot blocked
    exact absurd blocked (unblocked snapshot)
  · intro _
    exact punctual.opened (by simp [at_])
  · intro d blocked
    exact absurd blocked (unblocked _)
  · intro timer member
    have near := punctual.near timer (perm.mem_iff.mpr (List.mem_append_right _ member))
    show timer.when_ < tick + 2 ^ 64
    omega
  · intro a timer pushes
    have near := punctual.made a timer pushes
    show timer.when_ < tick + 2 ^ 64
    omega
  · show s.added.Perm (s.deferred ++ (due storage tick s.heap).1 ++ _)
    rw [List.append_assoc]
    exact punctual.once.trans (perm.append_left _)

theorem punctual_step {act : Act T A} (punctual : Punctual storage s)
    (taken : step storage s act = some s') : Punctual storage s' := by
  -- a step of the poll loop to a place where it is not blocked
  have goes : ∀ {pc : PollerPc} {pending : Bool}, s.poller ≠ .stopped →
      (∀ snapshot, pc ≠ .blocked snapshot) →
        Punctual storage { s with poller := pc, pending := pending } := by
    intro pc pending before unblocked
    refine punctual.polls rfl rfl rfl rfl (Nat.le_refl _) ?_ (fun _ => punctual.opened before) ?_
    · intro snapshot blocked
      exact absurd blocked (unblocked snapshot)
    · intro d blocked
      exact absurd blocked (unblocked _)
  cases act with
  | register a target timeout clock =>
      simp only [step] at taken
      split at taken
      · rename_i idle
        split at taken
        · rename_i reads
          obtain rfl := Option.some.inj taken
          exact punctual_register punctual idle reads
        · cases taken
      · cases taken
  | caller a => exact punctual_caller punctual taken
  | poke =>
      obtain rfl := Option.some.inj taken
      refine punctual.polls rfl rfl rfl rfl (Nat.le_refl _) ?_ punctual.opened punctual.lossless
      intro snapshot blocked
      obtain covers | pending | notifies := punctual.covered snapshot blocked
      · exact .inl covers
      · exact .inr (.inl (by simp [pending]))
      · exact .inr (.inr notifies)
  | open_ =>
      simp only [step] at taken
      split at taken
      · obtain rfl := Option.some.inj taken
        refine punctual.polls rfl rfl rfl rfl (Nat.le_refl _) ?_ (by simp) ?_
        · rintro snapshot ⟨⟩
        · rintro d ⟨⟩
      · cases taken
  | compute tick =>
      simp only [step] at taken
      split at taken
      · rename_i both
        obtain rfl := Option.some.inj taken
        exact punctual_compute punctual both.1 both.2
      · cases taken
  | returns result wake =>
      simp only [step] at taken
      split at taken
      · rename_i blocked
        split at taken <;> obtain rfl := Option.some.inj taken
        · exact goes (by simp [blocked]) (by simp)
        · exact goes (by simp [blocked]) (by simp)
      · cases taken
  | retried wake =>
      simp only [step] at taken
      split at taken
      · rename_i retrying
        obtain rfl := Option.some.inj taken
        exact goes (by simp [retrying]) (by simp)
      · cases taken
  | drain tick handled =>
      simp only [step] at taken
      split at taken
      · rename_i at_
        split at taken
        · rename_i reads
          obtain rfl := Option.some.inj taken
          exact punctual_drain punctual at_ reads
        · cases taken
      · cases taken
  | stop =>
      simp only [step] at taken
      split at taken
      · rename_i at_
        obtain rfl := Option.some.inj taken
        exact goes (by simp [at_]) (by simp)
      · cases taken
  | close =>
      simp only [step] at taken
      split at taken
      · obtain rfl := Option.some.inj taken
        refine punctual.polls rfl rfl rfl rfl (Nat.le_refl _) ?_ (by simp) ?_
        · rintro snapshot ⟨⟩
        · rintro d ⟨⟩
      · cases taken

theorem punctual_of_reachable (reached : (machine (A := A) storage).Reachable s) :
    Punctual storage s := by
  refine Machine.Reach.invariant (Punctual storage) ?_ ?_ reached
  · rintro s ⟨heap, stopped, -, idle, deferred, added⟩
    have empty : storage.contents s.heap = [] := by
      rw [heap]
      exact storage.contents_empty
    constructor
    all_goals simp [stopped, idle, deferred, added, empty]
  · intro s act s' punctual _ taken
    exact punctual_step punctual taken

/-! ## The claim -/

/-- A blocked poll covers the heap or a wake-up is on its way, with a timeout that
is the distance of its deadline; a drain takes what is due by its reading of the
clock, in the order of the deadlines, and leaves the rest; and every timer that was
added is in the heap or was handed off once. -/
structure Prompt (storage : Storage (greatestFirst (Timer.cmp (T := T))) H)
    (s : State T H A) : Prop where
  covered : ∀ snapshot, s.poller = .blocked snapshot → Covered storage s snapshot
  lossless : ∀ d, s.poller = .blocked (some d) → d.timeout.toNat = d.deadline - d.tick
  drains : ∀ tick handled s', step storage s (.drain tick handled) = some s' →
    ∃ handed, s'.deferred = s.deferred ++ handed ∧
      (storage.contents s.heap).Perm (handed ++ storage.contents s'.heap) ∧
        (handed.Pairwise fun x y => x.when_ ≤ y.when_) ∧
          (∀ timer ∈ handed, timer.when_ ≤ tick) ∧
            ∀ timer ∈ storage.contents s'.heap, tick < timer.when_
  once : s.added.Perm (s.deferred ++ storage.contents s.heap)

theorem timers_prompt (reached : (machine (A := A) storage).Reachable s) : Prompt storage s := by
  have punctual := punctual_of_reachable reached
  refine ⟨punctual.covered, punctual.lossless, ?_, punctual.once⟩
  intro tick handled s' taken
  simp only [step] at taken
  split at taken
  · split at taken
    · obtain rfl := Option.some.inj taken
      exact ⟨_, rfl, due_perm, due_sorted, due_early, due_leaves⟩
    · cases taken
  · cases taken

/-! ## Runs -/

/-- A heap that looks for its top when it is asked for it. -/
def lazyTimers : Storage (greatestFirst (Timer.cmp (T := Nat))) (List (Timer Nat)) where
  empty := []
  contents timers := timers
  put timers timer := timers ++ [timer]
  get timers := (timers.argmin Timer.when_).map fun timer => (timer, timers.erase timer)
  contents_empty := rfl
  put_accepts _ _ := List.perm_append_comm
  get_returns := by
    intro timers timer rest got
    obtain ⟨first, isFirst, same⟩ := Option.map_eq_some_iff.mp got
    cases same
    refine ⟨List.perm_cons_erase (List.argmin_mem isFirst), ?_⟩
    intro other member
    exact cmp_ne_gt.mpr (List.le_of_mem_argmin member isFirst)
  get_isSome := by
    intro timers nonempty
    rw [Option.isSome_map]
    cases first : timers.argmin Timer.when_ with
    | some timer => rfl
    | none => exact absurd (List.argmin_eq_none.mp first) nonempty

def freshRuntime : State Nat (List (Timer Nat)) Nat where
  heap := []
  now := 0
  poller := .stopped
  waker := none
  runs := 0
  pending := false
  caller _ := .idle
  deferred := []
  added := []

theorem freshRuntime_start : (machine (A := Nat) lazyTimers).start freshRuntime :=
  ⟨rfl, rfl, rfl, fun _ => rfl, rfl, rfl⟩

/-- A timer is added before the run, and one that is due sooner while the poll waits
for the first. -/
theorem soonerRun_ends :
    ((machine (A := Nat) lazyTimers).exec freshRuntime
      [.register 0 7 5 10, .caller 0, .caller 0, .caller 0, .open_, .compute 12,
        .register 1 8 1 12, .caller 1, .caller 1]).any
      (fun s => s.poller = .blocked (some ⟨15, 12, 3⟩) ∧
        s.heap = [⟨15, 7⟩, ⟨13, 8⟩] ∧ s.pending = false) = true := by
  decide +kernel

theorem timers_prompt_sooner :
    ∃ s : State Nat (List (Timer Nat)) Nat,
      s.poller = .blocked (some ⟨15, 12, 3⟩) ∧ Prompt lazyTimers s := by
  obtain ⟨s, reached, ends⟩ :=
    Machine.Reachable.exists_of_exec freshRuntime_start soonerRun_ends
  exact ⟨s, (of_decide_eq_true ends).1, timers_prompt reached⟩

end MtAsyncio.TimerHeap
