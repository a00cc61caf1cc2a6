/-
Module: MtAsyncio.Proofs.WakesFlushed
Purpose: What a thread defers is performed once each and in order, after the exit of the
  outermost region and whatever the wakes before it raise; outside of a region
  nothing is deferred.
Trusted boundary: none
Main exports: Move, Regions, Kept, kept_step, Kept.region, Flushed, Performs, Exits,
  flush_waits, wakes_flushed_once
-/
import MtAsyncio.Model.DeferWakes

namespace MtAsyncio.DeferWakes

open Lib (Machine)
open Wakes (Tls Region)

variable {E H : Type} {s s' : State E H} {a : Act E H} {n m : Nat}

/-! ## Steps -/

/-- What a step does. -/
inductive Move (s : State E H) : Act E H → State E H → Prop where
  | enters (at_ : code s.stack = true) : Move s .enter s.enter
  | inner {raised : Bool} {n : Nat} {below : List (Frame E H)} {tls : Tls (Wake E H)}
      (at_ : s.stack = .region n :: below) (left : s.tls.exit = some (tls, none)) :
      Move s (.exit raised) { s with tls := tls, stack := below }
  | outermost {raised : Bool} {n : Nat} {below : List (Frame E H)} {tls : Tls (Wake E H)}
      {pending : List (Wake E H)} (at_ : s.stack = .region n :: below)
      (left : s.tls.exit = some (tls, some pending)) :
      Move s (.exit raised) { s with tls := tls, stack := .flush n pending :: below }
  | wakes {event : E} (at_ : code s.stack = true) : Move s (.wake event) (s.complete (.set event))
  | schedules {handle : H} {closed reactor : Bool} (at_ : code s.stack = true) :
      Move s (.callSoon handle closed reactor) (s.complete (.callSoon handle))
  | refused {handle : H} {closed reactor : Bool} : Move s (.callSoon handle closed reactor) s
  | calls {n : Nat} {wake : Wake E H} {rest : List (Wake E H)} {below : List (Frame E H)}
      (at_ : s.stack = .flush n (wake :: rest) :: below) : Move s .next (s.call n wake rest below)
  | ends {n : Nat} {below : List (Frame E H)} (at_ : s.stack = .flush n [] :: below) :
      Move s .next { s with stack := below }
  | returns {raised : Bool} {wake : Wake E H} {below : List (Frame E H)}
      (at_ : s.stack = .running wake :: below) :
      Move s (.returns raised) (s.ended wake raised below)

theorem move_of_step (taken : step s a = some s') : Move s a s' := by
  cases a with
  | enter =>
      simp only [step] at taken
      split at taken <;> cases taken
      exact .enters ‹_›
  | exit raised =>
      simp only [step] at taken
      split at taken
      · split at taken <;> cases taken
        · exact .inner ‹_› ‹_›
        · exact .outermost ‹_› ‹_›
      · cases taken
  | wake event =>
      simp only [step] at taken
      split at taken <;> cases taken
      exact .wakes ‹_›
  | callSoon handle closed reactor =>
      simp only [step] at taken
      split at taken
      · split at taken <;> cases taken
        · exact .refused
        · exact .schedules ‹_›
      · cases taken
  | next =>
      simp only [step] at taken
      split at taken <;> cases taken
      · exact .calls ‹_›
      · exact .ends ‹_›
  | returns raised =>
      simp only [step] at taken
      split at taken <;> cases taken
      exact .returns ‹_›

/-! ## The stack -/

/-- The outermost region that the frame flushes. -/
def Frame.flushes : Frame E H → Option Nat
  | .flush n _ => some n
  | _ => none

/-- The regions that are being flushed. -/
def flushes (stack : List (Frame E H)) : List Nat :=
  stack.filterMap Frame.flushes

/-- The regions of the stack are the `k` frames on its top, all of them of the
outermost region `n`. -/
inductive Regions (n : Nat) : Nat → List (Frame E H) → Prop where
  | none {stack : List (Frame E H)} (flat : ∀ m, .region m ∉ stack) : Regions n 0 stack
  | region {k : Nat} {stack : List (Frame E H)} (regions : Regions n k stack) :
      Regions n (k + 1) (.region n :: stack)

namespace Regions

variable {k : Nat} {stack below : List (Frame E H)} {frame : Frame E H}

theorem mem_iff (regions : Regions n k stack) : .region m ∈ stack ↔ 0 < k ∧ m = n := by
  induction regions with
  | none flat => simp [flat m]
  | region regions inductionHypothesis =>
      simp only [List.mem_cons, Frame.region.injEq, inductionHypothesis]
      omega

theorem of_region (regions : Regions n k (.region m :: below)) :
    m = n ∧ ∃ j, k = j + 1 ∧ Regions n j below := by
  cases regions with
  | none flat => exact absurd List.mem_cons_self (flat m)
  | region regions => exact ⟨rfl, _, rfl, regions⟩

/-- Below another frame there is no region. -/
theorem flat_of_other (regions : Regions n k (frame :: below)) (other : ∀ m, frame ≠ .region m) :
    k = 0 ∧ ∀ m, .region m ∉ below := by
  cases regions with
  | none flat => exact ⟨rfl, fun m member => flat m (List.mem_cons_of_mem _ member)⟩
  | region regions => exact absurd rfl (other n)

end Regions

/-! ## The invariant -/

/-- What was appended is what was run and, after it, what is still to run. -/
structure Kept (s : State E H) : Prop where
  tls : s.tls.Sound
  regions : Regions s.entered s.tls.depth s.stack
  once : (flushes s.stack).Nodup
  earlier : ∀ n ∈ flushes s.stack, n ≤ s.entered ∧ (0 < s.tls.depth → n ≠ s.entered)
  collecting : ∀ pending, s.tls.pending = some pending →
    s.ran s.entered = [] ∧ s.appended s.entered = pending
  flushing : ∀ n rest, .flush n rest ∈ s.stack → s.ran n ++ rest = s.appended n
  flushed : ∀ n, n ∉ flushes s.stack → (0 < s.tls.depth → n ≠ s.entered) →
    s.ran n = s.appended n
  later : ∀ n, s.entered < n → s.ran n = [] ∧ s.appended n = []

theorem mem_flushes {stack : List (Frame E H)} :
    n ∈ flushes stack ↔ ∃ rest, .flush n rest ∈ stack := by
  simp only [flushes, List.mem_filterMap]
  constructor
  · rintro ⟨frame, member, isFlush⟩
    cases frame <;> cases isFlush
    exact ⟨_, member⟩
  · rintro ⟨rest, member⟩
    exact ⟨_, member, rfl⟩

theorem Kept.pending_of_flat (kept : Kept s) (flat : s.tls.depth = 0) : s.tls.pending = none := by
  by_contra some_
  have inside := kept.tls.mp (Option.isSome_iff_ne_none.mpr some_)
  omega

/-- The entry of an outermost region: its number is a new one. -/
theorem Kept.opens (kept : Kept s) (outside : s.tls.depth = 0) : Kept s.enter := by
  have entered : s.enter.entered = s.entered + 1 := by simp [State.enter, outside]
  have depth : s.enter.tls.depth = 0 + 1 := by simp [State.enter, Tls.enter, outside]
  have stack : s.enter.stack = .region (s.entered + 1) :: s.stack := by
    simp [State.enter, outside]
  have fresh := kept.later (s.entered + 1) (Nat.lt_succ_self _)
  have flat : ∀ m, .region m ∉ s.stack := by
    intro m member
    have := (kept.regions.mem_iff.mp member).1
    omega
  refine ⟨kept.tls.enter, ?_, kept.once, ?_, ?_, ?_, ?_, ?_⟩
  · rw [entered, depth, stack]
    exact .region (.none flat)
  · intro n member
    have before := (kept.earlier n member).1
    rw [entered]
    omega
  · intro pending isPending
    rw [entered]
    simp only [State.enter, Tls.enter, outside, if_true, Option.some.injEq] at isPending
    subst isPending
    exact fresh
  · intro n rest member
    refine kept.flushing n rest ((List.mem_cons.mp member).resolve_left ?_)
    rintro ⟨⟩
  · intro n apart _
    exact kept.flushed n apart (by omega)
  · intro n after
    exact kept.later n (by omega)

/-- The entry of a region inside of another one. -/
theorem Kept.nests (kept : Kept s) (nested : s.tls.depth ≠ 0) : Kept s.enter := by
  have entered : s.enter.entered = s.entered := by simp [State.enter, nested]
  have stack : s.enter.stack = .region s.entered :: s.stack := by simp [State.enter, nested]
  have inside : 0 < s.tls.depth := Nat.pos_of_ne_zero nested
  refine ⟨kept.tls.enter, ?_, kept.once, ?_, ?_, ?_, ?_, ?_⟩
  · rw [entered, stack]
    exact .region kept.regions
  · intro n member
    rw [entered]
    have before := kept.earlier n member
    exact ⟨before.1, fun _ => before.2 inside⟩
  · intro pending isPending
    rw [entered]
    simp only [State.enter, Tls.enter, nested, if_false] at isPending
    exact kept.collecting pending isPending
  · intro n rest member
    refine kept.flushing n rest ((List.mem_cons.mp member).resolve_left ?_)
    rintro ⟨⟩
  · intro n apart other
    rw [entered] at other
    exact kept.flushed n apart fun _ => other (Nat.succ_pos _)
  · intro n after
    rw [entered] at after
    exact kept.later n after

theorem Kept.complete (kept : Kept s) (wake : Wake E H) : Kept (s.complete wake) := by
  unfold State.complete
  -- outside of every region only the list of what was performed at once grows
  split
  · exact ⟨kept.tls, kept.regions, kept.once, kept.earlier, kept.collecting, kept.flushing,
      kept.flushed, kept.later⟩
  · rename_i pending isPending
    have inside : 0 < s.tls.depth := kept.tls.mp (by simp [show s.tls.pending = _ from isPending])
    have others : ∀ n, n ≠ s.entered →
        Function.update s.appended s.entered (s.appended s.entered ++ [wake]) n = s.appended n :=
      fun n other => Function.update_of_ne other ..
    refine ⟨kept.tls.append wake, kept.regions, kept.once, kept.earlier, ?_, ?_, ?_, ?_⟩
    · intro grown isGrown
      obtain ⟨notRun, collected⟩ := kept.collecting pending isPending
      rw [Tls.append, show s.tls.pending = _ from isPending] at isGrown
      cases isGrown
      exact ⟨notRun, by simp [collected]⟩
    · intro n rest member
      have other := (kept.earlier n (mem_flushes.mpr ⟨rest, member⟩)).2 inside
      exact (kept.flushing n rest member).trans (others n other).symm
    · intro n apart other
      exact (kept.flushed n apart other).trans (others n (other inside)).symm
    · intro n after
      obtain ⟨notRun, none_⟩ := kept.later n after
      exact ⟨notRun, (others n (Nat.ne_of_gt after)).trans none_⟩

/-- The exit of an inner region. -/
theorem Kept.inner (kept : Kept s) {below : List (Frame E H)} {tls : Tls (Wake E H)}
    (at_ : s.stack = .region n :: below) (left : s.tls.exit = some (tls, none)) :
    Kept { s with tls := tls, stack := below } := by
  obtain ⟨nested, isDepth, rfl⟩ := Tls.exit_inner left
  have inside : 0 < s.tls.depth := by omega
  obtain ⟨-, k, more, regions⟩ := (at_ ▸ kept.regions).of_region
  have isK : k = nested + 1 := by omega
  have same : flushes s.stack = flushes below := by rw [at_]; rfl
  refine ⟨kept.tls.exit left, isK ▸ regions, same ▸ kept.once, ?_, kept.collecting, ?_, ?_,
    kept.later⟩
  · intro m member
    have before := kept.earlier m (same ▸ member)
    exact ⟨before.1, fun _ => before.2 inside⟩
  · intro m rest member
    exact kept.flushing m rest (at_ ▸ List.mem_cons_of_mem _ member)
  · intro m apart other
    exact kept.flushed m (same ▸ apart) fun _ => other (Nat.succ_pos _)

/-- The exit of the outermost region: what it has collected is still to run. -/
theorem Kept.outermost (kept : Kept s) {below : List (Frame E H)} {tls : Tls (Wake E H)}
    {pending : List (Wake E H)} (at_ : s.stack = .region n :: below)
    (left : s.tls.exit = some (tls, some pending)) :
    Kept { s with tls := tls, stack := .flush n pending :: below } := by
  obtain ⟨isDepth, isPending, rfl⟩ := Tls.exit_outermost left
  have inside : 0 < s.tls.depth := by omega
  obtain ⟨rfl, k, more, regions⟩ := (at_ ▸ kept.regions).of_region
  have isK : k = 0 := by omega
  have same : flushes s.stack = flushes below := by rw [at_]; rfl
  have once : (flushes below).Nodup := same ▸ kept.once
  obtain ⟨notRun, collected⟩ := kept.collecting pending isPending
  have flat : ∀ m, .region m ∉ below := by
    intro m member
    have := (regions.mem_iff.mp member).1
    omega
  have apart : s.entered ∉ flushes below := by
    intro member
    exact (kept.earlier _ (same ▸ member)).2 inside rfl
  refine ⟨kept.tls.exit left, .none ?_, ?_, ?_, ?_, ?_, ?_, kept.later⟩
  · intro m member
    refine flat m ((List.mem_cons.mp member).resolve_left ?_)
    rintro ⟨⟩
  · exact List.nodup_cons.mpr ⟨apart, once⟩
  · intro m member
    refine ⟨?_, fun nested => absurd nested (Nat.lt_irrefl 0)⟩
    rcases List.mem_cons.mp member with rfl | old
    · exact Nat.le_refl _
    · exact (kept.earlier m (same ▸ old)).1
  · rintro _ ⟨⟩
  · intro m rest member
    rcases List.mem_cons.mp member with new | old
    · cases new
      rw [notRun, collected]
      rfl
    · exact kept.flushing m rest (at_ ▸ List.mem_cons_of_mem _ old)
  · intro m notFlushed _
    have other : m ≠ s.entered ∧ m ∉ flushes below := by
      refine ⟨?_, fun old => notFlushed (List.mem_cons_of_mem _ old)⟩
      rintro rfl
      exact notFlushed List.mem_cons_self
    exact kept.flushed m (same ▸ other.2) fun _ => other.1

/-- The next wake is called. -/
theorem Kept.calls (kept : Kept s) {wake : Wake E H} {rest : List (Wake E H)}
    {below : List (Frame E H)} (at_ : s.stack = .flush n (wake :: rest) :: below) :
    Kept (s.call n wake rest below) := by
  obtain ⟨outside, flat⟩ := (at_ ▸ kept.regions).flat_of_other (by simp)
  have same : flushes s.stack = n :: flushes below := by rw [at_]; rfl
  -- no flush further down is one of the same region, so theirs are as they were
  have once : (n :: flushes below).Nodup := same ▸ kept.once
  have alone : n ∉ flushes below := (List.nodup_cons.mp once).1
  have others : ∀ m, m ≠ n →
      Function.update s.ran n (s.ran n ++ [wake]) m = s.ran m :=
    fun m other => Function.update_of_ne other ..
  have mine : Function.update s.ran n (s.ran n ++ [wake]) n = s.ran n ++ [wake] :=
    Function.update_self ..
  have isFlushed : n ∈ flushes s.stack := same ▸ List.mem_cons_self
  have noRegion : ∀ m, .region m ∉ (s.call n wake rest below).stack := by
    intro m member
    simp only [State.call, List.mem_cons, reduceCtorEq, false_or] at member
    exact flat m member
  refine ⟨kept.tls, ?_, once, ?_, ?_, ?_, ?_, ?_⟩
  · show Regions s.entered s.tls.depth _
    rw [outside]
    exact .none noRegion
  · intro m member
    exact kept.earlier m (same ▸ member)
  · intro pending isPending
    exact absurd ((kept.pending_of_flat outside).symm.trans isPending) (by simp)
  · intro m left member
    simp only [State.call, List.mem_cons, reduceCtorEq, Frame.flush.injEq, false_or] at member
    rcases member with ⟨rfl, rfl⟩ | old
    · have before := kept.flushing m (wake :: left) (at_ ▸ List.mem_cons_self)
      show Function.update s.ran m (s.ran m ++ [wake]) m ++ left = _
      rw [mine, List.append_assoc]
      exact before
    · have other : m ≠ n := by
        rintro rfl
        exact alone (mem_flushes.mpr ⟨left, old⟩)
      have before := kept.flushing m left (at_ ▸ List.mem_cons_of_mem _ old)
      exact (congrArg (· ++ left) (others m other)).trans before
  · intro m notFlushed other
    have apart : m ≠ n := by
      rintro rfl
      exact notFlushed (show m ∈ flushes _ from List.mem_cons_self)
    exact (others m apart).trans (kept.flushed m (same ▸ notFlushed) other)
  · intro m after
    have apart : m ≠ n := by
      rintro rfl
      exact absurd (kept.earlier m isFlushed).1 (Nat.not_le_of_gt after)
    obtain ⟨notRun, none_⟩ := kept.later m after
    exact ⟨(others m apart).trans notRun, none_⟩

/-- A frame is left that is neither a region nor has anything to flush. -/
theorem Kept.pop (kept : Kept s) {frame : Frame E H} {below : List (Frame E H)}
    (at_ : s.stack = frame :: below) (printed : List (Wake E H))
    (other : ∀ m, frame ≠ .region m) (done : ∀ m rest, frame = .flush m rest → rest = []) :
    Kept { s with stack := below, printed := printed } := by
  obtain ⟨outside, flat⟩ := (at_ ▸ kept.regions).flat_of_other other
  have sublist : (flushes below).Sublist (flushes s.stack) := by
    rw [at_]
    exact (List.sublist_cons_self frame below).filterMap _
  refine ⟨kept.tls, ?_, kept.once.sublist sublist, ?_, kept.collecting, ?_, ?_, kept.later⟩
  · show Regions s.entered s.tls.depth _
    rw [outside]
    exact .none flat
  · intro m member
    exact kept.earlier m (sublist.subset member)
  · intro m rest member
    exact kept.flushing m rest (at_ ▸ List.mem_cons_of_mem _ member)
  · intro m notFlushed outermost
    by_cases isFlushed : m ∈ flushes s.stack
    · obtain ⟨rest, member⟩ := mem_flushes.mp isFlushed
      have before := kept.flushing m rest member
      have isFrame : frame = .flush m rest := by
        rw [at_] at member
        refine ((List.mem_cons.mp member).resolve_right fun old => ?_).symm
        exact notFlushed (mem_flushes.mpr ⟨rest, old⟩)
      rw [done m rest isFrame, List.append_nil] at before
      exact before
    · exact kept.flushed m isFlushed outermost

theorem kept_step (kept : Kept s) (move : Move s a s') : Kept s' := by
  cases move with
  | enters =>
      by_cases outside : s.tls.depth = 0
      · exact kept.opens outside
      · exact kept.nests outside
  | inner at_ left => exact kept.inner at_ left
  | outermost at_ left => exact kept.outermost at_ left
  | wakes | schedules => exact kept.complete _
  | refused => exact kept
  | calls at_ => exact kept.calls at_
  | ends at_ =>
      refine kept.pop at_ s.printed (by simp) ?_
      rintro m rest ⟨⟩
      rfl
  | returns at_ => exact kept.pop at_ _ (by simp) (by simp)

theorem kept_of_reachable (reached : machine.Reachable s) : Kept s := by
  refine reached.invariant Kept ?_ fun _ _ _ kept _ taken => kept_step kept (move_of_step taken)
  rintro _ rfl
  refine ⟨Tls.sound_default, .none (by simp), .nil, ?_, ?_, ?_, fun _ _ _ => rfl,
    fun _ _ => ⟨rfl, rfl⟩⟩
  · rintro _ ⟨⟩
  · rintro _ ⟨⟩
  · rintro _ _ ⟨⟩

/-! ### The region of the coarser models -/

/-- What a thread may do to its region. -/
inductive RegionMove (r : Region (Wake E H)) : Region (Wake E H) → Prop where
  | stays : RegionMove r r
  | enters : RegionMove r r.enter
  | appends (wake : Wake E H) : RegionMove r (r.append wake)
  | exits {r' : Region (Wake E H)} {flush : List (Wake E H)} (left : r.exit = some (r', flush)) :
      RegionMove r r'

/-- The two fields go through the steps of a region. -/
theorem Kept.region (kept : Kept s) (move : Move s a s') :
    RegionMove s.tls.region s'.tls.region := by
  have completes : ∀ wake, RegionMove s.tls.region (s.complete wake).tls.region := by
    intro wake
    unfold State.complete
    split
    · exact .stays
    · have appended : RegionMove s.tls.region (s.tls.region.append wake) := .appends wake
      rwa [← Tls.region_append kept.tls wake] at appended
  cases move with
  | enters =>
      show RegionMove s.tls.region s.tls.enter.region
      rw [Tls.region_enter]
      exact .enters
  | inner _ left | outermost _ left => exact .exits (Tls.region_exit left)
  | wakes | schedules => exact completes _
  | refused | calls | ends | returns => exact .stays

/-! ## What the regions promise -/

/-- Nothing of an open region has run, what a flush has not run is what it has
still to run, and of every other region all that was appended has run, each
once and in the order of appending. -/
structure Flushed (s : State E H) : Prop where
  collecting : ∀ n, .region n ∈ s.stack → s.ran n = [] ∧ s.tls.pending = some (s.appended n)
  flushing : ∀ n rest, .flush n rest ∈ s.stack → s.ran n ++ rest = s.appended n
  flushed : ∀ n, .region n ∉ s.stack → (∀ rest, .flush n rest ∉ s.stack) →
    s.ran n = s.appended n
  outside : (∀ n, .region n ∉ s.stack) → s.tls = {}

/-- A completion is performed at once outside of every region, and appended
inside of one. -/
structure Performs (s : State E H) (wake : Wake E H) (s' : State E H) : Prop where
  outside : (∀ n, .region n ∉ s.stack) → s' = { s with woken := s.woken ++ [wake] }
  inside : ∀ n, .region n ∈ s.stack → s'.appended n = s.appended n ++ [wake] ∧
    s'.stack = s.stack ∧ s'.ran = s.ran ∧ s'.woken = s.woken

/-- An inner exit does nothing yet; at the outermost one the thread defers no
more, and all that was appended is to be run. -/
structure Exits (s : State E H) (n : Nat) (below : List (Frame E H)) (s' : State E H) :
    Prop where
  same : s'.appended = s.appended ∧ s'.ran = s.ran ∧ s'.woken = s.woken
  inner : (∃ m, .region m ∈ below) → s'.stack = below
  outermost : (∀ m, .region m ∉ below) →
    s'.tls = {} ∧ s'.stack = .flush n (s.appended n) :: below

theorem Kept.depth_of_flat (kept : Kept s) (flat : ∀ n, .region n ∉ s.stack) :
    s.tls.depth = 0 := by
  by_contra nested
  exact flat s.entered (kept.regions.mem_iff.mpr ⟨Nat.pos_of_ne_zero nested, rfl⟩)

theorem Kept.tls_of_flat (kept : Kept s) (flat : ∀ n, .region n ∉ s.stack) : s.tls = {} := by
  have depth := kept.depth_of_flat flat
  exact Tls.eq_default depth (kept.pending_of_flat depth)

/-- In a region there is a list that it collects. -/
theorem Kept.collects (kept : Kept s) (inside : .region n ∈ s.stack) :
    n = s.entered ∧ s.ran n = [] ∧ s.tls.pending = some (s.appended n) := by
  obtain ⟨nested, rfl⟩ := kept.regions.mem_iff.mp inside
  obtain ⟨pending, isPending⟩ := Option.isSome_iff_exists.mp (kept.tls.mpr nested)
  obtain ⟨notRun, collected⟩ := kept.collecting pending isPending
  exact ⟨rfl, notRun, collected ▸ isPending⟩

theorem Kept.allFlushed (kept : Kept s) : Flushed s where
  collecting n inside := (kept.collects inside).2
  flushing := kept.flushing
  flushed := by
    intro n notOpen notFlushing
    refine kept.flushed n ?_ ?_
    · intro member
      obtain ⟨rest, isFlush⟩ := mem_flushes.mp member
      exact notFlushing rest isFlush
    · rintro nested rfl
      exact notOpen (kept.regions.mem_iff.mpr ⟨nested, rfl⟩)
  outside := kept.tls_of_flat

theorem Kept.performs (kept : Kept s) (wake : Wake E H) : Performs s wake (s.complete wake) where
  outside := by
    intro flat
    have pending : s.tls.pendingWakes = none := kept.pending_of_flat (kept.depth_of_flat flat)
    rw [State.complete, pending]
  inside := by
    intro n inside
    obtain ⟨rfl, -, isPending⟩ := kept.collects inside
    have pending : s.tls.pendingWakes = some (s.appended s.entered) := isPending
    rw [State.complete, pending]
    exact ⟨Function.update_self .., rfl, rfl, rfl⟩

theorem Kept.exits (kept : Kept s) {below : List (Frame E H)} (at_ : s.stack = .region n :: below)
    (raised : Bool) : ∃ s', step s (.exit raised) = some s' ∧ Exits s n below s' := by
  have isOpen : .region n ∈ s.stack := at_ ▸ List.mem_cons_self
  obtain ⟨rfl, -, isPending⟩ := kept.collects isOpen
  obtain ⟨-, k, more, regions⟩ := (at_ ▸ kept.regions).of_region
  have below_iff : (∃ m, .region m ∈ below) ↔ 0 < k := by
    constructor
    · rintro ⟨m, member⟩
      exact (regions.mem_iff.mp member).1
    · intro nested
      exact ⟨s.entered, regions.mem_iff.mpr ⟨nested, rfl⟩⟩
  obtain ⟨⟨tls, flush⟩, left⟩ := kept.tls.exits (by omega)
  cases flush with
  | none =>
      obtain ⟨nested, isDepth, -⟩ := Tls.exit_inner left
      have taken : step s (.exit raised) = some { s with tls := tls, stack := below } := by
        simp only [step, at_, left]
      refine ⟨_, taken, ⟨rfl, rfl, rfl⟩, fun _ => rfl, ?_⟩
      intro flat
      have inner := below_iff.mpr (by omega)
      exact absurd inner (not_exists.mpr flat)
  | some pending =>
      obtain ⟨isDepth, collected, isReset⟩ := Tls.exit_outermost left
      have all : pending = s.appended s.entered :=
        Option.some.inj (collected.symm.trans isPending)
      have taken : step s (.exit raised) =
          some { s with tls := tls, stack := .flush s.entered pending :: below } := by
        simp only [step, at_, left]
      refine ⟨_, taken, ⟨rfl, rfl, rfl⟩, ?_, ?_⟩
      · intro inner
        have := below_iff.mp inner
        omega
      · intro _
        exact ⟨isReset, by rw [all]⟩

/-! ### Every flush comes to its end -/

/-- The steps of a thread that only leaves what it is in: blocks are exited,
flushes go on and wakes return or raise. -/
def Unwinds : Act E H → Prop
  | .exit _ | .next | .returns _ => True
  | _ => False

def Frame.size : Frame E H → Nat
  | .region _ => 2
  | .flush _ rest => 2 * rest.length + 1
  | .running _ => 1

def stackSize : List (Frame E H) → Nat
  | [] => 0
  | frame :: below => frame.size + stackSize below

/-- How many steps of unwinding there are left, at most. -/
def State.size (s : State E H) : Nat :=
  2 * (s.tls.pending.getD []).length + stackSize s.stack

/-- Unwinding appends nothing and makes the rest smaller. -/
theorem size_of_unwinds (move : Move s a s') (unwinds : Unwinds a) :
    s'.appended = s.appended ∧ s'.size < s.size := by
  cases move with
  | enters | wakes | schedules | refused => cases unwinds
  | inner at_ left =>
      obtain ⟨nested, -, rfl⟩ := Tls.exit_inner left
      refine ⟨rfl, ?_⟩
      simp [State.size, at_, stackSize, Frame.size]
  | outermost at_ left =>
      obtain ⟨-, isPending, rfl⟩ := Tls.exit_outermost left
      refine ⟨rfl, ?_⟩
      simp [State.size, at_, isPending, stackSize, Frame.size]
      omega
  | calls at_ =>
      refine ⟨rfl, ?_⟩
      simp [State.size, State.call, at_, stackSize, Frame.size]
      omega
  | ends at_ | returns at_ =>
      refine ⟨rfl, ?_⟩
      simp [State.size, State.ended, at_, stackSize, Frame.size]

/-- Everything has been left, and all that was appended has run. -/
def AllRun (appended : Nat → List (Wake E H)) (s : State E H) : Prop :=
  s.stack = [] ∧ s.tls = {} ∧ ∀ n, s.ran n = appended n

theorem Kept.allRun (kept : Kept s) (empty : s.stack = []) : AllRun s.appended s := by
  have flushed := kept.allFlushed
  refine ⟨empty, flushed.outside (by simp [empty]), fun n => ?_⟩
  exact flushed.flushed n (by simp [empty]) (by simp [empty])

/-- A thread that is in something can leave it. -/
theorem Kept.unwinds (kept : Kept s) (busy : s.stack ≠ []) :
    ∃ a s', Unwinds a ∧ step s a = some s' := by
  obtain ⟨frame, below, at_⟩ := List.exists_cons_of_ne_nil busy
  cases frame with
  | region n =>
      obtain ⟨s', taken, -⟩ := kept.exits at_ false
      exact ⟨.exit false, s', trivial, taken⟩
  | flush n rest => cases rest <;> exact ⟨.next, _, trivial, by simp only [step, at_]; rfl⟩
  | running wake => exact ⟨.returns false, _, trivial, by simp only [step, at_]; rfl⟩

theorem Kept.allRun_inevitable (kept : Kept s) :
    machine.Inevitably Unwinds (AllRun s.appended) s := by
  refine Machine.inevitably_of_measure (fun r => Kept r ∧ r.appended = s.appended) State.size
    ?_ ?_ ⟨kept, rfl⟩
  · rintro r ⟨keptR, same⟩ notYet
    refine keptR.unwinds fun empty => notYet ?_
    exact same ▸ keptR.allRun empty
  · rintro r a r' ⟨keptR, same⟩ - unwinds taken
    have move := move_of_step taken
    obtain ⟨unchanged, less⟩ := size_of_unwinds move unwinds
    exact ⟨⟨kept_step keptR move, unchanged.trans same⟩, less⟩

/-- Whatever a wake does, the flush that has called it waits. -/
theorem flush_waits (move : Move s a s') {top bottom : List (Frame E H)}
    (at_ : s.stack = top ++ bottom) (called : top ≠ []) : ∃ top', s'.stack = top' ++ bottom := by
  obtain ⟨frame, above, rfl⟩ := List.exists_cons_of_ne_nil called
  have below_eq : ∀ {other : Frame E H} {below : List (Frame E H)},
      s.stack = other :: below → below = above ++ bottom := by
    intro other below isTop
    rw [at_] at isTop
    exact (List.cons.inj isTop).2.symm
  cases move with
  | enters => exact ⟨_ :: frame :: above, congrArg (List.cons _) at_⟩
  | wakes | schedules =>
      refine ⟨frame :: above, ?_⟩
      unfold State.complete
      split <;> exact at_
  | refused => exact ⟨_, at_⟩
  | inner isTop | ends isTop | returns isTop => exact ⟨above, below_eq isTop⟩
  | @outermost _ n below _ pending isTop =>
      obtain rfl := below_eq isTop
      exact ⟨.flush n pending :: above, rfl⟩
  | @calls n wake rest below isTop =>
      obtain rfl := below_eq isTop
      exact ⟨.running wake :: .flush n rest :: above, rfl⟩

/-- On a thread that enters and exits regions, completes and calls in any order:
what is appended in a region runs once each, in order and only after the exit of
the outermost region, whatever a wake raises or does; a completion outside of
every region is performed at once; an outermost exit leaves the thread deferring
nothing; and once the thread leaves what it is in, all that was appended runs. -/
theorem wakes_flushed_once (reached : machine.Reachable s) :
    Flushed s ∧
    (code s.stack = true →
      (∀ event, ∃ s', step s (.wake event) = some s' ∧ Performs s (.set event) s') ∧
      ∀ handle, ∃ s', step s (.callSoon handle false true) = some s' ∧
        Performs s (.callSoon handle) s') ∧
    (∀ n below raised, s.stack = .region n :: below →
      ∃ s', step s (.exit raised) = some s' ∧ Exits s n below s') ∧
    (∀ a s' top n rest below, step s a = some s' → top ≠ [] →
      s.stack = top ++ .flush n rest :: below →
        ∃ top', s'.stack = top' ++ .flush n rest :: below) ∧
    machine.Inevitably Unwinds (AllRun s.appended) s := by
  have kept := kept_of_reachable reached
  refine ⟨kept.allFlushed, fun runs => ⟨?_, ?_⟩, ?_, ?_, kept.allRun_inevitable⟩
  · intro event
    exact ⟨_, by simp only [step, runs, if_true], kept.performs _⟩
  · intro handle
    exact ⟨_, by simp [step, runs], kept.performs _⟩
  · intro n below raised at_
    exact kept.exits at_ raised
  · intro a s' top n rest below taken called at_
    exact flush_waits (move_of_step taken) at_ called

/-- A future and, in a nested region that is left by an exception, a handle; the
first wake raises after it has completed another future. -/
def nestedThenRaise : List (Act Nat Nat) :=
  [.enter, .wake 1, .enter, .callSoon 2 false true, .exit true, .exit true, .next, .wake 3,
    .returns true, .next, .returns false, .next]

theorem nestedThenRaise_ends :
    (machine.exec {} nestedThenRaise).any (fun s =>
      s.stack = [] ∧ s.appended 1 = [.set 1, .callSoon 2] ∧ s.woken = [.set 3] ∧
        s.printed = [.set 1]) = true := by
  decide +kernel

theorem wakes_flushed_after_raise :
    ∃ s : State Nat Nat, machine.Reachable s ∧ s.printed = [.set 1] ∧ s.woken = [.set 3] ∧
      s.ran 1 = [.set 1, .callSoon 2] ∧ s.tls = {} := by
  obtain ⟨s, reached, ends⟩ := Machine.Reachable.exists_of_exec rfl nestedThenRaise_ends
  obtain ⟨empty, appended, woken, printed⟩ := of_decide_eq_true ends
  have flushed := (wakes_flushed_once reached).1
  have ran := flushed.flushed 1 (by simp [empty]) (by simp [empty])
  exact ⟨s, reached, printed, woken, ran.trans appended, flushed.outside (by simp [empty])⟩

end MtAsyncio.DeferWakes
