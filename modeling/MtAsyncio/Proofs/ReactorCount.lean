/-
Module: MtAsyncio.Proofs.ReactorCount
Purpose: The count of the shared runtime is the number of loops that hold it,
  as long as no two calls act on the flag of one loop at the same time; and
  the runtime that the reactor started runs just while some loop holds it.
Trusted boundary: none
Main exports: OnePerLoop, Counted, counted_step, Driven, driven_step, Shared,
  reactor_counts_loops
-/
import MtAsyncio.Lib.Counting
import MtAsyncio.Model.Reactor

namespace MtAsyncio.Reactor

open Lib (Machine Exactly)

variable {L C : Type} [DecidableEq C] {s s' : State L C} {c : C} {l : L}

@[simp] theorem State.setCall_call (s : State L C) (c c' : C) (pc : CallPc L) :
    (s.setCall c pc).call c' = if c' = c then pc else s.call c' := by
  simp [setCall, Function.update_apply]

/-! ## The runtime -/

/-- The thread of the reactor runs while somebody holds the runtime, unless it
was driven elsewhere when the first one came. -/
structure Driven (s : State L C) : Prop where
  owned : s.ownsRun = s.thread
  held : s.thread = true → 0 < s.count
  driven : 0 < s.count → s.thread = true ∨ s.found = true

omit [DecidableEq C] in
theorem Driven.same (driven : Driven s) (owns : s'.ownsRun = s.ownsRun)
    (thread : s'.thread = s.thread) (count : s'.count = s.count) (found : s'.found = s.found) :
    Driven s' := by
  obtain ⟨owned, held, driven⟩ := driven
  refine ⟨?_, ?_, ?_⟩
  · rw [owns, thread, owned]
  · rw [thread, count]
    exact held
  · rw [thread, count, found]
    exact driven

omit [DecidableEq C] in
theorem Driven.acquired (driven : Driven s) (taken : s.acquired = some s') : Driven s' := by
  unfold State.acquired at taken
  split at taken
  · rename_i zero
    obtain ⟨middle, started, rfl⟩ := Option.map_eq_some_iff.mp taken
    have stopped : s.thread = false := by
      cases running : s.thread with
      | false => rfl
      | true => exact absurd (driven.held running) (by omega)
    unfold State.started at started
    split at started
    · cases started
    · split at started
      · obtain rfl := Option.some.inj started
        exact ⟨stopped.symm, fun running => absurd running (by simp [stopped]), fun _ => .inr rfl⟩
      · obtain rfl := Option.some.inj started
        exact ⟨rfl, fun _ => Nat.succ_pos _, fun _ => .inl rfl⟩
  · obtain rfl := Option.some.inj taken
    refine ⟨driven.owned, fun _ => Nat.succ_pos _, fun _ => driven.driven (by omega)⟩

omit [DecidableEq C] in
theorem Driven.released (driven : Driven s) : Driven s.released := by
  unfold State.released
  split
  · exact driven
  · rename_i some_
    split
    · rename_i last
      refine ⟨rfl, fun running => absurd running Bool.false_ne_true, fun held => ?_⟩
      exact absurd last.1 (Nat.ne_of_gt held)
    · rename_i notLast
      refine ⟨driven.owned, fun running => ?_, fun _ => driven.driven (by omega)⟩
      have owns : s.ownsRun = true := driven.owned.trans running
      exact Nat.pos_of_ne_zero fun zero => notLast ⟨zero, owns⟩

theorem driven_call [DecidableEq L] (driven : Driven s) (taken : callStep s c = some s') :
    Driven s' := by
  unfold callStep at taken
  cases stage : s.call c with
  | idle => simp [stage] at taken
  | acquire l kind =>
      simp only [stage] at taken
      cases result : s.acquired with
      | none =>
          simp only [result, Option.some.injEq] at taken
          exact taken ▸ driven.same rfl rfl rfl rfl
      | some middle =>
          simp only [result, Option.some.injEq] at taken
          exact taken ▸ (driven.acquired result).same rfl rfl rfl rfl
  | closeRelease l =>
      simp only [stage, Option.some.injEq] at taken
      exact taken ▸ driven.released.same rfl rfl rfl rfl
  | _ =>
      simp only [stage, Option.some.injEq] at taken
      exact taken ▸ driven.same rfl rfl rfl rfl

theorem driven_step [DecidableEq L] {a : Act L C} (driven : Driven s) (taken : step s a = some s') :
    Driven s' := by
  cases a with
  | call c => exact driven_call driven taken
  | undrive =>
      obtain rfl := Option.some.inj taken
      exact driven.same rfl rfl rfl rfl
  | ensure c l kind =>
      simp only [step] at taken
      split at taken
      · obtain rfl := Option.some.inj taken
        exact driven.same rfl rfl rfl rfl
      · cases taken
  | close c l =>
      simp only [step] at taken
      split at taken
      · obtain rfl := Option.some.inj taken
        exact driven.same rfl rfl rfl rfl
      · cases taken
  | drive =>
      simp only [step] at taken
      split at taken
      · cases taken
      · obtain rfl := Option.some.inj taken
        exact driven.same rfl rfl rfl rfl

/-! ## The count -/

/-- The loop that a call has acquired the runtime for and not noted it yet. -/
def CallPc.assigning : CallPc L → Option L
  | .assign l _ => some l
  | _ => none

/-- The call has raised the count and not noted it, or it has erased the note and
not lowered the count. -/
def CallPc.share : CallPc L → Bool
  | .assign .. | .closeRelease _ => true
  | _ => false

/-- Who has a share in the count. -/
def State.Holds (s : State L C) : L ⊕ C → Prop
  | .inl l => s.reactorAcquired l = true
  | .inr c => (s.call c).share = true

/-- No two calls act on the flag of one loop at the same time: a call acquires
the runtime for a loop that is open, whose flag is not set and for which no call
is between `acquire` and the assignment; `close` tests the flag while no call is
there either, and clears a flag that is still set. -/
def OnePerLoop (s : State L C) : Act L C → Prop
  | .call c => match s.call c with
      | .acquire l _ => s.reactorAcquired l = false ∧ s.closed l = false ∧
          ∀ c', (s.call c').assigning ≠ some l
      | .closeTest l => ∀ c', (s.call c').assigning ≠ some l
      | .closeClear l => s.reactorAcquired l = true
      | _ => True
  | _ => True

structure Counted (s : State L C) : Prop where
  exact_ : Exactly s.Holds s.count
  once : ∀ c c' l, (s.call c).assigning = some l → (s.call c').assigning = some l → c = c'
  fresh : ∀ c l, (s.call c).assigning = some l → s.reactorAcquired l = false
  late : ∀ c l, (s.call c).assigning = some l → s.closed l = true →
    ∃ c', s.call c' = .closeTest l
  shut : ∀ l, s.reactorAcquired l = true → s.closed l = true →
    ∃ c', s.call c' = .closeTest l ∨ s.call c' = .closeClear l

/-- Steps of a call that the count does not depend on. -/
def CallPc.plain : CallPc L → Bool
  | .assign .. | .closeTest _ | .closeClear _ | .closeRelease _ => false
  | _ => true

theorem CallPc.assigning_of_plain {pc : CallPc L} (plain : pc.plain = true) :
    pc.assigning = none := by
  cases pc <;> first | rfl | cases plain

theorem CallPc.share_of_plain {pc : CallPc L} (plain : pc.plain = true) : pc.share = false := by
  cases pc <;> first | rfl | cases plain

/-- A call without a share moves on without one. -/
theorem holds_of_share {pc : CallPc L} (old : (s.call c).share = false)
    (new : pc.share = false) (x : L ⊕ C) : (s.setCall c pc).Holds x ↔ s.Holds x := by
  cases x with
  | inl l => exact Iff.rfl
  | inr c' =>
      by_cases same : c' = c
      · subst same
        simp [State.Holds, old, new]
      · simp [State.Holds, same]

/-- A call goes from one plain step to another. -/
theorem Counted.plain {pc : CallPc L} (counted : Counted s) (old : (s.call c).plain = true)
    (new : pc.plain = true) : Counted (s.setCall c pc) := by
  have was := CallPc.assigning_of_plain old
  have is_ := CallPc.assigning_of_plain new
  have before : ∀ {c' l}, ((s.setCall c pc).call c').assigning = some l →
      (s.call c').assigning = some l := by
    intro c' l assigns
    by_cases same : c' = c
    · simp [same, is_] at assigns
    · simpa [same] using assigns
  have elsewhere : ∀ {c'}, (s.call c').plain = false → (s.setCall c pc).call c' = s.call c' := by
    intro c' special
    have other : c' ≠ c := by
      rintro rfl
      exact absurd (old.symm.trans special) (by decide)
    simp [other]
  have shares := holds_of_share (CallPc.share_of_plain old) (CallPc.share_of_plain new)
  refine ⟨counted.exact_.congr shares, ?_, ?_, ?_, ?_⟩
  · intro c₁ c₂ l one two
    exact counted.once c₁ c₂ l (before one) (before two)
  · intro c' l assigns
    exact counted.fresh c' l (before assigns)
  · intro c' l assigns closed
    obtain ⟨c₂, tests⟩ := counted.late c' l (before assigns) closed
    exact ⟨c₂, (elsewhere (by rw [tests]; rfl)).trans tests⟩
  · intro l flag closed
    obtain ⟨c₂, tests | clears⟩ := counted.shut l flag closed
    · exact ⟨c₂, .inl ((elsewhere (by rw [tests]; rfl)).trans tests)⟩
    · exact ⟨c₂, .inr ((elsewhere (by rw [clears]; rfl)).trans clears)⟩

omit [DecidableEq C] in
theorem State.acquired_eq (taken : s.acquired = some s') :
    s'.reactorAcquired = s.reactorAcquired ∧ s'.closed = s.closed ∧ s'.call = s.call ∧
      s'.count = s.count + 1 := by
  unfold State.acquired at taken
  split at taken
  · obtain ⟨middle, started, rfl⟩ := Option.map_eq_some_iff.mp taken
    unfold State.started at started
    split at started
    · cases started
    · split at started
      · obtain rfl := Option.some.inj started
        exact ⟨rfl, rfl, rfl, rfl⟩
      · obtain rfl := Option.some.inj started
        exact ⟨rfl, rfl, rfl, rfl⟩
  · obtain rfl := Option.some.inj taken
    exact ⟨rfl, rfl, rfl, rfl⟩

omit [DecidableEq C] in
theorem State.released_eq (s : State L C) :
    s.released.reactorAcquired = s.reactorAcquired ∧ s.released.closed = s.closed ∧
      s.released.call = s.call ∧ s.released.count = s.count - 1 := by
  unfold State.released
  split
  · rename_i zero
    exact ⟨rfl, rfl, rfl, by omega⟩
  · split
    · exact ⟨rfl, rfl, rfl, rfl⟩
    · exact ⟨rfl, rfl, rfl, rfl⟩

/-- The call that moves leaves the witnesses for other loops in their places. -/
theorem call_of_ne {pc old : CallPc L} {c' : C} (stage : s.call c' = old)
    (apart : s.call c ≠ old) : (s.setCall c pc).call c' = old := by
  have other : c' ≠ c := by
    rintro rfl
    exact apart stage
  simp [other, stage]

/-- A call that is not inside of `close` goes on. -/
theorem Counted.shut_setCall {pc : CallPc L} {l' : L} (counted : Counted s)
    (flags : s'.reactorAcquired = s.reactorAcquired) (closeds : s'.closed = s.closed)
    (calls : s'.call = s.call) (notTest : ∀ l', s.call c ≠ .closeTest l')
    (notClear : ∀ l', s.call c ≠ .closeClear l')
    (flag : (s'.setCall c pc).reactorAcquired l' = true)
    (closed : (s'.setCall c pc).closed l' = true) :
    ∃ c', (s'.setCall c pc).call c' = .closeTest l' ∨
      (s'.setCall c pc).call c' = .closeClear l' := by
  have wasSet : s.reactorAcquired l' = true := by
    rw [← flags]
    exact flag
  have wasClosed : s.closed l' = true := by
    rw [← closeds]
    exact closed
  obtain ⟨c₂, tests | clears⟩ := counted.shut l' wasSet wasClosed
  · exact ⟨c₂, .inl (call_of_ne (by rwa [calls]) (by rw [calls]; exact notTest l'))⟩
  · exact ⟨c₂, .inr (call_of_ne (by rwa [calls]) (by rw [calls]; exact notClear l'))⟩

theorem counted_acquire [DecidableEq L] {kind : Kind} (counted : Counted s)
    (stage : s.call c = .acquire l kind)
    (allowed : OnePerLoop s (.call c)) (taken : s.acquired = some s') :
    Counted (s'.setCall c (.assign l kind)) := by
  obtain ⟨flags, closeds, calls, count⟩ := State.acquired_eq taken
  simp only [OnePerLoop, stage] at allowed
  obtain ⟨unset, isOpen, alone⟩ := allowed
  have before : ∀ {c' l'}, c' ≠ c → ((s'.setCall c (.assign l kind)).call c').assigning = some l' →
      (s.call c').assigning = some l' := by
    intro c' l' other assigns
    simpa [other, calls] using assigns
  have own : ∀ {l'}, ((s'.setCall c (.assign l kind)).call c).assigning = some l' → l = l' := by
    intro l' assigns
    simpa [CallPc.assigning] using assigns
  refine ⟨?_, ?_, ?_, ?_, ?_⟩
  · show Exactly _ s'.count
    rw [count]
    refine counted.exact_.gain (a := .inr c) ?_ ?_
    · simp [State.Holds, stage, CallPc.share]
    · rintro (l' | c')
      · show s'.reactorAcquired l' = true ↔ _
        rw [flags]
        simp [State.Holds]
      · by_cases same : c' = c <;> simp [State.Holds, same, calls, CallPc.share]
  · intro c₁ c₂ l' one two
    by_cases first : c₁ = c
    · by_cases second : c₂ = c
      · exact first.trans second.symm
      · subst first
        exact absurd (before second two) (own one ▸ alone c₂)
    · by_cases second : c₂ = c
      · subst second
        exact absurd (before first one) (own two ▸ alone c₁)
      · exact counted.once c₁ c₂ l' (before first one) (before second two)
  · intro c' l' assigns
    show s'.reactorAcquired l' = false
    rw [flags]
    by_cases same : c' = c
    · subst same
      exact own assigns ▸ unset
    · exact counted.fresh c' l' (before same assigns)
  · intro c' l' assigns closed
    have wasClosed : s.closed l' = true := by
      rw [← closeds]
      exact closed
    by_cases same : c' = c
    · subst same
      exact absurd (own assigns ▸ isOpen) (by simp [wasClosed])
    · obtain ⟨c₂, tests⟩ := counted.late c' l' (before same assigns) wasClosed
      exact ⟨c₂, call_of_ne (by rwa [calls]) (by simp [calls, stage])⟩
  · intro l' flag closed
    exact counted.shut_setCall flags closeds calls (by simp [stage]) (by simp [stage]) flag closed

/-- What a call that stops assigning leaves of the others. -/
theorem assigning_of_setCall {pc : CallPc L} {c' : C} {l' : L} (none : pc.assigning = none)
    (assigns : ((s.setCall c pc).call c').assigning = some l') :
    c' ≠ c ∧ (s.call c').assigning = some l' := by
  by_cases same : c' = c
  · simp [same, none] at assigns
  · exact ⟨same, by simpa [same] using assigns⟩

theorem Kind.rest_plain (l : L) (kind : Kind) : (kind.rest l).plain = true := by
  cases kind <;> rfl

theorem counted_assign [DecidableEq L] {kind : Kind} (counted : Counted s)
    (stage : s.call c = .assign l kind) :
    Counted ({ s with reactorAcquired := Function.update s.reactorAcquired l true }.setCall c
      (kind.rest l)) := by
  have assigned : (s.call c).assigning = some l := by rw [stage]; rfl
  have has : s.Holds (.inr c) := by
    show (s.call c).share = true
    rw [stage]
    rfl
  have after := Kind.rest_plain l kind
  have unset := counted.fresh c l assigned
  have before : ∀ {c' l'}, (((({ s with
      reactorAcquired := Function.update s.reactorAcquired l true } : State L C).setCall c
        (kind.rest l)).call c').assigning = some l') →
      c' ≠ c ∧ (s.call c').assigning = some l' :=
    assigning_of_setCall (CallPc.assigning_of_plain after)
  refine ⟨counted.exact_.move (b := .inl l) has ?_ ?_, ?_, ?_, ?_, ?_⟩
  · simp [State.Holds, unset]
  · rintro (l' | c')
    · by_cases same : l' = l
      · subst same
        simp [State.Holds, State.setCall]
      · simp [State.Holds, State.setCall, same]
    · by_cases same : c' = c
      · subst same
        simp [State.Holds, CallPc.share_of_plain after]
      · simp [State.Holds, same]
  · intro c₁ c₂ l' one two
    exact counted.once c₁ c₂ l' (before one).2 (before two).2
  · intro c' l' assigns
    obtain ⟨other, was⟩ := before assigns
    have apart : l' ≠ l := by
      rintro rfl
      exact other (counted.once c' c l' was assigned)
    simpa [State.setCall, apart] using counted.fresh c' l' was
  · intro c' l' assigns closed
    obtain ⟨c₂, tests⟩ := counted.late c' l' (before assigns).2 closed
    exact ⟨c₂, call_of_ne (s := { s with reactorAcquired := _ }) tests (by simp [stage])⟩
  · intro l' flag closed
    by_cases same : l' = l
    · subst same
      obtain ⟨c₂, tests⟩ := counted.late c l' assigned closed
      exact ⟨c₂, .inl (call_of_ne (s := { s with reactorAcquired := _ }) tests (by simp [stage]))⟩
    · have wasSet : s.reactorAcquired l' = true := by simpa [State.setCall, same] using flag
      obtain ⟨c₂, tests | clears⟩ := counted.shut l' wasSet closed
      · exact ⟨c₂, .inl (call_of_ne (s := { s with reactorAcquired := _ }) tests
          (by simp [stage]))⟩
      · exact ⟨c₂, .inr (call_of_ne (s := { s with reactorAcquired := _ }) clears
          (by simp [stage]))⟩

theorem counted_closeSet [DecidableEq L] (counted : Counted s) (stage : s.call c = .closeSet l) :
    Counted ({ s with closed := Function.update s.closed l true }.setCall c (.closeTest l)) := by
  have before : ∀ {c' l'}, (((({ s with
      closed := Function.update s.closed l true } : State L C).setCall c
        (.closeTest l)).call c').assigning = some l') → (s.call c').assigning = some l' :=
    fun assigns => (assigning_of_setCall rfl assigns).2
  have silent : (s.call c).share = false := by rw [stage]; rfl
  refine ⟨counted.exact_.congr (holds_of_share silent rfl), ?_, ?_, ?_, ?_⟩
  · intro c₁ c₂ l' one two
    exact counted.once c₁ c₂ l' (before one) (before two)
  · intro c' l' assigns
    exact counted.fresh c' l' (before assigns)
  · intro c' l' assigns closed
    by_cases same : l' = l
    · exact ⟨c, by simp [same]⟩
    · have wasClosed : s.closed l' = true := by simpa [State.setCall, same] using closed
      obtain ⟨c₂, tests⟩ := counted.late c' l' (before assigns) wasClosed
      exact ⟨c₂, call_of_ne (s := { s with closed := _ }) tests (by simp [stage])⟩
  · intro l' flag closed
    by_cases same : l' = l
    · exact ⟨c, .inl (by simp [same])⟩
    · have wasClosed : s.closed l' = true := by simpa [State.setCall, same] using closed
      obtain ⟨c₂, tests | clears⟩ := counted.shut l' flag wasClosed
      · exact ⟨c₂, .inl (call_of_ne (s := { s with closed := _ }) tests (by simp [stage]))⟩
      · exact ⟨c₂, .inr (call_of_ne (s := { s with closed := _ }) clears (by simp [stage]))⟩

theorem counted_closeTest (counted : Counted s) (stage : s.call c = .closeTest l)
    (alone : ∀ c', (s.call c').assigning ≠ some l) :
    Counted (s.setCall c (if s.reactorAcquired l then .closeClear l else .idle)) := by
  have none : (if s.reactorAcquired l then CallPc.closeClear l else .idle).assigning = none := by
    split <;> rfl
  have share : (if s.reactorAcquired l then CallPc.closeClear l else .idle).share = false := by
    split <;> rfl
  refine ⟨counted.exact_.congr (holds_of_share (by rw [stage]; rfl) share), ?_, ?_, ?_, ?_⟩
  · intro c₁ c₂ l' one two
    exact counted.once c₁ c₂ l' (assigning_of_setCall none one).2 (assigning_of_setCall none two).2
  · intro c' l' assigns
    exact counted.fresh c' l' (assigning_of_setCall none assigns).2
  · intro c' l' assigns closed
    have was := (assigning_of_setCall none assigns).2
    obtain ⟨c₂, tests⟩ := counted.late c' l' was closed
    refine ⟨c₂, call_of_ne tests ?_⟩
    intro same
    have equal : l = l' := by simpa [stage] using same
    exact alone c' (equal ▸ was)
  · intro l' flag closed
    obtain ⟨c₂, tests | clears⟩ := counted.shut l' flag closed
    · by_cases same : c₂ = c
      · subst same
        obtain rfl : l = l' := by simpa [stage] using tests
        have wasSet : s.reactorAcquired l = true := flag
        exact ⟨c₂, .inr (by simp [wasSet])⟩
      · exact ⟨c₂, .inl (by simpa [same] using tests)⟩
    · exact ⟨c₂, .inr (call_of_ne clears (by simp [stage]))⟩

theorem counted_closeClear [DecidableEq L] (counted : Counted s) (stage : s.call c = .closeClear l)
    (isSet : s.reactorAcquired l = true) :
    Counted ({ s with reactorAcquired := Function.update s.reactorAcquired l false }.setCall c
      (.closeRelease l)) := by
  have before : ∀ {c' l'}, (((({ s with
      reactorAcquired := Function.update s.reactorAcquired l false } : State L C).setCall c
        (.closeRelease l)).call c').assigning = some l') → (s.call c').assigning = some l' :=
    fun assigns => (assigning_of_setCall rfl assigns).2
  have has : s.Holds (.inl l) := isSet
  refine ⟨counted.exact_.move (b := .inr c) has ?_ ?_, ?_, ?_, ?_, ?_⟩
  · simp [State.Holds, stage, CallPc.share]
  · rintro (l' | c')
    · by_cases same : l' = l <;> simp [State.Holds, State.setCall, same]
    · by_cases same : c' = c <;> simp [State.Holds, same, CallPc.share]
  · intro c₁ c₂ l' one two
    exact counted.once c₁ c₂ l' (before one) (before two)
  · intro c' l' assigns
    by_cases same : l' = l
    · simp [State.setCall, same]
    · simpa [State.setCall, same] using counted.fresh c' l' (before assigns)
  · intro c' l' assigns closed
    obtain ⟨c₂, tests⟩ := counted.late c' l' (before assigns) closed
    exact ⟨c₂, call_of_ne (s := { s with reactorAcquired := _ }) tests (by simp [stage])⟩
  · intro l' flag closed
    have other : l' ≠ l := by
      rintro rfl
      simp [State.setCall] at flag
    have wasSet : s.reactorAcquired l' = true := by simpa [State.setCall, other] using flag
    obtain ⟨c₂, tests | clears⟩ := counted.shut l' wasSet closed
    · exact ⟨c₂, .inl (call_of_ne (s := { s with reactorAcquired := _ }) tests (by simp [stage]))⟩
    · refine ⟨c₂, .inr (call_of_ne (s := { s with reactorAcquired := _ }) clears ?_)⟩
      simpa [stage] using other.symm

theorem counted_release [DecidableEq L] (counted : Counted s) (stage : s.call c = .closeRelease l) :
    Counted (s.released.setCall c .idle) := by
  obtain ⟨flags, closeds, calls, count⟩ := s.released_eq
  have before : ∀ {c' l'}, ((s.released.setCall c .idle).call c').assigning = some l' →
      (s.call c').assigning = some l' := by
    intro c' l' assigns
    exact calls ▸ (assigning_of_setCall rfl assigns).2
  have has : s.Holds (.inr c) := by
    show (s.call c).share = true
    rw [stage]
    rfl
  refine ⟨?_, ?_, ?_, ?_, ?_⟩
  · show Exactly _ s.released.count
    rw [count]
    refine counted.exact_.lose has ?_
    rintro (l' | c')
    · show s.released.reactorAcquired l' = true ↔ _
      rw [flags]
      simp [State.Holds]
    · by_cases same : c' = c <;> simp [State.Holds, same, calls, CallPc.share]
  · intro c₁ c₂ l' one two
    exact counted.once c₁ c₂ l' (before one) (before two)
  · intro c' l' assigns
    show s.released.reactorAcquired l' = false
    rw [flags]
    exact counted.fresh c' l' (before assigns)
  · intro c' l' assigns closed
    have wasClosed : s.closed l' = true := by
      rw [← closeds]
      exact closed
    obtain ⟨c₂, tests⟩ := counted.late c' l' (before assigns) wasClosed
    exact ⟨c₂, call_of_ne (by rwa [calls]) (by simp [calls, stage])⟩
  · intro l' flag closed
    exact counted.shut_setCall flags closeds calls (by simp [stage]) (by simp [stage]) flag closed

omit [DecidableEq C] in
/-- Only the fields of the accounts are looked at. -/
theorem Counted.same (counted : Counted s) (flags : s'.reactorAcquired = s.reactorAcquired)
    (closeds : s'.closed = s.closed) (calls : s'.call = s.call) (count : s'.count = s.count) :
    Counted s' := by
  obtain ⟨exact_, once, fresh, late, shut⟩ := counted
  refine ⟨?_, ?_, ?_, ?_, ?_⟩
  · rw [count]
    refine exact_.congr ?_
    rintro (l | c)
    · simp [State.Holds, flags]
    · simp [State.Holds, calls]
  · rw [calls]
    exact once
  · rw [calls, flags]
    exact fresh
  · rw [calls, closeds]
    exact late
  · rw [calls, flags, closeds]
    exact shut

theorem counted_call [DecidableEq L] (counted : Counted s) (allowed : OnePerLoop s (.call c))
    (taken : callStep s c = some s') : Counted s' := by
  unfold callStep at taken
  cases stage : s.call c with
  | idle => simp [stage] at taken
  | checkClosed l kind =>
      simp only [stage, Option.some.injEq] at taken
      refine taken ▸ counted.plain (by rw [stage]; rfl) ?_
      split <;> rfl
  | test l kind =>
      simp only [stage, Option.some.injEq] at taken
      refine taken ▸ counted.plain (by rw [stage]; rfl) ?_
      split
      · exact Kind.rest_plain l kind
      · rfl
  | acquire l kind =>
      simp only [stage] at taken
      cases result : s.acquired with
      | none =>
          simp only [result, Option.some.injEq] at taken
          exact taken ▸ counted.plain (by rw [stage]; rfl) rfl
      | some middle =>
          simp only [result, Option.some.injEq] at taken
          exact taken ▸ counted_acquire counted stage allowed result
  | assign l kind =>
      simp only [stage, Option.some.injEq] at taken
      exact taken ▸ counted_assign counted stage
  | setRunning l =>
      simp only [stage, Option.some.injEq] at taken
      exact taken ▸ (counted.plain (by rw [stage]; rfl) rfl).same rfl rfl rfl rfl
  | waiting l =>
      simp only [stage, Option.some.injEq] at taken
      exact taken ▸ (counted.plain (by rw [stage]; rfl) rfl).same rfl rfl rfl rfl
  | closeRunning l =>
      simp only [stage, Option.some.injEq] at taken
      refine taken ▸ counted.plain (by rw [stage]; rfl) ?_
      split <;> rfl
  | closeClosed l =>
      simp only [stage, Option.some.injEq] at taken
      refine taken ▸ counted.plain (by rw [stage]; rfl) ?_
      split <;> rfl
  | closeSet l =>
      simp only [stage, Option.some.injEq] at taken
      exact taken ▸ counted_closeSet counted stage
  | closeTest l =>
      simp only [stage, Option.some.injEq] at taken
      simp only [OnePerLoop, stage] at allowed
      exact taken ▸ counted_closeTest counted stage allowed
  | closeClear l =>
      simp only [stage, Option.some.injEq] at taken
      simp only [OnePerLoop, stage] at allowed
      exact taken ▸ counted_closeClear counted stage allowed
  | closeRelease l =>
      simp only [stage, Option.some.injEq] at taken
      exact taken ▸ counted_release counted stage

theorem counted_step [DecidableEq L] {a : Act L C} (counted : Counted s) (allowed : OnePerLoop s a)
    (taken : step s a = some s') : Counted s' := by
  cases a with
  | ensure c l kind =>
      simp only [step] at taken
      split at taken
      · rename_i idle
        obtain rfl := Option.some.inj taken
        exact counted.plain (by rw [idle]; rfl) rfl
      · cases taken
  | close c l =>
      simp only [step] at taken
      split at taken
      · rename_i idle
        obtain rfl := Option.some.inj taken
        exact counted.plain (by rw [idle]; rfl) rfl
      · cases taken
  | call c => exact counted_call counted allowed taken
  | drive =>
      simp only [step] at taken
      split at taken
      · cases taken
      · obtain rfl := Option.some.inj taken
        exact counted.same rfl rfl rfl rfl
  | undrive =>
      obtain rfl := Option.some.inj taken
      exact counted.same rfl rfl rfl rfl

/-! ## Runs -/

theorem driven_of_reachable [DecidableEq L] (reached : (machine L C).Reachable s) : Driven s := by
  refine reached.invariant Driven ?_ ?_
  · rintro s ⟨-, -, -, zero, owns, stopped, -⟩
    refine ⟨owns.trans stopped.symm, ?_, ?_⟩
    · intro running
      simp [stopped] at running
    · intro held
      omega
  · intro s a s' driven _ taken
    exact driven_step driven taken

theorem counted_of_reach [DecidableEq L] (reached : (machine L C).Reach OnePerLoop s) :
    Counted s := by
  refine reached.invariant Counted ?_ ?_
  · rintro s ⟨flags, closeds, -, zero, -, -, idle⟩
    have no : ∀ c, (s.call c).assigning = none := by
      intro c
      rw [idle c]
      rfl
    refine ⟨zero ▸ .none ?_, ?_, ?_, ?_, ?_⟩
    · rintro (l | c)
      · simp [State.Holds, flags]
      · simp [State.Holds, idle, CallPc.share]
    · intro c c' l assigns
      simp [no] at assigns
    · intro c l _
      exact flags l
    · intro c l assigns
      simp [no] at assigns
    · intro l flag
      simp [flags] at flag
  · intro s a s' counted allowed taken
    exact counted_step counted allowed taken

/-- The count is the number of the loops that hold the runtime.  These are open;
the runtime that the reactor started runs while there is one and is stopped when
there is none. -/
structure Shared (s : State L C) : Prop where
  counted : Exactly (fun l => s.reactorAcquired l = true) s.count
  isOpen : ∀ l, s.reactorAcquired l = true → s.closed l = false
  runs : ∀ l, s.reactorAcquired l = true → s.thread = true ∨ s.found = true
  stops : (∀ l, s.reactorAcquired l = false) → s.thread = false

/-- In the runs where no two calls act on the flag of one loop at the same time,
the runtime is counted once for each loop whenever no call is between the test of
a flag and its assignment, nor inside of `close`. -/
theorem reactor_counts_loops [DecidableEq L] (reached : (machine L C).Reach OnePerLoop s)
    (quiet : ∀ c, (s.call c).plain = true) : Shared s := by
  have driven := driven_of_reachable reached.reachable
  obtain ⟨exact_, -, -, -, shut⟩ := counted_of_reach reached
  have counted : Exactly (fun l => s.reactorAcquired l = true) s.count := by
    refine exact_.left ?_
    intro c shares
    have share : (s.call c).share = true := shares
    simp [CallPc.share_of_plain (quiet c)] at share
  refine ⟨counted, ?_, ?_, ?_⟩
  · intro l flag
    by_contra closed
    obtain ⟨c, tests | clears⟩ := shut l flag (by simpa using closed)
    · exact absurd (quiet c) (by simp [tests, CallPc.plain])
    · exact absurd (quiet c) (by simp [clears, CallPc.plain])
  · intro l flag
    exact driven.driven (counted.pos flag)
  · intro none
    cases running : s.thread with
    | false => rfl
    | true =>
        obtain ⟨those, members, size⟩ := counted
        have held := driven.held running
        obtain ⟨l, member⟩ := Finset.card_pos.mp (size ▸ held)
        exact absurd ((members l).mp member) (by simp [none])

/-! Two threads use a fresh loop.  One of them closes it in the end. -/

def freshReactor : State Unit Bool where
  reactorAcquired _ := false
  closed _ := false
  running _ := false
  count := 0
  ownsRun := false
  thread := false
  elsewhere := false
  noContext := false
  call _ := .idle
  found := false

theorem freshReactor_start : (machine Unit Bool).start freshReactor := by
  refine ⟨?_, ?_, ?_, rfl, rfl, rfl, ?_⟩ <;> intro _ <;> rfl

/-- Thread `c` makes a call and runs it to its end. -/
def wholeCall (c : Bool) : List (Act Unit Bool) :=
  .ensure c () .schedule :: List.replicate 4 (.call c)

def wholeClose (c : Bool) : List (Act Unit Bool) :=
  .close c () :: List.replicate 6 (.call c)

/-- `OnePerLoop`, decided. -/
def onePerLoopOk (s : State Unit Bool) : Act Unit Bool → Bool
  | .call c => match s.call c with
      | .acquire l _ => !s.reactorAcquired l && !s.closed l &&
          (s.call true).assigning = none && (s.call false).assigning = none
      | .closeTest _ => (s.call true).assigning = none && (s.call false).assigning = none
      | .closeClear l => s.reactorAcquired l
      | _ => true
  | _ => true

theorem onePerLoopOk_sound (s : State Unit Bool) (a : Act Unit Bool)
    (ok : onePerLoopOk s a = true) : OnePerLoop s a := by
  cases a with
  | call c =>
      have none : ∀ l, (s.call true).assigning = none → (s.call false).assigning = none →
          ∀ c', (s.call c').assigning ≠ some l := by
        intro l one two c'
        cases c' with
        | true => simp [one]
        | false => simp [two]
      cases stage : s.call c with
      | acquire l kind =>
          simp only [onePerLoopOk, stage, Bool.and_eq_true, Bool.not_eq_true',
            decide_eq_true_eq] at ok
          obtain ⟨⟨⟨unset, isOpen⟩, one⟩, two⟩ := ok
          simp only [OnePerLoop, stage]
          exact ⟨unset, isOpen, none l one two⟩
      | closeTest l =>
          simp only [onePerLoopOk, stage, Bool.and_eq_true, decide_eq_true_eq] at ok
          simp only [OnePerLoop, stage]
          exact none l ok.1 ok.2
      | closeClear l =>
          simp only [onePerLoopOk, stage] at ok
          simp only [OnePerLoop, stage]
          exact ok
      | _ => simp [OnePerLoop, stage]
  | _ => trivial

theorem sharedRun_ends :
    ((machine Unit Bool).execIf onePerLoopOk freshReactor
      (wholeCall false ++ [.ensure true () .schedule, .call true, .call true])).any
      (fun s => s.call true = .idle ∧ s.call false = .idle ∧ s.reactorAcquired () ∧
        s.thread) = true := by
  decide +kernel

theorem reactor_counts_loops_shared :
    ∃ s : State Unit Bool, (machine Unit Bool).Reach OnePerLoop s ∧ Shared s ∧
      s.reactorAcquired () = true ∧ s.thread = true := by
  obtain ⟨s, reached, holds⟩ :=
    Machine.Reach.exists_of_execIf onePerLoopOk_sound freshReactor_start sharedRun_ends
  simp only [decide_eq_true_eq] at holds
  obtain ⟨one, two, flag, running⟩ := holds
  refine ⟨s, reached, reactor_counts_loops reached ?_, flag, running⟩
  intro c
  cases c with
  | true => rw [one]; rfl
  | false => rw [two]; rfl

theorem leakedRun_ends :
    ((machine Unit Bool).exec freshReactor
      ([.ensure false () .schedule, .ensure true () .schedule, .call false, .call true,
        .call false, .call true, .call false, .call true, .call false, .call true] ++
        wholeClose false)).any
      (fun s => s.call true = .idle ∧ s.call false = .idle ∧ s.reactorAcquired () = false ∧
        s.closed () ∧ s.count = 1 ∧ s.thread) = true := by
  decide +kernel

/-- Two threads that use a fresh loop both acquire the runtime; after the loop is
closed one reference is left and the runtime is not stopped. -/
theorem not_counts_loops :
    ¬∀ s : State Unit Bool, (machine Unit Bool).Reachable s → (∀ c, s.call c = .idle) →
      Exactly (fun l => s.reactorAcquired l = true) s.count := by
  intro counts
  obtain ⟨s, reached, holds⟩ :=
    Machine.Reachable.exists_of_exec freshReactor_start leakedRun_ends
  simp only [decide_eq_true_eq] at holds
  obtain ⟨one, two, flag, -, count, -⟩ := holds
  have idle : ∀ c, s.call c = .idle := by
    intro c
    cases c with
    | true => exact one
    | false => exact two
  obtain ⟨those, members, size⟩ := counts s reached idle
  have some_ : 0 < those.card := by omega
  obtain ⟨l, member⟩ := Finset.card_pos.mp some_
  have isSet : s.reactorAcquired () = true := (members l).mp member
  simp [flag] at isSet

end MtAsyncio.Reactor
