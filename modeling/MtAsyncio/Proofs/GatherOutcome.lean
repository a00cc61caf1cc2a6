/-
Module: MtAsyncio.Proofs.GatherOutcome
Purpose: The outcome of `gather` is a function of the order in which the
  callbacks ran: the exception of the first failing child, or all results once
  all callbacks have run; `outer` is completed once, whatever the workers do.
Trusted boundary: none
Main exports: firstFailure, replay, Verdict, replay_verdict, State.board, Ordered,
  ordered_of_reachable, Uncancelled, Delivers, gather_delivers
-/
import MtAsyncio.Model.Gather

namespace MtAsyncio.Gather

open Lib (Board Callbacks Machine)

variable {F V X : Type} {children : List F} {returnExceptions : Bool} {n : Nat}
variable {s s' : State F V X} {order : List (Nat × Outcome V X)} {c : Closure V X}
variable {i : Nat} {o : Outcome V X} {e : Error X}

/-! ## The callbacks by themselves -/

/-- The exception of the first failing child, in the order of the callbacks. -/
def firstFailure (returnExceptions : Bool) (order : List (Nat × Outcome V X)) :
    Option (Error X) :=
  if returnExceptions then none else order.findSome? fun ran => ran.2.exc

/-- What the callbacks make of the closure, one after the other. -/
def replay (returnExceptions : Bool) (n : Nat) (order : List (Nat × Outcome V X)) : Closure V X :=
  order.foldl (fun c ran => childDone returnExceptions c ran.1 ran.2) (.start n)

/-- What the closure says about the callbacks that ran. -/
structure Verdict (returnExceptions : Bool) (n : Nat) (order : List (Nat × Outcome V X))
    (c : Closure V X) : Prop where
  failed : ∀ e, firstFailure returnExceptions order = some e →
    c.settled = true ∧ c.outer = .failed e ∧ c.completions = 1
  filled : firstFailure returnExceptions order = none →
    c.remaining = n - order.length ∧ c.results.length = n ∧
      ∀ i o, (i, o) ∈ order → c.results[i]? = some (some o.entry)
  waits : firstFailure returnExceptions order = none → order.length < n →
    c.settled = false ∧ c.outer = .pending ∧ c.completions = 0
  full : firstFailure returnExceptions order = none → order.length = n →
    c.settled = true ∧ c.outer = .result c.results ∧ c.completions = 1

theorem firstFailure_append :
    firstFailure returnExceptions (order ++ [(i, o)]) =
      (firstFailure returnExceptions order).or (if returnExceptions then none else o.exc) := by
  unfold firstFailure
  split
  · rfl
  · rw [List.findSome?_append]
    congr 1
    cases exc : o.exc <;> simp [exc]

theorem childDone_settled (settled : c.settled = true) : childDone returnExceptions c i o = c :=
  if_pos settled

/-- A failing child settles the outcome. -/
theorem childDone_fails (live : c.settled = false) (exc : o.exc = some e)
    (pending : c.outer = .pending) :
    childDone false c i o =
      { c with settled := true, outer := .failed e, completions := c.completions + 1 } := by
  unfold childDone
  rw [if_neg (by rw [live]; decide), exc]
  simp [Closure.complete, pending, Outer.done]

/-- A child whose outcome goes into the results. -/
theorem childDone_fills (live : c.settled = false)
    (counts : (if returnExceptions then none else o.exc) = none) (pending : c.outer = .pending) :
    childDone returnExceptions c i o =
      if c.remaining - 1 = 0 then
        { c.fill i o.entry with
          settled := true
          outer := .result (c.fill i o.entry).results
          completions := c.completions + 1 }
      else c.fill i o.entry := by
  unfold childDone
  rw [if_neg (by rw [live]; decide)]
  cases returnExceptions with
  | true => cases o.exc <;> simp [Closure.complete, pending, Outer.done, Closure.fill]
  | false =>
      simp only [Bool.false_eq_true, if_false] at counts
      rw [counts]
      simp [Closure.complete, pending, Outer.done, Closure.fill]

/-- A callback that finds the outcome settled, or a child that failed, changes
nothing that matters. -/
theorem verdict_fails (verdict : Verdict returnExceptions n order c)
    (failure : firstFailure returnExceptions order = some e) :
    Verdict returnExceptions n (order ++ [(i, o)]) (childDone returnExceptions c i o) := by
  have settled := (verdict.failed e failure).1
  rw [childDone_settled settled]
  have same : firstFailure returnExceptions (order ++ [(i, o)]) = some e := by
    rw [firstFailure_append, failure]
    rfl
  refine ⟨?_, ?_, ?_, ?_⟩
  · intro e' first
    rw [same] at first
    exact Option.some.inj first ▸ verdict.failed e failure
  all_goals
    rw [same]
    rintro ⟨⟩

/-- The first child that fails. -/
theorem verdict_first (verdict : Verdict false n order c)
    (calm : firstFailure false order = none) (room : order.length < n) (exc : o.exc = some e) :
    Verdict false n (order ++ [(i, o)]) (childDone false c i o) := by
  obtain ⟨live, pending, none⟩ := verdict.waits calm room
  rw [childDone_fails live exc pending]
  have first : firstFailure false (order ++ [(i, o)]) = some e := by
    rw [firstFailure_append, calm]
    exact exc
  refine ⟨?_, ?_, ?_, ?_⟩
  · intro e' isFirst
    rw [first] at isFirst
    cases isFirst
    exact ⟨rfl, rfl, by rw [none]⟩
  all_goals
    rw [first]
    rintro ⟨⟩

/-- A child whose outcome is one of the results. -/
theorem verdict_fills (verdict : Verdict returnExceptions n order c)
    (calm : firstFailure returnExceptions order = none) (room : order.length < n) (bound : i < n)
    (new : i ∉ order.map Prod.fst) (counts : (if returnExceptions then none else o.exc) = none) :
    Verdict returnExceptions n (order ++ [(i, o)]) (childDone returnExceptions c i o) := by
  obtain ⟨live, pending, none⟩ := verdict.waits calm room
  obtain ⟨remaining, length, results⟩ := verdict.filled calm
  have still : firstFailure returnExceptions (order ++ [(i, o)]) = Option.none := by
    rw [firstFailure_append, calm]
    exact counts
  have size : (order ++ [(i, o)]).length = order.length + 1 := by simp
  rw [childDone_fills live counts pending]
  have filled : ∀ j o', (j, o') ∈ order ++ [(i, o)] →
      (c.fill i o.entry).results[j]? = some (some o'.entry) := by
    intro j o' member
    simp only [Closure.fill, List.getElem?_set]
    obtain member | last := List.mem_append.mp member
    · have other : i ≠ j := by
        rintro rfl
        exact new (List.mem_map.mpr ⟨_, member, rfl⟩)
      rw [if_neg other]
      exact results j o' member
    · cases List.mem_singleton.mp last
      rw [if_pos rfl, length, if_pos bound]
  have left : (c.fill i o.entry).remaining = n - (order ++ [(i, o)]).length := by
    rw [size]
    simp only [Closure.fill, remaining]
    omega
  have kept : (c.fill i o.entry).results.length = n := by
    simp [Closure.fill, length]
  split
  · rename_i last
    refine ⟨?_, fun _ => ⟨left, kept, filled⟩, ?_, ?_⟩
    · rw [still]
      rintro e ⟨⟩
    · intro _ short
      rw [size] at short
      omega
    · intro _ _
      exact ⟨rfl, rfl, by rw [none]⟩
  · rename_i more
    refine ⟨?_, fun _ => ⟨left, kept, filled⟩, ?_, ?_⟩
    · rw [still]
      rintro e ⟨⟩
    · intro _ _
      exact ⟨live, pending, none⟩
    · intro _ full
      rw [size] at full
      omega

theorem replay_verdict (some_ : 0 < n) (callbacks : Callbacks n order) :
    Verdict returnExceptions n order (replay returnExceptions n order) := by
  induction order using List.reverseRecOn with
  | nil =>
      have calm : firstFailure returnExceptions ([] : List (Nat × Outcome V X)) = none := by
        unfold firstFailure
        split <;> rfl
      refine ⟨?_, ?_, fun _ _ => ⟨rfl, rfl, rfl⟩, ?_⟩
      · rw [calm]
        rintro e ⟨⟩
      · intro _
        simp [replay, Closure.start]
      · intro _ full
        simp only [List.length_nil] at full
        omega
  | append_singleton order ran inductionHypothesis =>
      obtain ⟨i, o⟩ := ran
      obtain ⟨older, new, bound, room⟩ := callbacks.init
      have verdict := inductionHypothesis older
      have last : replay returnExceptions n (order ++ [(i, o)]) =
          childDone returnExceptions (replay returnExceptions n order) i o := by
        simp [replay]
      rw [last]
      cases calm : firstFailure returnExceptions order with
      | some e => exact verdict_fails verdict calm
      | none =>
          cases returnExceptions with
          | true => exact verdict_fills verdict calm room bound new rfl
          | false =>
              cases exc : o.exc with
              | some e => exact verdict_first verdict calm room exc
              | none => exact verdict_fills verdict calm room bound new exc

/-! ## The callbacks of a run -/

/-- How many children the loop has attached a callback to. -/
def ParentPc.registered (n : Nat) : ParentPc V X → Nat
  | .registering index => index
  | _ => n

/-- The children and their callbacks. -/
abbrev State.board (s : State F V X) : Board F (Outcome V X) where
  status := s.status
  phase := s.phase
  order := s.order

/-- Child `i` is done with outcome `o`. -/
abbrev Ended (children : List F) (s : State F V X) (i : Nat) (o : Outcome V X) : Prop :=
  s.board.Ended children i o

/-- Each callback is attached once, scheduled when its child is done, and run
once; nobody takes one back. -/
structure Ordered (children : List F) (s : State F V X) : Prop
    extends Board.Ordered children (s.parent.registered children.length) s.board where
  filled : s.board.Filled (s.parent.registered children.length)

/-- The steps of `gather` that attach nothing. -/
theorem Ordered.goes (ordered : Ordered children s) (board : s'.board = s.board)
    (registered : s'.parent.registered children.length = s.parent.registered children.length) :
    Ordered children s' := by
  refine ⟨?_, ?_⟩
  · rw [board, registered]
    exact ordered.toOrdered
  · rw [board, registered]
    exact ordered.filled

/-- The loop attaches a callback, or schedules it at once. -/
theorem ordered_attach {index : Nat} {child : F} (ordered : Ordered children s)
    (at_ : s.parent = .registering index) (here : children[index]? = some child) :
    Ordered children { s with
      phase := Function.update s.phase index
        (if (s.status child).isSome then .scheduled else .attached)
      parent := .registering (index + 1) } := by
  have registered : s.parent.registered children.length = index := by rw [at_]; rfl
  have board := ordered.toOrdered
  have filled := ordered.filled
  rw [registered] at board filled
  exact ⟨board.attach here, filled.attach⟩

theorem Outer.read_registered (outer : Outer V X) : outer.read.registered n = n := by
  cases outer with
  | failed e => cases e <;> rfl
  | _ => rfl

theorem ordered_parent (ordered : Ordered children s) (taken : parentStep children s = some s') :
    Ordered children s' := by
  unfold parentStep at taken
  cases at_ : s.parent with
  | registering index =>
      simp only [at_] at taken
      split at taken
      · rename_i here
        obtain rfl := Option.some.inj taken
        exact ordered_attach ordered at_ here
      · rename_i past
        obtain rfl := Option.some.inj taken
        refine ordered.goes rfl ?_
        have within := ordered.within
        rw [at_] at within ⊢
        exact Nat.le_antisymm (List.getElem?_eq_none_iff.mp past) within
  | awaiting =>
      simp only [at_] at taken
      split at taken
      · obtain rfl := Option.some.inj taken
        exact ordered.goes rfl (by rw [at_]; rfl)
      · obtain rfl := Option.some.inj taken
        refine ordered.goes rfl ?_
        rw [at_]
        exact Outer.read_registered _
  | parked =>
      simp only [at_] at taken
      split at taken
      · obtain rfl := Option.some.inj taken
        refine ordered.goes rfl ?_
        rw [at_]
        exact Outer.read_registered _
      · cases taken
  | cancelling index =>
      simp only [at_] at taken
      split at taken
      · obtain rfl := Option.some.inj taken
        exact ordered.goes rfl (by rw [at_]; rfl)
      · obtain rfl := Option.some.inj taken
        exact ordered.goes rfl (by rw [at_]; rfl)
  | returned | raised => simp [at_] at taken

theorem ordered_cancel (ordered : Ordered children s) : Ordered children s.cancel := by
  unfold State.cancel
  split
  · exact ordered
  · exact ordered
  · split
    · exact ordered.goes rfl rfl
    · exact ordered.goes rfl rfl
  · exact ordered.goes rfl rfl

theorem ordered_step [DecidableEq F] {a : Act F V X} (ordered : Ordered children s)
    (taken : step children returnExceptions s a = some s') : Ordered children s' := by
  cases a with
  | complete f o =>
      simp only [step] at taken
      split at taken
      · cases taken
      · rename_i live
        obtain rfl := Option.some.inj taken
        have pending : s.status f = none := by simpa using live
        exact ⟨ordered.toOrdered.finish pending, ordered.filled.finish⟩
  | run i =>
      simp only [step] at taken
      split at taken
      · rename_i scheduled
        obtain ⟨o, ended, rfl⟩ := Option.map_eq_some_iff.mp taken
        have seen : Ended children s i o := Option.bind_eq_some_iff.mp ended
        exact ⟨ordered.toOrdered.run scheduled seen, ordered.filled.run⟩
      · cases taken
  | parent => exact ordered_parent ordered taken
  | cancel =>
      obtain rfl := Option.some.inj taken
      exact ordered_cancel ordered

theorem ordered_of_reachable [DecidableEq F]
    (reached : (machine children returnExceptions V X).Reachable s) : Ordered children s := by
  refine Machine.Reach.invariant (Ordered children) ?_ ?_ reached
  · rintro s ⟨phase, -, parent, -, order, -⟩
    have registered : s.parent.registered children.length = 0 := by rw [parent]; rfl
    refine ⟨?_, ?_⟩
    · rw [registered]
      exact .start phase order
    · rw [registered]
      exact fun i below => absurd below (Nat.not_lt_zero i)
  · intro s a s' ordered _ taken
    exact ordered_step ordered taken

/-! ## The outcome -/

/-- Nobody cancels the task that is in `gather`. -/
def Uncancelled (_ : State F V X) (a : Act F V X) : Prop :=
  a ≠ .cancel

/-- What `gather` has made of the callbacks that ran. -/
structure Settled (children : List F) (returnExceptions : Bool) (s : State F V X) : Prop where
  closure : s.closure = replay returnExceptions children.length s.order
  uncancelled : s.mustCancel = false
  unbroken : s.closure.outer ≠ .cancelled
  returned : ∀ results, s.parent = .returned results → s.closure.outer = .result results
  raised : ∀ e, s.parent = .raised e → s.closure.outer = .failed e
  cancels : ∀ index, s.parent = .cancelling index → s.closure.outer = .failed .cancelledError

theorem Verdict.unbroken (verdict : Verdict returnExceptions n order c)
    (callbacks : Callbacks n order) : c.outer ≠ .cancelled := by
  cases first : firstFailure returnExceptions order with
  | some e =>
      rw [(verdict.failed e first).2.1]
      rintro ⟨⟩
  | none =>
      obtain short | full := Nat.lt_or_eq_of_le callbacks.length_le
      · rw [(verdict.waits first short).2.1]
        rintro ⟨⟩
      · rw [(verdict.full first full).2.1]
        rintro ⟨⟩

/-- A completed `outer` stays as it is. -/
theorem childDone_outer (done : c.outer.done = true) :
    (childDone returnExceptions c i o).outer = c.outer := by
  unfold childDone Closure.complete
  split
  · rfl
  · split
    · simp
    · split
      · simp [Closure.fill, done]
      · rfl

theorem settled_read (settled : Settled children returnExceptions s)
    (parent : s'.parent = s.closure.outer.read) (closure : s'.closure = s.closure)
    (order : s'.order = s.order) (uncancelled : s'.mustCancel = false) :
    Settled children returnExceptions s' := by
  have read : ∀ outer : Outer V X, outer ≠ .cancelled →
      (∀ results, outer.read = .returned results → outer = .result results) ∧
        (∀ e, outer.read = .raised e → outer = .failed e) ∧
          ∀ index, outer.read = .cancelling index → outer = .failed .cancelledError := by
    intro outer unbroken
    cases outer with
    | pending | result => simp [Outer.read]
    | failed e => cases e <;> simp [Outer.read]
    | cancelled => exact absurd rfl unbroken
  obtain ⟨returned, raised, cancels⟩ := read s.closure.outer settled.unbroken
  refine ⟨?_, uncancelled, ?_, ?_, ?_, ?_⟩
  · rw [closure, order]
    exact settled.closure
  · rw [closure]
    exact settled.unbroken
  all_goals rw [parent, closure]
  · exact returned
  · exact raised
  · exact cancels

theorem settled_parent (settled : Settled children returnExceptions s)
    (taken : parentStep children s = some s') : Settled children returnExceptions s' := by
  obtain ⟨closure, uncancelled, unbroken, returned, raised, cancels⟩ := settled
  unfold parentStep at taken
  cases at_ : s.parent with
  | registering index =>
      simp only [at_] at taken
      split at taken <;> obtain rfl := Option.some.inj taken <;>
        exact ⟨closure, uncancelled, unbroken, by rintro _ ⟨⟩, by rintro _ ⟨⟩, by rintro _ ⟨⟩⟩
  | awaiting =>
      simp only [at_, uncancelled] at taken
      obtain rfl := Option.some.inj taken
      exact settled_read ⟨closure, uncancelled, unbroken, returned, raised, cancels⟩ rfl rfl rfl
        rfl
  | parked =>
      simp only [at_] at taken
      split at taken
      · obtain rfl := Option.some.inj taken
        exact settled_read ⟨closure, uncancelled, unbroken, returned, raised, cancels⟩ rfl rfl rfl
          uncancelled
      · cases taken
  | cancelling index =>
      have outer := cancels index at_
      simp only [at_] at taken
      split at taken
      · obtain rfl := Option.some.inj taken
        exact ⟨closure, uncancelled, unbroken, by rintro _ ⟨⟩, by rintro _ ⟨⟩, fun _ _ => outer⟩
      · obtain rfl := Option.some.inj taken
        refine ⟨closure, uncancelled, unbroken, by rintro _ ⟨⟩, ?_, by rintro _ ⟨⟩⟩
        rintro e ⟨⟩
        exact outer
  | returned | raised => simp [at_] at taken

theorem settled_ran (some_ : 0 < children.length) (settled : Settled children returnExceptions s)
    (ordered : Ordered children (s.ran returnExceptions i o)) :
    Settled children returnExceptions (s.ran returnExceptions i o) := by
  have closure : (s.ran returnExceptions i o).closure =
      replay returnExceptions children.length (s.ran returnExceptions i o).order := by
    show childDone returnExceptions s.closure i o = _
    rw [settled.closure]
    simp [replay, State.ran]
  have kept : s.closure.outer.done = true →
      (s.ran returnExceptions i o).closure.outer = s.closure.outer := childDone_outer
  have done : ∀ {outer}, s.closure.outer = outer → outer.done = true →
      (s.ran returnExceptions i o).closure.outer = outer := by
    rintro _ rfl isDone
    exact kept isDone
  refine ⟨closure, settled.uncancelled, ?_, ?_, ?_, ?_⟩
  · rw [closure]
    exact (replay_verdict some_ ordered.callbacks).unbroken ordered.callbacks
  · intro results at_
    exact done (settled.returned results at_) rfl
  · intro e at_
    exact done (settled.raised e at_) rfl
  · intro index at_
    exact done (settled.cancels index at_) rfl

theorem settled_of_reach [DecidableEq F] (some_ : 0 < children.length)
    (reached : (machine children returnExceptions V X).Reach Uncancelled s) :
    Settled children returnExceptions s := by
  have both : Ordered children s ∧ Settled children returnExceptions s := by
    refine Machine.Reach.invariant
      (fun s => Ordered children s ∧ Settled children returnExceptions s) ?_ ?_ reached
    · intro s initial
      refine ⟨ordered_of_reachable (.start initial), ?_⟩
      obtain ⟨-, closure, parent, mustCancel, order, -⟩ := initial
      constructor
      all_goals simp [closure, parent, mustCancel, order, replay, Closure.start]
    · rintro s a s' ⟨ordered, settled⟩ uncancelled taken
      have after := ordered_step ordered taken
      refine ⟨after, ?_⟩
      cases a with
      | complete f o =>
          change step children returnExceptions s (.complete f o) = some s' at taken
          simp only [step] at taken
          split at taken
          · cases taken
          · obtain rfl := Option.some.inj taken
            obtain ⟨closure, mustCancel, unbroken, returned, raised, cancels⟩ := settled
            exact ⟨closure, mustCancel, unbroken, returned, raised, cancels⟩
      | run i =>
          change step children returnExceptions s (.run i) = some s' at taken
          simp only [step] at taken
          split at taken
          · obtain ⟨o, -, rfl⟩ := Option.map_eq_some_iff.mp taken
            exact settled_ran some_ settled after
          · cases taken
      | parent => exact settled_parent settled taken
      | cancel => exact absurd rfl uncancelled
  exact both.2

/-- No callback that ran has found a failure that counts. -/
def Harmless (returnExceptions : Bool) (order : List (Nat × Outcome V X)) : Prop :=
  returnExceptions = true ∨ ∀ i o, (i, o) ∈ order → o.exc = none

theorem firstFailure_of_harmless (harmless : Harmless returnExceptions order) :
    firstFailure returnExceptions order = none := by
  unfold firstFailure
  obtain isTrue | none := harmless
  · rw [if_pos isTrue]
  · split
    · rfl
    · exact List.findSome?_eq_none_iff.mpr fun ran member => none ran.1 ran.2 member

/-- `outer` is completed once; it has the exception of the first failing child in
the order of the callbacks or, when no failure counts, the outcomes of all
children in their order, once all callbacks have run; and this is what `gather`
ends with.  When all children are done, attached and their callbacks were run,
`outer` is done. -/
structure Delivers (children : List F) (returnExceptions : Bool) (s : State F V X) : Prop where
  once : s.closure.completions = if s.closure.outer.done then 1 else 0
  failed : ∀ e, firstFailure returnExceptions s.order = some e → s.closure.outer = .failed e
  waits : Harmless returnExceptions s.order → s.order.length < children.length →
    s.closure.outer = .pending
  results : Harmless returnExceptions s.order → s.order.length = children.length →
    s.closure.outer = .result (children.map fun child => (s.status child).map Outcome.entry)
  ended : (∀ child ∈ children, (s.status child).isSome) →
    s.parent.registered children.length = children.length → (∀ i, s.phase i ≠ .scheduled) →
      s.order.length = children.length ∧ s.closure.outer.done = true
  returned : ∀ results, s.parent = .returned results → s.closure.outer = .result results
  raised : ∀ e, s.parent = .raised e → s.closure.outer = .failed e

/-- The results that were filled in are the outcomes of the children. -/
theorem results_eq (ordered : Ordered children s)
    (verdict : Verdict returnExceptions children.length s.order c)
    (calm : firstFailure returnExceptions s.order = none)
    (full : s.order.length = children.length) :
    c.results = children.map fun child => (s.status child).map Outcome.entry := by
  obtain ⟨-, length, results⟩ := verdict.filled calm
  refine List.ext_getElem? fun i => ?_
  rw [List.getElem?_map]
  by_cases bound : i < children.length
  · obtain ⟨⟨_, o⟩, member, rfl⟩ :=
      List.mem_map.mp (ordered.callbacks.mem_of_full full bound)
    obtain ⟨child, at_, done⟩ := ordered.ended _ o member
    have done : s.status child = some o := done
    rw [results _ o member, at_, Option.map_some, done]
    rfl
  · rw [List.getElem?_eq_none (by omega), List.getElem?_eq_none (by omega)]
    rfl

theorem gather_delivers [DecidableEq F] (some_ : 0 < children.length)
    (reached : (machine children returnExceptions V X).Reach Uncancelled s) :
    Delivers children returnExceptions s := by
  have ordered := ordered_of_reachable reached.reachable
  have settled := settled_of_reach some_ reached
  have verdict : Verdict returnExceptions children.length s.order _ :=
    replay_verdict some_ ordered.callbacks
  rw [← settled.closure] at verdict
  have completed : ∀ {outer}, s.closure.outer = outer →
      s.closure.completions = (if outer.done then 1 else 0) →
        s.closure.completions = if s.closure.outer.done then 1 else 0 := by
    rintro _ rfl count
    exact count
  refine ⟨?_, ?_, ?_, ?_, ?_, settled.returned, settled.raised⟩
  · cases first : firstFailure returnExceptions s.order with
    | some e =>
        obtain ⟨-, outer, count⟩ := verdict.failed e first
        exact completed outer count
    | none =>
        obtain short | full := Nat.lt_or_eq_of_le ordered.callbacks.length_le
        · obtain ⟨-, outer, count⟩ := verdict.waits first short
          exact completed outer count
        · obtain ⟨-, outer, count⟩ := verdict.full first full
          exact completed outer count
  · intro e first
    exact (verdict.failed e first).2.1
  · intro harmless short
    exact (verdict.waits (firstFailure_of_harmless harmless) short).2.1
  · intro harmless full
    have calm := firstFailure_of_harmless harmless
    rw [(verdict.full calm full).2.1, results_eq ordered verdict calm full]
  · intro done registered ran
    have present : ∀ i < children.length, s.phase i ≠ .idle :=
      fun i bound => ordered.filled i (registered.symm ▸ bound)
    have full := ordered.full done present ran
    refine ⟨full, ?_⟩
    cases first : firstFailure returnExceptions s.order with
    | some e =>
        rw [(verdict.failed e first).2.1]
        rfl
    | none =>
        rw [(verdict.full first full).2.1]
        rfl

/-! ## Runs -/

/-- No child is done, and the loop has not begun. -/
def freshGather (n : Nat) (F V X : Type) : State F V X where
  status _ := none
  phase _ := .idle
  closure := .start n
  parent := .registering 0
  mustCancel := false
  order := []
  childCancels := []

theorem freshGather_start [DecidableEq F] :
    (machine children returnExceptions V X).start (freshGather children.length F V X) :=
  ⟨fun _ => rfl, rfl, rfl, rfl, rfl, rfl⟩

/-- `Uncancelled`, decided. -/
def uncancelled (_ : State F V X) : Act F V X → Bool
  | .cancel => false
  | _ => true

theorem uncancelled_sound (s : State F V X) (a : Act F V X) (checked : uncancelled s a = true) :
    Uncancelled s a := by
  rintro rfl
  cases checked

/-- The first child is done before the loop, the second one fails behind it, and
its callback runs first. -/
theorem failingRun_ends :
    ((machine [0, 1] false Nat Nat).execIf uncancelled (freshGather 2 Nat Nat Nat)
      [.complete 0 (.result 7), .parent, .parent, .parent, .parent,
        .complete 1 (.failed (.raised 3)), .run 1, .run 0, .parent]).any
      (fun s => s.order = [(1, .failed (.raised 3)), (0, .result 7)] ∧
        s.parent = .raised (.raised 3)) = true := by
  decide +kernel

theorem gather_delivers_failing :
    ∃ s : State Nat Nat Nat, s.parent = .raised (.raised 3) ∧ Delivers [0, 1] false s := by
  obtain ⟨s, reached, ends⟩ :=
    Machine.Reach.exists_of_execIf uncancelled_sound freshGather_start failingRun_ends
  exact ⟨s, (of_decide_eq_true ends).2, gather_delivers (by decide) reached⟩

/-! ## The cancels of the children -/

/-- Nobody cancels `gather`, and no callback settles the outcome with a
`CancelledError`. -/
def SettledOtherwise (children : List F) (returnExceptions : Bool) (s : State F V X)
    (a : Act F V X) : Prop :=
  Uncancelled s a ∧ ∀ i o, a = .run i → Ended children s i o → returnExceptions = false →
    s.closure.settled = false → o.exc ≠ some .cancelledError

/-- `outer` has no `CancelledError`, and `gather` is not in its except clause. -/
structure Spared (s : State F V X) : Prop where
  cancels : s.childCancels = []
  outer : s.closure.outer ≠ .failed .cancelledError
  parent : ∀ index, s.parent ≠ .cancelling index

theorem childDone_spares (outer : c.outer ≠ .failed .cancelledError)
    (otherwise : returnExceptions = false → c.settled = false → o.exc ≠ some .cancelledError) :
    (childDone returnExceptions c i o).outer ≠ .failed .cancelledError := by
  have completes : ∀ {c : Closure V X} {new : Outer V X}, c.outer ≠ .failed .cancelledError →
      new ≠ .failed .cancelledError → (c.complete new).outer ≠ .failed .cancelledError := by
    intro c new old fresh
    unfold Closure.complete
    split
    · exact old
    · exact fresh
  unfold childDone
  split
  · exact outer
  · rename_i live
    split
    · rename_i exc
      refine completes outer ?_
      rintro ⟨⟩
      exact otherwise rfl (Bool.not_eq_true _ ▸ live) exc
    · split
      · exact completes outer (by rintro ⟨⟩)
      · exact outer

theorem spared_parent (spared : Spared s) (settled : Settled children returnExceptions s)
    (taken : parentStep children s = some s') : Spared s' := by
  obtain ⟨cancels, outer, parent⟩ := spared
  have read : ∀ index, s.closure.outer.read ≠ .cancelling index := by
    intro index
    have unbroken := settled.unbroken
    cases at_ : s.closure.outer with
    | pending | result => rintro ⟨⟩
    | cancelled => exact absurd at_ unbroken
    | failed e =>
        cases e with
        | raised x => rintro ⟨⟩
        | cancelledError => exact absurd at_ outer
  unfold parentStep at taken
  cases at_ : s.parent with
  | registering index =>
      simp only [at_] at taken
      split at taken <;> obtain rfl := Option.some.inj taken <;>
        exact ⟨cancels, outer, by rintro _ ⟨⟩⟩
  | awaiting =>
      simp only [at_, settled.uncancelled] at taken
      obtain rfl := Option.some.inj taken
      exact ⟨cancels, outer, read⟩
  | parked =>
      simp only [at_] at taken
      split at taken
      · obtain rfl := Option.some.inj taken
        exact ⟨cancels, outer, read⟩
      · cases taken
  | cancelling index => exact absurd at_ (parent index)
  | returned | raised => simp [at_] at taken

/-- `gather` cancels no child, in every run in which nobody cancels it and the
first failing child, if its failure counts, does not end with a
`CancelledError`. -/
theorem gather_spares_children [DecidableEq F] (some_ : 0 < children.length)
    (reached : (machine children returnExceptions V X).Reach
      (SettledOtherwise children returnExceptions) s) : s.childCancels = [] := by
  have spared : Settled children returnExceptions s ∧ Spared s := by
    induction reached with
    | start initial =>
        refine ⟨settled_of_reach some_ (.start initial), ?_⟩
        obtain ⟨-, closure, parent, -, -, cancels⟩ := initial
        constructor
        all_goals simp [closure, parent, cancels, Closure.start]
    | @step s s' a before allowed taken inductionHypothesis =>
        obtain ⟨settled, spared⟩ := inductionHypothesis
        have uncancelled := before.mono fun s a allowed => allowed.1
        refine ⟨settled_of_reach some_ (.step uncancelled allowed.1 taken), ?_⟩
        cases a with
        | complete f o =>
            change step children returnExceptions s (.complete f o) = some s' at taken
            simp only [step] at taken
            split at taken
            · cases taken
            · obtain rfl := Option.some.inj taken
              exact ⟨spared.cancels, spared.outer, spared.parent⟩
        | run i =>
            change step children returnExceptions s (.run i) = some s' at taken
            simp only [step] at taken
            split at taken
            · obtain ⟨o, ended, rfl⟩ := Option.map_eq_some_iff.mp taken
              have otherwise := allowed.2 i o rfl (Option.bind_eq_some_iff.mp ended)
              exact ⟨spared.cancels, childDone_spares spared.outer otherwise, spared.parent⟩
            · cases taken
        | parent => exact spared_parent spared settled taken
        | cancel => exact absurd rfl allowed.1
  exact spared.2.cancels

/-- `SettledOtherwise`, decided. -/
def settledOtherwise (children : List F) (s : State F V X) : Act F V X → Bool
  | .cancel => false
  | .run i =>
      match children[i]?.bind s.status with
      | some .cancelled | some (.failed .cancelledError) => s.closure.settled
      | _ => true
  | .complete .. | .parent => true

theorem settledOtherwise_sound (s : State F V X) (a : Act F V X)
    (checked : settledOtherwise children s a = true) :
    SettledOtherwise children returnExceptions s a := by
  refine ⟨?_, ?_⟩
  · rintro rfl
    cases checked
  · rintro i o rfl ⟨child, at_, done⟩ - live exc
    have here : children[i]?.bind s.status = some o := by
      rw [at_, Option.bind_some]
      exact done
    simp only [settledOtherwise, here] at checked
    cases o with
    | result v => cases exc
    | failed e =>
        cases e with
        | raised x => cases exc
        | cancelledError => exact absurd (live.symm.trans checked) (by decide)
    | cancelled => exact absurd (live.symm.trans checked) (by decide)

/-- One child fails, and the other one is cancelled afterwards. -/
theorem sparingRun_ends :
    ((machine [0, 1] false Nat Nat).execIf (settledOtherwise [0, 1]) (freshGather 2 Nat Nat Nat)
      [.parent, .parent, .parent, .parent, .complete 0 (.failed (.raised 3)), .run 0,
        .complete 1 .cancelled, .run 1, .parent]).any
      (fun s => s.parent = .raised (.raised 3)) = true := by
  decide +kernel

theorem gather_spares_children_failing :
    ∃ s : State Nat Nat Nat, s.parent = .raised (.raised 3) ∧ s.childCancels = [] := by
  obtain ⟨s, reached, ends⟩ :=
    Machine.Reach.exists_of_execIf settledOtherwise_sound freshGather_start sparingRun_ends
  exact ⟨s, of_decide_eq_true ends, gather_spares_children (by decide) reached⟩

/-- The first child is cancelled by somebody while the second one is pending. -/
theorem siblingRun_ends :
    ((machine [0, 1] false Nat Nat).execIf uncancelled (freshGather 2 Nat Nat Nat)
      [.parent, .parent, .parent, .parent, .complete 0 .cancelled, .run 0, .parent, .parent,
        .parent, .parent]).any
      (fun s => s.childCancels = [1, 0] ∧ s.status 1 = none) = true := by
  decide +kernel

theorem gather_cancels_siblings :
    ¬ ∀ s : State Nat Nat Nat, (machine [0, 1] false Nat Nat).Reach Uncancelled s →
      s.childCancels = [] := by
  intro always
  obtain ⟨s, reached, ends⟩ :=
    Machine.Reach.exists_of_execIf uncancelled_sound freshGather_start siblingRun_ends
  have cancels := (of_decide_eq_true ends).1
  rw [always s reached] at cancels
  cases cancels

end MtAsyncio.Gather
