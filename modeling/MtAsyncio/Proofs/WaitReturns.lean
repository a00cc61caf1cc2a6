/-
Module: MtAsyncio.Proofs.WaitReturns
Purpose: When `wait` returns and with which sets: as its condition, of the
  callbacks that ran, has it, as long as no cancelled task releases a
  `FIRST_EXCEPTION`.
Trusted boundary: none
Main exports: decides, Met, State.board, Ordered, ordered_of_reachable, Calm, Settled,
  Sorted, Returns, wait_returns, cancelled_releases, calm_of_nodup
-/
import MtAsyncio.Model.Wait

namespace MtAsyncio.Wait

open Lib (Board Machine)
open Gather (Outcome)

variable {F V X : Type} {tasks : List F} {returnWhen : ReturnWhen} {timed : Bool}
variable {n index i : Nat} {s s' : State F V X} {c : Closure} {o : Outcome V X}
variable {order : List (Nat × Outcome V X)} {done pending : Finset F}

/-! ## The condition -/

/-- The outcome of one task meets the condition. -/
def decides : ReturnWhen → Outcome V X → Prop
  | .firstCompleted, _ => True
  | .firstException, o => ∃ e, o = .failed e
  | .allCompleted, _ => False

/-- The condition of a `wait` for `n` tasks, by the callbacks that ran. -/
def Met (returnWhen : ReturnWhen) (n : Nat) (order : List (Nat × Outcome V X)) : Prop :=
  (∃ ran ∈ order, decides returnWhen ran.2) ∨ order.length = n

theorem met_append :
    Met returnWhen n (order ++ [(i, o)]) ↔
      (∃ ran ∈ order, decides returnWhen ran.2) ∨ decides returnWhen o ∨
        order.length + 1 = n := by
  simp only [Met, List.mem_append, List.mem_singleton, List.length_append, List.length_cons,
    List.length_nil]
  constructor
  · rintro (⟨ran, before | rfl, decided⟩ | full)
    · exact .inl ⟨ran, before, decided⟩
    · exact .inr (.inl decided)
    · exact .inr (.inr full)
  · rintro (⟨ran, before, decided⟩ | decided | full)
    · exact .inl ⟨ran, .inl before, decided⟩
    · exact .inl ⟨_, .inr rfl, decided⟩
    · exact .inr full

/-- `_on_done` comes to a `_release`. -/
def fires (returnWhen : ReturnWhen) (n : Nat) (c : Closure) (o : Outcome V X) : Prop :=
  returnWhen = .firstCompleted ∨ (returnWhen = .firstException ∧ o.exc.isSome) ∨ c.ndone + 1 = n

theorem release_settled : c.release.settled = true := by
  unfold Closure.release
  split
  · assumption
  · split <;> rfl

theorem release_ndone : c.release.ndone = c.ndone := by
  unfold Closure.release
  split
  · rfl
  · split <;> rfl

theorem onDone_of_fires (does : fires returnWhen n c o) :
    onDone returnWhen n c o = c.count.release := by
  unfold onDone
  obtain first | failed | last := does
  · rw [if_pos first]
  · rw [if_pos failed, ite_self]
  · have full : c.count.ndone = n := last
    rw [if_pos full, ite_self, ite_self]

theorem onDone_of_not_fires (not : ¬fires returnWhen n c o) :
    onDone returnWhen n c o = c.count := by
  have more : ¬c.count.ndone = n := fun last => not (.inr (.inr last))
  unfold onDone
  rw [if_neg fun first => not (.inl first), if_neg fun failed => not (.inr (.inl failed)),
    if_neg more]

theorem onDone_settled :
    (onDone returnWhen n c o).settled = true ↔ c.settled = true ∨ fires returnWhen n c o := by
  by_cases does : fires returnWhen n c o
  · rw [onDone_of_fires does]
    exact iff_of_true release_settled (.inr does)
  · rw [onDone_of_not_fires does]
    exact ⟨.inl, fun either => either.resolve_right does⟩

theorem onDone_ndone : (onDone returnWhen n c o).ndone = c.ndone + 1 := by
  by_cases does : fires returnWhen n c o
  · rw [onDone_of_fires does, release_ndone]
    rfl
  · rw [onDone_of_not_fires does]
    rfl

/-! ## The callbacks of a run -/

/-- How many tasks the loop has attached a callback to. -/
def ParentPc.registered (n : Nat) : ParentPc F → Nat
  | .registering index => index
  | _ => n

/-- The tasks and their callbacks. -/
abbrev State.board (s : State F V X) : Board F (Outcome V X) where
  status := s.status
  phase := s.phase
  order := s.order

/-- Task `i` is done with outcome `o`. -/
abbrev Ended (tasks : List F) (s : State F V X) (i : Nat) (o : Outcome V X) : Prop :=
  s.board.Ended tasks i o

/-- Each callback is scheduled when its task is done, and run once. -/
abbrev Ordered (tasks : List F) (s : State F V X) : Prop :=
  s.board.Ordered tasks (s.parent.registered tasks.length)

/-- What is done stays done. -/
def Kept (s s' : State F V X) : Prop :=
  ∀ t o, s.status t = some o → s'.status t = some o

/-- The steps of `wait` and of its timer that leave the callbacks alone. -/
theorem Ordered.goes (ordered : Ordered tasks s) (board : s'.board = s.board)
    (registered : s'.parent.registered tasks.length = s.parent.registered tasks.length) :
    Ordered tasks s' := by
  unfold Ordered
  rw [board, registered]
  exact ordered


theorem kept_finish [DecidableEq F] {t : F} (live : s.status t = none) :
    Kept s (s.finish tasks t o) := by
  intro t' o' done
  have other : t' ≠ t := by
    rintro rfl
    rw [live] at done
    cases done
  simp only [State.finish, Function.update_of_ne other, done]

/-- The loop attaches a callback, or schedules it at once. -/
theorem ordered_attach {t : F} (ordered : Ordered tasks s)
    (at_ : s.parent = .registering index) (here : tasks[index]? = some t) :
    Ordered tasks { s with
      phase := Function.update s.phase index
        (if (s.status t).isSome then .scheduled else .attached)
      parent := .registering (index + 1) } := by
  have registered : s.parent.registered tasks.length = index := by rw [at_]; rfl
  have board : s.board.Ordered tasks index := registered ▸ ordered
  exact board.attach here

theorem Waiter.read_registered (waiter : Waiter) :
    (waiter.read : ParentPc F).registered n = n := by
  cases waiter <;> rfl

theorem ordered_remove [DecidableEq F] {t : F} {raises : Bool} (ordered : Ordered tasks s)
    (at_ : s.parent = .removing raises index) :
    Ordered tasks { s with
      phase := fun i => if s.phase i = .attached ∧ tasks[i]? = some t then .idle else s.phase i
      parent := .removing raises (index + 1) } := by
  have registered : s.parent.registered tasks.length = tasks.length := by rw [at_]; rfl
  have board : s.board.Ordered tasks tasks.length := registered ▸ ordered
  exact board.detach

theorem ordered_parent [DecidableEq F] (ordered : Ordered tasks s)
    (taken : parentStep tasks timed s = some s') :
    Ordered tasks s' := by
  have past : ∀ {pc : ParentPc F}, s.parent.registered tasks.length = tasks.length →
      pc.registered tasks.length = tasks.length →
        pc.registered tasks.length = s.parent.registered tasks.length := by
    intro pc before after
    rw [before, after]
  unfold parentStep at taken
  cases at_ : s.parent with
  | registering index =>
      simp only [at_] at taken
      split at taken
      · obtain rfl := Option.some.inj taken
        rename_i here
        exact ordered_attach ordered at_ here
      · rename_i beyond
        obtain rfl := Option.some.inj taken
        refine ordered.goes rfl ?_
        have within := ordered.within
        rw [at_] at within ⊢
        exact Nat.le_antisymm (List.getElem?_eq_none_iff.mp beyond) within
  | arming =>
      simp only [at_] at taken
      split at taken <;> obtain rfl := Option.some.inj taken <;>
        exact ordered.goes rfl (past (by rw [at_]; rfl) rfl)
  | awaiting =>
      simp only [at_] at taken
      split at taken <;> obtain rfl := Option.some.inj taken
      · exact ordered.goes rfl (past (by rw [at_]; rfl) rfl)
      · exact ordered.goes rfl (past (by rw [at_]; rfl) (Waiter.read_registered _))
  | parked =>
      simp only [at_] at taken
      split at taken
      · obtain rfl := Option.some.inj taken
        exact ordered.goes rfl (past (by rw [at_]; rfl) (Waiter.read_registered _))
      · cases taken
  | leaving raises =>
      simp only [at_] at taken
      obtain rfl := Option.some.inj taken
      exact ordered.goes rfl (past (by rw [at_]; rfl) rfl)
  | removing raises index =>
      simp only [at_] at taken
      split at taken <;> obtain rfl := Option.some.inj taken
      · exact ordered_remove ordered at_
      · refine ordered.goes rfl (past (by rw [at_]; rfl) ?_)
        cases raises <;> rfl
  | sorting index done pending =>
      simp only [at_] at taken
      split at taken <;> obtain rfl := Option.some.inj taken
      · refine ordered.goes rfl (past (by rw [at_]; rfl) ?_)
        split <;> rfl
      · exact ordered.goes rfl (past (by rw [at_]; rfl) rfl)
  | returned | raised => simp [at_] at taken

theorem ordered_cancel (ordered : Ordered tasks s) : Ordered tasks s.cancel := by
  unfold State.cancel
  split
  · exact ordered
  · exact ordered
  · split <;> exact ordered.goes rfl rfl
  · exact ordered.goes rfl rfl

theorem ordered_step [DecidableEq F] {a : Act F V X} (ordered : Ordered tasks s)
    (taken : step tasks returnWhen timed s a = some s') : Ordered tasks s' := by
  cases a with
  | complete t o =>
      simp only [step] at taken
      split at taken
      · cases taken
      · rename_i live
        obtain rfl := Option.some.inj taken
        have pending : s.status t = none := by simpa using live
        exact Board.Ordered.finish ordered pending
  | run i =>
      simp only [step] at taken
      split at taken
      · rename_i scheduled
        obtain ⟨o, ended, rfl⟩ := Option.map_eq_some_iff.mp taken
        have seen : Ended tasks s i o := Option.bind_eq_some_iff.mp ended
        exact Board.Ordered.run ordered scheduled seen
      · cases taken
  | expire | timeout =>
      simp only [step] at taken
      split at taken
      · obtain rfl := Option.some.inj taken
        exact ordered.goes rfl rfl
      · cases taken
  | parent => exact ordered_parent ordered taken
  | cancel =>
      obtain rfl := Option.some.inj taken
      exact ordered_cancel ordered

theorem ordered_of_reachable [DecidableEq F]
    (reached : (machine tasks returnWhen timed V X).Reachable s) : Ordered tasks s := by
  refine Machine.Reach.invariant (Ordered tasks) ?_ ?_ reached
  · rintro s ⟨phase, -, -, parent, -, order⟩
    have registered : s.parent.registered tasks.length = 0 := by rw [parent]; rfl
    unfold Ordered
    rw [registered]
    exact .start phase order
  · intro s a s' ordered _ taken
    exact ordered_step ordered taken

/-! ## The sets -/

/-- What the loop that sorts the tasks has found before place `index`: a task in
`done` is done, and the condition shows in the sets. -/
structure Sorted (tasks : List F) (returnWhen : ReturnWhen) (s : State F V X) (index : Nat)
    (done pending : Finset F) : Prop where
  members : ∀ t, t ∈ done ∨ t ∈ pending ↔ ∃ j < index, tasks[j]? = some t
  apart : ∀ t ∈ done, t ∉ pending
  finished : ∀ t ∈ done, (s.status t).isSome
  cause : ((∀ t ∈ tasks, (s.status t).isSome) ∧ pending = ∅) ∨
    ∃ j t o, tasks[j]? = some t ∧ s.status t = some o ∧ decides returnWhen o ∧
      (j < index → t ∈ done)

theorem Kept.isSome {t : F} (kept : Kept s s') (done : (s.status t).isSome) :
    (s'.status t).isSome := by
  obtain ⟨o, at_⟩ := Option.isSome_iff_exists.mp done
  rw [kept t o at_]
  rfl

theorem Sorted.kept (sorted : Sorted tasks returnWhen s index done pending) (kept : Kept s s') :
    Sorted tasks returnWhen s' index done pending := by
  refine ⟨sorted.members, sorted.apart, fun t member => kept.isSome (sorted.finished t member), ?_⟩
  obtain ⟨all, none⟩ | ⟨j, t, o, at_, status, decided, found⟩ := sorted.cause
  · exact .inl ⟨fun t member => kept.isSome (all t member), none⟩
  · exact .inr ⟨j, t, o, at_, kept t o status, decided, found⟩

/-- A task that meets the condition has a callback that ran. -/
theorem sorted_start (ordered : Ordered tasks s) (met : Met returnWhen tasks.length s.order) :
    Sorted tasks returnWhen s 0 ∅ ∅ := by
  refine ⟨?_, ?_, ?_, ?_⟩
  · intro t
    simp
  · intro t member
    simp at member
  · intro t member
    simp at member
  · obtain ⟨⟨i, o⟩, member, decided⟩ | full := met
    · obtain ⟨t, at_, status⟩ := ordered.ended i o member
      exact .inr ⟨i, t, o, at_, status, decided, fun below => absurd below (Nat.not_lt_zero i)⟩
    · refine .inl ⟨?_, rfl⟩
      intro t member
      obtain ⟨i, bound, rfl⟩ := List.getElem_of_mem member
      obtain ⟨⟨_, o⟩, ran, rfl⟩ :=
        List.mem_map.mp (ordered.callbacks.mem_of_full full bound)
      obtain ⟨t, at_, status⟩ := ordered.ended _ o ran
      obtain ⟨_, rfl⟩ := List.getElem?_eq_some_iff.mp at_
      exact Option.isSome_of_eq_some status

/-- The task at `index` joins one of the sets. -/
theorem members_insert [DecidableEq F] {t : F} {grown rest : Finset F}
    (here : tasks[index]? = some t)
    (members : ∀ x, x ∈ grown ∨ x ∈ rest ↔ ∃ j < index, tasks[j]? = some x) (x : F) :
    x ∈ insert t grown ∨ x ∈ rest ↔ ∃ j < index + 1, tasks[j]? = some x := by
  rw [Finset.mem_insert, or_assoc, members]
  constructor
  · rintro (rfl | ⟨j, below, at_⟩)
    · exact ⟨index, Nat.lt_succ_self index, here⟩
    · exact ⟨j, Nat.lt_succ_of_lt below, at_⟩
  · rintro ⟨j, below, at_⟩
    obtain before | rfl := Nat.lt_succ_iff_lt_or_eq.mp below
    · exact .inr ⟨j, before, at_⟩
    · rw [here] at at_
      exact .inl (Option.some.inj at_).symm

theorem Sorted.takes [DecidableEq F] {t : F} (sorted : Sorted tasks returnWhen s index done pending)
    (here : tasks[index]? = some t) (isDone : (s.status t).isSome) (fresh : t ∉ pending) :
    Sorted tasks returnWhen s (index + 1) (insert t done) pending := by
  refine ⟨members_insert here sorted.members, ?_, ?_, ?_⟩
  · intro x member
    obtain rfl | old := Finset.mem_insert.mp member
    · exact fresh
    · exact sorted.apart x old
  · intro x member
    obtain rfl | old := Finset.mem_insert.mp member
    · exact isDone
    · exact sorted.finished x old
  · obtain all | ⟨j, x, o, at_, status, decided, found⟩ := sorted.cause
    · exact .inl all
    · refine .inr ⟨j, x, o, at_, status, decided, ?_⟩
      intro below
      obtain before | rfl := Nat.lt_succ_iff_lt_or_eq.mp below
      · exact Finset.mem_insert_of_mem (found before)
      · rw [here] at at_
        exact Option.some.inj at_ ▸ Finset.mem_insert_self t done

theorem Sorted.leaves [DecidableEq F] {t : F}
    (sorted : Sorted tasks returnWhen s index done pending)
    (here : tasks[index]? = some t) (live : ¬(s.status t).isSome) :
    Sorted tasks returnWhen s (index + 1) done (insert t pending) := by
  refine ⟨?_, ?_, sorted.finished, ?_⟩
  · intro x
    rw [or_comm]
    exact members_insert here (fun y => or_comm.trans (sorted.members y)) x
  · intro x member joined
    obtain rfl | old := Finset.mem_insert.mp joined
    · exact live (sorted.finished x member)
    · exact sorted.apart x member old
  · obtain ⟨all, -⟩ | ⟨j, x, o, at_, status, decided, found⟩ := sorted.cause
    · exact absurd (all t (List.mem_of_getElem? here)) live
    · refine .inr ⟨j, x, o, at_, status, decided, ?_⟩
      intro below
      obtain before | rfl := Nat.lt_succ_iff_lt_or_eq.mp below
      · exact found before
      · rw [here] at at_
        obtain rfl := Option.some.inj at_
        rw [status] at live
        exact absurd rfl live

/-! ## The runs of the claim -/

/-- No cancelled task releases a `FIRST_EXCEPTION` that has not met its condition,
and no task that is listed twice gets done between the two looks at it. -/
structure Calm (tasks : List F) (returnWhen : ReturnWhen) (s : State F V X) (a : Act F V X) :
    Prop where
  cancelled : ∀ i, a = .run i → returnWhen = .firstException → Ended tasks s i .cancelled →
    s.closure.settled = true ∨ s.closure.ndone + 1 = tasks.length
  once : ∀ index done pending t, a = .parent → s.parent = .sorting index done pending →
    tasks[index]? = some t → (s.status t).isSome → t ∉ pending

/-- What a place of `wait` is reached with. -/
structure Entered (tasks : List F) (returnWhen : ReturnWhen) (s : State F V X)
    (pc : ParentPc F) : Prop where
  leaves : pc = .leaving false → s.closure.waiter = .result
  removes : ∀ index, pc = .removing false index → s.closure.waiter = .result
  sorts : ∀ index done pending, pc = .sorting index done pending →
    s.closure.waiter = .result ∧ Sorted tasks returnWhen s index done pending
  returned : ∀ done pending, pc = .returned done pending →
    s.closure.waiter = .result ∧
      ∃ index, tasks.length ≤ index ∧ Sorted tasks returnWhen s index done pending

/-- What `wait` has made of the callbacks that ran. -/
structure Settled (tasks : List F) (returnWhen : ReturnWhen) (s : State F V X) : Prop where
  counts : s.closure.ndone = s.order.length
  agrees : s.closure.settled = true ↔ Met returnWhen tasks.length s.order
  woken : s.closure.settled = true → s.closure.waiter.done = true
  released : s.closure.waiter = .result → s.closure.settled = true
  untimed : s.timer = .absent
  entered : Entered tasks returnWhen s s.parent

theorem Entered.kept {pc : ParentPc F} (entered : Entered tasks returnWhen s pc)
    (kept : Kept s s') (waits : s.closure.waiter = .result → s'.closure.waiter = .result) :
    Entered tasks returnWhen s' pc := by
  refine ⟨?_, ?_, ?_, ?_⟩
  · intro at_
    exact waits (entered.leaves at_)
  · intro index at_
    exact waits (entered.removes index at_)
  · intro index done pending at_
    obtain ⟨result, sorted⟩ := entered.sorts index done pending at_
    exact ⟨waits result, sorted.kept kept⟩
  · intro done pending at_
    obtain ⟨result, index, far, sorted⟩ := entered.returned done pending at_
    exact ⟨waits result, index, far, sorted.kept kept⟩

/-- The steps that leave what the callbacks share alone. -/
theorem Settled.enters (settled : Settled tasks returnWhen s)
    (entered : Entered tasks returnWhen s s'.parent) (kept : Kept s s')
    (closure : s'.closure = s.closure) (order : s'.order = s.order)
    (timer : s'.timer = .absent) : Settled tasks returnWhen s' := by
  refine ⟨?_, ?_, ?_, ?_, timer, ?_⟩
  · rw [closure, order]
    exact settled.counts
  · rw [closure, order]
    exact settled.agrees
  · rw [closure]
    exact settled.woken
  · rw [closure]
    exact settled.released
  · refine entered.kept kept ?_
    rw [closure]
    exact id

/-- The callback of a task says what the condition says. -/
theorem fires_iff_decides (settled : Settled tasks returnWhen s)
    (calm : returnWhen = .firstException → o = .cancelled →
      s.closure.ndone + 1 = tasks.length) :
    fires returnWhen tasks.length s.closure o ↔
      decides returnWhen o ∨ s.order.length + 1 = tasks.length := by
  rw [← settled.counts]
  cases returnWhen with
  | firstCompleted => exact iff_of_true (.inl rfl) (.inl trivial)
  | allCompleted =>
      constructor
      · rintro (mode | ⟨mode, -⟩ | full)
        · cases mode
        · cases mode
        · exact .inr full
      · rintro (none | full)
        · cases none
        · exact .inr (.inr full)
  | firstException =>
      cases o with
      | failed e => exact iff_of_true (.inr (.inl ⟨rfl, rfl⟩)) (.inl ⟨e, rfl⟩)
      | cancelled => exact iff_of_true (.inr (.inl ⟨rfl, rfl⟩)) (.inr (calm rfl rfl))
      | result v =>
          constructor
          · rintro (mode | ⟨-, failed⟩ | full)
            · cases mode
            · cases failed
            · exact .inr full
          · rintro (⟨e, failed⟩ | full)
            · cases failed
            · exact .inr (.inr full)

theorem onDone_agrees (settled : Settled tasks returnWhen s)
    (short : s.order.length < tasks.length)
    (calm : returnWhen = .firstException → o = .cancelled →
      s.closure.settled = true ∨ s.closure.ndone + 1 = tasks.length) :
    (onDone returnWhen tasks.length s.closure o).settled = true ↔
      Met returnWhen tasks.length (s.order ++ [(i, o)]) := by
  have before : s.closure.settled = true ↔ ∃ ran ∈ s.order, decides returnWhen ran.2 := by
    rw [settled.agrees]
    exact ⟨fun met => met.resolve_right (Nat.ne_of_lt short), .inl⟩
  rw [onDone_settled, met_append]
  by_cases isSettled : s.closure.settled = true
  · exact iff_of_true (.inl isSettled) (.inl (before.mp isSettled))
  · rw [or_iff_right isSettled, or_iff_right fun some_ => isSettled (before.mpr some_)]
    exact fires_iff_decides settled
      fun mode cancelled => (calm mode cancelled).resolve_left isSettled

theorem release_waiter (done : c.waiter.done = true) : c.release.waiter = c.waiter := by
  unfold Closure.release
  split
  · rfl
  · rfl

theorem onDone_woken (woken : c.settled = true → c.waiter.done = true)
    (settled : (onDone returnWhen n c o).settled = true) :
    (onDone returnWhen n c o).waiter.done = true := by
  by_cases does : fires returnWhen n c o
  · rw [onDone_of_fires does]
    unfold Closure.release
    split
    · rename_i already
      exact woken already
    · split
      · assumption
      · rfl
  · rw [onDone_of_not_fires does] at settled ⊢
    exact woken settled

/-- A `waiter` that is done keeps its result. -/
theorem onDone_waiter (done : c.waiter.done = true) :
    (onDone returnWhen n c o).waiter = c.waiter := by
  by_cases does : fires returnWhen n c o
  · rw [onDone_of_fires does]
    exact release_waiter done
  · rw [onDone_of_not_fires does]
    rfl

theorem onDone_released (released : c.waiter = .result → c.settled = true)
    (result : (onDone returnWhen n c o).waiter = .result) :
    (onDone returnWhen n c o).settled = true := by
  rw [onDone_settled]
  by_cases does : fires returnWhen n c o
  · exact .inr does
  · rw [onDone_of_not_fires does] at result
    exact .inl (released result)

theorem settled_ran (settled : Settled tasks returnWhen s) (ordered : Ordered tasks s)
    (scheduled : s.phase i = .scheduled) (ended : Ended tasks s i o)
    (calm : Calm tasks returnWhen s (.run i)) :
    Settled tasks returnWhen (s.ran tasks returnWhen i o) := by
  have short : s.order.length < tasks.length := by
    have after : Ordered tasks (s.ran tasks returnWhen i o) := ordered.run scheduled ended
    exact after.callbacks.init.2.2.2
  have kept : Kept s (s.ran tasks returnWhen i o) := fun _ _ done => done
  refine ⟨?_, ?_, onDone_woken settled.woken, onDone_released settled.released, settled.untimed,
    settled.entered.kept kept ?_⟩
  · show (onDone returnWhen tasks.length s.closure o).ndone = (s.order ++ [(i, o)]).length
    rw [onDone_ndone, settled.counts, List.length_append, List.length_singleton]
  · refine onDone_agrees settled short ?_
    rintro mode rfl
    exact calm.cancelled i rfl mode ended
  · intro result
    show (onDone returnWhen tasks.length s.closure o).waiter = .result
    rw [onDone_waiter (by rw [result]; rfl), result]

theorem entered_read : Entered tasks returnWhen s s.closure.waiter.read := by
  cases at_ : s.closure.waiter with
  | pending | cancelled => constructor <;> simp [Waiter.read]
  | result =>
      refine ⟨fun _ => at_, ?_, ?_, ?_⟩ <;> simp [Waiter.read]

theorem entered_sorting (result : s.closure.waiter = .result)
    (sorted : Sorted tasks returnWhen s index done pending) :
    Entered tasks returnWhen s (.sorting index done pending) := by
  refine ⟨?_, ?_, ?_, ?_⟩
  · rintro ⟨⟩
  · rintro _ ⟨⟩
  · rintro _ _ _ ⟨⟩
    exact ⟨result, sorted⟩
  · rintro _ _ ⟨⟩

theorem settled_parent [DecidableEq F] (ordered : Ordered tasks s)
    (settled : Settled tasks returnWhen s)
    (calm : Calm tasks returnWhen s .parent) (taken : parentStep tasks false s = some s') :
    Settled tasks returnWhen s' := by
  unfold parentStep at taken
  cases at_ : s.parent with
  | registering index =>
      simp only [at_] at taken
      split at taken <;> obtain rfl := Option.some.inj taken <;>
        exact settled.enters (by constructor <;> simp) (fun _ _ done => done) rfl rfl
          settled.untimed
  | arming =>
      simp only [at_, Bool.false_eq_true, if_false] at taken
      obtain rfl := Option.some.inj taken
      exact settled.enters (by constructor <;> simp) (fun _ _ done => done) rfl rfl settled.untimed
  | awaiting =>
      simp only [at_] at taken
      split at taken <;> obtain rfl := Option.some.inj taken
      · exact settled.enters (by constructor <;> simp) (fun _ _ done => done) rfl rfl
          settled.untimed
      · exact settled.enters entered_read (fun _ _ done => done) rfl rfl settled.untimed
  | parked =>
      simp only [at_] at taken
      split at taken
      · obtain rfl := Option.some.inj taken
        exact settled.enters entered_read (fun _ _ done => done) rfl rfl settled.untimed
      · cases taken
  | leaving raises =>
      simp only [at_, settled.untimed] at taken
      obtain rfl := Option.some.inj taken
      refine settled.enters ⟨?_, ?_, ?_, ?_⟩ (fun _ _ done => done) rfl rfl rfl
      · rintro ⟨⟩
      · rintro _ ⟨⟩
        exact settled.entered.leaves at_
      · rintro _ _ _ ⟨⟩
      · rintro _ _ ⟨⟩
  | removing raises index =>
      simp only [at_] at taken
      split at taken <;> obtain rfl := Option.some.inj taken
      · refine settled.enters ⟨?_, ?_, ?_, ?_⟩ (fun _ _ done => done) rfl rfl settled.untimed
        · rintro ⟨⟩
        · rintro _ ⟨⟩
          exact settled.entered.removes index at_
        · rintro _ _ _ ⟨⟩
        · rintro _ _ ⟨⟩
      · cases raises with
        | true =>
            exact settled.enters (by constructor <;> simp) (fun _ _ done => done) rfl rfl
              settled.untimed
        | false =>
            have result := settled.entered.removes index at_
            have start := sorted_start ordered (settled.agrees.mp (settled.released result))
            exact settled.enters (entered_sorting result start) (fun _ _ done => done) rfl rfl
              settled.untimed
  | sorting index done pending =>
      obtain ⟨result, sorted⟩ := settled.entered.sorts index done pending at_
      simp only [at_] at taken
      split at taken
      · rename_i t here
        obtain rfl := Option.some.inj taken
        refine settled.enters ?_ (fun _ _ done => done) rfl rfl settled.untimed
        show Entered tasks returnWhen s (if (s.status t).isSome then
          .sorting (index + 1) (insert t done) pending
          else .sorting (index + 1) done (insert t pending))
        split
        · rename_i isDone
          have fresh := calm.once index done pending t rfl at_ here isDone
          exact entered_sorting result (sorted.takes here isDone fresh)
        · rename_i live
          exact entered_sorting result (sorted.leaves here live)
      · rename_i past
        obtain rfl := Option.some.inj taken
        refine settled.enters ⟨?_, ?_, ?_, ?_⟩ (fun _ _ done => done) rfl rfl settled.untimed
        · rintro ⟨⟩
        · rintro _ ⟨⟩
        · rintro _ _ _ ⟨⟩
        · rintro _ _ ⟨⟩
          exact ⟨result, index, List.getElem?_eq_none_iff.mp past, sorted⟩
  | returned | raised => simp [at_] at taken

theorem settled_cancel (settled : Settled tasks returnWhen s) :
    Settled tasks returnWhen s.cancel := by
  unfold State.cancel
  split
  · exact settled
  · exact settled
  · rename_i parked
    split
    · exact settled.enters settled.entered (fun _ _ done => done) rfl rfl settled.untimed
    · obtain ⟨counts, agrees, -, -, untimed, -⟩ := settled
      refine ⟨counts, agrees, fun _ => rfl, ?_, untimed, ?_⟩
      · rintro ⟨⟩
      · constructor <;> simp [parked]
  · exact settled.enters settled.entered (fun _ _ done => done) rfl rfl settled.untimed

theorem settled_of_reach [DecidableEq F] (some_ : 0 < tasks.length)
    (reached : (machine tasks returnWhen false V X).Reach (Calm tasks returnWhen) s) :
    Settled tasks returnWhen s := by
  have both : Ordered tasks s ∧ Settled tasks returnWhen s := by
    refine Machine.Reach.invariant
      (fun s => Ordered tasks s ∧ Settled tasks returnWhen s) ?_ ?_ reached
    · intro s initial
      have first : (machine tasks returnWhen false V X).Reachable s := .start initial
      refine ⟨ordered_of_reachable first, ?_⟩
      obtain ⟨-, closure, timer, parent, -, order⟩ := initial
      have unmet : ¬Met returnWhen tasks.length s.order := by
        rw [order]
        rintro (⟨ran, member, -⟩ | none)
        · cases member
        · exact Nat.ne_of_lt some_ none
      refine ⟨?_, ?_, ?_, ?_, timer, ?_⟩
      · rw [closure, order]
        rfl
      · refine iff_of_false ?_ unmet
        rw [closure]
        decide
      · rw [closure]
        rintro ⟨⟩
      · rw [closure]
        rintro ⟨⟩
      · constructor <;> simp [parent]
    · rintro s a s' ⟨ordered, settled⟩ calm taken
      change step tasks returnWhen false s a = some s' at taken
      refine ⟨ordered_step ordered taken, ?_⟩
      cases a with
      | complete t o =>
          simp only [step] at taken
          split at taken
          · cases taken
          · rename_i live
            obtain rfl := Option.some.inj taken
            exact settled.enters settled.entered (kept_finish (by simpa using live)) rfl rfl
              settled.untimed
      | run i =>
          simp only [step] at taken
          split at taken
          · rename_i scheduled
            obtain ⟨o, ended, rfl⟩ := Option.map_eq_some_iff.mp taken
            exact settled_ran settled ordered scheduled (Option.bind_eq_some_iff.mp ended) calm
          · cases taken
      | expire | timeout => simp [step, settled.untimed] at taken
      | parent => exact settled_parent ordered settled calm taken
      | cancel =>
          obtain rfl := Option.some.inj taken
          exact settled_cancel settled
  exact both.2

/-! ## The claim -/

/-- `wait` has come to its end. -/
def ParentPc.ended : ParentPc F → Bool
  | .returned .. | .raised => true
  | _ => false

/-- `wait` has released its caller when its condition was met, and then gets to its
end by its own steps; it returns no sooner, with sets that partition the tasks and
show the condition. -/
structure Returns [DecidableEq F] (tasks : List F) (returnWhen : ReturnWhen) (s : State F V X) :
    Prop where
  agrees : s.closure.settled = true ↔ Met returnWhen tasks.length s.order
  awake : Met returnWhen tasks.length s.order →
    (machine tasks returnWhen false V X).Inevitably (· = .parent) (·.parent.ended = true) s
  early : ∀ done pending, s.parent = .returned done pending →
    Met returnWhen tasks.length s.order
  partition : ∀ done pending, s.parent = .returned done pending →
    (∀ t, t ∈ tasks ↔ t ∈ done ∨ t ∈ pending) ∧ (∀ t ∈ done, t ∉ pending) ∧
      ∀ t ∈ done, (s.status t).isSome
  all : ∀ done pending, s.parent = .returned done pending → returnWhen = .allCompleted →
    pending = ∅
  completed : ∀ done pending, s.parent = .returned done pending →
    returnWhen = .firstCompleted → done.Nonempty
  exception : ∀ done pending, s.parent = .returned done pending →
    returnWhen = .firstException →
      pending = ∅ ∨ ∃ t ∈ done, ∃ e, s.status t = some (.failed e)

/-- How many steps `wait` is away from its end. -/
def ParentPc.rank (n : Nat) : ParentPc F → Nat
  | .registering index => (n - index) + 2 * n + 8
  | .arming => 2 * n + 7
  | .awaiting => 2 * n + 6
  | .parked => 2 * n + 5
  | .leaving _ => 2 * n + 4
  | .removing _ index => (n - index) + n + 3
  | .sorting index .. => (n - index) + 1
  | .returned .. | .raised => 0

/-- With its `waiter` done, `wait` is not stuck. -/
theorem parent_enabled [DecidableEq F] (woken : s.closure.waiter.done = true)
    (open_ : ¬s.parent.ended = true) :
    ∃ next, parentStep tasks timed s = some next := by
  rw [← Option.isSome_iff_exists]
  unfold parentStep
  split
  · split <;> rfl
  · split <;> rfl
  · split <;> rfl
  · rw [if_pos woken]
    rfl
  · rfl
  · split <;> rfl
  · split <;> rfl
  · rename_i at_
    rw [at_] at open_
    exact absurd rfl open_
  · rename_i at_
    rw [at_] at open_
    exact absurd rfl open_

theorem Waiter.read_rank {waiter : Waiter} (woken : waiter.done = true) :
    (waiter.read : ParentPc F).rank n = 2 * n + 4 := by
  cases waiter with
  | pending => cases woken
  | result | cancelled => rfl

/-- With its `waiter` done, each step of `wait` brings it nearer to its end. -/
theorem parent_closer [DecidableEq F] (woken : s.closure.waiter.done = true)
    (taken : parentStep tasks timed s = some s') :
    s'.closure = s.closure ∧ s'.parent.rank tasks.length < s.parent.rank tasks.length := by
  have read := Waiter.read_rank (F := F) (n := tasks.length) woken
  unfold parentStep at taken
  cases at_ : s.parent with
  | registering index =>
      simp only [at_] at taken
      split at taken <;> obtain rfl := Option.some.inj taken <;> refine ⟨rfl, ?_⟩
      · rename_i here
        have bound := (List.getElem?_eq_some_iff.mp here).1
        simp only [ParentPc.rank]
        omega
      · simp only [ParentPc.rank]
        omega
  | arming =>
      simp only [at_] at taken
      split at taken <;> obtain rfl := Option.some.inj taken <;>
        exact ⟨rfl, Nat.lt_succ_self _⟩
  | awaiting =>
      simp only [at_] at taken
      split at taken <;> obtain rfl := Option.some.inj taken <;> refine ⟨rfl, ?_⟩
      · simp only [ParentPc.rank]
        omega
      · simp only [read]
        simp only [ParentPc.rank]
        omega
  | parked =>
      simp only [at_, if_pos woken] at taken
      obtain rfl := Option.some.inj taken
      refine ⟨rfl, ?_⟩
      simp only [read]
      exact Nat.lt_succ_self _
  | leaving raises =>
      simp only [at_] at taken
      obtain rfl := Option.some.inj taken
      refine ⟨rfl, ?_⟩
      simp only [ParentPc.rank]
      omega
  | removing raises index =>
      simp only [at_] at taken
      split at taken <;> obtain rfl := Option.some.inj taken <;> refine ⟨rfl, ?_⟩
      · rename_i here
        have bound := (List.getElem?_eq_some_iff.mp here).1
        simp only [ParentPc.rank]
        omega
      · cases raises with
        | true =>
            simp only [if_true, ParentPc.rank]
            omega
        | false =>
            simp only [Bool.false_eq_true, if_false, ParentPc.rank]
            omega
  | sorting index done pending =>
      simp only [at_] at taken
      split at taken <;> obtain rfl := Option.some.inj taken <;> refine ⟨rfl, ?_⟩
      · rename_i here
        have bound := (List.getElem?_eq_some_iff.mp here).1
        simp only
        split <;> simp only [ParentPc.rank] <;> omega
      · simp only [ParentPc.rank]
        omega
  | returned | raised => simp [at_] at taken

theorem wait_ends [DecidableEq F] (woken : s.closure.waiter.done = true) :
    (machine tasks returnWhen timed V X).Inevitably (· = .parent) (·.parent.ended = true) s := by
  refine Machine.inevitably_of_measure (fun s => s.closure.waiter.done = true)
    (fun s => s.parent.rank tasks.length) ?_ ?_ woken
  · intro s woken open_
    obtain ⟨next, taken⟩ : ∃ next, parentStep tasks timed s = some next :=
      parent_enabled woken open_
    exact ⟨.parent, next, rfl, taken⟩
  · rintro s a s' woken open_ rfl taken
    obtain ⟨closure, less⟩ := parent_closer woken taken
    refine ⟨?_, less⟩
    rw [closure]
    exact woken

theorem Sorted.members_all (sorted : Sorted tasks returnWhen s index done pending)
    (far : tasks.length ≤ index) (t : F) : t ∈ tasks ↔ t ∈ done ∨ t ∈ pending := by
  rw [sorted.members]
  constructor
  · intro member
    obtain ⟨i, bound, rfl⟩ := List.getElem_of_mem member
    exact ⟨i, Nat.lt_of_lt_of_le bound far, List.getElem?_eq_getElem bound⟩
  · rintro ⟨j, -, at_⟩
    exact List.mem_of_getElem? at_

/-- A task that meets the condition is in `done`, or there is none left pending. -/
theorem Sorted.shows (sorted : Sorted tasks returnWhen s index done pending)
    (far : tasks.length ≤ index) :
    pending = ∅ ∨ ∃ t ∈ done, ∃ o, s.status t = some o ∧ decides returnWhen o := by
  obtain ⟨-, none⟩ | ⟨j, t, o, at_, status, decided, found⟩ := sorted.cause
  · exact .inl none
  · have bound := (List.getElem?_eq_some_iff.mp at_).1
    exact .inr ⟨t, found (Nat.lt_of_lt_of_le bound far), o, status, decided⟩

theorem wait_returns [DecidableEq F] (some_ : 0 < tasks.length)
    (reached : (machine tasks returnWhen false V X).Reach (Calm tasks returnWhen) s) :
    Returns tasks returnWhen s := by
  have settled := settled_of_reach some_ reached
  refine ⟨settled.agrees, ?_, ?_, ?_, ?_, ?_, ?_⟩
  · intro met
    exact wait_ends (settled.woken (settled.agrees.mpr met))
  all_goals
    intro done pending at_
    obtain ⟨result, index, far, sorted⟩ := settled.entered.returned done pending at_
  · exact settled.agrees.mp (settled.released result)
  · exact ⟨sorted.members_all far, sorted.apart, sorted.finished⟩
  · rintro rfl
    obtain none | ⟨t, -, o, -, ⟨⟩⟩ := sorted.shows far
    exact none
  · rintro rfl
    obtain none | ⟨t, member, -⟩ := sorted.shows far
    · obtain isDone | isPending := (sorted.members_all far tasks[0]).mp (List.getElem_mem some_)
      · exact ⟨_, isDone⟩
      · rw [none] at isPending
        exact absurd isPending (Finset.notMem_empty _)
    · exact ⟨t, member⟩
  · rintro rfl
    obtain none | ⟨t, member, o, status, e, rfl⟩ := sorted.shows far
    · exact .inl none
    · exact .inr ⟨t, member, e, status⟩

/-- A callback of a cancelled task that does release the caller leaves `wait`
settled and its condition open. -/
theorem cancelled_releases [DecidableEq F] (some_ : 0 < tasks.length)
    (reached : (machine tasks .firstException false V X).Reach (Calm tasks .firstException) s)
    (live : s.closure.settled = false) (more : s.closure.ndone + 1 ≠ tasks.length) :
    ¬Returns tasks .firstException (s.ran tasks .firstException i .cancelled) := by
  have settled := settled_of_reach some_ reached
  intro returns
  have fired : (onDone .firstException tasks.length s.closure
      (.cancelled : Outcome V X)).settled = true :=
    onDone_settled.mpr (.inr (.inr (.inl ⟨rfl, rfl⟩)))
  obtain before | ⟨e, ⟨⟩⟩ | full := met_append.mp (returns.agrees.mp fired)
  · have already := settled.agrees.mpr (.inl before)
    rw [live] at already
    cases already
  · rw [← settled.counts] at full
    exact more full

/-- For different tasks the second condition holds by itself. -/
theorem calm_of_nodup [DecidableEq F] {a : Act F V X} (some_ : 0 < tasks.length)
    (different : tasks.Nodup)
    (reached : (machine tasks returnWhen false V X).Reach (Calm tasks returnWhen) s)
    (cancelled : ∀ i, a = .run i → returnWhen = .firstException → Ended tasks s i .cancelled →
      s.closure.settled = true ∨ s.closure.ndone + 1 = tasks.length) :
    Calm tasks returnWhen s a := by
  refine ⟨cancelled, ?_⟩
  intro index done pending t _ at_ here _ member
  obtain ⟨-, sorted⟩ := (settled_of_reach some_ reached).entered.sorts index done pending at_
  obtain ⟨j, below, there⟩ := (sorted.members t).mp (.inr member)
  obtain ⟨bound, rfl⟩ := List.getElem?_eq_some_iff.mp here
  obtain ⟨bound', same⟩ := List.getElem?_eq_some_iff.mp there
  exact Nat.ne_of_lt below ((List.Nodup.getElem_inj_iff different).mp same)

/-! ## Runs -/

/-- No task is done, and the loop has not begun. -/
def freshWait (F V X : Type) : State F V X where
  status _ := none
  phase _ := .idle
  closure := .start
  timer := .absent
  parent := .registering 0
  mustCancel := false
  order := []

theorem freshWait_start [DecidableEq F] :
    (machine tasks returnWhen timed V X).start (freshWait F V X) :=
  ⟨fun _ => rfl, rfl, rfl, rfl, rfl, rfl⟩

/-- `Calm`, decided. -/
def calm [DecidableEq F] (tasks : List F) (s : State F V X) : Act F V X → Bool
  | .run i =>
      match tasks[i]?.bind s.status with
      | some .cancelled => s.closure.settled || s.closure.ndone + 1 == tasks.length
      | _ => true
  | .parent =>
      match s.parent with
      | .sorting index _ pending => tasks[index]?.all fun t => decide (t ∉ pending)
      | _ => true
  | _ => true

theorem calm_sound [DecidableEq F] (s : State F V X) (a : Act F V X)
    (checked : calm tasks s a = true) :
    Calm tasks returnWhen s a := by
  refine ⟨?_, ?_⟩
  · rintro i rfl - ⟨t, at_, status⟩
    have here : tasks[i]?.bind s.status = some .cancelled := by
      rw [at_, Option.bind_some]
      exact status
    simpa [calm, here] using checked
  · rintro index done pending t rfl at_ here -
    simpa [calm, at_, here] using checked

/-- The second of two tasks fails. -/
theorem failedRun_ends :
    ((machine [0, 1] .firstException false Nat Nat).execIf (calm [0, 1]) (freshWait Nat Nat Nat)
      [.parent, .parent, .parent, .parent, .parent, .complete 1 (.failed (.raised 3)), .run 1,
        .parent, .parent, .parent, .parent, .parent, .parent, .parent, .parent]).any
      (fun s => s.parent = .returned {1} {0}) = true := by
  decide +kernel

theorem wait_returns_failed :
    ∃ s : State Nat Nat Nat, s.parent = .returned {1} {0} ∧ Returns [0, 1] .firstException s := by
  obtain ⟨s, reached, ends⟩ :=
    Machine.Reach.exists_of_execIf calm_sound freshWait_start failedRun_ends
  exact ⟨s, of_decide_eq_true ends, wait_returns (by decide) reached⟩

/-- The second of two tasks is cancelled. -/
theorem cancelledRun_ends :
    ((machine [0, 1] .firstException false Nat Nat).exec (freshWait Nat Nat Nat)
      [.parent, .parent, .parent, .parent, .parent, .complete 1 .cancelled, .run 1,
        .parent, .parent, .parent, .parent, .parent, .parent, .parent, .parent]).any
      (fun s => s.parent = .returned {1} {0} ∧ s.status 1 = some .cancelled) = true := by
  decide +kernel

theorem wait_returns_cancelled :
    ¬ ∀ s : State Nat Nat Nat, (machine [0, 1] .firstException false Nat Nat).Reachable s →
      Returns [0, 1] .firstException s := by
  intro always
  obtain ⟨s, reached, ends⟩ :=
    Machine.Reachable.exists_of_exec freshWait_start cancelledRun_ends
  obtain ⟨returned, status⟩ := of_decide_eq_true ends
  obtain none | ⟨t, member, e, failed⟩ := (always s reached).exception _ _ returned rfl
  · exact absurd none (Finset.singleton_ne_empty 0)
  · obtain rfl := Finset.mem_singleton.mp member
    rw [status] at failed
    cases failed

end MtAsyncio.Wait
