/-
Module: MtAsyncio.Proofs.TaskGroupCreate
Purpose: `create_task` against `_abort` and `_aexit`.  The tests of
  `create_task` are made outside of the group's lock and before the child is in
  `_tasks`, so an `_abort` that copies `_tasks` in between misses the child, and
  so does a parent that finds `_tasks` empty.  Where neither happens every child
  is reached by the abort and done before the group is left.  The argument is
  made on the roll of the group, an abstract model of who is started, listed,
  cancelled or still being made.
Trusted boundary: none
Main exports: Roll, Roll.Move, Roll.Kept, Roll.Move.kept, Unraced, Atomic,
  shared_move, create_task_is_atomic, child_missed_by_abort, child_outlives_group
-/
import MtAsyncio.Model.TaskGroup
import MtAsyncio.Proofs.TaskGroupCancel

namespace MtAsyncio.TaskGroup

open Lib (Machine)
open Tasks

/-! ## The roll of a group -/

inductive Life where
  | absent
  | live
  | done
deriving DecidableEq

/-- How far the parent is: in its body, in `_aexit`, or past the loop of
`_aexit` that waits for `_tasks` to be empty. -/
inductive Phase where
  | inside
  | waiting
  | past
deriving DecidableEq

/-- What `create_task`, `_abort` and the loop of `_aexit` know of the group.
`A` are those who may be inside of `_abort`, `W` those who may be inside of
`create_task`. -/
@[ext]
structure Roll (K A W : Type) where
  child : K → Life
  ended : K → Bool
  tasks : List K
  phase : Phase
  exiting : Bool
  aborting : Bool
  abort : A → Option (AbortPc K)
  create : W → Option (K × CreatePc)
  sent : K → Bool

/-- The call has passed its tests and its child is not in `_tasks` yet. -/
def CreatePc.between : CreatePc → Bool
  | .spawn | .add => true
  | _ => false

variable {K A W : Type} [DecidableEq K] [DecidableEq A] [DecidableEq W]

namespace Roll

def setCreate (r : Roll K A W) (w : W) (call : Option (K × CreatePc)) : Roll K A W :=
  { r with create := Function.update r.create w call }

def setAbort (r : Roll K A W) (a : A) (pc : Option (AbortPc K)) : Roll K A W :=
  { r with abort := Function.update r.abort a pc }

/-- The `_abort` of `a` still has its copy of `_tasks` to make. -/
def Copies (r : Roll K A W) (a : A) : Prop :=
  r.abort a = some .flag ∨ r.abort a = some .snapshot

/-- The `_abort` of `a` has not come to `k` yet. -/
def Reaches (r : Roll K A W) (a : A) (k : K) : Prop :=
  r.Copies a ∨ ∃ todo, (r.abort a = some (.loop todo) ∨ r.abort a = some (.inCancel todo)) ∧
    k ∈ todo

/-- What can happen to the roll. -/
inductive Move (r : Roll K A W) : Roll K A W → Prop where
  | quiet : Move r r
  | call (w : W) (k : K) (free : r.create w = none) : Move r (r.setCreate w (some (k, .exiting)))
  | admitted (w : W) (k : K) (at_ : r.create w = some (k, .exiting))
      (test : ¬(r.exiting = true ∧ r.tasks = [])) : Move r (r.setCreate w (some (k, .aborting)))
  | passed (w : W) (k : K) (at_ : r.create w = some (k, .aborting)) (test : r.aborting = false) :
      Move r (r.setCreate w (some (k, .spawn)))
  /-- the call raises, or it returns after `add_done_callback` -/
  | ended (w : W) (k : K) (pc : CreatePc) (at_ : r.create w = some (k, pc))
      (outside : pc.between = false) : Move r (r.setCreate w none)
  | spawned (w : W) (k : K) (at_ : r.create w = some (k, .spawn)) (absent : r.child k = .absent) :
      Move r ({ r with child := Function.update r.child k .live }.setCreate w (some (k, .add)))
  | added (w : W) (k : K) (at_ : r.create w = some (k, .add)) :
      Move r ({ r with tasks := r.tasks.insert k }.setCreate w (some (k, .callback)))
  | finished (k : K) (ended : Bool) :
      Move r { r with
        child := Function.update r.child k .done, ended := Function.update r.ended k ended }
  /-- the first locked section of `_on_task_done`, which may begin an `_abort` -/
  | booked (k : K) (a : A) (next : Option (AbortPc K)) (done : r.child k = .done)
      (free : r.abort a = none) (next_ : next = none ∨ next = some .flag) :
      Move r ({ r with tasks := r.tasks.erase k }.setAbort a next)
  | aborts (a : A) (free : r.abort a = none) : Move r (r.setAbort a (some .flag))
  | flagged (a : A) (at_ : r.abort a = some .flag) :
      Move r ({ r with aborting := true }.setAbort a (some .snapshot))
  | copied (a : A) (at_ : r.abort a = some .snapshot)
      (unraced : (∀ w k pc, r.create w = some (k, pc) → pc.between = false) ∨
        ∃ b, b ≠ a ∧ r.Copies b) :
      Move r (r.setAbort a (some (.loop r.tasks)))
  | cancelled (a : A) (k : K) (todo : List K) (at_ : r.abort a = some (.loop (k :: todo))) :
      Move r ({ r with sent := Function.update r.sent k true }.setAbort a (some (.inCancel todo)))
  | skipped (a : A) (k : K) (todo : List K) (at_ : r.abort a = some (.loop (k :: todo)))
      (ended : r.ended k = true) : Move r (r.setAbort a (some (.loop todo)))
  | resumed (a : A) (todo : List K) (at_ : r.abort a = some (.inCancel todo)) :
      Move r (r.setAbort a (some (.loop todo)))
  | aborted (a : A) (at_ : r.abort a = some (.loop [])) : Move r (r.setAbort a none)
  | exited (at_ : r.phase = .inside) : Move r { r with exiting := true, phase := .waiting }
  | emptied (at_ : r.phase = .waiting) (empty : r.tasks = [])
      (unraced : ∀ w k pc, r.create w = some (k, pc) →
        pc.between = false ∧ (pc = .aborting → r.aborting = true)) :
      Move r { r with phase := .past }

/-- Nobody who is started is forgotten. -/
structure Kept (r : Roll K A W) : Prop where
  ended : ∀ k, r.ended k = true → r.child k = .done
  exited : r.phase ≠ .inside → r.exiting = true
  listed : ∀ k, r.child k = .live → k ∈ r.tasks ∨ ∃ w, r.create w = some (k, .add)
  /-- a child that is being made while the group aborts will be copied -/
  caught : r.aborting = true → ∀ w k pc, r.create w = some (k, pc) → pc.between = true →
    ∃ a, r.Copies a
  reached : r.aborting = true → ∀ k, k ∈ r.tasks → r.child k = .live →
    r.sent k = true ∨ ∃ a, r.Reaches a k
  closed : r.phase = .past → r.tasks = [] ∧ ∀ w k pc, r.create w = some (k, pc) →
    pc.between = false ∧ (pc = .aborting → r.aborting = true)

variable {r r' : Roll K A W}

omit [DecidableEq K] [DecidableEq A] in
@[simp]
theorem setCreate_self {w : W} {call : Option (K × CreatePc)} :
    (r.setCreate w call).create w = call :=
  Function.update_self ..

omit [DecidableEq K] [DecidableEq A] in
theorem setCreate_of_ne {v w : W} {call : Option (K × CreatePc)} (other : v ≠ w) :
    (r.setCreate w call).create v = r.create v :=
  Function.update_of_ne other ..

omit [DecidableEq K] [DecidableEq A] in
/-- A call of `create_task` moves on outside of its last two steps. -/
theorem Kept.setCreate (kept : r.Kept) {w : W} {call : Option (K × CreatePc)}
    (before : ∀ k, r.create w ≠ some (k, .add))
    (between : r.aborting = true → ∀ k pc, call = some (k, pc) → pc.between = true →
      ∃ a, r.Copies a)
    (closed : r.phase = .past → ∀ k pc, call = some (k, pc) →
      pc.between = false ∧ (pc = .aborting → r.aborting = true)) :
    (r.setCreate w call).Kept where
  ended := kept.ended
  exited := kept.exited
  listed := by
    intro k live
    apply (kept.listed k live).imp_right
    rintro ⟨v, adds⟩
    have other : v ≠ w := by
      rintro rfl
      exact before k adds
    exact ⟨v, by rw [setCreate_of_ne other, adds]⟩
  caught := by
    intro aborting v k pc at_ inside
    by_cases self : v = w
    · subst self
      rw [setCreate_self] at at_
      exact between aborting k pc at_ inside
    · rw [setCreate_of_ne self] at at_
      exact kept.caught aborting v k pc at_ inside
  reached := kept.reached
  closed := by
    intro past
    refine ⟨(kept.closed past).1, ?_⟩
    intro v k pc at_
    by_cases self : v = w
    · subst self
      rw [setCreate_self] at at_
      exact closed past k pc at_
    · rw [setCreate_of_ne self] at at_
      exact (kept.closed past).2 v k pc at_

omit [DecidableEq K] [DecidableEq W] in
theorem Reaches.setAbort_of_ne {a b : A} {k : K} {pc : Option (AbortPc K)} (other : b ≠ a)
    (reaches : r.Reaches b k) : (r.setAbort a pc).Reaches b k := by
  simpa only [Reaches, Copies, Roll.setAbort, Function.update_of_ne other] using reaches

omit [DecidableEq K] [DecidableEq W] in
/-- An `_abort` moves on and forgets nobody. -/
theorem Kept.setAbort (kept : r.Kept) {a : A} {pc : Option (AbortPc K)}
    (copies : r.aborting = true → r.Copies a →
      (∀ w k pc, r.create w = some (k, pc) → pc.between = false) ∨ ∃ b, (r.setAbort a pc).Copies b)
    (reaches : ∀ k, k ∈ r.tasks → r.child k = .live → r.Reaches a k →
      r.sent k = true ∨ ∃ b, (r.setAbort a pc).Reaches b k) :
    (r.setAbort a pc).Kept where
  ended := kept.ended
  exited := kept.exited
  listed := kept.listed
  caught := by
    intro aborting w k pc at_ inside
    obtain ⟨b, copying⟩ := kept.caught aborting w k pc at_ inside
    by_cases self : b = a
    · subst self
      rcases copies aborting copying with none | some
      · rw [none w k pc at_] at inside
        cases inside
      · exact some
    · refine ⟨b, ?_⟩
      simpa only [Copies, Roll.setAbort, Function.update_of_ne self] using copying
  reached := by
    intro aborting k member live
    rcases kept.reached aborting k member live with sent | ⟨b, reaching⟩
    · exact .inl sent
    · by_cases self : b = a
      · subst self
        exact reaches k member live reaching
      · exact .inr ⟨b, reaching.setAbort_of_ne self⟩
  closed := kept.closed

omit [DecidableEq K] [DecidableEq A] [DecidableEq W] in
/-- What the `_abort` of `a` still reaches, read off its counter. -/
theorem reaches_iff {a : A} {k : K} {pc : AbortPc K} (at_ : r.abort a = some pc) :
    r.Reaches a k ↔ pc = .flag ∨ pc = .snapshot ∨
      ∃ todo, (pc = .loop todo ∨ pc = .inCancel todo) ∧ k ∈ todo := by
  simp only [Reaches, Copies, at_, Option.some.injEq, or_assoc]

omit [DecidableEq K] [DecidableEq W] in
theorem Kept.aborts (kept : r.Kept) {a : A} (free : r.abort a = none)
    {pc : Option (AbortPc K)} : (r.setAbort a pc).Kept := by
  apply kept.setAbort
  · rintro - (at_ | at_) <;> rw [free] at at_ <;> cases at_
  · rintro k - - ((at_ | at_) | ⟨todo, at_ | at_, -⟩) <;> rw [free] at at_ <;> cases at_

omit [DecidableEq K] [DecidableEq W] in
/-- An `_abort` past its copy goes on to a list with the same children ahead of
it, but for those that are sent `cancel()` or done. -/
theorem Kept.abortLoops (kept : r.Kept) {a : A} {pc : AbortPc K} {todo : List K}
    {next : Option (AbortPc K)} (at_ : r.abort a = some pc)
    (before : pc = .loop todo ∨ pc = .inCancel todo)
    (ahead : ∀ k, k ∈ todo → r.child k = .live → r.sent k = true ∨
      ∃ rest, (next = some (.loop rest) ∨ next = some (.inCancel rest)) ∧ k ∈ rest) :
    (r.setAbort a next).Kept := by
  apply kept.setAbort
  · rcases before with rfl | rfl <;> rintro - (early | early) <;> rw [at_] at early <;> cases early
  · intro k _ live reaches
    rw [reaches_iff at_] at reaches
    have member : k ∈ todo := by
      rcases before with rfl | rfl <;> simpa using reaches
    apply (ahead k member live).imp_right
    rintro ⟨rest, later⟩
    refine ⟨a, .inr ⟨rest, ?_⟩⟩
    simpa only [Roll.setAbort, Function.update_self] using later

theorem Move.kept (move : r.Move r') (kept : r.Kept) : r'.Kept := by
  cases move with
  | quiet => exact kept
  | call w k free =>
      apply kept.setCreate
      · intro j at_
        rw [free] at at_
        cases at_
      · rintro - j pc ⟨⟩ ⟨⟩
      · rintro - j pc ⟨⟩
        exact ⟨rfl, by rintro ⟨⟩⟩
  | admitted w k at_ test =>
      apply kept.setCreate
      · intro j adds
        rw [at_] at adds
        cases adds
      · rintro - j pc ⟨⟩ ⟨⟩
      · intro past
        -- past the loop `_tasks` stays empty, so the first test raises
        exact absurd ⟨kept.exited (by rw [past]; rintro ⟨⟩), (kept.closed past).1⟩ test
  | passed w k at_ test =>
      apply kept.setCreate
      · intro j adds
        rw [at_] at adds
        cases adds
      · intro aborting
        rw [test] at aborting
        cases aborting
      · intro past
        have aborting := ((kept.closed past).2 w k _ at_).2 rfl
        rw [test] at aborting
        cases aborting
  | ended w k pc at_ outside =>
      apply kept.setCreate
      · intro j adds
        rw [at_] at adds
        cases adds
        cases outside
      · rintro - j pc ⟨⟩
      · rintro - j pc ⟨⟩
  | spawned w k at_ absent =>
      have moved : (r.setCreate w (some (k, .add))).Kept := by
        apply kept.setCreate
        · intro j adds
          rw [at_] at adds
          cases adds
        · intro aborting j pc _ _
          exact kept.caught aborting w k _ at_ rfl
        · intro past
          cases ((kept.closed past).2 w k _ at_).1
      refine ⟨?_, moved.exited, ?_, moved.caught, ?_, moved.closed⟩
      · intro j ended
        have other : j ≠ k := by
          rintro rfl
          have done := kept.ended j ended
          rw [absent] at done
          cases done
        exact (Function.update_of_ne other ..).trans (moved.ended j ended)
      · intro j live
        by_cases self : j = k
        · subst self
          exact .inr ⟨w, setCreate_self⟩
        · exact moved.listed j ((Function.update_of_ne self ..).symm.trans live)
      · intro aborting j member live
        by_cases self : j = k
        · obtain ⟨a, copies⟩ := kept.caught aborting w k _ at_ rfl
          exact .inr ⟨a, .inl copies⟩
        · exact moved.reached aborting j member ((Function.update_of_ne self ..).symm.trans live)
  | added w k at_ =>
      refine ⟨kept.ended, kept.exited, ?_, ?_, ?_, ?_⟩
      · intro j live
        by_cases self : j = k
        · exact .inl (self ▸ List.mem_insert_self)
        · rcases kept.listed j live with member | ⟨v, adds⟩
          · exact .inl (List.mem_insert_of_mem member)
          · have other : v ≠ w := by
              rintro rfl
              rw [at_] at adds
              cases adds
              exact self rfl
            exact .inr ⟨v, by rw [setCreate_of_ne other, adds]⟩
      · intro aborting v j pc call inside
        exact kept.caught aborting w k _ at_ rfl
      · intro aborting j member live
        obtain ⟨a, copies⟩ := kept.caught aborting w k _ at_ rfl
        exact .inr ⟨a, .inl copies⟩
      · intro past
        cases ((kept.closed past).2 w k _ at_).1
  | finished k ended =>
      have before : ∀ j, Function.update r.child k .done j = .live → r.child j = .live := by
        intro j live
        by_cases self : j = k
        · subst self
          rw [Function.update_self] at live
          cases live
        · rwa [Function.update_of_ne self] at live
      refine ⟨?_, kept.exited, fun j live => kept.listed j (before j live), kept.caught,
        fun aborting j member live => kept.reached aborting j member (before j live), kept.closed⟩
      intro j after
      by_cases self : j = k
      · subst self
        exact Function.update_self ..
      · have ended := (Function.update_of_ne self ..).symm.trans after
        exact (Function.update_of_ne self ..).trans (kept.ended j ended)
  | booked k a next done free next_ =>
      have erased : Roll.Kept { r with tasks := r.tasks.erase k } := by
        refine ⟨kept.ended, kept.exited, ?_, kept.caught, ?_, ?_⟩
        · intro j live
          have other : j ≠ k := by
            rintro rfl
            rw [done] at live
            cases live
          exact (kept.listed j live).imp_left (List.mem_erase_of_ne other).mpr
        · intro aborting j member live
          exact kept.reached aborting j (List.mem_of_mem_erase member) live
        · intro past
          obtain ⟨empty, calls⟩ := kept.closed past
          exact ⟨by rw [empty]; rfl, calls⟩
      exact erased.aborts free
  | aborts a free => exact kept.aborts free
  | flagged a at_ =>
      have copies : ({ r with aborting := true }.setAbort a (some .snapshot)).Copies a :=
        .inr (Function.update_self ..)
      refine ⟨kept.ended, kept.exited, kept.listed, fun _ _ _ _ _ _ => ⟨a, copies⟩,
        fun _ _ _ _ => .inr ⟨a, .inl copies⟩, ?_⟩
      intro past
      obtain ⟨empty, calls⟩ := kept.closed past
      exact ⟨empty, fun w k pc call => ⟨(calls w k pc call).1, fun _ => rfl⟩⟩
  | copied a at_ unraced =>
      apply kept.setAbort
      · intro _ _
        apply unraced.imp_right
        rintro ⟨b, other, copies⟩
        refine ⟨b, ?_⟩
        simpa only [Copies, Roll.setAbort, Function.update_of_ne other] using copies
      · intro k member _ _
        exact .inr ⟨a, .inr ⟨r.tasks, .inl (Function.update_self ..), member⟩⟩
  | cancelled a k todo at_ =>
      have noted : Roll.Kept { r with sent := Function.update r.sent k true } := by
        refine ⟨kept.ended, kept.exited, kept.listed, kept.caught, ?_, kept.closed⟩
        intro aborting j member live
        apply (kept.reached aborting j member live).imp_left
        intro sent
        by_cases self : j = k
        · subst self
          exact Function.update_self ..
        · exact (Function.update_of_ne self ..).trans sent
      apply noted.abortLoops at_ (.inl rfl)
      intro j member _
      rcases List.mem_cons.mp member with rfl | member
      · exact .inl (Function.update_self ..)
      · exact .inr ⟨todo, .inr rfl, member⟩
  | skipped a k todo at_ ended =>
      apply kept.abortLoops at_ (.inl rfl)
      intro j member live
      rcases List.mem_cons.mp member with rfl | member
      · rw [kept.ended j ended] at live
        cases live
      · exact .inr ⟨todo, .inl rfl, member⟩
  | resumed a todo at_ =>
      apply kept.abortLoops at_ (.inr rfl)
      intro j member _
      exact .inr ⟨todo, .inl rfl, member⟩
  | aborted a at_ =>
      apply kept.abortLoops at_ (.inl rfl)
      intro j member
      cases member
  | exited at_ =>
      refine ⟨kept.ended, fun _ => rfl, kept.listed, kept.caught, kept.reached, ?_⟩
      rintro ⟨⟩
  | emptied at_ empty unraced =>
      refine ⟨kept.ended, ?_, kept.listed, kept.caught, kept.reached, fun _ => ⟨empty, unraced⟩⟩
      intro _
      exact kept.exited (by rw [at_]; rintro ⟨⟩)

end Roll

/-! ## The roll of the code's group -/

/-- Who may be inside of `create_task`. -/
inductive Creator (K O : Type) where
  | parent
  | child (k : K)
  | outsider (o : O)
deriving DecidableEq

def ChildPc.life : ChildPc K → Life
  | .absent => .absent
  | .body | .creating _ _ => .live
  | .done => .done

def ChildPc.call : ChildPc K → Option (K × CreatePc)
  | .creating k pc => some (k, pc)
  | _ => none

variable {F E O : Type} [DecidableEq F] [DecidableEq E] [DecidableEq O]

namespace ParentPc

def call : ParentPc K F → Option (K × CreatePc)
  | .creating k pc => some (k, pc)
  | _ => none

def phase : ParentPc K F → Phase
  | .body | .bodyAwait _ _ | .creating _ _ | .exiting _ => .inside
  | .baseError _ | .abortTest _ | .abort _ _ _ _ | .loop _ _ | .waiting _ _ _ _ | .caught _ _ |
      .clear _ _ => .waiting
  | _ => .past

end ParentPc

namespace Shared

/-- The `create_task` call that `w` is inside of: the child it makes, and where
the call stands. -/
def create (s : Shared K F E O) : Creator K O → Option (K × CreatePc)
  | .parent => s.group.parent.call
  | .child k => (s.group.child k).call
  | .outsider o => s.outsider o

def roll (s : Shared K F E O) : Roll K (Caller K E) (Creator K O) where
  child k := (s.group.child k).life
  ended k := decide (s.group.kernel.state (.task (some k)) ≠ .pending)
  tasks := s.group.tasks
  phase := s.group.parent.phase
  exiting := s.group.exiting
  aborting := s.group.aborting
  abort := s.group.abortOf
  create := s.create
  sent := s.sent

/-- `_abort` of `c` has its copy of `_tasks` ahead of it. -/
def Copies (s : Shared K F E O) (c : Caller K E) : Prop :=
  s.group.abortOf c = some .flag ∨ s.group.abortOf c = some .snapshot

/-- `_abort` of `c` has not come to child `k` yet. -/
def Reaches (s : Shared K F E O) (c : Caller K E) (k : K) : Prop :=
  s.Copies c ∨ ∃ todo, (s.group.abortOf c = some (.loop todo) ∨
    s.group.abortOf c = some (.inCancel todo)) ∧ k ∈ todo

end Shared

/-- No `create_task` stands between its tests and its `add` when an `_abort`
copies `_tasks`, unless another `_abort` has its copy ahead of it, and none does
when the parent finds `_tasks` empty. -/
structure Unraced (s : Shared K F E O) (a : SharedAct K F E O) : Prop where
  copy : ∀ b c, a = .group b → b.aborter = some c → s.group.abortOf c = some .snapshot →
    (∀ w k pc, s.create w = some (k, pc) → pc.between = false) ∨ ∃ d, d ≠ c ∧ s.Copies d
  empty : ∀ f exc prop, a = .group (.parent f) → s.group.parent = .loop exc prop →
    s.group.tasks = [] → ∀ w k pc, s.create w = some (k, pc) →
      pc.between = false ∧ (pc = .aborting → s.group.aborting = true)

/-- `create_task` is atomic against `_abort` and `_aexit`. -/
structure Atomic (s : Shared K F E O) : Prop where
  /-- a call that ends before it starts its child has changed nothing -/
  raised : ∀ k pc group, createStep s.group k pc = some (group, none) → pc ≠ .callback →
    group = s.group
  /-- while the group aborts, a running child was sent `cancel()` or some
  `_abort` in progress has not come to it yet -/
  sent : s.group.aborting = true → ∀ k, (s.group.child k).life = .live →
    s.sent k = true ∨ ∃ c, s.Reaches c k
  /-- when the group is left, every child is done -/
  left : s.group.parent = .left → ∀ k, (s.group.child k).life ≠ .live

omit [DecidableEq F] [DecidableEq E] [DecidableEq O] in
theorem Roll.Kept.atomic {s : Shared K F E O} (kept : s.roll.Kept) : Atomic s where
  raised := by
    intro k pc group taken ends
    rcases createStep_cases taken with ⟨same, -, -⟩ | ⟨-, -, goes, -⟩ | ⟨-, goes, -⟩ | ⟨at_, -⟩
    · exact same
    · cases goes
    · cases goes
    · exact absurd at_ ends
  sent := by
    intro aborting k live
    rcases kept.listed k live with member | ⟨w, adds⟩
    · exact kept.reached aborting k member live
    · obtain ⟨c, copies⟩ := kept.caught aborting w k _ adds rfl
      exact .inr ⟨c, .inl copies⟩
  left := by
    intro left k live
    obtain ⟨empty, calls⟩ := kept.closed (by simp only [Shared.roll, left, ParentPc.phase])
    rcases kept.listed k live with member | ⟨w, adds⟩
    · rw [empty] at member
      cases member
    · cases (calls w k _ adds).1

/-! ## Every step is a move of the roll -/

section Moves

variable {s : Shared K F E O}

omit [DecidableEq K] [DecidableEq F] [DecidableEq E] [DecidableEq O] in
/-- Nothing on the roll depends on the kernel but which children have ended. -/
theorem roll_setKernel {kernel : Kernel (Option K) F (Caller K E)}
    (same : ∀ k, kernel.state (.task (some k)) = s.group.kernel.state (.task (some k))) :
    ({ s with group := s.group.setKernel kernel } : Shared K F E O).roll = s.roll := by
  have ended : ({ s with group := s.group.setKernel kernel } : Shared K F E O).roll.ended =
      s.roll.ended := by
    funext k
    simp only [Shared.roll, State.setKernel, same k]
  exact Roll.ext rfl ended rfl rfl rfl rfl rfl rfl rfl

omit [DecidableEq F] [DecidableEq O] in
theorem roll_setCallback (group : State K F E) (sent : K → Bool) {k : K} {pc : CallbackPc K F} :
    ({ s with group := group.setCallback k pc, sent := sent } : Shared K F E O).roll =
      ({ s with group := group, sent := sent } : Shared K F E O).roll.setAbort (.callback k)
        pc.abortPc := by
  apply Roll.ext <;> try rfl
  funext c
  by_cases self : c = .callback k
  · subst self
    simp [Shared.roll, Roll.setAbort, State.abortOf, State.setCallback]
  · simp only [Roll.setAbort, Function.update_of_ne self]
    cases c with
    | callback j =>
        have other : j ≠ k := fun same => self (same ▸ rfl)
        simp only [Shared.roll, State.abortOf, State.setCallback, Function.update_of_ne other]
    | parent | other e => rfl

omit [DecidableEq F] in
theorem roll_setParent (group : State K F E) (sent : K → Bool) {pc : ParentPc K F} :
    ({ s with group := group.setParent pc, sent := sent } : Shared K F E O).roll =
      { ({ s with group := group, sent := sent } : Shared K F E O).roll with
        phase := pc.phase
        abort := Function.update group.abortOf .parent pc.abortPc
        create := Function.update
          ({ s with group := group, sent := sent } : Shared K F E O).create .parent pc.call } := by
  apply Roll.ext <;> try rfl
  · funext c
    cases c <;> rfl
  · funext w
    cases w <;> rfl

omit [DecidableEq F] [DecidableEq E] in
theorem roll_setChild (s : Shared K F E O) (k : K) (pc : ChildPc K) :
    ({ s with group := s.group.setChild k pc } : Shared K F E O).roll =
      { s.roll with
        child := Function.update s.roll.child k pc.life
        create := Function.update s.create (.child k) pc.call } := by
  apply Roll.ext <;> try rfl
  · funext j
    by_cases self : j = k
    · subst self
      simp [Shared.roll, State.setChild]
    · simp [Shared.roll, State.setChild, self]
  · funext w
    cases w with
    | child j =>
        by_cases self : j = k
        · subst self
          simp [Shared.roll, Shared.create, State.setChild]
        · simp [Shared.roll, Shared.create, State.setChild, self]
    | parent | outsider o => rfl

omit [DecidableEq F] [DecidableEq E] in
theorem roll_setOutsider {o : O} {call : Option (K × CreatePc)} :
    ({ s with outsider := Function.update s.outsider o call } : Shared K F E O).roll =
      s.roll.setCreate (.outsider o) call := by
  apply Roll.ext <;> try rfl
  funext w
  by_cases self : w = .outsider o
  · subst self
    simp [Shared.roll, Roll.setCreate, Shared.create]
  · simp only [Roll.setCreate, Function.update_of_ne self]
    cases w with
    | outsider v =>
        have other : v ≠ o := fun same => self (same ▸ rfl)
        simp only [Shared.roll, Shared.create, Function.update_of_ne other]
    | parent | child k => rfl

omit [DecidableEq F] [DecidableEq E] in
/-- A child moves inside of `create_task`. -/
theorem roll_childCalls {k : K} {pc : ChildPc K} (life : pc.life = (s.group.child k).life) :
    ({ s with group := s.group.setChild k pc } : Shared K F E O).roll =
      s.roll.setCreate (.child k) pc.call := by
  have alive : Function.update s.roll.child k pc.life = s.roll.child := by
    have same : pc.life = s.roll.child k := life
    rw [same, Function.update_eq_self]
  rw [roll_setChild, alive]
  rfl

/-- A child ends. -/
theorem childEnd_move {k : K} {ending : Ending} {base : Bool} (body : s.group.child k = .body) :
    s.roll.Move ({ s with
      group := { s.group.setKernel (s.group.kernel.settle (some k) ending) with
        base := Function.update s.group.base k base }.setChild k .done } :
          Shared K F E O).roll := by
  have settled : ∀ j, j ≠ k → (s.group.kernel.settle (some k) ending).state (.task (some j)) =
      s.group.kernel.state (.task (some j)) := by
    intro j other
    simp only [Kernel.settle]
    split
    · have apart : (Ref.task (some j) : Ref (Option K) F) ≠ .task (some k) := by
        rintro ⟨⟩
        exact other rfl
      exact Function.update_of_ne apart ..
    · rfl
  have moves := Roll.Move.finished (r := s.roll) k
    (decide ((s.group.kernel.settle (some k) ending).state (.task (some k)) ≠ .pending))
  have ended := roll_setChild { s with
    group := { s.group.setKernel (s.group.kernel.settle (some k) ending) with
      base := Function.update s.group.base k base } } k .done
  rw [ended]
  convert moves using 1
  apply Roll.ext <;> try rfl
  · funext j
    by_cases self : j = k
    · subst self
      exact (Function.update_self j _ s.roll.ended).symm
    · exact (congrArg (fun state => decide (state ≠ FutState.pending)) (settled j self)).trans
        (Function.update_of_ne self _ s.roll.ended).symm
  · have free : s.create (.child k) = none := by
      simp only [Shared.create, body, ChildPc.call]
    exact (congrArg (Function.update s.create (.child k)) free.symm).trans
      (Function.update_eq_self ..)

omit [DecidableEq F] in
/-- A step of a `create_task` call, whoever makes it. -/
theorem create_move {w : Creator K O} {k : K} {pc : CreatePc} {group : State K F E}
    {next : Option CreatePc} (at_ : s.create w = some (k, pc))
    (taken : createStep s.group k pc = some (group, next)) :
    s.roll.Move (({ s with group := group } : Shared K F E O).roll.setCreate w
      (next.map (k, ·))) := by
  cases pc with
  | exiting =>
      cases taken
      split
      · exact .ended w k _ at_ rfl
      · rename_i test
        exact .admitted w k at_ test
  | aborting =>
      cases taken
      split
      · exact .ended w k _ at_ rfl
      · rename_i test
        exact .passed w k at_ (Bool.not_eq_true _ ▸ test)
  | spawn =>
      simp only [createStep] at taken
      split at taken <;> cases taken
      rename_i absent
      have calls : Function.update s.create (.child k) none = s.create := by
        have free : s.create (.child k) = none := by
          simp only [Shared.create, absent, ChildPc.call]
        rw [← free, Function.update_eq_self]
      have started := roll_setChild s k .body
      simp only [ChildPc.life, ChildPc.call, calls] at started
      have moves := Roll.Move.spawned (r := s.roll) w k at_
        (by simp only [Shared.roll, absent, ChildPc.life])
      rw [show ({ s.roll with child := Function.update s.roll.child k .live } : Roll K _ _) = _ from
        started.symm] at moves
      exact moves
  | add =>
      cases taken
      exact .added w k at_
  | callback =>
      cases taken
      exact .ended w k _ at_ rfl

/-- A step of an `_abort`, whoever makes it. -/
theorem abort_move {c : Caller K E} {pc : AbortPc K} {group : State K F E}
    {next : Option (AbortPc K)} (at_ : s.group.abortOf c = some pc)
    (taken : abortStep s.group c pc = some (group, next))
    (copy : pc = .snapshot → (∀ w k pc, s.create w = some (k, pc) → pc.between = false) ∨
      ∃ d, d ≠ c ∧ s.Copies d) :
    s.roll.Move (({ s with
      group := group
      sent := noteSent s.sent (pc.sends s.group) } : Shared K F E O).roll.setAbort c next) := by
  cases pc with
  | flag =>
      cases taken
      exact .flagged c at_
  | snapshot =>
      cases taken
      exact .copied c at_ (copy rfl)
  | loop todo =>
      cases todo with
      | nil =>
          cases taken
          exact .aborted c at_
      | cons k todo =>
          simp only [abortStep] at taken
          simp only [AbortPc.sends]
          split at taken
          · rename_i pending
            obtain ⟨kernel, called, same⟩ := Option.map_eq_some_iff.mp taken
            cases same
            rw [if_pos pending]
            have moves := Roll.Move.cancelled (r := s.roll) c k todo at_
            have quiet := roll_setKernel (s := { s with sent := Function.update s.sent k true })
              (Kernel.step_tasks called)
            exact quiet ▸ moves
          · rename_i ended
            cases taken
            rw [if_neg ended]
            exact .skipped c k todo at_ (decide_eq_true ended)
  | inCancel todo =>
      simp only [abortStep] at taken
      split at taken
      · cases taken
        exact .resumed c todo at_
      · obtain ⟨kernel, called, same⟩ := Option.map_eq_some_iff.mp taken
        cases same
        have quiet := roll_setKernel (s := s) (Kernel.step_tasks (a := .call c) called)
        have still : s.roll.setAbort c (some (.inCancel todo)) = s.roll := by
          have unchanged : s.roll.abort c = some (.inCancel todo) := at_
          rw [Roll.setAbort, ← unchanged, Function.update_eq_self]
        change s.roll.Move (Roll.setAbort
          ({ s with group := s.group.setKernel kernel } : Shared K F E O).roll c _)
        rw [quiet, still]
        exact .quiet

omit [DecidableEq K] [DecidableEq F] [DecidableEq E] [DecidableEq O] in
/-- The parent moves outside of `_abort` and `create_task`. -/
theorem roll_parentPhase (group : State K F E)
    (ended : ∀ k, group.kernel.state (.task (some k)) = s.group.kernel.state (.task (some k)))
    (child : group.child = s.group.child) (tasks : group.tasks = s.group.tasks)
    (aborting : group.aborting = s.group.aborting) (callback : group.callback = s.group.callback)
    (abort : group.parent.abortPc = s.group.parent.abortPc)
    (call : group.parent.call = s.group.parent.call) :
    ({ s with group := group } : Shared K F E O).roll =
      { s.roll with exiting := group.exiting, phase := group.parent.phase } := by
  apply Roll.ext
  · simp only [Shared.roll, child]
  · simp only [Shared.roll, ended]
  · exact tasks
  · rfl
  · rfl
  · exact aborting
  · funext c
    cases c with
    | callback k => exact congrArg CallbackPc.abortPc (congrFun callback k)
    | parent => exact abort
    | other e => rfl
  · funext w
    cases w with
    | parent => exact call
    | child k => exact congrArg ChildPc.call (congrFun child k)
    | outsider o => rfl
  · rfl

omit [DecidableEq F] in
/-- The parent moves inside of `create_task`. -/
theorem roll_parentCalls (group : State K F E) (pc : ParentPc K F)
    (phase : pc.phase = group.parent.phase) (abort : pc.abortPc = group.parent.abortPc) :
    ({ s with group := group.setParent pc } : Shared K F E O).roll =
      ({ s with group := group } : Shared K F E O).roll.setCreate .parent pc.call := by
  have aborts : group.parent.abortPc = group.abortOf .parent := rfl
  rw [roll_setParent _ s.sent, phase, abort, aborts, Function.update_eq_self]
  rfl

omit [DecidableEq F] in
/-- The parent moves inside of `_abort`. -/
theorem roll_parentAborts {group : State K F E} {sent : K → Bool} {pc : ParentPc K F}
    (phase : pc.phase = group.parent.phase) (call : pc.call = group.parent.call) :
    ({ s with group := group.setParent pc, sent := sent } : Shared K F E O).roll =
      ({ s with group := group, sent := sent } : Shared K F E O).roll.setAbort .parent
        pc.abortPc := by
  have calls : group.parent.call =
      ({ s with group := group, sent := sent } : Shared K F E O).create .parent := rfl
  rw [roll_setParent _ _, phase, call, calls, Function.update_eq_self]
  rfl

/-- A step of the parent. -/
theorem parent_move {f : F} {group : State K F E} (taken : parentStep s.group f = some group)
    (unraced : Unraced s (.group (.parent f))) :
    s.roll.Move ({ s with
      group := group
      sent := noteSent s.sent ((Act.parent f).sends s.group) } : Shared K F E O).roll := by
  -- outside of `_abort` nothing is sent, and most steps are not on the roll
  have silent : ∀ after : Shared K F E O, s.group.parent.abortPc = none →
      s.roll.Move ({ after with sent := s.sent } : Shared K F E O).roll →
      s.roll.Move ({ after with
        sent := noteSent s.sent ((Act.parent f).sends s.group) } : Shared K F E O).roll := by
    intro after free moves
    simpa only [Act.sends, Act.aborter, Option.bind_some, State.abortOf, free, Option.bind_none,
      noteSent] using moves
  -- and the roll changes at most in how far the parent is
  have phased : ∀ {g : State K F E},
      (∀ k, g.kernel.state (.task (some k)) = s.group.kernel.state (.task (some k))) →
      g.child = s.group.child ∧ g.tasks = s.group.tasks ∧ g.aborting = s.group.aborting ∧
        g.callback = s.group.callback →
      s.group.parent.abortPc = none ∧ s.group.parent.call = none →
      g.parent.abortPc = none ∧ g.parent.call = none →
      s.roll.Move { s.roll with exiting := g.exiting, phase := g.parent.phase } →
      s.roll.Move ({ s with
        group := g
        sent := noteSent s.sent ((Act.parent f).sends s.group) } : Shared K F E O).roll := by
    intro g ended same before after moves
    refine silent { s with group := g } before.1 ?_
    obtain ⟨child, tasks, aborting, callback⟩ := same
    have moved := roll_parentPhase (s := s) g ended child tasks aborting callback
      (after.1.trans before.1.symm) (after.2.trans before.2.symm)
    exact moved ▸ moves
  have quiet : ∀ {g : State K F E},
      (∀ k, g.kernel.state (.task (some k)) = s.group.kernel.state (.task (some k))) →
      g.child = s.group.child ∧ g.tasks = s.group.tasks ∧ g.aborting = s.group.aborting ∧
        g.callback = s.group.callback →
      s.group.parent.abortPc = none ∧ s.group.parent.call = none →
      g.parent.abortPc = none ∧ g.parent.call = none →
      g.exiting = s.group.exiting ∧ g.parent.phase = s.group.parent.phase →
      s.roll.Move ({ s with
        group := g
        sent := noteSent s.sent ((Act.parent f).sends s.group) } : Shared K F E O).roll := by
    intro g ended same before after still
    apply phased ended same before after
    rw [still.1, still.2]
    exact .quiet
  cases at_ : s.group.parent with
  | body | left =>
      simp only [parentStep, at_] at taken
      cases taken
  | bodyAwait r pc =>
      simp only [parentStep, at_] at taken
      obtain ⟨⟨kernel, next⟩, awaited, rfl⟩ := Option.map_eq_some_iff.mp taken
      have same := fun k : K => congrFun (awaitStep_frame awaited).1 (.task (some k))
      cases next <;>
        exact quiet same ⟨rfl, rfl, rfl, rfl⟩ (by rw [at_]; exact ⟨rfl, rfl⟩) ⟨rfl, rfl⟩
          ⟨rfl, by rw [at_]; rfl⟩
  | creating k pc =>
      simp only [parentStep, at_] at taken
      obtain ⟨⟨group, next⟩, created, rfl⟩ := Option.map_eq_some_iff.mp taken
      apply silent { s with group := group.setParent (.afterCreate k next) }
        (by rw [at_]; rfl)
      have moves := create_move (w := .parent) (by simp only [Shared.create, at_]; rfl) created
      have frame : group.parent = .creating k pc := by
        rcases createStep_cases created with ⟨rfl, -⟩ | ⟨-, -, -, rfl⟩ | ⟨-, -, rfl⟩ |
          ⟨-, -, rfl⟩ <;> exact at_
      have moved := roll_parentCalls (s := s) group (.afterCreate k next)
        (by rw [frame]; cases next <;> rfl) (by rw [frame]; cases next <;> rfl)
      have call : (ParentPc.afterCreate (F := F) k next).call = next.map (k, ·) := by
        cases next <;> rfl
      rw [call] at moved
      exact moved ▸ moves
  | exiting exc =>
      simp only [parentStep, at_] at taken
      cases taken
      exact phased (fun _ => rfl) ⟨rfl, rfl, rfl, rfl⟩ (by rw [at_]; exact ⟨rfl, rfl⟩) ⟨rfl, rfl⟩
        (.exited (by simp only [Shared.roll, at_]; rfl))
  | abortTest exc =>
      simp only [parentStep, at_] at taken
      cases taken
      split
      · refine silent { s with group := s.group.setParent _ } (by rw [at_]; rfl) ?_
        rw [roll_parentAborts (by rw [at_]; rfl) (by rw [at_]; rfl)]
        exact Roll.Move.aborts Caller.parent (by simp only [Shared.roll, State.abortOf, at_]; rfl)
      · exact quiet (fun _ => rfl) ⟨rfl, rfl, rfl, rfl⟩ (by rw [at_]; exact ⟨rfl, rfl⟩) ⟨rfl, rfl⟩
          ⟨rfl, by rw [at_]; rfl⟩
  | caught exc prop =>
      simp only [parentStep, at_] at taken
      cases taken
      split
      · exact quiet (fun _ => rfl) ⟨rfl, rfl, rfl, rfl⟩ (by rw [at_]; exact ⟨rfl, rfl⟩) ⟨rfl, rfl⟩
          ⟨rfl, by rw [at_]; rfl⟩
      · refine silent { s with group := s.group.setParent _ } (by rw [at_]; rfl) ?_
        rw [roll_parentAborts (by rw [at_]; rfl) (by rw [at_]; rfl)]
        exact Roll.Move.aborts Caller.parent (by simp only [Shared.roll, State.abortOf, at_]; rfl)
  | abort exc prop again pc =>
      simp only [parentStep, at_] at taken
      obtain ⟨⟨group, next⟩, aborted, rfl⟩ := Option.map_eq_some_iff.mp taken
      have inside : s.group.abortOf .parent = some pc := by
        simp only [State.abortOf, at_]
        rfl
      have moves := abort_move inside aborted fun copies =>
        unraced.copy _ .parent rfl rfl (copies ▸ inside)
      obtain ⟨kernel, aborting, rfl⟩ := abortStep_frame aborted
      have sends : (Act.parent f).sends s.group = pc.sends s.group := by
        simp only [Act.sends, Act.aborter, Option.bind_some, inside]
      rw [sends]
      rw [roll_parentAborts (by simp only [at_]; cases next <;> cases again <;> rfl)
        (by simp only [at_]; cases next <;> cases again <;> rfl)]
      have abortPc : (ParentPc.afterAbort (F := F) exc prop again next).abortPc = next := by
        cases next <;> cases again <;> rfl
      rw [abortPc]
      exact moves
  | loop exc prop =>
      simp only [parentStep, at_] at taken
      split at taken
      · rename_i empty
        cases taken
        exact phased (fun _ => rfl) ⟨rfl, rfl, rfl, rfl⟩ (by rw [at_]; exact ⟨rfl, rfl⟩)
          ⟨rfl, rfl⟩ (.emptied (by simp only [Shared.roll, at_]; rfl) empty
            (unraced.empty f exc prop rfl at_ empty))
      · split at taken
        · cases taken
          exact quiet (fun _ => rfl) ⟨rfl, rfl, rfl, rfl⟩ (by rw [at_]; exact ⟨rfl, rfl⟩) ⟨rfl, rfl⟩
            ⟨rfl, by rw [at_]; rfl⟩
        · split at taken <;> cases taken
          exact quiet (fun _ => rfl) ⟨rfl, rfl, rfl, rfl⟩ (by rw [at_]; exact ⟨rfl, rfl⟩) ⟨rfl, rfl⟩
            ⟨rfl, by rw [at_]; rfl⟩
  | waiting exc prop g pc =>
      simp only [parentStep, at_] at taken
      obtain ⟨⟨kernel, next⟩, awaited, rfl⟩ := Option.map_eq_some_iff.mp taken
      have same := fun k : K => congrFun (awaitStep_frame awaited).1 (.task (some k))
      have phase : (ParentPc.afterWait (K := K) exc prop g next).phase = .waiting ∧
          (ParentPc.afterWait (K := K) exc prop g next).abortPc = none ∧
          (ParentPc.afterWait (K := K) exc prop g next).call = none := by
        rcases next with pc | outcome
        · exact ⟨rfl, rfl, rfl⟩
        · cases outcome <;> exact ⟨rfl, rfl, rfl⟩
      exact quiet same ⟨rfl, rfl, rfl, rfl⟩ (by rw [at_]; exact ⟨rfl, rfl⟩) phase.2
        ⟨rfl, by rw [at_]; exact phase.1⟩
  | uncancel _ _ pc | reUncancel pc =>
      simp only [parentStep, at_] at taken
      cases taken
      have same := fun k : K =>
        congrFun (Kernel.uncancelStep_state s.group.kernel none pc) (.task (some k))
      cases (s.group.kernel.uncancelStep none pc).2 <;>
        exact quiet same ⟨rfl, rfl, rfl, rfl⟩ (by rw [at_]; exact ⟨rfl, rfl⟩) ⟨rfl, rfl⟩
          ⟨rfl, by rw [at_]; rfl⟩
  | reCancel =>
      simp only [parentStep, at_] at taken
      obtain ⟨kernel, called, rfl⟩ := Option.map_eq_some_iff.mp taken
      have same := Kernel.step_tasks called
      exact quiet same ⟨rfl, rfl, rfl, rfl⟩ (by rw [at_]; exact ⟨rfl, rfl⟩) ⟨rfl, rfl⟩
        ⟨rfl, by rw [at_]; rfl⟩
  | inReCancel =>
      simp only [parentStep, at_] at taken
      split at taken
      · cases taken
        exact quiet (fun _ => rfl) ⟨rfl, rfl, rfl, rfl⟩ (by rw [at_]; exact ⟨rfl, rfl⟩) ⟨rfl, rfl⟩
          ⟨rfl, by rw [at_]; rfl⟩
      · obtain ⟨kernel, called, rfl⟩ := Option.map_eq_some_iff.mp taken
        have same := Kernel.step_tasks (a := .call .parent) called
        have still : s.group.parent.abortPc = none ∧ s.group.parent.call = none := by
          rw [at_]
          exact ⟨rfl, rfl⟩
        exact quiet same ⟨rfl, rfl, rfl, rfl⟩ still still ⟨rfl, rfl⟩
  | _ =>
      simp only [parentStep, at_] at taken
      cases taken
      repeat' split
      all_goals
        exact quiet (fun _ => rfl) ⟨rfl, rfl, rfl, rfl⟩ (by rw [at_]; exact ⟨rfl, rfl⟩) ⟨rfl, rfl⟩
          ⟨rfl, by rw [at_]; rfl⟩

/-- A step of `_on_task_done`. -/
theorem callback_move {k : K} {group : State K F E} (taken : callbackStep s.group k = some group)
    (unraced : Unraced s (.group (.callback k))) :
    s.roll.Move ({ s with
      group := group
      sent := noteSent s.sent ((Act.callback k).sends s.group) } : Shared K F E O).roll := by
  have sends : (Act.callback k).sends s.group =
      (s.group.callback k).abortPc.bind (AbortPc.sends s.group) := rfl
  rw [sends]
  -- a callback outside of `_abort` leaves the roll alone
  have quiet : ∀ {g : State K F E} {pc : CallbackPc K F}, (s.group.callback k).abortPc = none →
      ({ s with group := g } : Shared K F E O).roll = s.roll → pc.abortPc = none →
      s.roll.Move ({ s with
        group := g.setCallback k pc
        sent := noteSent s.sent ((s.group.callback k).abortPc.bind (AbortPc.sends s.group)) } :
          Shared K F E O).roll := by
    intro g pc free same after
    have still : s.roll.setAbort (.callback k) pc.abortPc = s.roll := by
      have before : s.roll.abort (.callback k) = pc.abortPc := free.trans after.symm
      rw [Roll.setAbort, ← before, Function.update_eq_self]
    rw [free, Option.bind_none, noteSent, roll_setCallback (s := s) _ s.sent, same, still]
    exact .quiet
  cases at_ : s.group.callback k with
  | idle =>
      simp only [callbackStep, at_] at taken
      split at taken <;> cases taken
      rename_i ready
      have booked : ∀ {g : State K F E} {pc : CallbackPc K F},
          ({ s with group := g } : Shared K F E O).roll =
            { s.roll with tasks := s.group.tasks.erase k } →
          pc.abortPc = none ∨ pc.abortPc = some .flag →
          s.roll.Move ({ s with group := g.setCallback k pc } : Shared K F E O).roll := by
        intro g pc same next
        rw [roll_setCallback (s := s) _ s.sent, same]
        exact .booked k _ _ (by simp only [Shared.roll, ready.2, ChildPc.life])
          (by simp only [Shared.roll, State.abortOf, at_, CallbackPc.abortPc]) next
      simp only [CallbackPc.abortPc, Option.bind_none, noteSent, bookkeep]
      split
      · exact booked rfl (by cases doCancel s.group; exact .inl rfl; exact .inr rfl)
      · exact booked rfl (.inl rfl)
  | abort pc =>
      simp only [callbackStep, at_] at taken
      obtain ⟨⟨group, next⟩, aborted, rfl⟩ := Option.map_eq_some_iff.mp taken
      have inside : s.group.abortOf (.callback k) = some pc := by
        simp only [State.abortOf, at_, CallbackPc.abortPc]
      have moves := abort_move inside aborted fun copies =>
        unraced.copy _ (.callback k) rfl rfl (copies ▸ inside)
      have abortPc : (CallbackPc.afterAbort (F := F) next).abortPc = next := by
        cases next <;> rfl
      rw [roll_setCallback _ _, abortPc]
      exact moves
  | cancelParent =>
      simp only [callbackStep, at_] at taken
      obtain ⟨kernel, called, rfl⟩ := Option.map_eq_some_iff.mp taken
      exact at_ ▸ quiet (by rw [at_]; rfl) (roll_setKernel (Kernel.step_tasks called)) rfl
  | inCancel =>
      simp only [callbackStep, at_] at taken
      split at taken
      · cases taken
        exact at_ ▸ quiet (by rw [at_]; rfl) rfl rfl
      · obtain ⟨kernel, called, rfl⟩ := Option.map_eq_some_iff.mp taken
        have same := roll_setKernel (s := s) (Kernel.step_tasks (a := .call (.callback k)) called)
        exact same ▸ .quiet
  | wake =>
      simp only [callbackStep, at_] at taken
      cases taken
      refine at_ ▸ quiet (by rw [at_]; rfl) rfl ?_
      split
      · split <;> rfl
      · rfl
  | test f =>
      simp only [callbackStep, at_] at taken
      cases taken
      refine at_ ▸ quiet (by rw [at_]; rfl) rfl ?_
      split <;> rfl
  | set f =>
      simp only [callbackStep, at_] at taken
      cases taken
      split
      · exact at_ ▸ quiet (by rw [at_]; rfl) (roll_setKernel fun _ => rfl) rfl
      · exact at_ ▸ quiet (by rw [at_]; rfl) rfl rfl
  | done =>
      simp only [callbackStep, at_] at taken
      cases taken

/-- Every step of the code's group is a move of its roll. -/
theorem shared_move {s' : Shared K F E O} {a : SharedAct K F E O} (unraced : Unraced s a)
    (taken : sharedStep s a = some s') : s.roll.Move s'.roll := by
  cases a with
  | create o k =>
      simp only [sharedStep] at taken
      split at taken <;> cases taken
      rename_i free
      have moves := Roll.Move.call (r := s.roll) (.outsider o) k free
      have called : ({ s with outsider := Function.update s.outsider o (some (k, .exiting)) } :
          Shared K F E O).roll = s.roll.setCreate (.outsider o) (some (k, .exiting)) :=
        roll_setOutsider
      exact called ▸ moves
  | outsider o =>
      simp only [sharedStep] at taken
      split at taken
      · cases taken
      · rename_i k pc at_
        obtain ⟨⟨group, next⟩, created, rfl⟩ := Option.map_eq_some_iff.mp taken
        have moves := create_move (w := .outsider o) at_ created
        exact roll_setOutsider (s := { s with group := group }) ▸ moves
  | group a =>
      obtain ⟨group, moved, rfl⟩ := Option.map_eq_some_iff.mp taken
      cases a with
      | complete _ _ | wake _ | cancel _ _ | call _ | childAwait _ _ _ | childUncancel _ _ =>
          obtain ⟨kernel, rfl, same, -⟩ := step_outside rfl moved
          have still : ({ s with group := s.group.setKernel kernel } : Shared K F E O).roll =
              s.roll := roll_setKernel same
          exact still ▸ .quiet
      | childCreate k j =>
          simp only [step] at moved
          split at moved <;> cases moved
          rename_i body
          have moves := Roll.Move.call (r := s.roll) (.child k) j
            (by simp only [Shared.roll, Shared.create, body, ChildPc.call])
          have called : ({ s with group := s.group.setChild k (.creating j .exiting) } :
              Shared K F E O).roll = s.roll.setCreate (.child k) (some (j, .exiting)) :=
            roll_childCalls (by rw [body]; rfl)
          exact called ▸ moves
      | childEnd k ending base =>
          simp only [step] at moved
          split at moved <;> cases moved
          rename_i body
          exact childEnd_move body
      | child k =>
          simp only [step] at moved
          split at moved
          · rename_i j pc at_
            obtain ⟨⟨group, next⟩, created, rfl⟩ := Option.map_eq_some_iff.mp moved
            have moves := create_move (w := .child k)
              (by simp only [Shared.create, at_, ChildPc.call]) created
            have frame : (group.child k).life = .live := by
              rcases createStep_cases created with ⟨rfl, -⟩ | ⟨-, absent, -, rfl⟩ | ⟨-, -, rfl⟩ |
                ⟨-, -, rfl⟩
              · rw [at_]
                rfl
              · have other : k ≠ j := by
                  rintro rfl
                  rw [at_] at absent
                  cases absent
                simp only [State.setChild, Function.update_of_ne other, at_, ChildPc.life]
              · simp only [at_, ChildPc.life]
              · simp only [at_, ChildPc.life]
            have called : ({ s with group := group.setChild k (.afterCreate j next) } :
                Shared K F E O).roll =
                  ({ s with group := group } : Shared K F E O).roll.setCreate (.child k)
                    (ChildPc.afterCreate j next).call :=
              roll_childCalls (s := { s with group := group })
                (by rw [frame]; cases next <;> rfl)
            have call : (ChildPc.afterCreate j next).call = next.map (j, ·) := by
              cases next <;> rfl
            rw [call] at called
            exact called ▸ moves
          · cases moved
      | callback k => exact callback_move moved unraced
      | bodyAwait r =>
          simp only [step] at moved
          split at moved <;> cases moved
          rename_i body
          have same := roll_parentPhase (s := s) (s.group.setParent (.bodyAwait r .test))
            (fun _ => rfl) rfl rfl rfl rfl (by rw [body.1]; rfl) (by rw [body.1]; rfl)
          have phase : (ParentPc.bodyAwait (K := K) r .test).phase = s.group.parent.phase := by
            rw [body.1]
            rfl
          simp only [State.setParent, phase] at same
          exact same ▸ .quiet
      | bodyCreate j =>
          simp only [step] at moved
          split at moved <;> cases moved
          rename_i body
          have moves := Roll.Move.call (r := s.roll) Creator.parent j
            (by simp only [Shared.roll, Shared.create, body, ParentPc.call])
          have called := roll_parentCalls (s := s) s.group (.creating j .exiting)
            (by rw [body]; rfl) (by rw [body]; rfl)
          exact called ▸ moves
      | bodyEnd exc =>
          simp only [step] at moved
          split at moved <;> cases moved
          rename_i body
          have same := roll_parentPhase (s := s) (s.group.setParent (.exiting exc))
            (fun _ => rfl) rfl rfl rfl rfl (by rw [body]; rfl) (by rw [body]; rfl)
          have phase : (ParentPc.exiting (K := K) (F := F) exc).phase = s.group.parent.phase := by
            rw [body]
            rfl
          simp only [State.setParent, phase] at same
          exact same ▸ .quiet
      | parent f => exact parent_move moved unraced

end Moves

/-! ## The claim and its runs -/

omit [DecidableEq K] [DecidableEq F] [DecidableEq E] [DecidableEq O] in
theorem shared_start {s : Shared K F E O} (start : SharedStart s) : s.roll.Kept := by
  obtain ⟨⟨fresh, -, notAborting, -, -, empty, -, -, -, -, -, absent, -, body⟩, outside, -⟩ := start
  have noLife : ∀ k, s.roll.child k = .absent := by
    intro k
    simp only [Shared.roll, absent k, ChildPc.life]
  have inside : s.roll.phase = .inside := by
    simp only [Shared.roll, body, ParentPc.phase]
  have calm : s.roll.aborting = false := notAborting
  refine ⟨?_, ?_, ?_, ?_, ?_, ?_⟩
  · intro k ended
    simp [Shared.roll, fresh.1] at ended
  · intro outside
    exact absurd inside outside
  · intro k live
    rw [noLife k] at live
    cases live
  · intro aborting
    rw [calm] at aborting
    cases aborting
  · intro aborting
    rw [calm] at aborting
    cases aborting
  · intro past
    rw [inside] at past
    cases past

/-- In every run in which no `create_task` is caught between its tests and its
`add`, every child is reached by the abort and done before the group is left. -/
theorem create_task_is_atomic {s : Shared K F E O}
    (reached : (sharedMachine K F E O).Reach Unraced s) : Atomic s :=
  Roll.Kept.atomic (Machine.Reach.invariant (fun s => s.roll.Kept) (fun _ => shared_start)
    (fun _ _ _ kept unraced taken => (shared_move unraced taken).kept kept) reached)

def freshShared (K F E O : Type) : Shared K F E O where
  group := freshState K F E
  outsider := fun _ => none
  sent := fun _ => false

omit [DecidableEq K] [DecidableEq F] [DecidableEq E] [DecidableEq O] in
theorem freshShared_start : SharedStart (freshShared K F E O) :=
  ⟨freshState_start, fun _ => rfl, fun _ => rfl⟩

/-- The body makes the child `false`, which fails.  An outsider has passed the
tests of its `create_task` by then and starts the child `true` only after the
abort has copied `_tasks`. -/
def missingRun : List (SharedAct Bool Unit Unit Unit) :=
  List.flatten
    [.group (.bodyCreate false) :: .replicate 5 (.group (.parent ())),
      .create () true :: .replicate 2 (.outsider ()),
      .group (.childEnd false .raised false) :: .replicate 4 (.group (.callback false)),
      .replicate 3 (.outsider ())]

theorem missingRun_ends :
    ((sharedMachine Bool Unit Unit Unit).exec (freshShared _ _ _ _) missingRun).any
      (fun s => s.group.aborting ∧ s.group.child true = .body ∧ s.sent true = false ∧
        s.group.callback false = .cancelParent ∧ s.group.callback true = .idle ∧
        s.group.parent = .body) = true := by
  decide +kernel

theorem child_missed_by_abort :
    ¬ ∀ s : Shared Bool Unit Unit Unit,
      (sharedMachine Bool Unit Unit Unit).Reachable s → Atomic s := by
  intro always
  obtain ⟨s, reached, ends⟩ := Machine.Reachable.exists_of_exec freshShared_start missingRun_ends
  obtain ⟨aborting, body, unsent, first, second, parent⟩ := of_decide_eq_true ends
  rcases (always s reached).sent aborting true (by rw [body]; rfl) with sent | ⟨c, reaches⟩
  · rw [unsent] at sent
    cases sent
  · have free : s.group.abortOf c = none := by
      cases c with
      | callback k => cases k <;> simp [State.abortOf, first, second, CallbackPc.abortPc]
      | parent => simp [State.abortOf, parent, ParentPc.abortPc]
      | other e => rfl
    simp [Shared.Reaches, Shared.Copies, free] at reaches

/-- The parent finds `_tasks` empty and leaves while an outsider stands past the
tests of its `create_task`. -/
def outlivingRun : List (SharedAct Unit Unit Unit Unit) :=
  List.flatten
    [.create () () :: .replicate 2 (.outsider ()),
      .group (.bodyEnd none) :: .replicate 10 (.group (.parent ())),
      .replicate 3 (.outsider ())]

theorem outlivingRun_ends :
    ((sharedMachine Unit Unit Unit Unit).exec (freshShared _ _ _ _) outlivingRun).any
      (fun s => s.group.parent = .left ∧ s.group.child () = .body) = true := by
  decide +kernel

theorem child_outlives_group :
    ¬ ∀ s : Shared Unit Unit Unit Unit,
      (sharedMachine Unit Unit Unit Unit).Reachable s → Atomic s := by
  intro always
  obtain ⟨s, reached, ends⟩ := Machine.Reachable.exists_of_exec freshShared_start outlivingRun_ends
  obtain ⟨left, body⟩ := of_decide_eq_true ends
  exact (always s reached).left left () (by rw [body]; rfl)

/-- `Unraced` for one child and one outsider: nobody is inside of `create_task`
while the parent or a callback moves. -/
def steady (s : Shared Unit F E Unit) : SharedAct Unit F E Unit → Bool
  | .group (.callback _) | .group (.parent _) =>
      (s.create .parent).isNone && (s.create (.child ())).isNone && (s.create (.outsider ())).isNone
  | _ => true

omit [DecidableEq F] [DecidableEq E] in
theorem unraced_of_steady (s : Shared Unit F E Unit) (a : SharedAct Unit F E Unit)
    (checked : steady s a = true) : Unraced s a := by
  have idle : (s.create .parent).isNone && (s.create (.child ())).isNone &&
      (s.create (.outsider ())).isNone → ∀ w k pc, s.create w ≠ some (k, pc) := by
    intro none w k pc call
    simp only [Bool.and_eq_true, Option.isNone_iff_eq_none] at none
    obtain ⟨⟨parent, child⟩, outsider⟩ := none
    cases w with
    | parent =>
        rw [parent] at call
        cases call
    | child j =>
        rw [child] at call
        cases call
    | outsider o =>
        rw [outsider] at call
        cases call
  constructor
  · rintro b c rfl aborter -
    refine .inl fun w k pc call => absurd call ?_
    cases b with
    | callback _ => exact idle checked w k pc
    | parent _ => exact idle checked w k pc
    | _ => cases aborter
  · rintro f exc prop rfl - - w k pc call
    exact absurd call (idle checked w k pc)

/-- The child is made in peace; then the body of the group fails. -/
def reachingRun : List (SharedAct Unit Unit Unit Unit) :=
  List.flatten
    [.create () () :: .replicate 5 (.outsider ()),
      .group (.bodyEnd (some .error)) :: .replicate 6 (.group (.parent ()))]

theorem reachingRun_ends :
    ((sharedMachine Unit Unit Unit Unit).execIf steady (freshShared _ _ _ _) reachingRun).any
      (fun s => s.group.aborting ∧ s.group.child () = .body ∧ s.sent ()) = true := by
  decide +kernel

theorem create_task_is_atomic_when_reached :
    ∃ s : Shared Unit Unit Unit Unit,
      s.group.aborting = true ∧ s.group.child () = .body ∧ s.sent () = true ∧ Atomic s := by
  obtain ⟨s, reached, ends⟩ :=
    Machine.Reach.exists_of_execIf unraced_of_steady freshShared_start reachingRun_ends
  obtain ⟨aborting, body, sent⟩ := of_decide_eq_true ends
  exact ⟨s, aborting, body, sent, create_task_is_atomic reached⟩

end MtAsyncio.TaskGroup
