/-
Module: MtAsyncio.Proofs.OneContinuation
Purpose: Every coroutine has exactly one continuation: a queued handle, a thread
  that pushes one, a worker that steps it, a registration that has not published
  its suspension yet, or a published suspension that nobody has consumed; or it
  is finished.
Trusted boundary: none
Main exports: Place, At, Placed, placed_step, one_continuation, registering_and_stepping
-/
import MtAsyncio.Lib.Places
import MtAsyncio.Proofs.SuspensionLife

namespace MtAsyncio.Events

open Lib (Machine Settled Moved)

variable {T C E X : Type} [DecidableEq T] [DecidableEq C] [DecidableEq X]
variable {w : Waiters E X} {s s' : State T C E X}

/-! ## Where a coroutine is -/

/-- What a thread that has a coroutine does with it. -/
inductive Role (X : Type) where
  /-- it has made a handle and is about to queue it -/
  | moving
  | stepping
  /-- it registers the waiter, and has not published the suspension -/
  | registering (x : X)
deriving DecidableEq

inductive Place (T X : Type) where
  | unspawned
  | queued
  | held (t : T) (role : Role X)
  | parked (x : X)
  | finished
deriving DecidableEq

/-- The coroutine that a thread has. -/
def Pc.token : Pc C E X → Option (C × Role X)
  | .stepping c => some (c, .stepping)
  | .push h _ => h.coro.map fun c => (c, .moving)
  | .register c x | .addWaker c x | .addCheck c x | .addWake c x | .addPush c x =>
      some (c, .registering x)
  | _ => none

def At (s : State T C E X) (c : C) : Place T X → Prop
  | .unspawned => s.spawned c = false
  | .queued => ∃ h ∈ s.queue, h.coro = some c
  | .held t role => (s.pc t).token = some (c, role)
  | .parked x => s.target x = some c ∧ s.published x = true ∧ s.consumed x = false
  | .finished => s.finished c = true

/-- The queued handles of a coroutine. -/
def handles (s : State T C E X) (c : C) : Nat :=
  s.queue.countP fun h => h.coro = some c

structure Placed (s : State T C E X) : Prop where
  settled : Settled (At s)
  single : ∀ c, handles s c ≤ 1

/-- A place that is not a thread. -/
def Place.outside : Place T X → Bool
  | .held _ _ => false
  | _ => true

variable {b : State T C E X} {t : T} {pc : Pc C E X}

omit [DecidableEq C] [DecidableEq X] in
theorem at_goto_outside {d : C} {r : Place T X} (outside : r.outside = true) :
    At (s.goto t pc) d r ↔ At s d r := by
  cases r <;> first | exact Iff.rfl | cases outside

omit [DecidableEq C] [DecidableEq X] in
theorem at_goto_self {d : C} {role : Role X} :
    At (s.goto t pc) d (.held t role) ↔ pc.token = some (d, role) := by
  rw [At, goto_self]

omit [DecidableEq C] [DecidableEq X] in
theorem at_goto_other {u : T} (other : u ≠ t) {d : C} {role : Role X} :
    At (s.goto t pc) d (.held u role) ↔ At s d (.held u role) := by
  rw [At, goto_other s other, At]

omit [DecidableEq C] [DecidableEq X] in
/-- A thread goes on with the coroutine it has, if any. -/
theorem at_same (pcs : b.pc = s.pc)
    (outside : ∀ d r, r.outside = true → (At b d r ↔ At s d r))
    (token : pc.token = (s.pc t).token) (d : C) (r : Place T X) :
    At (b.goto t pc) d r ↔ At s d r := by
  cases r with
  | held u role =>
      by_cases same : u = t
      · subst same
        rw [at_goto_self, token, At]
      · rw [at_goto_other same, At, At, pcs]
  | _ => rw [at_goto_outside rfl, outside d _ rfl]

omit [DecidableEq C] [DecidableEq X] in
/-- A step of `t` moves `c` and nothing else. -/
theorem moved_goto {c : C} {p q : Place T X} (pcs : b.pc = s.pc)
    (outside : ∀ d r, r.outside = true → (d = c → r ≠ p ∧ r ≠ q) → (At b d r ↔ At s d r))
    (mine : ∀ d role, (d = c → .held t role ≠ p ∧ .held t role ≠ q) →
      (pc.token = some (d, role) ↔ (s.pc t).token = some (d, role)))
    (left : ¬At (b.goto t pc) c p) (arrived : At (b.goto t pc) c q) :
    Moved (At s) (At (b.goto t pc)) c p q := by
  have same : ∀ d r, (d = c → r ≠ p ∧ r ≠ q) → (At (b.goto t pc) d r ↔ At s d r) := by
    intro d r apart
    cases r with
    | held u role =>
        by_cases isT : u = t
        · subst isT
          rw [at_goto_self, mine d role apart, At]
        · rw [at_goto_other isT, At, At, pcs]
    | _ => rw [at_goto_outside rfl, outside d _ rfl apart]
  exact ⟨fun d other r => same d r fun is => absurd is other,
    fun r notP notQ => same c r fun _ => ⟨notP, notQ⟩, left, arrived⟩

omit [DecidableEq C] [DecidableEq X] in
/-- A thread passes its coroutine from one role to another. -/
theorem settled_pass (settled : Settled (At s)) {c : C} {role role' : Role X}
    (pcs : b.pc = s.pc) (outside : ∀ d r, r.outside = true → (At b d r ↔ At s d r))
    (had : (s.pc t).token = some (c, role)) (has : pc.token = some (c, role'))
    (apart : role ≠ role') : Settled (At (b.goto t pc)) := by
  refine settled.moved (p := .held t role) had
    (moved_goto (q := .held t role') pcs (fun d r is _ => outside d r is) ?_ ?_ ?_)
  · intro d r elsewhere
    rw [had, has]
    grind
  · rw [at_goto_self, has]
    grind
  · rw [at_goto_self, has]

omit [DecidableEq C] [DecidableEq X] in
/-- A thread puts its coroutine somewhere. -/
theorem settled_put (settled : Settled (At s)) {c : C} {role : Role X} {q : Place T X}
    (isOutside : q.outside = true) (pcs : b.pc = s.pc)
    (outside : ∀ d r, r.outside = true → (d = c → r ≠ q) → (At b d r ↔ At s d r))
    (had : (s.pc t).token = some (c, role)) (has : pc.token = none) (arrived : At b c q) :
    Settled (At (b.goto t pc)) := by
  refine settled.moved (p := .held t role) had
    (moved_goto (q := q) pcs (fun d r is apart => outside d r is fun isC => (apart isC).2) ?_ ?_ ?_)
  · intro d r elsewhere
    rw [had, has]
    grind
  · rw [at_goto_self, has]
    simp
  · rwa [at_goto_outside isOutside]

omit [DecidableEq C] [DecidableEq X] in
/-- A thread takes a coroutine from somewhere. -/
theorem settled_take (settled : Settled (At s)) {c : C} {role : Role X} {p : Place T X}
    (isOutside : p.outside = true) (pcs : b.pc = s.pc)
    (outside : ∀ d r, r.outside = true → (d = c → r ≠ p) → (At b d r ↔ At s d r))
    (had : (s.pc t).token = none) (has : pc.token = some (c, role)) (here : At s c p)
    (left : ¬At b c p) : Settled (At (b.goto t pc)) := by
  refine settled.moved (p := p) here
    (moved_goto (q := .held t role) pcs (fun d r is apart => outside d r is fun isC =>
      (apart isC).1)
      ?_ ?_ ?_)
  · intro d r elsewhere
    rw [had, has]
    grind
  · rwa [at_goto_outside isOutside]
  · rw [at_goto_self, has]

/-! ### The places after a step -/

omit [DecidableEq T] [DecidableEq X] in
theorem handles_eq_zero {c : C} : handles s c = 0 ↔ ¬At s c .queued := by
  simp [handles, At, List.countP_eq_zero]

omit [DecidableEq X] in
theorem placed_push (placed : Placed s) {h : Handle C X} {after : After E X}
    (at_ : s.pc t = .push h after) :
    Placed ({ s with queue := s.queue ++ [h] }.goto t after.pc) := by
  have noToken : (after.pc : Pc C E X).token = none := by cases after <;> rfl
  cases step : h.coro with
  | none =>
      have same : ∀ d, (∃ g ∈ s.queue ++ [h], g.coro = some d) ↔ ∃ g ∈ s.queue, g.coro = some d :=
        by
        intro d
        constructor
        · rintro ⟨g, member, is⟩
          rcases List.mem_append.mp member with before | now
          · exact ⟨g, before, is⟩
          · rw [List.mem_singleton.mp now, step] at is
            cases is
        · rintro ⟨g, member, is⟩
          exact ⟨g, List.mem_append_left _ member, is⟩
      refine ⟨placed.settled.same (at_same (b := { s with queue := s.queue ++ [h] }) rfl ?_ ?_), ?_⟩
      · intro d r _
        cases r <;> first | exact Iff.rfl | exact same d
      · rw [noToken, at_, Pc.token, step]
        rfl
      · intro d
        refine Nat.le_trans (Nat.le_of_eq ?_) (placed.single d)
        simp [handles, State.goto, step]
  | some c =>
      have had : (s.pc t).token = some (c, .moving) := by rw [at_, Pc.token, step]; rfl
      constructor
      · refine settled_put (b := { s with queue := s.queue ++ [h] }) (q := .queued) placed.settled
          rfl rfl ?_ had noToken ⟨h, by simp, step⟩
        intro d r _ apart
        cases r with
        | queued =>
            have other : d ≠ c := fun is => apart is rfl
            simp only [At, List.mem_append, List.mem_singleton]
            grind
        | _ => exact Iff.rfl
      · intro d
        by_cases same : d = c
        · subst same
          have here : At s d (.held t .moving) := had
          have none_ : handles s d = 0 := handles_eq_zero.mpr (placed.settled.apart here (by simp))
          simp only [handles] at none_
          simp [handles, State.goto, step, none_]
        · refine Nat.le_trans (Nat.le_of_eq ?_) (placed.single d)
          simp [handles, State.goto, step, Ne.symm same]

theorem placed_run (placed : Placed s) {h : Handle C X} {c : C} (at_ : s.pc t = .idle)
    (queued : h ∈ s.queue) (steps : h.coro = some c) :
    Placed ({ s with queue := s.queue.erase h }.goto t (.stepping c)) := by
  have counted : ∀ d, handles s d =
      handles { s with queue := s.queue.erase h } d + if d = c then 1 else 0 := by
    intro d
    have perm := (List.perm_cons_erase queued).countP_eq fun g => decide (g.coro = some d)
    rw [handles, perm, List.countP_cons, steps, handles]
    simp [eq_comm]
  constructor
  · refine settled_take (b := { s with queue := s.queue.erase h }) (p := .queued)
      placed.settled rfl rfl ?_ (by rw [at_]; rfl) rfl ⟨h, queued, steps⟩ ?_
    · intro d r _ apart
      cases r with
      | queued =>
          have other : d ≠ c := fun is => apart is rfl
          have same := counted d
          rw [if_neg other, Nat.add_zero] at same
          rw [← not_iff_not, ← handles_eq_zero, ← handles_eq_zero, same]
      | _ => exact Iff.rfl
    · rw [← handles_eq_zero]
      have one := placed.single c
      rw [counted c, if_pos rfl] at one
      omega
  · intro d
    have bound := placed.single d
    rw [counted d] at bound
    exact Nat.le_trans (Nat.le_add_right _ _) bound

/-- Taking a timer's handle changes nobody's place. -/
theorem placed_runTimer (placed : Placed s) {x : X} (at_ : s.pc t = .idle)
    (queued : Handle.timer x ∈ s.queue) :
    Placed ({ s with queue := s.queue.erase (.timer x) }.goto t (.timer x)) := by
  have counted : ∀ d, handles { s with queue := s.queue.erase (.timer x) } d = handles s d := by
    intro d
    have perm := (List.perm_cons_erase queued).countP_eq fun g => decide (g.coro = some d)
    rw [handles, handles, perm, List.countP_cons]
    simp [Handle.coro]
  refine ⟨placed.settled.same (at_same rfl ?_ (by rw [at_]; rfl)), ?_⟩
  · intro d r _
    cases r with
    | queued => rw [← not_iff_not, ← handles_eq_zero, ← handles_eq_zero, counted]
    | held u role => exact Iff.rfl
    | _ => exact Iff.rfl
  · intro d
    exact Nat.le_trans (Nat.le_of_eq (counted d)) (placed.single d)

/-- The exchange of `resume` takes the coroutine out of the suspension. -/
theorem placed_won (placed : Placed s) {x : X} {c : C} {after : After E X}
    (noToken : (s.pc t).token = none) (target : s.target x = some c)
    (published : s.published x = true) (pending : s.consumed x = false) :
    Placed (won s t x c after) := by
  refine ⟨?_, placed.single⟩
  unfold won
  refine settled_take (b := { s with
      consumed := Function.update s.consumed x true
      resumes := Function.update s.resumes x (s.resumes x + 1) }) (p := .parked x)
    placed.settled rfl rfl ?_ noToken rfl ⟨target, published, pending⟩ ?_
  · intro d r _ apart
    cases r with
    | parked y =>
        by_cases same : y = x
        · subst same
          have other : d ≠ c := fun is => apart is rfl
          simp [At, target, Ne.symm other]
        · simp [At, same]
    | _ => exact Iff.rfl
  · simp [At]

theorem placed_resume (placed : Placed s) (life : Life s) {x : X} {after : After E X}
    {lost : Pc C E X} (known : Known s x) (noToken : (s.pc t).token = none)
    (lostToken : lost.token = none) : Placed (s.resume t x after lost) := by
  obtain ⟨c, target⟩ := life.owned x known
  cases consumed : s.consumed x with
  | false =>
      have published : s.published x = true :=
        known.resolve_right fun is => absurd (consumed.symm.trans is) (by simp)
      rw [resume_won consumed target]
      exact placed_won placed noToken target published consumed
  | true =>
      rw [resume_lost consumed]
      refine ⟨placed.settled.same (at_same rfl (fun _ _ _ => Iff.rfl) ?_), placed.single⟩
      rw [lostToken, noToken]

omit [DecidableEq X] in
/-- A step that touches no coroutine. -/
theorem Placed.quiet (placed : Placed s) (pcs : b.pc = s.pc)
    (outside : ∀ d r, r.outside = true → (At b d r ↔ At s d r)) (queue : b.queue = s.queue)
    (token : pc.token = (s.pc t).token) : Placed (b.goto t pc) where
  settled := placed.settled.same (at_same pcs outside token)
  single := by
    intro c
    have same : handles (b.goto t pc) c = handles s c := by
      simp only [handles, State.goto, queue]
    exact same ▸ placed.single c

omit [DecidableEq X] in
theorem placed_finish (placed : Placed s) {c : C} {role : Role X}
    (had : (s.pc t).token = some (c, role)) (has : pc.token = none) :
    Placed ({ s with finished := Function.update s.finished c true }.goto t pc) := by
  refine ⟨?_, placed.single⟩
  refine settled_put (b := { s with finished := Function.update s.finished c true })
    (q := .finished) placed.settled rfl rfl ?_ had has (by simp [At])
  intro d r _ apart
  cases r with
  | finished =>
      have other : d ≠ c := fun is => apart is rfl
      simp [At, other]
  | _ => exact Iff.rfl

theorem placed_claim (placed : Placed s) (life : Life s) {c : C} {x : X}
    (at_ : s.pc t = .register c x) (free : s.registered x = false) :
    Placed ({ s with
      registered := Function.update s.registered x true
      target := Function.update s.target x (some c) }.goto t (.addWaker c x)) := by
  refine placed.quiet rfl ?_ rfl (by rw [at_]; rfl)
  intro d r _
  cases r with
  | parked y =>
      by_cases same : y = x
      · subst same
        simp [At, (life.unused y free).1]
      · simp [At, same]
  | _ => exact Iff.rfl

/-- The flag was set: the registration resumes the coroutine itself. -/
theorem placed_addWake (placed : Placed s) (life : Life s) {c : C} {x : X} {after : After E X}
    {lost : Pc C E X} (at_ : s.pc t = .addWake c x) : Placed (s.resume t x after lost) := by
  obtain ⟨_, target, hidden, pending⟩ := life.enrolled t c x (by rw [at_]; rfl)
  have had : (s.pc t).token = some (c, .registering x) := by rw [at_]; rfl
  have has : (Pc.push (.send c) after : Pc C E X).token = some (c, .moving) := rfl
  rw [resume_won pending target]
  refine ⟨?_, placed.single⟩
  refine settled_pass (b := { s with
      consumed := Function.update s.consumed x true
      resumes := Function.update s.resumes x (s.resumes x + 1) }) placed.settled rfl ?_
    had has (by simp)
  intro d r _
  cases r with
  | parked y =>
      by_cases same : y = x
      · subst same
        simp [At, hidden]
      · simp [At, same]
  | _ => exact Iff.rfl

/-- The suspension is published. -/
theorem placed_addPush (placed : Placed s) (life : Life s) {c : C} {x : X}
    (at_ : s.pc t = .addPush c x) {watchers : E → List X} :
    Placed ({ s with
      watchers := watchers
      published := Function.update s.published x true }.goto t (.addUnlock x)) := by
  obtain ⟨_, target, _, pending⟩ := life.enrolled t c x (by rw [at_]; rfl)
  refine ⟨?_, placed.single⟩
  refine settled_put (b := { s with
      watchers := watchers
      published := Function.update s.published x true }) (q := .parked x)
    placed.settled rfl rfl ?_ (by rw [at_]; rfl) rfl ⟨target, by simp, pending⟩
  intro d r _ apart
  cases r with
  | parked y =>
      by_cases same : y = x
      · subst same
        have other : d ≠ c := fun is => apart is rfl
        simp [At, target, Ne.symm other]
      · simp [At, same]
  | _ => exact Iff.rfl

omit [DecidableEq T] [DecidableEq C] [DecidableEq X] in
theorem outside_same (spawned : b.spawned = s.spawned) (queue : b.queue = s.queue)
    (target : b.target = s.target) (published : b.published = s.published)
    (consumed : b.consumed = s.consumed) (finished : b.finished = s.finished)
    (d : C) (r : Place T X) (outside : r.outside = true) : At b d r ↔ At s d r := by
  cases r with
  | held u role => cases outside
  | _ => simp only [At, spawned, queue, target, published, consumed, finished]

theorem placed_threadStep [DecidableEq E] (placed : Placed s) (life : Life s)
    (taken : threadStep w s t = some s') : Placed s' := by
  unfold threadStep at taken
  cases at_ : s.pc t with
  | idle | stepping c | dead => simp [at_] at taken
  | push h after =>
      simp only [at_] at taken
      cases taken
      exact placed_push placed at_
  | register c x =>
      simp only [at_] at taken
      cases taken
      unfold register
      split
      · exact placed_finish placed (by rw [at_]; rfl) rfl
      · rename_i free
        exact placed_claim placed life at_ (by simpa using free)
  | addWaker c x =>
      simp only [at_, State.acquire] at taken
      split at taken
      · cases taken
      · cases taken
        exact placed.quiet rfl (fun _ _ => outside_same rfl rfl rfl rfl rfl rfl _ _) rfl
          (by rw [at_]; rfl)
  | addCheck c x =>
      simp only [at_] at taken
      cases taken
      split <;> exact placed.quiet rfl (fun _ _ _ => Iff.rfl) rfl (by rw [at_]; rfl)
  | addWake c x =>
      simp only [at_] at taken
      cases taken
      exact placed_addWake placed life at_
  | addPush c x =>
      simp only [at_] at taken
      cases taken
      exact placed_addPush placed life at_
  | addUnlock x =>
      simp only [at_, State.release] at taken
      cases taken
      split <;>
        exact placed.quiet rfl (fun _ _ => outside_same rfl rfl rfl rfl rfl rfl _ _) rfl
          (by rw [at_]; rfl)
  | addTimer x =>
      simp only [at_] at taken
      cases taken
      exact placed.quiet rfl (fun _ _ => outside_same rfl rfl rfl rfl rfl rfl _ _) rfl
        (by rw [at_]; rfl)
  | timer x =>
      simp only [at_] at taken
      cases taken
      exact placed_resume placed life (life.threads t x (by rw [at_]; rfl)) (by rw [at_]; rfl) rfl
  | notify e =>
      simp only [at_, State.acquire] at taken
      split at taken
      · cases taken
      · cases taken
        exact placed.quiet rfl (fun _ _ => outside_same rfl rfl rfl rfl rfl rfl _ _) rfl
          (by rw [at_]; rfl)
  | drain e =>
      simp only [at_, State.release] at taken
      split at taken <;> cases taken <;>
        exact placed.quiet rfl (fun _ _ => outside_same rfl rfl rfl rfl rfl rfl _ _) rfl
          (by rw [at_]; rfl)
  | wake e x =>
      simp only [at_] at taken
      cases taken
      exact placed_resume placed life (life.threads t x (by rw [at_]; rfl)) (by rw [at_]; rfl) rfl
  | unnotify e =>
      simp only [at_] at taken
      split at taken
      · cases taken
      · cases taken
        exact placed.quiet rfl (fun _ _ _ => Iff.rfl) rfl (by rw [at_]; rfl)

theorem placed_step [DecidableEq E] {a : Act T C E X} (placed : Placed s) (life : Life s)
    (taken : step w s a = some s') : Placed s' := by
  cases a with
  | thread t => exact placed_threadStep placed life taken
  | spawn t c =>
      simp only [step] at taken
      split at taken
      · rename_i at_
        split at taken
        · cases taken
        · rename_i unspawned
          cases taken
          refine ⟨?_, placed.single⟩
          refine settled_take (b := { s with spawned := Function.update s.spawned c true })
            (p := .unspawned) placed.settled rfl rfl ?_ (by rw [at_]; rfl) rfl
            (by simpa [At] using unspawned) (by simp [At])
          intro d r _ apart
          cases r with
          | unspawned =>
              have other : d ≠ c := fun is => apart is rfl
              simp [At, other]
          | _ => exact Iff.rfl
      · cases taken
  | run t h =>
      simp only [step] at taken
      split at taken
      · rename_i at_
        split at taken
        · rename_i queued
          cases taken
          cases h with
          | send c | throw c => exact placed_run placed at_ queued rfl
          | timer x => exact placed_runTimer placed at_ queued
        · cases taken
      · cases taken
  | yield t y =>
      simp only [step] at taken
      split at taken
      · rename_i c at_
        cases taken
        have had : (s.pc t).token = some (c, .stepping) := by rw [at_]; rfl
        have passed : ∀ {next : Pc C E X} {role : Role X}, next.token = some (c, role) →
            .stepping ≠ role → Placed (s.goto t next) := fun has apart =>
          ⟨settled_pass placed.settled rfl (fun _ _ _ => Iff.rfl) had has apart, placed.single⟩
        cases y with
        | none_ | undrivable => exact passed (show _ = some (c, Role.moving) from rfl) (by simp)
        | waiter x => exact passed (show _ = some (c, Role.registering x) from rfl) (by simp)
        | returned | raised => exact placed_finish placed had rfl
      · cases taken
  | set t e =>
      simp only [step] at taken
      split at taken
      · rename_i at_
        split at taken
        · cases taken
          exact placed
        · cases taken
          exact placed.quiet rfl (fun _ _ => outside_same rfl rfl rfl rfl rfl rfl _ _) rfl
            (by rw [at_]; rfl)
      · cases taken
  | clear t e =>
      simp only [step] at taken
      split at taken
      · rename_i at_
        split at taken
        · cases taken
          exact placed.quiet rfl (fun _ _ => outside_same rfl rfl rfl rfl rfl rfl _ _) rfl
            (by rw [at_]; rfl)
        · cases taken
          exact placed
      · cases taken
  | due t x =>
      simp only [step] at taken
      split at taken
      · rename_i at_
        split at taken
        · cases taken
          exact placed.quiet rfl (fun _ _ => outside_same rfl rfl rfl rfl rfl rfl _ _) rfl
            (by rw [at_]; rfl)
        · cases taken
      · cases taken

omit [DecidableEq T] [DecidableEq X] in
theorem placed_fresh : Placed (fresh : State T C E X) where
  settled := by
    intro c
    refine ⟨.unspawned, rfl, ?_⟩
    intro p here
    cases p with
    | unspawned => rfl
    | queued =>
        obtain ⟨h, member, _⟩ := here
        cases member
    | held t role => cases here
    | parked x => cases here.1
    | finished => cases here
  single := fun _ => Nat.zero_le 1

/-! ## Runs -/

structure Sound (w : Waiters E X) (s : State T C E X) : Prop where
  life : Life s
  placed : Placed s
  watched : Watched w s

theorem sound_of_reachable [DecidableEq E] (reached : (machine w).Reachable s) : Sound w s := by
  refine reached.invariant (Sound w) ?_ ?_
  · rintro _ rfl
    exact ⟨life_fresh, placed_fresh, watched_fresh⟩
  · intro s a s' sound _ taken
    exact ⟨life_step sound.life taken, placed_step sound.placed sound.life taken,
      watched_step sound.watched sound.life taken⟩

omit [DecidableEq T] [DecidableEq X] in
/-- The thread that has drained the watchers of `e` leaves none behind. -/
theorem Sound.drained (sound : Sound w s) {e : E} (at_ : s.pc t = .drain e)
    (empty : s.watchers e = []) {x : X} (event : w.event x = e) (published : s.published x = true) :
    s.consumed x = true := by
  by_contra unconsumed
  rcases sound.watched.found x published (by simpa using unconsumed) with watching | ⟨u, popped⟩
  · rw [event, empty] at watching
    cases watching
  · have mine := (sound.watched.locks t e).mp (by rw [at_]; rfl)
    have theirs : s.lock e = some u := by
      refine (sound.watched.locks u e).mp (Pc.locks_of_popped (x := x) ?_)
      rw [← event]
      exact popped
    have same : t = u := Option.some.inj (mine.symm.trans theirs)
    rw [← same, at_] at popped
    cases popped

omit [DecidableEq C] in
theorem resume_published {x : X} {after : After E X} {lost : Pc C E X} :
    (s.resume t x after lost).published = s.published := by
  unfold State.resume
  split <;> rfl

omit [DecidableEq C] [DecidableEq X] in
theorem acquire_published [DecidableEq E] {e : E} (taken : s.acquire t e pc = some s') :
    s'.published = s.published := by
  unfold State.acquire at taken
  split at taken
  · cases taken
  · cases taken
    rfl

/-- Once published, a suspension stays so. -/
theorem published_threadStep [DecidableEq E] {x : X} (published : s.published x = true)
    (taken : threadStep w s t = some s') : s'.published x = true := by
  unfold threadStep at taken
  cases at_ : s.pc t with
  | idle | stepping c | dead => simp [at_] at taken
  | addWaker c y | notify e =>
      simp only [at_] at taken
      rw [acquire_published taken]
      exact published
  | addWake c y | timer y | wake e y =>
      simp only [at_] at taken
      cases taken
      rw [resume_published]
      exact published
  | addPush c y =>
      simp only [at_] at taken
      cases taken
      by_cases same : x = y
      · simp [State.goto, same]
      · simpa [State.goto, same] using published
  | register c y =>
      simp only [at_, register] at taken
      split at taken <;> cases taken <;> exact published
  | drain e | unnotify e =>
      simp only [at_] at taken
      split at taken <;> cases taken <;> exact published
  | push h after | addCheck c y | addUnlock y | addTimer y =>
      simp only [at_] at taken
      cases taken
      exact published

theorem published_step [DecidableEq E] {a : Act T C E X} {x : X} (published : s.published x = true)
    (taken : step w s a = some s') : s'.published x = true := by
  cases a with
  | thread t => exact published_threadStep published taken
  | yield t y =>
      simp only [step] at taken
      split at taken
      · cases taken
        cases y <;> exact published
      · cases taken
  | spawn t c | run t h | set t e | clear t e | due t y =>
      simp only [step] at taken
      split at taken
      · split at taken <;> cases taken <;> exact published
      · cases taken

/-- A wake can get to the suspension of `x`: from the watchers of its event, from
the hands of the thread that drains them, or from a timer. -/
def Findable (w : Waiters E X) (s : State T C E X) (x : X) : Prop :=
  x ∈ s.watchers (w.event x) ∨ x ∈ s.heap ∨ .timer x ∈ s.queue ∨
    ∃ t, s.pc t = .wake (w.event x) x ∨ s.pc t = .timer x ∨ s.pc t = .push (.timer x) .idle

/-- The situations of a coroutine. -/
def Situated (w : Waiters E X) (s : State T C E X) (c : C) : Place T X → Prop
  | .unspawned => s.spawned c = false
  | .queued => handles s c = 1
  | .held t role => (s.pc t).token = some (c, role)
  | .parked x => s.target x = some c ∧ s.consumed x = false ∧ Findable w s x
  | .finished => s.finished c = true

omit [DecidableEq T] [DecidableEq X] in
theorem Sound.findable_iff (sound : Sound w s) {x : X} (pending : s.consumed x = false) :
    Findable w s x ↔ s.published x = true := by
  have published_of_known : Known s x → s.published x = true := fun known =>
    known.resolve_right fun consumed => absurd (pending.symm.trans consumed) (by simp)
  constructor
  · rintro (watching | timed | due | ⟨t, popped | running | pushing⟩)
    · exact published_of_known (sound.life.watchers _ x watching)
    · exact published_of_known (sound.life.heap x timed)
    · exact published_of_known (sound.life.queue x due)
    · exact published_of_known (sound.life.threads t x (by rw [popped]; rfl))
    · exact published_of_known (sound.life.threads t x (by rw [running]; rfl))
    · exact published_of_known (sound.life.threads t x (by rw [pushing]; exact .inl rfl))
  · intro published
    rcases sound.watched.found x published pending with watching | ⟨t, popped⟩
    · exact .inl watching
    · refine .inr (.inr (.inr ⟨t, .inl ?_⟩))
      revert popped
      cases s.pc t with
      | wake e y =>
          intro is
          cases is
          rfl
      | _ => rintro ⟨⟩

omit [DecidableEq T] [DecidableEq X] in
theorem Sound.situated_iff (sound : Sound w s) (c : C) (p : Place T X) :
    Situated w s c p ↔ At s c p := by
  cases p with
  | queued =>
      have one := sound.placed.single c
      have some_ := handles_eq_zero (s := s) (c := c)
      simp only [Situated]
      constructor
      · intro is
        by_contra absent
        exact absurd (some_.mpr absent) (by omega)
      · intro present
        have positive : handles s c ≠ 0 := fun zero => some_.mp zero present
        omega
  | parked x =>
      constructor
      · rintro ⟨target, pending, findable⟩
        exact ⟨target, (sound.findable_iff pending).mp findable, pending⟩
      · rintro ⟨target, published, pending⟩
        exact ⟨target, pending, (sound.findable_iff pending).mpr published⟩
  | _ => exact Iff.rfl

/-- Every coroutine is in exactly one situation and has at most one queued handle;
a suspension makes at most one handle; and a coroutine parked on an event has
been resumed when a `notify` of that event, which a `set` that flips the flag
makes, comes to its end. -/
theorem one_continuation [DecidableEq E] (reached : (machine w).Reachable s) :
    (∀ c, ∃! p, Situated w s c p) ∧ (∀ c, handles s c ≤ 1) ∧ (∀ x, s.resumes x ≤ 1) ∧
    ∀ c x steps s₁ s₂ t, Situated w s c (.parked x) → (machine w).exec s steps = some s₁ →
      s₁.pc t = .drain (w.event x) → step w s₁ (.thread t) = some s₂ → s₂.pc t = .idle →
      s₂.consumed x = true ∧ s₂.resumes x = 1 := by
  have sound := sound_of_reachable reached
  refine ⟨?_, sound.placed.single, ?_, ?_⟩
  · exact sound.placed.settled.same sound.situated_iff
  · intro x
    rw [sound.life.counted x]
    split <;> omega
  · intro c x steps s₁ s₂ t parked executed at_ taken returned
    have published : s.published x = true := ((sound.situated_iff c _).mp parked).2.1
    have publishedLater : s₁.published x = true :=
      Machine.exec_invariant (fun s => s.published x = true)
        (fun _ _ _ before taken => published_step before taken) published executed
    have reachedLater : (machine w).Reachable s₁ := reached.of_exec executed
    have soundLater := sound_of_reachable reachedLater
    have soundLast : Sound w s₂ :=
      sound_of_reachable (.step (a := .thread t) reachedLater trivial taken)
    -- the loop has ended, so the queue is empty and the thread has the lock
    simp only [step, threadStep, at_] at taken
    cases queued : s₁.watchers (w.event x) with
    | nil =>
        simp only [queued] at taken
        cases taken
        have consumed := soundLater.drained at_ queued rfl publishedLater
        have counted := soundLast.life.counted x
        rw [show (s₁.release t (w.event x) .idle).consumed x = true from consumed] at counted
        exact ⟨consumed, counted⟩
    | cons y rest =>
        simp only [queued] at taken
        cases taken
        rw [goto_self] at returned
        cases returned

/-- One event and one waiter for it, with a timeout. -/
def oneTimed : Waiters Nat Nat where
  event := fun _ => 0
  timed := fun _ => true

/-- Thread `false` spawns the coroutine, steps it and registers the waiter it yields,
up to the timer. -/
def publish : List (Act Bool Nat Nat Nat) :=
  [.spawn false 0, .thread false, .run false (.send 0), .yield false (.waiter 0), .thread false,
    .thread false, .thread false,
    .thread false, .thread false]

theorem publish_ends :
    ((machine oneTimed).exec (fresh : State Bool Nat Nat Nat) publish).any (fun s =>
      s.target 0 = some 0 ∧ s.consumed 0 = false ∧ 0 ∈ s.watchers 0) = true := by
  decide +kernel

theorem one_continuation_when_parked :
    ∃ s : State Bool Nat Nat Nat, Situated oneTimed s 0 (.parked 0) ∧
      ∃! p, Situated oneTimed s 0 p := by
  obtain ⟨s, reached, ends⟩ := Machine.Reachable.exists_of_exec rfl publish_ends
  obtain ⟨target, pending, watching⟩ := of_decide_eq_true ends
  exact ⟨s, ⟨target, pending, .inl watching⟩, (one_continuation reached).1 0⟩

/-! ## Between the situations -/

/-- Anywhere inside of `register_coro`. -/
def Pc.inRegistration : Pc C E X → Option X
  | .register _ x | .addWaker _ x | .addCheck _ x | .addWake _ x | .addPush _ x
  | .addUnlock x | .addTimer x | .push _ (.unlock x) => some x
  | _ => none

/-- Thread `true` sets the event, up to the exchange that resumes the coroutine. -/
def setAndResume : List (Act Bool Nat Nat Nat) :=
  [.set true 0, .thread true, .thread true, .thread true]

/-- The coroutine runs on while its registration still has the timer to add. -/
theorem resumedWhileRegistering_ends :
    ((machine oneTimed).exec (fresh : State Bool Nat Nat Nat)
      (publish ++ setAndResume ++ [.thread true, .thread true, .run true (.send 0)])).any (fun s =>
        (s.target 0 = some 0 ∧ (s.pc false).inRegistration = some 0) ∧ s.pc true = .stepping 0) =
          true := by
  decide +kernel

/-- The winner of the exchange has not queued the handle yet. -/
theorem resumedNotQueued_ends :
    ((machine oneTimed).exec (fresh : State Bool Nat Nat Nat)
      (publish ++ [.thread false] ++ setAndResume)).any (fun s =>
        s.spawned 0 = true ∧ s.queue = [] ∧ (∀ t, s.pc t ≠ .stepping 0) ∧
          (∀ t, (s.pc t).inRegistration = none) ∧ s.consumed 0 = true ∧ s.finished 0 = false) =
      true := by
  decide +kernel

theorem registering_and_stepping :
    (∃ s : State Bool Nat Nat Nat, (machine oneTimed).Reachable s ∧
      (s.target 0 = some 0 ∧ (s.pc false).inRegistration = some 0) ∧
      s.pc true = .stepping 0) ∧
    ∃ s : State Bool Nat Nat Nat, (machine oneTimed).Reachable s ∧
      s.spawned 0 = true ∧ s.queue = [] ∧ (∀ t, s.pc t ≠ .stepping 0) ∧
      (∀ t, (s.pc t).inRegistration = none) ∧ s.consumed 0 = true ∧ s.finished 0 = false := by
  constructor
  · obtain ⟨s, reached, ends⟩ := Machine.Reachable.exists_of_exec rfl resumedWhileRegistering_ends
    exact ⟨s, reached, of_decide_eq_true ends⟩
  · obtain ⟨s, reached, ends⟩ := Machine.Reachable.exists_of_exec rfl resumedNotQueued_ends
    exact ⟨s, reached, of_decide_eq_true ends⟩

end MtAsyncio.Events
