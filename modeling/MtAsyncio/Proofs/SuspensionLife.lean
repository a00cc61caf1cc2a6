/-
Module: MtAsyncio.Proofs.SuspensionLife
Purpose: The life of a suspension: one coroutine registers it, it is published
  and consumed once, and until then it is among its event's watchers or in the
  hands of the thread that goes through them.
Trusted boundary: none
Main exports: Life, life_step, Watched, watched_step
-/
import MtAsyncio.Model.Events

namespace MtAsyncio.Events

variable {T C E X : Type} [DecidableEq T]
variable {w : Waiters E X} {s s' : State T C E X}

/-! ## The life of a suspension -/

/-- A wake can find the suspension of `x`, or one has found it. -/
def Known (s : State T C E X) (x : X) : Prop :=
  s.published x = true ∨ s.consumed x = true

/-- The suspension of `x` has been made for `c` and nobody else knows it. -/
def Private (s : State T C E X) (c : C) (x : X) : Prop :=
  s.registered x = true ∧ s.target x = some c ∧ s.published x = false ∧ s.consumed x = false

/-- The registration that a thread has claimed and not published. -/
def Pc.enrolled : Pc C E X → Option (C × X)
  | .addWaker c x | .addCheck c x | .addWake c x | .addPush c x => some (c, x)
  | _ => none

/-- The suspensions that a thread has got hold of. -/
def Pc.LooksUp : Pc C E X → X → Prop
  | .push h after, x => h = .timer x ∨ after = .unlock x
  | .addUnlock y, x | .addTimer y, x | .timer y, x | .wake _ y, x => y = x
  | _, _ => False

structure Life (s : State T C E X) : Prop where
  enrolled : ∀ t c x, (s.pc t).enrolled = some (c, x) → Private s c x
  alone : ∀ t u c d x, (s.pc t).enrolled = some (c, x) → (s.pc u).enrolled = some (d, x) → t = u
  unused : ∀ x, s.registered x = false → s.published x = false ∧ s.consumed x = false
  owned : ∀ x, Known s x → ∃ c, s.target x = some c
  watchers : ∀ e, ∀ x ∈ s.watchers e, Known s x
  heap : ∀ x ∈ s.heap, Known s x
  queue : ∀ x, Handle.timer x ∈ s.queue → Known s x
  threads : ∀ t x, (s.pc t).LooksUp x → Known s x
  counted : ∀ x, s.resumes x = if s.consumed x then 1 else 0

theorem goto_self (s : State T C E X) (t : T) (pc : Pc C E X) : (s.goto t pc).pc t = pc :=
  Function.update_self ..

theorem goto_other (s : State T C E X) {t u : T} (other : u ≠ t) (pc : Pc C E X) :
    (s.goto t pc).pc u = s.pc u :=
  Function.update_of_ne other ..

/-- A thread goes on and claims no registration. -/
theorem Life.goto (life : Life s) {t : T} {pc : Pc C E X}
    (enrolled : ∀ c x, pc.enrolled = some (c, x) → (s.pc t).enrolled = some (c, x))
    (looksUp : ∀ x, pc.LooksUp x → Known s x) : Life (s.goto t pc) := by
  have before : ∀ u c x, ((s.goto t pc).pc u).enrolled = some (c, x) →
      (s.pc u).enrolled = some (c, x) := by
    intro u c x claimed
    by_cases same : u = t
    · subst same
      rw [goto_self] at claimed
      exact enrolled c x claimed
    · rwa [goto_other s same] at claimed
  refine { life with enrolled := ?_, alone := ?_, threads := ?_ }
  · intro u c x claimed
    exact life.enrolled u c x (before u c x claimed)
  · intro u v c d x first second
    exact life.alone u v c d x (before u c x first) (before v d x second)
  · intro u x
    by_cases same : u = t
    · subst same
      rw [goto_self]
      exact looksUp x
    · rw [goto_other s same]
      exact life.threads u x

/-- `register_coro` claims a waiter that nobody has claimed. -/
theorem Life.claim [DecidableEq X] (life : Life s) {t : T} {c : C} {x : X}
    (free : s.registered x = false) :
    Life ({ s with
      registered := Function.update s.registered x true
      target := Function.update s.target x (some c) }.goto t (.addWaker c x)) := by
  have unused := life.unused x free
  -- whoever has a registration has claimed another waiter
  have before : ∀ {u : T}, u ≠ t → ∀ {d : C} {y : X}, ((s.goto t (.addWaker c x)).pc u).enrolled =
      some (d, y) → (s.pc u).enrolled = some (d, y) ∧ y ≠ x := by
    intro u other d y claimed
    rw [goto_other s other] at claimed
    refine ⟨claimed, ?_⟩
    rintro rfl
    exact absurd (free.symm.trans (life.enrolled u d y claimed).1) (by simp)
  have mine : ∀ {d : C} {y : X}, ((s.goto t (.addWaker c x)).pc t).enrolled = some (d, y) →
      c = d ∧ x = y := by
    intro d y claimed
    rw [goto_self] at claimed
    simpa [Pc.enrolled] using claimed
  refine ⟨?_, ?_, ?_, ?_, life.watchers, life.heap, life.queue, ?_, life.counted⟩
  · intro u d y claimed
    by_cases same : u = t
    · subst same
      obtain ⟨rfl, rfl⟩ := mine claimed
      exact ⟨Function.update_self .., Function.update_self .., unused.1, unused.2⟩
    · obtain ⟨claimed, apart⟩ := before same claimed
      obtain ⟨registered, target, hidden⟩ := life.enrolled u d y claimed
      exact ⟨(Function.update_of_ne apart ..).trans registered,
        (Function.update_of_ne apart ..).trans target, hidden⟩
  · intro u v d f y first second
    by_cases isU : u = t <;> by_cases isV : v = t
    · rw [isU, isV]
    · subst isU
      exact absurd (mine first).2.symm (before isV second).2
    · subst isV
      exact absurd (mine second).2.symm (before isU first).2
    · exact life.alone u v d f y (before isU first).1 (before isV second).1
  · intro y notRegistered
    have apart : y ≠ x := by
      rintro rfl
      simp [State.goto] at notRegistered
    exact life.unused y ((Function.update_of_ne apart ..).symm.trans notRegistered)
  · intro y known
    by_cases same : y = x
    · exact ⟨c, by simp [State.goto, same]⟩
    · obtain ⟨d, target⟩ := life.owned y known
      exact ⟨d, (Function.update_of_ne same ..).trans target⟩
  · intro u y looks
    by_cases same : u = t
    · subst same
      rw [goto_self] at looks
      cases looks
    · rw [goto_other _ same] at looks
      exact life.threads u y looks

/-- The suspension of `x` becomes known: it is published or consumed. -/
theorem Life.reveal [DecidableEq X] (life : Life s) {t : T} {x : X} (pc : Pc C E X)
    (published consumed : Bool) (others : ∀ u, u ≠ t → ∀ d, (s.pc u).enrolled ≠ some (d, x))
    (target : ∃ c, s.target x = some c) (registered : s.registered x = true)
    (known : published = true ∨ consumed = true)
    (enrolled : pc.enrolled = none) (looksUp : ∀ y, pc.LooksUp y → y = x ∨ Known s y) :
    Life ({ s with
      published := Function.update s.published x published
      consumed := Function.update s.consumed x consumed
      resumes := Function.update s.resumes x (if consumed then 1 else 0) }.goto t pc) := by
  have grows : ∀ {y : X}, y = x ∨ Known s y → Known ({ s with
      published := Function.update s.published x published
      consumed := Function.update s.consumed x consumed
      resumes := Function.update s.resumes x (if consumed then 1 else 0) }.goto t pc) y := by
    intro y was
    by_cases same : y = x
    · subst same
      simpa [Known, State.goto] using known
    · simpa [Known, State.goto, same] using was.resolve_left same
  have before : ∀ {u : T} {d : C} {y : X}, ((s.goto t pc).pc u).enrolled = some (d, y) →
      (s.pc u).enrolled = some (d, y) ∧ y ≠ x := by
    intro u d y claimed
    by_cases same : u = t
    · subst same
      rw [goto_self, enrolled] at claimed
      cases claimed
    · rw [goto_other s same] at claimed
      exact ⟨claimed, by rintro rfl; exact others u same d claimed⟩
  refine ⟨?_, ?_, ?_, ?_, ?_, ?_, ?_, ?_, ?_⟩
  · intro u d y claimed
    obtain ⟨claimed, apart⟩ := before claimed
    obtain ⟨isRegistered, isTarget, hidden, pending⟩ := life.enrolled u d y claimed
    exact ⟨isRegistered, isTarget, (Function.update_of_ne apart ..).trans hidden,
      (Function.update_of_ne apart ..).trans pending⟩
  · intro u v d f y first second
    exact life.alone u v d f y (before first).1 (before second).1
  · intro y free
    have apart : y ≠ x := by
      rintro rfl
      exact absurd (registered.symm.trans free) (by simp)
    simpa [State.goto, apart] using life.unused y free
  · intro y knownY
    by_cases same : y = x
    · exact same ▸ target
    · exact life.owned y (by simpa [Known, State.goto, same] using knownY)
  · exact fun e y member => grows (.inr (life.watchers e y member))
  · exact fun y member => grows (.inr (life.heap y member))
  · exact fun y member => grows (.inr (life.queue y member))
  · intro u y looks
    by_cases same : u = t
    · subst same
      rw [goto_self] at looks
      exact grows (looksUp y looks)
    · rw [goto_other _ same] at looks
      exact grows (.inr (life.threads u y looks))
  · intro y
    by_cases same : y = x
    · subst same
      simp [State.goto]
    · simpa [State.goto, same] using life.counted y

omit [DecidableEq T] in
theorem Life.registered_of_known (life : Life s) {x : X} (known : Known s x) :
    s.registered x = true := by
  by_contra free
  have unused := life.unused x (by simpa using free)
  rcases known with published | consumed
  · exact absurd (unused.1.symm.trans published) (by simp)
  · exact absurd (unused.2.symm.trans consumed) (by simp)

omit [DecidableEq T] in
theorem Life.not_enrolled (life : Life s) {x : X} (known : Known s x) (u : T) (d : C) :
    (s.pc u).enrolled ≠ some (d, x) := by
  intro claimed
  obtain ⟨_, _, hidden, pending⟩ := life.enrolled u d x claimed
  rcases known with published | consumed
  · exact absurd (hidden.symm.trans published) (by simp)
  · exact absurd (pending.symm.trans consumed) (by simp)

/-- The state after an exchange of `resume` that was won. -/
def won [DecidableEq X] (s : State T C E X) (t : T) (x : X) (c : C) (after : After E X) :
    State T C E X :=
  { s with
    consumed := Function.update s.consumed x true
    resumes := Function.update s.resumes x (s.resumes x + 1) }.goto t (.push (.send c) after)

theorem resume_won [DecidableEq X] {t : T} {x : X} {c : C} {after : After E X} {lost : Pc C E X}
    (pending : s.consumed x = false) (target : s.target x = some c) :
    s.resume t x after lost = won s t x c after := by
  simp [State.resume, pending, target, won]

theorem resume_lost [DecidableEq X] {t : T} {x : X} {after : After E X} {lost : Pc C E X}
    (consumed : s.consumed x = true) : s.resume t x after lost = s.goto t lost := by
  simp [State.resume, consumed]

theorem life_won [DecidableEq X] (life : Life s) {t : T} {x : X} {c : C} {after : After E X}
    (others : ∀ u, u ≠ t → ∀ d, (s.pc u).enrolled ≠ some (d, x))
    (registered : s.registered x = true) (pending : s.consumed x = false)
    (target : s.target x = some c) (back : ∀ y, after = .unlock y → y = x) :
    Life (won s t x c after) := by
  have revealed := life.reveal (.push (.send c) after) (s.published x) true others
    ⟨c, target⟩ registered (.inr rfl) rfl fun y looks => .inl
      (back y (looks.resolve_left (by simp)))
  have counted : s.resumes x + 1 = if true then 1 else 0 := by
    rw [life.counted x, pending]
    rfl
  rw [Function.update_eq_self] at revealed
  rw [won, counted]
  exact revealed

/-- The exchange of a `resume` that a watcher or a timer leads to. -/
theorem life_resume [DecidableEq X] (life : Life s) {t : T} {x : X} {after : After E X}
    {lost : Pc C E X} (known : Known s x) (back : ∀ y, after ≠ .unlock y)
    (enrolled : lost.enrolled = none) (looksUp : ∀ y, ¬lost.LooksUp y) :
    Life (s.resume t x after lost) := by
  obtain ⟨c, target⟩ := life.owned x known
  cases consumed : s.consumed x with
  | false =>
      rw [resume_won consumed target]
      exact life_won life (fun u _ => life.not_enrolled known u) (life.registered_of_known known)
        consumed target fun y is => absurd is (back y)
  | true =>
      rw [resume_lost consumed]
      refine life.goto ?_ fun y looks => absurd looks (looksUp y)
      intro d y claimed
      rw [enrolled] at claimed
      cases claimed

theorem After.pc_enrolled (after : After E X) : (after.pc : Pc C E X).enrolled = none := by
  cases after <;> rfl

theorem life_threadStep [DecidableEq C] [DecidableEq E] [DecidableEq X] (life : Life s) {t : T}
    (taken : threadStep w s t = some s') :
    Life s' := by
  unfold threadStep at taken
  have here : ∀ {x : X}, (s.pc t).LooksUp x → Known s x := fun looks => life.threads t _ looks
  cases pc : s.pc t with
  | idle | stepping c | dead => simp [pc] at taken
  | push h after =>
      simp only [pc] at taken
      cases taken
      have queued : Life { s with queue := s.queue ++ [h] } := by
        refine { life with queue := ?_ }
        intro x member
        rcases List.mem_append.mp member with before | now
        · exact life.queue x before
        · exact here (by rw [pc]; exact .inl (List.mem_singleton.mp now).symm)
      refine queued.goto ?_ ?_
      · intro c x claimed
        rw [After.pc_enrolled] at claimed
        cases claimed
      · intro x looks
        cases after with
        | idle | drain e => cases looks
        | unlock y =>
            cases looks
            exact here (by rw [pc]; exact .inr rfl)
  | register c x =>
      simp only [pc] at taken
      cases taken
      unfold register
      split
      · exact Life.goto (s := { s with finished := Function.update s.finished c true })
          { life with } (by rintro _ _ ⟨⟩) (by rintro _ ⟨⟩)
      · rename_i free
        exact life.claim (by simpa using free)
  | addWaker c x =>
      simp only [pc, State.acquire] at taken
      split at taken
      · cases taken
      · cases taken
        exact Life.goto (s := { s with lock := Function.update s.lock (w.event x) (some t) })
          { life with } (by rw [pc]; exact fun _ _ => id) (by rintro _ ⟨⟩)
  | addCheck c x =>
      simp only [pc] at taken
      cases taken
      split <;> exact life.goto (by rw [pc]; exact fun _ _ => id) (by rintro _ ⟨⟩)
  | addWake c x =>
      simp only [pc] at taken
      cases taken
      have claimed : (s.pc t).enrolled = some (c, x) := by rw [pc]; rfl
      obtain ⟨registered, target, _, pending⟩ := life.enrolled t c x claimed
      rw [resume_won pending target]
      refine life_won life ?_ registered pending target fun y is => by cases is; rfl
      exact fun u apart d other => apart (life.alone u t d c x other claimed)
  | addPush c x =>
      simp only [pc] at taken
      cases taken
      have claimed : (s.pc t).enrolled = some (c, x) := by rw [pc]; rfl
      obtain ⟨registered, target, _, pending⟩ := life.enrolled t c x claimed
      have others : ∀ u, u ≠ t → ∀ d, (s.pc u).enrolled ≠ some (d, x) :=
        fun u apart d other => apart (life.alone u t d c x other claimed)
      have revealed := life.reveal (.addUnlock x) true (s.consumed x) others ⟨c, target⟩
        registered (.inl rfl) rfl fun y looks => .inl looks.symm
      rw [← life.counted x, Function.update_eq_self, Function.update_eq_self] at revealed
      refine { revealed with watchers := ?_ }
      intro e y member
      by_cases same : y = x
      · exact .inl (by simp [State.goto, same])
      · refine revealed.watchers e y ?_
        by_cases here : e = w.event x
        · subst here
          simpa [State.goto, same] using member
        · simpa [State.goto, here] using member
  | addUnlock x =>
      simp only [pc, State.release] at taken
      cases taken
      have known : Known s x := here (by rw [pc]; rfl)
      split
      · exact Life.goto (s := { s with lock := Function.update s.lock (w.event x) none })
          { life with } (by rintro _ _ ⟨⟩) fun y looks => looks ▸ known
      · exact Life.goto (s := { s with lock := Function.update s.lock (w.event x) none })
          { life with } (by rintro _ _ ⟨⟩) (by rintro _ ⟨⟩)
  | addTimer x =>
      simp only [pc] at taken
      cases taken
      have known : Known s x := here (by rw [pc]; rfl)
      have added : Life { s with heap := x :: s.heap } := by
        refine { life with heap := ?_ }
        intro y member
        rcases List.mem_cons.mp member with rfl | before
        · exact known
        · exact life.heap y before
      exact added.goto (by rintro _ _ ⟨⟩) (by rintro _ ⟨⟩)
  | timer x =>
      simp only [pc] at taken
      cases taken
      exact life_resume life (here (by rw [pc]; rfl)) (by simp) rfl (by rintro _ ⟨⟩)
  | notify e =>
      simp only [pc, State.acquire] at taken
      split at taken
      · cases taken
      · cases taken
        exact Life.goto (s := { s with lock := Function.update s.lock e (some t) })
          { life with } (by rintro _ _ ⟨⟩) (by rintro _ ⟨⟩)
  | drain e =>
      simp only [pc] at taken
      split at taken
      · cases taken
        exact Life.goto (s := { s with lock := Function.update s.lock e none })
          { life with } (by rintro _ _ ⟨⟩) (by rintro _ ⟨⟩)
      · rename_i x rest queued
        cases taken
        have popped : Life { s with watchers := Function.update s.watchers e rest } := by
          refine { life with watchers := ?_ }
          intro f y member
          refine life.watchers f y ?_
          by_cases same : f = e
          · subst same
            rw [queued]
            exact List.mem_cons_of_mem _ (by simpa using member)
          · simpa [same] using member
        refine popped.goto (by rintro _ _ ⟨⟩) fun y looks => ?_
        exact looks ▸ life.watchers e x (by rw [queued]; exact List.mem_cons_self)
  | wake e x =>
      simp only [pc] at taken
      cases taken
      exact life_resume life (here (by rw [pc]; rfl)) (by simp) rfl (by rintro _ ⟨⟩)
  | unnotify e =>
      simp only [pc] at taken
      split at taken
      · cases taken
      · cases taken
        exact life.goto (by rintro _ _ ⟨⟩) (by rintro _ ⟨⟩)

theorem not_looksUp_push {h : Handle C X} {c : C} (steps : h.coro = some c) (x : X) :
    ¬(Pc.push h .idle : Pc C E X).LooksUp x := by
  rintro (rfl | unlocks)
  · cases steps
  · cases unlocks

theorem life_step [DecidableEq C] [DecidableEq E] [DecidableEq X] {a : Act T C E X} (life : Life s)
    (taken : step w s a = some s') : Life s' := by
  cases a with
  | thread t => exact life_threadStep life taken
  | spawn t c =>
      simp only [step] at taken
      split at taken
      · split at taken
        · cases taken
        · cases taken
          exact Life.goto (s := { s with spawned := Function.update s.spawned c true })
            { life with } (by rintro _ _ ⟨⟩) fun x looks => absurd looks (not_looksUp_push rfl x)
      · cases taken
  | run t h =>
      simp only [step] at taken
      split at taken
      · split at taken
        · rename_i queued
          cases taken
          have popped : Life { s with queue := s.queue.erase h } :=
            { life with queue := fun x member => life.queue x (List.mem_of_mem_erase member) }
          cases h with
          | send c | throw c => exact popped.goto (by rintro _ _ ⟨⟩) (by rintro _ ⟨⟩)
          | timer x =>
              exact popped.goto (by rintro _ _ ⟨⟩) fun y looks => looks ▸ life.queue x
                queued
        · cases taken
      · cases taken
  | yield t y =>
      simp only [step] at taken
      split at taken
      · rename_i c pc
        cases taken
        cases y with
        | none_ | undrivable =>
            exact life.goto (by rintro _ _ ⟨⟩) fun x looks => absurd looks (not_looksUp_push rfl x)
        | waiter x => exact life.goto (by rintro _ _ ⟨⟩) (by rintro _ ⟨⟩)
        | returned | raised =>
            exact Life.goto (s := { s with finished := Function.update s.finished c true })
              { life with } (by rintro _ _ ⟨⟩) (by rintro _ ⟨⟩)
      · cases taken
  | set t e =>
      simp only [step] at taken
      split at taken
      · split at taken
        · cases taken
          exact life
        · cases taken
          exact Life.goto (s := { s with flag := Function.update s.flag e true })
            { life with } (by rintro _ _ ⟨⟩) (by rintro _ ⟨⟩)
      · cases taken
  | clear t e =>
      simp only [step] at taken
      split at taken
      · split at taken
        · cases taken
          exact Life.goto (s := { s with flag := Function.update s.flag e false })
            { life with } (by rintro _ _ ⟨⟩) (by rintro _ ⟨⟩)
        · cases taken
          exact life
      · cases taken
  | due t x =>
      simp only [step] at taken
      split at taken
      · split at taken
        · rename_i pending
          cases taken
          have popped : Life { s with heap := s.heap.erase x } :=
            { life with heap := fun y member => life.heap y (List.mem_of_mem_erase member) }
          refine popped.goto (by rintro _ _ ⟨⟩) ?_
          rintro y (is | unlocks)
          · cases is
            exact life.heap x pending
          · cases unlocks
        · cases taken
      · cases taken

omit [DecidableEq T] in
theorem life_fresh : Life (fresh : State T C E X) where
  enrolled := by rintro _ _ _ ⟨⟩
  alone := by rintro _ _ _ _ _ ⟨⟩
  unused := fun _ _ => ⟨rfl, rfl⟩
  owned := by
    rintro x (published | consumed)
    · cases published
    · cases consumed
  watchers := by rintro _ _ ⟨⟩
  heap := by rintro _ ⟨⟩
  queue := by rintro _ ⟨⟩
  threads := by rintro _ _ ⟨⟩
  counted := fun _ => rfl

variable {b : State T C E X} {t : T} {pc : Pc C E X}

/-! ## Where a suspension is -/

/-- The event whose watchers a thread has locked. -/
def Pc.locks (w : Waiters E X) : Pc C E X → Option E
  | .addCheck _ x | .addWake _ x | .addPush _ x | .addUnlock x => some (w.event x)
  | .push _ (.unlock x) => some (w.event x)
  | .drain e | .wake e _ | .push _ (.drain e) => some e
  | _ => none

/-- A waker that a thread has popped and not woken yet. -/
def Pc.popped : Pc C E X → Option (E × X)
  | .wake e x => some (e, x)
  | _ => none

theorem Pc.locks_of_popped {e : E} {x : X} {pc : Pc C E X} (is : pc.popped = some (e, x)) :
    pc.locks w = some e := by
  cases pc with
  | wake f y =>
      cases is
      rfl
  | _ => cases is

/-- A suspension that a wake can find and none has consumed is among its event's
watchers, or in the hands of the thread that has these locked. -/
structure Watched (w : Waiters E X) (s : State T C E X) : Prop where
  locks : ∀ t e, (s.pc t).locks w = some e ↔ s.lock e = some t
  events : ∀ e, ∀ x ∈ s.watchers e, w.event x = e
  popped : ∀ t e x, (s.pc t).popped = some (e, x) → w.event x = e
  found : ∀ x, s.published x = true → s.consumed x = false →
    x ∈ s.watchers (w.event x) ∨ ∃ t, (s.pc t).popped = some (w.event x, x)

theorem locks_goto (locks : ∀ t e, (s.pc t).locks w = some e ↔ s.lock e = some t)
    (same : pc.locks w = (s.pc t).locks w) (u : T) (e : E) :
    ((s.goto t pc).pc u).locks w = some e ↔ s.lock e = some u := by
  by_cases isT : u = t
  · subst isT
    rw [goto_self, same, locks]
  · rw [goto_other s isT, locks]

theorem popped_goto (popped : ∀ t e x, (s.pc t).popped = some (e, x) → w.event x = e)
    (mine : ∀ e x, pc.popped = some (e, x) → w.event x = e) (u : T) (e : E) (x : X)
    (is : ((s.goto t pc).pc u).popped = some (e, x)) : w.event x = e := by
  by_cases isT : u = t
  · subst isT
    rw [goto_self] at is
    exact mine e x is
  · rw [goto_other s isT] at is
    exact popped u e x is

/-- A popped waker stays where it is while another thread goes on, or while the
thread that has it only loses one that is consumed. -/
theorem found_goto {x : X}
    (found : x ∈ s.watchers (w.event x) ∨ ∃ u, (s.pc u).popped = some (w.event x, x))
    (keeps : (s.pc t).popped ≠ some (w.event x, x)) :
    x ∈ s.watchers (w.event x) ∨ ∃ u, ((s.goto t pc).pc u).popped = some (w.event x, x) := by
  rcases found with watched | ⟨u, popped⟩
  · exact .inl watched
  · have other : u ≠ t := by
      rintro rfl
      exact keeps popped
    exact .inr ⟨u, by rw [goto_other s other]; exact popped⟩

/-- A thread goes on and neither locks nor pops. -/
theorem Watched.goto (watched : Watched w s) (same : pc.locks w = (s.pc t).locks w)
    (had : (s.pc t).popped = none) (has : pc.popped = none) : Watched w (s.goto t pc) where
  locks := locks_goto watched.locks same
  events := watched.events
  popped := popped_goto watched.popped fun e x is => by rw [has] at is; cases is
  found := fun x published pending =>
    found_goto (watched.found x published pending) (by rw [had]; simp)

theorem watched_acquire [DecidableEq E] (watched : Watched w s) {e : E} (free : s.lock e = none)
    (had : (s.pc t).locks w = none) (hadPopped : (s.pc t).popped = none)
    (has : pc.locks w = some e) (hasPopped : pc.popped = none) :
    Watched w ({ s with lock := Function.update s.lock e (some t) }.goto t pc) where
  locks := by
    intro u f
    by_cases isT : u = t
    · subst isT
      rw [goto_self, has]
      by_cases same : f = e
      · simp [State.goto, same]
      · have before := watched.locks u f
        rw [had] at before
        have notMine : s.lock f ≠ some u := by
          intro is
          cases before.mpr is
        simp [State.goto, same, Ne.symm same, notMine]
    · rw [goto_other _ isT]
      by_cases same : f = e
      · subst same
        have before := watched.locks u f
        rw [free] at before
        simp [State.goto, before, Ne.symm isT]
      · simpa [State.goto, same] using watched.locks u f
  events := watched.events
  popped := popped_goto (s := { s with lock := Function.update s.lock e (some t) }) watched.popped
    fun f x is => by rw [hasPopped] at is; cases is
  found := fun x published pending =>
    found_goto (s := { s with lock := Function.update s.lock e (some t) })
      (watched.found x published pending) (by rw [hadPopped]; simp)

theorem watched_release [DecidableEq E] (watched : Watched w s) {e : E}
    (had : (s.pc t).locks w = some e)
    (hadPopped : (s.pc t).popped = none) (has : pc.locks w = none) (hasPopped : pc.popped = none) :
    Watched w (s.release t e pc) where
  locks := by
    intro u f
    have mine := (watched.locks t e).mp had
    by_cases isT : u = t
    · subst isT
      rw [State.release, goto_self, has]
      by_cases same : f = e
      · simp [State.goto, same]
      · have before := watched.locks u f
        rw [had] at before
        have notMine : s.lock f ≠ some u := fun is => same (by simpa using (before.mpr is).symm)
        simp [State.goto, same, notMine]
    · rw [State.release, goto_other _ isT]
      by_cases same : f = e
      · subst same
        have before := watched.locks u f
        rw [mine] at before
        simp [State.goto, before, Ne.symm isT]
      · simpa [State.goto, same] using watched.locks u f
  events := watched.events
  popped := popped_goto (s := { s with lock := Function.update s.lock e none }) watched.popped
    fun f x is => by rw [hasPopped] at is; cases is
  found := fun x published pending =>
    found_goto (s := { s with lock := Function.update s.lock e none })
      (watched.found x published pending) (by rw [hadPopped]; simp)

theorem watched_resume [DecidableEq X] (watched : Watched w s) {x : X} {after : After E X}
    {lost : Pc C E X} (target : ∃ c, s.target x = some c)
    (won_ : ∀ c, (Pc.push (.send c) after : Pc C E X).locks w = (s.pc t).locks w)
    (lost_ : lost.locks w = (s.pc t).locks w) (lostPopped : lost.popped = none)
    (only : ∀ e y, (s.pc t).popped = some (e, y) → y = x) :
    Watched w (s.resume t x after lost) := by
  obtain ⟨c, target⟩ := target
  have keeps : ∀ y, y ≠ x → (s.pc t).popped ≠ some (w.event y, y) :=
    fun y apart popped => apart (only _ y popped)
  cases consumed : s.consumed x with
  | false =>
      rw [resume_won consumed target]
      refine ⟨locks_goto (s := { s with
        consumed := Function.update s.consumed x true
        resumes := Function.update s.resumes x (s.resumes x + 1) }) watched.locks (won_ c),
        watched.events, popped_goto (s := { s with
        consumed := Function.update s.consumed x true
        resumes := Function.update s.resumes x (s.resumes x + 1) }) watched.popped
          (by rintro _ _ ⟨⟩), ?_⟩
      intro y published pending
      have apart : y ≠ x := by
        rintro rfl
        simp [won, State.goto] at pending
      have before : s.consumed y = false := by simpa [won, State.goto, apart] using pending
      exact found_goto (s := { s with
        consumed := Function.update s.consumed x true
        resumes := Function.update s.resumes x (s.resumes x + 1) })
        (watched.found y published before) (keeps y apart)
  | true =>
      rw [resume_lost consumed]
      refine ⟨locks_goto watched.locks lost_, watched.events, popped_goto watched.popped ?_, ?_⟩
      · intro e y is
        rw [lostPopped] at is
        cases is
      intro y published pending
      have apart : y ≠ x := by
        rintro rfl
        exact absurd (consumed.symm.trans pending) (by simp)
      exact found_goto (watched.found y published pending) (keeps y apart)

theorem watched_addPush [DecidableEq E] [DecidableEq X] (watched : Watched w s) {c : C} {x : X}
    (at_ : s.pc t = .addPush c x) :
    Watched w ({ s with
      watchers := Function.update s.watchers (w.event x) (s.watchers (w.event x) ++ [x])
      published := Function.update s.published x true }.goto t (.addUnlock x)) where
  locks := locks_goto (s := { s with
      watchers := Function.update s.watchers (w.event x) (s.watchers (w.event x) ++ [x])
      published := Function.update s.published x true }) watched.locks (by rw [at_]; rfl)
  events := by
    intro e y member
    by_cases same : e = w.event x
    · subst same
      have here : y ∈ s.watchers (w.event x) ∨ y = x := by simpa [State.goto] using member
      rcases here with before | rfl
      · exact watched.events _ y before
      · rfl
    · exact watched.events e y (by simpa [State.goto, same] using member)
  popped := popped_goto (s := { s with
      watchers := Function.update s.watchers (w.event x) (s.watchers (w.event x) ++ [x])
      published := Function.update s.published x true }) watched.popped (by rintro _ _ ⟨⟩)
  found := by
    intro y published pending
    by_cases same : y = x
    · subst same
      exact .inl (by simp [State.goto])
    · have before : s.published y = true := by simpa [State.goto, same] using published
      rcases watched.found y before pending with watching | ⟨u, popped⟩
      · refine .inl ?_
        by_cases here : w.event y = w.event x
        · simp only [State.goto, here, Function.update_self, List.mem_append]
          exact .inl (here ▸ watching)
        · simpa [State.goto, here] using watching
      · refine .inr ⟨u, ?_⟩
        have other : u ≠ t := by
          rintro rfl
          rw [at_] at popped
          cases popped
        rw [goto_other _ other]
        exact popped

theorem watched_pop [DecidableEq E] (watched : Watched w s) {e : E} {x : X} {rest : List X}
    (at_ : s.pc t = .drain e) (queued : s.watchers e = x :: rest) :
    Watched w ({ s with watchers := Function.update s.watchers e rest }.goto t (.wake e x)) where
  locks := locks_goto (s := { s with watchers := Function.update s.watchers e rest }) watched.locks
    (by rw [at_]; rfl)
  events := by
    intro f y member
    by_cases same : f = e
    · subst same
      refine watched.events f y ?_
      rw [queued]
      exact List.mem_cons_of_mem _ (by simpa [State.goto] using member)
    · exact watched.events f y (by simpa [State.goto, same] using member)
  popped := by
    refine popped_goto (s := { s with watchers := Function.update s.watchers e rest })
      watched.popped ?_
    intro f y is
    cases is
    exact watched.events e x (by rw [queued]; exact List.mem_cons_self)
  found := by
    intro y published pending
    rcases watched.found y published pending with watching | ⟨u, popped⟩
    · by_cases here : w.event y = e
      · subst here
        rw [queued] at watching
        rcases List.mem_cons.mp watching with rfl | later
        · exact .inr ⟨t, by rw [goto_self]; rfl⟩
        · exact .inl (by simpa [State.goto] using later)
      · exact .inl (by simpa [State.goto, here] using watching)
    · refine .inr ⟨u, ?_⟩
      have other : u ≠ t := by
        rintro rfl
        rw [at_] at popped
        cases popped
      rw [goto_other _ other]
      exact popped

theorem watched_threadStep [DecidableEq C] [DecidableEq E] [DecidableEq X] (watched : Watched w s)
    (life : Life s) (taken : threadStep w s t = some s') : Watched w s' := by
  unfold threadStep at taken
  cases at_ : s.pc t with
  | idle | stepping c | dead => simp [at_] at taken
  | push h after =>
      simp only [at_] at taken
      cases taken
      exact Watched.goto (s := { s with queue := s.queue ++ [h] }) { watched with }
        (by rw [at_]; cases after <;> rfl) (by rw [at_]; rfl) (by cases after <;> rfl)
  | register c x =>
      simp only [at_] at taken
      cases taken
      unfold register
      split
      · exact Watched.goto (s := { s with finished := Function.update s.finished c true })
          { watched with } (by rw [at_]; rfl) (by rw [at_]; rfl) rfl
      · exact Watched.goto (s := { s with
          registered := Function.update s.registered x true
          target := Function.update s.target x (some c) })
          { watched with } (by rw [at_]; rfl) (by rw [at_]; rfl) rfl
  | addWaker c x =>
      simp only [at_, State.acquire] at taken
      split at taken
      · cases taken
      · rename_i free
        cases taken
        exact watched_acquire watched (by simpa using free) (by rw [at_]; rfl) (by rw [at_]; rfl)
          rfl rfl
  | addCheck c x =>
      simp only [at_] at taken
      cases taken
      split <;> exact watched.goto (by rw [at_]; rfl) (by rw [at_]; rfl) rfl
  | addWake c x =>
      simp only [at_] at taken
      cases taken
      obtain ⟨_, target, _⟩ := life.enrolled t c x (by rw [at_]; rfl)
      exact watched_resume watched ⟨c, target⟩ (fun _ => by rw [at_]; rfl) (by rw [at_]; rfl) rfl
        (by rw [at_]; rintro _ _ ⟨⟩)
  | addPush c x =>
      simp only [at_] at taken
      cases taken
      exact watched_addPush watched at_
  | addUnlock x =>
      simp only [at_] at taken
      cases taken
      split <;> exact watched_release watched (by rw [at_]; rfl) (by rw [at_]; rfl) rfl rfl
  | addTimer x =>
      simp only [at_] at taken
      cases taken
      exact Watched.goto (s := { s with heap := x :: s.heap }) { watched with }
        (by rw [at_]; rfl) (by rw [at_]; rfl) rfl
  | timer x =>
      simp only [at_] at taken
      cases taken
      exact watched_resume watched (life.owned x (life.threads t x (by rw [at_]; rfl)))
        (fun _ => by rw [at_]; rfl) (by rw [at_]; rfl) rfl (by rw [at_]; rintro _ _ ⟨⟩)
  | notify e =>
      simp only [at_, State.acquire] at taken
      split at taken
      · cases taken
      · rename_i free
        cases taken
        exact watched_acquire watched (by simpa using free) (by rw [at_]; rfl) (by rw [at_]; rfl)
          rfl rfl
  | drain e =>
      simp only [at_] at taken
      split at taken
      · cases taken
        exact watched_release watched (by rw [at_]; rfl) (by rw [at_]; rfl) rfl rfl
      · rename_i x rest queued
        cases taken
        exact watched_pop watched at_ queued
  | wake e x =>
      simp only [at_] at taken
      cases taken
      refine watched_resume watched (life.owned x (life.threads t x (by rw [at_]; rfl)))
        (fun _ => by rw [at_]; rfl) (by rw [at_]; rfl) rfl ?_
      rw [at_]
      intro f y is
      cases is
      rfl
  | unnotify e =>
      simp only [at_] at taken
      split at taken
      · cases taken
      · cases taken
        exact watched.goto (by rw [at_]; rfl) (by rw [at_]; rfl) rfl

theorem watched_step [DecidableEq C] [DecidableEq E] [DecidableEq X] {a : Act T C E X}
    (watched : Watched w s) (life : Life s) (taken : step w s a = some s') : Watched w s' := by
  cases a with
  | thread t => exact watched_threadStep watched life taken
  | spawn t c =>
      simp only [step] at taken
      split at taken
      · rename_i at_
        split at taken
        · cases taken
        · cases taken
          exact Watched.goto (s := { s with spawned := Function.update s.spawned c true })
            { watched with } (by rw [at_]; rfl) (by rw [at_]; rfl) rfl
      · cases taken
  | run t h =>
      simp only [step] at taken
      split at taken
      · rename_i at_
        split at taken
        · cases taken
          exact Watched.goto (s := { s with queue := s.queue.erase h }) { watched with }
            (by rw [at_]; cases h <;> rfl) (by rw [at_]; rfl) (by cases h <;> rfl)
        · cases taken
      · cases taken
  | yield t y =>
      simp only [step] at taken
      split at taken
      · rename_i c at_
        cases taken
        cases y with
        | none_ | undrivable | waiter x =>
            exact watched.goto (by rw [at_]; rfl) (by rw [at_]; rfl)
              rfl
        | returned | raised =>
            exact Watched.goto (s := { s with finished := Function.update s.finished c true })
              { watched with } (by rw [at_]; rfl) (by rw [at_]; rfl) rfl
      · cases taken
  | set t e =>
      simp only [step] at taken
      split at taken
      · rename_i at_
        split at taken
        · cases taken
          exact watched
        · cases taken
          exact Watched.goto (s := { s with flag := Function.update s.flag e true })
            { watched with } (by rw [at_]; rfl) (by rw [at_]; rfl) rfl
      · cases taken
  | clear t e =>
      simp only [step] at taken
      split at taken
      · rename_i at_
        split at taken
        · cases taken
          exact Watched.goto (s := { s with flag := Function.update s.flag e false })
            { watched with } (by rw [at_]; rfl) (by rw [at_]; rfl) rfl
        · cases taken
          exact watched
      · cases taken
  | due t x =>
      simp only [step] at taken
      split at taken
      · rename_i at_
        split at taken
        · cases taken
          exact Watched.goto (s := { s with heap := s.heap.erase x }) { watched with }
            (by rw [at_]; rfl) (by rw [at_]; rfl) rfl
        · cases taken
      · cases taken

omit [DecidableEq T] in
theorem watched_fresh : Watched w (fresh : State T C E X) where
  locks := fun _ _ => ⟨by rintro ⟨⟩, by rintro ⟨⟩⟩
  events := by rintro _ _ ⟨⟩
  popped := by rintro _ _ _ ⟨⟩
  found := by rintro _ ⟨⟩

end MtAsyncio.Events
